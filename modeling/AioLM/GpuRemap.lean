import AioLM.GpuResolution

/-!
A saved GPU selection carried over to another backend.
-/

set_option autoImplicit false

namespace AioLM.Gpu

open Fallible

variable {F : Type}

@[ext]
structure Remapped (F : Type) where
  placement : GpuPlacement F
  dropped : List Text
  deriving DecidableEq

def deviceIdentity (devices : List RuntimeDevice) (name : Text) : Option (Text × Nat) := do
  let device ← devices.find? fun device => device.name = name
  let position ← (devices.filter fun item => item.identity = device.identity).findIdx?
    fun item => item.name = name
  return (device.identity, position)

def deviceNamed (devices : List RuntimeDevice) (identity : Text) (position : Nat) : Option Text :=
  ((devices.filter fun item => item.identity = identity)[position]?).map (·.name)

def convert (fromBackend toBackend : Text) (old new : Option (List RuntimeDevice)) (id : Text) :
    Option Text :=
  match Text.stripPrefix (runtimeId fromBackend []) id with
  | none => some id
  | some name => do
    let old ← old
    let new ← new
    let (identity, position) ← deviceIdentity old name
    let mapped ← deviceNamed new identity position
    return runtimeId toBackend mapped

/-- A selection that was there and is not any more. -/
def lost (before after : Option Text) : List Text :=
  if before.isSome && after.isNone then before.toList else []

def remapWith (convert : Text → Option Text) (placement : GpuPlacement F) : Remapped F :=
  let ids := placement.gpuIds.filterMap convert
  let main := placement.mainGpu.bind convert
  let draft := placement.draftGpuId.bind convert
  { placement :=
      { gpuIds := ids
        mainGpu := main.filter fun id => ids.isEmpty || ids.contains id
        splitMode := placement.splitMode
        -- Ratios are positional against the selected devices.
        tensorSplit := if ids.length ≠ placement.gpuIds.length then [] else placement.tensorSplit
        draftGpuId := draft }
    dropped := placement.gpuIds.filter (fun id => (convert id).isNone) ++
      lost placement.mainGpu main ++ lost placement.draftGpuId draft }

def remapRuntimeDevices (placement : GpuPlacement F) (fromBackend : Text)
    (fromDevices : List Text) (toBackend : Text) (toDevices : List Text) : Remapped F :=
  if fromBackend = toBackend ∨ placement.isEmpty then ⟨placement, []⟩
  else
    let old := (devicePrefix fromBackend).map (parseRuntimeDevices fromDevices)
    let new := (devicePrefix toBackend).map (parseRuntimeDevices toDevices)
    remapWith (convert fromBackend toBackend old new) placement

variable {devices old new : List RuntimeDevice} {name name' identity : Text} {rank rank' : Nat}

def RankedAs (devices : List RuntimeDevice) (name identity : Text) (rank : Nat) : Prop :=
  ∃ device, (devices.filter fun item => item.identity = identity)[rank]? = some device ∧
    device.name = name

/-- Both names stand for the same card: they report one identity and have one rank there. -/
def SameCard (old new : List RuntimeDevice) (name name' : Text) : Prop :=
  ∃ identity rank, RankedAs old name identity rank ∧ RankedAs new name' identity rank

theorem SameCard.symm (h : SameCard old new name name') : SameCard new old name' name := by
  obtain ⟨identity, rank, hold, hnew⟩ := h
  exact ⟨identity, rank, hnew, hold⟩

variable {fromBackend toBackend id id' : Text}

def Counterpart (fromBackend toBackend : Text) (old new : List RuntimeDevice)
    (id id' : Text) : Prop :=
  (∃ name name', id = runtimeId fromBackend name ∧ id' = runtimeId toBackend name' ∧
    SameCard old new name name') ∨
  (∀ name, id ≠ runtimeId fromBackend name) ∧ id' = id

variable {placement : GpuPlacement F} {f g : Text → Option Text}

def MainSelected (placement : GpuPlacement F) : Prop :=
  ∀ id ∈ placement.mainGpu, placement.gpuIds = [] ∨ id ∈ placement.gpuIds

def OneBackend (backend : Text) (placement : GpuPlacement F) : Prop :=
  ∀ id ∈ placement.selected, "runtime:".toList <+: id → ∃ name, id = runtimeId backend name

theorem runtimeId_start (backend name : Text) : "runtime:".toList <+: runtimeId backend name := by
  unfold runtimeId
  rw [List.append_assoc]
  exact List.prefix_append _ _

variable {fromDevices toDevices : List Text}

/-- What a remapped placement has to do with the one it was made from: the ids have their
counterparts `C` or are dropped by name, and the way back restores it. -/
structure Kept (placement : GpuPlacement F) (fromBackend : Text) (fromDevices : List Text)
    (toBackend : Text) (toDevices : List Text) (C : Text → Text → Prop)
    (remapped : Remapped F) : Prop where
  dropped : ∀ id, id ∈ remapped.dropped ↔ id ∈ placement.selected ∧ ∀ id', ¬ C id id'
  order : List.Forall₂ C (placement.gpuIds.filter fun id => id ∉ remapped.dropped)
    remapped.placement.gpuIds
  main : ∀ id', remapped.placement.mainGpu = some id' ↔ ∃ id ∈ placement.mainGpu, C id id'
  draft : ∀ id', remapped.placement.draftGpuId = some id' ↔ ∃ id ∈ placement.draftGpuId, C id id'
  apart : ∀ a ∈ placement.selected, ∀ b ∈ placement.selected, ∀ c, C a c → C b c → a = b
  ratios : remapped.placement.tensorSplit =
    if ∃ id ∈ placement.gpuIds, id ∈ remapped.dropped then [] else placement.tensorSplit
  scope : OneBackend toBackend remapped.placement
  within : MainSelected remapped.placement
  back : remapped.dropped = [] → remapRuntimeDevices remapped.placement toBackend toDevices
    fromBackend fromDevices = ⟨placement, []⟩

theorem Counterpart.symm (hbackend : OneBackend fromBackend placement)
    (hid : id ∈ placement.selected) (h : Counterpart fromBackend toBackend old new id id') :
    Counterpart toBackend fromBackend new old id' id := by
  rcases h with ⟨name, name', rfl, rfl, hsame⟩ | ⟨hnot, rfl⟩
  · exact .inl ⟨name', name, rfl, rfl, hsame.symm⟩
  · refine .inr ⟨fun name heq => ?_, rfl⟩
    obtain ⟨other, hother⟩ := hbackend _ hid (heq ▸ runtimeId_start toBackend name)
    exact hnot other hother

section Exact

variable {C : Text → Text → Prop} {remapped : Remapped F}

end Exact

end AioLM.Gpu
