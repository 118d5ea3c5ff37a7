import AioLM.Fallible
import AioLM.ShardNames

/-!
GPUs as the hardware and as a runtime report them, and what a user selects of them.
-/

set_option autoImplicit false

namespace AioLM.Gpu

open Fallible
open Discover (rsplitOnce)

inductive GpuVendor where
  | nvidia | amd | intel | apple | unknown
  deriving DecidableEq

/-- A card of this machine. -/
structure GpuDevice where
  vendor : GpuVendor
  name : Text
  pciId : Option Text
  stableId : Text
  deriving DecidableEq

structure DeviceProfile where
  gpus : List GpuDevice

inductive SplitMode where
  | none | single | layer | row | tensor
  deriving DecidableEq

def SplitMode.asFlagValue : SplitMode → Option Text
  | .none => .none
  | .single => some "none".toList
  | .layer => some "layer".toList
  | .row => some "row".toList
  | .tensor => some "tensor".toList

/-- What is selected for a session; `F` are the ratios, floating point numbers. -/
@[ext]
structure GpuPlacement (F : Type) where
  gpuIds : List Text
  mainGpu : Option Text
  splitMode : SplitMode
  tensorSplit : List F
  draftGpuId : Option Text
  deriving DecidableEq

variable {F : Type}

def GpuPlacement.isEmpty (placement : GpuPlacement F) : Bool :=
  placement.gpuIds.isEmpty && placement.mainGpu.isNone && placement.splitMode == .none &&
    placement.tensorSplit.isEmpty && placement.draftGpuId.isNone

def devicePrefix (backend : Text) : Option Text :=
  if backend = "cuda".toList then some "CUDA".toList
  else if backend = "rocm".toList then some "ROCm".toList
  else if backend = "vulkan".toList then some "Vulkan".toList
  else if backend = "sycl".toList then some "SYCL".toList
  else if backend = "metal".toList then some "MTL".toList
  else none

def vendorForBackend (backend : Text) : Option GpuVendor :=
  if backend = "cuda".toList then some .nvidia
  else if backend = "rocm".toList then some .amd
  else if backend = "sycl".toList then some .intel
  else none

def devicePool (profile : DeviceProfile) (backend : Text) : List GpuDevice :=
  match vendorForBackend backend with
  | some vendor => profile.gpus.filter fun gpu => gpu.vendor = vendor
  | none => profile.gpus

structure RuntimeDevice where
  name : Text
  index : Nat
  searchable : Text
  identity : Text
  deriving DecidableEq

def searchable (value : Text) : Text := (value.filter Char.isAlphanum).map Char.toLower

def allDigits (number : Text) : Bool := number ≠ [] && number.all Char.isDigit

/-- Model and capacity, without the free memory at the end that changes between probes. -/
def runtimeIdentity (description : Text) : Text :=
  let description := Text.trimEndMatches Text.isWhitespace description
  match rsplitOnce ", ".toList description with
  | none => searchable description
  | some (identity, free) =>
    let total := (rsplitOnce ['('] identity).bind fun parts =>
      Text.stripSuffix " MiB".toList parts.2
    match total, Text.stripSuffix " MiB free)".toList free with
    | some total, some free =>
      if allDigits total && allDigits free then searchable identity else searchable description
    | _, _ => searchable description

def deviceNumber (start name : Text) : Option Nat :=
  (Text.stripPrefix start name <|>
    if start = "MTL".toList then Text.stripPrefix "Metal".toList name else none).bind
      Text.parseUsize

def parseRuntimeDevice (start line : Text) : Option RuntimeDevice := do
  let (name, description) ← Text.splitOnce ':' (Text.trim line)
  let index ← deviceNumber start (Text.trim name)
  return {
    name := Text.trim name
    index := index
    searchable := searchable (name ++ ' ' :: description)
    identity := runtimeIdentity description }

def parseRuntimeDevices (lines : List Text) (start : Text) : List RuntimeDevice :=
  lines.filterMap (parseRuntimeDevice start)

def runtimeId (backend name : Text) : Text := "runtime:".toList ++ backend ++ ':' :: name

variable {backend name name' start line : Text} {device : RuntimeDevice} {lines : List Text}

theorem runtimeId_append : runtimeId backend [] ++ name = runtimeId backend name := by
  unfold runtimeId
  rw [List.append_assoc, List.singleton_append]

theorem stripPrefix_runtimeId {id : Text} :
    Text.stripPrefix (runtimeId backend []) id = some name ↔ id = runtimeId backend name := by
  rw [Text.stripPrefix_eq_some, runtimeId_append]

theorem runtimeId_injective (h : runtimeId backend name = runtimeId backend name') :
    name = name' := by
  have hname := stripPrefix_runtimeId.mpr (Eq.refl (runtimeId backend name))
  rw [h, stripPrefix_runtimeId.mpr rfl] at hname
  exact (Option.some.inj hname).symm

theorem digit_of_parseUsize {t : Text} {n : Nat} (h : Text.parseUsize t = some n) :
    ∀ c ∈ t, c = '+' ∨ c.isDigit = true := by
  have hall : (if t.head? = some '+' then t.drop 1 else t).all Char.isDigit = true := by
    by_contra hnot
    rw [Text.parseUsize, if_neg (fun hdigits => hnot hdigits.2)] at h
    cases h
  rw [List.all_eq_true] at hall
  intro c hc
  split at hall
  · rename_i hplus
    obtain ⟨rest, hrest⟩ := List.head?_eq_some_iff.mp hplus
    rw [hrest] at hc hall
    exact (List.mem_cons.mp hc).imp_right (hall c)
  · exact .inr (hall c hc)

theorem deviceNumber_some {n : Nat} (h : deviceNumber start name = some n) :
    ∃ before number, name = before ++ number ∧ (before = start ∨ before = "Metal".toList) ∧
      Text.parseUsize number = some n := by
  obtain ⟨number, hnumber, hparse⟩ := Option.bind_eq_some_iff.mp h
  cases hstart : Text.stripPrefix start name with
  | some rest =>
    rw [hstart] at hnumber
    cases hnumber
    exact ⟨start, number, Text.stripPrefix_eq_some.mp hstart, .inl rfl, hparse⟩
  | none =>
    rw [hstart] at hnumber
    change (if start = "MTL".toList then Text.stripPrefix "Metal".toList name else none) =
      some number at hnumber
    split at hnumber
    · exact ⟨_, number, Text.stripPrefix_eq_some.mp hnumber, .inr rfl, hparse⟩
    · cases hnumber

theorem devicePrefix_cases {backend start : Text} (h : devicePrefix backend = some start) :
    start ∈ ["CUDA", "ROCm", "Vulkan", "SYCL", "MTL"].map String.toList := by
  unfold devicePrefix at h
  split at h
  · cases h; decide
  · split at h
    · cases h; decide
    · split at h
      · cases h; decide
      · split at h
        · cases h; decide
        · split at h
          · cases h; decide
          · cases h

theorem comma_not_mem_name (hstart : devicePrefix backend = some start)
    (h : device ∈ parseRuntimeDevices lines start) : ',' ∉ device.name := by
  obtain ⟨line, -, hline⟩ := List.mem_filterMap.mp h
  obtain ⟨⟨name, description⟩, -, hline⟩ := Option.bind_eq_some_iff.mp hline
  obtain ⟨index, hindex, hline⟩ := Option.bind_eq_some_iff.mp hline
  cases hline
  obtain ⟨before, number, heq, hbefore, hparse⟩ := deviceNumber_some hindex
  dsimp only at heq ⊢
  rw [heq, List.mem_append, not_or]
  constructor
  · rcases hbefore with rfl | rfl
    · have hall : ∀ start ∈ ["CUDA", "ROCm", "Vulkan", "SYCL", "MTL"].map String.toList,
          ',' ∉ start := by decide
      exact hall _ (devicePrefix_cases hstart)
    · decide
  · intro hcomma
    rcases digit_of_parseUsize hparse _ hcomma with h | h
    · revert h; decide
    · revert h; decide

end AioLM.Gpu
