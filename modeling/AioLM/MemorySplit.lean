import AioLM.ContextMemory

/-!
How an estimate of memory is split over the devices, the memory of the host and
the disk of one machine. The host memory is charged first, then what a GPU shares
of it, and then what does not fit the GPU.
-/

set_option autoImplicit false

namespace AioLM.Estimate

open Gguf

def ResourceRange.planned (range : ResourceRange) : Nat :=
  saturatingAdd range.minBytes ((range.maxBytes - range.minBytes) / 2)

inductive EstimateNote where
  | approximate
  | automatic
  | missingMetadata
  | unsupportedArchitecture
  | missingFiles
  | auxiliary
  | sharedMemory
  | advancedOptions
  | capacityUnknown
  | placementAdjustment
  | diskOffload
  | lazyOffload
  deriving DecidableEq

/-- The notes in their order. -/
def EstimateNote.all : List EstimateNote :=
  [.approximate, .automatic, .missingMetadata, .unsupportedArchitecture, .missingFiles, .auxiliary,
    .sharedMemory, .advancedOptions, .capacityUnknown, .placementAdjustment, .diskOffload,
    .lazyOffload]

structure ResourceEstimate where
  vramBytes : Option Nat
  ramOffloadBytes : Option Nat
  ssdOffloadBytes : Option Nat
  requiredVramBytes : Option Nat
  hostMemoryBytes : Option Nat
  vramCapacityBytes : Option Nat
  ramCapacityBytes : Option Nat
  diskBytes : Nat
  diskComplete : Bool
  modelBytes : Nat
  auxiliaryBytes : Nat
  kvBytes : Option Nat
  notes : List EstimateNote

structure MemoryEstimate where
  ram : Option ResourceRange
  vram : Option ResourceRange
  diskBytes : Nat
  diskComplete : Bool
  modelBytes : Nat
  auxiliaryBytes : Nat
  kvBytes : Option Nat
  notes : List EstimateNote
  cpuOffloadBytes : Option Nat
  lazyOffloadBytes : Nat

inductive Accelerator where
  | cpu
  | gpu (devices : Nat)
  | unknown (devices : Nat)

structure Environment where
  ramCapacityBytes : Option Nat
  vramCapacityBytes : Option Nat
  accelerator : Accelerator
  sharedMemory : Bool

/-- The model files of a provider other than llama.cpp. -/
structure Artifact where
  sizeBytes : Nat
  readyFiles : Bool

def artifactEstimate (artifact : Artifact) (env : Environment) : ResourceEstimate where
  vramBytes := none
  ramOffloadBytes := none
  ssdOffloadBytes := none
  requiredVramBytes := none
  hostMemoryBytes := none
  vramCapacityBytes := env.vramCapacityBytes
  ramCapacityBytes := env.ramCapacityBytes
  diskBytes := artifact.sizeBytes
  diskComplete := artifact.readyFiles
  modelBytes := artifact.sizeBytes
  auxiliaryBytes := 0
  kvBytes := none
  notes := [.unsupportedArchitecture, .automatic]

/-- What the devices may hold. One physical pool is charged with the host memory first. -/
def gpuBudget (env : Environment) (host : Nat) : Option Nat :=
  match env.accelerator with
  | .cpu => some 0
  | _ =>
    if env.sharedMemory then
      env.ramCapacityBytes.map fun ram =>
        saturatingAdd (ram - host) (env.vramCapacityBytes.getD 0)
    else env.vramCapacityBytes

/-- What the devices take of the memory of the host. -/
def sharedGpu (env : Environment) (onGpu : Nat) : Nat :=
  if env.sharedMemory then onGpu - env.vramCapacityBytes.getD 0 else 0

structure Split where
  vramBytes : Option Nat
  ramOffloadBytes : Option Nat
  ssdOffloadBytes : Option Nat
  notes : List EstimateNote

def splitMemory (env : Environment) (required cpu host lazy : Nat) : Split :=
  let budget := gpuBudget env host
  let onGpu := budget.elim required (min required)
  let overflow := required - onGpu
  let offload := saturatingAdd cpu overflow
  let notes := (if 0 < overflow then [.placementAdjustment] else []) ++
    (if budget.isNone ∧ 0 < required then [.capacityUnknown] else [])
  let ramBudget := env.ramCapacityBytes.map fun ram => ram - host - sharedGpu env onGpu
  if offload = 0 then ⟨some onGpu, some 0, some lazy, notes⟩
  else
    match ramBudget with
    | some budget =>
      let inRam := min offload budget
      let onDisk := offload - inRam
      ⟨some onGpu, some inRam, some (saturatingAdd onDisk lazy),
        notes ++ if 0 < onDisk then [.diskOffload] else []⟩
    | none => ⟨some onGpu, none, none, notes ++ [.capacityUnknown]⟩

def estimate (artifact : Option Artifact) (memory : MemoryEstimate) (env : Environment) :
    ResourceEstimate :=
  match artifact with
  | some artifact => artifactEstimate artifact env
  | none =>
    let required := memory.vram.map ResourceRange.planned
    let host := memory.ram.bind fun ram =>
      memory.cpuOffloadBytes.map fun offload => ram.planned - offload
    let split : Split :=
      match required, memory.cpuOffloadBytes, host with
      | some required, some cpu, some host =>
        splitMemory env required cpu host memory.lazyOffloadBytes
      | _, _, _ => ⟨required, memory.cpuOffloadBytes, none, []⟩
    let notes := memory.notes ++ split.notes
    { vramBytes := split.vramBytes
      ramOffloadBytes := split.ramOffloadBytes
      ssdOffloadBytes := split.ssdOffloadBytes
      requiredVramBytes := required
      hostMemoryBytes := host
      vramCapacityBytes :=
        if env.sharedMemory then
          env.ramCapacityBytes.map fun ram => saturatingAdd ram (env.vramCapacityBytes.getD 0)
        else env.vramCapacityBytes
      ramCapacityBytes := env.ramCapacityBytes
      diskBytes := memory.diskBytes
      diskComplete := memory.diskComplete
      modelBytes := memory.modelBytes
      auxiliaryBytes := memory.auxiliaryBytes
      kvBytes := memory.kvBytes
      notes := EstimateNote.all.filter (notes.contains ·) }

section

variable {env : Environment} {required cpu host lazy : Nat}

/-- The split of what a model needs: all of it is somewhere, and nothing is over its
capacity. -/
structure Split.Fits (env : Environment) (required cpu host lazy onGpu : Nat) (split : Split) :
    Prop where
  vram : split.vramBytes = some onGpu
  whole : ∀ inRam, split.ramOffloadBytes = some inRam → ∃ onSsd, split.ssdOffloadBytes = some onSsd ∧
    lazy ≤ onSsd ∧ onGpu + inRam + (onSsd - lazy) = required + cpu
  device : ∀ budget, gpuBudget env host = some budget → onGpu ≤ budget
  ram : ∀ capacity inRam, env.ramCapacityBytes = some capacity →
    split.ramOffloadBytes = some inRam → host ≤ capacity →
    host + inRam + sharedGpu env onGpu ≤ capacity
  unknown : env.ramCapacityBytes = none → onGpu < required + cpu →
    split.ramOffloadBytes = none ∧ split.ssdOffloadBytes = none
  reported : env.ramCapacityBytes.isSome ∨ required + cpu ≤ onGpu → split.ramOffloadBytes.isSome

def onGpuBytes (env : Environment) (required host : Nat) : Nat :=
  (gpuBudget env host).elim required (min required)

theorem onGpuBytes_le : onGpuBytes env required host ≤ required := by
  unfold onGpuBytes
  cases gpuBudget env host with
  | none => exact Nat.le_refl required
  | some budget => exact Nat.min_le_left required budget

theorem onGpuBytes_le_budget {budget : Nat} (h : gpuBudget env host = some budget) :
    onGpuBytes env required host ≤ budget := by
  rw [onGpuBytes, h]
  exact Nat.min_le_right required budget

theorem sharedGpu_le {capacity : Nat} (h : env.ramCapacityBytes = some capacity) :
    sharedGpu env (onGpuBytes env required host) ≤ capacity - host := by
  unfold sharedGpu
  split
  · rename_i hshared
    cases hbudget : gpuBudget env host with
    | none =>
      simp only [gpuBudget, hshared, h, if_true, Option.map_some] at hbudget
      split at hbudget <;> cases hbudget
    | some budget =>
      have hle : onGpuBytes env required host ≤ budget := onGpuBytes_le_budget hbudget
      simp only [gpuBudget, hshared, h, if_true, Option.map_some] at hbudget
      split at hbudget
      · cases hbudget
        omega
      · simp only [Option.some.injEq, saturatingAdd, Saturating.add, u64Max] at hbudget
        omega
  · exact Nat.zero_le _

theorem splitMemory_fits (hbelow : required + cpu + lazy < u64Max) :
    (splitMemory env required cpu host lazy).Fits env required cpu host lazy
      (onGpuBytes env required host) := by
  have hgpu : onGpuBytes env required host ≤ required := onGpuBytes_le
  generalize honGpu : onGpuBytes env required host = onGpu at hgpu
  have hoffload : saturatingAdd cpu (required - onGpu) = cpu + (required - onGpu) :=
    Saturating.add_of_le (by omega)
  have hdevice : ∀ budget, gpuBudget env host = some budget → onGpu ≤ budget :=
    fun _ h => honGpu ▸ onGpuBytes_le_budget h
  have hshared : ∀ capacity, env.ramCapacityBytes = some capacity →
      sharedGpu env onGpu ≤ capacity - host := fun _ h => honGpu ▸ sharedGpu_le h
  have hsplit : (gpuBudget env host).elim required (min required) = onGpu := honGpu
  simp only [splitMemory, hsplit, hoffload]
  split
  · rename_i hnone
    refine ⟨rfl, ?_, hdevice, ?_, ?_, fun _ => rfl⟩
    · rintro _ ⟨⟩
      exact ⟨lazy, rfl, Nat.le_refl lazy, by omega⟩
    · rintro capacity _ hcapacity ⟨⟩ hhost
      have hle := hshared capacity hcapacity
      omega
    · intro _ hsome
      omega
  · rename_i hsome
    cases hcapacity : env.ramCapacityBytes with
    | none =>
      refine ⟨rfl, by simp, hdevice, by simp, fun _ _ => ⟨rfl, rfl⟩, fun hreported => ?_⟩
      rw [hcapacity, Option.isSome_none] at hreported
      exact absurd (show cpu + (required - onGpu) = 0 by grind) hsome
    | some capacity =>
      have hle := hshared capacity hcapacity
      simp only [Option.map_some]
      have hdisk : saturatingAdd (cpu + (required - onGpu) -
          min (cpu + (required - onGpu)) (capacity - host - sharedGpu env onGpu)) lazy =
          cpu + (required - onGpu) -
            min (cpu + (required - onGpu)) (capacity - host - sharedGpu env onGpu) + lazy :=
        Saturating.add_of_le (by omega)
      refine ⟨rfl, ?_, hdevice, ?_, ?_, fun _ => rfl⟩
      · rintro _ ⟨⟩
        exact ⟨_, rfl, by omega, by omega⟩
      · rintro _ _ hsome ⟨⟩ hhost
        obtain rfl := Option.some.inj (hcapacity.symm.trans hsome)
        omega
      · intro hnone
        rw [hcapacity] at hnone
        cases hnone

end

/-- A split of known figures loses no byte. The devices hold no more than their budget,
the host memory, the offload and what a GPU shares of it fit the memory of the machine
when the host memory does. With a memory capacity, or with nothing to be offloaded, there is
a split, and without one nothing is said about what has to be offloaded. -/
theorem split_loses_no_byte (memory : MemoryEstimate) (env : Environment) {ram vram : ResourceRange}
    {cpu : Nat} (hram : memory.ram = some ram) (hvram : memory.vram = some vram)
    (hcpu : memory.cpuOffloadBytes = some cpu)
    (hbelow : vram.planned + cpu + memory.lazyOffloadBytes < u64Max) :
    let result := estimate none memory env
    let host := ram.planned - cpu
    result.requiredVramBytes = some vram.planned ∧ result.hostMemoryBytes = some host ∧
    ∃ onGpu, result.vramBytes = some onGpu ∧
      (∀ inRam, result.ramOffloadBytes = some inRam →
        ∃ onSsd, result.ssdOffloadBytes = some onSsd ∧ memory.lazyOffloadBytes ≤ onSsd ∧
          onGpu + inRam + (onSsd - memory.lazyOffloadBytes) = vram.planned + cpu) ∧
      (∀ budget, gpuBudget env host = some budget → onGpu ≤ budget) ∧
      (∀ capacity inRam, env.ramCapacityBytes = some capacity →
        result.ramOffloadBytes = some inRam → host ≤ capacity →
        host + inRam + (if env.sharedMemory then onGpu - env.vramCapacityBytes.getD 0 else 0) ≤
          capacity) ∧
      (env.ramCapacityBytes = none → onGpu < vram.planned + cpu →
        result.ramOffloadBytes = none ∧ result.ssdOffloadBytes = none) ∧
      (env.ramCapacityBytes.isSome ∨ vram.planned + cpu ≤ onGpu →
        result.ramOffloadBytes.isSome) := by
  have hfits : Split.Fits env _ _ (ram.planned - cpu) _ _ _ := splitMemory_fits hbelow
  simp only [estimate, hram, hvram, hcpu, Option.map_some, Option.bind_some]
  exact ⟨trivial, trivial, _, hfits.vram, hfits.whole, hfits.device, hfits.ram, hfits.unknown,
    hfits.reported⟩

/-- Ten units for a GPU and three to be offloaded, beside two of the host. -/
def unifiedMemory : MemoryEstimate where
  ram := some (.exact 5)
  vram := some (.exact 10)
  diskBytes := 15
  diskComplete := true
  modelBytes := 15
  auxiliaryBytes := 0
  kvBytes := some 0
  notes := []
  cpuOffloadBytes := some 3
  lazyOffloadBytes := 1

/-- The GPU has one unit of its own and takes nine of the twelve of the machine. -/
def unifiedMachine : Environment := ⟨some 12, some 1, .gpu 1, true⟩

theorem split_loses_no_byte_unified :
    (estimate none unifiedMemory unifiedMachine).vramBytes = some 10 ∧
      (estimate none unifiedMemory unifiedMachine).ramOffloadBytes = some 1 ∧
      (estimate none unifiedMemory unifiedMachine).ssdOffloadBytes = some 3 ∧
      10 + 1 + (3 - unifiedMemory.lazyOffloadBytes) = 10 + 3 ∧ 2 + 1 + (10 - 1) ≤ 12 := by
  obtain ⟨-, -, onGpu, hgpu, hwhole, -, hram, -, hreported⟩ :=
    split_loses_no_byte unifiedMemory unifiedMachine rfl rfl rfl (by decide)
  obtain ⟨inRam, hin⟩ := Option.isSome_iff_exists.mp (hreported (.inl rfl))
  obtain ⟨onSsd, hssd, -, hsum⟩ := hwhole inRam hin
  have hfits := hram 12 inRam rfl hin (by decide)
  obtain rfl : onGpu = 10 := Option.some.inj (hgpu.symm.trans rfl)
  obtain rfl : inRam = 1 := Option.some.inj (hin.symm.trans rfl)
  obtain rfl : onSsd = 3 := Option.some.inj (hssd.symm.trans rfl)
  exact ⟨hgpu, hin, hssd, hsum, hfits⟩

end AioLM.Estimate
