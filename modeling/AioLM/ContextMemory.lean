import AioLM.WeightPlacement

/-!
The memory of a model with its context, as a range on the host and one on the
devices. Every part of a range grows with the context, and every part but the
host copy of the outputs has its bounds in order.
-/

set_option autoImplicit false

namespace AioLM.Estimate

open Gguf

def divCeil (n d : Nat) : Nat := (n + d - 1) / d

structure ResourceRange where
  minBytes : Nat := 0
  maxBytes : Nat := 0

def ResourceRange.exact (bytes : Nat) : ResourceRange := ⟨bytes, bytes⟩

def ResourceRange.add (range other : ResourceRange) : ResourceRange where
  minBytes := saturatingAdd range.minBytes other.minBytes
  maxBytes := saturatingAdd range.maxBytes other.maxBytes

def VOCAB_BOUNDS : Nat × Nat := (32000, 262144)

inductive KvType where
  | f32
  | f16
  | bf16
  | q8_0
  | q5_0
  | q5_1
  | q4_0
  | q4_1
  | iq4Nl

def KvType.block : KvType → Nat × Nat
  | .f32 => (1, 4)
  | .f16 | .bf16 => (1, 2)
  | .q8_0 => (32, 34)
  | .q5_0 => (32, 22)
  | .q5_1 => (32, 24)
  | .q4_0 | .iq4Nl => (32, 18)
  | .q4_1 => (32, 20)

def KvType.rowBytes (kind : KvType) (elements : Nat) : Nat :=
  saturatingMul (divCeil elements kind.block.1) kind.block.2

def KvType.quantized (kind : KvType) : Bool := 1 < kind.block.1

def pad256 (value : Nat) : Nat := saturatingMul (divCeil value 256) 256

/-- The dimensions of a model, one entry for each layer in the three lists. -/
structure Shape where
  nLayer : Nat
  kvLayers : Nat
  nEmbd : Nat
  nVocab : Option Nat
  nHead : Nat
  headV : Nat
  kDims : List Nat
  vDims : List Nat
  recurrentBytes : List Nat
  indexerDim : Nat
  activationWidth : Nat
  nFf : Nat
  tensors : TensorBytes
  kvLayers_le : kvLayers ≤ nLayer
  kDims_length : kDims.length = nLayer
  vDims_length : vDims.length = nLayer
  recurrent_length : recurrentBytes.length = nLayer

namespace Shape

variable (shape : Shape) (il : Fin shape.kvLayers)

def kDim : Nat := shape.kDims.get ⟨il, by have h := shape.kvLayers_le; have hk := shape.kDims_length; omega⟩

def vDim : Nat := shape.vDims.get ⟨il, by have h := shape.kvLayers_le; have hv := shape.vDims_length; omega⟩

def recurrent : Nat :=
  shape.recurrentBytes.get
    ⟨il, by have h := shape.kvLayers_le; have hr := shape.recurrent_length; omega⟩

end Shape

structure ServerArgs where
  kvOffload : Bool := true
  opOffload : Bool := true

structure Launch where
  ubatch : Nat
  pipelineBackend : Bool
  args : ServerArgs
  ubatch_pos : 1 ≤ ubatch

structure Scenario where
  gpu : Bool
  offload : Offload
  flashAttn : Bool
  nSeq : Nat
  unified : Bool
  nCtx : Nat

structure ContextPlan where
  shape : Shape
  ngl : Nat
  onGpu : Bool
  overrides : Overrides
  typeK : Option KvType
  typeV : Option KvType
  recurrentCopies : Option Nat

def maximum (xs : List Nat) : Nat := xs.foldl max 0

/-- Cells per stream and number of streams. -/
def kvCells (nCtx nSeq : Nat) (unified : Bool) : Nat × Nat :=
  let nCtx := pad256 nCtx
  if unified || nSeq ≤ 1 then (nCtx, 1) else (max (pad256 (nCtx / nSeq)) 256, nSeq)

def addBytes (onGpu : Bool) (bytes : Nat) (sums : Nat × Nat) : Nat × Nat :=
  if onGpu then (sums.1, saturatingAdd sums.2 bytes) else (saturatingAdd sums.1 bytes, sums.2)

def kvBytes (shape : Shape) (cells : Nat) (typeK typeV : KvType) (flashAttn : Bool)
    (placement : Placement) (offload : Bool) : Nat × Nat :=
  (List.finRange shape.kvLayers).foldl (fun sums il =>
    if 0 < shape.recurrent il then sums
    else
      let vDim := if flashAttn then shape.vDim il else maximum shape.vDims
      let row := saturatingAdd (saturatingAdd (typeK.rowBytes (shape.kDim il)) (typeV.rowBytes vDim))
        (typeK.rowBytes shape.indexerDim)
      addBytes (offload && placement.onGpu il) (saturatingMul row cells) sums) (0, 0)

/-- Recurrent state of the layers as (CPU, GPU). -/
def stateBytes (plan : ContextPlan) (nSeq : Nat) (placement : Placement) (offload : Bool) :
    Nat × Nat :=
  (List.finRange plan.shape.kvLayers).foldl (fun sums (il : Fin plan.shape.kvLayers) =>
    addBytes (offload && placement.onGpu il)
      (saturatingMul (saturatingMul (plan.shape.recurrent il) nSeq)
        (plan.recurrentCopies.getD 4)) sums) (0, 0)

def f32s (count : Nat) : Nat := saturatingMul count 4

/-- The attention intermediates: with flash attention the conversion of quantized caches,
without it the scores once or twice. -/
def attentionRange (shape : Shape) (ubatch kvPerStream : Nat) (flashAttn quantized : Bool) :
    ResourceRange :=
  if flashAttn then
    let least := f32s (saturatingMul (saturatingMul (saturatingMul ubatch shape.nHead) shape.headV) 2)
    let conversion :=
      if quantized then
        saturatingMul (saturatingMul kvPerStream
          (saturatingAdd (maximum shape.kDims) (maximum shape.vDims))) 2
      else 0
    ⟨least, saturatingAdd least conversion⟩
  else
    let scores := f32s (saturatingMul (saturatingMul kvPerStream ubatch) shape.nHead)
    ⟨scores, saturatingMul scores 2⟩

def activation (shape : Shape) (ubatch : Nat) : Nat :=
  f32s (saturatingMul (saturatingMul ubatch shape.activationWidth) 4)

def layerRange (shape : Shape) (ubatch nSeq kvPerStream : Nat) (flashAttn quantized : Bool) :
    ResourceRange :=
  let act := activation shape ubatch
  let ffn := f32s (saturatingMul (saturatingMul ubatch shape.nFf) 3)
  let attention := attentionRange shape ubatch kvPerStream flashAttn quantized
  let recurrent := saturatingMul
    (saturatingMul (maximum shape.recurrentBytes) (saturatingAdd (divCeil ubatch 64) nSeq)) 2
  ⟨saturatingAdd act (max ffn attention.minBytes),
    saturatingAdd act (max (max ffn attention.maxBytes) recurrent)⟩

/-- Logits of one output for each slot, or of every token of the batch. -/
def logitsRange (shape : Shape) (ubatch nSeq : Nat) : ResourceRange :=
  ⟨f32s (saturatingMul (shape.nVocab.getD VOCAB_BOUNDS.1) (min nSeq ubatch)),
    f32s (saturatingMul (shape.nVocab.getD VOCAB_BOUNDS.2) ubatch)⟩

def computeBuffer (shape : Shape) (ubatch nSeq kvPerStream : Nat)
    (flashAttn quantized layers output : Bool) : ResourceRange :=
  let out := (ResourceRange.exact (activation shape ubatch)).add (logitsRange shape ubatch nSeq)
  let peak := if layers then layerRange shape ubatch nSeq kvPerStream flashAttn quantized else {}
  if output then ⟨max peak.minBytes out.minBytes, max peak.maxBytes out.maxBytes⟩ else peak

def attentionMaskBytes (kvPerStream tokens : Nat) (flashAttn : Bool) : Nat :=
  saturatingMul (saturatingMul kvPerStream tokens) (if flashAttn then 2 else 4)

def inputCopies (plan : ContextPlan) (launch : Launch) (gpu : Bool) (gpuDevices : Nat) : Nat :=
  if gpu && launch.pipelineBackend && 1 < gpuDevices && plan.shape.nLayer < plan.ngl &&
      launch.args.kvOffload && !plan.overrides.cpuMoe && plan.overrides.nCpuMoe = 0 &&
      plan.overrides.nCpuFfn = 0 then 4
  else 1

def attentionLayers (shape : Shape) : List (Fin shape.kvLayers) :=
  (List.finRange shape.kvLayers).filter fun il => 0 < shape.kDim il && shape.recurrent il = 0

def maskBytes (plan : ContextPlan) (scenario : Scenario) (launch : Launch) (gpu : Bool)
    (gpuDevices perStream : Nat) : Nat :=
  if (attentionLayers plan.shape).isEmpty then 0
  else
    saturatingMul (attentionMaskBytes perStream (min launch.ubatch scenario.nCtx) scenario.flashAttn)
      (inputCopies plan launch gpu gpuDevices)

def maskDevices (plan : ContextPlan) (launch : Launch) (placement : Placement) (gpuDevices : Nat) :
    Nat :=
  if launch.args.kvOffload then
    min gpuDevices ((attentionLayers plan.shape).filter fun il => placement.onGpu il).length
  else 0

def hostOutputs (shape : Shape) (ubatch nSeq : Nat) : ResourceRange :=
  ⟨saturatingMul (saturatingMul (shape.nVocab.getD VOCAB_BOUNDS.1) nSeq) 4,
    saturatingMul (saturatingMul (shape.nVocab.getD VOCAB_BOUNDS.2) ubatch) 4⟩

structure ContextMemory where
  ram : ResourceRange
  vram : ResourceRange
  kv : Nat
  placement : Placement
  hostCache : Nat

def deviceRange (device : ResourceRange) (placement : Placement) (opOffload : Bool)
    (gpuDevices weights mask maskDevices : Nat) : ResourceRange :=
  let compute := (ResourceRange.mk device.minBytes (saturatingMul device.maxBytes gpuDevices)).add
    (.exact (saturatingMul mask maskDevices))
  let compute :=
    if opOffload && 0 < placement.largestCpuLayer then
      { compute with maxBytes := saturatingAdd compute.maxBytes placement.largestCpuLayer }
    else compute
  (ResourceRange.exact weights).add compute

def contextMemory (plan : ContextPlan) (scenario : Scenario) (launch : Launch) (gpuDevices : Nat) :
    ContextMemory :=
  let gpu := scenario.gpu && plan.onGpu
  let placement := place plan.shape.tensors plan.shape.nLayer gpu plan.ngl scenario.offload
    plan.overrides true
  let typeK := plan.typeK.getD .f16
  let typeV := plan.typeV.getD .f16
  let cells := kvCells scenario.nCtx scenario.nSeq scenario.unified
  let kv := kvBytes plan.shape (saturatingMul cells.1 cells.2) typeK typeV scenario.flashAttn
    placement launch.args.kvOffload
  let state := stateBytes plan scenario.nSeq placement launch.args.kvOffload
  let anyGpuLayer := placement.layerGpu.any fun on => on
  let anyCpuLayer := (placement.layerGpu.any fun on => !on) || 0 < placement.largestCpuLayer
  let mask := maskBytes plan scenario launch gpu gpuDevices cells.1
  let buffer := computeBuffer plan.shape launch.ubatch scenario.nSeq cells.1 scenario.flashAttn
    (typeK.quantized || typeV.quantized)
  let staging := saturatingMul (saturatingMul launch.ubatch plan.shape.nEmbd) 4
  let cpuCompute := (buffer anyCpuLayer (!placement.outputGpu)).add
    (.exact (saturatingAdd staging mask))
  let ram := (ResourceRange.exact
    (saturatingAdd (saturatingAdd placement.cpu kv.1) state.1)).add cpuCompute
  { ram := ram.add (hostOutputs plan.shape launch.ubatch scenario.nSeq)
    vram :=
      if gpu then
        deviceRange (buffer anyGpuLayer placement.outputGpu) placement launch.args.opOffload
          gpuDevices (saturatingAdd (saturatingAdd placement.gpu kv.2) state.2) mask
          (maskDevices plan launch placement gpuDevices)
      else {}
    kv := saturatingAdd kv.1 kv.2
    placement
    hostCache := saturatingAdd kv.1 state.1 }

@[gcongr] theorem saturatingAdd_le {a b c d : Nat} (hac : a ≤ c) (hbd : b ≤ d) :
    saturatingAdd a b ≤ saturatingAdd c d :=
  Saturating.add_le_add hac hbd

@[gcongr] theorem saturatingMul_le {a b c d : Nat} (hac : a ≤ c) (hbd : b ≤ d) :
    saturatingMul a b ≤ saturatingMul c d :=
  Saturating.mul_le_mul hac hbd

theorem saturatingMul_le_max (a b : Nat) : saturatingMul a b ≤ u64Max := Nat.min_le_right _ _

theorem le_saturatingAdd_left {a : Nat} (h : a ≤ u64Max) (b : Nat) : a ≤ saturatingAdd a b :=
  Saturating.le_add_left h

theorem le_saturatingMul {a b : Nat} (h : a ≤ u64Max) (hb : 1 ≤ b) : a ≤ saturatingMul a b :=
  Saturating.le_mul_left h hb

@[gcongr] theorem divCeil_le {n n' d : Nat} (h : n ≤ n') : divCeil n d ≤ divCeil n' d :=
  Nat.div_le_div_right (by omega)

@[gcongr] theorem pad256_le {n n' : Nat} (h : n ≤ n') : pad256 n ≤ pad256 n' := by
  unfold pad256
  gcongr

namespace ResourceRange

def Ordered (range : ResourceRange) : Prop := range.minBytes ≤ range.maxBytes

structure Le (range range' : ResourceRange) : Prop where
  min_le : range.minBytes ≤ range'.minBytes
  max_le : range.maxBytes ≤ range'.maxBytes

variable {range range' other other' : ResourceRange}

theorem Le.refl (range : ResourceRange) : range.Le range := ⟨Nat.le_refl _, Nat.le_refl _⟩

theorem ordered_exact (bytes : Nat) : (exact bytes).Ordered := Nat.le_refl bytes

theorem le_exact {bytes bytes' : Nat} (h : bytes ≤ bytes') : (exact bytes).Le (exact bytes') :=
  ⟨h, h⟩

theorem Ordered.add (h : range.Ordered) (h' : other.Ordered) : (range.add other).Ordered :=
  saturatingAdd_le h h'

theorem Le.add (h : range.Le range') (h' : other.Le other') :
    (range.add other).Le (range'.add other') :=
  ⟨saturatingAdd_le h.min_le h'.min_le, saturatingAdd_le h.max_le h'.max_le⟩

end ResourceRange

open ResourceRange

theorem kvCells_le {nCtx nCtx' : Nat} (h : nCtx ≤ nCtx') (nSeq : Nat) (unified : Bool) :
    (kvCells nCtx nSeq unified).1 ≤ (kvCells nCtx' nSeq unified).1 ∧
      (kvCells nCtx nSeq unified).2 = (kvCells nCtx' nSeq unified).2 := by
  simp only [kvCells]
  split
  · exact ⟨pad256_le h, rfl⟩
  · refine ⟨max_le_max_right _ (pad256_le ?_), rfl⟩
    exact Nat.div_le_div_right (pad256_le h)

theorem addBytes_le {onGpu : Bool} {bytes bytes' : Nat} (h : bytes ≤ bytes') {sums sums' : Nat × Nat}
    (hsums : sums ≤ sums') : addBytes onGpu bytes sums ≤ addBytes onGpu bytes' sums' := by
  unfold addBytes
  split
  · exact ⟨hsums.1, saturatingAdd_le hsums.2 h⟩
  · exact ⟨saturatingAdd_le hsums.1 h, hsums.2⟩

theorem kvBytes_le (shape : Shape) {cells cells' : Nat} (h : cells ≤ cells') (typeK typeV : KvType)
    (flashAttn : Bool) (placement : Placement) (offload : Bool) :
    kvBytes shape cells typeK typeV flashAttn placement offload ≤
      kvBytes shape cells' typeK typeV flashAttn placement offload := by
  unfold kvBytes
  refine List.foldl_rel (r := (· ≤ ·)) (le_refl _) fun il _ sums sums' hsums => ?_
  split
  · exact hsums
  · exact addBytes_le (saturatingMul_le (Nat.le_refl _) h) hsums

section

variable (shape : Shape) (ubatch nSeq : Nat) (flashAttn quantized : Bool)

theorem ordered_attention (kvPerStream : Nat) :
    (attentionRange shape ubatch kvPerStream flashAttn quantized).Ordered := by
  cases flashAttn
  · exact le_saturatingMul (saturatingMul_le_max _ _) (by omega)
  · exact le_saturatingAdd_left (saturatingMul_le_max _ _) _

theorem attention_le {kvPerStream kvPerStream' : Nat} (h : kvPerStream ≤ kvPerStream') :
    (attentionRange shape ubatch kvPerStream flashAttn quantized).Le
      (attentionRange shape ubatch kvPerStream' flashAttn quantized) := by
  cases flashAttn
  · constructor <;> simp only [attentionRange, Bool.false_eq_true, if_false, f32s] <;> gcongr
  · constructor
    · simp only [attentionRange, if_true, Nat.le_refl]
    · simp only [attentionRange, if_true]
      cases quantized
      · simp only [Bool.false_eq_true, if_false, Nat.le_refl]
      · simp only [if_true]
        gcongr

theorem ordered_layer (kvPerStream : Nat) :
    (layerRange shape ubatch nSeq kvPerStream flashAttn quantized).Ordered := by
  have hattention := ordered_attention shape ubatch flashAttn quantized kvPerStream
  refine saturatingAdd_le (Nat.le_refl _) ?_
  exact (max_le_max_left _ hattention).trans (Nat.le_max_left _ _)

theorem layer_le {kvPerStream kvPerStream' : Nat} (h : kvPerStream ≤ kvPerStream') :
    (layerRange shape ubatch nSeq kvPerStream flashAttn quantized).Le
      (layerRange shape ubatch nSeq kvPerStream' flashAttn quantized) := by
  obtain ⟨hmin, hmax⟩ := attention_le shape ubatch flashAttn quantized h
  exact ⟨saturatingAdd_le (Nat.le_refl _) (max_le_max_left _ hmin),
    saturatingAdd_le (Nat.le_refl _) (max_le_max_right _ (max_le_max_left _ hmax))⟩

theorem vocab_bounds_le : shape.nVocab.getD VOCAB_BOUNDS.1 ≤ shape.nVocab.getD VOCAB_BOUNDS.2 := by
  cases shape.nVocab <;> simp [VOCAB_BOUNDS]

theorem ordered_logits : (logitsRange shape ubatch nSeq).Ordered :=
  saturatingMul_le (saturatingMul_le (vocab_bounds_le shape) (Nat.min_le_right _ _)) (Nat.le_refl _)

theorem ordered_computeBuffer (kvPerStream : Nat) (layers output : Bool) :
    (computeBuffer shape ubatch nSeq kvPerStream flashAttn quantized layers output).Ordered := by
  have hlayer := ordered_layer shape ubatch nSeq flashAttn quantized kvPerStream
  have hout := (ordered_exact (activation shape ubatch)).add (ordered_logits shape ubatch nSeq)
  simp only [computeBuffer]
  cases layers <;> cases output <;> simp only [Bool.false_eq_true, if_true, if_false]
  · exact Nat.le_refl 0
  · exact max_le_max (Nat.le_refl 0) hout
  · exact hlayer
  · exact max_le_max hlayer hout

theorem computeBuffer_le {kvPerStream kvPerStream' : Nat} (h : kvPerStream ≤ kvPerStream')
    (layers output : Bool) :
    (computeBuffer shape ubatch nSeq kvPerStream flashAttn quantized layers output).Le
      (computeBuffer shape ubatch nSeq kvPerStream' flashAttn quantized layers output) := by
  have hlayer := layer_le shape ubatch nSeq flashAttn quantized h
  simp only [computeBuffer]
  cases layers <;> cases output <;> simp only [Bool.false_eq_true, if_true, if_false]
  · exact Le.refl _
  · exact Le.refl _
  · exact hlayer
  · exact ⟨max_le_max_right _ hlayer.min_le, max_le_max_right _ hlayer.max_le⟩

theorem computeBuffer_max_le (kvPerStream : Nat) (layers output : Bool) :
    (computeBuffer shape ubatch nSeq kvPerStream flashAttn quantized layers output).maxBytes ≤
      u64Max := by
  simp only [computeBuffer]
  cases layers <;> cases output <;>
    simp only [Bool.false_eq_true, if_true, if_false, layerRange, ResourceRange.add, saturatingAdd,
      Saturating.add, u64Max] <;>
    omega

end

theorem ordered_device {device : ResourceRange} (h : device.Ordered) (hmax : device.maxBytes ≤ u64Max)
    (placement : Placement) (opOffload : Bool) {gpuDevices : Nat} (hdevices : 1 ≤ gpuDevices)
    (weights mask maskDevices : Nat) :
    (deviceRange device placement opOffload gpuDevices weights mask maskDevices).Ordered := by
  have hbuffers : (ResourceRange.mk device.minBytes
      (saturatingMul device.maxBytes gpuDevices)).Ordered :=
    h.trans (le_saturatingMul hmax hdevices)
  have hcompute := hbuffers.add (ordered_exact (saturatingMul mask maskDevices))
  refine (ordered_exact weights).add ?_
  split
  · exact hcompute.trans (le_saturatingAdd_left (Nat.min_le_right _ _) _)
  · exact hcompute

theorem device_le {device device' : ResourceRange} (h : device.Le device') (placement : Placement)
    (opOffload : Bool) (gpuDevices maskDevices : Nat) {weights weights' mask mask' : Nat}
    (hweights : weights ≤ weights') (hmask : mask ≤ mask') :
    (deviceRange device placement opOffload gpuDevices weights mask maskDevices).Le
      (deviceRange device' placement opOffload gpuDevices weights' mask' maskDevices) := by
  have hbuffers : (ResourceRange.mk device.minBytes (saturatingMul device.maxBytes gpuDevices)).Le
      ⟨device'.minBytes, saturatingMul device'.maxBytes gpuDevices⟩ :=
    ⟨h.min_le, saturatingMul_le h.max_le (Nat.le_refl _)⟩
  have hcompute := hbuffers.add (le_exact (saturatingMul_le hmask (Nat.le_refl maskDevices)))
  refine (le_exact hweights).add ?_
  split
  · exact ⟨hcompute.min_le, saturatingAdd_le hcompute.max_le (Nat.le_refl _)⟩
  · exact hcompute

theorem maskBytes_le (plan : ContextPlan) (scenario : Scenario) (launch : Launch) (gpu : Bool)
    (gpuDevices : Nat) {nCtx perStream perStream' : Nat} (hctx : scenario.nCtx ≤ nCtx)
    (h : perStream ≤ perStream') :
    maskBytes plan scenario launch gpu gpuDevices perStream ≤
      maskBytes plan { scenario with nCtx } launch gpu gpuDevices perStream' := by
  unfold maskBytes attentionMaskBytes
  split
  · exact Nat.le_refl _
  · gcongr

/-- What holds of the estimate of one launch: bounds in order, and growth with the context. -/
structure ContextRanges (plan : ContextPlan) (scenario : Scenario) (launch : Launch)
    (gpuDevices : Nat) : Prop where
  ram_ordered : (contextMemory plan scenario launch gpuDevices).ram.Ordered
  vram_ordered : (contextMemory plan scenario launch gpuDevices).vram.Ordered
  buffer_ordered : ∀ kvPerStream flashAttn quantized layers output,
    (computeBuffer plan.shape launch.ubatch scenario.nSeq kvPerStream flashAttn quantized layers
      output).Ordered
  ram_grows : ∀ nCtx, scenario.nCtx ≤ nCtx →
    (contextMemory plan scenario launch gpuDevices).ram.Le
      (contextMemory plan { scenario with nCtx } launch gpuDevices).ram
  vram_grows : ∀ nCtx, scenario.nCtx ≤ nCtx →
    (contextMemory plan scenario launch gpuDevices).vram.Le
      (contextMemory plan { scenario with nCtx } launch gpuDevices).vram

def HostOutputsFit (vocab : Option Nat) (nSeq ubatch : Nat) : Prop :=
  vocab.getD VOCAB_BOUNDS.1 * nSeq ≤ vocab.getD VOCAB_BOUNDS.2 * ubatch ∨
    u64Max ≤ vocab.getD VOCAB_BOUNDS.2 * ubatch * 4

theorem ordered_hostOutputs_iff (shape : Shape) (ubatch nSeq : Nat) :
    (hostOutputs shape ubatch nSeq).Ordered ↔ HostOutputsFit shape.nVocab nSeq ubatch := by
  simp only [hostOutputs, Ordered, HostOutputsFit, saturatingMul, Saturating.mul, u64Max]
  generalize shape.nVocab.getD VOCAB_BOUNDS.1 * nSeq = least
  generalize shape.nVocab.getD VOCAB_BOUNDS.2 * ubatch = most
  omega

section

variable (plan : ContextPlan) (scenario : Scenario) (launch : Launch) (gpuDevices : Nat)

theorem vram_ordered (hdevices : 1 ≤ gpuDevices) :
    (contextMemory plan scenario launch gpuDevices).vram.Ordered := by
  simp only [contextMemory]
  split
  · exact ordered_device (ordered_computeBuffer _ _ _ _ _ _ _ _)
      (computeBuffer_max_le _ _ _ _ _ _ _ _) _ _ hdevices _ _ _
  · exact Nat.le_refl 0

theorem ram_ordered (h : (hostOutputs plan.shape launch.ubatch scenario.nSeq).Ordered) :
    (contextMemory plan scenario launch gpuDevices).ram.Ordered :=
  ((ordered_exact _).add ((ordered_computeBuffer _ _ _ _ _ _ _ _).add (ordered_exact _))).add h

theorem ranges_grow {nCtx : Nat} (h : scenario.nCtx ≤ nCtx) :
    (contextMemory plan scenario launch gpuDevices).ram.Le
        (contextMemory plan { scenario with nCtx } launch gpuDevices).ram ∧
      (contextMemory plan scenario launch gpuDevices).vram.Le
        (contextMemory plan { scenario with nCtx } launch gpuDevices).vram := by
  obtain ⟨hstream, hstreams⟩ := kvCells_le h scenario.nSeq scenario.unified
  have hcells := saturatingMul_le hstream hstreams.le
  have hmask := maskBytes_le plan scenario launch (scenario.gpu && plan.onGpu) gpuDevices h hstream
  simp only [contextMemory]
  constructor
  · refine (Le.add (le_exact ?_) ((computeBuffer_le _ _ _ _ _ hstream _ _).add
      (le_exact (saturatingAdd_le (Nat.le_refl _) hmask)))).add (Le.refl _)
    exact saturatingAdd_le (saturatingAdd_le (Nat.le_refl _) (kvBytes_le _ hcells _ _ _ _ _).1)
      (Nat.le_refl _)
  · split
    · refine device_le (computeBuffer_le _ _ _ _ _ hstream _ _) _ _ _ _ ?_ hmask
      exact saturatingAdd_le (saturatingAdd_le (Nat.le_refl _) (kvBytes_le _ hcells _ _ _ _ _).2)
        (Nat.le_refl _)
    · exact Le.refl _

end

def outputOnly (vocab : Option Nat) : ContextPlan where
  shape :=
    { nLayer := 0, kvLayers := 0, nEmbd := 0, nVocab := vocab, nHead := 1, headV := 0, kDims := [],
      vDims := [], recurrentBytes := [], indexerDim := 0, activationWidth := 0, nFf := 0,
      tensors := {}, kvLayers_le := Nat.le_refl 0, kDims_length := rfl, vDims_length := rfl,
      recurrent_length := rfl }
  ngl := 1
  onGpu := true
  overrides := {}
  typeK := none
  typeV := none
  recurrentCopies := none

def slots (nSeq : Nat) : Scenario := ⟨true, .outputFirst, true, nSeq, true, 0⟩

def batchOf (ubatch : Nat) (h : 1 ≤ ubatch) : Launch := ⟨ubatch, false, {}, h⟩

theorem ram_outputOnly (vocab : Option Nat) (nSeq : Nat) {ubatch : Nat} (h : 1 ≤ ubatch) :
    (contextMemory (outputOnly vocab) (slots nSeq) (batchOf ubatch h) 1).ram =
      (exact 0).add (hostOutputs (outputOnly vocab).shape ubatch nSeq) := by
  have hplace : place {} 0 true 1 .outputFirst {} true =
      { cpu := 0, gpu := 0, layerGpu := [], outputGpu := true } := rfl
  have hright (a : Nat) : saturatingMul a 0 = 0 := rfl
  have hleft (a : Nat) : saturatingMul 0 a = 0 := by simp [saturatingMul, Saturating.mul]
  simp only [contextMemory, slots, batchOf, outputOnly, Bool.and_true, hplace]
  -- Without layers and tensors nothing but the outputs takes memory.
  simp [kvBytes, stateBytes, computeBuffer, maskBytes, attentionLayers, hright, hleft,
    ResourceRange.add, exact, saturatingAdd, Saturating.add]

theorem ordered_of_ram_outputOnly {vocab : Option Nat} {nSeq ubatch : Nat}
    (h : ((exact 0).add (hostOutputs (outputOnly vocab).shape ubatch nSeq)).Ordered) :
    (hostOutputs (outputOnly vocab).shape ubatch nSeq).Ordered := by
  simp only [Ordered, ResourceRange.add, exact, hostOutputs, saturatingAdd, Saturating.add,
    saturatingMul, Saturating.mul, u64Max] at h ⊢
  omega

/-- The bounds of all ranges are in order and grow with the context, for every model of this
vocabulary and every launch with this batch and these slots, exactly when the host copy
of the outputs fits: its lower bound counts the slots, which may be more than the batch. -/
theorem context_ranges_iff (vocab : Option Nat) (nSeq ubatch : Nat) (hbatch : 1 ≤ ubatch) :
    (∀ plan scenario launch gpuDevices, plan.shape.nVocab = vocab → scenario.nSeq = nSeq →
      launch.ubatch = ubatch → 1 ≤ gpuDevices →
        ContextRanges plan scenario launch gpuDevices) ↔ HostOutputsFit vocab nSeq ubatch := by
  constructor
  · intro hall
    have hranges := hall (outputOnly vocab) (slots nSeq) (batchOf ubatch hbatch) 1 rfl rfl rfl
      (Nat.le_refl 1)
    have hram := hranges.ram_ordered
    rw [ram_outputOnly] at hram
    exact (ordered_hostOutputs_iff (outputOnly vocab).shape ubatch nSeq).mp
      (ordered_of_ram_outputOnly hram)
  · rintro hfit plan scenario launch gpuDevices rfl rfl rfl hdevices
    refine ⟨ram_ordered _ _ _ _ ((ordered_hostOutputs_iff _ _ _).mpr hfit),
      vram_ordered _ _ _ _ hdevices, fun _ _ _ _ _ => ordered_computeBuffer _ _ _ _ _ _ _ _,
      fun nCtx hctx => (ranges_grow plan scenario launch gpuDevices hctx).1,
      fun nCtx hctx => (ranges_grow plan scenario launch gpuDevices hctx).2⟩

/-- A small model with all its layers on the GPU. -/
def offloadedPlan : ContextPlan where
  shape :=
    { nLayer := 2, kvLayers := 2, nEmbd := 64, nVocab := some 1000, nHead := 4, headV := 16,
      kDims := [64, 64], vDims := [64, 64], recurrentBytes := [0, 0], indexerDim := 0,
      activationWidth := 64, nFf := 256,
      tensors := { tokenEmbd := 4000, output := 4000, layers := [⟨0, 8, 8⟩, ⟨0, 8, 8⟩] },
      kvLayers_le := Nat.le_refl 2, kDims_length := rfl, vDims_length := rfl,
      recurrent_length := rfl }
  ngl := 99
  onGpu := true
  overrides := {}
  typeK := none
  typeV := none
  recurrentCopies := none

/-- Eight slots and a batch of one token: the least is more than the most. -/
theorem slots_beyond_batch :
    let scenario : Scenario := ⟨true, .outputFirst, true, 8, true, 4096⟩
    let memory := contextMemory offloadedPlan scenario (batchOf 1 (by decide)) 1
    1 ≤ scenario.nSeq ∧ memory.ram.maxBytes < memory.ram.minBytes := by
  decide +kernel

theorem context_ranges_iff_four :
    ContextRanges offloadedPlan (slots 4) (batchOf 512 (by decide)) 1 :=
  (context_ranges_iff (some 1000) 4 512 (by decide)).mpr (.inl (by decide)) offloadedPlan (slots 4)
    (batchOf 512 (by decide)) 1 rfl rfl rfl (by decide)

end AioLM.Estimate
