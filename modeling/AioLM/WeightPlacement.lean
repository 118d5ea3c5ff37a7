import AioLM.TensorSizes

/-!
Where the weights of a model go for a number of offloaded layers: the output
layer counts as the first of them, the others from the last one down. What is
put on the CPU and on the GPU together are the weights, each counted once.
-/

set_option autoImplicit false

namespace AioLM.Estimate

open Gguf

/-- How a runtime counts `n_gpu_layers`: the output layer first, then repeating layers. -/
inductive Offload where
  | outputFirst

structure Overrides where
  cpuMoe : Bool := false
  nCpuMoe : Nat := 0
  nCpuFfn : Nat := 0

structure Placement where
  cpu : Nat := 0
  gpu : Nat := 0
  layerGpu : List Bool := []
  outputGpu : Bool := false
  largestCpuLayer : Nat := 0

def firstGpuLayer (layers : Nat) (gpu : Bool) (ngl : Nat) : Offload → Nat × Bool
  | .outputFirst =>
    if gpu then
      let offloaded := min ngl (layers + 1)
      (layers + 1 - offloaded, 0 < offloaded)
    else (layers, false)

def Overrides.cpu (overrides : Overrides) (il : Nat) (bytes : LayerBytes) : Nat :=
  let expertsCpu := overrides.cpuMoe || il < overrides.nCpuMoe
  let denseCpu := il < overrides.nCpuFfn
  saturatingAdd (if expertsCpu then bytes.experts else 0) (if denseCpu then bytes.denseFfn else 0)

def Placement.onGpu (placement : Placement) (il : Nat) : Bool := (placement.layerGpu[il]?).getD false

def Placement.addLayer (overrides : Overrides) (placement : Placement) (layer : LayerBytes × Nat) :
    Placement :=
  let (bytes, il) := layer
  let cpuBytes := if placement.onGpu il then overrides.cpu il bytes else bytes.total
  let gpuBytes := if placement.onGpu il then bytes.total - cpuBytes else 0
  { placement with
    gpu := saturatingAdd placement.gpu gpuBytes
    cpu := saturatingAdd placement.cpu cpuBytes
    largestCpuLayer := max placement.largestCpuLayer cpuBytes }

def outputBytes (tensors : TensorBytes) (duplicateTiedOutput outputGpu : Bool) : Nat :=
  if duplicateTiedOutput && !tensors.hasOutputWeight && outputGpu then
    saturatingAdd tensors.output tensors.tokenEmbd
  else tensors.output

def placeOutput (tensors : TensorBytes) (nLayer : Nat) (gpu : Bool) (ngl : Nat) (offload : Offload)
    (duplicateTiedOutput : Bool) : Placement :=
  let (first, outputGpu) := firstGpuLayer nLayer gpu ngl offload
  let cpu := saturatingAdd tensors.input tensors.tokenEmbd
  let output := outputBytes tensors duplicateTiedOutput outputGpu
  { cpu := if outputGpu then cpu else saturatingAdd cpu output
    gpu := if outputGpu then output else 0
    layerGpu := (List.range nLayer).map fun il => first ≤ il
    outputGpu }

/-- A list of layers has room for no more than half the numbers of a word, so the one
layer more does not overflow. -/
def place (tensors : TensorBytes) (nLayer : Nat) (gpu : Bool) (ngl : Nat) (offload : Offload)
    (overrides : Overrides) (duplicateTiedOutput : Bool) : Placement :=
  tensors.layers.zipIdx.foldl (Placement.addLayer overrides)
    (placeOutput tensors nLayer gpu ngl offload duplicateTiedOutput)

def cpuPart (overrides : Overrides) (onGpu : Nat → Bool) (layer : LayerBytes × Nat) : Nat :=
  if onGpu layer.2 then overrides.cpu layer.2 layer.1 else layer.1.total

def gpuPart (overrides : Overrides) (onGpu : Nat → Bool) (layer : LayerBytes × Nat) : Nat :=
  if onGpu layer.2 then layer.1.total - overrides.cpu layer.2 layer.1 else 0

theorem Overrides.cpu_le_total (overrides : Overrides) (il : Nat) (bytes : LayerBytes) :
    overrides.cpu il bytes ≤ bytes.total := by
  rw [Overrides.cpu, LayerBytes.total_eq, LayerBytes.sum]
  simp only [saturatingAdd, Saturating.add, u64Max]
  split <;> split <;> omega

/-- The overrides of one setting keep at least those of another on the CPU. -/
structure Overrides.Le (overrides more : Overrides) : Prop where
  cpuMoe : overrides.cpuMoe = true → more.cpuMoe = true
  nCpuMoe : overrides.nCpuMoe ≤ more.nCpuMoe
  nCpuFfn : overrides.nCpuFfn ≤ more.nCpuFfn

theorem Overrides.Le.cpu_le {overrides more : Overrides} (h : overrides.Le more) (il : Nat)
    (bytes : LayerBytes) : overrides.cpu il bytes ≤ more.cpu il bytes := by
  have hmoe := h.nCpuMoe
  have hffn := h.nCpuFfn
  refine Saturating.add_le_add ?_ ?_
  · split
    · rename_i hexperts
      rw [if_pos ?_]
      rcases Bool.or_eq_true _ _ ▸ hexperts with hall | hsome
      · simp [h.cpuMoe hall]
      · have hlt : il < overrides.nCpuMoe := by simpa using hsome
        simp [show il < more.nCpuMoe by omega]
    · exact Nat.zero_le _
  · split
    · rename_i hdense
      have hlt : il < overrides.nCpuFfn := by simpa using hdense
      simp [show il < more.nCpuFfn by omega]
    · exact Nat.zero_le _

theorem parts_eq_total (overrides : Overrides) (onGpu : Nat → Bool) (layer : LayerBytes × Nat) :
    cpuPart overrides onGpu layer + gpuPart overrides onGpu layer = layer.1.total := by
  have hle := overrides.cpu_le_total layer.2 layer.1
  simp only [cpuPart, gpuPart]
  split <;> omega

theorem cpuPart_le_of_overrides {overrides more : Overrides} (h : overrides.Le more)
    (onGpu : Nat → Bool) (layer : LayerBytes × Nat) :
    cpuPart overrides onGpu layer ≤ cpuPart more onGpu layer := by
  simp only [cpuPart]
  split
  · exact h.cpu_le _ _
  · exact Nat.le_refl _

theorem cpuPart_anti {onGpu onGpu' : Nat → Bool} (h : ∀ il, onGpu il = true → onGpu' il = true)
    (overrides : Overrides) (layer : LayerBytes × Nat) :
    cpuPart overrides onGpu' layer ≤ cpuPart overrides onGpu layer := by
  have hle := overrides.cpu_le_total layer.2 layer.1
  have hon := h layer.2
  simp only [cpuPart]
  split <;> split <;> simp_all

theorem gpuPart_mono {onGpu onGpu' : Nat → Bool} (h : ∀ il, onGpu il = true → onGpu' il = true)
    (overrides : Overrides) (layer : LayerBytes × Nat) :
    gpuPart overrides onGpu layer ≤ gpuPart overrides onGpu' layer := by
  have hcpu := cpuPart_anti h overrides layer
  have hbefore := parts_eq_total overrides onGpu layer
  have hafter := parts_eq_total overrides onGpu' layer
  omega

/-- The loop over the layers: two running totals, and the rest stays. -/
theorem foldl_addLayer (overrides : Overrides) (layers : List (LayerBytes × Nat))
    (placement : Placement) :
    let final := layers.foldl (Placement.addLayer overrides) placement
    final.layerGpu = placement.layerGpu ∧ final.outputGpu = placement.outputGpu ∧
      final.cpu = layers.foldl
        (fun sum layer => saturatingAdd sum (cpuPart overrides placement.onGpu layer))
        placement.cpu ∧
      final.gpu = layers.foldl
        (fun sum layer => saturatingAdd sum (gpuPart overrides placement.onGpu layer))
        placement.gpu := by
  induction layers generalizing placement with
  | nil => exact ⟨rfl, rfl, rfl, rfl⟩
  | cons layer layers ih =>
    have hgpu : (placement.addLayer overrides layer).gpu =
        saturatingAdd placement.gpu (gpuPart overrides placement.onGpu layer) := by
      simp only [Placement.addLayer, gpuPart]
      split <;> rfl
    obtain ⟨hlayers, houtput, hcpu, hgpus⟩ := ih (placement.addLayer overrides layer)
    refine ⟨hlayers, houtput, hcpu, ?_⟩
    rw [hgpu] at hgpus
    exact hgpus

def layerOnGpu (nLayer : Nat) (gpu : Bool) (ngl : Nat) (offload : Offload) (il : Nat) : Bool :=
  il < nLayer && (firstGpuLayer nLayer gpu ngl offload).1 ≤ il

theorem placeOutput_onGpu (tensors : TensorBytes) (nLayer : Nat) (gpu : Bool) (ngl : Nat)
    (offload : Offload) (duplicate : Bool) :
    (placeOutput tensors nLayer gpu ngl offload duplicate).onGpu =
      layerOnGpu nLayer gpu ngl offload := by
  funext il
  simp only [placeOutput, Placement.onGpu, layerOnGpu, List.getElem?_map]
  by_cases hlt : il < nLayer <;> simp [hlt]

def cpuBase (tensors : TensorBytes) (outputGpu : Bool) : Nat :=
  tensors.input + tensors.tokenEmbd + if outputGpu then 0 else tensors.output

def gpuBase (tensors : TensorBytes) (duplicate outputGpu : Bool) : Nat :=
  if outputGpu then
    tensors.output + if duplicate && !tensors.hasOutputWeight then tensors.tokenEmbd else 0
  else 0

theorem sum_parts (overrides : Overrides) (onGpu : Nat → Bool) (layers : List (LayerBytes × Nat)) :
    (layers.map (cpuPart overrides onGpu)).sum + (layers.map (gpuPart overrides onGpu)).sum =
      (layers.map fun layer => layer.1.total).sum := by
  rw [← List.sum_map_add]
  simp only [parts_eq_total]

theorem sum_layer_totals {layers : List LayerBytes} (h : (layers.map LayerBytes.sum).sum < u64Max) :
    (layers.zipIdx.map fun layer => layer.1.total).sum = (layers.map LayerBytes.sum).sum := by
  have hfst : (layers.zipIdx.map fun layer => layer.1.total) = layers.map LayerBytes.total := by
    rw [show (fun layer : LayerBytes × Nat => layer.1.total) = LayerBytes.total ∘ Prod.fst from rfl,
      ← List.map_map, List.zipIdx_map_fst]
  have hclipped : min (0 + (layers.map LayerBytes.total).sum) u64Max =
      min (0 + (layers.map LayerBytes.sum).sum) u64Max := by
    rw [← Saturating.min_sum_min LayerBytes.sum]
    simp only [← LayerBytes.total_eq]
  rw [hfst]
  omega

theorem map_range_le (n first : Nat) :
    ((List.range n).map fun il => decide (first ≤ il)) =
      List.replicate (n - (n - first)) false ++ List.replicate (n - first) true := by
  refine List.ext_getElem (by simp) fun il hil _ => ?_
  simp only [List.length_map, List.length_range] at hil
  simp only [List.getElem_map, List.getElem_range, List.getElem_append, List.length_replicate,
    List.getElem_replicate]
  split <;> simp only [decide_eq_true_eq, decide_eq_false_iff_not] <;> omega

section

variable (tensors : TensorBytes) (nLayer : Nat) (gpu : Bool) (ngl : Nat) (offload : Offload)
  (overrides : Overrides) (duplicate : Bool)

def cpuSum : Nat :=
  cpuBase tensors (firstGpuLayer nLayer gpu ngl offload).2 +
    (tensors.layers.zipIdx.map (cpuPart overrides (layerOnGpu nLayer gpu ngl offload))).sum

def gpuSum : Nat :=
  gpuBase tensors duplicate (firstGpuLayer nLayer gpu ngl offload).2 +
    (tensors.layers.zipIdx.map (gpuPart overrides (layerOnGpu nLayer gpu ngl offload))).sum

theorem cpuSum_add_gpuSum (h : tensors.total < u64Max) :
    cpuSum tensors nLayer gpu ngl offload overrides +
        gpuSum tensors nLayer gpu ngl offload overrides duplicate =
      tensors.total + if duplicate && !tensors.hasOutputWeight &&
        (firstGpuLayer nLayer gpu ngl offload).2 then tensors.tokenEmbd else 0 := by
  have htotal := tensors.sum_eq_total h
  rw [← htotal] at h ⊢
  simp only [TensorBytes.sum] at h ⊢
  have hparts := sum_parts overrides (layerOnGpu nLayer gpu ngl offload) tensors.layers.zipIdx
  rw [sum_layer_totals (by omega)] at hparts
  simp only [cpuSum, gpuSum, cpuBase, gpuBase]
  cases (firstGpuLayer nLayer gpu ngl offload).2 <;>
    cases duplicate && !tensors.hasOutputWeight <;>
    simp <;>
    omega

theorem place_eq_sums (h : tensors.total + tensors.tokenEmbd < u64Max) :
    let placement := place tensors nLayer gpu ngl offload overrides duplicate
    placement.cpu = cpuSum tensors nLayer gpu ngl offload overrides ∧
      placement.gpu = gpuSum tensors nLayer gpu ngl offload overrides duplicate := by
  have hsum := cpuSum_add_gpuSum tensors nLayer gpu ngl offload overrides duplicate (by omega)
  have htotal := tensors.sum_eq_total (by omega)
  obtain ⟨-, -, hcpu, hgpu⟩ := foldl_addLayer overrides tensors.layers.zipIdx
    (placeOutput tensors nLayer gpu ngl offload duplicate)
  have hcpuStart : (placeOutput tensors nLayer gpu ngl offload duplicate).cpu =
      min (cpuBase tensors (firstGpuLayer nLayer gpu ngl offload).2) u64Max := by
    simp only [placeOutput, outputBytes, cpuBase, saturatingAdd, Saturating.add, u64Max]
    cases (firstGpuLayer nLayer gpu ngl offload).2 <;> simp
    omega
  have hgpuStart : (placeOutput tensors nLayer gpu ngl offload duplicate).gpu =
      min (gpuBase tensors duplicate (firstGpuLayer nLayer gpu ngl offload).2) u64Max := by
    simp only [TensorBytes.sum] at htotal
    simp only [placeOutput, outputBytes, gpuBase, saturatingAdd, Saturating.add, u64Max]
    cases (firstGpuLayer nLayer gpu ngl offload).2 <;>
      cases duplicate && !tensors.hasOutputWeight <;> simp
    simp only [u64Max] at h
    omega
  rw [placeOutput_onGpu, hcpuStart] at hcpu
  rw [placeOutput_onGpu, hgpuStart] at hgpu
  have hcpuSum : (place tensors nLayer gpu ngl offload overrides duplicate).cpu =
      min (cpuSum tensors nLayer gpu ngl offload overrides) u64Max :=
    hcpu.trans (Saturating.foldl_add _ _ _)
  have hgpuSum : (place tensors nLayer gpu ngl offload overrides duplicate).gpu =
      min (gpuSum tensors nLayer gpu ngl offload overrides duplicate) u64Max :=
    hgpu.trans (Saturating.foldl_add _ _ _)
  have hsmall : tensors.total + (if duplicate && !tensors.hasOutputWeight &&
      (firstGpuLayer nLayer gpu ngl offload).2 then tensors.tokenEmbd else 0) < u64Max := by
    split <;> omega
  exact ⟨hcpuSum.trans (min_eq_left (by omega)), hgpuSum.trans (min_eq_left (by omega))⟩

theorem place_outputGpu : (place tensors nLayer gpu ngl offload overrides duplicate).outputGpu =
    (firstGpuLayer nLayer gpu ngl offload).2 :=
  (foldl_addLayer overrides _ _).2.1

theorem place_layerGpu : (place tensors nLayer gpu ngl offload overrides duplicate).layerGpu =
    (List.range nLayer).map fun il => decide ((firstGpuLayer nLayer gpu ngl offload).1 ≤ il) :=
  (foldl_addLayer overrides _ _).1

end

theorem firstGpuLayer_mono (nLayer : Nat) (gpu : Bool) {ngl ngl' : Nat} (h : ngl ≤ ngl')
    (offload : Offload) :
    (firstGpuLayer nLayer gpu ngl' offload).1 ≤ (firstGpuLayer nLayer gpu ngl offload).1 ∧
      ((firstGpuLayer nLayer gpu ngl offload).2 = true →
        (firstGpuLayer nLayer gpu ngl' offload).2 = true) := by
  cases offload
  cases gpu
  · exact ⟨Nat.le_refl _, id⟩
  · simp only [firstGpuLayer, if_true, decide_eq_true_eq]
    omega

theorem layerOnGpu_mono (nLayer : Nat) (gpu : Bool) {ngl ngl' : Nat} (h : ngl ≤ ngl')
    (offload : Offload) (il : Nat) (hil : layerOnGpu nLayer gpu ngl offload il = true) :
    layerOnGpu nLayer gpu ngl' offload il = true := by
  have hfirst := (firstGpuLayer_mono nLayer gpu h offload).1
  simp only [layerOnGpu, Bool.and_eq_true, decide_eq_true_eq] at hil ⊢
  omega

def offloadedLayers (nLayer : Nat) (gpu : Bool) (ngl : Nat) : Nat :=
  if gpu then min (ngl - 1) nLayer else 0

theorem gpu_suffix (nLayer : Nat) (gpu : Bool) (ngl : Nat) (offload : Offload) :
    nLayer - (firstGpuLayer nLayer gpu ngl offload).1 = offloadedLayers nLayer gpu ngl := by
  cases offload
  cases gpu <;>
    simp only [firstGpuLayer, offloadedLayers, Bool.false_eq_true, if_true, if_false] <;>
    omega

section

variable (tensors : TensorBytes) (nLayer : Nat) (gpu : Bool) (offload : Offload)

theorem cpuSum_anti {ngl ngl' : Nat} (h : ngl ≤ ngl') (overrides : Overrides) :
    cpuSum tensors nLayer gpu ngl' offload overrides ≤
      cpuSum tensors nLayer gpu ngl offload overrides := by
  have houtput := (firstGpuLayer_mono nLayer gpu h offload).2
  refine Nat.add_le_add ?_ (List.sum_le_sum fun layer _ =>
    cpuPart_anti (layerOnGpu_mono nLayer gpu h offload) overrides layer)
  simp only [cpuBase]
  cases hbefore : (firstGpuLayer nLayer gpu ngl offload).2 with
  | true => simp [houtput hbefore]
  | false => split <;> simp

theorem gpuSum_mono {ngl ngl' : Nat} (h : ngl ≤ ngl') (overrides : Overrides) (duplicate : Bool) :
    gpuSum tensors nLayer gpu ngl offload overrides duplicate ≤
      gpuSum tensors nLayer gpu ngl' offload overrides duplicate := by
  have houtput := (firstGpuLayer_mono nLayer gpu h offload).2
  refine Nat.add_le_add ?_ (List.sum_le_sum fun layer _ =>
    gpuPart_mono (layerOnGpu_mono nLayer gpu h offload) overrides layer)
  simp only [gpuBase]
  cases hbefore : (firstGpuLayer nLayer gpu ngl offload).2 with
  | true => simp [houtput hbefore]
  | false => exact Nat.zero_le _

theorem cpuSum_le_of_overrides (ngl : Nat) {overrides more : Overrides} (h : overrides.Le more) :
    cpuSum tensors nLayer gpu ngl offload overrides ≤
      cpuSum tensors nLayer gpu ngl offload more :=
  Nat.add_le_add_left (List.sum_le_sum fun layer _ => cpuPart_le_of_overrides h _ layer) _

end

/-- Weights are placed once each, tied embeddings a second time where the output layer is on
the GPU; the offloaded layers are the last ones, more of them or fewer overrides free
the CPU. -/
theorem weights_placed (tensors : TensorBytes) (nLayer : Nat) (gpu : Bool) (ngl : Nat)
    (offload : Offload) (overrides : Overrides) (duplicate : Bool)
    (hbelow : tensors.total + tensors.tokenEmbd < u64Max) :
    let placement := place tensors nLayer gpu ngl offload overrides duplicate
    placement.cpu + placement.gpu = tensors.total +
      (if duplicate && !tensors.hasOutputWeight && placement.outputGpu then tensors.tokenEmbd
        else 0) ∧
    placement.outputGpu = (gpu && 0 < ngl) ∧
    placement.layerGpu = List.replicate (nLayer - offloadedLayers nLayer gpu ngl) false ++
      List.replicate (offloadedLayers nLayer gpu ngl) true ∧
    (∀ ngl', ngl ≤ ngl' →
      let placement' := place tensors nLayer gpu ngl' offload overrides duplicate
      placement.gpu ≤ placement'.gpu ∧ placement'.cpu ≤ placement.cpu) ∧
    ∀ more, overrides.Le more →
      placement.cpu ≤ (place tensors nLayer gpu ngl offload more duplicate).cpu := by
  have hsums (ngl : Nat) (overrides : Overrides) :=
    place_eq_sums tensors nLayer gpu ngl offload overrides duplicate hbelow
  refine ⟨?_, ?_, ?_, fun ngl' hngl => ⟨?_, ?_⟩, fun more hmore => ?_⟩
  · rw [(hsums ngl overrides).1, (hsums ngl overrides).2, place_outputGpu]
    exact cpuSum_add_gpuSum tensors nLayer gpu ngl offload overrides duplicate (by omega)
  · rw [place_outputGpu]
    cases offload
    cases gpu <;> simp [firstGpuLayer]
  · rw [place_layerGpu, map_range_le, gpu_suffix]
  · rw [(hsums ngl overrides).2, (hsums ngl' overrides).2]
    exact gpuSum_mono tensors nLayer gpu offload hngl overrides duplicate
  · rw [(hsums ngl overrides).1, (hsums ngl' overrides).1]
    exact cpuSum_anti tensors nLayer gpu offload hngl overrides
  · rw [(hsums ngl overrides).1, (hsums ngl more).1]
    exact cpuSum_le_of_overrides tensors nLayer gpu offload ngl hmore

/-- Two layers with tied embeddings, one of them offloaded with its experts kept back. -/
def tiedModel : TensorBytes :=
  { input := 1, tokenEmbd := 10, layers := [⟨3, 4, 5⟩, ⟨6, 7, 8⟩] }

theorem weights_placed_tied :
    let placement := place tiedModel 2 true 2 .outputFirst { cpuMoe := true } true
    placement.gpu = 25 ∧ placement.cpu + placement.gpu = tiedModel.total + 10 := by
  have hsum := (weights_placed tiedModel 2 true 2 .outputFirst { cpuMoe := true } true
    (by decide)).1
  exact ⟨by decide, hsum⟩

end AioLM.Estimate
