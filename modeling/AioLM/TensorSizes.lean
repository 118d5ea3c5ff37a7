import AioLM.GgufTypes
import AioLM.Lists
import AioLM.Saturating

/-!
The bytes of the tensors add up to the data section: each tensor runs from its
offset to the next one, and the slots of the summary share these sizes out by
the names of the tensors. The summaries of several shards add up likewise.
-/

set_option autoImplicit false

namespace AioLM.Gguf

deriving instance DecidableEq for LayerPart
deriving instance DecidableEq for TensorClass

def LayerBytes.total (layer : LayerBytes) : Nat :=
  saturatingAdd (saturatingAdd layer.experts layer.denseFfn) layer.other

def TensorBytes.total (summary : TensorBytes) : Nat :=
  saturatingAdd
    (summary.layers.foldl (fun sum layer => saturatingAdd sum layer.total)
      (saturatingAdd summary.input summary.tokenEmbd))
    summary.output

def LayerBytes.absorb (mine theirs : LayerBytes) : LayerBytes where
  experts := saturatingAdd mine.experts theirs.experts
  denseFfn := saturatingAdd mine.denseFfn theirs.denseFfn
  other := saturatingAdd mine.other theirs.other

def absorbLayers : List LayerBytes → List LayerBytes → List LayerBytes
  | mine :: layers, theirs :: others => mine.absorb theirs :: absorbLayers layers others
  | layers, _ => layers

def TensorBytes.absorb (summary other : TensorBytes) : TensorBytes where
  input := saturatingAdd summary.input other.input
  perLayerTokenEmbd := saturatingAdd summary.perLayerTokenEmbd other.perLayerTokenEmbd
  tokenEmbd := saturatingAdd summary.tokenEmbd other.tokenEmbd
  output := saturatingAdd summary.output other.output
  layers :=
    absorbLayers
      (summary.layers ++ List.replicate (other.layers.length - summary.layers.length) {})
      other.layers
  hasOutputWeight := summary.hasOutputWeight || other.hasOutputWeight
  vocab := summary.vocab.or other.vocab

def LayerBytes.sum (layer : LayerBytes) : Nat := layer.experts + layer.denseFfn + layer.other

def TensorBytes.sum (summary : TensorBytes) : Nat :=
  summary.input + summary.tokenEmbd + (summary.layers.map LayerBytes.sum).sum + summary.output

theorem LayerBytes.total_eq (layer : LayerBytes) : layer.total = min layer.sum u64Max := by
  simp only [LayerBytes.total, LayerBytes.sum, saturatingAdd, Saturating.add, u64Max]
  omega

theorem TensorBytes.total_eq (summary : TensorBytes) :
    summary.total = min summary.sum u64Max := by
  have hlayers : summary.layers.foldl (fun sum layer => saturatingAdd sum layer.total)
      (saturatingAdd summary.input summary.tokenEmbd) =
        min (summary.input + summary.tokenEmbd + (summary.layers.map LayerBytes.sum).sum) u64Max := by
    rw [← Saturating.min_sum_min]
    simp only [← LayerBytes.total_eq]
    exact Saturating.foldl_add LayerBytes.total summary.layers _
  rw [TensorBytes.total, hlayers]
  exact Saturating.add_min_left

theorem TensorBytes.sum_eq_total {summary : TensorBytes} (h : summary.total < u64Max) :
    summary.sum = summary.total := by
  have htotal := summary.total_eq
  omega

theorem LayerBytes.sum_absorb (mine theirs : LayerBytes) (h : mine.sum + theirs.sum < u64Max) :
    (mine.absorb theirs).sum = mine.sum + theirs.sum := by
  simp only [LayerBytes.sum, LayerBytes.absorb, saturatingAdd, Saturating.add, u64Max] at *
  omega

theorem sum_absorbLayers (layers others : List LayerBytes) (hlength : others.length ≤ layers.length)
    (h : (layers.map LayerBytes.sum).sum + (others.map LayerBytes.sum).sum < u64Max) :
    ((absorbLayers layers others).map LayerBytes.sum).sum =
      (layers.map LayerBytes.sum).sum + (others.map LayerBytes.sum).sum := by
  induction layers generalizing others with
  | nil =>
    obtain rfl : others = [] := List.length_eq_zero_iff.mp (Nat.le_zero.mp hlength)
    rfl
  | cons mine layers ih =>
    cases others with
    | nil => simp [absorbLayers]
    | cons theirs others =>
      simp only [List.map_cons, List.sum_cons, List.length_cons] at h hlength
      have hhead := LayerBytes.sum_absorb mine theirs (by omega)
      have hrest := ih others (by omega) (by omega)
      simp only [absorbLayers, List.map_cons, List.sum_cons]
      omega

theorem sum_resized (layers : List LayerBytes) (n : Nat) :
    ((layers ++ List.replicate n ({} : LayerBytes)).map LayerBytes.sum).sum =
      (layers.map LayerBytes.sum).sum := by
  simp [LayerBytes.sum]

theorem TensorBytes.total_absorb {summary other : TensorBytes}
    (h : summary.total + other.total < u64Max) :
    (summary.absorb other).total = summary.total + other.total := by
  have hmine := summary.sum_eq_total (by omega)
  have htheirs := other.sum_eq_total (by omega)
  rw [← hmine, ← htheirs] at h ⊢
  simp only [TensorBytes.sum] at h
  have hlayers := sum_absorbLayers
    (summary.layers ++
      List.replicate (other.layers.length - summary.layers.length) ({} : LayerBytes))
    other.layers (by simp; omega) (by rw [sum_resized]; omega)
  rw [sum_resized] at hlayers
  rw [TensorBytes.total_eq]
  simp only [TensorBytes.sum, TensorBytes.absorb, hlayers, saturatingAdd, Saturating.add, u64Max] at *
  omega

def LayerBytes.part (layer : LayerBytes) : LayerPart → Nat
  | .experts => layer.experts
  | .denseFfn => layer.denseFfn
  | .other => layer.other

def TensorBytes.slot (summary : TensorBytes) : TensorClass → Nat
  | .input => summary.input
  | .tokenEmbd => summary.tokenEmbd
  | .output => summary.output
  | .layer il part => (summary.layers[il]?.getD {}).part part

theorem TensorBytes.slot_empty (c : TensorClass) : TensorBytes.slot {} c = 0 := by
  cases c with
  | layer il part => cases part <;> rfl
  | _ => rfl

theorem LayerBytes.part_add (layer : LayerBytes) (part part' : LayerPart) (bytes : Nat) :
    (layer.add part bytes).part part' =
      if part = part' then saturatingAdd (layer.part part') bytes else layer.part part' := by
  cases part <;> cases part' <;> rfl

theorem getElem?_resized (layers : List LayerBytes) (n il : Nat) :
    ((layers ++ List.replicate n ({} : LayerBytes))[il]?).getD {} = (layers[il]?).getD {} := by
  rw [List.getElem?_append]
  split
  · rfl
  · rename_i hlength
    rw [List.getElem?_replicate, List.getElem?_eq_none (show layers.length ≤ il by omega)]
    split <;> rfl

theorem getElem?_modify_resized (layers : List LayerBytes) (il il' : Nat)
    (f : LayerBytes → LayerBytes) :
    (((layers ++ List.replicate (il + 1 - layers.length) ({} : LayerBytes)).modify il f)[il']?).getD {} =
      if il = il' then f ((layers[il']?).getD {}) else (layers[il']?).getD {} := by
  rw [List.getElem?_modify]
  by_cases hil : il = il'
  · subst hil
    have hlt : il < (layers ++ List.replicate (il + 1 - layers.length) ({} : LayerBytes)).length := by
      simp only [List.length_append, List.length_replicate]
      omega
    have hget := getElem?_resized layers (il + 1 - layers.length) il
    rw [List.getElem?_eq_getElem hlt] at hget ⊢
    simp only [Option.getD_some] at hget
    simp [hget]
  · simp [hil, getElem?_resized]

theorem TensorBytes.slot_add (summary : TensorBytes) (entry : Placed) (bytes : Nat)
    (c : TensorClass) :
    (summary.add entry bytes).slot c =
      if entry.found = c then saturatingAdd (summary.slot c) bytes else summary.slot c := by
  obtain ⟨offset, found, flag⟩ := entry
  cases found with
  | layer il part =>
    cases c with
    | layer il' part' =>
      have hget := getElem?_modify_resized summary.layers il il' (LayerBytes.add part bytes)
      cases flag <;>
        simp only [TensorBytes.add, TensorBytes.slot, Bool.false_eq_true, if_true, if_false, hget,
          TensorClass.layer.injEq] <;>
        split <;> simp_all [LayerBytes.part_add]
    | _ => cases flag <;> simp [TensorBytes.add, TensorBytes.slot]
  | _ => cases flag <;> cases c <;> simp [TensorBytes.add, TensorBytes.slot]

def nextOffset (dataLen : Nat) (offsets : List Nat) (offset : Nat) : Nat :=
  (offsets.filter fun next => offset < next).foldl min dataLen

theorem nextOffset_perm {offsets offsets' : List Nat} (h : offsets.Perm offsets')
    (dataLen offset : Nat) :
    nextOffset dataLen offsets offset = nextOffset dataLen offsets' offset :=
  (h.filter _).foldl_eq' (fun _ _ _ _ _ => by omega) _

theorem foldl_min_of_le {stop : Nat} {xs : List Nat} (h : ∀ x ∈ xs, stop ≤ x) :
    xs.foldl min stop = stop := by
  induction xs with
  | nil => rfl
  | cons x xs ih =>
    rw [List.foldl_cons, min_eq_left (h x (by simp))]
    exact ih fun y hy => h y (by simp [hy])

theorem nextOffset_append {dataLen offset : Nat} {before behind : List Nat}
    (hsorted : (before ++ offset :: behind).Pairwise (· < ·))
    (hbelow : ∀ next ∈ behind, next < dataLen) :
    nextOffset dataLen (before ++ offset :: behind) offset = behind.head?.getD dataLen := by
  obtain ⟨-, hrest, hbefore⟩ := List.pairwise_append.mp hsorted
  obtain ⟨hbehind, hpairs⟩ := List.pairwise_cons.mp hrest
  have hnone : before.filter (fun next => offset < next) = [] :=
    List.filter_eq_nil_iff.mpr fun x hx => by simpa using (hbefore x hx offset (by simp)).le
  have hall : behind.filter (fun next => offset < next) = behind :=
    List.filter_eq_self.mpr fun x hx => by simpa using hbehind x hx
  have hfilter : (before ++ offset :: behind).filter (fun next => offset < next) = behind := by
    simp [hnone, hall]
  rw [nextOffset, hfilter]
  cases behind with
  | nil => rfl
  | cons next behind =>
    have hfirst := hbelow next (by simp)
    rw [List.foldl_cons, min_eq_right hfirst.le]
    exact foldl_min_of_le fun x hx => ((List.pairwise_cons.mp hpairs).1 x hx).le

def gaps (dataLen : Nat) : List Placed → List (Placed × Nat)
  | [] => []
  | entry :: entries =>
    (entry, (entries.head?.map Placed.offset).getD dataLen - entry.offset) :: gaps dataLen entries

def addSized (summary : TensorBytes) (sized : Placed × Nat) : TensorBytes :=
  summary.add sized.1 sized.2

theorem sizeTensors_some {dataLen : Nat} {entries : List Placed} {summary final : TensorBytes}
    (h : sizeTensors dataLen entries summary = some final) :
    (entries.map Placed.offset).Pairwise (· < ·) ∧ (∀ entry ∈ entries, entry.offset < dataLen) ∧
      final = (gaps dataLen entries).foldl addSized summary := by
  induction entries generalizing summary with
  | nil =>
    cases h
    exact ⟨List.Pairwise.nil, by simp, rfl⟩
  | cons entry entries ih =>
    simp only [sizeTensors] at h
    split at h
    · cases h
    · rename_i hvalid
      obtain ⟨hsorted, hbelow, hfinal⟩ := ih h
      refine ⟨?_, List.forall_mem_cons.mpr ⟨by omega, hbelow⟩, hfinal⟩
      cases entries with
      | nil => simp
      | cons next entries =>
        have hnext : entry.offset < next.offset := by
          simp only [List.head?_cons, Option.map_some, Option.getD_some] at hvalid
          omega
        refine List.pairwise_cons.mpr ⟨fun offset hoffset => ?_, hsorted⟩
        rcases List.mem_cons.mp hoffset with rfl | hlater
        · exact hnext
        · exact hnext.trans ((List.pairwise_cons.mp hsorted).1 offset hlater)

def placedSize (dataLen : Nat) (offsets : List Nat) (entry : Placed) : Nat :=
  nextOffset dataLen offsets entry.offset - entry.offset

theorem gaps_eq_map {dataLen : Nat} (before : List Nat) {entries : List Placed}
    (hsorted : (before ++ entries.map Placed.offset).Pairwise (· < ·))
    (hbelow : ∀ entry ∈ entries, entry.offset < dataLen) :
    gaps dataLen entries = entries.map fun entry =>
      (entry, placedSize dataLen (before ++ entries.map Placed.offset) entry) := by
  induction entries generalizing before with
  | nil => rfl
  | cons entry entries ih =>
    obtain ⟨-, hbelow'⟩ := List.forall_mem_cons.mp hbelow
    have hrest := ih (before ++ [entry.offset]) (by simpa using hsorted) hbelow'
    have hnext := nextOffset_append hsorted (by simpa using hbelow')
    simp only [List.append_assoc, List.singleton_append] at hrest
    rw [gaps, hrest]
    simp only [List.map_cons, List.cons.injEq, Prod.mk.injEq, true_and, and_true, placedSize]
    rw [hnext, List.head?_map]

theorem sum_gaps {dataLen : Nat} {entry : Placed} {entries : List Placed}
    (hsorted : ((entry :: entries).map Placed.offset).Pairwise (· < ·))
    (hbelow : ∀ other ∈ entry :: entries, other.offset < dataLen) :
    ((gaps dataLen (entry :: entries)).map Prod.snd).sum = dataLen - entry.offset := by
  induction entries generalizing entry with
  | nil => simp [gaps]
  | cons next entries ih =>
    obtain ⟨hfirst, hrest⟩ := List.pairwise_cons.mp hsorted
    have hlt : entry.offset < next.offset := hfirst next.offset (by simp)
    have hnext := hbelow next (by simp)
    have hsum := ih hrest fun other hother => hbelow other (List.mem_cons_of_mem _ hother)
    rw [gaps, List.map_cons, List.sum_cons, hsum]
    simp only [List.head?_cons, Option.map_some, Option.getD_some]
    omega

theorem LayerBytes.sum_add (layer : LayerBytes) (part : LayerPart) {bytes : Nat}
    (h : layer.sum + bytes ≤ u64Max) : (layer.add part bytes).sum = layer.sum + bytes := by
  cases part <;>
    simp only [LayerBytes.sum, LayerBytes.add, saturatingAdd, Saturating.add, u64Max] at * <;> omega

theorem sum_modify (layers : List LayerBytes) {il bytes : Nat} (part : LayerPart)
    (hlt : il < layers.length) (h : (layers.map LayerBytes.sum).sum + bytes ≤ u64Max) :
    ((layers.modify il (LayerBytes.add part bytes)).map LayerBytes.sum).sum =
      (layers.map LayerBytes.sum).sum + bytes := by
  induction layers generalizing il with
  | nil => exact absurd hlt (Nat.not_lt_zero _)
  | cons layer layers ih =>
    simp only [List.map_cons, List.sum_cons] at h
    cases il with
    | zero =>
      have hlayer := layer.sum_add part (show layer.sum + bytes ≤ u64Max by omega)
      simp only [List.modify_zero_cons, List.map_cons, List.sum_cons, hlayer]
      omega
    | succ il =>
      have hrest := ih (show il < layers.length by simpa using hlt) (by omega)
      simp only [List.modify_succ_cons, List.map_cons, List.sum_cons, hrest]
      omega

theorem TensorBytes.sum_add (summary : TensorBytes) (entry : Placed) {bytes : Nat}
    (h : summary.sum + bytes ≤ u64Max) : (summary.add entry bytes).sum = summary.sum + bytes := by
  obtain ⟨offset, found, flag⟩ := entry
  simp only [TensorBytes.sum] at h
  cases found with
  | layer il part =>
    have hlayers := sum_modify
      (summary.layers ++ List.replicate (il + 1 - summary.layers.length) ({} : LayerBytes)) part
      (show il < _ by simp; omega) (show _ + bytes ≤ u64Max by rw [sum_resized]; omega)
    rw [sum_resized] at hlayers
    cases flag <;>
      simp only [TensorBytes.sum, TensorBytes.add, Bool.false_eq_true, if_true, if_false,
        hlayers] <;>
      omega
  | _ =>
    cases flag <;>
      simp only [TensorBytes.sum, TensorBytes.add, Bool.false_eq_true, if_true, if_false,
        saturatingAdd, Saturating.add, u64Max] at * <;>
      omega

theorem sum_foldl_addSized {sized : List (Placed × Nat)} {summary : TensorBytes}
    (h : summary.sum + (sized.map Prod.snd).sum ≤ u64Max) :
    (sized.foldl addSized summary).sum = summary.sum + (sized.map Prod.snd).sum := by
  induction sized generalizing summary with
  | nil => simp
  | cons first sized ih =>
    simp only [List.map_cons, List.sum_cons] at h ⊢
    have hfirst := summary.sum_add first.1 (show summary.sum + first.2 ≤ u64Max by omega)
    rw [List.foldl_cons, ih (by rw [addSized, hfirst]; omega), addSized, hfirst]
    omega

theorem slot_foldl_addSized {sized : List (Placed × Nat)} {summary : TensorBytes} {c : TensorClass}
    (h : summary.slot c + (sized.map Prod.snd).sum ≤ u64Max) :
    (sized.foldl addSized summary).slot c = summary.slot c +
      ((sized.filter fun pair => pair.1.found = c).map Prod.snd).sum := by
  induction sized generalizing summary with
  | nil => simp
  | cons first sized ih =>
    simp only [List.map_cons, List.sum_cons] at h
    have hfirst := summary.slot_add first.1 first.2 c
    by_cases hc : first.1.found = c
    · have hexact : saturatingAdd (summary.slot c) first.2 = summary.slot c + first.2 :=
        Saturating.add_of_le (show _ ≤ u64Max by omega)
      rw [if_pos hc, hexact] at hfirst
      rw [List.foldl_cons, ih (by rw [addSized, hfirst]; omega), addSized, hfirst]
      simp [hc]
      omega
    · rw [if_neg hc] at hfirst
      rw [List.foldl_cons, ih (by rw [addSized, hfirst]; omega), addSized, hfirst]
      simp [hc]

theorem classify_perLayerTokenEmbd : classifyTensor perLayerTokenEmbdName = .input := by decide

theorem TensorInfo.found_of_perLayer {info : TensorInfo}
    (h : info.placed.perLayerTokenEmbd = true) : info.placed.found = .input := by
  have hname : info.name = perLayerTokenEmbdName := by simpa [TensorInfo.placed] using h
  rw [TensorInfo.placed, hname, classify_perLayerTokenEmbd]

theorem perLayer_le_foldl {sized : List (Placed × Nat)} {summary : TensorBytes}
    (hinput : ∀ pair ∈ sized, pair.1.perLayerTokenEmbd = true → pair.1.found = .input)
    (h : summary.perLayerTokenEmbd ≤ min summary.input u64Max) :
    (sized.foldl addSized summary).perLayerTokenEmbd ≤
      min (sized.foldl addSized summary).input u64Max := by
  induction sized generalizing summary with
  | nil => exact h
  | cons first sized ih =>
    obtain ⟨hfirst, hrest⟩ := List.forall_mem_cons.mp hinput
    refine ih hrest ?_
    obtain ⟨⟨offset, found, flag⟩, bytes⟩ := first
    cases flag with
    | true =>
      obtain rfl : found = .input := hfirst rfl
      simp only [addSized, TensorBytes.add, if_true, saturatingAdd, Saturating.add, u64Max] at h ⊢
      omega
    | false =>
      cases found <;>
        simp only [addSized, TensorBytes.add, Bool.false_eq_true, if_false, saturatingAdd,
          Saturating.add, u64Max] at h ⊢ <;>
        omega

/-- The bytes of a tensor: from its offset to the next one of the table. -/
def TensorInfo.size (dataLen : Nat) (infos : List TensorInfo) (info : TensorInfo) : Nat :=
  nextOffset dataLen (infos.map TensorInfo.offset) info.offset - info.offset

structure Partition (infos : List TensorInfo) (dataLen : Nat) (summary : TensorBytes) : Prop where
  distinct : (infos.map TensorInfo.offset).Nodup
  below : ∀ info ∈ infos, info.offset < dataLen
  positive : ∀ info ∈ infos, 0 < info.size dataLen infos
  slots : ∀ c, summary.slot c =
    ((infos.filter fun info => classifyTensor info.name = c).map
      (TensorInfo.size dataLen infos)).sum
  total_eq : ∀ first ∈ infos, (∀ info ∈ infos, first.offset ≤ info.offset) →
    summary.total = dataLen - first.offset
  total_nil : infos = [] → summary.total = 0
  perLayer_le : summary.perLayerTokenEmbd ≤ summary.input

theorem size_pos {dataLen : Nat} {offsets : List Nat} {offset : Nat} (h : offset < dataLen) :
    offset < nextOffset dataLen offsets offset := by
  rw [nextOffset]
  have hmin : ∀ (nexts : List Nat) (stop : Nat), offset < stop → (∀ next ∈ nexts, offset < next) →
      offset < nexts.foldl min stop := by
    intro nexts
    induction nexts with
    | nil => exact fun stop hstop _ => hstop
    | cons next nexts ih =>
      intro stop hstop hnexts
      obtain ⟨hnext, hrest⟩ := List.forall_mem_cons.mp hnexts
      exact ih _ (lt_min hstop hnext) hrest
  exact hmin _ _ h fun next hnext => by simpa using (List.mem_filter.mp hnext).2

/-- The walk over a sorted table, seen from the table as it stands in the file. -/
theorem partition_of_sizeTensors {infos : List TensorInfo} {sorted : List Placed} {dataLen : Nat}
    {noted summary : TensorBytes} (hperm : sorted.Perm (infos.map TensorInfo.placed))
    (hlen : dataLen ≤ u64Max) (hslots : ∀ c, noted.slot c = 0) (hsum : noted.sum = 0)
    (hper : noted.perLayerTokenEmbd = 0) (h : sizeTensors dataLen sorted noted = some summary) :
    Partition infos dataLen summary := by
  obtain ⟨hsorted, hbelow, rfl⟩ := sizeTensors_some h
  have hoffsets : (sorted.map Placed.offset).Perm (infos.map TensorInfo.offset) := by
    have hmap := hperm.map Placed.offset
    rw [List.map_map] at hmap
    exact hmap
  have hgaps : gaps dataLen sorted = sorted.map fun entry =>
      (entry, placedSize dataLen (infos.map TensorInfo.offset) entry) := by
    rw [gaps_eq_map [] hsorted hbelow]
    simp only [List.nil_append, placedSize, nextOffset_perm hoffsets]
  have htotal : ((gaps dataLen sorted).map Prod.snd).sum ≤ dataLen := by
    cases sorted with
    | nil => simp [gaps]
    | cons entry entries =>
      rw [sum_gaps hsorted hbelow]
      omega
  have hbelow' : ∀ info ∈ infos, info.offset < dataLen := fun info hinfo =>
    hbelow info.placed (hperm.mem_iff.mpr (List.mem_map_of_mem hinfo))
  have hsums : ((gaps dataLen sorted).foldl addSized noted).sum =
      noted.sum + ((gaps dataLen sorted).map Prod.snd).sum :=
    sum_foldl_addSized (by omega)
  refine ⟨hoffsets.nodup_iff.mp (hsorted.imp fun hlt => hlt.ne), hbelow',
    fun info hinfo => Nat.sub_pos_of_lt (size_pos (hbelow' info hinfo)), fun c => ?_,
    fun first hfirst hleast => ?_, fun hnil => ?_, ?_⟩
  · rw [slot_foldl_addSized (by rw [hslots c]; omega), hslots c, Nat.zero_add, hgaps,
      List.filter_map, List.map_map]
    have hclass := ((hperm.filter fun entry => entry.found = c).map
      (placedSize dataLen (infos.map TensorInfo.offset))).sum_eq
    rw [List.filter_map, List.map_map] at hclass
    exact hclass
  · have hmem : first.placed ∈ sorted := hperm.mem_iff.mpr (List.mem_map_of_mem hfirst)
    cases sorted with
    | nil => exact absurd hmem (by simp)
    | cons entry entries =>
      have hentry : first.offset ≤ entry.offset := by
        obtain ⟨info, hinfo, rfl⟩ := List.mem_map.mp (hperm.mem_iff.mp (by simp : entry ∈ _))
        exact hleast info hinfo
      have hfirst' : entry.offset ≤ first.offset := by
        rcases List.mem_cons.mp hmem with rfl | hlater
        · exact Nat.le_refl _
        · exact ((List.pairwise_cons.mp hsorted).1 _ (List.mem_map_of_mem hlater)).le
      rw [TensorBytes.total_eq, hsums, hsum, sum_gaps hsorted hbelow]
      omega
  · subst hnil
    obtain rfl : sorted = [] := hperm.eq_nil
    rw [TensorBytes.total_eq, hsums, hsum]
    rfl
  · refine (perLayer_le_foldl (fun pair hpair hflag => ?_) (by omega)).trans (Nat.min_le_left _ _)
    rw [hgaps] at hpair
    obtain ⟨entry, hentry, rfl⟩ := List.mem_map.mp hpair
    obtain ⟨info, -, rfl⟩ := List.mem_map.mp (hperm.mem_iff.mp hentry)
    exact TensorInfo.found_of_perLayer hflag

theorem noted_view {π : Type} (view : TensorBytes → π)
    (hview : ∀ name shape summary, view (TensorBytes.note name shape summary) = view summary)
    (infos : List TensorInfo) :
    view (infos.foldl (fun summary info => summary.note info.name info.shape) {}) = view {} :=
  Lists.foldl_view_eq (fun _ _ _ => hview _ _ _) _

/-- Whenever the sizes of a table are accepted they partition the data section, and the
summaries of shards add up. A file has fewer than 2 ^ 64 bytes. -/
theorem tensor_sizes_partition {count alignment fileLen : Nat} {collect : Bool} {s s' : Scan}
    {scan : TensorScan} {summary : TensorBytes} (hfile : fileLen < 2 ^ 64)
    (hread : readTensorBytes count alignment fileLen collect s = .ok (scan, s'))
    (hsome : scan.bytes = some summary) :
    (∃ infos dataLen t, collectM readTensorInfo count { reader := s.reader } = .ok (infos, t) ∧
      dataLen + alignUp t.reader.consumed alignment = fileLen ∧ Partition infos dataLen summary) ∧
    ∀ mine theirs : TensorBytes, mine.total + theirs.total < u64Max →
      (mine.absorb theirs).total = mine.total + theirs.total := by
  refine ⟨?_, fun mine theirs => TensorBytes.total_absorb⟩
  have hagree := readTensorBytes_lockstep count alignment fileLen collect s { reader := s.reader }
    ⟨rfl, False.elim⟩
  obtain ⟨⟨infos, bytes⟩, t, htable, hbytes, -⟩ := hagree.ok_left hread
  obtain ⟨infos', t', hinfos, hrest⟩ := run_bind_eq_ok htable
  obtain ⟨consumed, t'', hconsumed, hend⟩ := run_bind_eq_ok hrest
  cases hconsumed
  simp only at hend
  split at hend
  · cases hend
  · split at hend
    · cases hend
      cases hbytes.symm.trans hsome
    · cases hend
      refine ⟨infos, fileLen - alignUp t.reader.consumed alignment, t, hinfos, by omega, ?_⟩
      refine partition_of_sizeTensors (List.mergeSort_perm _ _) (by simp only [u64Max]; omega)
        (fun c => ?_) ?_ ?_ (hbytes.symm.trans hsome)
      · rw [noted_view (fun summary => summary.slot c) (fun _ _ _ => by cases c <;> rfl)]
        exact TensorBytes.slot_empty c
      · exact noted_view TensorBytes.sum (fun _ _ _ => rfl) infos
      · exact noted_view TensorBytes.perLayerTokenEmbd (fun _ _ _ => rfl) infos

def tableEntry (name : String) (offset : Nat) : Bytes :=
  leBytes 8 name.length ++ TextBytes.ascii name ++ leBytes 4 1 ++ leBytes 8 8 ++ leBytes 4 0 ++
    leBytes 8 offset

/-- The second tensor of the table comes first in the data. -/
def twoTensors : Scan :=
  { reader := { rest := tableEntry "t" 32 ++ tableEntry "u" 0 } }

theorem mergeSort_two {a b : Placed} (h : b.offset < a.offset) :
    [a, b].mergeSort (fun a b => a.offset ≤ b.offset) = [b, a] := by
  rw [List.mergeSort]
  simp [List.MergeSort.Internal.splitInTwo, h]

theorem tensor_sizes_partition_two :
    ∃ scan s' summary, readTensorBytes 2 32 160 false twoTensors = .ok (scan, s') ∧
      scan.bytes = some summary ∧ summary.output = 64 ∧
      ∃ infos dataLen, Partition infos dataLen summary := by
  obtain ⟨⟨walk, s⟩, hwalk⟩ := Fallible.exists_of_isOk
    (show (loopM readTensor 2 {} twoTensors).isOk = true by decide +kernel)
  have hok : ((loopM readTensor 2 {} twoTensors).toOption.all fun (walk, s) =>
      walk.entries.map Placed.offset == [32, 0] && s.reader.consumed == 66 &&
        (sizeTensors 64 walk.entries.reverse walk.summary).map TensorBytes.output == some 64) =
      true := by
    decide +kernel
  rw [hwalk] at hok
  simp only [Except.toOption, Option.all_some, Bool.and_eq_true, beq_iff_eq] at hok
  obtain ⟨⟨hoffsets, hconsumed⟩, hsize⟩ := hok
  obtain ⟨a, rest, hentries, ha, hrest⟩ := List.map_eq_cons_iff.mp hoffsets
  obtain ⟨b, last, rfl, hb, hlast⟩ := List.map_eq_cons_iff.mp hrest
  obtain rfl := List.map_eq_nil_iff.mp hlast
  obtain ⟨final, hfinal, houtput⟩ := Option.map_eq_some_iff.mp hsize
  have hread : readTensorBytes 2 32 160 false twoTensors = .ok (⟨some final, none⟩, s) := by
    rw [readTensorBytes, run_bind_ok (show startWalk false 2 twoTensors = .ok ({}, _) from rfl),
      run_bind_ok hwalk, run_bind_ok (show getConsumed s = .ok (66, s) by rw [← hconsumed]; rfl),
      if_neg (by decide), if_neg (by decide), hentries, mergeSort_two (by omega), ← hfinal,
      hentries]
    rfl
  obtain ⟨⟨infos, dataLen, -, -, -, hpartition⟩, -⟩ :=
    tensor_sizes_partition (by decide) hread rfl
  exact ⟨_, s, final, hread, rfl, houtput, infos, dataLen, hpartition⟩

end AioLM.Gguf
