import AioLM.GgufFacts

/-!
The description of a model for display, with the base models its header lists.
The reader stops collecting base models at a cap, before it knows which of them
the declared count lets in.
-/

set_option autoImplicit false

namespace AioLM.Gguf

def MAX_BASE_MODELS : Nat := 64

/-- `str::parse::<u32>` -/
def parseU32 (t : Text) : Option Nat := (Text.parseUsize t).filter fun n => n < 2 ^ 32

def baseModelPrefix : Text := "general.base_model.".toList
def baseModelSuffix : Text := ".repo_url".toList
def baseModelCountKey : Text := "general.base_model.count".toList
def nameKey : Text := "general.name".toList

def baseModelIndex (key : Text) : Option Nat := do
  let rest ← Text.stripPrefix baseModelPrefix key
  let digits ← Text.stripSuffix baseModelSuffix rest
  parseU32 digits

structure ModelDescriptor where
  name : Option Text := none
  architecture : Option Text := none
  sizeLabel : Option Text := none
  fileType : Option Nat := none
  quantizedBy : Option Text := none
  repoUrl : Option Text := none
  baseModelRepoUrls : List Text := []

structure DescriptorScan where
  descriptor : ModelDescriptor := {}
  baseModels : List (Nat × Text) := []
  declaredBaseModels : Option Nat := none

def descriptorTextKeys : List Text :=
  [nameKey, architectureName, sizeLabelKey, quantizedByKey, repoUrlKey]

def ModelDescriptor.setText (key : Text) (value : Option Text) (descriptor : ModelDescriptor) :
    ModelDescriptor :=
  if key = nameKey then { descriptor with name := value }
  else if key = architectureName then { descriptor with architecture := value }
  else if key = sizeLabelKey then { descriptor with sizeLabel := value }
  else if key = quantizedByKey then { descriptor with quantizedBy := value }
  else { descriptor with repoUrl := value }

def readTextValue (kind : Nat) : Scanner (Option Text) :=
  if kind = 8 then do
    let value ← string
    return some value
  else do
    skipValue kind
    return none

def DescriptorScan.push (index : Nat) (url : Option Text) (scan : DescriptorScan) :
    DescriptorScan :=
  match url with
  | some url => { scan with baseModels := scan.baseModels ++ [(index, url)] }
  | none => scan

def readDescriptorValue (scan : DescriptorScan) (key : Text) (kind : Nat) :
    Scanner DescriptorScan :=
  if key ∈ descriptorTextKeys then do
    let value ← readTextValue kind
    return { scan with descriptor := scan.descriptor.setText key value }
  else if key = fileTypeKey then do
    let value ← readUnsigned kind
    return { scan with descriptor := { scan.descriptor with fileType := value } }
  else if key = baseModelCountKey then do
    let value ← readUnsigned kind
    return { scan with declaredBaseModels := value }
  else
    match baseModelIndex key with
    | some index =>
      if scan.baseModels.length < MAX_BASE_MODELS then do
        let url ← readTextValue kind
        return scan.push index url
      else do
        skipValue kind
        return scan
    | none => do
      skipValue kind
      return scan

def readDescriptorEntry (scan : DescriptorScan) : Scanner DescriptorScan := do
  let key ← string
  let kind ← u32
  readDescriptorValue scan key kind

/-- `sort_by_key` keeps the order of equal indexes. -/
def sortByIndex (models : List (Nat × Text)) : List (Nat × Text) :=
  models.insertionSort fun a b : Nat × Text => a.1 ≤ b.1

def DescriptorScan.finish (scan : DescriptorScan) : ModelDescriptor :=
  let sorted := sortByIndex scan.baseModels
  let kept :=
    match scan.declaredBaseModels with
    | some count => (sorted.filter fun model : Nat × Text => model.1 < count).take MAX_BASE_MODELS
    | none => sorted
  { scan.descriptor with baseModelRepoUrls := kept.map Prod.snd }

def readDescriptorEntries : Nat × Nat → Scanner ModelDescriptor :=
  fun (_, keys) => do return (← loopM readDescriptorEntry keys {}).finish

def readDescriptor (file : Bytes) : Except Text ModelDescriptor :=
  scanFile (readHeader >>= readDescriptorEntries) file

def DescriptorScan.apply (scan : DescriptorScan) (entry : Entry) : DescriptorScan :=
  if entry.key ∈ descriptorTextKeys then
    { scan with descriptor := scan.descriptor.setText entry.key entry.value.asText }
  else if entry.key = fileTypeKey then
    { scan with descriptor := { scan.descriptor with fileType := entry.value.asUnsigned } }
  else if entry.key = baseModelCountKey then
    { scan with declaredBaseModels := entry.value.asUnsigned }
  else
    match baseModelIndex entry.key with
    | some index =>
      if scan.baseModels.length < MAX_BASE_MODELS then scan.push index entry.value.asText else scan
    | none => scan

theorem Cost.add_le {cost cost' spent spent' : Cost} (h : spent ≤ cost) (h' : spent' ≤ cost') :
    spent + spent' ≤ cost + cost' :=
  ⟨Nat.add_le_add h.1 h'.1, Nat.add_le_add h.2 h'.2⟩

/-- What reading an entry may hold and meet; behind the cap it holds less. -/
def Entry.descriptorCost (entry : Entry) : Cost :=
  entry.keyCost +
    if entry.key ∈ descriptorTextKeys ∨ (baseModelIndex entry.key).isSome then entry.value.textCost
    else entry.value.skipCost

theorem Value.skipCost_le (value : Value) : value.skipCost ≤ value.textCost := by
  cases value with
  | text bytes => exact ⟨Nat.zero_le _, Nat.zero_le _⟩
  | _ => exact le_refl _

theorem readTextValue_takes {value : Value} (h : value.Bounded) :
    Takes (readTextValue value.code) value.encode value.textCost value.asText := by
  have hread := Takes.readText h (f := some) (a := none)
  cases value <;> exact hread

theorem readDescriptorValue_takes (scan : DescriptorScan) {entry : Entry} (h : entry.Bounded) :
    ∃ cost ≤ entry.value.textCost,
      ((entry.key ∈ descriptorTextKeys ∨ (baseModelIndex entry.key).isSome) ∨
        cost = entry.value.skipCost) ∧
      Takes (readDescriptorValue scan entry.key entry.value.code) entry.value.encode cost
        (scan.apply entry) := by
  have hvalue := h.value
  unfold readDescriptorValue DescriptorScan.apply
  by_cases htext : entry.key ∈ descriptorTextKeys
  · rw [if_pos htext, if_pos htext]
    exact ⟨_, le_refl _, .inl (.inl htext), (readTextValue_takes hvalue).map⟩
  rw [if_neg htext, if_neg htext]
  by_cases htype : entry.key = fileTypeKey
  · rw [if_pos htype, if_pos htype]
    exact ⟨_, entry.value.skipCost_le, .inr rfl, (Takes.readUnsigned hvalue).map⟩
  rw [if_neg htype, if_neg htype]
  by_cases hcount : entry.key = baseModelCountKey
  · rw [if_pos hcount, if_pos hcount]
    exact ⟨_, entry.value.skipCost_le, .inr rfl, (Takes.readUnsigned hvalue).map⟩
  rw [if_neg hcount, if_neg hcount]
  cases hindex : baseModelIndex entry.key with
  | none => exact ⟨_, entry.value.skipCost_le, .inr rfl, (Takes.skipValue hvalue).map⟩
  | some index =>
    simp only
    split
    · exact ⟨_, le_refl _, .inl (.inr rfl), (readTextValue_takes hvalue).map⟩
    · exact ⟨_, entry.value.skipCost_le, .inr rfl, (Takes.skipValue hvalue).map⟩

theorem readDescriptorEntry_takes (scan : DescriptorScan) {entry : Entry} (h : entry.Bounded) :
    ∃ cost ≤ entry.descriptorCost,
      Takes (readDescriptorEntry scan) entry.encode cost (scan.apply entry) := by
  obtain ⟨cost, hle, hkind, htakes⟩ := readDescriptorValue_takes scan h
  refine ⟨entry.keyCost + cost, ?_, Takes.keyed h Takes.string htakes⟩
  unfold Entry.descriptorCost
  refine Cost.add_le (le_refl _) ?_
  split
  · exact hle
  · rename_i hother
    exact (hkind.resolve_left hother).le

theorem Takes.loopM_le {α β : Type} {step : α → Scanner α} {encode : β → Bytes} {cost : β → Cost}
    {apply : α → β → α} {xs : List β}
    (hstep : ∀ a, ∀ x ∈ xs, ∃ spent ≤ cost x, Takes (step a) (encode x) spent (apply a x)) (a : α) :
    ∃ spent ≤ (xs.map cost).sum,
      Takes (AioLM.loopM step xs.length a) (xs.flatMap encode) spent (xs.foldl apply a) := by
  induction xs generalizing a with
  | nil => exact ⟨0, le_refl _, Takes.pure a⟩
  | cons x xs ih =>
    obtain ⟨first, hfirst, htakes⟩ := hstep a x List.mem_cons_self
    obtain ⟨rest, hrest, hloop⟩ := ih (fun a y hy => hstep a y (List.mem_cons_of_mem _ hy)) (apply a x)
    rw [List.flatMap_cons, List.map_cons, List.sum_cons]
    exact ⟨first + rest, Cost.add_le hfirst hrest, htakes.bind hloop⟩

theorem readDescriptor_encode {header : Header} (h : header.Within Entry.descriptorCost)
    (tail : Bytes) : readDescriptor (header.encode ++ tail) =
      .ok (header.entries.foldl DescriptorScan.apply {}).finish := by
  have hstep (scan : DescriptorScan) (entry : Entry) (hentry : entry ∈ header.entries) :=
    readDescriptorEntry_takes scan (h.entries entry hentry)
  obtain ⟨spent, hspent, hloop⟩ := Takes.loopM_le hstep {}
  have hall := (readHeader_takes header).bind
    (f := readDescriptorEntries) (hloop.map (f := DescriptorScan.finish))
  rw [← Header.encode_eq, zero_add] at hall
  have hrun := hall { rest := header.encode ++ tail } tail rfl
    ⟨by simpa using h.span, by simpa using hspent.1.trans h.strings,
      by simpa using hspent.2.trans h.stringEntries⟩
  rw [readDescriptor, scanFile, hrun]

def Entry.baseModel (entry : Entry) : Option (Nat × Text) := do
  let index ← baseModelIndex entry.key
  let url ← entry.value.asText
  return (index, url)

def baseModelsOf (entries : List Entry) : List (Nat × Text) := entries.filterMap Entry.baseModel

theorem baseModelIndex_placed {key : Text}
    (h : key ∈ descriptorTextKeys ∨ key = fileTypeKey ∨ key = baseModelCountKey) :
    baseModelIndex key = none := by
  have hall : (fileTypeKey :: baseModelCountKey :: descriptorTextKeys).all
      (fun key => (baseModelIndex key).isNone) = true := by decide
  rw [List.all_eq_true] at hall
  refine Option.isNone_iff_eq_none.mp (hall key ?_)
  simp only [List.mem_cons]
  rcases h with htext | htype | hcount
  · exact .inr (.inr htext)
  · exact .inl htype
  · exact .inr (.inl hcount)

namespace DescriptorScan

theorem baseModels_apply (scan : DescriptorScan) (entry : Entry) :
    (scan.apply entry).baseModels =
      if scan.baseModels.length < MAX_BASE_MODELS then
        scan.baseModels ++ entry.baseModel.toList
      else scan.baseModels := by
  by_cases hplaced : entry.key ∈ descriptorTextKeys ∨ entry.key = fileTypeKey ∨
      entry.key = baseModelCountKey
  · have hnone : entry.baseModel = none := by
      rw [Entry.baseModel, baseModelIndex_placed hplaced]
      rfl
    have hsame : (scan.apply entry).baseModels = scan.baseModels := by
      unfold apply
      split
      · rfl
      · rename_i htext
        split
        · rfl
        · rename_i htype
          split
          · rfl
          · rename_i hcount
            exact absurd hplaced (not_or.mpr ⟨htext, not_or.mpr ⟨htype, hcount⟩⟩)
    simp [hsame, hnone]
  · obtain ⟨htext, htype, hcount⟩ : entry.key ∉ descriptorTextKeys ∧ entry.key ≠ fileTypeKey ∧
        entry.key ≠ baseModelCountKey := by
      obtain ⟨htext, hrest⟩ := not_or.mp hplaced
      exact ⟨htext, not_or.mp hrest⟩
    simp only [apply, if_neg htext, if_neg htype, if_neg hcount, Entry.baseModel]
    cases baseModelIndex entry.key with
    | none => simp
    | some index =>
      simp only
      split
      · cases entry.value.asText <;> simp [push]
      · rfl

theorem baseModels_fold (entries : List Entry) {scan : DescriptorScan}
    (h : scan.baseModels.length ≤ MAX_BASE_MODELS) :
    (entries.foldl apply scan).baseModels =
      (scan.baseModels ++ baseModelsOf entries).take MAX_BASE_MODELS := by
  induction entries generalizing scan with
  | nil => simp [baseModelsOf, List.take_of_length_le h]
  | cons entry entries ih =>
    have hstep := scan.baseModels_apply entry
    have hmodels : baseModelsOf (entry :: entries) = entry.baseModel.toList ++ baseModelsOf entries := by
      cases hentry : entry.baseModel <;> simp [baseModelsOf, hentry]
    rw [List.foldl_cons]
    by_cases hroom : scan.baseModels.length < MAX_BASE_MODELS
    · rw [if_pos hroom] at hstep
      have hlength : entry.baseModel.toList.length ≤ 1 := by cases entry.baseModel <;> simp
      rw [ih (by rw [hstep, List.length_append]; omega), hstep, hmodels, List.append_assoc]
    · rw [if_neg hroom] at hstep
      rw [ih (by rw [hstep]; exact h), hstep, List.take_append_of_le_length (by omega),
        List.take_append_of_le_length (by omega)]

theorem declared_apply (scan : DescriptorScan) (entry : Entry) :
    (scan.apply entry).declaredBaseModels =
      if entry.key = baseModelCountKey then entry.value.asUnsigned
      else scan.declaredBaseModels := by
  have hnot : baseModelCountKey ∉ fileTypeKey :: descriptorTextKeys := by decide
  unfold apply
  by_cases hcount : entry.key = baseModelCountKey
  · simp only [List.mem_cons, not_or] at hnot
    rw [hcount, if_neg hnot.2, if_neg hnot.1, if_pos rfl, if_pos rfl]
  · rw [if_neg hcount, if_neg hcount]
    split
    · rfl
    · split
      · rfl
      · split
        · split
          · cases entry.value.asText <;> rfl
          · rfl
        · rfl

end DescriptorScan

def declaredUrls (count : Nat) (entries : List Entry) : List Text :=
  (sortByIndex ((baseModelsOf entries).filter fun model : Nat × Text => model.1 < count)).map Prod.snd

/-- What the reader makes of the entries: only the first ones are looked at. -/
theorem baseModelRepoUrls_fold {entries : List Entry} (hkeys : (entries.map Entry.key).Nodup)
    {count : Nat} (hcount : unsignedAt baseModelCountKey entries = some count) :
    (entries.foldl DescriptorScan.apply {}).finish.baseModelRepoUrls =
      (sortByIndex (((baseModelsOf entries).take MAX_BASE_MODELS).filter
        fun model : Nat × Text => model.1 < count)).map Prod.snd := by
  have hdeclared : (entries.foldl DescriptorScan.apply {}).declaredBaseModels = some count := by
    rw [foldl_valueAt DescriptorScan.declaredBaseModels (fun _ value => value.asUnsigned)
      DescriptorScan.declared_apply hkeys {}, ← hcount, unsignedAt]
    cases valueAt baseModelCountKey entries <;> rfl
  have hempty : ({} : DescriptorScan).baseModels.length ≤ MAX_BASE_MODELS := Nat.zero_le _
  have hmodels := DescriptorScan.baseModels_fold entries hempty
  have hfilter : ((((baseModelsOf entries).take MAX_BASE_MODELS).insertionSort
        fun a b : Nat × Text => a.1 ≤ b.1).filter fun model => decide (model.1 < count)) =
      (((baseModelsOf entries).take MAX_BASE_MODELS).filter fun model =>
        decide (model.1 < count)).insertionSort fun a b => a.1 ≤ b.1 :=
    Lists.filter_insertionSort _ _
  rw [List.nil_append] at hmodels
  rw [DescriptorScan.finish, hdeclared, hmodels]
  simp only [sortByIndex] at hfilter ⊢
  rw [hfilter, List.take_of_length_le]
  rw [List.length_insertionSort]
  exact (List.length_filter_le _ _).trans (List.length_take_le _ _)

def DeclaredWithinCap (count : Nat) (entries : List Entry) : Prop :=
  ∀ before entry after, entries = before ++ entry :: after →
    ∀ model, entry.baseModel = some model → model.1 < count →
      (baseModelsOf before).length < MAX_BASE_MODELS

theorem declaredWithinCap_iff (count : Nat) (entries : List Entry) :
    DeclaredWithinCap count entries ↔
      ((baseModelsOf entries).drop MAX_BASE_MODELS).filter
        (fun model : Nat × Text => model.1 < count) = [] := by
  rw [List.filter_eq_nil_iff]
  constructor
  · intro h model hmodel
    obtain ⟨before, entry, after, hentries, hentry, hcap⟩ := Lists.mem_drop_filterMap_iff.mp hmodel
    simp only [decide_eq_true_eq]
    intro hlt
    have hwithin := h before entry after hentries model hentry hlt
    rw [baseModelsOf] at hwithin
    omega
  · intro h before entry after hentries model hentry hlt
    by_contra hcap
    have hmodel := Lists.mem_drop_filterMap_iff.mpr
      ⟨before, entry, after, hentries, hentry, Nat.le_of_not_lt hcap⟩
    exact h model hmodel (by simpa using hlt)

/-- A header within the limits that states its count: its declared base models are reported, all
of them and in order, exactly when each of them stands before 64 other entries were
collected. -/
theorem base_models_reported_iff (header : Header) (tail : Bytes) {count : Nat}
    (h : header.Within Entry.descriptorCost)
    (hcount : unsignedAt baseModelCountKey header.entries = some count) :
    (readDescriptor (header.encode ++ tail)).map ModelDescriptor.baseModelRepoUrls =
        .ok (declaredUrls count header.entries) ↔ DeclaredWithinCap count header.entries := by
  rw [readDescriptor_encode h tail, declaredWithinCap_iff]
  simp only [Except.map, Except.ok.injEq, baseModelRepoUrls_fold header.distinct hcount, declaredUrls]
  have hsplit := congrArg (List.filter fun model : Nat × Text => model.1 < count)
    (List.take_append_drop MAX_BASE_MODELS (baseModelsOf header.entries)).symm
  rw [List.filter_append] at hsplit
  constructor
  · intro hsame
    have hlength := congrArg List.length hsame
    simp only [List.length_map, sortByIndex, List.length_insertionSort] at hlength
    rw [hsplit, List.length_append] at hlength
    exact List.length_eq_zero_iff.mp (by omega)
  · intro hnil
    rw [hsplit, hnil, List.append_nil]

def baseModelEntry (index : Nat) (url : String) : Entry :=
  ⟨baseModelPrefix ++ Nat.toDigits 10 index ++ baseModelSuffix, .text (TextBytes.ascii url)⟩

/-- One declared base model behind stale ones. -/
def staleEntries (stale : Nat) : List Entry :=
  ⟨baseModelCountKey, numbered 1⟩ ::
    (List.range stale).map (fun i => baseModelEntry (i + 1) "s") ++ [baseModelEntry 0 "b"]

theorem baseModelKey_injective :
    Function.Injective fun index => baseModelPrefix ++ Nat.toDigits 10 index ++ baseModelSuffix := by
  intro i j h
  have hdigits := List.append_cancel_left (List.append_cancel_right h)
  rw [← Nat.ofDigitChars_ten_toDigits (n := i), hdigits, Nat.ofDigitChars_ten_toDigits]

theorem staleEntries_distinct (stale : Nat) : ((staleEntries stale).map Entry.key).Nodup := by
  have hkeys : (staleEntries stale).map Entry.key = baseModelCountKey ::
      ((List.range stale).map (· + 1) ++ [0]).map
        fun index => baseModelPrefix ++ Nat.toDigits 10 index ++ baseModelSuffix := by
    simp [staleEntries, baseModelEntry, Function.comp_def]
  rw [hkeys, List.nodup_cons]
  constructor
  · intro hmem
    obtain ⟨index, -, hindex⟩ := List.mem_map.mp hmem
    have hlast := congrArg List.getLast? hindex
    rw [List.getLast?_append_of_ne_nil _ (by decide)] at hlast
    exact absurd hlast (by decide)
  · refine List.Nodup.map baseModelKey_injective ?_
    rw [List.nodup_append]
    refine ⟨List.nodup_range.map (Nat.succ_injective), List.nodup_singleton 0, ?_⟩
    intro index hindex other hother
    obtain ⟨i, -, rfl⟩ := List.mem_map.mp hindex
    rw [List.mem_singleton.mp hother]
    exact Nat.succ_ne_zero i

def fewStale : Header where
  version := 3
  tensors := 0
  entries := staleEntries 2
  version_ok := latest_version
  tensors_ok := Nat.zero_le MAX_TENSORS
  keys_ok := by decide
  distinct := staleEntries_distinct 2

theorem base_models_reported_few :
    (readDescriptor (fewStale.encode ++ [])).map ModelDescriptor.baseModelRepoUrls =
      .ok ["b".toList] := by
  have hcount : unsignedAt baseModelCountKey fewStale.entries = some 1 := by decide +kernel
  have hurls : declaredUrls 1 fewStale.entries = ["b".toList] := by decide +kernel
  rw [← hurls]
  refine (base_models_reported_iff fewStale [] (by decide +kernel) hcount).mpr ?_
  rw [declaredWithinCap_iff]
  decide +kernel

def manyStale : Header where
  version := 3
  tensors := 0
  entries := staleEntries 64
  version_ok := latest_version
  tensors_ok := Nat.zero_le MAX_TENSORS
  keys_ok := by decide
  distinct := staleEntries_distinct 64

/-- The count is one and the base model with index 0 is there, behind 64 stale ones. -/
theorem stale_hide_declared :
    manyStale.Within Entry.descriptorCost ∧
      unsignedAt baseModelCountKey manyStale.entries = some 1 ∧
      declaredUrls 1 manyStale.entries = ["b".toList] ∧
      (readDescriptor (manyStale.encode ++ [])).map ModelDescriptor.baseModelRepoUrls = .ok [] := by
  have hwithin : manyStale.Within Entry.descriptorCost := by decide +kernel
  have hcount : unsignedAt baseModelCountKey manyStale.entries = some 1 := by decide +kernel
  refine ⟨hwithin, hcount, by decide +kernel, ?_⟩
  rw [readDescriptor_encode hwithin, Except.map, baseModelRepoUrls_fold manyStale.distinct hcount]
  have hnone : ((baseModelsOf manyStale.entries).take MAX_BASE_MODELS).filter
      (fun model : Nat × Text => model.1 < 1) = [] := by
    decide +kernel
  rw [hnone]
  rfl

end AioLM.Gguf
