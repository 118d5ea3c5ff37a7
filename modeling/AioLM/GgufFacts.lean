import AioLM.Fallible
import AioLM.GgufOrder

/-!
The facts of a header in any order of its keys. The scan files a key under what
stands before its first dot, so an architecture with a dot in its name finds
nothing of its own.
-/

set_option autoImplicit false

namespace AioLM.Gguf

variable {α : Type}

theorem splitKey_append {before : Text} (h : '.' ∉ before) (rest : Text) :
    splitKey (before ++ '.' :: rest) = (before, rest) := by
  rw [splitKey, Text.splitOnce_append h]
  rfl

theorem dot_not_mem_splitKey (key : Text) : '.' ∉ (splitKey key).1 := by
  by_cases hdot : '.' ∈ key
  · obtain ⟨before, after, rfl, hbefore⟩ := List.eq_append_cons_of_mem hdot
    rw [splitKey_append hbefore]
    exact hbefore
  · rw [splitKey, Text.splitOnce_eq_none hdot]
    exact hdot

/-- A name with a dot ends before its end in every key that begins with it. -/
theorem splitKey_dotted {architecture : Text} (h : '.' ∈ architecture) (suffix : Text) :
    ∃ more, (splitKey (architecture ++ '.' :: suffix)).2 = more ++ '.' :: suffix := by
  obtain ⟨before, after, rfl, hbefore⟩ := List.eq_append_cons_of_mem h
  rw [List.append_assoc, List.cons_append, splitKey_append hbefore]
  exact ⟨after, rfl⟩

theorem append_not_factSuffix {suffix : Text} (h : suffix ∈ factSuffixes) (more : Text) :
    more ++ '.' :: suffix ∉ factSuffixes := by
  have hnone : ∀ other ∈ factSuffixes, ∀ suffix ∈ factSuffixes, ¬ '.' :: suffix <:+ other := by
    rw [@Text.Spelled.eq factSuffixes _ (by repeat constructor)]
    decide +kernel
  exact fun hmem => hnone _ hmem suffix h (List.suffix_append _ _)

def marksRecurrent (key : Text) : Bool := startsWithAny RECURRENT_KEYS (splitKey key).2

theorem placed_not_fact {key : Text} (h : key ∈ [architectureName, alignmentKey, splitCountKey]) :
    (splitKey key).2 ∉ factSuffixes ∧ marksRecurrent key = false := by
  have hall : ∀ key ∈ [architectureName, alignmentKey, splitCountKey],
      (splitKey key).2 ∉ factSuffixes ∧ marksRecurrent key = false := by
    rw [@Text.Spelled.eq factSuffixes _ (by repeat constructor)]
    decide +kernel
  exact hall key h

def FactScan.apply (scan : FactScan) (entry : Entry) : FactScan :=
  if entry.key = architectureName ∧ entry.value.asText.isSome then
    { scan with architecture := entry.value.asText }
  else if entry.key = alignmentKey then
    { scan with alignment := entry.value.asInteger.getD scan.alignment }
  else if entry.key = splitCountKey then { scan with splitCount := entry.value.asInteger }
  else if (splitKey entry.key).2 ∈ factSuffixes then
    (scan.notePrefix entry.key).insertValue entry.key entry.value.asRaw
  else scan.notePrefix entry.key

theorem readFact_takes (scan : FactScan) {entry : Entry} (h : entry.Bounded) :
    Takes (readFact scan) entry.encode entry.factCost (scan.apply entry) := by
  refine Takes.keyed h Takes.stringWithBudget ?_
  have hvalue := h.value
  unfold readFactValue FactScan.apply
  by_cases hname : entry.key = architectureName ∧ entry.value.asText.isSome
  · rw [if_pos ⟨hname.1, entry.value.code_eq_iff.mpr hname.2⟩, if_pos hname.1, if_pos hname]
    cases hentry : entry.value with
    | text bytes => exact (Takes.string bytes).map
    | _ =>
      rw [hentry] at hname
      cases hname.2
  have hcost : (if entry.key = architectureName then entry.value.textCost
      else entry.value.skipCost) = entry.value.skipCost := by
    split
    · rename_i hkey
      cases hentry : entry.value with
      | text bytes => exact absurd ⟨hkey, by rw [hentry]; rfl⟩ hname
      | _ => rfl
    · rfl
  rw [hcost, if_neg (fun hcond => hname ⟨hcond.1, entry.value.code_eq_iff.mp hcond.2⟩),
    if_neg hname]
  by_cases halignment : entry.key = alignmentKey
  · rw [if_pos halignment, if_pos halignment]
    exact (Takes.readIntegerWithBudget hvalue).map
  rw [if_neg halignment, if_neg halignment]
  by_cases hsplit : entry.key = splitCountKey
  · rw [if_pos hsplit, if_pos hsplit]
    exact (Takes.readIntegerWithBudget hvalue).map
  rw [if_neg hsplit, if_neg hsplit]
  by_cases hfact : (splitKey entry.key).2 ∈ factSuffixes
  · rw [if_pos hfact, if_pos hfact]
    exact (Takes.readRawWithBudget hvalue).map
  · rw [if_neg hfact, if_neg hfact]
    exact (Takes.skipValueWithBudget hvalue).map

namespace FactScan

theorem notePrefix_same (key : Text) (scan : FactScan) :
    (scan.notePrefix key).architecture = scan.architecture ∧
      (scan.notePrefix key).alignment = scan.alignment ∧
      (scan.notePrefix key).splitCount = scan.splitCount ∧
      (scan.notePrefix key).values = scan.values := by
  unfold notePrefix
  split <;> exact ⟨rfl, rfl, rfl, rfl⟩

theorem insertValue_same (key : Text) (value : Option RawValue) (scan : FactScan) :
    (scan.insertValue key value).architecture = scan.architecture ∧
      (scan.insertValue key value).alignment = scan.alignment ∧
      (scan.insertValue key value).splitCount = scan.splitCount ∧
      (scan.insertValue key value).recurrentPrefixes = scan.recurrentPrefixes := by
  cases value <;> exact ⟨rfl, rfl, rfl, rfl⟩

theorem architecture_apply (scan : FactScan) (entry : Entry) :
    (scan.apply entry).architecture =
      if entry.key = architectureName then entry.value.asText.or scan.architecture
      else scan.architecture := by
  unfold apply
  by_cases hname : entry.key = architectureName ∧ entry.value.asText.isSome
  · obtain ⟨text, htext⟩ := Option.isSome_iff_exists.mp hname.2
    rw [if_pos hname, if_pos hname.1, htext]
    rfl
  · have hnone : (if entry.key = architectureName then entry.value.asText.or scan.architecture
        else scan.architecture) = scan.architecture := by
      split
      · rename_i hkey
        have htext : entry.value.asText = none := by
          simpa using fun hsome => hname ⟨hkey, hsome⟩
        rw [htext, Option.none_or]
      · rfl
    rw [hnone, if_neg hname]
    repeat' split
    all_goals first
      | rfl
      | rw [(insertValue_same _ _ _).1, (notePrefix_same _ _).1]
      | rw [(notePrefix_same _ _).1]

theorem alignment_apply (scan : FactScan) (entry : Entry) :
    (scan.apply entry).alignment =
      if entry.key = alignmentKey then entry.value.asInteger.getD scan.alignment
      else scan.alignment := by
  unfold apply
  by_cases hkey : entry.key = alignmentKey
  · rw [hkey, if_neg (fun h => absurd h.1 (by decide)), if_pos rfl, if_pos rfl]
  · rw [if_neg hkey, if_neg hkey]
    repeat' split
    all_goals first
      | rfl
      | rw [(insertValue_same _ _ _).2.1, (notePrefix_same _ _).2.1]
      | rw [(notePrefix_same _ _).2.1]

theorem splitCount_apply (scan : FactScan) (entry : Entry) :
    (scan.apply entry).splitCount =
      if entry.key = splitCountKey then entry.value.asInteger else scan.splitCount := by
  unfold apply
  by_cases hkey : entry.key = splitCountKey
  · rw [hkey, if_neg (fun h => absurd h.1 (by decide)), if_neg (by decide), if_pos rfl, if_pos rfl]
  · rw [if_neg hkey, if_neg hkey]
    repeat' split
    all_goals first
      | rfl
      | rw [(insertValue_same _ _ _).2.2.1, (notePrefix_same _ _).2.2.1]
      | rw [(notePrefix_same _ _).2.2.1]

theorem apply_placed {entry : Entry}
    (h : entry.key ∈ [architectureName, alignmentKey, splitCountKey]) (scan : FactScan) :
    (scan.apply entry).values = scan.values ∧
      (scan.apply entry).recurrentPrefixes = scan.recurrentPrefixes := by
  obtain ⟨hfact, hmarks⟩ := placed_not_fact h
  have hnote : scan.notePrefix entry.key = scan := if_neg (by simpa [marksRecurrent] using hmarks)
  unfold apply
  rw [if_neg hfact, hnote]
  repeat' split
  all_goals exact ⟨rfl, rfl⟩

theorem apply_other {entry : Entry}
    (h : entry.key ∉ [architectureName, alignmentKey, splitCountKey]) (scan : FactScan) :
    scan.apply entry =
      if (splitKey entry.key).2 ∈ factSuffixes then
        (scan.notePrefix entry.key).insertValue entry.key entry.value.asRaw
      else scan.notePrefix entry.key := by
  simp only [List.mem_cons, List.not_mem_nil, or_false, not_or] at h
  rw [apply, if_neg (fun hname => h.1 hname.1), if_neg h.2.1, if_neg h.2.2]

theorem values_apply (k : Text) (scan : FactScan) (entry : Entry) :
    (scan.apply entry).values.get k =
      if entry.key = k then
        (if (splitKey k).2 ∈ factSuffixes then entry.value.asRaw else none).or (scan.values.get k)
      else scan.values.get k := by
  by_cases hplaced : entry.key ∈ [architectureName, alignmentKey, splitCountKey]
  · rw [(apply_placed hplaced scan).1]
    split
    · rename_i hkey
      rw [if_neg (hkey ▸ (placed_not_fact hplaced).1), Option.none_or]
    · rfl
  · rw [apply_other hplaced]
    by_cases hkey : entry.key = k
    · rw [hkey, if_pos rfl]
      split
      · unfold insertValue
        split
        · rename_i value hraw
          rw [KeyMap.get_insert, if_pos rfl, hraw]
          rfl
        · rename_i hraw
          rw [hraw, Option.none_or, (notePrefix_same _ _).2.2.2]
      · rw [Option.none_or, (notePrefix_same _ _).2.2.2]
    · rw [if_neg hkey]
      split
      · unfold insertValue
        split
        · rw [KeyMap.get_insert, if_neg (Ne.symm hkey), (notePrefix_same _ _).2.2.2]
        · rw [(notePrefix_same _ _).2.2.2]
      · rw [(notePrefix_same _ _).2.2.2]

theorem recurrentPrefixes_apply (scan : FactScan) (entry : Entry) :
    (scan.apply entry).recurrentPrefixes =
      if marksRecurrent entry.key then (splitKey entry.key).1 :: scan.recurrentPrefixes
      else scan.recurrentPrefixes := by
  by_cases hplaced : entry.key ∈ [architectureName, alignmentKey, splitCountKey]
  · rw [(apply_placed hplaced scan).2, (placed_not_fact hplaced).2]
    rfl
  · have hnote : (scan.notePrefix entry.key).recurrentPrefixes =
        if marksRecurrent entry.key then (splitKey entry.key).1 :: scan.recurrentPrefixes
        else scan.recurrentPrefixes := by
      unfold notePrefix marksRecurrent
      split <;> rfl
    rw [apply_other hplaced, ← hnote]
    split
    · rw [(insertValue_same _ _ _).2.2.2]
    · rfl

end FactScan

section

variable {entries : List Entry} (hkeys : (entries.map Entry.key).Nodup)
include hkeys

theorem architecture_fold :
    (entries.foldl FactScan.apply {}).architecture = textAt architectureName entries := by
  rw [foldl_valueAt FactScan.architecture (fun old value => value.asText.or old)
    FactScan.architecture_apply hkeys {}, textAt]
  cases valueAt architectureName entries with
  | none => rfl
  | some value => exact Option.or_none

theorem alignment_fold :
    (entries.foldl FactScan.apply {}).alignment = alignmentOf entries := by
  rw [foldl_valueAt FactScan.alignment (fun old value => value.asInteger.getD old)
    FactScan.alignment_apply hkeys {}, alignmentOf, integerAt]
  cases valueAt alignmentKey entries <;> rfl

theorem splitCount_fold :
    (entries.foldl FactScan.apply {}).splitCount = integerAt splitCountKey entries := by
  rw [foldl_valueAt FactScan.splitCount (fun _ value => value.asInteger)
    FactScan.splitCount_apply hkeys {}, integerAt]
  cases valueAt splitCountKey entries <;> rfl

theorem values_fold (k : Text) : (entries.foldl FactScan.apply {}).values.get k =
    if (splitKey k).2 ∈ factSuffixes then rawAt k entries else none := by
  rw [foldl_valueAt (fun scan : FactScan => scan.values.get k)
    (fun old value => (if (splitKey k).2 ∈ factSuffixes then value.asRaw else none).or old)
    (FactScan.values_apply k) hkeys {}, rawAt]
  cases valueAt k entries with
  | none => exact (ite_self none).symm
  | some value => exact Option.or_none

end

theorem mem_recurrentPrefixes_fold (entries : List Entry) (scan : FactScan) (name : Text) :
    name ∈ (entries.foldl FactScan.apply scan).recurrentPrefixes ↔
      name ∈ scan.recurrentPrefixes ∨
        ∃ entry ∈ entries, marksRecurrent entry.key = true ∧ (splitKey entry.key).1 = name := by
  induction entries generalizing scan with
  | nil => simp
  | cons entry entries ih =>
    rw [List.foldl_cons, ih, FactScan.recurrentPrefixes_apply]
    cases hmarks : marksRecurrent entry.key with
    | false => simp [hmarks]
    | true =>
      simp only [if_true, List.mem_cons, exists_eq_or_imp, hmarks, true_and]
      rw [or_assoc, or_left_comm, eq_comm]

theorem architectureFacts_congr {value value' : String → Option RawValue}
    (h : ∀ suffix ∈ FACT_SUFFIXES, value suffix = value' suffix) (facts : ModelFacts) :
    architectureFacts value facts = architectureFacts value' facts := by
  simp only [FACT_SUFFIXES, List.forall_mem_cons] at h
  simp only [architectureFacts, h]

/-- Keys whose value is one number. -/
def INT_SUFFIXES : List String :=
  ["block_count", "nextn_predict_layers", "context_length", "embedding_length", "vocab_size",
    "expert_shared_feed_forward_length", "attention.key_length", "attention.value_length",
    "attention.sliding_window", "attention.kv_lora_rank", "full_attention_interval",
    "ssm.conv_kernel", "ssm.inner_size", "ssm.state_size", "ssm.group_count",
    "attention.indexer.key_length", "hyper_connection.count", "ple.conv_kernel",
    "ple.ngram_size"]

def PER_LAYER_SUFFIXES : List String :=
  ["feed_forward_length", "expert_feed_forward_length", "expert_used_count",
    "attention.head_count", "attention.head_count_kv", "attention.recurrent_layers"]

/-- No entry under the name states a fact of the type its key has. -/
structure Mute (architecture : Text) (entries : List Entry) : Prop where
  ints : ∀ suffix ∈ INT_SUFFIXES,
    (rawAt (architectureKey architecture suffix) entries).bind RawValue.asInt = none
  perLayer : ∀ suffix ∈ PER_LAYER_SUFFIXES,
    rawAt (architectureKey architecture suffix) entries = none
  pleLayers : ((rawAt (architectureKey architecture "ple.layers") entries).bind
    RawValue.asInts).getD [] = []
  recurrent : recurrentUnder architecture entries = false

theorem architectureFacts_none_iff (value : String → Option RawValue) (facts : ModelFacts)
    (recurrent : Bool) :
    architectureFacts (fun _ => none) { facts with recurrentState := false } =
        architectureFacts value { facts with recurrentState := recurrent } ↔
      (∀ suffix ∈ INT_SUFFIXES, (value suffix).bind RawValue.asInt = none) ∧
        (∀ suffix ∈ PER_LAYER_SUFFIXES, value suffix = none) ∧
        ((value "ple.layers").bind RawValue.asInts).getD [] = [] ∧ recurrent = false := by
  simp only [architectureFacts, INT_SUFFIXES, PER_LAYER_SUFFIXES, List.forall_mem_cons,
    List.not_mem_nil, IsEmpty.forall_iff, implies_true, and_true, ModelFacts.mk.injEq, Option.map_none, Option.bind_none, Option.getD_none,
    @eq_comm _ none, @eq_comm _ [], @eq_comm _ false, Option.map_eq_none_iff]
  constructor <;> intro h <;> simp only [h, and_self]

theorem recurrentUnder_eq {architecture : Text} (h : '.' ∉ architecture) (entries : List Entry) :
    recurrentUnder architecture entries = true ↔
      ∃ entry ∈ entries, marksRecurrent entry.key = true ∧ (splitKey entry.key).1 = architecture := by
  simp only [recurrentUnder, List.any_eq_true, List.isPrefixOf_iff_prefix]
  constructor
  · intro ⟨entry, hentry, marker, hmarker, rest, hkey⟩
    refine ⟨entry, hentry, ?_⟩
    rw [architectureKey, List.append_assoc, List.cons_append] at hkey
    rw [← hkey, marksRecurrent, splitKey_append h, startsWithAny, List.any_eq_true]
    exact ⟨⟨marker, hmarker, List.isPrefixOf_iff_prefix.mpr (List.prefix_append _ _)⟩, rfl⟩
  · intro ⟨entry, hentry, hmarks, hname⟩
    rw [marksRecurrent, startsWithAny, List.any_eq_true] at hmarks
    obtain ⟨marker, hmarker, hstarts⟩ := hmarks
    obtain ⟨rest, hrest⟩ := List.isPrefixOf_iff_prefix.mp hstarts
    refine ⟨entry, hentry, marker, hmarker, rest, ?_⟩
    have hdot : '.' ∈ entry.key := by
      by_contra hdot
      rw [splitKey, Text.splitOnce_eq_none hdot, Option.getD_none] at hrest
      have hnonempty : ∀ marker ∈ RECURRENT_KEYS, marker.toList ≠ [] := by decide
      exact hnonempty marker hmarker (List.append_eq_nil_iff.mp hrest).1
    obtain ⟨before, after, hkey, hbefore⟩ := List.eq_append_cons_of_mem hdot
    rw [hkey, splitKey_append hbefore] at hname hrest
    rw [architectureKey, List.append_assoc, List.cons_append, hrest, ← hname, hkey]

def baseFacts (entries : List Entry) (tensors : Option TensorBytes) : ModelFacts :=
  { architecture := textAt architectureName entries
    splitCount := integerAt splitCountKey entries
    tensors }

theorem facts_fold {entries : List Entry} (hkeys : (entries.map Entry.key).Nodup)
    (tensors : Option TensorBytes) :
    (entries.foldl FactScan.apply {}).finish tensors =
      match textAt architectureName entries with
      | none => baseFacts entries tensors
      | some architecture =>
        if '.' ∈ architecture then
          architectureFacts (fun _ => none)
            { baseFacts entries tensors with recurrentState := false }
        else factsOf entries tensors := by
  rw [FactScan.finish, architecture_fold hkeys, splitCount_fold hkeys]
  cases hname : textAt architectureName entries with
  | none =>
    rw [baseFacts, hname]
  | some architecture =>
    have hmem := mem_recurrentPrefixes_fold entries {} architecture
    simp only [List.not_mem_nil, false_or] at hmem
    simp only
    split
    · rename_i hdot
      have hnone : architecture ∉ (entries.foldl FactScan.apply {}).recurrentPrefixes := by
        rw [hmem]
        rintro ⟨entry, _, _, hleads⟩
        exact dot_not_mem_splitKey entry.key (hleads ▸ hdot)
      rw [baseFacts, hname, decide_eq_false hnone]
      refine architectureFacts_congr (fun suffix hsuffix => ?_) _
      obtain ⟨more, hmore⟩ := splitKey_dotted hdot suffix.toList
      rw [values_fold hkeys, architectureKey, if_neg]
      rw [hmore]
      exact append_not_factSuffix (List.mem_map_of_mem hsuffix) more
    · rename_i hdot
      have hrecurrent : decide (architecture ∈ (entries.foldl FactScan.apply {}).recurrentPrefixes) =
          recurrentUnder architecture entries := by
        rw [Bool.eq_iff_iff, decide_eq_true_eq, hmem, recurrentUnder_eq hdot]
      rw [factsOf, hname, hrecurrent]
      refine architectureFacts_congr (fun suffix hsuffix => ?_) _
      have hfact : suffix.toList ∈ factSuffixes := List.mem_map_of_mem hsuffix
      rw [values_fold hkeys, architectureKey, splitKey_append hdot]
      exact if_pos hfact

theorem facts_fold_iff {entries : List Entry} (hkeys : (entries.map Entry.key).Nodup)
    (tensors : Option TensorBytes) :
    (entries.foldl FactScan.apply {}).finish tensors = factsOf entries tensors ↔
      ∀ architecture, textAt architectureName entries = some architecture → '.' ∈ architecture →
        Mute architecture entries := by
  rw [facts_fold hkeys]
  cases hname : textAt architectureName entries with
  | none =>
    rw [factsOf, hname, baseFacts, hname]
    exact ⟨fun _ _ h => (nomatch h), fun _ => rfl⟩
  | some architecture =>
    by_cases hdot : '.' ∈ architecture
    · simp only [if_pos hdot]
      rw [factsOf, hname, baseFacts, hname, architectureFacts_none_iff]
      constructor
      · intro ⟨hints, hlayers, hple, hrecurrent⟩ name heq _
        cases heq
        exact ⟨hints, hlayers, hple, hrecurrent⟩
      · intro h
        obtain ⟨hints, hlayers, hple, hrecurrent⟩ := h architecture rfl hdot
        exact ⟨hints, hlayers, hple, hrecurrent⟩
    · simp only [if_neg hdot, true_iff]
      intro name heq hname
      cases heq
      exact absurd hname hdot

section

variable {entries entries' : List Entry} (hperm : entries'.Perm entries)
  (hkeys : (entries.map Entry.key).Nodup)
include hperm hkeys

theorem valueAt_perm (k : Text) : valueAt k entries' = valueAt k entries := by
  rw [valueAt, valueAt, Lists.find_key_perm hperm hkeys]

theorem metadataOf_perm : metadataOf entries' = metadataOf entries := by
  simp only [metadataOf, textAt, unsignedAt, textsAt, valueAt_perm hperm hkeys]

theorem alignmentOf_perm : alignmentOf entries' = alignmentOf entries := by
  rw [alignmentOf, alignmentOf, integerAt, integerAt, valueAt_perm hperm hkeys]

omit hkeys in
theorem recurrentUnder_perm (architecture : Text) :
    recurrentUnder architecture entries' = recurrentUnder architecture entries :=
  hperm.any_eq

theorem factsOf_perm (tensors : Option TensorBytes) :
    factsOf entries' tensors = factsOf entries tensors := by
  simp only [factsOf, textAt, integerAt, rawAt, valueAt_perm hperm hkeys,
    recurrentUnder_perm hperm]

theorem facts_fold_perm (tensors : Option TensorBytes) :
    (entries'.foldl FactScan.apply {}).finish tensors =
      (entries.foldl FactScan.apply {}).finish tensors := by
  have hkeys' : (entries'.map Entry.key).Nodup := (hperm.map Entry.key).nodup_iff.mpr hkeys
  rw [facts_fold hkeys', facts_fold hkeys, factsOf_perm hperm hkeys]
  simp only [baseFacts, textAt, integerAt, valueAt_perm hperm hkeys]

end

theorem Header.length_reorder (header : Header) {entries : List Entry}
    (h : entries.Perm header.entries) :
    (header.reorder entries h).encode.length = header.encode.length := by
  have hentries := (h.flatMap_right Entry.encode).length_eq
  simp only [Header.encode, reorder, List.length_append, length_leBytes, hentries]

theorem Header.cost_reorder {entries entries' : List Entry} (h : entries'.Perm entries)
    (cost : Entry → Cost) : (entries'.map cost).sum = (entries.map cost).sum :=
  (h.map cost).sum_eq

theorem Header.Within.reorder {header : Header} {cost : Entry → Cost} (hwithin : header.Within cost)
    {entries : List Entry} (h : entries.Perm header.entries) :
    (header.reorder entries h).Within cost where
  entries entry hentry := hwithin.entries entry (h.mem_iff.mp hentry)
  span := by rw [header.length_reorder h]; exact hwithin.span
  strings := by
    change (entries.map cost).sum.1 ≤ _
    rw [Header.cost_reorder h]
    exact hwithin.strings
  stringEntries := by
    change (entries.map cost).sum.2 ≤ _
    rw [Header.cost_reorder h]
    exact hwithin.stringEntries

def Header.endReader (header : Header) (tail : Bytes) : Reader :=
  ⟨tail, header.encode.length, (header.entries.map Entry.factCost).sum.1,
    (header.entries.map Entry.factCost).sum.2⟩

def Header.tableScan (header : Header) (tail : Bytes) : Except Text (TensorScan × Scan) :=
  readTensorBytes header.tensors (alignmentOf header.entries)
    (header.encode.length + tail.length) false { reader := header.endReader tail }

def restAfter (x : Scanner α) (file : Bytes) : Option Bytes :=
  match x { reader := { rest := file } } with
  | .ok (_, s) => some s.reader.rest
  | .error _ => none

def ValidAlignment (alignment : Nat) : Prop := alignment ≠ 0 ∧ isPowerOfTwo alignment = true

instance (alignment : Nat) : Decidable (ValidAlignment alignment) :=
  inferInstanceAs (Decidable (_ ∧ _))

theorem readFacts_encode {header : Header} (h : header.Within Entry.factCost)
    (halignment : ValidAlignment (alignmentOf header.entries)) (tail : Bytes) :
    readFacts { reader := { rest := header.encode ++ tail } } =
      .ok ((header.tensors, header.entries.foldl FactScan.apply {}),
        { reader := header.endReader tail }) := by
  have hstep (scan : FactScan) (entry : Entry) (hentry : entry ∈ header.entries) :
      Takes (readFact scan) entry.encode entry.factCost (scan.apply entry) :=
    readFact_takes scan (h.entries entry hentry)
  have hread : Takes (readFactEntries (header.tensors, header.entries.length))
      (header.entries.flatMap Entry.encode) (header.entries.map Entry.factCost).sum
      (header.tensors, header.entries.foldl FactScan.apply {}) := by
    have hvalid : ¬ ((header.entries.foldl FactScan.apply {}).alignment = 0 ∨
        !isPowerOfTwo (header.entries.foldl FactScan.apply {}).alignment) := by
      rw [alignment_fold header.distinct, halignment.2]
      exact not_or.mpr ⟨halignment.1, by decide⟩
    unfold readFactEntries
    simp only
    rw [if_neg (Nat.not_lt.mpr header.tensors_ok), ← List.append_nil (header.entries.flatMap _),
      ← add_zero (header.entries.map Entry.factCost).sum]
    refine Takes.bind (Takes.loopM hstep {}) ?_
    rw [if_neg hvalid]
    exact Takes.pure _
  exact Header.scan_takes h hread tail

/-- Whatever the order of the entries, both readers stop behind the last one, and
each returns what the entries state. -/
def Header.ReadRight (header : Header) (tail : Bytes) (tensors : Option TensorBytes) : Prop :=
  ∀ entries (h : entries.Perm header.entries),
    let file := (header.reorder entries h).encode ++ tail
    readMetadata file = .ok (metadataOf header.entries) ∧
      restAfter (readHeader >>= readMetadataEntries) file = some tail ∧
      (scanModel file false).map ModelScan.facts = .ok (factsOf header.entries tensors) ∧
      restAfter readFacts file = some tail

theorem restAfter_metadata {header : Header} (h : header.Within Entry.metadataCost)
    (tail : Bytes) :
    restAfter (readHeader >>= readMetadataEntries) (header.encode ++ tail) = some tail := by
  have hstep (scan : MetadataScan) (entry : Entry) (hentry : entry ∈ header.entries) :
      Takes (readMetadataEntry scan) entry.encode entry.metadataCost (scan.apply entry) :=
    readMetadataEntry_takes scan (h.entries entry hentry)
  have hloop := (Takes.loopM hstep {}).map (f := MetadataScan.finish)
  rw [restAfter, Header.scan_takes h hloop tail]

theorem scanModel_encode {header : Header} (h : header.Within Entry.factCost)
    (halignment : ValidAlignment (alignmentOf header.entries)) {tail : Bytes} {table : TensorScan}
    {s : Scan} (htable : header.tableScan tail = .ok (table, s)) :
    (scanModel (header.encode ++ tail) false).map ModelScan.facts =
      .ok ((header.entries.foldl FactScan.apply {}).finish table.bytes) := by
  have hrun := readFacts_encode h halignment tail
  have hscan : (readFacts >>= scanTensors (header.encode ++ tail).length false)
      (startScan (header.encode ++ tail) false) =
        .ok (⟨(header.entries.foldl FactScan.apply {}).finish table.bytes, table.tensorTypes⟩,
          s) := by
    have hstart : startScan (header.encode ++ tail) false =
        { reader := { rest := header.encode ++ tail } } := rfl
    rw [hstart, run_bind_ok hrun]
    unfold scanTensors
    simp only
    rw [alignment_fold header.distinct, List.length_append, run_bind_ok htable]
    rfl
  rw [scanModel, hscan]
  rfl

theorem Header.tableScan_reorder (header : Header) {entries : List Entry}
    (h : entries.Perm header.entries) (tail : Bytes) :
    (header.reorder entries h).tableScan tail = header.tableScan tail := by
  have hcost : (entries.map Entry.factCost).sum = (header.entries.map Entry.factCost).sum :=
    Header.cost_reorder h Entry.factCost
  have halignment : alignmentOf entries = alignmentOf header.entries :=
    alignmentOf_perm h header.distinct
  unfold tableScan endReader
  rw [header.length_reorder h]
  change readTensorBytes header.tensors (alignmentOf entries) _ false
    { reader := ⟨tail, _, (entries.map Entry.factCost).sum.1,
      (entries.map Entry.factCost).sum.2⟩ } = _
  rw [hcost, halignment]

/-- A well-formed header within the limits, before a readable tensor table, is read
right in every order of its entries exactly when its architecture has no dot in
its name, or states nothing under it. -/
theorem header_readRight_iff (header : Header) (tail : Bytes) (table : TensorScan) (s : Scan)
    (hmetadata : header.Within Entry.metadataCost) (hfacts : header.Within Entry.factCost)
    (halignment : ValidAlignment (alignmentOf header.entries))
    (htable : header.tableScan tail = .ok (table, s)) :
    header.ReadRight tail table.bytes ↔
      ∀ architecture, textAt architectureName header.entries = some architecture →
        '.' ∈ architecture → Mute architecture header.entries := by
  rw [← facts_fold_iff header.distinct table.bytes]
  constructor
  · intro h
    obtain ⟨-, -, hscan, -⟩ := h header.entries (.refl _)
    have hrun := scanModel_encode hfacts halignment htable
    have hsame : header.reorder header.entries (.refl _) = header := rfl
    rw [hsame, hrun] at hscan
    exact Except.ok.inj hscan
  · intro hfold entries hperm
    have hmetadata' := hmetadata.reorder hperm
    have hfacts' := hfacts.reorder hperm
    have halignment' : ValidAlignment (alignmentOf (header.reorder entries hperm).entries) :=
      (alignmentOf_perm hperm header.distinct).symm ▸ halignment
    have htable' := (header.tableScan_reorder hperm tail).trans htable
    refine ⟨?_, restAfter_metadata hmetadata' tail, ?_, ?_⟩
    · rw [readMetadata_encode hmetadata' tail]
      exact congrArg Except.ok (metadataOf_perm hperm header.distinct)
    · rw [scanModel_encode hfacts' halignment' htable', ← hfold]
      exact congrArg Except.ok (facts_fold_perm hperm header.distinct table.bytes)
    · rw [restAfter, readFacts_encode hfacts' halignment' tail]
      rfl

def numbered (n : Nat) : Value := .scalar .u32 ⟨leBytes 4 n, length_leBytes 4 n⟩

/-- Two keys, the second under the architecture the first names. -/
def namedEntries (name : String) : List Entry :=
  [⟨architectureName, .text (TextBytes.ascii name)⟩,
    ⟨architectureKey name.toList "block_count", numbered 3⟩]

theorem latest_version : 2 ≤ 3 ∧ 3 ≤ 3 := by decide

def llamaHeader : Header where
  version := 3
  tensors := 0
  entries := namedEntries "llama"
  version_ok := latest_version
  tensors_ok := Nat.zero_le MAX_TENSORS
  keys_ok := by decide
  distinct := by decide

theorem header_readRight_llama : ∃ table s, llamaHeader.tableScan [] = .ok (table, s) ∧
    llamaHeader.ReadRight [] table.bytes := by
  obtain ⟨⟨table, s⟩, htable⟩ := Fallible.exists_of_isOk
    (show (llamaHeader.tableScan []).isOk = true by decide +kernel)
  refine ⟨table, s, htable, (header_readRight_iff llamaHeader [] table s (by decide +kernel)
    (by decide +kernel) (by decide +kernel) htable).mpr ?_⟩
  intro architecture hname hdot
  have hllama : textAt architectureName llamaHeader.entries = some "llama".toList := by
    decide +kernel
  rw [hllama] at hname
  cases hname
  exact absurd hdot (by decide)

/-- An architecture with a dot in its name. -/
def dottedHeader : Header where
  version := 3
  tensors := 0
  entries := namedEntries "a.b"
  version_ok := latest_version
  tensors_ok := Nat.zero_le MAX_TENSORS
  keys_ok := by decide
  distinct := by decide

/-- The header is within every limit, its table is readable and its block count is
stated; the facts of the scan have none. -/
theorem dotted_not_readRight :
    dottedHeader.Within Entry.metadataCost ∧ dottedHeader.Within Entry.factCost ∧
      ValidAlignment (alignmentOf dottedHeader.entries) ∧
      ∃ table s, dottedHeader.tableScan [] = .ok (table, s) ∧
        ¬ dottedHeader.ReadRight [] table.bytes := by
  refine ⟨by decide +kernel, by decide +kernel, by decide +kernel, ?_⟩
  obtain ⟨⟨table, s⟩, htable⟩ := Fallible.exists_of_isOk
    (show (dottedHeader.tableScan []).isOk = true by decide +kernel)
  refine ⟨table, s, htable, fun hread => ?_⟩
  obtain ⟨-, -, hscan, -⟩ := hread dottedHeader.entries (.refl _)
  have hfound : ((scanModel ((dottedHeader.reorder _ (.refl _)).encode ++ []) false).map
      ModelScan.facts).toOption.bind ModelFacts.blockCount = none := by
    decide +kernel
  rw [hscan] at hfound
  have hstated : (factsOf dottedHeader.entries table.bytes).blockCount = some 3 := by
    have hname : textAt architectureName dottedHeader.entries = some "a.b".toList := by
      decide +kernel
    have hraw : ((rawAt (architectureKey "a.b".toList "block_count")
        dottedHeader.entries).bind RawValue.asInt) = some 3 := by
      decide +kernel
    rw [factsOf, hname]
    exact hraw
  change (factsOf dottedHeader.entries table.bytes).blockCount = none at hfound
  rw [hstated] at hfound
  cases hfound

end AioLM.Gguf
