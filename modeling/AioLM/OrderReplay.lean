import AioLM.StoredOptions
import Mathlib.Data.List.Count

/-!
A checked order record replays the saved occurrences. The record holds keys and
spellings, the values stay grouped, and the plan takes the n-th entry of a key
for its n-th saved occurrence.
-/

set_option autoImplicit false

namespace AioLM.Options

open Fallible

/-- The record alone; a profile without one resolves canonically. -/
def savedOrder (serde : Serde) (values : KeyMap Text Json) : Except Text (Option SavedOrder) := do
  let checked ← checkedSavedOrder serde values
  return checked.map (·.1)

def replay (grouped : Overrides) : List Text → List OrderEntry → Option OrderedPlan
  | _, [] => some []
  | seen, entry :: entries => do
    let value ← grouped.get entry.key
    let row ← value.occurrences[seen.count entry.key]?
    let more ← replay grouped (entry.key :: seen) entries
    return ⟨entry.key, entry.spelling, row⟩ :: more

def unrecordedPlan (schema : OptionSchema) (grouped : Overrides) (order : SavedOrder) :
    OrderedPlan :=
  let unrecorded (key : Text) : Bool := !order.keys.contains key
  (schema.options.flatMap fun option =>
      match grouped.get option.key with
      | some value => if unrecorded option.key then plannedRows option.key value else []
      | none => []) ++
    (grouped.entries.flatMap fun e =>
      if unrecorded e.1 && !schema.options.any (·.key = e.1) then plannedRows e.1 e.2 else [])

def savedPlan (schema : OptionSchema) (values : KeyMap Text Json) (order : SavedOrder) :
    Option OrderedPlan := do
  let grouped := overridesFromMap values
  let recorded ← replay grouped [] order.occurrences
  return unrecordedPlan schema grouped order ++ recorded

def valuesOf (key : Text) (plan : OrderedPlan) : List (List Json) :=
  (plan.filter (·.key = key)).map (·.values)

def PlannedOccurrence.entry (occurrence : PlannedOccurrence) : OrderEntry :=
  ⟨occurrence.key, occurrence.spelling⟩

theorem recordedPlan_of_replay {grouped : Overrides} {seen : List Text}
    {entries : List OrderEntry} {plan : OrderedPlan} (h : replay grouped seen entries = some plan) :
    recordedPlan grouped seen entries = plan := by
  induction entries generalizing seen plan with
  | nil =>
    cases h
    rfl
  | cons entry entries ih =>
    simp only [replay, Option.bind_eq_bind, Option.bind_eq_some_iff, pure, Option.some.injEq] at h
    obtain ⟨value, hvalue, row, hrow, more, hmore, rfl⟩ := h
    rw [recordedPlan, hvalue, Option.bind_some, hrow, ih hmore]
    rfl

theorem savedPlanFromGrouped_of_savedPlan {schema : OptionSchema} {values : KeyMap Text Json}
    {order : SavedOrder} {plan : OrderedPlan} (h : savedPlan schema values order = some plan) :
    savedPlanFromGrouped schema (overridesFromMap values) order = plan := by
  simp only [savedPlan, Option.bind_eq_bind, Option.bind_eq_some_iff, pure,
    Option.some.injEq] at h
  obtain ⟨recorded, hrecorded, rfl⟩ := h
  rw [← recordedPlan_of_replay hrecorded]
  rfl

theorem savedOrder_eq_some {serde : Serde} {values : KeyMap Text Json} {order : SavedOrder}
    (h : savedOrder serde values = .ok (some order)) :
    (∃ raw, values.get orderKey = some raw ∧ SavedOrder.ofJson raw = some order) ∧
      (∀ entry ∈ order.occurrences, entryFits entry) ∧
      Counted (overridesFromMap values) order := by
  simp only [savedOrder, bind_eq_ok, pure, Except.pure, Except.ok.injEq,
    Option.map_eq_some_iff] at h
  obtain ⟨checked, hchecked, ⟨order', grouped⟩, rfl, rfl⟩ := h
  obtain ⟨rfl, hchecks⟩ := checkedSavedOrder_eq_some hchecked
  exact hchecks

@[simp] theorem valuesOf_nil (key : Text) : valuesOf key [] = [] := rfl

theorem valuesOf_append (key : Text) (plan more : OrderedPlan) :
    valuesOf key (plan ++ more) = valuesOf key plan ++ valuesOf key more := by
  rw [valuesOf, List.filter_append, List.map_append]
  rfl

theorem valuesOf_cons (key : Text) (occurrence : PlannedOccurrence) (plan : OrderedPlan) :
    valuesOf key (occurrence :: plan) =
      if occurrence.key = key then occurrence.values :: valuesOf key plan
      else valuesOf key plan := by
  by_cases h : occurrence.key = key <;> simp [valuesOf, h]

theorem valuesOf_flatMap {α : Type} (key : Text) (f : α → OrderedPlan) (xs : List α) :
    valuesOf key (xs.flatMap f) = xs.flatMap fun x => valuesOf key (f x) := by
  induction xs with
  | nil => rfl
  | cons x xs ih => rw [List.flatMap_cons, valuesOf_append, ih, List.flatMap_cons]

theorem valuesOf_plannedRows (key saved : Text) (value : Override) :
    valuesOf key (plannedRows saved value) = if saved = key then value.occurrences else [] := by
  by_cases h : saved = key <;> simp [valuesOf, plannedRows, h, List.filter_map, Function.comp_def]

def savedRows (grouped : Overrides) (key : Text) : List (List Json) :=
  (grouped.get key).elim [] (·.occurrences)

/-- Running indexes stay inside as long as the counts agree; what is taken for a
key are the rows its earlier entries have left. -/
theorem replay_spec {grouped : Overrides} {seen : List Text} {entries : List OrderEntry}
    (h : ∀ entry ∈ entries, (savedRows grouped entry.key).length =
      seen.count entry.key + (entries.filter (·.key = entry.key)).length) :
    ∃ plan, replay grouped seen entries = some plan ∧
      plan.map PlannedOccurrence.entry = entries ∧
      ∀ key, (savedRows grouped key).length =
          seen.count key + (entries.filter (·.key = key)).length →
        valuesOf key plan = (savedRows grouped key).drop (seen.count key) := by
  induction entries generalizing seen with
  | nil =>
    refine ⟨[], rfl, rfl, fun key hkey => ?_⟩
    rw [List.drop_of_length_le (by simpa using hkey.le)]
    rfl
  | cons entry entries ih =>
    have hcount (key : Text) (hkey : (savedRows grouped key).length =
        seen.count key + ((entry :: entries).filter (·.key = key)).length) :
        (savedRows grouped key).length =
          (entry.key :: seen).count key + (entries.filter (·.key = key)).length := by
      by_cases hsame : entry.key = key
      · simp only [hsame, List.filter_cons, List.count_cons, decide_true, if_true, List.length_cons,
          beq_self_eq_true] at hkey ⊢
        omega
      · simpa [hsame, List.count_cons] using hkey
    obtain ⟨more, hmore, hentries, hvalues⟩ := ih fun later hlater =>
      hcount later.key (h later (List.mem_cons_of_mem _ hlater))
    have hhere := h entry List.mem_cons_self
    have hlt : seen.count entry.key < (savedRows grouped entry.key).length := by
      simp only [List.filter_cons, decide_true, if_true, List.length_cons] at hhere
      omega
    obtain ⟨value, hvalue⟩ : ∃ value, grouped.get entry.key = some value := by
      cases hget : grouped.get entry.key with
      | none => simp [savedRows, hget] at hlt
      | some value => exact ⟨value, rfl⟩
    have hrows : savedRows grouped entry.key = value.occurrences := by simp [savedRows, hvalue]
    rw [hrows] at hlt
    refine ⟨⟨entry.key, entry.spelling, value.occurrences[seen.count entry.key]⟩ :: more, ?_, ?_, ?_⟩
    · rw [replay, hvalue, hmore, Option.bind_eq_bind, Option.bind_some,
        List.getElem?_eq_getElem hlt]
      rfl
    · rw [List.map_cons, hentries]
      rfl
    · intro key hkey
      rw [valuesOf_cons, hvalues key (hcount key hkey)]
      by_cases hsame : entry.key = key
      · subst hsame
        rw [if_pos rfl, List.count_cons_self, hrows, List.getElem_cons_drop]
      · rw [if_neg hsame, List.count_cons_of_ne hsame]

theorem length_valuesOf (key : Text) (plan : OrderedPlan) :
    (valuesOf key plan).length =
      ((plan.map PlannedOccurrence.entry).filter (·.key = key)).length := by
  rw [valuesOf, List.length_map, List.filter_map, List.length_map]
  rfl

theorem flatMap_ite_key {β : Type} (key : Text) (rows : List β) (keys : List Text) :
    (keys.flatMap fun k => if k = key then rows else []) =
      (List.replicate (keys.count key) rows).flatten := by
  induction keys with
  | nil => rfl
  | cons k keys ih =>
    rw [List.flatMap_cons, ih]
    by_cases hk : k = key
    · subst hk
      rw [if_pos rfl, List.count_cons_self, List.replicate_succ, List.flatten_cons]
    · rw [if_neg hk, List.count_cons_of_ne hk, List.nil_append]

def schemaKeys (schema : OptionSchema) : List Text := schema.options.map (·.key)

def unrecordedRows (grouped : Overrides) (order : SavedOrder) (key : Text) : List (List Json) :=
  if key ∈ order.keys then [] else savedRows grouped key

theorem valuesOf_known (schema : OptionSchema) (grouped : Overrides) (order : SavedOrder)
    (key : Text) :
    (schema.options.flatMap fun option => valuesOf key
      (match grouped.get option.key with
        | some value =>
          if !order.keys.contains option.key then plannedRows option.key value else []
        | none => [])) =
      (List.replicate ((schemaKeys schema).count key)
        (unrecordedRows grouped order key)).flatten := by
  rw [← flatMap_ite_key, schemaKeys, List.flatMap_map]
  refine List.flatMap_congr fun option _ => ?_
  cases hget : grouped.get option.key with
  | none =>
    by_cases hkey : option.key = key
    · subst hkey
      simp [unrecordedRows, savedRows, hget]
    · simp [hkey]
  | some value =>
    simp only [apply_ite (valuesOf key), valuesOf_plannedRows, valuesOf_nil]
    by_cases hkey : option.key = key
    · subst hkey
      by_cases hmem : option.key ∈ order.keys <;> simp [unrecordedRows, savedRows, hget, hmem]
    · simp [hkey]

theorem valuesOf_unknown (schema : OptionSchema) (grouped : Overrides) (order : SavedOrder)
    (key : Text) :
    (grouped.entries.flatMap fun e => valuesOf key
      (if !order.keys.contains e.1 && !schema.options.any (·.key = e.1) then
        plannedRows e.1 e.2 else [])) =
      if key ∈ schemaKeys schema then [] else unrecordedRows grouped order key := by
  have hany : ∀ k : Text, (schema.options.any (·.key = k)) = decide (k ∈ schemaKeys schema) := by
    intro k
    rw [schemaKeys, Bool.eq_iff_iff]
    simp
  have hrows := KeyMap.flatMap_key grouped key fun value =>
    if key ∈ order.keys ∨ key ∈ schemaKeys schema then [] else value.occurrences
  have hentry : ∀ e ∈ grouped.entries, valuesOf key
      (if !order.keys.contains e.1 && !schema.options.any (·.key = e.1) then
        plannedRows e.1 e.2 else []) =
      if e.1 = key then
        (if key ∈ order.keys ∨ key ∈ schemaKeys schema then [] else e.2.occurrences) else [] := by
    intro e _
    simp only [apply_ite (valuesOf key), valuesOf_plannedRows, valuesOf_nil, hany]
    by_cases hkey : e.1 = key
    · subst hkey
      by_cases hmem : e.1 ∈ order.keys <;> by_cases hin : e.1 ∈ schemaKeys schema <;>
        simp [hmem, hin]
    · simp [hkey]
  rw [List.flatMap_congr hentry, hrows, unrecordedRows, savedRows]
  cases grouped.get key with
  | none => simp
  | some value =>
    by_cases hmem : key ∈ order.keys <;> by_cases hin : key ∈ schemaKeys schema <;>
      simp [hmem, hin]

theorem valuesOf_unrecordedPlan (schema : OptionSchema) (grouped : Overrides) (order : SavedOrder)
    (key : Text) :
    valuesOf key (unrecordedPlan schema grouped order) =
      (List.replicate (max 1 ((schemaKeys schema).count key))
        (unrecordedRows grouped order key)).flatten := by
  have hsplit : valuesOf key (unrecordedPlan schema grouped order) =
      (List.replicate ((schemaKeys schema).count key)
          (unrecordedRows grouped order key)).flatten ++
        if key ∈ schemaKeys schema then [] else unrecordedRows grouped order key := by
    rw [unrecordedPlan, valuesOf_append, valuesOf_flatMap, valuesOf_flatMap, ← valuesOf_known,
      ← valuesOf_unknown]
  rw [hsplit]
  by_cases hin : key ∈ schemaKeys schema
  · have hpos := List.count_pos_iff.mpr hin
    rw [if_pos hin, List.append_nil, max_eq_right hpos]
  · rw [if_neg hin, List.count_eq_zero.mpr hin]
    simp

theorem flatten_replicate_eq_iff {β : Type} {rows : List β} {n : Nat} :
    (List.replicate (max 1 n) rows).flatten = rows ↔ n ≤ 1 ∨ rows = [] := by
  constructor
  · intro h
    have hlength : max 1 n * rows.length = rows.length := by
      simpa using congrArg List.length h
    by_contra hnot
    obtain ⟨hn, hrows⟩ := not_or.mp hnot
    have hpos := List.length_pos_iff.mpr hrows
    have := Nat.le_of_mul_le_mul_right (hlength.le.trans_eq (Nat.one_mul _).symm) hpos
    omega
  · rintro (hn | rfl)
    · rw [max_eq_left hn]
      simp
    · simp

def position (schema : OptionSchema) (key : Text) : Nat := (schemaKeys schema).idxOf key

theorem pairwise_idxOf (keys : List Text) :
    keys.Pairwise fun a b => keys.count b ≤ 1 → keys.idxOf a ≤ keys.idxOf b := by
  induction keys with
  | nil => exact .nil
  | cons k keys ih =>
    refine List.pairwise_cons.mpr ⟨?_, ih.imp_of_mem ?_⟩
    · intro b _ _
      rw [List.idxOf_cons_self]
      exact Nat.zero_le _
    · intro a b _ hb hle hcount
      by_cases ha : k = a
      · rw [ha, List.idxOf_cons_self]
        exact Nat.zero_le _
      · have hpos := List.count_pos_iff.mpr hb
        have hkb : k ≠ b := by
          rintro rfl
          rw [List.count_cons_self] at hcount
          omega
        rw [List.count_cons_of_ne hkb] at hcount
        rw [List.idxOf_cons_ne _ ha, List.idxOf_cons_ne _ hkb]
        exact Nat.succ_le_succ (hle hcount)

def SavedOnce (schema : OptionSchema) (grouped : Overrides) (order : SavedOrder) : Prop :=
  ∀ key, unrecordedRows grouped order key ≠ [] → (schemaKeys schema).count key ≤ 1

/-- What becomes of the saved occurrences: each key's values in their order, the
keys outside the record first and in schema order, then the record. -/
structure Replays (schema : OptionSchema) (grouped : Overrides) (order : SavedOrder)
    (plan : OrderedPlan) : Prop where
  values : ∀ key, valuesOf key plan = savedRows grouped key
  ordered : ∃ first recorded, plan = first ++ recorded ∧
    recorded.map PlannedOccurrence.entry = order.occurrences ∧
    (∀ occurrence ∈ first, entriesOf occurrence.key order = [] ∧
      ∃ value, grouped.get occurrence.key = some value ∧ occurrence.spelling = value.spelling) ∧
    first.Pairwise fun a b => position schema a.key ≤ position schema b.key

structure Unrecorded (grouped : Overrides) (order : SavedOrder)
    (occurrence : PlannedOccurrence) : Prop where
  outside : occurrence.key ∉ order.keys
  saved : ∃ value, grouped.get occurrence.key = some value ∧
    occurrence.spelling = value.spelling ∧ value.occurrences ≠ []

theorem Unrecorded.rows_ne_nil {grouped : Overrides} {order : SavedOrder}
    {occurrence : PlannedOccurrence} (h : Unrecorded grouped order occurrence) :
    unrecordedRows grouped order occurrence.key ≠ [] := by
  obtain ⟨value, hvalue, -, hrows⟩ := h.saved
  simpa [unrecordedRows, h.outside, savedRows, hvalue] using hrows

theorem unrecorded_of_mem_rows {grouped : Overrides} {order : SavedOrder} {key : Text}
    {value : Override} (hvalue : grouped.get key = some value) (hkey : key ∉ order.keys)
    {occurrence : PlannedOccurrence} (h : occurrence ∈ plannedRows key value) :
    occurrence.key = key ∧ Unrecorded grouped order occurrence := by
  obtain ⟨row, hrow, rfl⟩ := List.mem_map.mp h
  exact ⟨rfl, hkey, value, hvalue, rfl, List.ne_nil_of_mem hrow⟩

section

variable {schema : OptionSchema} {grouped : Overrides} {order : SavedOrder}

theorem mem_known {option : OptionDefinition} {occurrence : PlannedOccurrence}
    (h : occurrence ∈ (match grouped.get option.key with
      | some value => if !order.keys.contains option.key then plannedRows option.key value else []
      | none => [])) :
    occurrence.key = option.key ∧ Unrecorded grouped order occurrence := by
  split at h
  · rename_i value hvalue
    split at h
    · rename_i hkey
      exact unrecorded_of_mem_rows hvalue (by simpa using hkey) h
    · cases h
  · cases h

theorem mem_unknown {e : Text × Override} (he : e ∈ grouped.entries)
    {occurrence : PlannedOccurrence}
    (h : occurrence ∈ (if !order.keys.contains e.1 && !schema.options.any (·.key = e.1) then
      plannedRows e.1 e.2 else [])) :
    occurrence.key ∉ schemaKeys schema ∧ Unrecorded grouped order occurrence := by
  split at h
  · rename_i hkey
    simp only [Bool.and_eq_true, Bool.not_eq_true', List.contains_eq_mem,
      decide_eq_false_iff_not, List.any_eq_false, decide_eq_true_eq] at hkey
    obtain ⟨hsaved, hunrecorded⟩ := unrecorded_of_mem_rows (KeyMap.get_eq_some.mpr he) hkey.1 h
    refine ⟨fun hmem => ?_, hunrecorded⟩
    obtain ⟨option, hoption, hsame⟩ := List.mem_map.mp hmem
    exact hkey.2 option hoption (hsame.trans hsaved)
  · cases h

theorem unrecorded_of_mem {occurrence : PlannedOccurrence}
    (h : occurrence ∈ unrecordedPlan schema grouped order) :
    Unrecorded grouped order occurrence := by
  obtain h | h := List.mem_append.mp h
  · obtain ⟨option, -, hmem⟩ := List.mem_flatMap.mp h
    exact (mem_known hmem).2
  · obtain ⟨e, he, hmem⟩ := List.mem_flatMap.mp h
    exact (mem_unknown he hmem).2

theorem pairwise_unrecordedPlan (h : SavedOnce schema grouped order) :
    (unrecordedPlan schema grouped order).Pairwise fun a b =>
      position schema a.key ≤ position schema b.key := by
  have hlast : ∀ key, key ∉ schemaKeys schema →
      position schema key = (schemaKeys schema).length := fun key hkey =>
    List.idxOf_eq_length_iff.mpr hkey
  have hunknown : ∀ b ∈ grouped.entries.flatMap (fun e =>
      if !order.keys.contains e.1 && !schema.options.any (·.key = e.1) then
        plannedRows e.1 e.2 else []), position schema b.key = (schemaKeys schema).length := by
    intro b hb
    obtain ⟨e, he, hmem⟩ := List.mem_flatMap.mp hb
    exact hlast _ (mem_unknown he hmem).1
  refine List.pairwise_append.mpr ⟨?_, ?_, ?_⟩
  · refine List.pairwise_flatMap.mpr ⟨fun option _ => ?_, ?_⟩
    · refine List.pairwise_of_forall_mem_list fun a ha b hb => ?_
      rw [(mem_known ha).1, (mem_known hb).1]
    · have hkeys := List.pairwise_map.mp (pairwise_idxOf (schemaKeys schema))
      refine hkeys.imp fun hle a ha b hb => ?_
      obtain ⟨hakey, -⟩ := mem_known ha
      obtain ⟨hbkey, hbsaved⟩ := mem_known hb
      rw [hakey, hbkey]
      exact hle (h _ (hbkey ▸ hbsaved.rows_ne_nil))
  · refine List.pairwise_of_forall_mem_list fun a ha b hb => ?_
    rw [hunknown a ha, hunknown b hb]
  · intro a _ b hb
    rw [hunknown b hb]
    exact List.idxOf_le_length

/-- A record with the right counts replays the saved occurrences exactly when
none of the values it leaves out belongs to two options. -/
theorem replays_iff (h : Counted grouped order) :
    ∃ recorded, replay grouped [] order.occurrences = some recorded ∧
      recorded.map PlannedOccurrence.entry = order.occurrences ∧
      (Replays schema grouped order (unrecordedPlan schema grouped order ++ recorded) ↔
        SavedOnce schema grouped order) := by
  have hcounted : ∀ key ∈ order.keys,
      (savedRows grouped key).length = (entriesOf key order).length := by
    intro key hkey
    obtain ⟨value, hvalue, hlength, -⟩ := h.saved key hkey
    simpa [savedRows, hvalue] using hlength
  have hstart : ∀ entry ∈ order.occurrences, (savedRows grouped entry.key).length =
      List.count entry.key [] + (order.occurrences.filter (·.key = entry.key)).length := by
    intro entry hentry
    have hmem : entry.key ∈ order.keys :=
      mem_keys.mpr (List.ne_nil_of_mem (List.mem_filter.mpr ⟨hentry, by simp⟩))
    simpa [entriesOf] using hcounted _ hmem
  obtain ⟨recorded, hreplay, hentries, hvalues⟩ := replay_spec hstart
  refine ⟨recorded, hreplay, hentries, ?_⟩
  have hplan : ∀ key, valuesOf key (unrecordedPlan schema grouped order ++ recorded) =
        savedRows grouped key ↔
      (unrecordedRows grouped order key ≠ [] → (schemaKeys schema).count key ≤ 1) := by
    intro key
    rw [valuesOf_append, valuesOf_unrecordedPlan]
    by_cases hkey : key ∈ order.keys
    · have hrows := hvalues key (by simpa [entriesOf] using hcounted key hkey)
      simp [unrecordedRows, hkey, hrows]
    · have hnone : valuesOf key recorded = [] := by
        rw [← List.length_eq_zero_iff, length_valuesOf, hentries, List.length_eq_zero_iff]
        exact not_not.mp (mt mem_keys.mpr hkey)
      rw [hnone, List.append_nil, unrecordedRows, if_neg hkey, flatten_replicate_eq_iff]
      tauto
  constructor
  · intro hreplays key
    exact (hplan key).mp (hreplays.values key)
  · intro honce
    refine ⟨fun key => (hplan key).mpr (honce key), _, recorded, rfl, hentries, ?_,
      pairwise_unrecordedPlan honce⟩
    intro occurrence hmem
    obtain ⟨houtside, value, hvalue, hspelling, -⟩ := unrecorded_of_mem hmem
    exact ⟨not_not.mp (mt mem_keys.mpr houtside), value, hvalue, hspelling⟩

end

def Override.absorb (occurrence : PlannedOccurrence) : Option Override → Override
  | none => ⟨occurrence.spelling, [occurrence.values]⟩
  | some existing =>
    ⟨existing.spelling.or occurrence.spelling, existing.occurrences ++ [occurrence.values]⟩

def overridesFromPlan (plan : OrderedPlan) : Overrides :=
  plan.foldl (fun out occurrence => out.alter occurrence.key (Override.absorb occurrence)) .empty

def OrderEntry.toJson (entry : OrderEntry) : Json :=
  .object [("key".toList, .string entry.key),
    ("spelling".toList, entry.spelling.elim .null .string)]

def SavedOrder.toJson (order : SavedOrder) : Json :=
  .object [("occurrences".toList, .array (order.occurrences.map OrderEntry.toJson)),
    ("version".toList, Json.int order.version)]

def planRecord (plan : OrderedPlan) : SavedOrder :=
  ⟨orderVersion, plan.map PlannedOccurrence.entry⟩

def storedPlan (plan : OrderedPlan) : KeyMap Text Json :=
  (mapFromOverrides (overridesFromPlan plan)).insert orderKey (planRecord plan).toJson

theorem mapM_ofJson (entries : List OrderEntry) :
    (entries.map OrderEntry.toJson).mapM OrderEntry.ofJson = some entries := by
  induction entries with
  | nil => rfl
  | cons entry entries ih =>
    have hentry : OrderEntry.ofJson entry.toJson = some entry := by
      obtain ⟨key, spelling⟩ := entry
      cases spelling <;> rfl
    rw [List.map_cons, List.mapM_cons, hentry, ih]
    rfl

theorem ofJson_planRecord (plan : OrderedPlan) :
    SavedOrder.ofJson (planRecord plan).toJson = some (planRecord plan) := by
  have hfields : (planRecord plan).toJson.asObject = some [("occurrences".toList,
      .array ((planRecord plan).occurrences.map OrderEntry.toJson)),
        ("version".toList, Json.int (planRecord plan).version)] := rfl
  have hget : (planRecord plan).toJson.get "occurrences" =
      some (.array ((planRecord plan).occurrences.map OrderEntry.toJson)) := rfl
  simp only [SavedOrder.ofJson, hfields, hget, Json.asArray, Option.bind_eq_bind,
    Option.bind_some, mapM_ofJson]
  rfl

def plannedFor (key : Text) (plan : OrderedPlan) : OrderedPlan := plan.filter (·.key = key)

theorem get_overridesFromPlan (plan : OrderedPlan) (key : Text) :
    (overridesFromPlan plan).get key =
      if plannedFor key plan = [] then none
      else some ⟨(plannedFor key plan).findSome? (·.spelling), valuesOf key plan⟩ := by
  induction plan using List.reverseRecOn with
  | nil => rfl
  | append_singleton plan occurrence ih =>
    have hsnoc : overridesFromPlan (plan ++ [occurrence]) =
        (overridesFromPlan plan).alter occurrence.key (Override.absorb occurrence) := by
      simp [overridesFromPlan, List.foldl_append]
    have happend : plannedFor key (plan ++ [occurrence]) =
        plannedFor key plan ++ plannedFor key [occurrence] := List.filter_append _ _
    rw [hsnoc, KeyMap.get_alter, valuesOf_append, happend]
    by_cases hkey : key = occurrence.key
    · subst hkey
      have hlast : plannedFor occurrence.key [occurrence] = [occurrence] := by
        simp [plannedFor]
      have hvalues : valuesOf occurrence.key [occurrence] = [occurrence.values] := by
        simp [valuesOf]
      have hne : plannedFor occurrence.key plan ++ [occurrence] ≠ [] := by simp
      rw [if_pos rfl, ih, hlast, hvalues, if_neg hne, List.findSome?_append]
      by_cases hnone : plannedFor occurrence.key plan = []
      · have hempty : valuesOf occurrence.key plan = [] := congrArg (List.map _) hnone
        simp [hnone, hempty, Override.absorb]
      · simp [hnone, Override.absorb]
    · have hlast : plannedFor key [occurrence] = [] := by
        simp [plannedFor, Ne.symm hkey]
      have hvalues : valuesOf key [occurrence] = [] := congrArg (List.map _) hlast
      rw [if_neg hkey, ih, hlast, hvalues, List.append_nil, List.append_nil]

theorem plan_ext {plan other : OrderedPlan}
    (hentries : plan.map PlannedOccurrence.entry = other.map PlannedOccurrence.entry)
    (hvalues : ∀ key, valuesOf key plan = valuesOf key other) : plan = other := by
  induction plan generalizing other with
  | nil => exact (List.map_eq_nil_iff.mp hentries.symm).symm
  | cons occurrence plan ih =>
    obtain _ | ⟨occurrence', other⟩ := other
    · cases hentries
    obtain ⟨hentry, hrest⟩ := List.cons.inj hentries
    obtain ⟨key, spelling, values⟩ := occurrence
    obtain ⟨key', spelling', values'⟩ := occurrence'
    obtain ⟨rfl, rfl⟩ : key = key' ∧ spelling = spelling' := by
      simpa [PlannedOccurrence.entry] using hentry
    have hhead : values = values' := by
      have hsame := hvalues key
      simp only [valuesOf_cons, if_true, List.cons.injEq] at hsame
      exact hsame.1
    have htail : plan = other := by
      refine ih hrest fun k => ?_
      have hsame := hvalues k
      simp only [valuesOf_cons] at hsame
      split at hsame
      · exact (List.cons.inj hsame).2
      · exact hsame
    rw [hhead, htail]

section

variable {serde : Serde} {plan : OrderedPlan} {order : SavedOrder}

theorem order_eq_planRecord (h : savedOrder serde (storedPlan plan) = .ok (some order)) :
    order = planRecord plan := by
  obtain ⟨⟨raw, hraw, hrecord⟩, -⟩ := savedOrder_eq_some h
  rw [storedPlan, KeyMap.get_insert, if_pos rfl, Option.some.injEq] at hraw
  rw [← hraw, ofJson_planRecord, Option.some.injEq] at hrecord
  exact hrecord.symm

theorem get_overridesFromMap_storedPlan {key : Text} (hkey : key ≠ orderKey) :
    (overridesFromMap (storedPlan plan)).get key =
      ((overridesFromPlan plan).get key).map fun value => Override.read value.stored := by
  rw [get_overridesFromMap, if_neg hkey, storedPlan, KeyMap.get_insert, if_neg hkey,
    get_mapFromOverrides, Option.map_map]
  rfl

theorem length_entriesOf_planRecord (key : Text) :
    (entriesOf key (planRecord plan)).length = (plannedFor key plan).length := by
  rw [entriesOf, planRecord, List.filter_map, List.length_map]
  rfl

theorem mem_keys_planRecord {key : Text} {value : Override}
    (h : (overridesFromPlan plan).get key = some value) : key ∈ (planRecord plan).keys := by
  rw [mem_keys, ← List.length_pos_iff, length_entriesOf_planRecord, List.length_pos_iff]
  intro hnil
  rw [get_overridesFromPlan, if_pos hnil] at h
  cases h

theorem mem_keys_of_saved {key : Text} {value : Override}
    (h : (overridesFromMap (storedPlan plan)).get key = some value) :
    key ∈ (planRecord plan).keys := by
  by_cases hkey : key = orderKey
  · rw [get_overridesFromMap, if_pos hkey] at h
    cases h
  · rw [get_overridesFromMap_storedPlan hkey] at h
    obtain ⟨grouped, hgrouped, -⟩ := Option.map_eq_some_iff.mp h
    exact mem_keys_planRecord hgrouped

theorem ne_orderKey_of_mem_keys {key : Text} (hfits : ∀ entry ∈ order.occurrences, entryFits entry)
    (h : key ∈ order.keys) : key ≠ orderKey := by
  obtain ⟨entry, hentry⟩ := List.exists_mem_of_ne_nil _ (mem_keys.mp h)
  obtain ⟨hmem, hkey⟩ := List.mem_filter.mp hentry
  have hvalid := hfits entry hmem
  rintro rfl
  simp only [entryFits, of_decide_eq_true hkey, Bool.and_eq_true] at hvalid
  have hinvalid : orderKeyValid orderKey = false := by decide
  rw [hinvalid] at hvalid
  cases hvalid.1

theorem spelling_of_misread {value : Override} (h : value.misread = true) :
    value.spelling = none := by
  unfold Override.misread at h
  split at h
  · assumption
  · cases h

/-- With the first spelling checked, the values read back are the stored ones
exactly when no bare value is misread. -/
theorem occurrences_read_iff {key : Text} {value : Override}
    (hvalue : (overridesFromPlan plan).get key = some value)
    (hspelling : (entriesOf key (planRecord plan)).head?.bind (·.spelling) =
      (Override.read value.stored).spelling) :
    (Override.read value.stored).occurrences = value.occurrences ↔ value.misread = false := by
  constructor
  · intro hrows
    by_contra hmisread
    rw [Bool.not_eq_false] at hmisread
    have hnone := spelling_of_misread hmisread
    rw [get_overridesFromPlan] at hvalue
    split at hvalue
    · cases hvalue
    have hall := List.findSome?_eq_none_iff.mp ((congrArg Override.spelling
      (Option.some.inj hvalue)).trans hnone)
    have hfirst : (entriesOf key (planRecord plan)).head?.bind (·.spelling) = none := by
      have hmap : entriesOf key (planRecord plan) =
          (plannedFor key plan).map PlannedOccurrence.entry := List.filter_map
      rw [hmap, Option.bind_eq_none_iff]
      intro entry hentry
      obtain ⟨occurrence, hmem, rfl⟩ := List.mem_map.mp (List.mem_of_mem_head? hentry)
      exact hall occurrence hmem
    have hback : Override.read value.stored = value := by
      have hsame := hspelling.symm.trans (hfirst.trans hnone.symm)
      cases hread : Override.read value.stored
      rw [hread] at hsame hrows
      cases value
      simp_all
    rw [(Override.read_stored_iff value).mp hback] at hmisread
    cases hmisread
  · intro hplain
    rw [(Override.read_stored_iff value).mpr hplain]

theorem savedPlan_storedPlan_iff (schema : OptionSchema)
    (h : savedOrder serde (storedPlan plan) = .ok (some order)) :
    savedPlan schema (storedPlan plan) order = some plan ↔
      ∀ key value, (overridesFromPlan plan).get key = some value → value.misread = false := by
  obtain ⟨-, hfits, hcounted⟩ := savedOrder_eq_some h
  obtain rfl := order_eq_planRecord h
  obtain ⟨recorded, hreplay, hentries, hreplays⟩ := @replays_iff schema _ _ hcounted
  have honce : SavedOnce schema (overridesFromMap (storedPlan plan)) (planRecord plan) := by
    intro key hrows
    cases hget : (overridesFromMap (storedPlan plan)).get key with
    | none => simp [unrecordedRows, savedRows, hget] at hrows
    | some value => simp [unrecordedRows, mem_keys_of_saved hget] at hrows
  have hnone : unrecordedPlan schema (overridesFromMap (storedPlan plan)) (planRecord plan) =
      [] := by
    rw [List.eq_nil_iff_forall_not_mem]
    intro occurrence hmem
    obtain ⟨houtside, value, hvalue, -⟩ := unrecorded_of_mem hmem
    exact houtside (mem_keys_of_saved hvalue)
  have hvalues := (hreplays.mpr honce).values
  rw [hnone, List.nil_append] at hvalues
  have hplan : savedPlan schema (storedPlan plan) (planRecord plan) = some recorded := by
    simp [savedPlan, hreplay, hnone]
  have hiff : recorded = plan ↔ ∀ key, savedRows (overridesFromMap (storedPlan plan)) key =
      valuesOf key plan := by
    constructor
    · rintro rfl key
      exact (hvalues key).symm
    · intro hsame
      exact plan_ext hentries fun key => (hvalues key).trans (hsame key)
  rw [hplan, Option.some.injEq, hiff]
  have hkey : ∀ key value, (overridesFromPlan plan).get key = some value →
      (savedRows (overridesFromMap (storedPlan plan)) key = valuesOf key plan ↔
        value.misread = false) := by
    intro key value hvalue
    have hmem := mem_keys_planRecord hvalue
    have hread : (overridesFromMap (storedPlan plan)).get key =
        ((overridesFromPlan plan).get key).map fun value => Override.read value.stored :=
      get_overridesFromMap_storedPlan (ne_orderKey_of_mem_keys hfits hmem)
    rw [hvalue, Option.map_some] at hread
    obtain ⟨saved, hsaved, -, hspelling⟩ := hcounted.saved key hmem
    rw [hread, Option.some.injEq] at hsaved
    subst hsaved
    have hrows : value.occurrences = valuesOf key plan := by
      rw [get_overridesFromPlan] at hvalue
      split at hvalue
      · cases hvalue
      · exact congrArg Override.occurrences (Option.some.inj hvalue).symm
    rw [← occurrences_read_iff hvalue hspelling, savedRows, hread, ← hrows]
    rfl
  constructor
  · intro hall key value hvalue
    exact (hkey key value hvalue).mp (hall key)
  · intro hplain key
    cases hvalue : (overridesFromPlan plan).get key with
    | some value => exact (hkey key value hvalue).mpr (hplain key value hvalue)
    | none =>
      have hempty : valuesOf key plan = [] := by
        rw [get_overridesFromPlan] at hvalue
        split at hvalue
        · rename_i hnil
          exact congrArg (List.map _) hnil
        · cases hvalue
      rw [hempty, savedRows]
      cases hget : (overridesFromMap (storedPlan plan)).get key with
      | none => rfl
      | some saved =>
        by_cases hreserved : key = orderKey
        · rw [get_overridesFromMap, if_pos hreserved] at hget
          cases hget
        · rw [get_overridesFromMap_storedPlan hreserved, hvalue] at hget
          cases hget

end

theorem savedOnce_of_wellFormed {schema : OptionSchema} (h : schema.WellFormed)
    (grouped : Overrides) (order : SavedOrder) : SavedOnce schema grouped order :=
  fun _ _ => List.nodup_iff_count_le_one.mp h.keys _

theorem savedOrder_of_isSome {read : Except Text (Option SavedOrder)}
    (h : (read.toOption.bind id).isSome = true) : ∃ order, read = .ok (some order) := by
  obtain ⟨order, horder⟩ := Option.isSome_iff_exists.mp h
  cases read with
  | error message => cases horder
  | ok found => exact ⟨order, congrArg _ horder⟩

/-- An accepted record never runs out of range. Its plan replays every saved
occurrence exactly when no value it leaves out belongs to two options, and a
stored plan comes back exactly when no bare value deserializes as an override. -/
theorem order_replayed_iff (serde : Serde) (schema : OptionSchema) :
    (∀ (values : KeyMap Text Json) (order : SavedOrder),
      savedOrder serde values = .ok (some order) →
      ∃ plan, savedPlan schema values order = some plan ∧
        (Replays schema (overridesFromMap values) order plan ↔
          SavedOnce schema (overridesFromMap values) order)) ∧
    ∀ (plan : OrderedPlan) (order : SavedOrder),
      savedOrder serde (storedPlan plan) = .ok (some order) →
      (savedPlan schema (storedPlan plan) order = some plan ↔
        ∀ key value, (overridesFromPlan plan).get key = some value → value.misread = false) := by
  refine ⟨fun values order h => ?_, fun plan order h => savedPlan_storedPlan_iff schema h⟩
  obtain ⟨-, -, hcounted⟩ := savedOrder_eq_some h
  obtain ⟨recorded, hreplay, -, hreplays⟩ := @replays_iff schema _ _ hcounted
  exact ⟨_, by simp [savedPlan, hreplay], hreplays⟩

/-- Two tags around another option. -/
def interleavedPlan : OrderedPlan :=
  [⟨"a".toList, none, [.text "1"]⟩, ⟨"b".toList, some "-b".toList, [.text "2"]⟩,
    ⟨"a".toList, none, [.text "3"]⟩]

def pairSchema : OptionSchema := .ofOptions [.ofFlag "a" "--a" 1, .ofFlag "b" "-b" 1]

theorem order_replayed_iff_interleaved :
    ∃ order, savedOrder .plain (storedPlan interleavedPlan) = .ok (some order) ∧
      savedPlan pairSchema (storedPlan interleavedPlan) order = some interleavedPlan ∧
      ∃ plan, savedPlan pairSchema (storedPlan interleavedPlan) order = some plan ∧
        Replays pairSchema (overridesFromMap (storedPlan interleavedPlan)) order plan := by
  have haccepted : ((savedOrder .plain (storedPlan interleavedPlan)).toOption.bind id).isSome =
      true := by decide +kernel
  obtain ⟨order, hordered⟩ := savedOrder_of_isSome haccepted
  obtain ⟨hreplays, hback⟩ := order_replayed_iff .plain pairSchema
  refine ⟨order, hordered, (hback _ _ hordered).mpr ?_, ?_⟩
  · have hplain : ((overridesFromPlan interleavedPlan).entries.all fun e => !e.2.misread) = true :=
      by decide
    intro key value hvalue
    simpa using List.all_eq_true.mp hplain _ (KeyMap.get_eq_some.mp hvalue)
  · obtain ⟨plan, hplan, hiff⟩ := hreplays _ _ hordered
    refine ⟨plan, hplan, hiff.mpr fun key _ => ?_⟩
    have hnodup : (schemaKeys pairSchema).Nodup := by decide
    exact List.nodup_iff_count_le_one.mp hnodup key

/-- The only occurrence of a key, whose value has the shape of an override. -/
def lookalikePlan : OrderedPlan := [⟨"tag".toList, none, [lookalike]⟩]

theorem lookalike_replayed_as_word :
    ∃ (schema : OptionSchema) (plan : OrderedPlan) (order : SavedOrder),
      (∀ occurrence ∈ plan, occurrence.key ∈ schemaKeys schema) ∧
      savedOrder .plain (storedPlan plan) = .ok (some order) ∧
      savedPlan schema (storedPlan plan) order ≠ some plan := by
  refine ⟨.ofOptions [.ofFlag "tag" "--tag" 1], lookalikePlan, planRecord lookalikePlan, by decide,
    by rfl, ?_⟩
  intro heq
  have hwords := congrArg (fun plan : Option OrderedPlan =>
    plan.map fun plan => plan.map fun o => o.values.map Json.isString) heq
  revert hwords
  decide

end AioLM.Options
