import AioLM.OptionPlan

/-!
Ordered and grouped resolution agree: an empty order record leaves the canonical
order, and the plan it makes resolves to what the grouped values resolve to.
-/

set_option autoImplicit false

namespace AioLM.Options

open Fallible

def emptyRecord : Json :=
  .object [("occurrences".toList, .array []), ("version".toList, Json.int 1)]

def emptyOrder : SavedOrder := ⟨orderVersion, []⟩

def savedEntries (schema : OptionSchema) (grouped : Overrides) : List (Text × Override) :=
  ((schema.options.map (·.key)).filterMap fun key => (grouped.get key).map (key, ·)) ++
    grouped.entries.filter fun e => !schema.options.any (·.key = e.1)

theorem savedPlan_emptyOrder (schema : OptionSchema) (grouped : Overrides) :
    savedPlanFromGrouped schema grouped emptyOrder =
      (savedEntries schema grouped).flatMap fun e => plannedRows e.1 e.2 := by
  rw [savedEntries, List.flatMap_append, Lists.flatMap_filterMap, Lists.flatMap_filter,
    List.flatMap_map]
  simp only [savedPlanFromGrouped, emptyOrder, recordedPlan, List.append_nil]
  congr 2
  funext option
  cases grouped.get option.key <;> rfl

theorem savedEntries_perm {schema : OptionSchema} (hkeys : (schema.options.map (·.key)).Nodup)
    (grouped : Overrides) : (savedEntries schema grouped).Perm grouped.entries := by
  have hin : ∀ e : Text × Override,
      e ∈ (schema.options.map (·.key)).filterMap (fun key => (grouped.get key).map (key, ·)) ↔
        e ∈ grouped.entries ∧ e.1 ∈ schema.options.map (·.key) := by
    intro e
    rw [List.mem_filterMap, ← KeyMap.get_eq_some (v := e.2)]
    constructor
    · rintro ⟨key, hkey, he⟩
      obtain ⟨value, hvalue, rfl⟩ := Option.map_eq_some_iff.mp he
      exact ⟨hvalue, hkey⟩
    · rintro ⟨hvalue, hkey⟩
      exact ⟨e.1, hkey, by rw [hvalue]; rfl⟩
  have hany : ∀ key : Text, (!schema.options.any (·.key = key)) = true ↔
      key ∉ schema.options.map (·.key) := by
    intro key
    simp
  refine (List.perm_ext_iff_of_nodup ?_ grouped.entries_nodup).mpr ?_
  · rw [savedEntries, List.nodup_append']
    refine ⟨hkeys.filterMap ?_, grouped.entries_nodup.filter _, ?_⟩
    · intro key key' e he he'
      obtain ⟨_, -, heq⟩ := Option.map_eq_some_iff.mp he
      obtain ⟨_, -, heq'⟩ := Option.map_eq_some_iff.mp he'
      exact congrArg Prod.fst (heq.trans heq'.symm)
    · intro e he he'
      obtain ⟨-, hknown⟩ := (hin e).mp he
      exact (hany e.1).mp (List.mem_filter.mp he').2 hknown
  · intro e
    rw [savedEntries, List.mem_append, hin, List.mem_filter, hany]
    tauto

theorem valuesAt_plannedRows (key : Text) (e : Text × Override) :
    KeyMap.valuesAt key ((plannedRows e.1 e.2).map fun o => (o.key, o.saved)) =
      if e.1 = key then e.2.rows else [] := by
  simp only [KeyMap.valuesAt, plannedRows, PlannedOccurrence.saved, Override.rows,
    List.filterMap_map, Function.comp_def]
  split <;> simp

theorem groupPlan_savedPlan {schema : OptionSchema} (hkeys : (schema.options.map (·.key)).Nodup)
    {grouped : Overrides}
    (hocc : ∀ key value, grouped.get key = some value → value.occurrences ≠ []) :
    groupPlan (savedPlanFromGrouped schema grouped emptyOrder) = grouped.map Override.rows := by
  have hperm := savedEntries_perm hkeys grouped
  have hnodup : ((savedEntries schema grouped).map (·.1)).Nodup :=
    (hperm.map _).nodup_iff.mpr grouped.keys_nodup
  have hrows : ∀ key : Text,
      KeyMap.valuesAt key ((savedPlanFromGrouped schema grouped emptyOrder).map
        fun o => (o.key, o.saved)) =
      ((savedEntries schema grouped).filter (·.1 = key)).flatMap fun e => e.2.rows := by
    intro key
    rw [savedPlan_emptyOrder, List.map_flatMap, KeyMap.valuesAt, List.filterMap_flatMap,
      Lists.flatMap_filter]
    congr 1
    funext e
    simp only [decide_eq_true_eq]
    exact valuesAt_plannedRows key e
  apply KeyMap.ext_get
  intro key
  rw [groupPlan, KeyMap.get_group, KeyMap.get_map, hrows]
  cases hget : grouped.get key with
  | none =>
    have hfilter : (savedEntries schema grouped).filter (·.1 = key) = [] := by
      rw [List.filter_eq_nil_iff]
      intro e he hkey
      have hsome := KeyMap.get_eq_some.mpr (hperm.mem_iff.mp he)
      rw [of_decide_eq_true hkey, hget] at hsome
      cases hsome
    rw [hfilter]
    rfl
  | some value =>
    have hmem : (key, value) ∈ savedEntries schema grouped :=
      hperm.mem_iff.mpr (KeyMap.get_eq_some.mp hget)
    have hfilter := Lists.filter_key_eq hnodup hmem
    have hne : value.rows ≠ [] := by
      simpa [Override.rows] using hocc key value hget
    simp only at hfilter
    rw [hfilter]
    simp [hne]

theorem length_savedPlan {schema : OptionSchema} (hkeys : (schema.options.map (·.key)).Nodup)
    (grouped : Overrides) : (savedPlanFromGrouped schema grouped emptyOrder).length =
      (grouped.entries.map fun e => e.2.occurrences.length).sum := by
  rw [savedPlan_emptyOrder, ((savedEntries_perm hkeys grouped).flatMap_right _).length_eq,
    List.length_flatMap]
  simp [plannedRows]

namespace OptionSchema

variable {serde : Serde} {schema : OptionSchema} {selected : List Text} {grouped : Overrides}

def pieces (serde : Serde) (schema : OptionSchema) (grouped : Overrides)
    (option : OptionDefinition) : List Placed :=
  ((grouped.get option.key).elim [] (plannedRows option.key)).filterMap (schema.placed serde)

theorem pieces_spec (hschema : schema.WellFormed)
    (h : Resolves serde schema selected (grouped.map Override.rows))
    (hocc : ∀ key value, grouped.get key = some value → value.occurrences ≠ [])
    {option : OptionDefinition} (ho : option ∈ schema.options) :
    (schema.emitted serde selected (grouped.map Override.rows)).get option.key = none ∧
        schema.pieces serde grouped option = [] ∨
      (schema.emitted serde selected (grouped.map Override.rows)).get option.key =
          some ((schema.pieces serde grouped option).flatMap (·.words)) ∧
        option.scope <+: selected ∧ schema.pieces serde grouped option ≠ [] ∧
        ∀ p ∈ schema.pieces serde grouped option,
          p.depth = option.scope.length ∧ p.position = option.position := by
  cases hget : grouped.get option.key with
  | none =>
    left
    refine ⟨emitted_get_none (by rw [KeyMap.get_map, hget]; rfl), ?_⟩
    simp [pieces, hget]
  | some value =>
    have hrows : (grouped.map Override.rows).get option.key = some value.rows := by
      rw [KeyMap.get_map, hget]
      rfl
    obtain ⟨o, words, hoption, hscope, -, hwords, hemitted⟩ := h.option hrows
    rw [hschema.option_key ho, Option.some.injEq] at hoption
    subst hoption
    obtain ⟨-, rfl⟩ := OptionDefinition.resolveRows_split hwords
    by_cases htarget : option.target = .request
    · left
      refine ⟨by simpa [htarget] using hemitted, ?_⟩
      simp [pieces, hget, plannedRows, placed, hschema.option_key ho, htarget]
    · right
      have hlaunch : option.target = .launch := by
        cases hkind : option.target <;> simp_all
      have hpieces : schema.pieces serde grouped option = value.rows.map fun row =>
          ⟨option.scope.length, option.position, option.wordsOf serde row⟩ := by
        simp [pieces, hget, plannedRows, placed, hschema.option_key ho, hlaunch, Override.rows,
          List.filterMap_map, Function.comp_def, PlannedOccurrence.saved]
      refine ⟨?_, hscope, ?_, ?_⟩
      · rw [hemitted, if_pos hlaunch, hpieces, List.flatMap_map]
      · simpa [hpieces, Override.rows] using hocc option.key value hget
      · simp [hpieces]

theorem savedPlan_placed
    (h : Resolves serde schema selected (grouped.map Override.rows)) :
    (savedPlanFromGrouped schema grouped emptyOrder).filterMap (schema.placed serde) =
      schema.options.flatMap (schema.pieces serde grouped) := by
  have hknown : grouped.entries.filter (fun e => !schema.options.any (·.key = e.1)) = [] := by
    rw [List.filter_eq_nil_iff]
    intro e he hunknown
    have hrows : (grouped.map Override.rows).get e.1 = some e.2.rows := by
      rw [KeyMap.get_map, KeyMap.get_eq_some.mpr he]
      rfl
    obtain ⟨option, -, hoption, -⟩ := h.option hrows
    obtain ⟨hmem, hkey⟩ := option_eq_some hoption
    have hall : ∀ o ∈ schema.options, o.key ≠ e.1 := by simpa using hunknown
    exact hall option hmem hkey
  rw [savedPlan_emptyOrder, savedEntries, hknown, List.append_nil, Lists.flatMap_filterMap,
    List.flatMap_map, List.filterMap_flatMap]
  congr 1
  funext option
  rw [pieces]
  cases grouped.get option.key <;> rfl

theorem flagWordsAt_savedPlan (hschema : schema.WellFormed)
    (h : Resolves serde schema selected (grouped.map Override.rows))
    (hocc : ∀ key value, grouped.get key = some value → value.occurrences ≠ [])
    {depth : Nat} (hdepth : depth ≤ selected.length) :
    flagWordsAt (schema.options.flatMap (schema.pieces serde grouped)) depth =
      schema.flagsAt selected (schema.emitted serde selected (grouped.map Override.rows)) depth := by
  rw [flagWordsAt, List.flatMap_assoc, flagsAt]
  refine List.flatMap_congr fun option ho => ?_
  obtain ⟨hnone, hnil⟩ | ⟨hsome, hscope, -, hall⟩ := pieces_spec hschema h hocc ho
  · simp [hnone, hnil]
  · simp only [hsome, scope_eq_take_iff hscope hdepth, Option.getD_some]
    have hsame : (schema.pieces serde grouped option).flatMap
          (fun p => if p.depth = depth ∧ p.position = none then p.words else []) =
        (schema.pieces serde grouped option).flatMap fun p =>
          if option.scope.length = depth ∧ option.position = none then p.words else [] := by
      refine List.flatMap_congr fun p hp => ?_
      rw [(hall p hp).1, (hall p hp).2]
    rw [hsame]
    split <;> simp

def fillers (schema : OptionSchema) (selected : List Text) (words : KeyMap Text (List Text))
    (depth : Nat) : List OptionDefinition :=
  schema.options.filter fun option => decide (option.scope = selected.take depth) &&
    option.position.isSome && (words.get option.key).isSome

def slotOf (words : KeyMap Text (List Text)) (option : OptionDefinition) : Slot :=
  ⟨option.position.getD 0, option.key, (words.get option.key).getD []⟩

theorem slotsAt_eq (schema : OptionSchema) (selected : List Text)
    (words : KeyMap Text (List Text)) (depth : Nat) :
    schema.slotsAt selected words depth =
      ((schema.fillers selected words depth).insertionSort
        fun a b => a.position.getD 0 ≤ b.position.getD 0).map (slotOf words) := by
  rw [slotsAt, Lists.filterMap_eq_map_filter (p := fun option =>
      decide (option.scope = selected.take depth) && option.position.isSome &&
        (words.get option.key).isSome) (g := slotOf words)]
  · exact (List.map_insertionSort (fun a b : OptionDefinition =>
      a.position.getD 0 ≤ b.position.getD 0) (fun a b : Slot => a.position ≤ b.position)
      (slotOf words) _ fun a _ b _ => Iff.rfl).symm
  · intro option
    by_cases hscope : option.scope = selected.take depth
    · cases hposition : option.position <;> cases hwords : words.get option.key <;>
        simp [slotFor, hscope, hposition, hwords, slotOf]
    · simp [slotFor, hscope]

theorem slotWordsAt_savedPlan (hschema : schema.WellFormed)
    (h : Resolves serde schema selected (grouped.map Override.rows))
    (hocc : ∀ key value, grouped.get key = some value → value.occurrences ≠ [])
    {depth : Nat} (hdepth : depth ≤ selected.length) :
    (slotWordsAt (schema.options.flatMap (schema.pieces serde grouped)) depth).flatten =
      ((schema.slotsAt selected (schema.emitted serde selected (grouped.map Override.rows))
        depth).map (·.words)).flatten := by
  set words := schema.emitted serde selected (grouped.map Override.rows)
  have hrows : (schema.options.flatMap (schema.pieces serde grouped)).filterMap (fun p =>
        if p.depth = depth then p.position.map fun position => (position, p.words) else none) =
      (schema.fillers selected words depth).flatMap fun option =>
        (schema.pieces serde grouped option).map fun p => (option.position.getD 0, p.words) := by
    rw [List.filterMap_flatMap, fillers, Lists.flatMap_filter]
    refine List.flatMap_congr fun option ho => ?_
    obtain ⟨hnone, hnil⟩ | ⟨hsome, hscope, -, hall⟩ := pieces_spec hschema h hocc ho
    · simp [hnil]
    · have hsame : (schema.pieces serde grouped option).filterMap (fun p =>
            if p.depth = depth then p.position.map fun position => (position, p.words)
            else none) =
          (schema.pieces serde grouped option).filterMap fun p =>
            if option.scope.length = depth then
              option.position.map fun position => (position, p.words)
            else none := by
        refine List.filterMap_congr fun p hp => ?_
        rw [(hall p hp).1, (hall p hp).2]
      simp only [hsame, words, hsome, scope_eq_take_iff hscope hdepth]
      cases hposition : option.position <;> by_cases hlength : option.scope.length = depth <;>
        simp [hlength]
  have hkey : ∀ option, ∀ y ∈ (schema.pieces serde grouped option).map
      (fun p => (option.position.getD 0, p.words)), y.1 = option.position.getD 0 := by
    simp
  have hne : ∀ option ∈ schema.fillers selected words depth,
      (schema.pieces serde grouped option).map
        (fun p => (option.position.getD 0, p.words)) ≠ [] := by
    intro option ho
    obtain ⟨hmem, hfills⟩ := List.mem_filter.mp ho
    obtain ⟨hnone, -⟩ | ⟨-, -, hpieces, -⟩ := pieces_spec hschema h hocc hmem
    · simp [words, hnone] at hfills
    · simpa using hpieces
  rw [slotWordsAt, hrows, Lists.insertionSort_flatMap hkey hne, ← List.flatMap_def,
    List.flatMap_assoc, slotsAt_eq, List.map_map, ← List.flatMap_def]
  refine List.flatMap_congr fun option ho => ?_
  obtain ⟨hmem, hfills⟩ := List.mem_filter.mp ((List.mem_insertionSort _).mp ho)
  obtain ⟨hnone, -⟩ | ⟨hsome, -, -, -⟩ := pieces_spec hschema h hocc hmem
  · simp [words, hnone] at hfills
  · simp [slotOf, words, hsome, List.flatMap_map]

theorem planWordsAt_savedPlan (hschema : schema.WellFormed)
    (h : Resolves serde schema selected (grouped.map Override.rows))
    (hocc : ∀ key value, grouped.get key = some value → value.occurrences ≠ [])
    {depth : Nat} (hdepth : depth ≤ selected.length) :
    planWordsAt ((savedPlanFromGrouped schema grouped emptyOrder).filterMap
        (schema.placed serde)) depth =
      schema.depthWords selected (schema.emitted serde selected (grouped.map Override.rows))
        depth := by
  have hslots := slotWordsAt_savedPlan hschema h hocc hdepth
  rw [savedPlan_placed h, planWordsAt, depthWords, flagWordsAt_savedPlan hschema h hocc hdepth]
  simp only [hslots, hasDash_eq]
  by_cases hdash : (((schema.slotsAt selected (schema.emitted serde selected
      (grouped.map Override.rows)) depth).map (·.words)).flatten.any (startsWith '-')) = true
  · have hdelimits := delimits_of_dash (h.depth depth hdepth) ((hasDash_eq _).trans hdash)
    simp [hdash, hdelimits]
  · simp [hdash]

theorem resolvePlan_savedPlan
    (hocc : ∀ key value, grouped.get key = some value → value.occurrences ≠ [])
    (htotal : (grouped.entries.map fun e => e.2.occurrences.length).sum ≤ maxPlan) :
    schema.resolvePlan serde selected (savedPlanFromGrouped schema grouped emptyOrder) =
      schema.resolve serde selected grouped := by
  rw [resolvePlan_eq, resolve, resolveOccurrences]
  cases hvalid : schema.validate serde with
  | error message => simp [validated, hvalid, Except.mapError, bind, Except.bind]
  | ok u =>
    have hschema := wellFormed_of_validate hvalid
    have hlength := length_savedPlan hschema.keys grouped
    have hvalidated : schema.validated serde = .ok () := by
      simp [validated, hvalid, Except.mapError]
    have hfits : (savedPlanFromGrouped schema grouped emptyOrder).length ≤ maxPlan := by omega
    rw [hvalidated, groupPlan_savedPlan hschema.keys hocc, require, if_pos hfits]
    cases hresolved : schema.resolveValidated serde selected (grouped.map Override.rows) with
    | error issues => simp [bind, Except.bind]
    | ok resolved =>
      obtain ⟨hresolves, hargv, hboundaries⟩ := resolveValidated_eq_ok hresolved
      have hlayout := layOut_congr fun depth hdepth =>
        planWordsAt_savedPlan hschema hresolves hocc hdepth
      simp [bind, Except.bind, hlayout, ← hargv, ← hboundaries, pure, Except.pure]

end OptionSchema

theorem overridesFromMap_insert (values : KeyMap Text Json) (record : Json) :
    overridesFromMap (values.insert orderKey record) = overridesFromMap values := by
  apply KeyMap.ext_get
  intro key
  simp only [overridesFromMap, KeyMap.get_filterMap, KeyMap.get_insert]
  by_cases hkey : key = orderKey
  · cases values.get key <;> simp [hkey]
  · simp [hkey]

theorem checkedSavedOrder_emptyRecord (serde : Serde) (values : KeyMap Text Json) :
    checkedSavedOrder serde (values.insert orderKey emptyRecord) =
      .ok (some (emptyOrder, overridesFromMap values)) := by
  have hget : (values.insert orderKey emptyRecord).get orderKey = some emptyRecord := by
    rw [KeyMap.get_insert, if_pos rfl]
  have htext : emptyRecord.compact serde.floatText =
      "\x7b\"occurrences\":[],\"version\":1\x7d".toList := rfl
  have hsize : Text.utf8Len (emptyRecord.compact serde.floatText) ≤ maxOrderBytes := by
    rw [htext]
    decide
  have hversion : checkVersion emptyRecord = .ok () := rfl
  have hrecord : SavedOrder.ofJson emptyRecord = some emptyOrder := rfl
  simp only [checkedSavedOrder, hget, overridesFromMap_insert, hrecord, hversion, require,
    if_pos hsize]
  rfl

/-- Adding the empty order record to saved values that have none changes
nothing: the plan it makes resolves exactly as the grouped values do. -/
theorem ordered_grouped_agree (serde : Serde) (schema : OptionSchema) (selected : List Text)
    (values : KeyMap Text Json) (hnone : values.get orderKey = none)
    (hocc : ∀ key value, (overridesFromMap values).get key = some value →
      value.occurrences ≠ [])
    (htotal : ((overridesFromMap values).entries.map fun e => e.2.occurrences.length).sum ≤
      maxPlan) :
    (schema.resolveSaved serde selected (values.insert orderKey emptyRecord)) =
        (schema.resolveSaved serde selected values) ∧
      schema.resolvePlan serde selected
          (savedPlanFromGrouped schema (overridesFromMap values) emptyOrder) =
        schema.resolve serde selected (overridesFromMap values) := by
  have hplan : schema.resolvePlan serde selected
      (savedPlanFromGrouped schema (overridesFromMap values) emptyOrder) =
        schema.resolve serde selected (overridesFromMap values) :=
    OptionSchema.resolvePlan_savedPlan hocc htotal
  refine ⟨?_, hplan⟩
  have hplain : checkedSavedOrder serde values = .ok none := by
    simp [checkedSavedOrder, hnone]
  have hkeys : emptyOrder.keys.find? schema.sentWithRequests = none := rfl
  simp only [OptionSchema.resolveSaved, checkedSavedOrder_emptyRecord, hplain, hkeys, hplan]

def tagSchema : OptionSchema :=
  .ofOptions [{ OptionDefinition.ofFlag "tag" "--tag" 1 with repeatable := .confirmed true },
    .ofFlag "alias" "--alias" 1,
    { key := "prompt".toList, position := some 0, kind := .confirmed .text
      arity := .confirmed ⟨1, some 1⟩, target := .launch }]

def tagValues : KeyMap Text Json where
  entries := [("alias".toList, .text "a"), ("prompt".toList, .text "-x"),
    ("tag".toList, .object [("occurrences".toList, .array [.array [.text "b"],
      .array [.text "c"]])])]
  sorted := by decide

theorem ordered_grouped_agree_tags :
    tagSchema.resolveSaved .plain [] (tagValues.insert orderKey emptyRecord) =
        tagSchema.resolveSaved .plain [] tagValues ∧
      ((tagSchema.resolveSaved .plain [] tagValues).toOption.map (·.argv)) =
        some (["--tag", "b", "--tag", "c", "--alias", "a", "--", "-x"].map String.toList) := by
  refine ⟨(ordered_grouped_agree .plain tagSchema [] tagValues (by decide) ?_ (by decide)).1,
    by decide +kernel⟩
  intro key value h
  have hall : ((overridesFromMap tagValues).entries.all fun e => !e.2.occurrences.isEmpty) = true :=
    by decide
  have hsome := List.all_eq_true.mp hall _ (KeyMap.get_eq_some.mp h)
  simpa using hsome

end AioLM.Options
