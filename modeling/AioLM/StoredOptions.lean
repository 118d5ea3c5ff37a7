import AioLM.OptionPlan

/-!
Overrides as a profile stores them. One value alone is stored bare and the
decoder tells an override by its shape, so a bare value of that shape is read
as something else.
-/

set_option autoImplicit false

namespace AioLM.Options

open Fallible

namespace Override

/-- `serde_json::to_value` -/
def toJson (value : Override) : Json :=
  .object [("occurrences".toList, .array (value.occurrences.map .array)),
    ("spelling".toList, value.spelling.elim .null .string)]

def stored (value : Override) : Json :=
  match value.spelling, value.occurrences with
  | none, [[bare]] => bare
  | _, _ => value.toJson

def misread (value : Override) : Bool :=
  match value.spelling, value.occurrences with
  | none, [[bare]] => (ofJson bare).isSome
  | _, _ => false

end Override

def mapFromOverrides (overrides : Overrides) : KeyMap Text Json := overrides.map Override.stored

def OptionSchema.resolveStored (serde : Serde) (schema : OptionSchema) (scope : List Text)
    (stored : KeyMap Text Json) : Except (List OptionIssue) ResolvedOptions :=
  schema.resolveSaved serde scope stored

theorem mapM_asArray (rows : List (List Json)) :
    (rows.map Json.array).mapM Json.asArray = some rows := by
  induction rows with
  | nil => rfl
  | cons row rows ih => simp [Json.asArray, ih]

theorem eq_map_of_mapM_asArray {items : List Json} {rows : List (List Json)}
    (h : items.mapM Json.asArray = some rows) : items = rows.map Json.array := by
  induction items generalizing rows with
  | nil =>
    cases h
    rfl
  | cons item items ih =>
    simp only [List.mapM_cons, Option.bind_eq_bind, Option.bind_eq_some_iff, pure,
      Option.some.injEq] at h
    obtain ⟨row, hrow, more, hmore, rfl⟩ := h
    rw [List.map_cons, ← ih hmore, Json.asArray_eq_some hrow]

theorem optionalText_elim (spelling : Option Text) :
    optionalText (some (spelling.elim .null .string)) = some spelling := by
  cases spelling <;> rfl

namespace Override

variable {value : Override} {bare : Json}

theorem get_toJson : value.toJson.get "occurrences" =
      some (.array (value.occurrences.map .array)) ∧
    value.toJson.get "spelling" = some (value.spelling.elim .null .string) := by
  constructor <;> rfl

theorem ofJson_toJson (value : Override) : ofJson value.toJson = some value := by
  have hfields : value.toJson.asObject =
      some [("occurrences".toList, .array (value.occurrences.map .array)),
        ("spelling".toList, value.spelling.elim .null .string)] := rfl
  simp only [ofJson, hfields, get_toJson, optionalText_elim, Json.asArray, Option.bind_eq_bind,
    Option.bind_some, mapM_asArray]
  rfl

theorem get_occurrences_of_ofJson (h : (ofJson bare).isSome) :
    (bare.get "occurrences").isSome := by
  unfold ofJson at h
  cases hget : bare.get "occurrences" with
  | some v => rfl
  | none =>
    cases hobject : bare.asObject <;> simp [hget, hobject] at h

theorem read_toJson (value : Override) : read value.toJson = value := by
  simp [read, get_toJson, ofJson_toJson]

theorem read_of_ofJson_none (h : ofJson bare = none) : read bare = ⟨none, [[bare]]⟩ := by
  simp [read, h]

theorem read_of_ofJson_some {inner : Override} (h : ofJson bare = some inner) :
    read bare = inner := by
  have hsome := get_occurrences_of_ofJson (by rw [h]; rfl : (ofJson bare).isSome)
  simp [read, hsome, h]

theorem sizeOf_lookup {key : Text} {v : Json} {fields : List (Text × Json)}
    (h : Json.lookup key fields = some v) : sizeOf v < sizeOf fields := by
  induction fields with
  | nil => cases h
  | cons field fields ih =>
    obtain ⟨k, w⟩ := field
    simp only [Json.lookup] at h
    split at h
    · cases h
      simp only [List.cons.sizeOf_spec, Prod.mk.sizeOf_spec]
      omega
    · have hlt := ih h
      simp only [List.cons.sizeOf_spec]
      omega

theorem occurrences_of_ofJson {inner : Override} (h : ofJson bare = some inner) :
    ∃ fields, bare = .object fields ∧ Json.lookup "occurrences".toList fields =
      some (.array (inner.occurrences.map .array)) := by
  simp only [ofJson, Option.bind_eq_bind, Option.bind_eq_some_iff] at h
  obtain ⟨fields, hfields, h⟩ := h
  obtain rfl := Json.asObject_eq_some hfields
  split at h
  · simp only [Option.bind_eq_some_iff, pure, Option.some.injEq] at h
    obtain ⟨spelling, -, v, hget, items, hitems, rows, hrows, rfl⟩ := h
    obtain rfl := Json.asArray_eq_some hitems
    refine ⟨fields, rfl, ?_⟩
    rw [← eq_map_of_mapM_asArray hrows]
    exact hget
  · cases h

/-- No value is the only value of the override it deserializes as. -/
theorem ofJson_ne_bare : ofJson bare ≠ some ⟨none, [[bare]]⟩ := by
  intro h
  obtain ⟨fields, hbare, hlookup⟩ := occurrences_of_ofJson h
  have hlt := sizeOf_lookup hlookup
  rw [hbare] at hlt
  simp at hlt
  omega

theorem read_stored_iff (value : Override) :
    read value.stored = value ↔ value.misread = false := by
  obtain ⟨spelling, occurrences⟩ := value
  unfold stored misread
  simp only
  split
  · rename_i bare
    cases hinner : ofJson bare with
    | none => simp [read_of_ofJson_none hinner]
    | some inner =>
      have hne : inner ≠ ⟨none, [[bare]]⟩ := fun heq => ofJson_ne_bare (heq ▸ hinner)
      simp [read_of_ofJson_some hinner, hne]
  · simp [read_toJson]

end Override

theorem get_overridesFromMap (map : KeyMap Text Json) (key : Text) :
    (overridesFromMap map).get key =
      if key = orderKey then none else (map.get key).map Override.read := by
  rw [overridesFromMap, KeyMap.get_filterMap]
  by_cases hkey : key = orderKey
  · cases map.get key <;> simp [hkey]
  · cases map.get key <;> simp [hkey]

theorem get_mapFromOverrides (overrides : Overrides) (key : Text) :
    (mapFromOverrides overrides).get key = (overrides.get key).map Override.stored :=
  KeyMap.get_map _ _ _

/-- Reading what was stored gives the overrides back when no bare value has the
shape of an override, and only then. -/
theorem overrides_round_trip {overrides : Overrides} (h : overrides.get orderKey = none) :
    overridesFromMap (mapFromOverrides overrides) = overrides ↔
      ∀ key value, overrides.get key = some value → value.misread = false := by
  constructor
  · intro heq key value hvalue
    have hkey : key ≠ orderKey := by
      intro hkey
      rw [hkey, h] at hvalue
      cases hvalue
    have hread : ((overridesFromMap (mapFromOverrides overrides)).get key) = some value := by
      rw [heq, hvalue]
    rw [get_overridesFromMap, if_neg hkey, get_mapFromOverrides, hvalue] at hread
    exact (Override.read_stored_iff value).mp (Option.some.inj hread)
  · intro hplain
    refine KeyMap.ext_get fun key => ?_
    rw [get_overridesFromMap, get_mapFromOverrides]
    by_cases hkey : key = orderKey
    · rw [if_pos hkey, hkey, h]
    · rw [if_neg hkey]
      cases hvalue : overrides.get key with
      | none => rfl
      | some value => simp [(Override.read_stored_iff value).mpr (hplain key value hvalue)]

theorem resolveStored_of_none {serde : Serde} {schema : OptionSchema} {scope : List Text}
    {values : KeyMap Text Json} (h : values.get orderKey = none) :
    schema.resolveStored serde scope values =
      schema.resolve serde scope (overridesFromMap values) := by
  simp [OptionSchema.resolveStored, OptionSchema.resolveSaved, checkedSavedOrder, h]

/-- Stored options round-trip exactly when no bare value deserializes as an
override; the values then resolve as the stored map does without its record. -/
theorem stored_round_trip {overrides : Overrides} (h : overrides.get orderKey = none)
    (serde : Serde) (schema : OptionSchema) (scope : List Text) (stored : KeyMap Text Json) :
    (overridesFromMap (mapFromOverrides overrides) = overrides ↔
      ∀ key value, overrides.get key = some value → value.misread = false) ∧
    ((∀ key value, (overridesFromMap stored).get key = some value → value.misread = false) →
      schema.resolveStored serde scope (mapFromOverrides (overridesFromMap stored)) =
        schema.resolveStored serde scope (stored.erase orderKey)) := by
  refine ⟨overrides_round_trip h, fun hplain => ?_⟩
  have hnone : (overridesFromMap stored).get orderKey = none := by
    rw [get_overridesFromMap, if_pos rfl]
  have hback := (overrides_round_trip hnone).mpr hplain
  have herased : overridesFromMap (stored.erase orderKey) = overridesFromMap stored := by
    refine KeyMap.ext_get fun key => ?_
    rw [get_overridesFromMap, get_overridesFromMap]
    by_cases hkey : key = orderKey
    · rw [if_pos hkey, if_pos hkey]
    · rw [if_neg hkey, if_neg hkey, KeyMap.get_erase, if_neg hkey]
  rw [resolveStored_of_none (by rw [get_mapFromOverrides, hnone]; rfl),
    resolveStored_of_none (by rw [KeyMap.get_erase, if_pos rfl]), hback, herased]

def taggedOverrides : Overrides := KeyMap.empty.insert "tag".toList ⟨none, [[.text "x"]]⟩

theorem stored_round_trip_tagged :
    overridesFromMap (mapFromOverrides taggedOverrides) = taggedOverrides := by
  refine (stored_round_trip (by decide) .plain (.ofOptions []) [] .empty).1.mpr ?_
  intro key value h
  rw [taggedOverrides, KeyMap.get_insert] at h
  split at h
  · cases h
    rfl
  · cases h

/-- A JSON value with the shape of an override of one word. -/
def lookalike : Json := .object [("occurrences".toList, .array [.array [.text "x"]])]

/-- Stored bare, the value comes back as the word inside it; a text option then
takes a stored map it refuses without the round trip. -/
theorem lookalike_read_as_override :
    (∃ overrides : Overrides, overrides.get orderKey = none ∧
      overridesFromMap (mapFromOverrides overrides) ≠ overrides) ∧
    ∃ (schema : OptionSchema) (stored : KeyMap Text Json),
      schema.resolveStored .plain [] (mapFromOverrides (overridesFromMap stored)) ≠
        schema.resolveStored .plain [] (stored.erase orderKey) := by
  refine ⟨⟨KeyMap.empty.insert "tag".toList ⟨none, [[lookalike]]⟩, by decide, ?_⟩,
    .ofOptions [.ofFlag "tag" "--tag" 1], KeyMap.empty.insert "tag".toList
      (Override.mk none [[lookalike]]).toJson, ?_⟩
  · intro heq
    have hrows := congrArg (fun o : Overrides =>
      (o.get "tag".toList).map fun value => value.occurrences.map (·.map Json.isString)) heq
    revert hrows
    decide
  · intro heq
    have hok := congrArg Except.isOk heq
    revert hok
    decide +kernel

end AioLM.Options
