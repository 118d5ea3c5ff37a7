import AioLM.OptionResolve
import Mathlib.Data.List.ReduceOption

/-!
Ordered plans: occurrences in the order they were given, and the saved order
record that turns grouped values into such a plan.
-/

set_option autoImplicit false

namespace AioLM.Options

open Fallible

/-- Saved key of the order record; no option key begins with `@`. -/
def orderKey : Text := "@option_order".toList

def orderVersion : Nat := 1
def maxOrderBytes : Nat := 65536
def maxPlan : Nat := 512

structure OrderEntry where
  key : Text
  spelling : Option Text

structure SavedOrder where
  version : Nat
  occurrences : List OrderEntry

structure PlannedOccurrence where
  key : Text
  spelling : Option Text
  values : List Json

abbrev OrderedPlan := List PlannedOccurrence

def PlannedOccurrence.saved (occurrence : PlannedOccurrence) : Occurrence :=
  ⟨occurrence.spelling, occurrence.values⟩

/-- `Option<String>` of a field that may be absent. -/
def optionalText : Option Json → Option (Option Text)
  | none | some .null => some none
  | some (.string t) => some (some t)
  | some _ => none

def onlyFields (names : List String) (fields : List (Text × Json)) : Bool :=
  fields.all fun field => names.any fun name => field.1 = name.toList

/-- `Override::deserialize` on an object. -/
def Override.ofJson (value : Json) : Option Override := do
  let fields ← value.asObject
  if onlyFields ["spelling", "occurrences"] fields then
    let spelling ← optionalText (value.get "spelling")
    let rows ← (← value.get "occurrences").asArray
    return ⟨spelling, ← rows.mapM Json.asArray⟩
  else none

def Override.read (value : Json) : Override :=
  let scalar : Override := ⟨none, [[value]]⟩
  if (value.get "occurrences").isSome then (Override.ofJson value).getD scalar else scalar

def overridesFromMap (map : KeyMap Text Json) : Overrides :=
  map.filterMap fun key value => if key = orderKey then none else some (Override.read value)

def OrderEntry.ofJson : Json → Option OrderEntry
  | .object fields =>
    if onlyFields ["key", "spelling"] fields then do
      let key ← (← Json.lookup "key".toList fields).asStr
      return ⟨key, ← optionalText (Json.lookup "spelling".toList fields)⟩
    else none
  | .array [.string key] => some ⟨key, none⟩
  | .array [.string key, spelling] => do return ⟨key, ← optionalText (some spelling)⟩
  | _ => none

/-- `SavedOrder::deserialize`, called on objects whose version is known. -/
def SavedOrder.ofJson (raw : Json) : Option SavedOrder := do
  let fields ← raw.asObject
  if onlyFields ["version", "occurrences"] fields then
    let entries ← (← raw.get "occurrences").asArray
    return ⟨orderVersion, ← entries.mapM OrderEntry.ofJson⟩
  else none

def orderKeyValid (key : Text) : Bool := identifier key

def SavedOrder.byKey (order : SavedOrder) : KeyMap Text (List OrderEntry) :=
  KeyMap.group (order.occurrences.map fun entry => (entry.key, entry))

def SavedOrder.keys (order : SavedOrder) : List Text := order.byKey.entries.map (·.1)

def countText (n : Nat) : Text := Nat.toDigits 10 n

def checkVersion (raw : Json) : Except Text Unit :=
  match (raw.get "version").bind Json.asU64 with
  | some version =>
    require (version = orderVersion)
      ("the saved option order uses version ".toList ++ countText version ++
        ", which this app does not support; the saved values were retained".toList)
  | none => .error "the saved option order has no valid version".toList

def entryFits (entry : OrderEntry) : Bool :=
  orderKeyValid entry.key && entry.spelling.all fun s =>
    !s.isEmpty && decide (Text.utf8Len s ≤ 128) && !s.contains (Char.ofNat 0)

def checkCount (grouped : Overrides) (key : Text) (entries : List OrderEntry) :
    Except Text Unit :=
  match grouped.get key with
  | none =>
    .error ("the saved option order names ".toList ++ key ++ ", which has no saved value".toList)
  | some value => do
    require (value.occurrences.length = entries.length)
      ("the saved option order lists ".toList ++ countText entries.length ++
        " occurrence(s) of ".toList ++ key ++ ", but ".toList ++
        countText value.occurrences.length ++ " are saved".toList)
    require ((entries.head?.bind (·.spelling)) = value.spelling)
      ("the saved option order spells ".toList ++ key ++
        " differently from its saved value".toList)

def checkedSavedOrder (serde : Serde) (values : KeyMap Text Json) :
    Except Text (Option (SavedOrder × Overrides)) :=
  match values.get orderKey with
  | none => .ok none
  | some raw => do
    require (Text.utf8Len (raw.compact serde.floatText) ≤ maxOrderBytes)
      "the saved option order exceeds 64 KiB; the saved values were retained".toList
    checkVersion raw
    match SavedOrder.ofJson raw with
    | none => throw ("the saved option order is malformed: ".toList ++ serde.malformed raw)
    | some order =>
      require (order.occurrences.length ≤ maxPlan)
        "the saved option order has too many occurrences".toList
      require (order.occurrences.all entryFits)
        "the saved option order has an invalid entry".toList
      let grouped := overridesFromMap values
      order.byKey.entries.forM fun e => checkCount grouped e.1 e.2
      return some (order, grouped)

def plannedRows (key : Text) (value : Override) : OrderedPlan :=
  value.occurrences.map fun row => ⟨key, value.spelling, row⟩

/-- The n-th entry of a key takes the n-th saved occurrence; the record was
checked, so there is one. -/
def recordedPlan (grouped : Overrides) : List Text → List OrderEntry → OrderedPlan
  | _, [] => []
  | seen, entry :: entries =>
    let row := (grouped.get entry.key).bind fun value => value.occurrences[seen.count entry.key]?
    ⟨entry.key, entry.spelling, row.getD []⟩ :: recordedPlan grouped (entry.key :: seen) entries

def savedPlanFromGrouped (schema : OptionSchema) (grouped : Overrides) (order : SavedOrder) :
    OrderedPlan :=
  let unrecorded (key : Text) : Bool := !order.keys.contains key
  (schema.options.flatMap fun option =>
      match grouped.get option.key with
      | some value => if unrecorded option.key then plannedRows option.key value else []
      | none => []) ++
    (grouped.entries.flatMap fun e =>
      if unrecorded e.1 && !schema.options.any (·.key = e.1) then plannedRows e.1 e.2 else []) ++
    recordedPlan grouped [] order.occurrences

def entriesOf (key : Text) (order : SavedOrder) : List OrderEntry :=
  order.occurrences.filter (·.key = key)

theorem valuesAt_entries (key : Text) (entries : List OrderEntry) :
    KeyMap.valuesAt key (entries.map fun entry => (entry.key, entry)) =
      entries.filter (·.key = key) := by
  induction entries with
  | nil => rfl
  | cons entry entries ih =>
    rw [List.map_cons, KeyMap.valuesAt_cons, ih]
    by_cases hkey : entry.key = key <;> simp [hkey]

theorem get_byKey (order : SavedOrder) (key : Text) :
    order.byKey.get key =
      if entriesOf key order = [] then none else some (entriesOf key order) := by
  rw [SavedOrder.byKey, KeyMap.get_group, valuesAt_entries]
  rfl

theorem mem_keys {order : SavedOrder} {key : Text} :
    key ∈ order.keys ↔ entriesOf key order ≠ [] := by
  have hget := get_byKey order key
  constructor
  · intro hmem
    obtain ⟨e, he, rfl⟩ := List.mem_map.mp hmem
    rw [KeyMap.get_eq_some.mpr he] at hget
    intro hnil
    rw [if_pos hnil] at hget
    cases hget
  · intro hne
    rw [if_neg hne] at hget
    exact List.mem_map.mpr ⟨_, KeyMap.get_eq_some.mp hget, rfl⟩

/-- A record that names as many occurrences of a key as are saved, the first
with the saved spelling. -/
structure Counted (grouped : Overrides) (order : SavedOrder) : Prop where
  saved : ∀ key ∈ order.keys, ∃ value, grouped.get key = some value ∧
    value.occurrences.length = (entriesOf key order).length ∧
    (entriesOf key order).head?.bind (·.spelling) = value.spelling

theorem checkCount_eq_ok {grouped : Overrides} {key : Text} {entries : List OrderEntry}
    (h : checkCount grouped key entries = .ok ()) :
    ∃ value, grouped.get key = some value ∧ value.occurrences.length = entries.length ∧
      entries.head?.bind (·.spelling) = value.spelling := by
  unfold checkCount at h
  split at h
  · cases h
  · rename_i value hvalue
    simp only [bind_eq_ok, require_eq_ok] at h
    obtain ⟨-, hlength, hspelling⟩ := h
    exact ⟨value, hvalue, hlength, hspelling⟩

theorem checkedSavedOrder_eq_some {serde : Serde} {values : KeyMap Text Json} {order : SavedOrder}
    {grouped : Overrides} (h : checkedSavedOrder serde values = .ok (some (order, grouped))) :
    grouped = overridesFromMap values ∧
      (∃ raw, values.get orderKey = some raw ∧ SavedOrder.ofJson raw = some order) ∧
      (∀ entry ∈ order.occurrences, entryFits entry) ∧
      Counted (overridesFromMap values) order := by
  unfold checkedSavedOrder at h
  split at h
  · cases h
  · rename_i raw hraw
    simp only [bind_eq_ok, require_eq_ok] at h
    obtain ⟨-, -, -, -, h⟩ := h
    split at h
    · cases h
    · rename_i order hrecord
      simp only [bind_eq_ok, require_eq_ok, pure, Except.pure, Except.ok.injEq, Option.some.injEq,
        Prod.mk.injEq] at h
      obtain ⟨-, -, -, hfits, _, hcounts, rfl, rfl⟩ := h
      refine ⟨rfl, ⟨raw, hraw, hrecord⟩, List.all_eq_true.mp hfits, ⟨fun key hkey => ?_⟩⟩
      have hget := get_byKey order key
      rw [if_neg (mem_keys.mp hkey)] at hget
      exact checkCount_eq_ok (forM_eq_ok.mp hcounts _ (KeyMap.get_eq_some.mp hget))

theorem Counted.entry {grouped : Overrides} {order : SavedOrder} (h : Counted grouped order)
    {entry : OrderEntry} (hentry : entry ∈ order.occurrences) :
    ∃ value, grouped.get entry.key = some value ∧
      value.occurrences.length = (order.occurrences.map (·.key)).count entry.key := by
  have hmem : entry ∈ entriesOf entry.key order := List.mem_filter.mpr ⟨hentry, by simp⟩
  obtain ⟨value, hvalue, hlength, -⟩ :=
    h.saved entry.key (mem_keys.mpr (List.ne_nil_of_mem hmem))
  refine ⟨value, hvalue, ?_⟩
  rw [hlength, entriesOf, List.count, List.countP_map, List.countP_eq_length_filter]
  exact congrArg List.length (List.filter_congr fun _ _ => (beq_eq_decide _ _).symm)

structure Placed where
  depth : Nat
  position : Option Nat
  words : List Text

def groupPlan (plan : OrderedPlan) : KeyMap Text (List Occurrence) :=
  KeyMap.group (plan.map fun occurrence => (occurrence.key, occurrence.saved))

def flagWordsAt (placed : List Placed) (depth : Nat) : List Text :=
  placed.flatMap fun p => if p.depth = depth ∧ p.position = none then p.words else []

/-- Positionals keep slot order, never plan order. -/
def slotWordsAt (placed : List Placed) (depth : Nat) : List (List Text) :=
  ((placed.filterMap fun p =>
    if p.depth = depth then p.position.map fun position => (position, p.words)
    else none).insertionSort fun a b => a.1 ≤ b.1).map (·.2)

def planWordsAt (placed : List Placed) (depth : Nat) : List Text :=
  let positional := slotWordsAt placed depth
  flagWordsAt placed depth ++ (if hasDash positional then ["--".toList] else []) ++
    positional.flatten

namespace OptionSchema

variable (serde : Serde) (schema : OptionSchema) (selected : List Text)

def place (occurrence : PlannedOccurrence) : Except (List OptionIssue) (Option Placed) :=
  match schema.option occurrence.key with
  | none => .ok none
  | some option =>
    if option.target = .request then .ok none
    else
      match option.resolveOne serde occurrence.saved with
      | .error message => .error [⟨occurrence.key, message⟩]
      | .ok words => .ok (some ⟨option.scope.length, option.position, words⟩)

def resolvePlan (plan : OrderedPlan) : Except (List OptionIssue) ResolvedOptions := do
  schema.validated serde
  require (plan.length ≤ maxPlan) [⟨[], "too many planned option occurrences".toList⟩]
  let resolved ← schema.resolveValidated serde selected (groupPlan plan)
  let placed ← plan.mapM (schema.place serde)
  let out := layOut selected (planWordsAt placed.reduceOption)
  return ⟨out.scopeBoundaries, out.argv, resolved.request⟩

def sentWithRequests (key : Text) : Bool :=
  schema.options.any fun option => decide (option.key = key) && decide (option.target = .request)

def resolveSaved (values : KeyMap Text Json) : Except (List OptionIssue) ResolvedOptions :=
  match checkedSavedOrder serde values with
  | .error message => .error [⟨orderKey, message⟩]
  | .ok none => schema.resolve serde selected (overridesFromMap values)
  | .ok (some (order, grouped)) =>
    match order.keys.find? schema.sentWithRequests with
    | some key =>
      .error [⟨orderKey, key ++ (" is sent with requests and has no command-line position; " ++
        "remove it from the saved order").toList⟩]
    | none =>
      schema.resolvePlan serde selected (savedPlanFromGrouped schema grouped order)

def placed (occurrence : PlannedOccurrence) : Option Placed :=
  (schema.option occurrence.key).bind fun option =>
    if option.target = .request then none
    else some ⟨option.scope.length, option.position, option.wordsOf serde occurrence.saved⟩

end OptionSchema

theorem saved_mem_groupPlan {plan : OrderedPlan} {occurrence : PlannedOccurrence}
    (h : occurrence ∈ plan) :
    ∃ rows, (groupPlan plan).get occurrence.key = some rows ∧ occurrence.saved ∈ rows := by
  have hmem : occurrence.saved ∈
      KeyMap.valuesAt occurrence.key (plan.map fun o => (o.key, o.saved)) :=
    List.mem_filterMap.mpr ⟨_, List.mem_map.mpr ⟨occurrence, h, rfl⟩, by simp⟩
  refine ⟨_, ?_, hmem⟩
  rw [groupPlan, KeyMap.get_group, if_neg (List.ne_nil_of_mem hmem)]

namespace OptionSchema

variable {serde : Serde} {schema : OptionSchema} {selected : List Text} {plan : OrderedPlan}

theorem Resolves.planned (h : Resolves serde schema selected (groupPlan plan))
    {occurrence : PlannedOccurrence} (hocc : occurrence ∈ plan) :
    ∃ option, schema.option occurrence.key = some option ∧ option.scope <+: selected ∧
      option.managed = none ∧
      option.resolveOne serde occurrence.saved = .ok (option.wordsOf serde occurrence.saved) := by
  obtain ⟨rows, hrows, hmem⟩ := saved_mem_groupPlan hocc
  obtain ⟨option, words, hoption, hscope, hmanaged, hwords, -⟩ := h.option hrows
  have hone := (OptionDefinition.resolveRows_split hwords).1 _ hmem
  exact ⟨option, hoption, hscope, hmanaged, hone⟩

theorem place_eq (h : Resolves serde schema selected (groupPlan plan))
    {occurrence : PlannedOccurrence} (hocc : occurrence ∈ plan) :
    schema.place serde occurrence = .ok (schema.placed serde occurrence) := by
  obtain ⟨option, hoption, -, -, hone⟩ := h.planned hocc
  by_cases htarget : option.target = .request
  · simp [place, placed, hoption, htarget]
  · simp [place, placed, hoption, htarget, hone]

theorem resolvePlan_eq (serde : Serde) (schema : OptionSchema) (selected : List Text)
    (plan : OrderedPlan) : schema.resolvePlan serde selected plan = (do
      schema.validated serde
      require (plan.length ≤ maxPlan) [⟨[], "too many planned option occurrences".toList⟩]
      let resolved ← schema.resolveValidated serde selected (groupPlan plan)
      let out := layOut selected (planWordsAt (plan.filterMap (schema.placed serde)))
      return ⟨out.scopeBoundaries, out.argv, resolved.request⟩) := by
  unfold resolvePlan
  congr 1
  funext _
  congr 1
  funext _
  cases hresolved : schema.resolveValidated serde selected (groupPlan plan) with
  | error issues => rfl
  | ok resolved =>
    obtain ⟨hresolves, -, -⟩ := resolveValidated_eq_ok hresolved
    have hplaced : plan.mapM (schema.place serde) = .ok (plan.map (schema.placed serde)) := by
      rw [mapM_eq_ok, List.forall₂_map_right_iff, List.forall₂_same]
      intro occurrence hocc
      exact place_eq hresolves hocc
    have hreduce : (plan.map (schema.placed serde)).reduceOption =
        plan.filterMap (schema.placed serde) := by
      change (plan.map (schema.placed serde)).filterMap id = _
      rw [List.filterMap_map]
      rfl
    simp only [bind, Except.bind, hplaced, hreduce]

end OptionSchema

end AioLM.Options
