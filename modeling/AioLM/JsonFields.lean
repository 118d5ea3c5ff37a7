import Mathlib.Data.Char
import Mathlib.Data.List.Lex
import AioLM.Json
import AioLM.KeyMap

/-!
Objects as the maps they are: insertion and removal of a field, and values whose
objects list their fields in key order.
-/

set_option autoImplicit false

namespace AioLM.Json

/-- `Map::insert` -/
def insertField (key : String) (value : Json) (fields : List (Text × Json)) :
    List (Text × Json) :=
  KeyMap.alterEntries key.toList (fun _ => value) fields

/-- `Map::remove` -/
def removeField (key : String) (fields : List (Text × Json)) : List (Text × Json) :=
  fields.filter fun e => e.1 ≠ key.toList

def Sorted (fields : List (Text × Json)) : Prop := fields.Pairwise fun a b => a.1 < b.1

mutual

def Ordered : Json → Prop
  | .array items => OrderedItems items
  | .object fields => Sorted fields ∧ OrderedFields fields
  | _ => True

def OrderedItems : List Json → Prop
  | [] => True
  | v :: rest => Ordered v ∧ OrderedItems rest

def OrderedFields : List (Text × Json) → Prop
  | [] => True
  | (_, v) :: rest => Ordered v ∧ OrderedFields rest

end

variable {fields : List (Text × Json)} {key : String} {value : Json}

theorem find_eq_lookup (k : Text) (fields : List (Text × Json)) :
    KeyMap.find k fields = lookup k fields := by
  induction fields with
  | nil => rfl
  | cons e fields ih =>
    rw [KeyMap.find, lookup, ih]
    congr

theorem Sorted.insertField (h : Sorted fields) : Sorted (insertField key value fields) :=
  KeyMap.sorted_alterEntries h

theorem Sorted.removeField (h : Sorted fields) : Sorted (removeField key fields) :=
  h.filter _

theorem lookup_insertField (h : Sorted fields) (k : Text) :
    lookup k (insertField key value fields) =
      if k = key.toList then some value else lookup k fields := by
  rw [← find_eq_lookup, ← find_eq_lookup, Json.insertField, KeyMap.find_alterEntries h]
  congr

theorem lookup_removeField (fields : List (Text × Json)) (k : Text) :
    lookup k (removeField key fields) = if k = key.toList then none else lookup k fields := by
  induction fields with
  | nil => simp [Json.removeField, lookup]
  | cons e fields ih =>
    obtain ⟨l, v⟩ := e
    simp only [Json.removeField, List.filter_cons] at ih ⊢
    by_cases hl : l = key.toList
    · simp only [hl, ne_eq, not_true, decide_false, Bool.false_eq_true, if_false, ih, lookup]
      by_cases hk : k = key.toList
      · simp [hk]
      · simp [hk, Ne.symm hk]
    · simp only [hl, ne_eq, not_false_eq_true, decide_true, if_true, lookup, ih]
      by_cases hk : k = key.toList
      · subst hk
        simp [hl]
      · simp [hk]

theorem lookup_replaceTwo {a b : String} (h : Sorted fields) (k : Text) :
    lookup k (insertField key value (removeField a (removeField b fields))) =
      if k = key.toList then some value
      else if k = a.toList ∨ k = b.toList then none else lookup k fields := by
  rw [lookup_insertField h.removeField.removeField, lookup_removeField, lookup_removeField]
  by_cases ha : k = a.toList
  · simp only [ha, true_or, if_true]
  · simp only [ha, false_or, if_false]

theorem lookup_replaceOne {a b : String} {v w : Json} (h : Sorted fields) (k : Text) :
    lookup k (insertField a v (insertField b w (removeField key fields))) =
      if k = a.toList then some v
      else if k = b.toList then some w
      else if k = key.toList then none else lookup k fields := by
  rw [lookup_insertField h.removeField.insertField, lookup_insertField h.removeField,
    lookup_removeField]

theorem Sorted.ext {fields' : List (Text × Json)} (h : Sorted fields) (h' : Sorted fields')
    (hlookup : ∀ k, lookup k fields = lookup k fields') : fields = fields' := by
  have hmaps : (⟨fields, h⟩ : KeyMap Text Json) = ⟨fields', h'⟩ := by
    refine KeyMap.ext_get fun k => ?_
    rw [KeyMap.get, KeyMap.get, find_eq_lookup, find_eq_lookup]
    exact hlookup k
  exact congrArg KeyMap.entries hmaps

theorem Sorted.alter_self {k : Text} (h : Sorted fields) (hk : lookup k fields = some value) :
    KeyMap.alterEntries k (fun _ => value) fields = fields := by
  refine Sorted.ext (KeyMap.sorted_alterEntries h) h fun l => ?_
  rw [← find_eq_lookup, KeyMap.find_alterEntries h, find_eq_lookup]
  split
  · rename_i hl
    rw [hl, hk]
  · rfl

/-- Putting two fields in the place of one and then that one in theirs gives the object
back exactly when it had neither of the two. -/
theorem replace_back_iff {a b : String} {v w : Json} (h : Sorted fields)
    (ha : a.toList ≠ key.toList) (hb : b.toList ≠ key.toList) :
    insertField key value (removeField a (removeField b
        (insertField a v (insertField b w (removeField key fields))))) =
      insertField key value fields ↔ lookup b.toList fields = none ∧ lookup a.toList fields = none := by
  have hmiddle : Sorted (insertField a v (insertField b w (removeField key fields))) :=
    h.removeField.insertField.insertField
  constructor
  · intro heq
    have hgone (k : Text) := congrArg (lookup k) heq
    simp only [lookup_replaceTwo hmiddle, lookup_insertField h] at hgone
    have hgoneb := hgone b.toList
    have hgonea := hgone a.toList
    rw [if_neg hb, if_neg hb, if_pos (.inr rfl)] at hgoneb
    rw [if_neg ha, if_neg ha, if_pos (.inl rfl)] at hgonea
    exact ⟨hgoneb.symm, hgonea.symm⟩
  · intro ⟨hnob, hnoa⟩
    refine Sorted.ext hmiddle.removeField.removeField.insertField h.insertField fun k => ?_
    rw [lookup_replaceTwo hmiddle, lookup_replaceOne h, lookup_insertField h]
    by_cases hkey : k = key.toList
    · simp only [hkey, if_true]
    · by_cases hka : k = a.toList
      · simp only [hka, if_neg ha, true_or, if_true, hnoa]
      · by_cases hkb : k = b.toList
        · simp only [hkb, if_neg hb, or_true, if_true, hnob]
        · simp only [hkey, hka, hkb, or_self, if_false]

theorem mem_of_lookup {k : Text} {v : Json} (h : lookup k fields = some v) : (k, v) ∈ fields := by
  rw [← find_eq_lookup] at h
  exact KeyMap.mem_of_find h

theorem OrderedItems.mem {items : List Json} (h : OrderedItems items) {v : Json}
    (hv : v ∈ items) : Ordered v := by
  induction items with
  | nil => cases hv
  | cons w items ih =>
    rw [OrderedItems] at h
    rcases List.mem_cons.mp hv with rfl | hv
    · exact h.1
    · exact ih h.2 hv

theorem OrderedItems.of_forall {items : List Json} (h : ∀ v ∈ items, Ordered v) :
    OrderedItems items := by
  induction items with
  | nil => trivial
  | cons w items ih =>
    obtain ⟨hw, hitems⟩ := List.forall_mem_cons.mp h
    exact ⟨hw, ih hitems⟩

theorem OrderedFields.of_forall (h : ∀ e ∈ fields, Ordered e.2) : OrderedFields fields := by
  induction fields with
  | nil => trivial
  | cons e fields ih =>
    obtain ⟨he, hfields⟩ := List.forall_mem_cons.mp h
    exact ⟨he, ih hfields⟩

theorem OrderedFields.lookup {k : Text} {v : Json} (h : OrderedFields fields)
    (hv : Json.lookup k fields = some v) : Ordered v := by
  induction fields with
  | nil => cases hv
  | cons e fields ih =>
    obtain ⟨l, w⟩ := e
    rw [OrderedFields] at h
    rw [Json.lookup] at hv
    split at hv
    · cases hv
      exact h.1
    · exact ih h.2 hv

theorem Ordered.sorted (h : Ordered (.object fields)) : Sorted fields := by
  rw [Ordered] at h
  exact h.1

theorem Ordered.lookup {k : Text} {v : Json} (h : Ordered (.object fields))
    (hv : Json.lookup k fields = some v) : Ordered v := by
  rw [Ordered] at h
  exact h.2.lookup hv

theorem Ordered.item {items : List Json} (h : Ordered (.array items)) {v : Json}
    (hv : v ∈ items) : Ordered v := by
  rw [Ordered] at h
  exact h.mem hv

end AioLM.Json
