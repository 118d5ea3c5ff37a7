import Mathlib.Data.List.Forall2
import Mathlib.Data.List.Perm.Subperm
import AioLM.JsonFields

/-!
Equality of JSON values up to how a number is held: what two readers that differ
only in that make of one document.
-/

set_option autoImplicit false

namespace AioLM.Json

/-- The relation `same` on numbers carried through arrays and objects. -/
inductive Same (same : Number → Number → Prop) : Json → Json → Prop
  | null : Same same .null .null
  | bool (b : Bool) : Same same (.bool b) (.bool b)
  | number {a b : Number} : same a b → Same same (.number a) (.number b)
  | string (t : Text) : Same same (.string t) (.string t)
  | array {xs ys : List Json} : xs.length = ys.length →
      (∀ (i : Nat) v w, xs[i]? = some v → ys[i]? = some w → Same same v w) →
      Same same (.array xs) (.array ys)
  | object {fs gs : List (Text × Json)} :
      (∀ k, (lookup k fs).isSome = (lookup k gs).isSome) →
      (∀ k v w, lookup k fs = some v → lookup k gs = some w → Same same v w) →
      Same same (.object fs) (.object gs)

section Build

variable {same : Number → Number → Prop}

theorem Same.items {xs ys : List Json} (h : List.Forall₂ (Same same) xs ys) :
    Same same (.array xs) (.array ys) := by
  refine .array h.length_eq fun i v w hv hw => ?_
  obtain ⟨hi, rfl⟩ := List.getElem?_eq_some_iff.mp hv
  obtain ⟨hj, rfl⟩ := List.getElem?_eq_some_iff.mp hw
  exact h.get hi hj

/-- Fields of the same names in the same order, each with the same value. -/
abbrev SameFields (same : Number → Number → Prop) :
    List (Text × Json) → List (Text × Json) → Prop :=
  List.Forall₂ fun e f => e.1 = f.1 ∧ Same same e.2 f.2

theorem SameFields.append {fs fs' gs gs' : List (Text × Json)} (h : SameFields same fs gs)
    (h' : SameFields same fs' gs') : SameFields same (fs ++ fs') (gs ++ gs') :=
  List.rel_append h h'

theorem Same.fields {fs gs : List (Text × Json)} (h : SameFields same fs gs) :
    Same same (.object fs) (.object gs) := by
  have hlookup (k : Text) : (lookup k fs = none ∧ lookup k gs = none) ∨
      ∃ v w, lookup k fs = some v ∧ lookup k gs = some w ∧ Same same v w := by
    induction h with
    | nil => exact .inl ⟨rfl, rfl⟩
    | @cons e f fs gs hone hrest ih =>
      obtain ⟨l, v⟩ := e
      obtain ⟨m, w⟩ := f
      obtain ⟨rfl, hsame⟩ := hone
      by_cases hk : l = k
      · exact .inr ⟨v, w, by simp [lookup, hk], by simp [lookup, hk], hsame⟩
      · simp only [lookup, if_neg hk]
        exact ih
  refine .object (fun k => ?_) fun k v w hv hw => ?_
  · rcases hlookup k with ⟨hfs, hgs⟩ | ⟨v, w, hfs, hgs, -⟩ <;> simp [hfs, hgs]
  · rcases hlookup k with ⟨hfs, -⟩ | ⟨v', w', hfs, hgs, hsame⟩
    · rw [hfs] at hv
      cases hv
    · rw [hfs] at hv
      rw [hgs] at hw
      cases hv
      cases hw
      exact hsame

/-- Equal values are the same, whatever `same` takes for equal numbers. -/
theorem Same.of_beq (hnumber : ∀ a b : Number, a.beq b = true → same a b) {v w : Json} :
    Json.beq v w = true → Same same v w := by
  refine @Json.rec (fun v => ∀ w, Json.beq v w = true → Same same v w)
    (fun xs => ∀ ys, Json.beqItems xs ys = true → List.Forall₂ (Same same) xs ys)
    (fun fs => ∀ gs, Json.beqFields fs gs = true → SameFields same fs gs)
    (fun e => ∀ w, Json.beq e.2 w = true → Same same e.2 w)
    ?_ ?_ ?_ ?_ ?_ ?_ ?_ ?_ ?_ ?_ ?_ v w
  · intro w h
    cases w <;> first | exact .null | cases h
  · intro b w h
    cases w with
    | bool c =>
      obtain rfl : b = c := by simpa [Json.beq] using h
      exact .bool b
    | null | number | string | array | object => cases h
  · intro n w h
    cases w with
    | number m => exact .number (hnumber n m h)
    | null | bool | string | array | object => cases h
  · intro t w h
    cases w with
    | string u =>
      obtain rfl : t = u := by simpa [Json.beq] using h
      exact .string t
    | null | bool | number | array | object => cases h
  · intro xs ih w h
    cases w with
    | array ys => exact .items (ih ys h)
    | null | bool | number | string | object => cases h
  · intro fs ih w h
    cases w with
    | object gs => exact .fields (ih gs h)
    | null | bool | number | string | array => cases h
  · intro ys h
    cases ys with
    | nil => exact .nil
    | cons y ys => cases h
  · intro x xs hx hxs ys h
    cases ys with
    | nil => cases h
    | cons y ys =>
      rw [Json.beqItems, Bool.and_eq_true] at h
      exact .cons (hx y h.1) (hxs ys h.2)
  · intro gs h
    cases gs with
    | nil => exact .nil
    | cons g gs => cases h
  · intro e fs he hfs gs h
    cases gs with
    | nil => cases h
    | cons g gs =>
      obtain ⟨k, v⟩ := e
      obtain ⟨l, w⟩ := g
      simp only [Json.beqFields, Bool.and_eq_true, beq_iff_eq] at h
      exact .cons ⟨h.1.1, he w h.1.2⟩ (hfs gs h.2)
  · intro k v ih w h
    exact ih w h

end Build

theorem Sorted.keys_subset {fs gs : List (Text × Json)} (hf : Sorted fs)
    (hlength : fs.length = gs.length) (hsub : ∀ e ∈ fs, (lookup e.1 gs).isSome) (k : Text) :
    (lookup k fs).isSome = (lookup k gs).isSome := by
  have hmem {k : Text} {xs : List (Text × Json)} : (lookup k xs).isSome = true ↔ k ∈ xs.map (·.1) := by
    induction xs with
    | nil => simp [lookup]
    | cons e xs ih =>
      rw [lookup, List.map_cons, List.mem_cons]
      by_cases hk : e.1 = k
      · simp [hk]
      · rw [if_neg hk, ih]
        exact ⟨.inr, fun h => h.resolve_left (Ne.symm hk)⟩
  have hnodup : (fs.map (·.1)).Nodup := List.pairwise_map.mpr (hf.imp fun hlt => hlt.ne)
  have hsubset : fs.map (·.1) ⊆ gs.map (·.1) := by
    intro k hk
    obtain ⟨e, he, rfl⟩ := List.mem_map.mp hk
    exact hmem.mp (hsub e he)
  have hperm : (fs.map (·.1)).Perm (gs.map (·.1)) :=
    (hnodup.subperm hsubset).perm_of_length_le (by simp [hlength])
  rw [Bool.eq_iff_iff, hmem, hmem]
  exact hperm.mem_iff

end AioLM.Json
