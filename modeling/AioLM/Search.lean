import Mathlib.Algebra.Order.Ring.Int
import Mathlib.Data.List.Infix

/-!
The first occurrence of a list inside another, and what the search does not look at.
-/

set_option autoImplicit false

namespace AioLM.Search

variable {α : Type} [DecidableEq α]

/-- The offset of the first occurrence. -/
def find (needle : List α) : List α → Option Nat
  | [] => if needle.isEmpty then some 0 else none
  | x :: xs => if needle.isPrefixOf (x :: xs) then some 0 else (find needle xs).map (· + 1)

variable {needle xs : List α} {n : Nat}

theorem find_of_isPrefix (h : needle <+: xs) : find needle xs = some 0 := by
  cases xs with
  | nil => simp_all [find]
  | cons x xs => rw [find, if_pos (List.isPrefixOf_iff_prefix.mpr h)]

theorem find_cons {x : α} (h : ¬ needle <+: x :: xs) :
    find needle (x :: xs) = (find needle xs).map (· + 1) := by
  rw [find, if_neg (by rwa [List.isPrefixOf_iff_prefix])]

theorem find_eq_some_iff :
    find needle xs = some n ↔ n ≤ xs.length ∧ needle <+: xs.drop n ∧
      ∀ k < n, ¬ needle <+: xs.drop k := by
  induction xs generalizing n with
  | nil =>
    cases needle with
    | nil =>
      simp only [find, List.isEmpty_nil, if_true, Option.some.injEq, List.length_nil,
        List.drop_nil, List.prefix_rfl, not_true, true_and]
      constructor
      · intro h
        simp [← h]
      · intro h
        omega
    | cons y ys => simp [find]
  | cons x xs ih =>
    by_cases hfirst : needle <+: x :: xs
    · rw [find_of_isPrefix hfirst]
      constructor
      · intro h
        cases h
        exact ⟨Nat.zero_le _, hfirst, fun k hk => absurd hk (Nat.not_lt_zero k)⟩
      · intro h
        cases n with
        | zero => rfl
        | succ n => exact absurd hfirst (h.2.2 0 (Nat.succ_pos n))
    · rw [find_cons hfirst]
      cases n with
      | zero => simp [hfirst]
      | succ n =>
        simp only [Option.map_eq_some_iff, Nat.add_right_cancel_iff, exists_eq_right, ih,
          List.length_cons, Nat.add_le_add_iff_right, List.drop_succ_cons]
        refine and_congr_right fun _ => and_congr_right fun _ => ⟨?_, ?_⟩
        · intro h k hk
          cases k with
          | zero => exact hfirst
          | succ k => exact h k (by omega)
        · intro h k hk
          exact h (k + 1) (by omega)

theorem find_eq_none_iff : find needle xs = none ↔ ¬ needle <:+: xs := by
  induction xs with
  | nil => cases needle <;> simp [find]
  | cons x xs ih =>
    by_cases hfirst : needle <+: x :: xs
    · simp [find_of_isPrefix hfirst, hfirst.isInfix]
    · rw [find_cons hfirst, Option.map_eq_none_iff, ih, List.infix_cons_iff]
      simp [hfirst]

theorem find_split (h : find needle xs = some n) :
    xs = xs.take n ++ needle ++ xs.drop (n + needle.length) := by
  obtain ⟨after, hafter⟩ := (find_eq_some_iff.mp h).2.1
  have hdrop : xs.drop (n + needle.length) = after := by
    rw [← List.drop_drop, ← hafter, List.drop_left]
  rw [hdrop, List.append_assoc, hafter, List.take_append_drop]

theorem find_append (h : find needle xs = some n) (ys : List α) :
    find needle (xs ++ ys) = some n := by
  rw [find_eq_some_iff] at h ⊢
  obtain ⟨hle, hocc, hfirst⟩ := h
  refine ⟨?_, ?_, ?_⟩
  · rw [List.length_append]
    omega
  · rw [List.drop_append_of_le_length hle]
    exact hocc.trans (List.prefix_append _ _)
  · intro k hk hearly
    have hlong := hocc.length_le
    rw [List.length_drop] at hlong
    rw [List.drop_append_of_le_length (by omega)] at hearly
    refine hfirst k hk (List.prefix_of_prefix_length_le hearly (List.prefix_append _ _) ?_)
    rw [List.length_drop]
    omega

/-- An occurrence that was not there before ends in what was added. -/
theorem length_lt_of_find {ys : List α} (hnone : find needle xs = none)
    (h : find needle (xs ++ ys) = some n) : xs.length < n + needle.length := by
  by_contra hinside
  obtain ⟨-, hocc, -⟩ := find_eq_some_iff.mp h
  rw [List.drop_append_of_le_length (by omega)] at hocc
  refine find_eq_none_iff.mp hnone (List.IsInfix.trans (List.IsPrefix.isInfix ?_)
    (List.drop_suffix n xs).isInfix)
  refine List.prefix_of_prefix_length_le hocc (List.prefix_append _ _) ?_
  rw [List.length_drop]
  omega

theorem find_of_append {before after : List α}
    (h : find needle (before ++ needle ++ after) =
    some before.length) (after' : List α) :
    find needle (before ++ needle ++ after') = some before.length := by
  refine find_append ?_ after'
  rw [find_eq_some_iff] at h ⊢
  obtain ⟨-, -, hfirst⟩ := h
  refine ⟨by simp, by simp, ?_⟩
  intro k hk hearly
  refine hfirst k hk (hearly.trans ?_)
  have hlong : k ≤ (before ++ needle).length := by
    simp
    omega
  rw [List.drop_append_of_le_length hlong]
  exact List.prefix_append _ _

/-- A word whose first letter does not come again cannot overlap itself, so it is
first found behind a text without it. -/
theorem find_border {x : α} {tail : List α} (hborder : x ∉ tail) {before : List α}
    (h : ¬ (x :: tail) <:+: before) (after : List α) :
    find (x :: tail) (before ++ (x :: tail) ++ after) = some before.length := by
  rw [find_eq_some_iff]
  refine ⟨by simp, by simp, ?_⟩
  intro k hk hearly
  by_cases hinside : k + (x :: tail).length ≤ before.length
  · refine h (List.IsInfix.trans (List.IsPrefix.isInfix ?_) (List.drop_suffix k before).isInfix)
    rw [List.append_assoc, List.drop_append_of_le_length (by omega)] at hearly
    refine List.prefix_of_prefix_length_le hearly (List.prefix_append _ _) ?_
    rw [List.length_drop]
    omega
  · obtain ⟨rest, hrest⟩ := hearly
    have hget : (before ++ (x :: tail) ++ after)[before.length]? = some x := by
      rw [List.append_assoc, List.getElem?_append_right (Nat.le_refl _)]
      simp
    have hshift : ((before ++ (x :: tail) ++ after).drop k)[before.length - k]? = some x := by
      rw [List.getElem?_drop, ← hget]
      congr 1
      omega
    rw [← hrest, List.getElem?_append_left (by omega)] at hshift
    obtain ⟨m, hm⟩ : ∃ m, before.length - k = m + 1 := ⟨before.length - k - 1, by omega⟩
    rw [hm, List.getElem?_cons_succ] at hshift
    exact hborder (List.mem_of_getElem? hshift)

end AioLM.Search
