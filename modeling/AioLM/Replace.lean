import Mathlib.Algebra.Order.Ring.Int
import Mathlib.Data.List.Infix

/-!
Every occurrence of a list inside another replaced, from the left and without
overlaps. What is put in its place can bring the list back, unless the two have no
element in common.
-/

set_option autoImplicit false

namespace AioLM.Replace

variable {α : Type} {needle replacement xs : List α}

theorem infix_of_append {before after : List α} (hne : needle ≠ [])
    (hapart : ∀ y ∈ before, y ∉ needle) (h : needle <:+: before ++ after) : needle <:+: after := by
  induction before with
  | nil => exact h
  | cons y before ih =>
    rcases List.infix_cons_iff.mp h with hfirst | hrest
    · obtain ⟨z, tail, rfl⟩ := List.exists_cons_of_ne_nil hne
      obtain rfl := (List.cons_prefix_cons.mp hfirst).1
      exact absurd List.mem_cons_self (hapart z List.mem_cons_self)
    · exact ih (fun y hy => hapart y (List.mem_cons_of_mem _ hy)) hrest

variable [DecidableEq α]

/-- The first `skip` elements belong to an occurrence that is replaced already. -/
def replaceFrom (needle replacement : List α) : Nat → List α → List α
  | _, [] => []
  | skip + 1, _ :: xs => replaceFrom needle replacement skip xs
  | 0, x :: xs =>
    if needle.isPrefixOf (x :: xs) then
      replacement ++ replaceFrom needle replacement (needle.length - 1) xs
    else x :: replaceFrom needle replacement 0 xs

def replaceAll (needle replacement xs : List α) : List α := replaceFrom needle replacement 0 xs

variable {x : α} {skip : Nat}

theorem replaceFrom_cons (h : ¬ needle <+: x :: xs) :
    replaceFrom needle replacement 0 (x :: xs) = x :: replaceFrom needle replacement 0 xs := by
  rw [replaceFrom, if_neg (by rwa [List.isPrefixOf_iff_prefix])]

theorem replaceFrom_of_isPrefix (h : needle <+: x :: xs) :
    replaceFrom needle replacement 0 (x :: xs) =
      replacement ++ replaceFrom needle replacement (needle.length - 1) xs := by
  rw [replaceFrom, if_pos (List.isPrefixOf_iff_prefix.mpr h)]

theorem prefix_of_replaceFrom (hreplacement : replacement ≠ [])
    (hapart : ∀ y ∈ replacement, y ∉ needle) {piece : List α} (hpiece : ∀ y ∈ piece, y ∈ needle)
    (h : piece <+: replaceFrom needle replacement 0 xs) : piece <+: xs := by
  induction xs generalizing piece with
  | nil => exact h
  | cons x xs ih =>
    cases piece with
    | nil => exact List.nil_prefix
    | cons y piece =>
      by_cases hoccurs : needle <+: x :: xs
      · rw [replaceFrom_of_isPrefix hoccurs] at h
        obtain ⟨z, tail, rfl⟩ := List.exists_cons_of_ne_nil hreplacement
        obtain rfl := (List.cons_prefix_cons.mp h).1
        exact absurd (hpiece y List.mem_cons_self) (hapart y List.mem_cons_self)
      · rw [replaceFrom_cons hoccurs] at h
        obtain ⟨rfl, hrest⟩ := List.cons_prefix_cons.mp h
        exact List.cons_prefix_cons.mpr
          ⟨rfl, ih (fun z hz => hpiece z (List.mem_cons_of_mem _ hz)) hrest⟩

theorem not_infix_replaceFrom (hne : needle ≠ []) (hreplacement : replacement ≠ [])
    (hapart : ∀ y ∈ replacement, y ∉ needle) :
    ¬ needle <:+: replaceFrom needle replacement skip xs := by
  induction xs generalizing skip with
  | nil => simpa [replaceFrom] using hne
  | cons x xs ih =>
    cases skip with
    | succ skip => exact ih
    | zero =>
      by_cases hoccurs : needle <+: x :: xs
      · rw [replaceFrom_of_isPrefix hoccurs]
        exact fun h => ih (infix_of_append hne hapart h)
      · intro h
        rw [replaceFrom_cons hoccurs] at h
        rcases List.infix_cons_iff.mp h with hfirst | hrest
        · rw [← replaceFrom_cons hoccurs] at hfirst
          exact hoccurs (prefix_of_replaceFrom hreplacement hapart (fun _ hy => hy) hfirst)
        · exact ih hrest

theorem not_infix_replaceAll (hne : needle ≠ []) (hreplacement : replacement ≠ [])
    (hapart : ∀ y ∈ replacement, y ∉ needle) (xs : List α) :
    ¬ needle <:+: replaceAll needle replacement xs :=
  not_infix_replaceFrom hne hreplacement hapart

example : replaceAll [1, 1] [0] [1, 1, 1, 2, 1, 1] = [0, 1, 2, 0] := by decide

end AioLM.Replace
