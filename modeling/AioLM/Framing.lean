import Mathlib.Algebra.Order.Ring.Int
import Mathlib.Data.List.Basic

/-!
Cutting a stream into lines at a separator: the complete lines, and the rest
after the last separator.
-/

set_option autoImplicit false

namespace AioLM.Framing

variable {α : Type} [DecidableEq α] (sep : α)

def frames : List α → List (List α) × List α
  | [] => ([], [])
  | x :: xs =>
    if x = sep then ([] :: (frames xs).1, (frames xs).2)
    else
      match (frames xs).1 with
      | [] => ([], x :: (frames xs).2)
      | line :: lines => ((x :: line) :: lines, (frames xs).2)

def lines (xs : List α) : List (List α) := (frames sep xs).1

def rest (xs : List α) : List α := (frames sep xs).2

variable {sep}

theorem frames_line {line : List α} (h : sep ∉ line) (xs : List α) :
    frames sep (line ++ sep :: xs) = (line :: lines sep xs, rest sep xs) := by
  induction line with
  | nil => simp [frames, lines, rest]
  | cons x line ih =>
    have hx : x ≠ sep := fun hx => h (hx ▸ List.mem_cons_self)
    have hline : sep ∉ line := fun hl => h (List.mem_cons_of_mem x hl)
    simp [frames, hx, ih hline]

theorem frames_rest {xs : List α} (h : sep ∉ xs) : frames sep xs = ([], xs) := by
  induction xs with
  | nil => rfl
  | cons x xs ih =>
    have hx : x ≠ sep := fun hx => h (hx ▸ List.mem_cons_self)
    have hxs : sep ∉ xs := fun hl => h (List.mem_cons_of_mem x hl)
    simp [frames, hx, ih hxs]

@[simp] theorem lines_line {line : List α} (h : sep ∉ line) (xs : List α) :
    lines sep (line ++ sep :: xs) = line :: lines sep xs := by
  simp [lines, frames_line h]

@[simp] theorem rest_line {line : List α} (h : sep ∉ line) (xs : List α) :
    rest sep (line ++ sep :: xs) = rest sep xs := by
  simp [rest, frames_line h]

theorem lines_of_not_mem {xs : List α} (h : sep ∉ xs) : lines sep xs = [] := by
  simp [lines, frames_rest h]

theorem rest_of_not_mem {xs : List α} (h : sep ∉ xs) : rest sep xs = xs := by
  simp [rest, frames_rest h]

/-- A stream is a separator-free rest, or a line before a shorter stream. -/
theorem frames_induction (sep : α) {P : List α → Prop} (hrest : ∀ xs, sep ∉ xs → P xs)
    (hline : ∀ line xs, sep ∉ line → P xs → P (line ++ sep :: xs)) (xs : List α) : P xs := by
  by_cases h : sep ∈ xs
  · obtain ⟨line, after, rfl, hnot⟩ := List.eq_append_cons_of_mem h
    exact hline line after hnot (frames_induction sep hrest hline after)
  · exact hrest xs h
termination_by xs.length

theorem rest_not_mem (xs : List α) : sep ∉ rest sep xs := by
  induction xs using frames_induction sep with
  | hrest xs h => rwa [rest_of_not_mem h]
  | hline line xs h ih => rwa [rest_line h]

theorem frames_append (sep : α) (xs ys : List α) :
    lines sep (xs ++ ys) = lines sep xs ++ lines sep (rest sep xs ++ ys) ∧
      rest sep (xs ++ ys) = rest sep (rest sep xs ++ ys) := by
  induction xs using frames_induction sep with
  | hrest xs h => simp [lines_of_not_mem h, rest_of_not_mem h]
  | hline line xs h ih => simp [h, ih]

theorem frames_filter (sep : α) (xs : List α) :
    xs.filter (fun x => x ≠ sep) = (lines sep xs).flatten ++ rest sep xs := by
  have hkeep : ∀ line : List α, sep ∉ line → line.filter (fun x => x ≠ sep) = line := by
    intro line h
    rw [List.filter_eq_self]
    intro x hx
    simpa using fun heq : x = sep => h (heq ▸ hx)
  induction xs using frames_induction sep with
  | hrest xs h =>
    rw [hkeep xs h, lines_of_not_mem h, rest_of_not_mem h]
    rfl
  | hline line xs h ih =>
    rw [List.filter_append, hkeep line h, List.filter_cons_of_neg (by simp), ih, lines_line h,
      rest_line h, List.flatten_cons, List.append_assoc]

end AioLM.Framing
