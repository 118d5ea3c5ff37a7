import Mathlib.Tactic

/-!
Arithmetic of a machine word that stays at its greatest value instead of
overflowing. A chain of such sums is the sum clipped once at its end, so an
answer below the greatest value is exact.
-/

set_option autoImplicit false

namespace AioLM

namespace Saturating

variable {top a b c d : Nat}

def add (top a b : Nat) : Nat := min (a + b) top

def mul (top a b : Nat) : Nat := min (a * b) top

@[gcongr] theorem add_le_add (hac : a ≤ c) (hbd : b ≤ d) : add top a b ≤ add top c d :=
  min_le_min_right top (Nat.add_le_add hac hbd)

@[gcongr] theorem mul_le_mul (hac : a ≤ c) (hbd : b ≤ d) : mul top a b ≤ mul top c d :=
  min_le_min_right top (Nat.mul_le_mul hac hbd)

theorem add_of_le (h : a + b ≤ top) : add top a b = a + b := min_eq_left h

/-- A sum clipped in between is clipped at the end just the same. -/
@[simp] theorem add_min_left : add top (min a top) b = add top a b := by
  simp only [add]
  omega

@[simp] theorem add_min_right : add top a (min b top) = add top a b := by
  simp only [add]
  omega

theorem le_add_left (h : a ≤ top) : a ≤ add top a b := by
  simp only [add]
  omega

theorem le_mul_left (h : a ≤ top) (hb : 1 ≤ b) : a ≤ mul top a b :=
  le_min (Nat.le_mul_of_pos_right a hb) h

theorem foldl_add {α : Type} (f : α → Nat) (xs : List α) (start : Nat) :
    xs.foldl (fun sum x => add top sum (f x)) (min start top) =
      min (start + (xs.map f).sum) top := by
  induction xs generalizing start with
  | nil => simp
  | cons x xs ih =>
    rw [List.foldl_cons, add_min_left, add, ih, List.map_cons, List.sum_cons, Nat.add_assoc]

theorem min_sum_min {α : Type} (f : α → Nat) (xs : List α) (start : Nat) :
    min (start + (xs.map fun x => min (f x) top).sum) top = min (start + (xs.map f).sum) top := by
  induction xs generalizing start with
  | nil => rfl
  | cons x xs ih =>
    have hclipped := ih (start + min (f x) top)
    simp only [List.map_cons, List.sum_cons]
    omega

end Saturating

def u64Max : Nat := 2 ^ 64 - 1

/-- `u64::saturating_add` -/
def saturatingAdd (a b : Nat) : Nat := Saturating.add u64Max a b

/-- `u64::saturating_mul` -/
def saturatingMul (a b : Nat) : Nat := Saturating.mul u64Max a b

end AioLM
