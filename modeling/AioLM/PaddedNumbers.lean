import AioLM.Text
import Mathlib.Data.List.Induction
import Mathlib.Data.List.Basic

/-!
Numbers in decimal at a fixed width, filled up with zeros.
-/

set_option autoImplicit false

namespace AioLM.Padded

/-- `{n:0width}` -/
def padded (width n : Nat) : Text :=
  List.replicate (width - (Nat.toDigits 10 n).length) '0' ++ Nat.toDigits 10 n

variable {width m n : Nat} {t u : Text} {c d : Char}

theorem isDigit_of_mem_padded (h : c ∈ padded width n) : c.isDigit := by
  rcases List.mem_append.mp h with h | h
  · rw [List.eq_of_mem_replicate h]
    decide
  · exact Nat.isDigit_of_mem_toDigits (by decide) (by decide) h

theorem length_padded (hwidth : 0 < width) (h : n < 10 ^ width) :
    (padded width n).length = width := by
  have hle := (Nat.length_toDigits_le_iff (b := 10) (by decide) hwidth).mpr h
  rw [padded, List.length_append, List.length_replicate]
  omega

@[simp] theorem value_padded (width n : Nat) : Nat.ofDigitChars 10 (padded width n) 0 = n := by
  simp [padded, Nat.ofDigitChars_append]

theorem padded_injective (h : padded width m = padded width n) : m = n := by
  have hvalue := congrArg (Nat.ofDigitChars 10 · 0) h
  simpa using hvalue

theorem digit_lt (h : c.isDigit) : c.toNat - 48 < 10 ∧ 48 ≤ c.toNat := by
  simp only [Char.isDigit, Bool.and_eq_true, decide_eq_true_eq] at h
  have hlow : 48 ≤ c.toNat := UInt32.le_iff_toNat_le.mp h.1
  have hhigh : c.toNat ≤ 57 := UInt32.le_iff_toNat_le.mp h.2
  omega

theorem value_concat (t : Text) (c : Char) :
    Nat.ofDigitChars 10 (t ++ [c]) 0 = 10 * Nat.ofDigitChars 10 t 0 + (c.toNat - 48) := by
  rw [Nat.ofDigitChars_append, Nat.ofDigitChars_cons, Nat.ofDigitChars_nil]
  rfl

theorem value_lt (h : ∀ c ∈ t, c.isDigit) : Nat.ofDigitChars 10 t 0 < 10 ^ t.length := by
  induction t using List.reverseRecOn with
  | nil => simp
  | append_singleton t c ih =>
    have hc := (digit_lt (h c (by simp))).1
    have ht := ih fun d hd => h d (by simp [hd])
    rw [value_concat, List.length_append, List.length_singleton, Nat.pow_succ]
    omega

theorem eq_of_value_eq (ht : ∀ c ∈ t, c.isDigit) (hu : ∀ c ∈ u, c.isDigit)
    (hlength : t.length = u.length)
    (hvalue : Nat.ofDigitChars 10 t 0 = Nat.ofDigitChars 10 u 0) : t = u := by
  induction t using List.reverseRecOn generalizing u with
  | nil => exact (List.length_eq_zero_iff.mp hlength.symm).symm
  | append_singleton t c ih =>
    rcases List.eq_nil_or_concat' u with rfl | ⟨u, d, rfl⟩
    · simp at hlength
    · have hc := digit_lt (ht c (by simp))
      have hd := digit_lt (hu d (by simp))
      rw [value_concat, value_concat] at hvalue
      have hlast : c = d := by
        refine Char.toNat_inj.mp ?_
        omega
      have hrest : t = u := by
        refine ih (fun x hx => ht x (by simp [hx])) (fun x hx => hu x (by simp [hx])) ?_ ?_
        · simpa using hlength
        · omega
      rw [hlast, hrest]

theorem padded_value (hne : t ≠ []) (h : ∀ c ∈ t, c.isDigit) :
    padded t.length (Nat.ofDigitChars 10 t 0) = t :=
  eq_of_value_eq (fun _ hc => isDigit_of_mem_padded hc) h
    (length_padded (List.length_pos_iff.mpr hne) (value_lt h)) (value_padded _ _)

theorem utf8Size_of_isDigit (h : c.isDigit) : c.utf8Size = 1 := by
  have hlt := (digit_lt h).1
  have hle : c.val ≤ 127 := by
    rw [UInt32.le_iff_toNat_le]
    have : c.val.toNat - 48 < 10 := hlt
    simp only [UInt32.reduceToNat]
    omega
  simp [Char.utf8Size, hle]

theorem utf8Len_digits (h : ∀ c ∈ t, c.isDigit) : t.utf8Len = t.length := by
  induction t with
  | nil => rfl
  | cons c t ih =>
    rw [Text.utf8Len_cons, ih fun d hd => h d (by simp [hd]), utf8Size_of_isDigit (h c (by simp)),
      List.length_cons, Nat.add_comm]

theorem utf8Len_toDigits_le {k : Nat} (hk : 0 < k) (h : n < 10 ^ k) :
    Text.utf8Len (Nat.toDigits 10 n) ≤ k := by
  rw [utf8Len_digits fun c hc => Nat.isDigit_of_mem_toDigits (by decide) (by decide) hc]
  exact (Nat.length_toDigits_le_iff (by decide) hk).mpr h

end AioLM.Padded
