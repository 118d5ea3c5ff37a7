import AioLM.Binary64

/-!
Durations in whole nanoseconds, as floats of seconds and of milliseconds: both are
finite and not negative, and a longer duration has no smaller float.
-/

set_option autoImplicit false

namespace AioLM.Durations

open Binary64 Rounding

def nanosPerSec : Nat := 1000000000

/-- The seconds of a `Duration` are a `u64`. -/
def durations : Nat := 2 ^ 64 * nanosPerSec

/-- `Duration::as_secs_f64` -/
def asSecsF64 (nanos : Nat) : Float :=
  (UInt64.ofNat (nanos / nanosPerSec)).toFloat +
    (UInt64.ofNat (nanos % nanosPerSec)).toFloat / (UInt64.ofNat nanosPerSec).toFloat

def millis (nanos : Nat) : Float := asSecsF64 nanos * 1000.0

theorem toFloat_ofNat {n : Nat} (hn : n < 2 ^ 64) :
    IsNonneg (UInt64.ofNat n).toFloat ∧ value (UInt64.ofNat n).toFloat = shown (n : ℚ) := by
  have h := toFloat_spec (UInt64.ofNat n)
  rwa [UInt64.toNat_ofNat_of_lt' hn] at h

theorem stands_nanosPerSec : Stands (UInt64.ofNat nanosPerSec).toFloat (10 ^ 9) := by
  obtain ⟨hnonneg, hvalue⟩ := toFloat_ofNat (n := nanosPerSec) (by decide)
  rw [shown_natCast (by decide)] at hvalue
  refine stands_of_value hnonneg ?_ (by norm_num)
  rw [hvalue]
  norm_num [nanosPerSec]

theorem stands_thousand : Stands 1000.0 1000 :=
  ⟨8796093022208000, -43, by decide, rfl, by norm_num⟩

def part (nanos : Nat) : ℚ := rounded spec ((nanos % nanosPerSec : Nat) / 10 ^ 9)

def whole (nanos : Nat) : ℚ := rounded spec (nanos / nanosPerSec : Nat)

section Seconds

variable {d d' : Nat}

theorem div_lt (h : d < durations) : d / nanosPerSec < 2 ^ 64 := by
  rw [Nat.div_lt_iff_lt_mul (by decide)]
  exact h

theorem div_le (h : d < durations) : ((d / nanosPerSec : Nat) : ℚ) ≤ 2 ^ 64 := by
  exact_mod_cast (div_lt h).le

theorem whole_le (h : d < durations) : whole d ≤ 2 ^ 64 :=
  (rounded_mono spec (Nat.cast_nonneg _) (div_le h)).trans_eq (rounded_two_pow 64)

theorem mod_div_le (d : Nat) : ((d % nanosPerSec : Nat) : ℚ) / 10 ^ 9 ≤ 2 ^ 0 := by
  have hlt : ((d % nanosPerSec : Nat) : ℚ) ≤ 10 ^ 9 := by
    exact_mod_cast (Nat.mod_lt d (by decide)).le
  exact div_le_one_of_le₀ hlt (by norm_num)

theorem part_le (d : Nat) : part d ≤ 1 :=
  (rounded_mono spec (by positivity) (mod_div_le d)).trans_eq (rounded_two_pow 0)

theorem part_nonneg (d : Nat) : 0 ≤ part d := rounded_nonneg spec _

theorem whole_nonneg (d : Nat) : 0 ≤ whole d := rounded_nonneg spec _

theorem whole_add_part_le (h : d < durations) : whole d + part d ≤ 2 ^ 65 := by
  have hwhole := whole_le h
  have hpart := part_le d
  norm_num at hwhole ⊢
  linarith

def seconds (nanos : Nat) : ℚ := rounded spec (whole nanos + part nanos)

theorem seconds_le (h : d < durations) : seconds d ≤ 2 ^ 65 :=
  (rounded_mono spec (add_nonneg (whole_nonneg d) (part_nonneg d)) (whole_add_part_le h)).trans_eq
    (rounded_two_pow 65)

theorem asSecsF64_spec (h : d < durations) :
    IsNonneg (asSecsF64 d) ∧ value (asSecsF64 d) = (seconds d : ℚ) := by
  obtain ⟨hwhole, hwhole'⟩ := toFloat_ofNat (div_lt h)
  have hmod : d % nanosPerSec < 2 ^ 53 := (Nat.mod_lt d (by decide)).trans (by decide)
  obtain ⟨hrest, hrest'⟩ := toFloat_ofNat (hmod.trans (by decide))
  obtain ⟨hpart, hpart'⟩ := div_spec hrest stands_nanosPerSec
  obtain ⟨hsum, hsum'⟩ := add_spec hwhole hpart
  have hshown := (shown_of_le (by decide) (Nat.cast_nonneg _) (div_le h)).1
  have hshown' := (shown_of_le (by decide) (by positivity) (mod_div_le d)).1
  rw [shown_natCast hmod] at hrest'
  rw [hrest', WithTop.map_coe, hshown'] at hpart'
  rw [hwhole', hshown, hpart', ← WithTop.coe_add] at hsum'
  refine ⟨hsum, hsum'.trans ?_⟩
  exact (shown_of_le (by decide) (add_nonneg (whole_nonneg d) (part_nonneg d))
    (whole_add_part_le h)).1

theorem seconds_mono (h : d ≤ d') : seconds d ≤ seconds d' := by
  have hpos : 0 ≤ whole d + part d := add_nonneg (whole_nonneg d) (part_nonneg d)
  have hdiv : d / nanosPerSec ≤ d' / nanosPerSec := Nat.div_le_div_right h
  rcases Nat.eq_or_lt_of_le hdiv with heq | hlt
  · have hmod : d % nanosPerSec ≤ d' % nanosPerSec := by
      have hd := Nat.div_add_mod d nanosPerSec
      rw [heq] at hd
      refine Nat.le_of_add_le_add_left (le_of_eq_of_le hd (h.trans_eq ?_))
      exact (Nat.div_add_mod d' nanosPerSec).symm
    have hpart : part d ≤ part d' := by
      refine rounded_mono spec (by positivity) (div_le_div_of_nonneg_right ?_ (by norm_num))
      exact_mod_cast hmod
    refine rounded_mono spec hpos ?_
    have hwhole : whole d = whole d' := congrArg (fun n : Nat => rounded spec n) heq
    rw [hwhole]
    linarith
  · have hnext : ((d / nanosPerSec : Nat) : ℚ) + 1 ≤ (d' / nanosPerSec : Nat) := by
      exact_mod_cast hlt
    calc seconds d ≤ rounded spec (whole d + 1) :=
          rounded_mono spec hpos (by linarith [part_le d])
      _ ≤ rounded spec ((d / nanosPerSec : Nat) + 1) := rounded_succ_le (by decide)
      _ ≤ whole d' := rounded_mono spec (by positivity) hnext
      _ = rounded spec (whole d') := (rounded_rounded _).symm
      _ ≤ seconds d' :=
          rounded_mono spec (whole_nonneg d') (le_add_of_nonneg_right (part_nonneg d'))

end Seconds

section Millis

variable {d d' : Nat}

def shownMillis (nanos : Nat) : ℚ := rounded spec (seconds nanos * 1000)

theorem seconds_nonneg (d : Nat) : 0 ≤ seconds d := rounded_nonneg spec _

theorem millis_spec (h : d < durations) :
    IsNonneg (millis d) ∧ value (millis d) = (shownMillis d : ℚ) := by
  obtain ⟨hseconds, hseconds'⟩ := asSecsF64_spec h
  obtain ⟨hmillis, hmillis'⟩ := mul_spec hseconds stands_thousand
  rw [hseconds', WithTop.map_coe] at hmillis'
  have hle : seconds d * 1000 ≤ 2 ^ 75 := by
    have hseconds := seconds_le h
    norm_num at hseconds ⊢
    linarith
  refine ⟨hmillis, hmillis'.trans ?_⟩
  exact (shown_of_le (by decide) (mul_nonneg (seconds_nonneg d) (by norm_num)) hle).1

theorem isFinite_millis (h : d < durations) : (millis d).isFinite = true := by
  obtain ⟨hnonneg, hvalue⟩ := millis_spec h
  rw [isFinite_iff_value hnonneg, hvalue]
  exact WithTop.coe_ne_top

theorem zero_le_millis (h : d < durations) : 0 ≤ millis d := zero_le_iff.mpr (millis_spec h).1

theorem millis_mono (h : d ≤ d') (hd : d' < durations) : millis d ≤ millis d' := by
  obtain ⟨hnonneg, hvalue⟩ := millis_spec (lt_of_le_of_lt h hd)
  obtain ⟨hnonneg', hvalue'⟩ := millis_spec hd
  rw [le_iff_value hnonneg hnonneg', hvalue, hvalue']
  refine WithTop.coe_le_coe.mpr (rounded_mono spec (mul_nonneg (seconds_nonneg d) (by norm_num)) ?_)
  exact mul_le_mul_of_nonneg_right (seconds_mono h) (by norm_num)

end Millis

end AioLM.Durations
