import Mathlib

/-!
Rounding to the nearest mantissa, ties to the even one. The bits that a shift
keeps say where the exact number stands, so the model of the machine's rounding
is a function of that number alone, and a monotone one.
-/

set_option autoImplicit false

namespace AioLM.Rounding

open Float.Model UnpackedFloat

/-- The nearest natural number, the even one of two equally near. -/
def nearest (q : ℚ) : Nat :=
  let n := ⌊q⌋₊
  if q < n + 1 / 2 then n
  else if q = n + 1 / 2 then n + n % 2
  else n + 1

theorem floor_le_nearest (q : ℚ) : ⌊q⌋₊ ≤ nearest q := by
  unfold nearest
  dsimp only
  split_ifs <;> omega

theorem nearest_le_succ (q : ℚ) : nearest q ≤ ⌊q⌋₊ + 1 := by
  unfold nearest
  dsimp only
  split_ifs <;> omega

@[simp] theorem nearest_natCast (n : Nat) : nearest n = n := by
  simp [nearest]

theorem nearest_mono {x y : ℚ} (h : x ≤ y) : nearest x ≤ nearest y := by
  have hfloor : ⌊x⌋₊ ≤ ⌊y⌋₊ := Nat.floor_mono h
  rcases Nat.lt_or_eq_of_le hfloor with hlt | heq
  · calc nearest x ≤ ⌊x⌋₊ + 1 := nearest_le_succ x
      _ ≤ ⌊y⌋₊ := hlt
      _ ≤ nearest y := floor_le_nearest y
  · unfold nearest
    simp only [heq]
    split_ifs with hx hy heven hy heven heven
    all_goals first
      | omega
      | (exfalso; rcases lt_or_eq_of_le h with hlt | rfl <;> grind)

/-- The bits of an extended mantissa say where the number stands between two mantissas. -/
structure Describes (em : ExtendedMantissa) (q : ℚ) : Prop where
  lower : (em.mantissa : ℚ) ≤ q
  upper : q < em.mantissa + 1
  half : em.roundBit = true ↔ (em.mantissa : ℚ) + 1 / 2 ≤ q
  rest : em.stickyBit = true ↔ q ≠ em.mantissa ∧ q ≠ em.mantissa + 1 / 2

theorem Describes.floor {em : ExtendedMantissa} {q : ℚ} (h : Describes em q) :
    ⌊q⌋₊ = em.mantissa :=
  (Nat.floor_eq_iff (le_trans (Nat.cast_nonneg _) h.lower)).mpr ⟨h.lower, h.upper⟩

theorem Describes.roundedMantissa {em : ExtendedMantissa} {q : ℚ} (h : Describes em q) :
    em.roundedMantissa = nearest q := by
  have hfloor := h.floor
  obtain ⟨m, half, rest⟩ := em
  obtain ⟨hlower, hupper, hhalf, hrest⟩ := h
  dsimp only at hfloor hlower hupper hhalf hrest
  unfold nearest
  simp only [hfloor]
  cases half <;> cases rest <;>
    simp only [ExtendedMantissa.roundedMantissa, ExtendedMantissa.accuracy,
      Accuracy.roundToNearestEven]
  · have hq : q < m + 1 / 2 := by simpa using hhalf
    rw [if_pos hq]
  · have hq : q < m + 1 / 2 := by simpa using hhalf
    rw [if_pos hq]
  · have hq : (m : ℚ) + 1 / 2 ≤ q := by simpa using hhalf
    have htie : q = m + 1 / 2 := by
      by_contra hne
      have hm : q ≠ m := by rintro rfl; linarith
      simpa using hrest.mpr ⟨hm, hne⟩
    rw [if_neg (not_lt.mpr hq), if_pos htie]
  · have hq : (m : ℚ) + 1 / 2 ≤ q := by simpa using hhalf
    rw [if_neg (not_lt.mpr hq), if_neg (hrest.mp rfl).2]

theorem Describes.shiftRightOne {em : ExtendedMantissa} {q : ℚ} (h : Describes em q) :
    Describes em.shiftRightOne (q / 2) := by
  obtain ⟨m, half, rest⟩ := em
  obtain ⟨hlower, hupper, hhalf, hrest⟩ := h
  dsimp only at hlower hupper hhalf hrest
  have hsplit : (m : ℚ) = 2 * (m / 2 : Nat) + (m % 2 : Nat) := by
    exact_mod_cast (Nat.div_add_mod m 2).symm
  have hbit : m % 2 = 0 ∨ m % 2 = 1 := Nat.mod_two_eq_zero_or_one m
  have hexact : (half || rest) = false ↔ q = m := by
    constructor
    · intro hno
      obtain ⟨hnoHalf, hnoRest⟩ : half = false ∧ rest = false := by simpa using hno
      by_contra hne
      rw [hnoRest] at hrest
      have htie : q = m + 1 / 2 := by
        by_contra hne'
        simpa using hrest.mpr ⟨hne, hne'⟩
      rw [hnoHalf] at hhalf
      simpa using hhalf.mpr htie.ge
    · rintro rfl
      have hnoHalf : half = false := by
        rw [← Bool.not_eq_true, hhalf]
        linarith
      have hnoRest : rest = false := by
        rw [← Bool.not_eq_true, hrest]
        simp
      rw [hnoHalf, hnoRest]
      rfl
  refine ⟨?_, ?_, ?_, ?_⟩
  · change ((m / 2 : Nat) : ℚ) ≤ q / 2
    rcases hbit with hbit | hbit <;> rw [hbit] at hsplit <;> push_cast at hsplit <;> linarith
  · change q / 2 < ((m / 2 : Nat) : ℚ) + 1
    rcases hbit with hbit | hbit <;> rw [hbit] at hsplit <;> push_cast at hsplit <;> linarith
  · change (m % 2 != 0) = true ↔ ((m / 2 : Nat) : ℚ) + 1 / 2 ≤ q / 2
    rcases hbit with hbit | hbit <;> rw [hbit] at hsplit ⊢ <;> push_cast at hsplit
    · simp
      linarith
    · simp
      linarith
  · change (half || rest) = true ↔
      q / 2 ≠ ((m / 2 : Nat) : ℚ) ∧ q / 2 ≠ ((m / 2 : Nat) : ℚ) + 1 / 2
    rw [← not_iff_not]
    simp only [Bool.not_eq_true, not_and_or, not_not]
    rw [hexact]
    rcases hbit with hbit | hbit <;> rw [hbit] at hsplit <;> push_cast at hsplit
    · constructor
      · intro heq
        left
        linarith
      · rintro (heq | heq) <;> linarith
    · constructor
      · intro heq
        right
        linarith
      · rintro (heq | heq) <;> linarith

theorem Describes.shiftRight {em : ExtendedMantissa} {q : ℚ} (h : Describes em q) (n : Nat) :
    Describes (em >>> n) (q / 2 ^ n) := by
  induction n with
  | zero =>
    rw [pow_zero, div_one]
    exact h
  | succ n ih =>
    have hnext : Describes (em >>> n).shiftRightOne (q / 2 ^ n / 2) := ih.shiftRightOne
    rw [pow_succ, ← div_div]
    exact hnext

def Located (q : ℚ) (mantissa : Nat) (accuracy : Accuracy) : Prop :=
  Describes (ExtendedMantissa.ofMantissaAndAccuracy mantissa accuracy) q

theorem located_exact (m : Nat) : Located m m .exact := by
  refine ⟨le_refl _, lt_add_one _, ?_, ?_⟩ <;>
    simp [ExtendedMantissa.ofMantissaAndAccuracy]

theorem located_div (n : Nat) {d : Nat} (hd : 0 < d) :
    Located ((n : ℚ) / d) (n / d) (accuracyOfFraction (n % d) d) := by
  have hdq : (0 : ℚ) < d := by exact_mod_cast hd
  have hsplit : (n : ℚ) = d * (n / d : Nat) + (n % d : Nat) := by
    exact_mod_cast (Nat.div_add_mod n d).symm
  have hlt : ((n % d : Nat) : ℚ) < d := by exact_mod_cast Nat.mod_lt n hd
  have hq : (n : ℚ) / d = (n / d : Nat) + (n % d : Nat) / d := by
    rw [hsplit]
    field_simp
  have hlt' : ((n % d : Nat) : ℚ) / d < 1 := by rw [div_lt_one hdq]; exact hlt
  have hhalf : (1 / 2 : ℚ) ≤ (n % d : Nat) / d ↔ d ≤ 2 * (n % d) := by
    rw [le_div_iff₀ hdq]
    constructor
    · intro h
      have : (d : ℚ) ≤ 2 * (n % d : Nat) := by linarith
      exact_mod_cast this
    · intro h
      have : (d : ℚ) ≤ 2 * (n % d : Nat) := by exact_mod_cast h
      linarith
  have htie : ((n % d : Nat) : ℚ) / d = 1 / 2 ↔ 2 * (n % d) = d := by
    rw [div_eq_iff hdq.ne']
    constructor
    · intro h
      have : 2 * ((n % d : Nat) : ℚ) = d := by linarith
      exact_mod_cast this
    · intro h
      have : 2 * ((n % d : Nat) : ℚ) = d := by exact_mod_cast h
      linarith
  rw [Located, hq, accuracyOfFraction]
  by_cases hzero : n % d = 0
  · rw [if_pos hzero, hzero]
    simpa [Located] using located_exact (n / d)
  · have hpos : (0 : ℚ) < (n % d : Nat) / d := by
      have : (0 : ℚ) < (n % d : Nat) := by exact_mod_cast Nat.pos_of_ne_zero hzero
      positivity
    rw [if_neg hzero]
    rcases hcmp : compare (2 * (n % d)) d with _ | _ | _
    · rw [Nat.compare_eq_lt] at hcmp
      have hno : ¬(1 / 2 : ℚ) ≤ (n % d : Nat) / d := by rw [hhalf]; omega
      refine ⟨by simpa [ExtendedMantissa.ofMantissaAndAccuracy] using hpos.le,
        by simpa [ExtendedMantissa.ofMantissaAndAccuracy] using hlt', ?_, ?_⟩
      · simpa [ExtendedMantissa.ofMantissaAndAccuracy] using hno
      · simp only [ExtendedMantissa.ofMantissaAndAccuracy, true_iff]
        exact ⟨by linarith, fun h => hno (by linarith)⟩
    · rw [Nat.compare_eq_eq] at hcmp
      have heq := htie.mpr hcmp
      refine ⟨by simpa [ExtendedMantissa.ofMantissaAndAccuracy] using hpos.le,
        by simpa [ExtendedMantissa.ofMantissaAndAccuracy] using hlt', ?_, ?_⟩
      · simp only [ExtendedMantissa.ofMantissaAndAccuracy, true_iff]
        linarith
      · simp only [ExtendedMantissa.ofMantissaAndAccuracy, Bool.false_eq_true, false_iff, heq]
        simp
    · rw [Nat.compare_eq_gt] at hcmp
      have hge : (1 / 2 : ℚ) ≤ (n % d : Nat) / d := by rw [hhalf]; omega
      have hne : ((n % d : Nat) : ℚ) / d ≠ 1 / 2 := by rw [Ne, htie]; omega
      refine ⟨by simpa [ExtendedMantissa.ofMantissaAndAccuracy] using hpos.le,
        by simpa [ExtendedMantissa.ofMantissaAndAccuracy] using hlt', ?_, ?_⟩
      · simp only [ExtendedMantissa.ofMantissaAndAccuracy, true_iff]
        linarith
      · simp only [ExtendedMantissa.ofMantissaAndAccuracy, true_iff]
        exact ⟨by linarith, fun h => hne (by linarith)⟩

variable {spec : Format}

theorem mantissaBits_pos : 0 < spec.mantissaBits := by
  simp only [Format.mantissaBits]
  omega

variable (spec)

/-- The exponent that leaves as many bits to the mantissa as the format keeps. -/
def exponentOf (x : ℚ) : Int := spec.targetExponent (Int.log 2 x + 1)

def mantissaOf (x : ℚ) : Nat := nearest (x / 2 ^ exponentOf spec x)

/-- The number that the format has for `x`, its exponents unbounded above. -/
def rounded (x : ℚ) : ℚ := mantissaOf spec x * 2 ^ exponentOf spec x

theorem minExponent_le_exponentOf (x : ℚ) : spec.minExponent ≤ exponentOf spec x :=
  le_max_right _ _

theorem exponentOf_mono {x y : ℚ} (hx : 0 < x) (h : x ≤ y) :
    exponentOf spec x ≤ exponentOf spec y := by
  have hlog : Int.log 2 x ≤ Int.log 2 y := Int.log_mono_right hx h
  simp only [exponentOf, Format.targetExponent]
  omega

theorem two_zpow_pos (e : Int) : (0 : ℚ) < 2 ^ e := zpow_pos (by norm_num) e

theorem two_zpow_add_nat (e : Int) (n : Nat) : (2 : ℚ) ^ (e + n) = 2 ^ e * 2 ^ n := by
  rw [zpow_add₀ (by norm_num), zpow_natCast]

theorem lt_two_zpow_exponentOf (x : ℚ) :
    x < 2 ^ exponentOf spec x * 2 ^ spec.mantissaBits := by
  have hlog : x < 2 ^ (Int.log 2 x + 1) := by
    exact_mod_cast Int.lt_zpow_succ_log_self (by norm_num) x
  rw [← two_zpow_add_nat]
  refine lt_of_lt_of_le hlog (zpow_le_zpow_right₀ (by norm_num) ?_)
  simp only [exponentOf, Format.targetExponent]
  omega

theorem mantissaOf_le (x : ℚ) : mantissaOf spec x ≤ 2 ^ spec.mantissaBits := by
  have hlt := lt_two_zpow_exponentOf spec x
  have hle : x / 2 ^ exponentOf spec x ≤ ((2 ^ spec.mantissaBits : Nat) : ℚ) := by
    rw [div_le_iff₀ (two_zpow_pos _)]
    push_cast
    linarith
  calc mantissaOf spec x ≤ nearest ((2 ^ spec.mantissaBits : Nat) : ℚ) := nearest_mono hle
    _ = 2 ^ spec.mantissaBits := nearest_natCast _

theorem le_mantissaOf {x : ℚ} (hx : 0 < x) (h : spec.minExponent < exponentOf spec x) :
    2 ^ (spec.mantissaBits - 1) ≤ mantissaOf spec x := by
  have hlog : (2 : ℚ) ^ Int.log 2 x ≤ x := by
    exact_mod_cast Int.zpow_log_le_self (by norm_num) hx
  have hbits := @mantissaBits_pos spec
  have hexp : exponentOf spec x + (spec.mantissaBits - 1 : Nat) = Int.log 2 x := by
    simp only [exponentOf, Format.targetExponent] at h ⊢
    omega
  have hle : ((2 ^ (spec.mantissaBits - 1) : Nat) : ℚ) ≤ x / 2 ^ exponentOf spec x := by
    rw [le_div_iff₀ (two_zpow_pos _)]
    push_cast
    rw [mul_comm, ← two_zpow_add_nat, hexp]
    exact hlog
  calc 2 ^ (spec.mantissaBits - 1)
      = nearest ((2 ^ (spec.mantissaBits - 1) : Nat) : ℚ) := (nearest_natCast _).symm
    _ ≤ mantissaOf spec x := nearest_mono hle

theorem rounded_nonneg (x : ℚ) : 0 ≤ rounded spec x :=
  mul_nonneg (Nat.cast_nonneg _) (two_zpow_pos _).le

theorem rounded_zero : rounded spec 0 = 0 := by
  simp [rounded, mantissaOf, nearest]

theorem rounded_mono {x y : ℚ} (hx : 0 ≤ x) (h : x ≤ y) : rounded spec x ≤ rounded spec y := by
  rcases hx.eq_or_lt with rfl | hx
  · rw [rounded_zero]
    exact rounded_nonneg spec y
  rcases (exponentOf_mono spec hx h).eq_or_lt with heq | hlt
  · have hmantissa : mantissaOf spec x ≤ mantissaOf spec y := by
      rw [mantissaOf, mantissaOf, heq]
      exact nearest_mono (div_le_div_of_nonneg_right h (two_zpow_pos _).le)
    have hcast : (mantissaOf spec x : ℚ) ≤ mantissaOf spec y := by exact_mod_cast hmantissa
    rw [rounded, rounded, heq]
    exact mul_le_mul_of_nonneg_right hcast (two_zpow_pos _).le
  · -- The first number of a larger exponent is above all the numbers of a smaller one.
    have hx' : (mantissaOf spec x : ℚ) ≤ 2 ^ spec.mantissaBits := by
      exact_mod_cast mantissaOf_le spec x
    have hy' : (2 : ℚ) ^ (spec.mantissaBits - 1) ≤ mantissaOf spec y := by
      exact_mod_cast le_mantissaOf spec (lt_of_lt_of_le hx h)
        (lt_of_le_of_lt (minExponent_le_exponentOf spec x) hlt)
    have hbits := @mantissaBits_pos spec
    calc rounded spec x ≤ 2 ^ spec.mantissaBits * 2 ^ exponentOf spec x :=
          mul_le_mul_of_nonneg_right hx' (two_zpow_pos _).le
      _ = 2 ^ (exponentOf spec x + spec.mantissaBits) := by rw [two_zpow_add_nat, mul_comm]
      _ ≤ 2 ^ (exponentOf spec y + (spec.mantissaBits - 1 : Nat)) :=
          zpow_le_zpow_right₀ (by norm_num) (by omega)
      _ = 2 ^ (spec.mantissaBits - 1) * 2 ^ exponentOf spec y := by
          rw [two_zpow_add_nat, mul_comm]
      _ ≤ rounded spec y := mul_le_mul_of_nonneg_right hy' (two_zpow_pos _).le

/-- A finite number as the format has it, its exponent not yet bounded above. -/
structure Canonical (m : Nat) (e : Int) : Prop where
  fits : m < 2 ^ spec.mantissaBits
  above : spec.minExponent ≤ e
  leading : e = spec.minExponent ∨ 2 ^ (spec.mantissaBits - 1) ≤ m

theorem log_mul_two_zpow {m : Nat} (hm : 0 < m) (e : Int) :
    Int.log 2 ((m : ℚ) * 2 ^ e) = m.log2 + e := by
  have hlower : ((2 ^ m.log2 : Nat) : ℚ) ≤ m := by
    exact_mod_cast Nat.log2_self_le hm.ne'
  have hupper : (m : ℚ) < ((2 ^ (m.log2 + 1) : Nat) : ℚ) := by
    exact_mod_cast Nat.lt_log2_self
  push_cast at hlower hupper
  have hpos : (0 : ℚ) < m * 2 ^ e := mul_pos (by exact_mod_cast hm) (two_zpow_pos e)
  apply le_antisymm
  · rw [← Int.lt_add_one_iff, ← Int.lt_zpow_iff_log_lt (by norm_num) hpos]
    have hexp : (m.log2 + e + 1 : Int) = e + (m.log2 + 1 : Nat) := by omega
    push_cast
    rw [hexp, two_zpow_add_nat, mul_comm]
    exact mul_lt_mul_of_pos_left hupper (two_zpow_pos e)
  · rw [← Int.zpow_le_iff_le_log (by norm_num) hpos]
    push_cast
    rw [add_comm, two_zpow_add_nat, mul_comm]
    exact mul_le_mul_of_nonneg_right hlower (two_zpow_pos e).le

variable {spec}

theorem Canonical.exponentOf {m : Nat} {e : Int} (h : Canonical spec m e) (hm : 0 < m) :
    exponentOf spec ((m : ℚ) * 2 ^ e) = e := by
  have hlog : m.log2 < spec.mantissaBits := (Nat.log2_lt hm.ne').mpr h.fits
  rw [Rounding.exponentOf, log_mul_two_zpow hm, Format.targetExponent]
  rcases h.leading with heq | hle
  · omega
  · have hlog' : spec.mantissaBits - 1 ≤ m.log2 := (Nat.le_log2 hm.ne').mpr hle
    have := h.above
    omega

theorem rounded_exact {m : Nat} {e : Int} (hm : m < 2 ^ spec.mantissaBits)
    (he : spec.minExponent ≤ e) : rounded spec ((m : ℚ) * 2 ^ e) = m * 2 ^ e := by
  rcases Nat.eq_zero_or_pos m with rfl | hpos
  · simpa using rounded_zero spec
  have hlog : m.log2 < spec.mantissaBits := (Nat.log2_lt hpos.ne').mpr hm
  have hle : exponentOf spec ((m : ℚ) * 2 ^ e) ≤ e := by
    rw [exponentOf, log_mul_two_zpow hpos, Format.targetExponent]
    omega
  rw [rounded, mantissaOf]
  generalize exponentOf spec ((m : ℚ) * 2 ^ e) = t at hle ⊢
  obtain ⟨n, rfl⟩ : ∃ n : Nat, e = t + n := ⟨(e - t).toNat, by omega⟩
  have hscaled : (m : ℚ) * 2 ^ (t + n : Int) / 2 ^ t = ((m * 2 ^ n : Nat) : ℚ) := by
    rw [two_zpow_add_nat, div_eq_iff (two_zpow_pos t).ne']
    push_cast
    ring
  rw [hscaled, nearest_natCast, two_zpow_add_nat]
  push_cast
  ring

theorem Canonical.rounded {m : Nat} {e : Int} (h : Canonical spec m e) :
    rounded spec ((m : ℚ) * 2 ^ e) = m * 2 ^ e :=
  rounded_exact h.fits h.above

theorem two_pow_mul_zpow (e : Int) :
    ((2 ^ (spec.mantissaBits - 1) : Nat) : ℚ) * 2 ^ (e + 1) =
      ((2 ^ spec.mantissaBits : Nat) : ℚ) * 2 ^ e := by
  obtain ⟨p, hp⟩ : ∃ p, spec.mantissaBits = p + 1 :=
    ⟨spec.mantissaBits - 1, (Nat.sub_add_cancel mantissaBits_pos).symm⟩
  rw [hp, Nat.add_sub_cancel, zpow_add_one₀ (by norm_num)]
  push_cast
  ring

theorem rounded_rounded (x : ℚ) : rounded spec (rounded spec x) = rounded spec x := by
  have hmin := minExponent_le_exponentOf spec x
  by_cases hfull : mantissaOf spec x = 2 ^ spec.mantissaBits
  · have hvalue : rounded spec x =
        ((2 ^ (spec.mantissaBits - 1) : Nat) : ℚ) * 2 ^ (exponentOf spec x + 1) := by
      rw [two_pow_mul_zpow, rounded, hfull]
    rw [hvalue]
    exact rounded_exact (Nat.pow_lt_pow_right (by norm_num) (Nat.sub_lt mantissaBits_pos one_pos))
      (by omega)
  · exact rounded_exact (lt_of_le_of_ne (mantissaOf_le spec x) hfull) hmin

theorem nearest_add_half (n : Nat) : nearest ((n : ℚ) + 1 / 2) = n + n % 2 := by
  have hfloor : ⌊(n : ℚ) + 1 / 2⌋₊ = n := by
    rw [Nat.floor_eq_iff (by positivity)]
    constructor <;> linarith
  unfold nearest
  simp only [hfloor]
  rw [if_neg (by linarith), if_pos trivial]

/-- A little above an even mantissa, or less than half a step above any, is rounded down. -/
theorem nearest_add_inv {n k : Nat} (h : 2 ≤ k ∨ k = 1 ∧ n % 2 = 0) :
    nearest ((n : ℚ) + 1 / 2 ^ k) = n := by
  rcases h with hk | ⟨rfl, heven⟩
  · have hquarter : (1 : ℚ) / 2 ^ k ≤ 1 / 4 := by
      have hfour : (4 : ℚ) = 2 ^ 2 := by norm_num
      rw [hfour]
      exact one_div_le_one_div_of_le (by norm_num) (pow_le_pow_right₀ (by norm_num) hk)
    have hpos : (0 : ℚ) < 1 / 2 ^ k := by positivity
    have hfloor : ⌊(n : ℚ) + 1 / 2 ^ k⌋₊ = n := by
      rw [Nat.floor_eq_iff (by positivity)]
      constructor <;> linarith
    unfold nearest
    simp only [hfloor]
    rw [if_pos (by linarith)]
  · rw [pow_one, nearest_add_half, heven, add_zero]

section Successor

variable {n k s : Nat} (hmin : spec.minExponent ≤ 0)

theorem log_natCast {n : Nat} (hn : 0 < n) : Int.log 2 (n : ℚ) = n.log2 := by
  simpa using log_mul_two_zpow hn 0

include hmin in
theorem rounded_mul_add_one (hlow : 2 ^ (spec.mantissaBits - 1) ≤ n)
    (hhigh : n < 2 ^ spec.mantissaBits) (hk : 1 ≤ k) :
    rounded spec ((n : ℚ) * 2 ^ k + 1) = nearest ((n : ℚ) + 1 / 2 ^ k) * 2 ^ k := by
  obtain ⟨p, hp⟩ : ∃ p, spec.mantissaBits = p + 1 :=
    ⟨spec.mantissaBits - 1, (Nat.sub_add_cancel mantissaBits_pos).symm⟩
  rw [hp, Nat.add_sub_cancel] at hlow
  rw [hp] at hhigh
  have htwo : 2 ≤ 2 ^ k := Nat.le_self_pow (by omega) 2 |>.trans' (by omega)
  have hlog : (n * 2 ^ k + 1).log2 = p + k := by
    rw [Nat.log2_eq_iff (by omega), pow_add, pow_add, pow_add]
    constructor
    · exact (Nat.mul_le_mul_right _ hlow).trans (Nat.le_succ _)
    · have hstep : (n + 1) * 2 ^ k ≤ 2 ^ (p + 1) * 2 ^ k := Nat.mul_le_mul_right _ hhigh
      rw [pow_succ, Nat.add_mul] at hstep
      nlinarith
  have hexp : exponentOf spec ((n : ℚ) * 2 ^ k + 1) = k := by
    have hcast : (n : ℚ) * 2 ^ k + 1 = ((n * 2 ^ k + 1 : Nat) : ℚ) := by push_cast; rfl
    rw [exponentOf, hcast, log_natCast (Nat.succ_pos _), hlog, Format.targetExponent, hp]
    push_cast
    omega
  rw [rounded, mantissaOf, hexp, zpow_natCast, add_div, mul_div_cancel_right₀ _ (by positivity)]

include hmin in
/-- Rounding a whole number and adding one to it does not overtake its successor. -/
theorem rounded_succ_le : rounded spec (rounded spec s + 1) ≤ rounded spec (s + 1) := by
  rcases le_or_gt (rounded spec s) s with hle | hgt
  · refine rounded_mono spec (add_nonneg (rounded_nonneg spec _) zero_le_one) ?_
    linarith
  refine le_trans (le_of_eq ?_)
    (rounded_mono spec (Nat.cast_nonneg s) (le_add_of_nonneg_right zero_le_one))
  -- The number was rounded up, so it has too many bits.
  have hlarge : 2 ^ spec.mantissaBits ≤ s := by
    by_contra hlt
    have hexact := rounded_exact (e := 0) (not_le.mp hlt) hmin
    rw [zpow_zero, mul_one] at hexact
    exact hgt.ne' hexact
  have hs : 0 < s := lt_of_lt_of_le (Nat.two_pow_pos _) hlarge
  have hlog : spec.mantissaBits ≤ s.log2 := (Nat.le_log2 hs.ne').mpr hlarge
  obtain ⟨k, hk, hexp⟩ : ∃ k : Nat, 1 ≤ k ∧ exponentOf spec (s : ℚ) = k := by
    refine ⟨s.log2 + 1 - spec.mantissaBits, by omega, ?_⟩
    rw [exponentOf, log_natCast hs, Format.targetExponent]
    omega
  have hpos : (0 : ℚ) < s := by exact_mod_cast hs
  have hlow : 2 ^ (spec.mantissaBits - 1) ≤ mantissaOf spec (s : ℚ) :=
    le_mantissaOf spec hpos (by omega)
  have hvalue : rounded spec (s : ℚ) = mantissaOf spec (s : ℚ) * 2 ^ k := by
    rw [rounded, hexp, zpow_natCast]
  by_cases hfull : mantissaOf spec (s : ℚ) = 2 ^ spec.mantissaBits
  · have hhalf : (mantissaOf spec (s : ℚ) : ℚ) * 2 ^ k =
        ((2 ^ (spec.mantissaBits - 1) : Nat) : ℚ) * 2 ^ (k + 1) := by
      rw [hfull]
      exact_mod_cast (two_pow_mul_zpow k).symm
    rw [hvalue, hhalf, rounded_mul_add_one hmin le_rfl
      (Nat.pow_lt_pow_right (by norm_num) (Nat.sub_lt mantissaBits_pos one_pos)) (by omega),
      nearest_add_inv (.inl (by omega))]
  · have hhigh : mantissaOf spec (s : ℚ) < 2 ^ spec.mantissaBits :=
      lt_of_le_of_ne (mantissaOf_le spec _) hfull
    have heven : 2 ≤ k ∨ k = 1 ∧ mantissaOf spec (s : ℚ) % 2 = 0 := by
      rcases Nat.lt_or_ge 1 k with hlt | hge
      · exact .inl hlt
      obtain rfl : k = 1 := by omega
      refine .inr ⟨rfl, ?_⟩
      have hnearest : mantissaOf spec (s : ℚ) = nearest ((s : ℚ) / 2) := by
        rw [mantissaOf, hexp]
        norm_num
      rw [hvalue, hnearest, pow_one] at hgt
      rw [hnearest]
      rcases Nat.even_or_odd' s with ⟨q, rfl | rfl⟩
      · have hq : ((2 * q : Nat) : ℚ) / 2 = q := by push_cast; ring
        rw [hq, nearest_natCast] at hgt
        push_cast at hgt
        linarith
      · have hq : ((2 * q + 1 : Nat) : ℚ) / 2 = q + 1 / 2 := by push_cast; ring
        rw [hq, nearest_add_half]
        omega
    rw [hvalue, rounded_mul_add_one hmin hlow hhigh hk, nearest_add_inv heven]

end Successor

theorem log_of_located {x : ℚ} {m : Nat} {e : Int} {accuracy : Accuracy} (hm : 0 < m)
    (h : Located (x / 2 ^ e) m accuracy) : Int.log 2 x = m.log2 + e := by
  have hmantissa : (ExtendedMantissa.ofMantissaAndAccuracy m accuracy).mantissa = m := by
    rcases accuracy with _ | (_ | _ | _) <;> rfl
  have hlower := h.lower
  have hupper := h.upper
  rw [hmantissa, le_div_iff₀ (two_zpow_pos e)] at hlower
  rw [hmantissa, div_lt_iff₀ (two_zpow_pos e)] at hupper
  have hnext : ((m + 1 : Nat) : ℚ) ≤ ((2 ^ (m.log2 + 1) : Nat) : ℚ) := by
    exact_mod_cast Nat.lt_log2_self
  push_cast at hnext
  have hpos : (0 : ℚ) < m * 2 ^ e := mul_pos (by exact_mod_cast hm) (two_zpow_pos e)
  have hx : 0 < x := lt_of_lt_of_le hpos hlower
  apply le_antisymm
  · rw [← Int.lt_add_one_iff, ← Int.lt_zpow_iff_log_lt (by norm_num) hx]
    have hexp : (m.log2 + e + 1 : Int) = e + (m.log2 + 1 : Nat) := by omega
    push_cast
    rw [hexp, two_zpow_add_nat, mul_comm]
    exact lt_of_lt_of_le hupper (mul_le_mul_of_nonneg_right hnext (two_zpow_pos e).le)
  · rw [← log_mul_two_zpow hm e]
    exact Int.log_mono_right hpos hlower

theorem targetExponent_of_located {x : ℚ} {m : Nat} {e : Int} {accuracy : Accuracy} (hx : 0 < x)
    (h : Located (x / 2 ^ e) m accuracy) (hzero : m = 0 → e ≤ spec.minExponent) :
    spec.targetExponent (totalExponent m e) = exponentOf spec x := by
  rcases Nat.eq_zero_or_pos m with rfl | hm
  · have he := hzero rfl
    have hupper : x < 2 ^ e := by
      have hmantissa : (ExtendedMantissa.ofMantissaAndAccuracy 0 accuracy).mantissa = 0 := by
        rcases accuracy with _ | (_ | _ | _) <;> rfl
      have := h.upper
      rw [hmantissa, div_lt_iff₀ (two_zpow_pos e)] at this
      simpa using this
    have hlog : Int.log 2 x < e := (Int.lt_zpow_iff_log_lt (by norm_num) hx).mp (by exact_mod_cast hupper)
    have hbits := @mantissaBits_pos spec
    simp only [exponentOf, Format.targetExponent, totalExponent, Nat.log2_zero]
    omega
  · rw [exponentOf, log_of_located hm h, totalExponent]
    congr 1
    omega

theorem shiftToExponent_of_le {m : Nat} {e t : Int} {accuracy : Accuracy} (h : e ≤ t) :
    shiftToExponent m e accuracy t =
      (ExtendedMantissa.ofMantissaAndAccuracy m accuracy >>> (t - e).toNat, t) := by
  simp only [shiftToExponent, Prod.mk.injEq, true_and]
  omega

theorem shiftToTargetExponent_exact {m : Nat} {e : Int} (he : spec.minExponent ≤ e)
    (hm : m ≤ 2 ^ spec.mantissaBits) :
    ((shiftToTargetExponent spec m e .exact).1.mantissa,
        (shiftToTargetExponent spec m e .exact).2) =
      if m = 2 ^ spec.mantissaBits then (2 ^ (spec.mantissaBits - 1), e + 1) else (m, e) := by
  have hbits := @mantissaBits_pos spec
  split_ifs with hfull
  · have htarget : spec.targetExponent (totalExponent m e) = e + 1 := by
      rw [hfull, totalExponent, Nat.log2_two_pow, Format.targetExponent]
      omega
    have hone : (e + 1 - e).toNat = 1 := by omega
    rw [shiftToTargetExponent, htarget, shiftToExponent_of_le (by omega), hone, Prod.mk.injEq]
    refine ⟨?_, rfl⟩
    change m / 2 = _
    rw [hfull]
    obtain ⟨n, hn⟩ : ∃ n, spec.mantissaBits = n + 1 := ⟨spec.mantissaBits - 1, by omega⟩
    rw [hn, Nat.add_sub_cancel, pow_succ, Nat.mul_div_cancel _ (by norm_num)]
  · have hlt : m < 2 ^ spec.mantissaBits := lt_of_le_of_ne hm hfull
    have htarget : (spec.targetExponent (totalExponent m e) - e).toNat = 0 := by
      have hlog : m.log2 < spec.mantissaBits := by
        rcases Nat.eq_zero_or_pos m with rfl | hpos
        · simpa using hbits
        · exact (Nat.log2_lt hpos.ne').mpr hlt
      rw [totalExponent, Format.targetExponent]
      omega
    simp only [shiftToTargetExponent, shiftToExponent, htarget]
    simp only [Nat.cast_zero, add_zero, Prod.mk.injEq, and_true]
    rfl

def ofMantissa (sign : Sign) (m : Nat) (e : Int) : UnpackedFloat :=
  if h : m = 0 then .zero sign else .finite sign m e (Nat.pos_of_ne_zero h)

variable (spec)

/-- The number that is rounded to, as the machine keeps it. -/
def unpacked (sign : Sign) (x : ℚ) : UnpackedFloat :=
  if mantissaOf spec x = 2 ^ spec.mantissaBits then
    ofMantissa sign (2 ^ (spec.mantissaBits - 1)) (exponentOf spec x + 1)
  else ofMantissa sign (mantissaOf spec x) (exponentOf spec x)

variable {spec}

theorem roundWithAccuracy_eq {x : ℚ} {m : Nat} {e : Int} {accuracy : Accuracy} (sign : Sign)
    (hx : 0 < x) (he : e ≤ exponentOf spec x) (h : Located (x / 2 ^ e) m accuracy)
    (hzero : m = 0 → e ≤ spec.minExponent) :
    roundWithAccuracy spec sign m e accuracy = unpacked spec sign x := by
  have hfirst : shiftToTargetExponent spec m e accuracy =
      (ExtendedMantissa.ofMantissaAndAccuracy m accuracy >>> (exponentOf spec x - e).toNat,
        exponentOf spec x) := by
    rw [shiftToTargetExponent, targetExponent_of_located hx h hzero, shiftToExponent_of_le he]
  have hscale : x / 2 ^ e / 2 ^ (exponentOf spec x - e).toNat = x / 2 ^ exponentOf spec x := by
    rw [div_div, ← two_zpow_add_nat]
    congr 2
    omega
  have hrounded : (ExtendedMantissa.ofMantissaAndAccuracy m accuracy >>>
      (exponentOf spec x - e).toNat).roundedMantissa = mantissaOf spec x := by
    have hdescribes := h.shiftRight (exponentOf spec x - e).toNat
    rw [hscale] at hdescribes
    exact hdescribes.roundedMantissa
  have hsecond := shiftToTargetExponent_exact (minExponent_le_exponentOf spec x)
    (mantissaOf_le spec x)
  rw [roundWithAccuracy, hfirst]
  simp only [hrounded]
  change Function.uncurry (ofMantissa sign)
    ((shiftToTargetExponent spec (mantissaOf spec x) (exponentOf spec x) .exact).1.mantissa,
      (shiftToTargetExponent spec (mantissaOf spec x) (exponentOf spec x) .exact).2) = _
  rw [hsecond, unpacked]
  split_ifs <;> rfl

theorem decreaseExponent_of_le {m : Nat} {e t : Int} (h : t ≤ e) :
    ((decreaseExponent m e t).1 : ℚ) * 2 ^ t = m * 2 ^ e ∧ (decreaseExponent m e t).2 = t := by
  have hexp : e = t + (e - t).toNat := by omega
  refine ⟨?_, by simp only [decreaseExponent]; omega⟩
  rw [decreaseExponent, Nat.shiftLeft_eq]
  push_cast
  conv_rhs => rw [hexp, two_zpow_add_nat]
  ring

theorem located_mul_two_zpow (m : Nat) (e : Int) : Located ((m : ℚ) * 2 ^ e / 2 ^ e) m .exact := by
  rw [mul_div_cancel_right₀ _ (two_zpow_pos e).ne']
  exact located_exact m

theorem round_eq (sign : Sign) {m : Nat} (hm : 0 < m) (e : Int) :
    UnpackedFloat.round spec sign m e = unpacked spec sign (m * 2 ^ e) := by
  have hx : (0 : ℚ) < m * 2 ^ e := mul_pos (by exact_mod_cast hm) (two_zpow_pos e)
  have htarget : spec.targetExponent (totalExponent m e) = exponentOf spec ((m : ℚ) * 2 ^ e) :=
    targetExponent_of_located hx (located_mul_two_zpow m e) (fun h => absurd h hm.ne')
  rw [UnpackedFloat.round, htarget]
  generalize ht : exponentOf spec ((m : ℚ) * 2 ^ e) = t
  rcases le_total t e with hle | hle
  · obtain ⟨hvalue, hexp⟩ := decreaseExponent_of_le (m := m) hle
    have hpos : (decreaseExponent m e t).1 ≠ 0 := by
      intro hzero
      rw [hzero, Nat.cast_zero, zero_mul] at hvalue
      exact hx.ne hvalue
    have hlocated : Located ((m : ℚ) * 2 ^ e / 2 ^ t) (decreaseExponent m e t).1 .exact := by
      rw [← hvalue]
      exact located_mul_two_zpow _ t
    simp only [hexp]
    exact roundWithAccuracy_eq sign hx ht.ge hlocated (fun h => absurd h hpos)
  · have hsame : decreaseExponent m e t = (m, e) := by
      have hnone : (e - t).toNat = 0 := by omega
      simp [decreaseExponent, hnone]
    simp only [hsame]
    exact roundWithAccuracy_eq sign hx (ht ▸ hle) (located_mul_two_zpow m e)
      (fun h => absurd h hm.ne')

end AioLM.Rounding
