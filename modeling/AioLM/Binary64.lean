import AioLM.Rounding

/-!
The machine's floats that are not negative, as the amounts they stand for: each
operation on them is the exact one followed by one monotone rounding, so it keeps
their order.
-/

set_option autoImplicit false

namespace AioLM.Binary64

open Float.Model UnpackedFloat Rounding

abbrev spec : Format := Format.binary64

/-- Neither a negative number nor no number. -/
def Nonneg : UnpackedFloat → Prop
  | .infinity sign => sign = .positive
  | .notANumber => False
  | .zero _ => True
  | .finite sign _ _ _ => sign = .positive

def amount : UnpackedFloat → WithTop ℚ
  | .infinity _ => ⊤
  | .notANumber => 0
  | .zero _ => 0
  | .finite _ m e _ => ((m * 2 ^ e : ℚ) : WithTop ℚ)

def Proper : UnpackedFloat → Prop
  | .finite _ m e _ => Canonical spec m e ∧ e ≤ 971
  | _ => True

theorem mantissaBits_eq : spec.mantissaBits = 53 := rfl

theorem minExponent_eq : spec.minExponent = -1074 := rfl

theorem toNat_leading (m : BitVec 52) : (1#1 ++ m).toNat = 2 ^ 52 + m.toNat := by
  rw [BitVec.toNat_append, ← Nat.shiftLeft_add_eq_or_of_lt m.isLt]
  rfl

theorem finite_congr {sign : Sign} {m n : Nat} {e f : Int} (hm : 0 < m) (hn : 0 < n)
    (h : (m, e) = (n, f)) : UnpackedFloat.finite sign m e hm = .finite sign n f hn := by
  cases h
  rfl

theorem unpack_components (sign : Sign) (e : BitVec 11) (m : BitVec 52) :
    UnpackedFloat.unpack spec (UnpackedFloat.packComponents spec sign e m) =
      if e = -1#_ then if m = 0#_ then .infinity sign else .notANumber
      else if e = 0#_ then ofMantissa sign m.toNat (-1074)
      else ofMantissa sign (2 ^ 52 + m.toNat) (e.toNat - 1075) := by
  unfold UnpackedFloat.unpack
  simp only [unpackMantissa_packComponents, unpackExponent_packComponents,
    unpackSign_packComponents, Sign.ofBitVec_toBitVec]
  split_ifs with hlast hm hzero hm
  · rfl
  · rfl
  · subst hzero hm
    rfl
  · have hpos : m.toNat ≠ 0 := fun h => hm (BitVec.eq_of_toNat_eq h)
    subst hzero
    rw [ofMantissa, dif_neg hpos]
    rfl
  · have hpos : 2 ^ 52 + m.toNat ≠ 0 := by omega
    rw [ofMantissa, dif_neg hpos]
    exact finite_congr _ _ (by rw [toNat_leading]; rfl)

theorem unpack_pack_ofMantissa {sign : Sign} {m : Nat} {e : Int} (h : Canonical spec m e) :
    UnpackedFloat.unpack spec (UnpackedFloat.pack spec (ofMantissa sign m e)) =
      if 971 < e ∧ m ≠ 0 then .infinity sign else ofMantissa sign m e := by
  have hfits : m < 2 ^ 53 := h.fits
  have habove : -1074 ≤ e := h.above
  by_cases hm : m = 0
  · rw [ofMantissa, dif_pos hm, if_neg (fun h => h.2 hm)]
    change UnpackedFloat.unpack spec (packComponents spec sign 0 0) = _
    rw [unpack_components]
    rfl
  rw [ofMantissa, dif_neg hm, UnpackedFloat.pack]
  have hbias : (e + (spec.exponentBias : Int) + (spec.mantissaBitsWithoutImplicit : Int)).toNat =
      (e + 1075).toNat := by
    change (e + 1023 + 52).toNat = _
    omega
  simp only [hbias]
  by_cases hover : 971 < e
  · have hge : 2 ^ spec.exponentBits ≤ (e + 1075).toNat + 1 := by
      change 2048 ≤ _
      omega
    rw [if_pos hge, if_pos ⟨hover, hm⟩]
    change UnpackedFloat.unpack spec (packComponents spec sign (-1#_) 0) = _
    rw [unpack_components, if_pos rfl]
    rfl
  have hlt : ¬2 ^ spec.exponentBits ≤ (e + 1075).toNat + 1 := by
    change ¬2048 ≤ _
    omega
  rw [if_neg hlt, if_neg (show ¬(971 < e ∧ m ≠ 0) from fun h => hover h.1)]
  by_cases hnormal : m.log2 + 1 = 53
  · have hle : 2 ^ 52 ≤ m := (Nat.le_log2 hm).mp (by omega)
    have htoNat : (BitVec.ofNat 11 (e + 1075).toNat).toNat = (e + 1075).toNat := by
      rw [BitVec.toNat_ofNat, Nat.mod_eq_of_lt (by omega)]
    have hmantissa : (BitVec.ofNat 52 m).toNat = m - 2 ^ 52 := by
      rw [BitVec.toNat_ofNat]
      omega
    have hlast : BitVec.ofNat 11 (e + 1075).toNat ≠ -1#_ := by
      intro heq
      have := congrArg BitVec.toNat heq
      rw [htoNat] at this
      change _ = 2047 at this
      omega
    have hfirst : BitVec.ofNat 11 (e + 1075).toNat ≠ 0#_ := by
      intro heq
      have := congrArg BitVec.toNat heq
      rw [htoNat] at this
      change _ = 0 at this
      omega
    rw [mantissaBits_eq, if_pos hnormal, unpack_components, if_neg hlast, if_neg hfirst, hmantissa, htoNat,
      ofMantissa, dif_neg (by omega)]
    exact finite_congr _ _ (by rw [Prod.mk.injEq]; omega)
  · have hlog : m.log2 < 53 := (Nat.log2_lt hm).mpr hfits
    have hsmall : m < 2 ^ 52 := (Nat.log2_lt hm).mp (by omega)
    have hexp : e = -1074 := h.leading.resolve_right (fun hle => absurd hle (by
      change ¬2 ^ 52 ≤ m
      omega))
    have hmantissa : (BitVec.ofNat 52 m).toNat = m := by
      rw [BitVec.toNat_ofNat, Nat.mod_eq_of_lt hsmall]
    rw [mantissaBits_eq, if_neg hnormal, unpack_components, if_neg (by decide), if_pos rfl, hmantissa, ofMantissa,
      dif_neg hm]
    exact finite_congr _ _ (by rw [hexp])

theorem proper_unpack (f : Float.Model) : Proper f.unpack := by
  have hm : (@unpackMantissa spec f.toBits.toBitVec).toNat < 2 ^ 52 := BitVec.isLt _
  have he : (@unpackExponent spec f.toBits.toBitVec).toNat < 2 ^ 11 := BitVec.isLt _
  unfold Float.Model.unpack UnpackedFloat.unpack
  dsimp only
  split_ifs with hlast hzero hfirst hzero
  · trivial
  · trivial
  · trivial
  · refine ⟨⟨?_, ?_, .inl ?_⟩, ?_⟩
    · exact hm.trans (by decide)
    all_goals
      rw [hfirst]
      decide
  · have hpos : (@unpackExponent spec f.toBits.toBitVec).toNat ≠ 0 :=
      fun h => hfirst (BitVec.eq_of_toNat_eq h)
    have hbelow : (@unpackExponent spec f.toBits.toBitVec).toNat ≠ 2047 :=
      fun h => hlast (BitVec.eq_of_toNat_eq h)
    refine ⟨⟨?_, ?_, .inr ?_⟩, ?_⟩
    · rw [toNat_leading]
      change 2 ^ 52 + _ < 2 ^ 53
      omega
    · change (-1074 : Int) ≤ ((@unpackExponent spec f.toBits.toBitVec).toNat : Int) - 1075
      omega
    · rw [toNat_leading]
      exact Nat.le_add_right _ _
    · change ((@unpackExponent spec f.toBits.toBitVec).toNat : Int) - 1075 ≤ 971
      omega

theorem amount_nonneg (u : UnpackedFloat) : 0 ≤ amount u := by
  cases u with
  | infinity _ => exact le_top
  | notANumber => exact le_refl _
  | zero _ => exact le_refl _
  | finite _ m e _ =>
    exact WithTop.coe_le_coe.mpr (mul_nonneg (Nat.cast_nonneg m) (two_zpow_pos e).le)

/-- Of two canonical numbers the one with the larger exponent is larger, and the mantissas
decide between equal exponents. -/
theorem canonical_le_iff {m n : Nat} {e f : Int} (hm : Canonical spec m e)
    (hn : Canonical spec n f) (hpos : 0 < m) (hpos' : 0 < n) :
    (m : ℚ) * 2 ^ e ≤ n * 2 ^ f ↔ e < f ∨ e = f ∧ m ≤ n := by
  have hexp := hm.exponentOf hpos
  have hexp' := hn.exponentOf hpos'
  have hx : (0 : ℚ) < m * 2 ^ e := mul_pos (by exact_mod_cast hpos) (two_zpow_pos e)
  have hy : (0 : ℚ) < n * 2 ^ f := mul_pos (by exact_mod_cast hpos') (two_zpow_pos f)
  rcases lt_trichotomy e f with hlt | rfl | hgt
  · refine iff_of_true (le_of_not_gt fun hgt => ?_) (.inl hlt)
    have := exponentOf_mono spec hy hgt.le
    omega
  · rw [mul_le_mul_iff_left₀ (two_zpow_pos e)]
    simp
  · refine iff_of_false (fun hle => ?_) (by omega)
    have := exponentOf_mono spec hx hle
    omega

theorem le_iff_amount {u v : UnpackedFloat} (hu : Nonneg u) (hv : Nonneg v) (hpu : Proper u)
    (hpv : Proper v) : u.le v = true ↔ amount u ≤ amount v := by
  have hpos {m : Nat} (hm : 0 < m) (e : Int) : (0 : ℚ) < m * 2 ^ e :=
    mul_pos (by exact_mod_cast hm) (two_zpow_pos e)
  cases u with
  | notANumber => exact hu.elim
  | infinity s =>
    obtain rfl : s = .positive := hu
    cases v with
    | notANumber => exact hv.elim
    | infinity t =>
      obtain rfl : t = .positive := hv
      exact iff_of_true rfl (le_refl _)
    | zero t => exact iff_of_false (by simp [UnpackedFloat.le, UnpackedFloat.compare]) (by simp [amount])
    | finite t n f hn =>
      obtain rfl : t = .positive := hv
      refine iff_of_false (by simp [UnpackedFloat.le, UnpackedFloat.compare]) fun hle => ?_
      exact WithTop.coe_ne_top (top_le_iff.mp hle)
  | zero s =>
    cases v with
    | notANumber => exact hv.elim
    | infinity t =>
      obtain rfl : t = .positive := hv
      exact iff_of_true rfl le_top
    | zero t => exact iff_of_true rfl (le_refl _)
    | finite t n f hn =>
      obtain rfl : t = .positive := hv
      exact iff_of_true rfl (amount_nonneg _)
  | finite s m e hm =>
    obtain rfl : s = .positive := hu
    cases v with
    | notANumber => exact hv.elim
    | infinity t =>
      obtain rfl : t = .positive := hv
      exact iff_of_true rfl le_top
    | zero t =>
      refine iff_of_false (by simp [UnpackedFloat.le, UnpackedFloat.compare]) (fun hle => ?_)
      have : (m : ℚ) * 2 ^ e ≤ 0 := WithTop.coe_le_coe.mp hle
      exact absurd this (not_le.mpr (hpos hm e))
    | finite t n f hn =>
      obtain rfl : t = .positive := hv
      have hle : amount (.finite .positive m e hm) ≤ amount (.finite .positive n f hn) ↔
          (m : ℚ) * 2 ^ e ≤ n * 2 ^ f := WithTop.coe_le_coe
      rw [hle, canonical_le_iff hpu.1 hpv.1 hm hn]
      simp only [UnpackedFloat.le, UnpackedFloat.compare, Option.any_some]
      rcases lt_trichotomy e f with hlt | rfl | hgt
      · rw [compare_lt_iff_lt.mpr hlt]
        simpa using .inl hlt
      · rw [compare_eq_iff_eq.mpr rfl]
        simp [Ordering.then, Nat.isLE_compare]
      · rw [compare_gt_iff_gt.mpr hgt]
        simp
        omega

/-- The first power of two out of range -/
def limit : ℚ := 2 ^ (1024 : Int)

theorem limit_eq : limit = 2 ^ (53 : Nat) * 2 ^ (971 : Int) := by
  rw [limit, mul_comm, ← two_zpow_add_nat]
  rfl

theorem limit_eq' : limit = 2 ^ (52 : Nat) * 2 ^ (972 : Int) := by
  rw [limit, mul_comm, ← two_zpow_add_nat]
  rfl

theorem limit_pos : 0 < limit := two_zpow_pos _

/-- What an amount is rounded to, infinity beyond the range. -/
def shown : WithTop ℚ → WithTop ℚ
  | ⊤ => ⊤
  | (x : ℚ) => if limit ≤ rounded spec x then ⊤ else (rounded spec x : ℚ)

theorem shown_coe (x : ℚ) :
    shown x = if limit ≤ rounded spec x then ⊤ else ((rounded spec x : ℚ) : WithTop ℚ) :=
  rfl

theorem lt_limit {m : Nat} {e : Int} (h : m < 2 ^ 53) (he : e ≤ 971) :
    (m : ℚ) * 2 ^ e < limit := by
  have hm : (m : ℚ) < 2 ^ (53 : Nat) := by exact_mod_cast h
  have hexp : (2 : ℚ) ^ e ≤ 2 ^ (971 : Int) := zpow_le_zpow_right₀ (by norm_num) he
  calc (m : ℚ) * 2 ^ e < 2 ^ (53 : Nat) * 2 ^ e := mul_lt_mul_of_pos_right hm (two_zpow_pos e)
    _ ≤ 2 ^ (53 : Nat) * 2 ^ (971 : Int) := mul_le_mul_of_nonneg_left hexp (by positivity)
    _ = limit := limit_eq.symm

theorem limit_le {m : Nat} {e : Int} (h : Canonical spec m e) (he : 971 < e) :
    limit ≤ (m : ℚ) * 2 ^ e := by
  have hleading : (2 : ℚ) ^ (52 : Nat) ≤ m := by
    rcases h.leading with heq | hle
    · rw [minExponent_eq] at heq
      omega
    · exact_mod_cast hle
  have hexp : (2 : ℚ) ^ (972 : Int) ≤ 2 ^ e := zpow_le_zpow_right₀ (by norm_num) he
  rw [limit_eq']
  exact mul_le_mul hleading hexp (two_zpow_pos _).le (Nat.cast_nonneg m)

theorem shown_mono {a b : WithTop ℚ} (ha : 0 ≤ a) (h : a ≤ b) : shown a ≤ shown b := by
  induction b using WithTop.recTopCoe with
  | top => exact le_top
  | coe y =>
    induction a using WithTop.recTopCoe with
    | top => exact absurd h (by simp)
    | coe x =>
      have hx : 0 ≤ x := by exact_mod_cast ha
      have hle : rounded spec x ≤ rounded spec y :=
        rounded_mono spec hx (WithTop.coe_le_coe.mp h)
      rw [shown_coe, shown_coe]
      split_ifs with hbig hbig' hbig'
      · exact le_refl _
      · exact absurd (hbig.trans hle) hbig'
      · exact le_top
      · exact WithTop.coe_le_coe.mpr hle

theorem shown_zero : shown 0 = 0 := by
  change shown ((0 : ℚ) : WithTop ℚ) = _
  rw [shown_coe, rounded_zero, if_neg (not_le.mpr limit_pos)]
  rfl

theorem amount_ofMantissa (sign : Sign) (m : Nat) (e : Int) :
    amount (ofMantissa sign m e) = ((m * 2 ^ e : ℚ) : WithTop ℚ) := by
  unfold ofMantissa
  split_ifs with h
  · rw [h, Nat.cast_zero, zero_mul]
    rfl
  · rfl

theorem nonneg_ofMantissa (m : Nat) (e : Int) : Nonneg (ofMantissa .positive m e) := by
  unfold ofMantissa
  split_ifs
  · trivial
  · rfl

theorem packed_ofMantissa {m : Nat} {e : Int} (h : Canonical spec m e) :
    Nonneg (UnpackedFloat.unpack spec (UnpackedFloat.pack spec (ofMantissa .positive m e))) ∧
    amount (UnpackedFloat.unpack spec (UnpackedFloat.pack spec (ofMantissa .positive m e))) =
      if limit ≤ m * 2 ^ e then ⊤ else ((m * 2 ^ e : ℚ) : WithTop ℚ) := by
  rw [unpack_pack_ofMantissa h]
  by_cases hover : 971 < e ∧ m ≠ 0
  · rw [if_pos hover, if_pos (limit_le h hover.1)]
    exact ⟨rfl, rfl⟩
  · have hlt : (m : ℚ) * 2 ^ e < limit := by
      rcases not_and_or.mp hover with he | hm
      · exact lt_limit h.fits (not_lt.mp he)
      · rw [not_not.mp hm, Nat.cast_zero, zero_mul]
        exact limit_pos
    rw [if_neg hover, if_neg (not_le.mpr hlt)]
    exact ⟨nonneg_ofMantissa m e, amount_ofMantissa _ m e⟩

theorem canonical_unpacked {x : ℚ} (hx : 0 < x) : ∃ m e,
    unpacked spec .positive x = ofMantissa .positive m e ∧ Canonical spec m e ∧
      (m : ℚ) * 2 ^ e = rounded spec x := by
  unfold unpacked
  split_ifs with hfull
  · refine ⟨_, _, rfl, ⟨by decide, ?_, .inr (le_refl _)⟩, ?_⟩
    · have := minExponent_le_exponentOf spec x
      omega
    · rw [rounded, hfull, zpow_add_one₀ (by norm_num)]
      push_cast
      change (2 : ℚ) ^ 52 * _ = 2 ^ 53 * _
      ring
  · refine ⟨_, _, rfl, ⟨lt_of_le_of_ne (mantissaOf_le spec x) hfull,
      minExponent_le_exponentOf spec x, ?_⟩, rfl⟩
    rcases (minExponent_le_exponentOf spec x).eq_or_lt with heq | hlt
    · exact .inl heq.symm
    · exact .inr (le_mantissaOf spec hx hlt)

theorem packed_unpacked {x : ℚ} (hx : 0 < x) :
    Nonneg (UnpackedFloat.unpack spec (UnpackedFloat.pack spec (unpacked spec .positive x))) ∧
    amount (UnpackedFloat.unpack spec (UnpackedFloat.pack spec (unpacked spec .positive x))) =
      shown x := by
  obtain ⟨m, e, heq, hcanonical, hvalue⟩ := canonical_unpacked hx
  obtain ⟨hnonneg, hamount⟩ := packed_ofMantissa hcanonical
  rw [heq]
  refine ⟨hnonneg, ?_⟩
  rw [hamount, hvalue, shown_coe]

/-- The operation is exact up to one rounding. -/
def Shows (u : UnpackedFloat) (a : WithTop ℚ) : Prop :=
  Nonneg (UnpackedFloat.unpack spec (UnpackedFloat.pack spec u)) ∧
    amount (UnpackedFloat.unpack spec (UnpackedFloat.pack spec u)) = shown a

theorem shows_infinity : Shows (.infinity .positive) ⊤ := by
  have h : UnpackedFloat.unpack spec (UnpackedFloat.pack spec (.infinity .positive)) =
      .infinity .positive := by
    change UnpackedFloat.unpack spec (packComponents spec .positive (-1#_) 0) = _
    rw [unpack_components, if_pos rfl]
    rfl
  rw [Shows, h]
  exact ⟨rfl, rfl⟩

theorem shows_zero (sign : Sign) : Shows (.zero sign) 0 := by
  have h : UnpackedFloat.unpack spec (UnpackedFloat.pack spec (.zero sign)) = .zero sign := by
    change UnpackedFloat.unpack spec (packComponents spec sign 0 0) = _
    rw [unpack_components]
    rfl
  rw [Shows, h, shown_zero]
  exact ⟨trivial, rfl⟩

theorem shows_finite {m : Nat} {e : Int} (hm : 0 < m) (h : Canonical spec m e) :
    Shows (.finite .positive m e hm) ((m * 2 ^ e : ℚ) : WithTop ℚ) := by
  have heq : UnpackedFloat.finite .positive m e hm = ofMantissa .positive m e := by
    rw [ofMantissa, dif_neg hm.ne']
  obtain ⟨hnonneg, hamount⟩ := packed_ofMantissa h
  rw [Shows, heq]
  refine ⟨hnonneg, ?_⟩
  rw [hamount, shown_coe, h.rounded]

theorem shows_add {u v : UnpackedFloat} (hu : Nonneg u) (hv : Nonneg v) (hpu : Proper u)
    (hpv : Proper v) : Shows (u.add spec v) (amount u + amount v) := by
  cases u with
  | notANumber => exact hu.elim
  | infinity s =>
    obtain rfl : s = .positive := hu
    cases v with
    | notANumber => exact hv.elim
    | infinity t =>
      obtain rfl : t = .positive := hv
      exact shows_infinity
    | zero t => exact shows_infinity
    | finite t n f hn => exact shows_infinity
  | zero s =>
    cases v with
    | notANumber => exact hv.elim
    | infinity t =>
      obtain rfl : t = .positive := hv
      exact shows_infinity
    | zero t =>
      simp only [amount, add_zero, UnpackedFloat.add]
      split_ifs <;> exact shows_zero _
    | finite t n f hn =>
      obtain rfl : t = .positive := hv
      simp only [amount, zero_add, UnpackedFloat.add]
      exact shows_finite hn hpv.1
  | finite s m e hm =>
    obtain rfl : s = .positive := hu
    cases v with
    | notANumber => exact hv.elim
    | infinity t =>
      obtain rfl : t = .positive := hv
      exact shows_infinity
    | zero t =>
      simp only [amount, add_zero, UnpackedFloat.add]
      exact shows_finite hm hpu.1
    | finite t n f hn =>
      obtain rfl : t = .positive := hv
      obtain ⟨hvalue, -⟩ := decreaseExponent_of_le (m := m) (min_le_left e f)
      obtain ⟨hvalue', -⟩ := decreaseExponent_of_le (m := n) (min_le_right e f)
      have hpos : 0 < (decreaseExponent m e (min e f)).1 + (decreaseExponent n f (min e f)).1 := by
        have : (decreaseExponent m e (min e f)).1 ≠ 0 := by
          simp [decreaseExponent, Nat.shiftLeft_eq, hm.ne']
        omega
      have hround : (UnpackedFloat.finite .positive m e hm).add spec (.finite .positive n f hn) =
          UnpackedFloat.round spec .positive
            ((decreaseExponent m e (min e f)).1 + (decreaseExponent n f (min e f)).1)
            (min e f) := by
        simp only [UnpackedFloat.add, Sign.apply, UnpackedFloat.normalize]
        rw [compare_gt_iff_gt.mpr (by exact_mod_cast hpos)]
        rfl
      have hsum : (((decreaseExponent m e (min e f)).1 + (decreaseExponent n f (min e f)).1 : Nat)
          : ℚ) * 2 ^ min e f = m * 2 ^ e + n * 2 ^ f := by
        rw [Nat.cast_add, add_mul, hvalue, hvalue']
      rw [hround, round_eq .positive hpos, hsum]
      refine packed_unpacked (add_pos ?_ ?_)
      · exact mul_pos (by exact_mod_cast hm) (two_zpow_pos e)
      · exact mul_pos (by exact_mod_cast hn) (two_zpow_pos f)

theorem log_mul_ge {m n : Nat} (hm : 0 < m) (hn : 0 < n) : m.log2 + n.log2 ≤ (m * n).log2 := by
  rw [Nat.le_log2 (Nat.mul_pos hm hn).ne', pow_add]
  exact Nat.mul_le_mul (Nat.log2_self_le hm.ne') (Nat.log2_self_le hn.ne')

theorem shows_mul {u : UnpackedFloat} {n : Nat} {f : Int} (hn : 0 < n) (hu : Nonneg u)
    (hpu : Proper u) (hpn : Canonical spec n f) :
    Shows (u.mul spec (.finite .positive n f hn)) ((amount u).map (· * (n * 2 ^ f))) := by
  cases u with
  | notANumber => exact hu.elim
  | infinity s =>
    obtain rfl : s = .positive := hu
    exact shows_infinity
  | zero s =>
    have hzero : (amount (.zero s)).map (· * ((n : ℚ) * 2 ^ f)) = 0 := by
      change (((0 : ℚ) * (n * 2 ^ f) : ℚ) : WithTop ℚ) = 0
      rw [zero_mul]
      rfl
    rw [hzero]
    exact shows_zero _
  | finite s m e hm =>
    obtain rfl : s = .positive := hu
    have hx : (0 : ℚ) < ((m * n : Nat) : ℚ) * 2 ^ (e + f) :=
      mul_pos (by exact_mod_cast Nat.mul_pos hm hn) (two_zpow_pos _)
    have hproduct : (m : ℚ) * 2 ^ e * (n * 2 ^ f) = ((m * n : Nat) : ℚ) * 2 ^ (e + f) := by
      rw [zpow_add₀ (by norm_num)]
      push_cast
      ring
    have hexp : e + f ≤ exponentOf spec (((m * n : Nat) : ℚ) * 2 ^ (e + f)) := by
      rw [exponentOf, log_mul_two_zpow (Nat.mul_pos hm hn), Format.targetExponent,
        mantissaBits_eq, minExponent_eq]
      have hlog := log_mul_ge hm hn
      have hleft : e = -1074 ∨ 52 ≤ m.log2 :=
        hpu.1.leading.imp id (fun h => (Nat.le_log2 hm.ne').mpr h)
      have hright : f = -1074 ∨ 52 ≤ n.log2 :=
        hpn.leading.imp id (fun h => (Nat.le_log2 hn.ne').mpr h)
      omega
    have hround : (UnpackedFloat.finite .positive m e hm).mul spec (.finite .positive n f hn) =
        unpacked spec .positive (((m * n : Nat) : ℚ) * 2 ^ (e + f)) :=
      roundWithAccuracy_eq .positive hx hexp (located_mul_two_zpow _ _)
        (fun h => absurd h (Nat.mul_pos hm hn).ne')
    have hamount : (amount (.finite .positive m e hm)).map (· * ((n : ℚ) * 2 ^ f)) =
        ((((m * n : Nat) : ℚ) * 2 ^ (e + f) : ℚ) : WithTop ℚ) := by
      rw [← hproduct]
      rfl
    rw [hround, hamount]
    exact packed_unpacked hx

theorem shows_div {u : UnpackedFloat} {n : Nat} {f : Int} (hn : 0 < n) (hu : Nonneg u) :
    Shows (u.div spec (.finite .positive n f hn)) ((amount u).map (· / (n * 2 ^ f))) := by
  cases u with
  | notANumber => exact hu.elim
  | infinity s =>
    obtain rfl : s = .positive := hu
    exact shows_infinity
  | zero s =>
    have hzero : (amount (.zero s)).map (· / ((n : ℚ) * 2 ^ f)) = 0 := by
      change (((0 : ℚ) / (n * 2 ^ f) : ℚ) : WithTop ℚ) = 0
      rw [zero_div]
      rfl
    rw [hzero]
    exact shows_zero _
  | finite s m e hm =>
    obtain rfl : s = .positive := hu
    have hmpos : (0 : ℚ) < m * 2 ^ e := mul_pos (by exact_mod_cast hm) (two_zpow_pos e)
    have hnpos : (0 : ℚ) < n * 2 ^ f := mul_pos (by exact_mod_cast hn) (two_zpow_pos f)
    have hx : (0 : ℚ) < m * 2 ^ e / (n * 2 ^ f) := div_pos hmpos hnpos
    have hamount : (amount (.finite .positive m e hm)).map (· / ((n : ℚ) * 2 ^ f)) =
        (((m : ℚ) * 2 ^ e / (n * 2 ^ f) : ℚ) : WithTop ℚ) := rfl
    obtain ⟨t, ht⟩ : ∃ t, t = min (e - f)
        (spec.targetExponent (totalExponent m e - totalExponent n f)) := ⟨_, rfl⟩
    have hround : (UnpackedFloat.finite .positive m e hm).div spec (.finite .positive n f hn) =
        roundWithAccuracy spec .positive (m <<< (e - f - t).toNat / n) t
          (accuracyOfFraction (m <<< (e - f - t).toNat % n) n) := by
      rw [ht]
      rfl
    have hshift : ((m <<< (e - f - t).toNat : Nat) : ℚ) * 2 ^ t * 2 ^ f = m * 2 ^ e := by
      have hexp : e = t + f + (e - f - t).toNat := by omega
      rw [Nat.shiftLeft_eq]
      push_cast
      conv_rhs => rw [hexp, two_zpow_add_nat, zpow_add₀ (by norm_num)]
      ring
    have hscaled : (m : ℚ) * 2 ^ e / (n * 2 ^ f) / 2 ^ t =
        ((m <<< (e - f - t).toNat : Nat) : ℚ) / n := by
      have hnq : (n : ℚ) ≠ 0 := by exact_mod_cast hn.ne'
      have hne := (two_zpow_pos t).ne'
      have hne' := (two_zpow_pos f).ne'
      rw [← hshift, div_div, div_eq_div_iff (mul_ne_zero (mul_ne_zero hnq hne') hne) hnq]
      ring
    have hlog : (m.log2 + e - (n.log2 + f) : Int) ≤ Int.log 2 ((m : ℚ) * 2 ^ e / (n * 2 ^ f)) + 1 := by
      have hlower : (2 : ℚ) ^ (m.log2 + e : Int) ≤ m * 2 ^ e := by
        rw [← log_mul_two_zpow hm e]
        exact_mod_cast Int.zpow_log_le_self (by norm_num) hmpos
      have hupper : (n : ℚ) * 2 ^ f ≤ 2 ^ (n.log2 + f + 1 : Int) := by
        rw [← log_mul_two_zpow hn f]
        exact_mod_cast (Int.lt_zpow_succ_log_self (by norm_num) ((n : ℚ) * 2 ^ f)).le
      have hquotient : (2 : ℚ) ^ (m.log2 + e - (n.log2 + f + 1) : Int) ≤ m * 2 ^ e / (n * 2 ^ f) := by
        rw [zpow_sub₀ (by norm_num)]
        exact div_le_div₀ hmpos.le hlower hnpos hupper
      have hle : (m.log2 + e - (n.log2 + f + 1) : Int) ≤
          Int.log 2 ((m : ℚ) * 2 ^ e / (n * 2 ^ f)) :=
        (Int.zpow_le_iff_le_log (by norm_num) hx).mp (by exact_mod_cast hquotient)
      omega
    have hexp : t ≤ exponentOf spec ((m : ℚ) * 2 ^ e / (n * 2 ^ f)) := by
      rw [ht, exponentOf]
      simp only [Format.targetExponent, totalExponent]
      omega
    have hzero : m <<< (e - f - t).toNat / n = 0 → t ≤ spec.minExponent := by
      intro hdiv
      have hlt : m <<< (e - f - t).toNat < n := (Nat.div_eq_zero_iff_lt hn).mp hdiv
      have hshiftPos : 0 < m <<< (e - f - t).toNat := by
        rw [Nat.shiftLeft_eq]
        exact Nat.mul_pos hm (Nat.two_pow_pos _)
      have hlogs : m.log2 + (e - f - t).toNat ≤ n.log2 := by
        rw [Nat.le_log2 hn.ne', pow_add]
        rw [Nat.shiftLeft_eq] at hlt
        exact le_trans (Nat.mul_le_mul_right _ (Nat.log2_self_le hm.ne')) hlt.le
      simp only [Format.targetExponent, totalExponent, mantissaBits_eq] at ht
      omega
    rw [hround, hamount, roundWithAccuracy_eq .positive hx hexp ?_ hzero]
    · exact packed_unpacked hx
    · rw [hscaled]
      exact located_div _ hn

def value (x : Float) : WithTop ℚ := amount x.toModel.unpack

def IsNonneg (x : Float) : Prop := Nonneg x.toModel.unpack

variable {x y : Float}

theorem value_nonneg (x : Float) : 0 ≤ value x := amount_nonneg _

theorem add_spec (hx : IsNonneg x) (hy : IsNonneg y) :
    IsNonneg (x + y) ∧ value (x + y) = shown (value x + value y) :=
  shows_add hx hy (proper_unpack _) (proper_unpack _)

def Stands (x : Float) (q : ℚ) : Prop :=
  ∃ m e, ∃ hm : 0 < m, x.toModel.unpack = .finite .positive m e hm ∧ (m : ℚ) * 2 ^ e = q

theorem Stands.pos {q : ℚ} (h : Stands x q) : 0 < q := by
  obtain ⟨m, e, hm, -, rfl⟩ := h
  exact mul_pos (by exact_mod_cast hm) (two_zpow_pos e)

theorem stands_of_value {q : ℚ} (hx : IsNonneg x) (h : value x = q) (hq : 0 < q) : Stands x q := by
  unfold value at h
  unfold IsNonneg at hx
  rw [Stands]
  generalize x.toModel.unpack = u at h hx
  cases u with
  | notANumber => exact hx.elim
  | infinity _ => cases h
  | zero _ => exact absurd (WithTop.coe_injective h) hq.ne
  | finite s m e hm =>
    obtain rfl : s = .positive := hx
    exact ⟨m, e, hm, rfl, WithTop.coe_injective h⟩

theorem mul_spec {q : ℚ} (hx : IsNonneg x) (hy : Stands y q) :
    IsNonneg (x * y) ∧ value (x * y) = shown ((value x).map (· * q)) := by
  obtain ⟨m, e, hm, hunpack, rfl⟩ := hy
  have hproper := proper_unpack y.toModel
  rw [hunpack] at hproper
  have h := shows_mul hm hx (proper_unpack x.toModel) hproper.1
  rw [← hunpack] at h
  exact h

theorem div_spec {q : ℚ} (hx : IsNonneg x) (hy : Stands y q) :
    IsNonneg (x / y) ∧ value (x / y) = shown ((value x).map (· / q)) := by
  obtain ⟨m, e, hm, hunpack, rfl⟩ := hy
  have h := shows_div (f := e) hm hx
  rw [← hunpack] at h
  exact h

theorem le_iff_unpack : x ≤ y ↔ x.toModel.unpack.le y.toModel.unpack = true :=
  decide_eq_true_iff

theorem le_iff_value (hx : IsNonneg x) (hy : IsNonneg y) : x ≤ y ↔ value x ≤ value y :=
  le_iff_unpack.trans (le_iff_amount hx hy (proper_unpack _) (proper_unpack _))

theorem isFinite_iff_value (hx : IsNonneg x) : x.isFinite = true ↔ value x ≠ ⊤ := by
  unfold IsNonneg at hx
  change x.toModel.unpack.isFinite = true ↔ amount x.toModel.unpack ≠ ⊤
  generalize x.toModel.unpack = u at hx
  cases u with
  | notANumber => exact hx.elim
  | infinity _ => simp [UnpackedFloat.isFinite, amount]
  | zero _ => simp [UnpackedFloat.isFinite, amount]
  | finite _ m e hm => exact iff_of_true rfl WithTop.coe_ne_top

theorem toFloat_spec (n : UInt64) : IsNonneg n.toFloat ∧ value n.toFloat = shown (n.toNat : ℚ) := by
  have hshows : Shows (UnpackedFloat.ofUInt64 spec n) (((n.toNat : Nat) : ℚ) : WithTop ℚ) := by
    rcases Nat.eq_zero_or_pos n.toNat with hzero | hpos
    · have heq : UnpackedFloat.ofUInt64 spec n = .zero .positive := by
        simp [UnpackedFloat.ofUInt64, UnpackedFloat.ofNat, UnpackedFloat.ofInt,
          UnpackedFloat.normalize, hzero]
      rw [heq, hzero, Nat.cast_zero]
      exact shows_zero _
    · have heq : UnpackedFloat.ofUInt64 spec n = unpacked spec .positive ((n.toNat : ℚ) * 2 ^ (0 : Int)) := by
        rw [← round_eq .positive hpos]
        simp only [UnpackedFloat.ofUInt64, UnpackedFloat.ofNat, UnpackedFloat.ofInt,
          UnpackedFloat.normalize]
        rw [compare_gt_iff_gt.mpr (by exact_mod_cast hpos)]
        rfl
      rw [heq, zpow_zero, mul_one]
      exact packed_unpacked (by exact_mod_cast hpos)
  exact hshows

theorem zero_le_iff : (0 : Float) ≤ x ↔ IsNonneg x := by
  have hzero : (0 : Float).toModel.unpack = .zero .positive := by
    change UnpackedFloat.unpack spec (packComponents spec .positive 0 0) = _
    rw [unpack_components]
    rfl
  rw [le_iff_unpack, hzero, IsNonneg]
  generalize x.toModel.unpack = u
  cases u with
  | notANumber => simp [UnpackedFloat.le, UnpackedFloat.compare, Nonneg]
  | infinity s => cases s <;> simp [UnpackedFloat.le, UnpackedFloat.compare, Nonneg]
  | zero s => simp [UnpackedFloat.le, UnpackedFloat.compare, Nonneg]
  | finite s m e hm => cases s <;> simp [UnpackedFloat.le, UnpackedFloat.compare, Nonneg]

theorem value_add_le {x' y' : Float} (hx : IsNonneg x) (hy : IsNonneg y) (hx' : IsNonneg x')
    (hy' : IsNonneg y') (h : value x ≤ value x') (h' : value y ≤ value y') :
    value (x + y) ≤ value (x' + y') := by
  rw [(add_spec hx hy).2, (add_spec hx' hy').2]
  exact shown_mono (add_nonneg (value_nonneg x) (value_nonneg y)) (add_le_add h h')

theorem map_div_mono {q : ℚ} (hq : 0 < q) {a b : WithTop ℚ} (ha : 0 ≤ a) (h : a ≤ b) :
    0 ≤ a.map (· / q) ∧ a.map (· / q) ≤ b.map (· / q) := by
  induction a using WithTop.recTopCoe with
  | top =>
    rw [top_le_iff.mp h]
    exact ⟨le_top, le_refl _⟩
  | coe x =>
    have hx : 0 ≤ x := WithTop.coe_le_coe.mp ha
    refine ⟨WithTop.coe_le_coe.mpr (div_nonneg hx hq.le), ?_⟩
    induction b using WithTop.recTopCoe with
    | top => exact le_top
    | coe y =>
      exact WithTop.coe_le_coe.mpr (div_le_div_of_nonneg_right (WithTop.coe_le_coe.mp h) hq.le)

theorem value_div_le {x' : Float} {q : ℚ} (hx : IsNonneg x) (hx' : IsNonneg x') (hy : Stands y q)
    (h : value x ≤ value x') : value (x / y) ≤ value (x' / y) := by
  obtain ⟨hpos, hle⟩ := map_div_mono hy.pos (value_nonneg x) h
  rw [(div_spec hx hy).2, (div_spec hx' hy).2]
  exact shown_mono hpos hle

/-- Whole numbers of few bits and their products with powers of two are kept. -/
theorem shown_exact {m : Nat} {e : Int} (hm : m < 2 ^ 53) (he : -1074 ≤ e) (he' : e ≤ 971) :
    shown ((m * 2 ^ e : ℚ) : WithTop ℚ) = ((m * 2 ^ e : ℚ) : WithTop ℚ) := by
  rw [shown_coe, rounded_exact hm he, if_neg (not_le.mpr (lt_limit hm he'))]

theorem shown_natCast {n : Nat} (hn : n < 2 ^ 53) : shown (n : ℚ) = (n : ℚ) := by
  simpa using shown_exact (e := 0) hn (by norm_num) (by norm_num)

theorem rounded_two_pow (k : Nat) : rounded spec (2 ^ k) = 2 ^ k := by
  have hmin : (-1074 : Int) ≤ k := by omega
  have h := @rounded_exact spec 1 k (by decide) hmin
  simpa using h

theorem shown_of_le {x : ℚ} {k : Nat} (hk : k ≤ 971) (hx : 0 ≤ x) (h : x ≤ 2 ^ k) :
    shown x = (rounded spec x : ℚ) ∧ rounded spec x ≤ 2 ^ k := by
  have hle : rounded spec x ≤ 2 ^ k := (rounded_mono spec hx h).trans_eq (rounded_two_pow k)
  have hlt : (2 : ℚ) ^ k < limit := by
    simpa using @lt_limit 1 k (by decide) (by omega)
  exact ⟨by rw [shown_coe, if_neg (not_le.mpr (hle.trans_lt hlt))], hle⟩

end AioLM.Binary64
