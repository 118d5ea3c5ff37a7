import AioLM.Text

/-!
Numbers written in decimal, as `f64::from_str` and `i64::from_str` read them.
-/

set_option autoImplicit false

namespace AioLM.Options

/-- A decimal text read as `± mantissa * 10 ^ exponent`. -/
structure Decimal where
  negative : Bool
  mantissa : Nat
  exponent : Int

def takeSign : Text → Bool × Text
  | '-' :: rest => (true, rest)
  | '+' :: rest => (false, rest)
  | t => (false, t)

def digitsValue (digits : Text) : Nat := Nat.ofDigitChars 10 digits 0

def scanFraction : Text → Text × Text
  | '.' :: rest => (rest.takeWhile Char.isDigit, rest.dropWhile Char.isDigit)
  | t => ([], t)

def scanExponent : Text → Option Int
  | [] => some 0
  | c :: rest =>
    let (negative, digits) := takeSign rest
    if (c = 'e' ∨ c = 'E') ∧ digits ≠ [] ∧ digits.all Char.isDigit then
      some (if negative then -(digitsValue digits : Int) else digitsValue digits)
    else none

/-- The number grammar of `f64::from_str`, without infinities and NaN. -/
def scanDecimal (word : Text) : Option Decimal :=
  let (negative, t) := takeSign word
  let whole := t.takeWhile Char.isDigit
  let (fraction, t) := scanFraction (t.dropWhile Char.isDigit)
  if whole = [] ∧ fraction = [] then none
  else (scanExponent t).map fun exponent =>
    ⟨negative, digitsValue (whole ++ fraction), exponent - fraction.length⟩

/-- Below the midpoint of the greatest double and 2^1024, which rounds up. -/
def Decimal.finite (d : Decimal) : Bool :=
  let limit := 2 ^ 1024 - 2 ^ 970
  if 0 ≤ d.exponent then decide (d.mantissa * 10 ^ d.exponent.toNat < limit)
  else decide (d.mantissa < limit * 10 ^ (-d.exponent).toNat)

def Decimal.toFloat (d : Decimal) : Float :=
  let x := Float.ofScientific d.mantissa (decide (d.exponent < 0)) d.exponent.natAbs
  if d.negative then -x else x

/-- `text.parse::<i64>()` -/
def parseI64 (text : Text) : Option Int :=
  let (negative, digits) := takeSign text
  if digits ≠ [] ∧ digits.all Char.isDigit then
    let n : Int := if negative then -(digitsValue digits : Int) else digitsValue digits
    if -(2 ^ 63) ≤ n ∧ n < 2 ^ 63 then some n else none
  else none

theorem scanExponent_equals {t : Text} (h : '=' ∈ t) : scanExponent t = none := by
  cases t with
  | nil => cases h
  | cons c rest =>
    have hsign : '=' ∈ rest → '=' ∈ (takeSign rest).2 := by
      intro hmem
      unfold takeSign
      split <;> simp_all
    have hdigit : Char.isDigit '=' = false := by decide
    simp only [scanExponent, ite_eq_right_iff, reduceCtorEq, imp_false]
    rintro ⟨hc, -, hdigits⟩
    rcases List.mem_cons.mp h with rfl | hmem
    · revert hc
      decide
    · have := List.all_eq_true.mp hdigits _ (hsign hmem)
      rw [hdigit] at this
      cases this

theorem dropWhile_digits_equals {t : Text} (h : '=' ∈ t) : '=' ∈ t.dropWhile Char.isDigit := by
  rw [← List.takeWhile_append_dropWhile (p := Char.isDigit) (l := t)] at h
  refine (List.mem_append.mp h).resolve_left fun hmem => ?_
  exact absurd (List.mem_takeWhile_imp hmem) (by decide)

theorem scanDecimal_equals {t : Text} (h : '=' ∈ t) : scanDecimal t = none := by
  have hsign : '=' ∈ (takeSign t).2 := by
    unfold takeSign
    split <;> simp_all
  have hfraction (rest : Text) (hrest : '=' ∈ rest) : '=' ∈ (scanFraction rest).2 := by
    unfold scanFraction
    split
    · exact dropWhile_digits_equals (by simpa using hrest)
    · exact hrest
  simp only [scanDecimal]
  split
  · rfl
  · rw [scanExponent_equals (hfraction _ (dropWhile_digits_equals hsign)), Option.map_none]

end AioLM.Options
