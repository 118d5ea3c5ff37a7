import Mathlib.Data.Prod.Lex
import AioLM.Fallible
import AioLM.PaddedNumbers

/-!
Release versions: three numbers, how a tag or a request is read, and how a
version is written.
-/

set_option autoImplicit false

namespace AioLM.AppUpdate

open Fallible

structure Version where
  major : Nat
  minor : Nat
  patch : Nat
  deriving DecidableEq

namespace Version

/-- By the numbers, the first that differs deciding. -/
def triple (v : Version) : Nat ×ₗ Nat ×ₗ Nat := toLex (v.major, toLex (v.minor, v.patch))

theorem triple_injective : Function.Injective triple := by
  rintro ⟨major, minor, patch⟩ ⟨major', minor', patch'⟩ h
  simpa [triple] using h

instance : LinearOrder Version := LinearOrder.lift' triple triple_injective

theorem lt_iff {v w : Version} : v < w ↔
    v.major < w.major ∨ v.major = w.major ∧
      (v.minor < w.minor ∨ v.minor = w.minor ∧ v.patch < w.patch) := by
  change triple v < triple w ↔ _
  simp [triple, Prod.Lex.toLex_lt_toLex]

example : Version.mk 0 1 9 < Version.mk 0 1 10 := by decide +kernel

/-- `Version::to_string` -/
def text (v : Version) : Text :=
  Nat.toDigits 10 v.major ++ '.' :: (Nat.toDigits 10 v.minor ++ '.' :: Nat.toDigits 10 v.patch)

/-- The numbers that are read have at most nine digits. -/
structure Readable (v : Version) : Prop where
  major : v.major < 10 ^ 9
  minor : v.minor < 10 ^ 9
  patch : v.patch < 10 ^ 9

end Version

def invalidVersion (value : Text) : Text :=
  value ++ " is not a stable MAJOR.MINOR.PATCH release version".toList

/-- One of the three numbers. -/
def versionPart (invalid part : Text) : Except Text Nat :=
  if part = [] ∨ 9 < part.utf8Len ∨ ¬ part.all Char.isDigit then .error invalid
  else orError part.parseUsize invalid

def parseVersion (value : Text) : Except Text Version :=
  let text := (Text.stripPrefix ['v'] value).getD value
  match text.splitOn '.' with
  | [major, minor, patch] => do
    let major ← versionPart (invalidVersion value) major
    let minor ← versionPart (invalidVersion value) minor
    let patch ← versionPart (invalidVersion value) patch
    .ok ⟨major, minor, patch⟩
  | _ => .error (invalidVersion value)

def parseRequestedVersion (value : Text) : Except Text Version := do
  let version ← parseVersion value
  require (version.text = value) (invalidVersion value)
  .ok version

variable {invalid part value t : Text} {v w : Version} {n : Nat}

theorem versionPart_lt (h : versionPart invalid part = .ok n) : n < 10 ^ 9 := by
  unfold versionPart at h
  split at h
  · cases h
  · rename_i hpart
    push Not at hpart
    obtain ⟨hne, hlength, hall⟩ := hpart
    have hdigits : ∀ c ∈ part, c.isDigit := List.all_eq_true.mp hall
    have hhead : part.head? ≠ some '+' := by
      intro hplus
      exact absurd (hdigits '+' (List.mem_of_head? hplus)) (by decide)
    rw [orError_eq_ok, Text.parseUsize, if_neg hhead, if_pos ⟨hne, hall⟩] at h
    have hn : Nat.ofDigitChars 10 part 0 = n := by
      dsimp only at h
      split at h
      · exact Option.some.inj h
      · cases h
    rw [Padded.utf8Len_digits hdigits] at hlength
    calc n = Nat.ofDigitChars 10 part 0 := hn.symm
      _ < 10 ^ part.length := Padded.value_lt hdigits
      _ ≤ 10 ^ 9 := Nat.pow_le_pow_right (by decide) hlength

theorem versionPart_toDigits (h : n < 10 ^ 9) :
    versionPart invalid (Nat.toDigits 10 n) = .ok n := by
  have hdigits : ∀ c ∈ Nat.toDigits 10 n, c.isDigit := fun c hc =>
    Nat.isDigit_of_mem_toDigits (by decide) (by decide) hc
  have hhead : (Nat.toDigits 10 n).head? ≠ some '+' := by
    intro hplus
    exact absurd (hdigits '+' (List.mem_of_head? hplus)) (by decide)
  have hall : (Nat.toDigits 10 n).all Char.isDigit = true := List.all_eq_true.mpr hdigits
  have hlength := Padded.utf8Len_toDigits_le (by decide : 0 < 9) h
  rw [versionPart, if_neg, Text.parseUsize, if_neg hhead, if_pos ⟨Nat.toDigits_ne_nil, hall⟩]
  · rw [Nat.ofDigitChars_ten_toDigits]
    dsimp only
    rw [if_pos (by omega)]
    rfl
  · push Not
    exact ⟨Nat.toDigits_ne_nil, hlength, hall⟩

theorem dot_not_mem_toDigits (n : Nat) : '.' ∉ Nat.toDigits 10 n := by
  intro h
  exact absurd (Nat.isDigit_of_mem_toDigits (by decide) (by decide) h) (by decide)

theorem splitOn_text (v : Version) : v.text.splitOn '.' =
    [Nat.toDigits 10 v.major, Nat.toDigits 10 v.minor, Nat.toDigits 10 v.patch] := by
  have hdots : ∀ part ∈ [Nat.toDigits 10 v.major, Nat.toDigits 10 v.minor,
      Nat.toDigits 10 v.patch], '.' ∉ part := by
    simp only [List.mem_cons, List.not_mem_nil, or_false]
    rintro part (rfl | rfl | rfl) <;> exact dot_not_mem_toDigits _
  have hsplit := List.splitOn_intercalate '.' hdots (by simp)
  simpa [List.intercalate, Version.text] using hsplit

theorem stripPrefix_text (v : Version) : Text.stripPrefix ['v'] v.text = none := by
  rw [Text.stripPrefix_eq_none]
  rintro ⟨rest, hrest⟩
  rcases hdigits : Nat.toDigits 10 v.major with _ | ⟨c, digits⟩
  · exact Nat.toDigits_ne_nil hdigits
  · have hc : c.isDigit := Nat.isDigit_of_mem_toDigits (by decide) (by decide)
      (hdigits ▸ List.mem_cons_self)
    rw [Version.text, hdigits] at hrest
    obtain ⟨rfl, -⟩ := List.cons.inj hrest
    exact absurd hc (by decide)

theorem parseVersion_of_split (h : v.Readable)
    (hvalue : (Text.stripPrefix ['v'] value).getD value = v.text) :
    parseVersion value = .ok v := by
  simp only [parseVersion, hvalue, splitOn_text, versionPart_toDigits h.major,
    versionPart_toDigits h.minor, versionPart_toDigits h.patch]
  rfl

theorem parseVersion_text (h : v.Readable) : parseVersion v.text = .ok v :=
  parseVersion_of_split h (by rw [stripPrefix_text, Option.getD_none])

theorem parseVersion_tag (h : v.Readable) : parseVersion ('v' :: v.text) = .ok v := by
  refine parseVersion_of_split h ?_
  have hstrip : Text.stripPrefix ['v'] ('v' :: v.text) = some v.text :=
    Text.stripPrefix_append ['v'] v.text
  rw [hstrip, Option.getD_some]

theorem readable_of_parseVersion (h : parseVersion value = .ok v) : v.Readable := by
  unfold parseVersion at h
  dsimp only at h
  split at h
  · rename_i major minor patch hsplit
    obtain ⟨a, ha, h⟩ := bind_eq_ok.mp h
    obtain ⟨b, hb, h⟩ := bind_eq_ok.mp h
    obtain ⟨c, hc, h⟩ := bind_eq_ok.mp h
    cases h
    exact ⟨versionPart_lt ha, versionPart_lt hb, versionPart_lt hc⟩
  · cases h

theorem parseRequestedVersion_eq_ok :
    parseRequestedVersion value = .ok v ↔ value = v.text ∧ v.Readable := by
  constructor
  · intro h
    obtain ⟨w, hw, h⟩ := bind_eq_ok.mp h
    obtain ⟨_, htext, h⟩ := bind_eq_ok.mp h
    cases h
    exact ⟨(require_eq_ok.mp htext).symm, readable_of_parseVersion hw⟩
  · rintro ⟨rfl, h⟩
    refine bind_eq_ok.mpr ⟨v, parseVersion_text h, ?_⟩
    exact bind_eq_ok.mpr ⟨(), require_eq_ok.mpr rfl, rfl⟩

end AioLM.AppUpdate
