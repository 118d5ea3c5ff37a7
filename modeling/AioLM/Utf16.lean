import AioLM.Json
import AioLM.TextBytes

/-!
Texts as the UTF-16 units of a script: the characters the units stand for, the bytes a text
encoder makes of them, and the quoted form of a JSON writer.
-/

set_option autoImplicit false

namespace AioLM.Utf16

def isHigh (unit : Nat) : Bool := decide (0xD800 ≤ unit ∧ unit ≤ 0xDBFF)

def isLow (unit : Nat) : Bool := decide (0xDC00 ≤ unit ∧ unit ≤ 0xDFFF)

def isSurrogate (unit : Nat) : Bool := decide (0xD800 ≤ unit ∧ unit ≤ 0xDFFF)

/-- The code points of a string; half of a pair stands for itself. -/
def points : List Nat → List Nat
  | [] => []
  | [unit] => [unit]
  | high :: low :: rest =>
    if isHigh high && isLow low then
      ((high - 0xD800) * 0x400 + (low - 0xDC00) + 0x10000) :: points rest
    else high :: points (low :: rest)

def unitsOfPoint (point : Nat) : List Nat :=
  if point < 0x10000 then [point]
  else [0xD800 + (point - 0x10000) / 0x400, 0xDC00 + (point - 0x10000) % 0x400]

def units (t : Text) : List Nat := t.flatMap fun c => unitsOfPoint c.toNat

/-- Half of a pair is replaced. -/
def scalar (point : Nat) : Char := if isSurrogate point then '\uFFFD' else Char.ofNat point

/-- The characters of a string. -/
def text (s : List Nat) : Text := (points s).map scalar

/-- `TextEncoder.encode` -/
def encode (s : List Nat) : Bytes := TextBytes.encode (text s)

/-- `TextDecoder.decode` where it is fatal: a byte order mark is taken off. -/
def decode (bytes : Bytes) : Option (List Nat) :=
  (TextBytes.decode bytes).map fun t =>
    units (match t with
      | '\uFEFF' :: rest => rest
      | _ => t)

def escapePoint (point : Nat) : List Nat :=
  if isSurrogate point then
    units (['\\', 'u'] ++ [point / 0x1000, point / 0x100 % 0x10, point / 0x10 % 0x10, point % 0x10].map
      Json.hexDigit)
  else units (Json.escapeChar (Char.ofNat point))

/-- A string as `JSON.stringify` writes it. -/
def quote (s : List Nat) : List Nat := units ['"'] ++ (points s).flatMap escapePoint ++ units ['"']

theorem toNat_lt (c : Char) : c.toNat < 0x110000 := by
  rcases c.valid with h | h
  · exact Nat.lt_trans h (by decide)
  · exact h.2

theorem isSurrogate_char (c : Char) : isSurrogate c.toNat = false := by
  rw [isSurrogate, decide_eq_false_iff_not]
  rintro ⟨hlow, hhigh⟩
  rcases c.valid with h | h
  · exact absurd hlow (Nat.not_le_of_lt h)
  · exact absurd hhigh (Nat.not_le_of_lt h.1)

theorem scalar_char (c : Char) : scalar c.toNat = c := by
  rw [scalar, isSurrogate_char, if_neg Bool.false_ne_true, Char.ofNat_toNat]

theorem isHigh_char (c : Char) : isHigh c.toNat = false := by
  have h := isSurrogate_char c
  simp only [isSurrogate, isHigh, decide_eq_false_iff_not] at h ⊢
  omega

theorem points_cons_of_not_high {unit : Nat} (h : isHigh unit = false) (rest : List Nat) :
    points (unit :: rest) = unit :: points rest := by
  cases rest with
  | nil => rfl
  | cons low rest => rw [points, h, Bool.false_and, if_neg Bool.false_ne_true]

theorem points_pair {high low : Nat} (hhigh : isHigh high) (hlow : isLow low) (rest : List Nat) :
    points (high :: low :: rest) =
      ((high - 0xD800) * 0x400 + (low - 0xDC00) + 0x10000) :: points rest := by
  rw [points, hhigh, hlow, Bool.true_and, if_pos rfl]

theorem points_unitsOfPoint (c : Char) (rest : List Nat) :
    points (unitsOfPoint c.toNat ++ rest) = c.toNat :: points rest := by
  have hlt := toNat_lt c
  unfold unitsOfPoint
  split
  · exact points_cons_of_not_high (isHigh_char c) rest
  · rename_i hwide
    rw [List.cons_append, List.cons_append, List.nil_append, points_pair]
    · congr 1
      omega
    · simp only [isHigh, decide_eq_true_eq]
      omega
    · simp only [isLow, decide_eq_true_eq]
      omega

theorem points_units_append (t : Text) (rest : List Nat) :
    points (units t ++ rest) = t.map Char.toNat ++ points rest := by
  induction t with
  | nil => rfl
  | cons c t ih =>
    have hunits : units (c :: t) = unitsOfPoint c.toNat ++ units t := rfl
    rw [hunits, List.append_assoc, points_unitsOfPoint, ih, List.map_cons, List.cons_append]

theorem points_units (t : Text) : points (units t) = t.map Char.toNat := by
  have h := points_units_append t []
  rwa [List.append_nil, points, List.append_nil] at h

theorem text_units (t : Text) : text (units t) = t := by
  rw [text, points_units, List.map_map]
  exact List.map_id'' scalar_char t

@[simp] theorem units_nil : units [] = [] := rfl

theorem units_append (t u : Text) : units (t ++ u) = units t ++ units u := List.flatMap_append

theorem encode_units (t : Text) : encode (units t) = TextBytes.encode t := by
  rw [encode, text_units]

theorem decode_encode {t : Text} (h : t.head? ≠ some '\uFEFF') :
    decode (TextBytes.encode t) = some (units t) := by
  rw [decode, TextBytes.decode_encode, Option.map_some]
  congr 2
  split
  · rename_i rest
    exact absurd rfl h
  · rfl

theorem escapePoint_char (c : Char) : escapePoint c.toNat = units (Json.escapeChar c) := by
  rw [escapePoint, isSurrogate_char, if_neg Bool.false_ne_true, Char.ofNat_toNat]

theorem quote_units (t : Text) : quote (units t) = units (Json.quote t) := by
  have hbody : (points (units t)).flatMap escapePoint = units (t.flatMap Json.escapeChar) := by
    rw [points_units, List.flatMap_map, units, List.flatMap_assoc]
    exact congrArg t.flatMap (funext escapePoint_char)
  rw [quote, hbody, Json.quote, ← units_append, ← units_append]
  rfl

theorem units_of_narrow {t : Text} (h : ∀ c ∈ t, c.toNat < 0x10000) : units t = t.map Char.toNat := by
  induction t with
  | nil => rfl
  | cons c t ih =>
    have hunits : units (c :: t) = unitsOfPoint c.toNat ++ units t := rfl
    rw [hunits, unitsOfPoint, if_pos (h c (by simp)), ih fun d hd => h d (by simp [hd])]
    rfl

end AioLM.Utf16
