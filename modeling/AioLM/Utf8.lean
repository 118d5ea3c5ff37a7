import Mathlib.Data.List.Count
import Mathlib.Data.List.ReduceOption
import AioLM.Framing

/-!
Lossy UTF-8 decoding of a byte stream that arrives in pieces. The decoder is a
byte automaton; every maximal broken sequence becomes one replacement
character. A cut flushes the automaton, and this file says what that changes.
-/

set_option autoImplicit false

namespace AioLM.Utf8

open Framing

/-- Between characters, or inside one: the window the next byte has to be in,
the bits read so far and how many bytes follow the next one. -/
inductive State where
  | start
  | mid (more lo hi acc : Nat)
  deriving DecidableEq

/-- U+FFFD, which stands for a broken sequence. -/
def replacement : Char := '\uFFFD'

/-- The first byte of a longer character. -/
def lead (b : Nat) : Option State :=
  if 0xC2 ≤ b ∧ b ≤ 0xDF then some (.mid 0 0x80 0xBF (b - 0xC0))
  else if b = 0xE0 then some (.mid 1 0xA0 0xBF 0)
  else if b = 0xED then some (.mid 1 0x80 0x9F 0xD)
  else if 0xE1 ≤ b ∧ b ≤ 0xEF then some (.mid 1 0x80 0xBF (b - 0xE0))
  else if b = 0xF0 then some (.mid 2 0x90 0xBF 0)
  else if 0xF1 ≤ b ∧ b ≤ 0xF3 then some (.mid 2 0x80 0xBF (b - 0xF0))
  else if b = 0xF4 then some (.mid 2 0x80 0x8F 4)
  else none

/-- A byte read between characters. -/
def opening (b : Nat) : List Char × State :=
  if b < 0x80 then ([Char.ofNat b], .start)
  else
    match lead b with
    | some s => ([], s)
    | none => ([replacement], .start)

def flush : State → List Char
  | .start => []
  | .mid _ _ _ _ => [replacement]

def step : State → Nat → List Char × State
  | .start, b => opening b
  | .mid more lo hi acc, b =>
    if lo ≤ b ∧ b ≤ hi then
      match more with
      | 0 => ([Char.ofNat (acc * 64 + (b - 0x80))], .start)
      | n + 1 => ([], .mid n 0x80 0xBF (acc * 64 + (b - 0x80)))
    else (replacement :: (opening b).1, (opening b).2)

def decode : State → List UInt8 → List Char
  | s, [] => flush s
  | s, b :: bytes => (step s b.toNat).1 ++ decode (step s b.toNat).2 bytes

/-- `String::from_utf8_lossy` -/
def lossy (bytes : List UInt8) : List Char := decode .start bytes

/-- Decoding with cuts: `none` ends one piece and begins the next. -/
def decodeCut : State → List (Option UInt8) → List Char
  | s, [] => flush s
  | s, none :: tokens => flush s ++ decodeCut .start tokens
  | s, some b :: tokens => (step s b.toNat).1 ++ decodeCut (step s b.toNat).2 tokens

def marks : List (List UInt8) → List (Option UInt8)
  | [] => []
  | [piece] => piece.map some
  | piece :: pieces => piece.map some ++ none :: marks pieces

/-- No cut falls inside a character. -/
def Clean : State → List (Option UInt8) → Prop
  | _, [] => True
  | s, none :: tokens => s = .start ∧ Clean .start tokens
  | s, some b :: tokens => Clean (step s b.toNat).2 tokens

def decidableClean : (s : State) → (tokens : List (Option UInt8)) → Decidable (Clean s tokens)
  | _, [] => inferInstanceAs (Decidable True)
  | s, none :: tokens =>
    have := decidableClean .start tokens
    inferInstanceAs (Decidable (s = .start ∧ Clean .start tokens))
  | s, some b :: tokens => decidableClean (step s b.toNat).2 tokens

instance (s : State) (tokens : List (Option UInt8)) : Decidable (Clean s tokens) :=
  decidableClean s tokens

def State.accepts : State → Nat → Bool
  | .start, b => b < 0x80 || (lead b).isSome
  | .mid _ lo hi _, b => lo ≤ b && b ≤ hi

/-- The bytes complete the character in progress and continue well formed. -/
def Valid : State → List UInt8 → Prop
  | s, [] => s = .start
  | s, b :: bytes => s.accepts b.toNat ∧ Valid (step s b.toNat).2 bytes

def decidableValid : (s : State) → (bytes : List UInt8) → Decidable (Valid s bytes)
  | s, [] => inferInstanceAs (Decidable (s = .start))
  | s, b :: bytes =>
    have := decidableValid (step s b.toNat).2 bytes
    inferInstanceAs (Decidable (s.accepts b.toNat ∧ Valid (step s b.toNat).2 bytes))

instance (s : State) (bytes : List UInt8) : Decidable (Valid s bytes) := decidableValid s bytes

def Scalar (n : Nat) : Prop := 0x80 ≤ n ∧ (n < 0xD800 ∨ (0xDFFF < n ∧ n < 0x110000))

/-- Any `more` further bytes make a character of `acc`. -/
def Completes : Nat → Nat → Prop
  | 0, acc => Scalar acc
  | more + 1, acc => ∀ d < 64, Completes more (acc * 64 + d)

def State.Good : State → Prop
  | .start => True
  | .mid more lo hi acc => 0x80 ≤ lo ∧ hi ≤ 0xBF ∧
      ∀ b, lo ≤ b → b ≤ hi → Completes more (acc * 64 + (b - 0x80))

theorem lead_good {b : Nat} {s : State} (h : lead b = some s) : s.Good := by
  unfold lead at h
  split at h
  · cases h
    refine ⟨by omega, by omega, fun c hlo hhi => ?_⟩
    simp only [Completes, Scalar]
    omega
  · split_ifs at h <;> cases h <;> refine ⟨by omega, by omega, fun c hlo hhi => ?_⟩ <;>
      simp only [Completes, Scalar] <;> intros <;> omega

theorem toNat_ofNat {n : Nat} (h : n.isValidChar) : (Char.ofNat n).toNat = n := by
  unfold Char.ofNat
  rw [dif_pos h]
  rfl

theorem Scalar.isValidChar {n : Nat} (h : Scalar n) : n.isValidChar :=
  h.2.imp id id

theorem toNat_ofNat_ascii {n : Nat} (h : n < 0x80) : (Char.ofNat n).toNat = n :=
  toNat_ofNat (.inl (by omega))

theorem opening_ascii {b : Nat} (h : b < 0x80) : opening b = ([Char.ofNat b], .start) := by
  simp [opening, h]

theorem opening_high {b : Nat} (h : 0x80 ≤ b) :
    (∀ c ∈ (opening b).1, 0x80 ≤ c.toNat) ∧ (opening b).2.Good := by
  have hb : ¬ b < 0x80 := by omega
  cases hl : lead b with
  | none => simp [opening, hb, hl, State.Good, replacement]
  | some s => simp [opening, hb, hl, lead_good hl]

/-- An ASCII byte ends whatever came before and stands for itself. -/
theorem step_ascii {s : State} (hs : s.Good) {b : Nat} (h : b < 0x80) :
    step s b = (flush s ++ [Char.ofNat b], .start) := by
  cases s with
  | start => simp [step, flush, opening_ascii h]
  | mid more lo hi acc =>
    have hb : ¬ (lo ≤ b ∧ b ≤ hi) := by
      have := hs.1
      omega
    simp [step, hb, flush, opening_ascii h]

theorem step_high {s : State} (hs : s.Good) {b : Nat} (h : 0x80 ≤ b) :
    (∀ c ∈ (step s b).1, 0x80 ≤ c.toNat) ∧ (step s b).2.Good := by
  cases s with
  | start => exact opening_high h
  | mid more lo hi acc =>
    obtain ⟨-, -, hcomplete⟩ := hs
    by_cases hb : lo ≤ b ∧ b ≤ hi
    · have hnext := hcomplete b hb.1 hb.2
      cases more with
      | zero =>
        have hscalar : Scalar (acc * 64 + (b - 0x80)) := hnext
        simp [step, hb, State.Good, toNat_ofNat hscalar.isValidChar, hscalar.1]
      | succ n =>
        simp only [step, hb, and_self, if_true]
        exact ⟨by simp, by omega, by omega, fun c hlo hhi => hnext (c - 0x80) (by omega)⟩
    · obtain ⟨hchars, hgood⟩ := opening_high h
      simp only [step, hb, if_false]
      refine ⟨?_, hgood⟩
      intro c hc
      rcases List.mem_cons.mp hc with rfl | hc
      · decide
      · exact hchars c hc

theorem step_good {s : State} (hs : s.Good) (b : Nat) : (step s b).2.Good := by
  by_cases h : b < 0x80
  · rw [step_ascii hs h]
    trivial
  · exact (step_high hs (by omega)).2

end AioLM.Utf8
