import Mathlib.Algebra.Order.Ring.Int
import Mathlib.Data.List.TakeWhile

/-!
Text as a list of Unicode scalar values, with the string operations of the
Rust standard library that the modelled code calls.
-/

set_option autoImplicit false

namespace AioLM

abbrev Text := List Char

instance Text.lawfulBEq : LawfulBEq Text := List.instLawfulBEq

namespace Text

/-- `char::is_whitespace`, the Unicode property White_Space. -/
def isWhitespace (c : Char) : Bool :=
  let n := c.toNat
  (0x9 ≤ n && n ≤ 0xD) || n == 0x20 || n == 0x85 || n == 0xA0 || n == 0x1680 ||
    (0x2000 ≤ n && n ≤ 0x200A) || n == 0x2028 || n == 0x2029 || n == 0x202F ||
    n == 0x205F || n == 0x3000

def trimStart (t : Text) : Text := t.dropWhile isWhitespace

def trimEndMatches (p : Char → Bool) (t : Text) : Text := (t.reverse.dropWhile p).reverse

/-- `str::trim` -/
def trim (t : Text) : Text := trimEndMatches isWhitespace (trimStart t)

def stripPrefix (p : Text) (t : Text) : Option Text :=
  if p.isPrefixOf t then some (t.drop p.length) else none

def stripSuffix (p : Text) (t : Text) : Option Text :=
  if p.isSuffixOf t then some (t.take (t.length - p.length)) else none

/-- `str::split_once` at a single character. -/
def splitOnce (c : Char) (t : Text) : Option (Text × Text) :=
  if c ∈ t then some (t.takeWhile (· != c), (t.dropWhile (· != c)).drop 1) else none

def isLowerHex (c : Char) : Bool := c.isDigit || ('a' ≤ c && c ≤ 'f')

/-- `str::eq_ignore_ascii_case` -/
def eqIgnoreAsciiCase (a b : Text) : Bool := a.map Char.toLower == b.map Char.toLower

/-- `str::split` at carriage return and line feed. -/
def splitCrlf : Text → List Text
  | [] => [[]]
  | '\r' :: '\n' :: rest => [] :: splitCrlf rest
  | c :: rest =>
    match splitCrlf rest with
    | [] => [[c]]
    | line :: lines => (c :: line) :: lines

/-- `str::split_whitespace` -/
def splitWhitespace (t : Text) : List Text := (t.splitOnP isWhitespace).filter fun w => w ≠ []

/-- `str::to_ascii_lowercase` -/
def toAsciiLower (t : Text) : Text := t.map Char.toLower

/-- `str::parse::<usize>` on a 64-bit machine -/
def parseUsize (t : Text) : Option Nat :=
  let digits := if t.head? = some '+' then t.drop 1 else t
  if digits ≠ [] ∧ digits.all Char.isDigit then
    let n := Nat.ofDigitChars 10 digits 0
    if n < 2 ^ 64 then some n else none
  else none

/-- `str::len`: the number of bytes of the UTF-8 form. -/
def utf8Len (t : Text) : Nat := (t.map Char.utf8Size).sum

@[simp] theorem utf8Len_nil : utf8Len [] = 0 := rfl

@[simp] theorem utf8Len_cons (c : Char) (t : Text) :
    utf8Len (c :: t) = c.utf8Size + utf8Len t := by simp [utf8Len]

@[simp] theorem utf8Len_append (a b : Text) : utf8Len (a ++ b) = utf8Len a + utf8Len b := by
  simp [utf8Len]

theorem stripPrefix_eq_some {p t rest : Text} :
    stripPrefix p t = some rest ↔ t = p ++ rest := by
  constructor
  · intro h
    unfold stripPrefix at h
    split at h
    · rename_i hp
      obtain ⟨u, rfl⟩ := List.isPrefixOf_iff_prefix.mp hp
      simpa using h
    · simp at h
  · rintro rfl
    simp [stripPrefix]

theorem stripPrefix_append (p rest : Text) : stripPrefix p (p ++ rest) = some rest :=
  stripPrefix_eq_some.mpr rfl

theorem stripPrefix_eq_none {p t : Text} : stripPrefix p t = none ↔ ¬ p <+: t := by
  unfold stripPrefix
  split
  · rename_i hp
    simpa using List.isPrefixOf_iff_prefix.mp hp
  · rename_i hp
    simpa [List.isPrefixOf_iff_prefix] using hp

theorem splitOnce_append {c : Char} {before : Text} (h : c ∉ before) (after : Text) :
    splitOnce c (before ++ c :: after) = some (before, after) := by
  have hbefore : ∀ x ∈ before, (x != c) = true := by
    intro x hx
    simpa using fun heq : x = c => h (heq ▸ hx)
  simp [splitOnce, List.takeWhile_append_of_pos hbefore, List.dropWhile_append_of_pos hbefore]

theorem splitOnce_eq_some {c : Char} {t before after : Text}
    (h : splitOnce c t = some (before, after)) : t = before ++ c :: after := by
  unfold splitOnce at h
  split at h
  · rename_i hmem
    obtain ⟨a, b, rfl, ha⟩ := List.eq_append_cons_of_mem hmem
    have hsplit := splitOnce_append ha b
    rw [splitOnce, if_pos hmem] at hsplit
    rw [hsplit] at h
    cases h
    rfl
  · cases h

theorem splitOnce_eq_none {c : Char} {t : Text} (h : c ∉ t) : splitOnce c t = none := if_neg h

theorem trimStart_eq_nil_iff {t : Text} : trimStart t = [] ↔ ∀ c ∈ t, isWhitespace c := by
  simp [trimStart, List.dropWhile_eq_nil_iff]

theorem trim_eq_nil_iff {t : Text} : trim t = [] ↔ ∀ c ∈ t, isWhitespace c := by
  rw [← trimStart_eq_nil_iff, trim, trimEndMatches, List.reverse_eq_nil_iff,
    List.dropWhile_eq_nil_iff]
  constructor
  · intro h
    by_contra hne
    have hhead := List.head_dropWhile_not isWhitespace hne
    have hblank := h _ (List.mem_reverse.mpr (List.head_mem hne))
    exact absurd (hhead.symm.trans hblank) (by decide)
  · intro h
    simp [h]

theorem trimEndMatches_split (p : Char → Bool) (t : Text) :
    ∃ cut, t = trimEndMatches p t ++ cut ∧ ∀ c ∈ cut, p c = true := by
  refine ⟨(t.reverse.takeWhile p).reverse, ?_, ?_⟩
  · rw [trimEndMatches, ← List.reverse_append, List.takeWhile_append_dropWhile,
      List.reverse_reverse]
  · intro c hc
    exact List.mem_takeWhile_imp (List.mem_reverse.mp hc)

theorem trimStart_split (t : Text) :
    ∃ cut, t = cut ++ trimStart t ∧ ∀ c ∈ cut, isWhitespace c = true :=
  ⟨t.takeWhile isWhitespace, (List.takeWhile_append_dropWhile).symm,
    fun _ hc => List.mem_takeWhile_imp hc⟩

theorem trim_split (t : Text) : ∃ before after, t = before ++ trim t ++ after ∧
    (∀ c ∈ before, isWhitespace c = true) ∧ ∀ c ∈ after, isWhitespace c = true := by
  obtain ⟨before, hbefore, hblank⟩ := trimStart_split t
  obtain ⟨after, hafter, hblank'⟩ := trimEndMatches_split isWhitespace (trimStart t)
  refine ⟨before, after, ?_, hblank, hblank'⟩
  rw [trim, List.append_assoc, ← hafter, ← hbefore]

theorem count_trimEndMatches {p : Char → Bool} {c : Char} (hc : p c = false) (t : Text) :
    (trimEndMatches p t).count c = t.count c := by
  obtain ⟨cut, hcut, hp⟩ := trimEndMatches_split p t
  have hzero : cut.count c = 0 := List.count_eq_zero.mpr fun hmem => by simp [hp c hmem] at hc
  have hcount := congrArg (List.count c) hcut
  rw [List.count_append, hzero, Nat.add_zero] at hcount
  exact hcount.symm

theorem count_trim {c : Char} (hc : isWhitespace c = false) (t : Text) :
    (trim t).count c = t.count c := by
  obtain ⟨before, after, hsplit, hb, ha⟩ := trim_split t
  have hzero : before.count c = 0 := List.count_eq_zero.mpr fun hmem => by simp [hb c hmem] at hc
  have hzero' : after.count c = 0 := List.count_eq_zero.mpr fun hmem => by simp [ha c hmem] at hc
  have hcount := congrArg (List.count c) hsplit
  rw [List.count_append, List.count_append, hzero, hzero', Nat.zero_add, Nat.add_zero] at hcount
  exact hcount.symm

theorem trimEndMatches_append {p : Char → Bool} {x : Char} (hx : p x = false)
    (before after : Text) :
    trimEndMatches p (before ++ x :: after) = before ++ x :: trimEndMatches p after := by
  simp only [trimEndMatches, List.reverse_append, List.reverse_cons, List.append_assoc]
  rw [List.dropWhile_append]
  split
  · rename_i hempty
    have : after.reverse.dropWhile p = [] := by simpa using hempty
    simp [this, hx]
  · simp

theorem isPrefix_trimEndMatches_iff {p : Char → Bool} {x : Char} (hx : p x = false)
    (before : Text) {t : Text} : before ++ [x] <+: trimEndMatches p t ↔ before ++ [x] <+: t := by
  constructor
  · intro h
    obtain ⟨cut, hcut, -⟩ := trimEndMatches_split p t
    exact h.trans ⟨cut, hcut.symm⟩
  · rintro ⟨after, rfl⟩
    rw [List.append_assoc, List.singleton_append, trimEndMatches_append hx]
    exact ⟨trimEndMatches p after, by simp⟩

theorem isPrefix_trim_iff {first last : Char} (hfirst : isWhitespace first = false)
    (hlast : isWhitespace last = false) (middle : Text) {t : Text} :
    (first :: middle) ++ [last] <+: trim t ↔
      ∃ blanks after, (∀ c ∈ blanks, isWhitespace c = true) ∧
        t = blanks ++ ((first :: middle) ++ [last]) ++ after := by
  rw [trim, isPrefix_trimEndMatches_iff hlast]
  constructor
  · rintro ⟨after, hafter⟩
    obtain ⟨blanks, hblanks, hblank⟩ := trimStart_split t
    exact ⟨blanks, after, hblank, by rw [List.append_assoc, hafter, ← hblanks]⟩
  · rintro ⟨blanks, after, hblank, rfl⟩
    refine ⟨after, ?_⟩
    rw [trimStart, List.append_assoc blanks, List.dropWhile_append_of_pos hblank]
    simp [hfirst]

/-- A list of literals, and their characters. A literal is `String.ofList` of its characters
as it stands, so nothing has to be decoded to read them off. -/
inductive Spelled : List Text → List Text → Prop
  | nil : Spelled [] []
  | cons {t : Text} {literals texts : List Text} :
      Spelled literals texts → Spelled ((String.ofList t).toList :: literals) (t :: texts)

theorem Spelled.eq {literals texts : List Text} (h : Spelled literals texts) :
    literals = texts := by
  induction h with
  | nil => rfl
  | cons _ ih => rw [String.toList_ofList, ih]

end Text

end AioLM
