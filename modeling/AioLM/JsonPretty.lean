import AioLM.Json

/-!
The texts and arrays of a JSON document as `to_vec_pretty` writes them, and a reader of what it
writes.
-/

set_option autoImplicit false

namespace AioLM.Json

open Text

variable {α : Type}

def hexValue (c : Char) : Nat := if c.isDigit then c.toNat - 48 else c.toNat - 87

def readEscaped : Text → Option (Char × Text)
  | '\\' :: '"' :: rest => some ('"', rest)
  | '\\' :: '\\' :: rest => some ('\\', rest)
  | '\\' :: 'b' :: rest => some (Char.ofNat 8, rest)
  | '\\' :: 'f' :: rest => some (Char.ofNat 12, rest)
  | '\\' :: 'n' :: rest => some ('\n', rest)
  | '\\' :: 'r' :: rest => some ('\r', rest)
  | '\\' :: 't' :: rest => some ('\t', rest)
  | '\\' :: 'u' :: '0' :: '0' :: high :: low :: rest =>
    some (Char.ofNat (16 * hexValue high + hexValue low), rest)
  | '\\' :: _ => none
  | '"' :: _ => none
  | c :: rest => some (c, rest)
  | [] => none

def readChars : Nat → Text → Option (Text × Text)
  | 0, _ => none
  | _ + 1, '"' :: rest => some ([], rest)
  | n + 1, t => do
    let (c, t) ← readEscaped t
    let (cs, t) ← readChars n t
    return (c :: cs, t)

def readQuoted : Text → Option (Text × Text)
  | '"' :: rest => readChars (rest.length + 1) rest
  | _ => none

theorem readEscaped_control {n : Nat} (h : n < 32) (rest : Text) :
    readEscaped ('\\' :: 'u' :: '0' :: '0' :: hexDigit (n / 16) :: hexDigit (n % 16) :: rest) =
      some (Char.ofNat n, rest) := by
  have hvalue : 16 * hexValue (hexDigit (n / 16)) + hexValue (hexDigit (n % 16)) = n := by
    revert n
    decide
  simp only [readEscaped, hvalue]

theorem escapeChar_cases {p : Text → Prop} (c : Char) (hquote : c = '"' → p ['\\', '"'])
    (hback : c = '\\' → p ['\\', '\\']) (h8 : c.toNat = 8 → p ['\\', 'b'])
    (h12 : c.toNat = 12 → p ['\\', 'f']) (hnewline : c = '\n' → p ['\\', 'n'])
    (hreturn : c = '\r' → p ['\\', 'r']) (htab : c = '\t' → p ['\\', 't'])
    (hcontrol : c.toNat < 0x20 →
      p ['\\', 'u', '0', '0', hexDigit (c.toNat / 16), hexDigit (c.toNat % 16)])
    (hself : c ≠ '"' → c ≠ '\\' → p [c]) : p (escapeChar c) :=
  iteInduction hquote fun hquote => iteInduction hback fun hback => iteInduction h8 fun _ =>
    iteInduction h12 fun _ => iteInduction hnewline fun _ => iteInduction hreturn fun _ =>
      iteInduction htab fun _ => iteInduction hcontrol fun _ => hself hquote hback

theorem readEscaped_self {c : Char} (hquote : c ≠ '"') (hback : c ≠ '\\') (rest : Text) :
    readEscaped (c :: rest) = some (c, rest) := by
  rw [readEscaped]
  case x_10 => exact hquote
  all_goals
    intros
    exact absurd ‹c = '\\'› hback

theorem readEscaped_escapeChar (c : Char) (rest : Text) :
    readEscaped (escapeChar c ++ rest) = some (c, rest) := by
  have hofNat {n : Nat} (h : c.toNat = n) : Char.ofNat n = c := by rw [← h, Char.ofNat_toNat]
  refine escapeChar_cases (p := fun escaped => readEscaped (escaped ++ rest) = some (c, rest)) c
    ?_ ?_ ?_ ?_ ?_ ?_ ?_ ?_ ?_
  · rintro rfl
    rfl
  · rintro rfl
    rfl
  · intro h8
    rw [← hofNat h8]
    rfl
  · intro h12
    rw [← hofNat h12]
    rfl
  · rintro rfl
    rfl
  · rintro rfl
    rfl
  · rintro rfl
    rfl
  · intro hcontrol
    have hread := readEscaped_control hcontrol rest
    rwa [Char.ofNat_toNat] at hread
  · exact fun hquote hback => readEscaped_self hquote hback rest

theorem head_escapeChar (c : Char) (rest : Text) : ∀ t, escapeChar c ++ rest ≠ '"' :: t := by
  intro t
  refine escapeChar_cases (p := fun escaped => escaped ++ rest ≠ '"' :: t) c
    ?_ ?_ ?_ ?_ ?_ ?_ ?_ ?_ ?_
  case refine_9 => exact fun hquote _ h => hquote (List.cons.inj h).1
  all_goals exact fun _ h => by cases h

theorem readChars_flatMap (t rest : Text) {n : Nat} (hn : t.length < n) :
    readChars n (t.flatMap escapeChar ++ '"' :: rest) = some (t, rest) := by
  induction t generalizing n with
  | nil =>
    obtain ⟨m, rfl⟩ : ∃ m, n = m + 1 := ⟨n - 1, by simp at hn; omega⟩
    rfl
  | cons c t ih =>
    obtain ⟨m, rfl⟩ : ∃ m, n = m + 1 := ⟨n - 1, by simp at hn; omega⟩
    have hstep : readChars (m + 1) (escapeChar c ++ (t.flatMap escapeChar ++ '"' :: rest)) =
        (readEscaped (escapeChar c ++ (t.flatMap escapeChar ++ '"' :: rest))).bind fun read =>
          (readChars m read.2).bind fun more => some (read.1 :: more.1, more.2) := by
      rw [readChars]
      · rfl
      · exact head_escapeChar c _
    rw [List.flatMap_cons, List.append_assoc, hstep, readEscaped_escapeChar, Option.bind_some,
      ih (by simpa using hn), Option.bind_some]

theorem length_le_flatMap_escapeChar (t : Text) : t.length ≤ (t.flatMap escapeChar).length := by
  induction t with
  | nil => exact Nat.le_refl _
  | cons c t ih =>
    have hc : 0 < (escapeChar c).length := by
      refine escapeChar_cases (p := fun escaped => 0 < escaped.length) c
        ?_ ?_ ?_ ?_ ?_ ?_ ?_ ?_ ?_
      case refine_9 => exact fun _ _ => Nat.succ_pos _
      all_goals exact fun _ => Nat.succ_pos _
    rw [List.flatMap_cons, List.length_append, List.length_cons]
    omega

theorem readQuoted_quote (t rest : Text) : readQuoted (quote t ++ rest) = some (t, rest) := by
  have hquote : quote t ++ rest = '"' :: (t.flatMap escapeChar ++ '"' :: rest) := by simp [quote]
  rw [hquote, readQuoted]
  refine readChars_flatMap t rest ?_
  have hlength := length_le_flatMap_escapeChar t
  rw [List.length_append, List.length_cons]
  omega

def newLine (depth : Nat) : Text := '\n' :: List.replicate (2 * depth) ' '

def prettyRest (write : α → Text) (depth : Nat) : List α → Text
  | [] => newLine depth ++ [']']
  | item :: rest => ',' :: newLine (depth + 1) ++ write item ++ prettyRest write depth rest

def prettyArray (write : α → Text) (depth : Nat) : List α → Text
  | [] => ['[', ']']
  | item :: rest => '[' :: newLine (depth + 1) ++ write item ++ prettyRest write depth rest

def readRest (read : Text → Option (α × Text)) (depth : Nat) : Nat → Text → Option (List α × Text)
  | 0, _ => none
  | n + 1, ',' :: t => do
    let t ← stripPrefix (newLine (depth + 1)) t
    let (item, t) ← read t
    let (items, t) ← readRest read depth n t
    return (item :: items, t)
  | _ + 1, t => do
    let t ← stripPrefix (newLine depth ++ [']']) t
    return ([], t)

def readArray (read : Text → Option (α × Text)) (depth : Nat) : Text → Option (List α × Text)
  | '[' :: ']' :: t => some ([], t)
  | '[' :: t => do
    let (item, rest) ← (stripPrefix (newLine (depth + 1)) t).bind read
    let (items, rest) ← readRest read depth (t.length + 1) rest
    return (item :: items, rest)
  | _ => none

section Arrays

variable {write : α → Text} {read : Text → Option (α × Text)}

theorem readRest_pretty (hread : ∀ item rest, read (write item ++ rest) = some (item, rest))
    (depth : Nat) (items : List α) (rest : Text) {n : Nat} (hn : items.length < n) :
    readRest read depth n (prettyRest write depth items ++ rest) = some (items, rest) := by
  induction items generalizing n with
  | nil =>
    obtain ⟨m, rfl⟩ : ∃ m, n = m + 1 := ⟨n - 1, by simp at hn; omega⟩
    have hstrip := stripPrefix_append (newLine depth ++ [']']) rest
    rw [prettyRest, readRest]
    · rw [hstrip]
      rfl
    · intro t h
      simp [newLine] at h
  | cons item items ih =>
    obtain ⟨m, rfl⟩ : ∃ m, n = m + 1 := ⟨n - 1, by simp at hn; omega⟩
    simp only [prettyRest, List.cons_append, List.append_assoc, readRest, stripPrefix_append,
      hread, ih (by simpa using hn), Option.bind_eq_bind, Option.bind_some, Option.pure_def]

theorem length_le_prettyRest (depth : Nat) (items : List α) :
    items.length ≤ (prettyRest write depth items).length := by
  induction items with
  | nil => exact Nat.zero_le _
  | cons item items ih =>
    simp only [prettyRest, List.length_cons, List.length_append]
    omega

theorem readArray_pretty (hread : ∀ item rest, read (write item ++ rest) = some (item, rest))
    (depth : Nat) (items : List α) (rest : Text) :
    readArray read depth (prettyArray write depth items ++ rest) = some (items, rest) := by
  cases items with
  | nil => rfl
  | cons item items =>
    have hlength : items.length ≤ (prettyRest write depth items).length :=
      length_le_prettyRest depth items
    simp only [prettyArray, List.cons_append, List.append_assoc]
    rw [readArray]
    · rw [stripPrefix_append, Option.bind_some, hread]
      simp only [Option.bind_eq_bind, Option.bind_some, Option.pure_def]
      rw [readRest_pretty hread]
      · rfl
      · simp only [List.length_append]
        omega
    · intro t h
      simp [newLine] at h

end Arrays

mutual

/-- `serde_json::to_string_pretty` of what stands inside `depth` brackets. -/
def pretty (floatText : Float → Text) (depth : Nat) : Json → Text
  | .array items =>
    if items.isEmpty then "[]".toList
    else '[' :: prettyItems floatText (depth + 1) items ++ newLine depth ++ [']']
  | .object fields =>
    if fields.isEmpty then "\x7b\x7d".toList
    else '{' :: prettyFields floatText (depth + 1) fields ++ newLine depth ++ ['}']
  | v => compact floatText v

def prettyItems (floatText : Float → Text) (depth : Nat) : List Json → Text
  | [] => []
  | [v] => newLine depth ++ pretty floatText depth v
  | v :: rest => newLine depth ++ pretty floatText depth v ++ ',' :: prettyItems floatText depth rest

def prettyFields (floatText : Float → Text) (depth : Nat) : List (Text × Json) → Text
  | [] => []
  | [(key, v)] => newLine depth ++ quote key ++ ": ".toList ++ pretty floatText depth v
  | (key, v) :: rest =>
    newLine depth ++ quote key ++ ": ".toList ++ pretty floatText depth v ++
      ',' :: prettyFields floatText depth rest

end

end AioLM.Json
