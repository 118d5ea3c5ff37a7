import AioLM.Text

/-!
A pasted command line split into its words, by the rules of a POSIX shell or by
those of the Microsoft C runtime. Words written with the quoting of either kind
come back as they were.
-/

set_option autoImplicit false

namespace AioLM.CommandSplit

def singleQuote : Char := Char.ofNat 39

def backtick : Char := Char.ofNat 96

structure Splitter where
  words : List Text := []
  current : Text := []
  hasWord : Bool := false
  quote : Option Char := none

def Splitter.push (more : Text) (s : Splitter) : Splitter := { s with current := s.current ++ more }

def Splitter.endWord (s : Splitter) : Splitter :=
  if s.hasWord then { s with words := s.words ++ [s.current], current := [], hasWord := false }
  else s

def Splitter.finish (s : Splitter) : Except Text (List Text) :=
  if s.quote.isSome then .error "unterminated quote".toList else .ok s.endWord.words

/-- A backslash within double quotes takes the next character along. -/
def quotedEscape (rest : Text) (s : Splitter) : Except Text (Text × Splitter) :=
  match rest with
  | [] => .error "unterminated escape".toList
  | next :: more =>
    if next ∈ ['"', '\\', '$', backtick] then .ok (more, s.push [next])
    else if next = '\n' then .ok (more, s)
    else .ok (more, s.push ['\\', next])

/-- A backslash outside of quotes; at the end of a line it continues the line. -/
def plainEscape (rest : Text) (s : Splitter) : Text × Splitter :=
  match rest with
  | [] => ([], s)
  | next :: more =>
    if next = '\n' ∨ next = '\r' then (more, s) else (more, { s.push [next] with hasWord := true })

def splitStep (ch : Char) (rest : Text) (s : Splitter) : Except Text (Text × Splitter) :=
  match s.quote with
  | some quote =>
    if ch = quote then .ok (rest, { s with quote := none })
    else if quote = '"' ∧ ch = '\\' then quotedEscape rest s
    else .ok (rest, s.push [ch])
  | none =>
    if ch = singleQuote ∨ ch = '"' then .ok (rest, { s with quote := some ch, hasWord := true })
    else if ch = '\\' then .ok (plainEscape rest s)
    else if Text.isWhitespace ch then .ok (rest, s.endWord)
    else .ok (rest, { s.push [ch] with hasWord := true })

theorem splitStep_length {ch : Char} {rest after : Text} {s s' : Splitter}
    (h : splitStep ch rest s = .ok (after, s')) : after.length ≤ rest.length := by
  have hquoted : ∀ {after s'}, quotedEscape rest s = .ok (after, s') → after.length ≤ rest.length := by
    intro after s' h
    cases rest with
    | nil => cases h
    | cons next more =>
      simp only [quotedEscape] at h
      split at h
      · cases h
        simp
      · split at h <;> cases h <;> simp
  have hplain : (plainEscape rest s).1.length ≤ rest.length := by
    cases rest with
    | nil => exact Nat.le_refl _
    | cons next more =>
      simp only [plainEscape]
      split <;> simp
  unfold splitStep at h
  split at h
  · split at h
    · cases h
      exact Nat.le_refl _
    · split at h
      · exact hquoted h
      · cases h
        exact Nat.le_refl _
  · split at h
    · cases h
      exact Nat.le_refl _
    · split at h
      · rw [Except.ok.injEq] at h
        rwa [h] at hplain
      · split at h <;> cases h <;> exact Nat.le_refl _

def splitLoop : Text → Splitter → Except Text (List Text)
  | [], s => s.finish
  | ch :: rest, s =>
    match _hstep : splitStep ch rest s with
    | .error message => .error message
    | .ok (after, s') => splitLoop after s'
termination_by text => text.length
decreasing_by
  have hlength := splitStep_length _hstep
  simp only [List.length_cons]
  omega

theorem splitLoop_step {ch : Char} {rest after : Text} {s s' : Splitter}
    (h : splitStep ch rest s = .ok (after, s')) :
    splitLoop (ch :: rest) s = splitLoop after s' := by
  rw [splitLoop]
  split
  · rename_i hstep
    cases h.symm.trans hstep
  · rename_i hstep
    cases h.symm.trans hstep
    rfl

def splitCommand (text : Text) : Except Text (List Text) := splitLoop text {}

inductive CommandSyntax where
  | posix
  | windows

structure Arguments where
  words : List Text := []
  word : Text := []
  started : Bool := false
  quoted : Bool := false

def Arguments.push (more : Text) (s : Arguments) : Arguments := { s with word := s.word ++ more }

def Arguments.endWord (s : Arguments) : Arguments :=
  if s.started then { s with words := s.words ++ [s.word], word := [], started := false } else s

/-- A quotation mark after some backslashes: half of them count, an odd one makes the mark a
character, and so does a second mark within quotes. -/
def quoteMark (slashes : Nat) (rest : Text) (s : Arguments) : Text × Arguments :=
  let s := s.push (List.replicate (slashes / 2) '\\')
  if slashes % 2 = 1 then (rest, s.push ['"'])
  else if s.quoted ∧ rest.head? = some '"' then (rest.drop 1, s.push ['"'])
  else (rest, { s with quoted := !s.quoted })

def isSlash (c : Char) : Bool := c = '\\'

def argumentStep (ch : Char) (rest : Text) (s : Arguments) : Text × Arguments :=
  if !s.quoted && (ch = ' ' || ch = '\t') then (rest, s.endWord)
  else
    let s := { s with started := true }
    if ch = '\\' then
      let slashes := (rest.takeWhile isSlash).length + 1
      let rest := rest.dropWhile isSlash
      if rest.head? = some '"' then quoteMark slashes (rest.drop 1) s
      else (rest, s.push (List.replicate slashes '\\'))
    else if ch = '"' then quoteMark 0 rest s
    else (rest, s.push [ch])

theorem quoteMark_length (slashes : Nat) (rest : Text) (s : Arguments) :
    (quoteMark slashes rest s).1.length ≤ rest.length := by
  simp only [quoteMark]
  split
  · exact Nat.le_refl _
  · split <;> simp

theorem argumentStep_length (ch : Char) (rest : Text) (s : Arguments) :
    (argumentStep ch rest s).1.length ≤ rest.length := by
  have hdrop := (List.dropWhile_suffix isSlash (l := rest)).length_le
  simp only [argumentStep]
  split
  · exact Nat.le_refl _
  · split
    · split
      · refine (quoteMark_length _ _ _).trans ?_
        simp only [List.length_drop]
        omega
      · exact hdrop
    · split
      · exact quoteMark_length _ _ _
      · exact Nat.le_refl _

def argumentLoop : Text → Arguments → List Text
  | [], s => s.endWord.words
  | ch :: rest, s => argumentLoop (argumentStep ch rest s).1 (argumentStep ch rest s).2
termination_by text => text.length
decreasing_by
  have h := argumentStep_length ch rest s
  simp only [List.length_cons]
  omega

def splitCommandWithSyntax (text : Text) : CommandSyntax → Except Text (List Text)
  | .posix => splitCommand text
  | .windows =>
    if Char.ofNat 0 ∈ text then .error "a Windows command line cannot contain NUL".toList
    else .ok (argumentLoop text {})

def quotePosix (word : Text) : Text :=
  singleQuote :: (word.flatMap fun c =>
    if c = singleQuote then [singleQuote, '\\', singleQuote, singleQuote] else [c]) ++ [singleQuote]

/-- The rest of a word behind `n` backslashes: they are doubled before a quotation mark, with
one more for the mark itself when it is a character. -/
def escapeWindows : Nat → Text → Text
  | n, [] => List.replicate (2 * n) '\\'
  | n, c :: word =>
    if c = '\\' then escapeWindows (n + 1) word
    else if c = '"' then List.replicate (2 * n + 1) '\\' ++ '"' :: escapeWindows 0 word
    else List.replicate n '\\' ++ c :: escapeWindows 0 word

def quoteWindows (word : Text) : Text := '"' :: escapeWindows 0 word ++ ['"']

def joinBlanks (words : List Text) : Text := List.intercalate [' '] words

theorem joinBlanks_cons (word next : Text) (words : List Text) :
    joinBlanks (word :: next :: words) = word ++ ' ' :: joinBlanks (next :: words) := by
  simp [joinBlanks, List.intercalate]

theorem joinBlanks_one (word : Text) : joinBlanks [word] = word := by
  simp [joinBlanks, List.intercalate]

section

variable (rest : Text) (words : List Text) (current : Text) (hasWord : Bool)

theorem splitLoop_open : splitLoop (singleQuote :: rest) ⟨words, current, hasWord, none⟩ =
    splitLoop rest ⟨words, current, true, some singleQuote⟩ :=
  splitLoop_step (by simp [splitStep])

theorem splitLoop_close :
    splitLoop (singleQuote :: rest) ⟨words, current, hasWord, some singleQuote⟩ =
      splitLoop rest ⟨words, current, hasWord, none⟩ :=
  splitLoop_step (by simp [splitStep])

theorem splitLoop_char {c : Char} (h : c ≠ singleQuote) :
    splitLoop (c :: rest) ⟨words, current, hasWord, some singleQuote⟩ =
      splitLoop rest ⟨words, current ++ [c], hasWord, some singleQuote⟩ := by
  have hdouble : singleQuote ≠ '"' := by decide
  exact splitLoop_step (by simp [splitStep, Splitter.push, h, hdouble])

theorem splitLoop_escaped :
    splitLoop ('\\' :: singleQuote :: rest) ⟨words, current, hasWord, none⟩ =
      splitLoop rest ⟨words, current ++ [singleQuote], true, none⟩ := by
  have hslash : ¬ ('\\' = singleQuote ∨ '\\' = '"') := by decide
  have hend : ¬ (singleQuote = '\n' ∨ singleQuote = '\r') := by decide
  refine splitLoop_step ?_
  simp only [splitStep, plainEscape, Splitter.push, hslash, hend, if_false, if_true]

theorem splitLoop_blank : splitLoop (' ' :: rest) ⟨words, current, true, none⟩ =
    splitLoop rest { words := words ++ [current] } := by
  have hquote : ¬ (' ' = singleQuote ∨ ' ' = '"') := by decide
  have hslash : ' ' ≠ '\\' := by decide
  have hblank : Text.isWhitespace ' ' = true := by decide
  refine splitLoop_step ?_
  simp only [splitStep, Splitter.endWord, hquote, hslash, hblank, if_false, if_true]

end

theorem splitLoop_body (word rest : Text) (words : List Text) (current : Text) :
    splitLoop ((word.flatMap fun c =>
        if c = singleQuote then [singleQuote, '\\', singleQuote, singleQuote] else [c]) ++ rest)
      ⟨words, current, true, some singleQuote⟩ =
        splitLoop rest ⟨words, current ++ word, true, some singleQuote⟩ := by
  induction word generalizing current with
  | nil => simp
  | cons c word ih =>
    rw [List.flatMap_cons, List.append_assoc]
    by_cases hc : c = singleQuote
    · subst hc
      simp only [if_true, List.cons_append, List.nil_append]
      rw [splitLoop_close, splitLoop_escaped, splitLoop_open, ih, List.append_assoc,
        List.singleton_append]
    · simp only [if_neg hc, List.cons_append, List.nil_append]
      rw [splitLoop_char _ _ _ _ hc, ih, List.append_assoc, List.singleton_append]

theorem splitLoop_quoted (word rest : Text) (words : List Text) :
    splitLoop (quotePosix word ++ rest) { words } = splitLoop rest ⟨words, word, true, none⟩ := by
  rw [quotePosix, List.cons_append, List.cons_append, List.append_assoc, splitLoop_open,
    splitLoop_body, List.singleton_append, splitLoop_close, List.nil_append]

theorem splitLoop_joined (words before : List Text) :
    splitLoop (joinBlanks (words.map quotePosix)) { words := before } = .ok (before ++ words) := by
  induction words generalizing before with
  | nil => simp [joinBlanks, List.intercalate, splitLoop, Splitter.finish, Splitter.endWord]
  | cons word words ih =>
    cases words with
    | nil =>
      rw [List.map_singleton, joinBlanks_one, ← List.append_nil (quotePosix word), splitLoop_quoted,
        splitLoop]
      rfl
    | cons next words =>
      rw [List.map_cons, List.map_cons, joinBlanks_cons, splitLoop_quoted, splitLoop_blank,
        ← List.map_cons, ih, List.append_assoc, List.singleton_append]

section

variable (words : List Text) (word : Text)

theorem argumentLoop_open (rest : Text) :
    argumentLoop ('"' :: rest) { words } = argumentLoop rest ⟨words, [], true, true⟩ := by
  rw [argumentLoop]
  simp [argumentStep, quoteMark, Arguments.push]

theorem argumentLoop_char {c : Char} (hslash : c ≠ '\\') (hmark : c ≠ '"') (rest : Text) :
    argumentLoop (c :: rest) ⟨words, word, true, true⟩ =
      argumentLoop rest ⟨words, word ++ [c], true, true⟩ := by
  rw [argumentLoop]
  simp [argumentStep, hslash, hmark, Arguments.push]

theorem argumentLoop_blank (rest : Text) :
    argumentLoop (' ' :: rest) ⟨words, word, true, false⟩ =
      argumentLoop rest { words := words ++ [word] } := by
  rw [argumentLoop]
  simp [argumentStep, Arguments.endWord]

theorem run_slashes (n : Nat) {c : Char} (hc : c ≠ '\\') (rest : Text) :
    ((List.replicate n '\\' ++ c :: rest).takeWhile isSlash).length = n ∧
      (List.replicate n '\\' ++ c :: rest).dropWhile isSlash = c :: rest := by
  induction n with
  | zero => simp [isSlash, hc]
  | succ n ih => simpa [List.replicate_succ, isSlash] using ih

theorem argumentLoop_slashes (n : Nat) {c : Char} (hslash : c ≠ '\\') (hmark : c ≠ '"')
    (rest : Text) :
    argumentLoop (List.replicate n '\\' ++ c :: rest) ⟨words, word, true, true⟩ =
      argumentLoop (c :: rest) ⟨words, word ++ List.replicate n '\\', true, true⟩ := by
  cases n with
  | zero => simp
  | succ n =>
    obtain ⟨htake, hdrop⟩ := run_slashes n hslash rest
    rw [List.replicate_succ, List.cons_append, argumentLoop]
    simp [argumentStep, htake, hdrop, hmark, Arguments.push, ← List.replicate_succ]

theorem argumentLoop_mark (n : Nat) (rest : Text) :
    argumentLoop (List.replicate (2 * n + 1) '\\' ++ '"' :: rest) ⟨words, word, true, true⟩ =
      argumentLoop rest ⟨words, word ++ List.replicate n '\\' ++ ['"'], true, true⟩ := by
  obtain ⟨htake, hdrop⟩ := run_slashes (2 * n) (show '"' ≠ '\\' by decide) rest
  rw [List.replicate_succ, List.cons_append, argumentLoop]
  have hhalf : (2 * n + 1) / 2 = n := by omega
  simp [argumentStep, htake, hdrop, quoteMark, Arguments.push, hhalf]

theorem argumentLoop_close (n : Nat) {rest : Text} (hrest : rest.head? ≠ some '"') :
    argumentLoop (List.replicate (2 * n) '\\' ++ '"' :: rest) ⟨words, word, true, true⟩ =
      argumentLoop rest ⟨words, word ++ List.replicate n '\\', true, false⟩ := by
  cases n with
  | zero =>
    rw [Nat.mul_zero, List.replicate_zero, List.nil_append, argumentLoop]
    simp [argumentStep, quoteMark, Arguments.push, hrest]
  | succ n =>
    obtain ⟨htake, hdrop⟩ := run_slashes (2 * n + 1) (show '"' ≠ '\\' by decide) rest
    rw [show 2 * (n + 1) = 2 * n + 1 + 1 by omega, List.replicate_succ, List.cons_append,
      argumentLoop]
    have hhalf : (2 * n + 1 + 1) / 2 = n + 1 := by omega
    have heven : ¬ (2 * n + 1 + 1) % 2 = 1 := by omega
    simp [argumentStep, htake, hdrop, quoteMark, Arguments.push, hhalf, heven, hrest]

end

/-- The inside of a quoted word, behind `n` backslashes that are still open. -/
theorem argumentLoop_body (words : List Text) (inner : Text) {rest : Text}
    (hrest : rest.head? ≠ some '"') (n : Nat) (word : Text) :
    argumentLoop (escapeWindows n inner ++ '"' :: rest) ⟨words, word, true, true⟩ =
      argumentLoop rest ⟨words, word ++ List.replicate n '\\' ++ inner, true, false⟩ := by
  induction inner generalizing n word with
  | nil =>
    rw [escapeWindows, argumentLoop_close words word n hrest, List.append_nil]
  | cons c inner ih =>
    rw [escapeWindows]
    by_cases hslash : c = '\\'
    · rw [if_pos hslash, ih, List.replicate_succ', hslash]
      simp
    rw [if_neg hslash]
    by_cases hmark : c = '"'
    · rw [if_pos hmark, List.append_assoc, List.cons_append, argumentLoop_mark, ih, hmark]
      simp
    · rw [if_neg hmark, List.append_assoc, List.cons_append,
        argumentLoop_slashes words word n hslash hmark, argumentLoop_char words _ hslash hmark, ih]
      simp

theorem argumentLoop_quoted (words : List Text) (word : Text) {rest : Text}
    (hrest : rest.head? ≠ some '"') :
    argumentLoop (quoteWindows word ++ rest) { words } =
      argumentLoop rest ⟨words, word, true, false⟩ := by
  rw [quoteWindows, List.append_assoc, List.cons_append, argumentLoop_open, List.singleton_append,
    argumentLoop_body words word hrest]
  simp

theorem argumentLoop_joined (words before : List Text) :
    argumentLoop (joinBlanks (words.map quoteWindows)) { words := before } = before ++ words := by
  induction words generalizing before with
  | nil => simp [joinBlanks, List.intercalate, argumentLoop, Arguments.endWord]
  | cons word words ih =>
    cases words with
    | nil =>
      rw [List.map_singleton, joinBlanks_one, ← List.append_nil (quoteWindows word),
        argumentLoop_quoted _ _ (by simp), argumentLoop]
      rfl
    | cons next words =>
      rw [List.map_cons, List.map_cons, joinBlanks_cons, argumentLoop_quoted _ _ (by simp),
        argumentLoop_blank, ← List.map_cons, ih, List.append_assoc, List.singleton_append]

theorem nul_not_mem_escape {word : Text} (h : Char.ofNat 0 ∉ word) (n : Nat) :
    Char.ofNat 0 ∉ escapeWindows n word := by
  have hslash : Char.ofNat 0 ≠ '\\' := by decide
  have hmark : Char.ofNat 0 ≠ '"' := by decide
  induction word generalizing n with
  | nil => simp [escapeWindows, List.mem_replicate, hslash]
  | cons c word ih =>
    obtain ⟨hc, hword⟩ := not_or.mp fun hmem => h (List.mem_cons.mpr hmem)
    rw [escapeWindows]
    split
    · exact ih hword (n + 1)
    · split
      · simp [List.mem_replicate, hslash, hmark, ih hword 0]
      · simp [List.mem_replicate, hslash, hc, ih hword 0]

theorem nul_not_mem_joined {words : List Text} (h : ∀ word ∈ words, Char.ofNat 0 ∉ word) :
    Char.ofNat 0 ∉ joinBlanks (words.map quoteWindows) := by
  have hblank : Char.ofNat 0 ≠ ' ' := by decide
  have hmark : Char.ofNat 0 ≠ '"' := by decide
  have hquote (word : Text) (hword : Char.ofNat 0 ∉ word) : Char.ofNat 0 ∉ quoteWindows word := by
    simp [quoteWindows, hmark, nul_not_mem_escape hword 0]
  induction words with
  | nil => simp [joinBlanks, List.intercalate]
  | cons word words ih =>
    obtain ⟨hword, hwords⟩ := List.forall_mem_cons.mp h
    cases words with
    | nil => exact joinBlanks_one _ ▸ hquote word hword
    | cons next words =>
      have hrest := ih hwords
      rw [List.map_cons] at hrest
      rw [List.map_cons, List.map_cons, joinBlanks_cons]
      simp [hquote word hword, hblank, hrest]

/-- Splitting a line gives back the words that were quoted and joined by blanks, whatever is
in them; the Windows rules know no NUL. -/
theorem split_quoted (words : List Text) :
    splitCommandWithSyntax (joinBlanks (words.map quotePosix)) .posix = .ok words ∧
      ((∀ word ∈ words, Char.ofNat 0 ∉ word) →
        splitCommandWithSyntax (joinBlanks (words.map quoteWindows)) .windows = .ok words) := by
  refine ⟨splitLoop_joined words [], fun h => ?_⟩
  have hloop := argumentLoop_joined words []
  rw [splitCommandWithSyntax, if_neg (nul_not_mem_joined h), hloop, List.nil_append]

/-- An empty word and one that ends in a backslash before its closing mark. -/
theorem split_quoted_path :
    splitCommandWithSyntax (joinBlanks ([[], "C:\\a b\\".toList].map quoteWindows)) .windows =
      .ok [[], "C:\\a b\\".toList] :=
  (split_quoted _).2 (by decide)

end AioLM.CommandSplit
