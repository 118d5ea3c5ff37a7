import Mathlib.Data.Bool.AllAny
import Mathlib.Data.Option.Basic
import AioLM.OptionSchema
import AioLM.Search

/-!
One entry of a help text: the flags, aliases and value words of an option, or the
name of a positional argument.
-/

set_option autoImplicit false

namespace AioLM.Options

def blank (c : Char) : Bool := c == ' ' || c == '\t'

def contains (word : String) (t : Text) : Bool := (Search.find word.toList t).isSome

def endsWith (c : Char) (t : Text) : Bool := t.getLast? == some c

/-- `trim_start_matches` at one character -/
def trimStartOf (c : Char) (t : Text) : Text := t.dropWhile (· == c)

/-- `trim_end_matches` at one character -/
def trimEndOf (c : Char) (t : Text) : Text := Text.trimEndMatches (· == c) t

/-- `trim_matches` at one character -/
def trimOf (c : Char) (t : Text) : Text := trimEndOf c (trimStartOf c t)

def openBrace : Char := Char.ofNat 123
def closeBrace : Char := Char.ofNat 125
def doubleQuote : Char := Char.ofNat 34
def singleQuote : Char := Char.ofNat 39

def trimQuotes (t : Text) : Text := trimOf singleQuote (trimOf doubleQuote (Text.trim t))

/-- `replace` of one character by an underscore -/
def underscore (c : Char) (t : Text) : Text := t.map fun x => if x = c then '_' else x

/-- Cut at the last whole character that fits `max` bytes. -/
def truncateText (max : Nat) : Text → Text
  | [] => []
  | c :: t => if c.utf8Size ≤ max then c :: truncateText (max - c.utf8Size) t else []

/-- `starts_with("--no-")` -/
def isNegated (flag : Text) : Bool := "--no-".toList.isPrefixOf flag

def isPositiveLong (flag : Text) : Bool := startsWithDashes flag && !isNegated flag

def keyForFlag (flag : Text) : Text :=
  let name := OptionDefinition.body flag
  underscore '-' (if isNegated flag && decide (3 < Text.utf8Len name) then name.drop 3 else name)

def validFlag (flag : Text) : Bool :=
  (startsWith '-' flag || startsWith '/' flag) && !(OptionDefinition.body flag).isEmpty &&
    (OptionDefinition.body flag).all fun c => c.isAlphanum || "_-.?".toList.contains c

structure PendingOption where
  key : Text
  spellings : List Spelling
  help : Text
  group : Text
  startLine : Nat
  endLine : Nat
  positional : Option Nat
  metavar : Text
  isBoolean : Bool
  negativeOnly : Bool
  /-- Aliases spell different value counts, so no single arity is observed. -/
  aliasConflict : Bool
  deriving DecidableEq

def PendingOption.appendHelp (row : PendingOption) (text : Text) (line : Nat) : PendingOption :=
  let help := if row.help = [] then row.help else row.help ++ [' ']
  { row with help := truncateText 32768 (help ++ text), endLine := line }

def choiceValues (values : List Text) : Option (List Json) :=
  if values ≠ [] ∧ values.length ≤ 256 then some (values.map Json.string) else none

def braced (t : Text) : Option Text :=
  ((Text.stripPrefix [openBrace] t).bind (Text.stripSuffix [closeBrace])).filter fun inner =>
    !inner.contains openBrace && !inner.contains closeBrace

/-- Explicit choices only: a set in braces, or alternatives in brackets. -/
def parseChoices (metavar : Text) : Option (List Json) :=
  let trimmed := Text.trim metavar
  let listed := (braced trimmed).bind fun inner =>
    choiceValues (((inner.splitOn ',').map trimQuotes).filter (· ≠ []))
  let alternatives :=
    if trimmed.contains '|' ∧ (startsWith '[' trimmed ∨ startsWith '(' trimmed) then
      let inner := Text.trimEndMatches (fun c => c == ']' || c == ')')
        (trimmed.dropWhile fun c => c == '[' || c == '(')
      choiceValues (((inner.splitOn '|').map trimQuotes).filter fun s => s ≠ [] ∧ ' ' ∉ s)
    else none
  listed <|> alternatives

/-- `u16::try_from(n).unwrap_or(other)` -/
def toU16 (n other : Nat) : Nat := if n < 65536 then n else other

/-- The value count that words outside a choice set show: `lead` of them stand
before the first bracket. -/
def arityOfWords (bracketed ellipsis : Bool) (plain lead : Nat) : Option Arity :=
  if ellipsis then
    if bracketed ∧ lead = 0 then some ⟨0, none⟩ else some ⟨toU16 (max lead 1) 1, none⟩
  else if bracketed ∧ plain ≤ 1 then some ⟨0, some 1⟩
  else if plain = 0 then none
  else if plain = 1 then some ⟨1, some 1⟩
  else if plain ≤ 256 then some ⟨toU16 plain 255, some (toU16 plain 255)⟩
  else none

/-- The value words without the bracket that makes them optional. -/
def insideBracket (bracketed : Bool) (text : Text) : Text :=
  if bracketed then Text.trim (text.drop 1).dropLast else text

def arityForMetavar (metavar : Text) : Option Arity :=
  let text := Text.trim metavar
  let bracketed := startsWith '[' text && endsWith ']' text
  let inner := insideBracket bracketed text
  let plainTokens := ((Text.splitWhitespace inner).filter fun t =>
    t ≠ "...".toList ∧ t ≠ "[...]".toList ∧ t ≠ "...]".toList).filter fun t =>
      !startsWith '[' t || !endsWith ']' t
  let requiredLead := (Text.splitWhitespace (text.takeWhile (· ≠ '['))).filter fun t =>
    t ≠ "...".toList
  if text = [] then some ⟨0, some 0⟩
  else if ['[', openBrace].isPrefixOf text ∧ ¬ bracketed then none
  else if startsWith openBrace inner then
    -- A complete choice set is one value, also where a choice contains spaces.
    (parseChoices inner).map fun _ => ⟨if bracketed then 0 else 1, some 1⟩
  else arityOfWords bracketed (contains "..." text) plainTokens.length requiredLead.length

/-- A comma separates aliases only where the next segment starts a flag. -/
def splitAliases (spec : Text) : List Text :=
  let (parts, current) := (spec.splitOn ',').foldl (fun (parts, current) segment =>
    if current = [] then (parts, segment)
    else if startsWith '-' (Text.trimStart segment) ∨ startsWith '/' (Text.trimStart segment) then
      (parts ++ [Text.trim current], segment)
    else (parts, current ++ ',' :: segment)) ([], [])
  if Text.trim current = [] then parts else parts ++ [Text.trim current]

def parseAlias (entry : Text) : Option (Spelling × Text) :=
  let entry := Text.trim entry
  -- Only an equals sign attached to the flag selects the equals spelling.
  match (Text.splitOnce '=' entry).filter fun p => !p.1.any Text.isWhitespace with
  | some (flag, value) =>
    if validFlag flag ∧ Text.trim value ≠ [] then some (⟨flag, .equals, none⟩, Text.trim value)
    else none
  | none =>
    match Text.splitWhitespace entry with
    | [] => none
    | flag :: tokens =>
      if validFlag flag then some (⟨flag, .separate, none⟩, [' '].intercalate tokens) else none

/-- The value words all aliases agree on, and whether they disagree. -/
def agreeMetavars (metavars : List Text) : Text × Bool :=
  match (metavars.map Text.trim).filter (· ≠ []) with
  | [] => ([], false)
  | first :: rest => if rest.all (· = first) then (first, false) else ([' '].intercalate metavars, true)

def namingFlag (first : Spelling) (spellings : List Spelling) : Text :=
  if spellings.length = 1 ∧ isNegated first.flag then first.flag
  else
    match spellings.find? fun s => startsWithDashes s.flag with
    | some long => long.flag
    | none => first.flag

def polarize (pair negativeOnly : Bool) (spellings : List Spelling) : List Spelling :=
  if pair then
    spellings.map fun s =>
      if isNegated s.flag then { s with polarity := some false }
      else if startsWithDashes s.flag then { s with polarity := some true }
      else s
  else if negativeOnly then spellings.modifyHead ({ · with polarity := some false })
  else spellings

def parseOptionSpec (spec group : Text) (startLine : Nat) : Option PendingOption := do
  let aliases ← (splitAliases spec).mapM parseAlias
  let spellings := aliases.map (·.1)
  let first ← spellings.head?
  guard (spellings.length ≤ 8)
  let (metavar, aliasConflict) := agreeMetavars (aliases.map (·.2))
  guard (Text.utf8Len metavar ≤ 1024)
  let isBoolean := (Text.trim metavar).isEmpty && !spellings.any (·.style = .equals)
  let hasNegative := spellings.any (isNegated ·.flag)
  let hasPositive := spellings.any (isPositiveLong ·.flag)
  let key := keyForFlag (namingFlag first spellings)
  guard (key ≠ [] ∧ Text.utf8Len key ≤ 128)
  let negativeOnly := hasNegative && !hasPositive && isBoolean
  return { key, help := [], group, startLine, endLine := startLine, positional := none, metavar
           isBoolean, negativeOnly, aliasConflict
           spellings := polarize (hasNegative && hasPositive && isBoolean) negativeOnly spellings }

def gapStarts (text : Text) : List Nat :=
  (List.range text.length).filter fun i =>
    (i = 0 || !text[i - 1]?.any blank) && text[i]?.any blank && text[i + 1]?.any blank

/-- The left side of a gap, where it is a complete spec, and the prose right of it. -/
def specBefore (line group : Text) (startLine i : Nat) :
    Option (Text × Text × Option PendingOption) :=
  let left := Text.trimEndMatches Text.isWhitespace (line.take i)
  if left ≠ [] ∧ Text.utf8Len left ≤ 1024 then
    (parseOptionSpec left group startLine).map fun row =>
      (left, Text.trim ((line.drop i).dropWhile blank), some row)
  else none

def splitSpecHelp (line group : Text) (startLine : Nat) : Text × Text × Option PendingOption :=
  match (gapStarts line).findSome? (specBefore line group startLine) with
  | some found => found
  | none =>
    let spec := Text.trim line
    (spec, [], if Text.utf8Len spec ≤ 1024 then parseOptionSpec spec group startLine else none)

def isBracket (c : Char) : Bool := c == '<' || c == '>' || c == '[' || c == ']'

def looksPositional (trimmed : Text) (sectionRow : Bool) : Bool :=
  startsWith '<' trimmed || startsWith '[' trimmed || trimmed.head?.any Char.isUpper ||
    (sectionRow && trimmed.head?.any Char.isLower &&
      (trimmed.takeWhile fun c => !Text.isWhitespace c).all fun c =>
        c.isAlphanum || c == '_' || c == '-')

/-- The name of a row, and its description behind a column gap. -/
def splitRow (trimmed : Text) : Text × Text :=
  match Search.find "  ".toList trimmed <|> Search.find ['\t'] trimmed with
  | some gap =>
    (Text.trimEndMatches Text.isWhitespace (trimmed.take gap), Text.trim (trimmed.drop gap))
  | none => (trimmed, [])

def positionalName (spec : Text) : Text :=
  let bare := trimEndOf '>' (trimEndOf ']' (trimStartOf '<' (trimStartOf '[' (Text.trim spec))))
  let word := (Text.splitWhitespace bare).headD []
  underscore '-' (Text.trimEndMatches isBracket (word.dropWhile isBracket))

/-- What the parser needs of the character tables of the standard library: the
property Alphabetic or Numeric, and `str::to_lowercase`, which leaves the letters
outside ASCII at most twice as long and never makes a NUL. -/
structure Unicode where
  isAlphanumeric : Char → Bool
  toLowercase : Text → Text
  ascii : ∀ t, (∀ c ∈ t, c.toNat < 128) → toLowercase t = t.map Char.toLower
  size : ∀ t, Text.utf8Len (toLowercase t) ≤ 2 * Text.utf8Len t
  noNul : ∀ t, Char.ofNat 0 ∉ t → Char.ofNat 0 ∉ toLowercase t

def parsePositional (unicode : Unicode) (trimmed group : Text) (startLine slot : Nat)
    (sectionRow : Bool) : Option PendingOption := do
  guard (trimmed ≠ [] ∧ ¬ startsWith '-' trimmed ∧ Text.utf8Len trimmed ≤ 256)
  guard (looksPositional trimmed sectionRow)
  let (spec, help) := splitRow trimmed
  guard (Char.ofNat 0 ∉ spec ∧ Char.ofNat 0 ∉ help)
  guard (¬ contains "--" spec)
  let wrapped := Text.trim ((Text.stripSuffix "...".toList spec).getD spec)
  guard ((startsWith '[' wrapped → endsWith ']' wrapped) ∧
    (startsWith '<' wrapped → endsWith '>' wrapped))
  let name := positionalName spec
  guard (identifier name)
  return { key := unicode.toLowercase name, spellings := [], help, group, startLine
           endLine := startLine, positional := some slot, metavar := spec, isBoolean := false
           negativeOnly := false, aliasConflict := false }

theorem trim_subset (t : Text) : Text.trim t ⊆ t := by
  obtain ⟨before, after, hsplit, -, -⟩ := Text.trim_split t
  intro c hc
  rw [hsplit]
  simp [hc]

theorem isPrefix_trimEndMatches (p : Char → Bool) (t : Text) : Text.trimEndMatches p t <+: t := by
  obtain ⟨cut, hcut, -⟩ := Text.trimEndMatches_split p t
  exact ⟨cut, hcut.symm⟩

theorem trim_sublist (t : Text) : (Text.trim t).Sublist t :=
  (isPrefix_trimEndMatches _ _).sublist.trans (List.dropWhile_sublist _)

theorem utf8Len_le_of_sublist {t u : Text} (h : t.Sublist u) :
    Text.utf8Len t ≤ Text.utf8Len u := by
  induction h with
  | slnil => exact Nat.le_refl _
  | cons c _ ih =>
    rw [Text.utf8Len_cons]
    omega
  | cons_cons c _ ih =>
    rw [Text.utf8Len_cons, Text.utf8Len_cons]
    omega

theorem isPrefix_truncateText (max : Nat) (t : Text) : truncateText max t <+: t := by
  induction t generalizing max with
  | nil => exact List.nil_prefix
  | cons c t ih =>
    rw [truncateText]
    split
    · exact List.prefix_cons_inj c |>.mpr (ih _)
    · exact List.nil_prefix

theorem utf8Len_truncateText (max : Nat) (t : Text) : Text.utf8Len (truncateText max t) ≤ max := by
  induction t generalizing max with
  | nil => exact Nat.zero_le max
  | cons c t ih =>
    rw [truncateText]
    split
    · rename_i hfits
      have hrest := ih (max - c.utf8Size)
      rw [Text.utf8Len_cons]
      omega
    · exact Nat.zero_le max

theorem mem_underscore {c x : Char} {t : Text} (h : x ∈ underscore c t) :
    x = '_' ∨ (x ∈ t ∧ x ≠ c) := by
  obtain ⟨y, hy, rfl⟩ := List.mem_map.mp h
  by_cases hc : y = c
  · simp [hc]
  · simp [hc, hy]

def flagChar (c : Char) : Bool := c.isAlphanum || "_-.?".toList.contains c

theorem keyForFlag_chars {flag : Text} (h : validFlag flag) {c : Char} (hc : c ∈ keyForFlag flag) :
    flagChar c ∧ c ≠ '-' := by
  simp only [validFlag, Bool.and_eq_true, List.all_eq_true] at h
  have hbody (x : Char) (hx : x ∈ OptionDefinition.body flag) : flagChar x := h.2 x hx
  rcases mem_underscore hc with rfl | ⟨hmem, hne⟩
  · decide
  · refine ⟨hbody c ?_, hne⟩
    split at hmem
    · exact List.mem_of_mem_drop hmem
    · exact hmem

structure PendingOption.Spelled (row : PendingOption) (group : Text) (line : Nat)
    (spellings : List Spelling) : Prop where
  flags : ∀ s ∈ spellings, validFlag s.flag ∧ s.polarity = none
  naming : ∃ first, spellings.head? = some first ∧
    row.key = keyForFlag (namingFlag first spellings)
  key : row.key ≠ [] ∧ Text.utf8Len row.key ≤ 128
  style : row.isBoolean → ∀ s ∈ spellings, s.style = .separate
  negative : row.negativeOnly = (spellings.any (isNegated ·.flag) &&
    !spellings.any (isPositiveLong ·.flag) && row.isBoolean)
  polarized : row.spellings = polarize (spellings.any (isNegated ·.flag) &&
    spellings.any (isPositiveLong ·.flag) && row.isBoolean) row.negativeOnly spellings
  blank : row.isBoolean → Text.trim row.metavar = []
  place : row.positional = none
  group : row.group = group
  line : row.startLine = line
  help : row.help = []

theorem parseAlias_some {entry metavar : Text} {s : Spelling}
    (h : parseAlias entry = some (s, metavar)) : validFlag s.flag ∧ s.polarity = none := by
  simp only [parseAlias] at h
  split at h
  · split at h
    · rename_i hvalid
      cases h
      exact ⟨hvalid.1, rfl⟩
    · cases h
  · split at h
    · cases h
    · split at h
      · rename_i hvalid
        cases h
        exact ⟨hvalid, rfl⟩
      · cases h

theorem exists_of_mapM {α β : Type} {f : α → Option β} {xs : List α} {ys : List β}
    (h : xs.mapM f = some ys) {y : β} (hy : y ∈ ys) : ∃ x ∈ xs, f x = some y := by
  induction xs generalizing ys with
  | nil =>
    cases h
    cases hy
  | cons x xs ih =>
    simp only [List.mapM_cons, Option.bind_eq_bind, Option.bind_eq_some_iff, Option.pure_def,
      Option.some.injEq] at h
    obtain ⟨first, hfirst, rest, hrest, rfl⟩ := h
    rcases List.mem_cons.mp hy with rfl | hy
    · exact ⟨x, List.mem_cons_self, hfirst⟩
    · obtain ⟨x', hx', hy'⟩ := ih hrest hy
      exact ⟨x', List.mem_cons_of_mem x hx', hy'⟩

theorem parseOptionSpec_some {spec group : Text} {line : Nat} {row : PendingOption}
    (h : parseOptionSpec spec group line = some row) :
    ∃ spellings, row.Spelled group line spellings := by
  simp only [parseOptionSpec, Option.bind_eq_bind, Option.bind_eq_some_iff, pure,
    Option.guard_eq_some', Option.some.injEq] at h
  obtain ⟨aliases, haliases, first, hfirst, -, -, -, -, -, hkey, rfl⟩ := h
  refine
    ⟨aliases.map (·.1), ?_, ⟨first, hfirst, rfl⟩, hkey, ?_, rfl, rfl, ?_, rfl, rfl, rfl, rfl⟩
  · intro s hs
    obtain ⟨⟨s, metavar⟩, hmem, rfl⟩ := List.mem_map.mp hs
    obtain ⟨entry, -, hentry⟩ := exists_of_mapM haliases hmem
    exact parseAlias_some hentry
  · intro hboolean s hs
    have hseparate : s.style ≠ .equals := by
      simp only [Bool.and_eq_true, Bool.not_eq_true', List.any_eq_false] at hboolean
      simpa using hboolean.2 s hs
    cases hstyle : s.style with
    | separate => rfl
    | equals => exact absurd hstyle hseparate
  · intro hboolean
    exact List.isEmpty_iff.mp (Bool.and_eq_true _ _ ▸ hboolean).1

theorem specBefore_some {line group : Text} {n i : Nat} {found : Text × Text × Option PendingOption}
    (h : specBefore line group n i = some found) :
    ∃ left row, parseOptionSpec left group n = some row ∧ left ≠ [] ∧ Text.utf8Len left ≤ 1024 ∧
      found = (left, Text.trim ((line.drop i).dropWhile blank), some row) := by
  simp only [specBefore] at h
  split at h
  · rename_i hleft
    obtain ⟨row, hrow, rfl⟩ := Option.map_eq_some_iff.mp h
    exact ⟨_, row, hrow, hleft.1, hleft.2, rfl⟩
  · cases h

theorem splitSpecHelp_some {line group : Text} {n : Nat} {row : PendingOption}
    (h : (splitSpecHelp line group n).2.2 = some row) :
    ∃ left, parseOptionSpec left group n = some row := by
  unfold splitSpecHelp at h
  split at h
  · rename_i found hfound
    obtain ⟨i, -, hi⟩ := List.exists_of_findSome?_eq_some hfound
    obtain ⟨left, parsed, hparsed, -, -, rfl⟩ := specBefore_some hi
    cases h
    exact ⟨left, hparsed⟩
  · dsimp only at h
    split at h
    · exact ⟨_, h⟩
    · cases h

theorem splitSpecHelp_help (line group : Text) (n : Nat) :
    (splitSpecHelp line group n).2.1 ⊆ line := by
  unfold splitSpecHelp
  split
  · rename_i found hfound
    obtain ⟨i, -, hi⟩ := List.exists_of_findSome?_eq_some hfound
    obtain ⟨left, parsed, -, -, -, rfl⟩ := specBefore_some hi
    exact List.Subset.trans (trim_subset _)
      (List.Subset.trans (List.dropWhile_subset _) (List.drop_subset i line))
  · exact List.nil_subset line

/-- The character may stand in the key of a row: what an identifier may hold, and
the question mark of a flag. -/
def keyChar (c : Char) : Bool := c.isAlphanum || "._-/?".toList.contains c

theorem keyChar_of_flagChar {c : Char} (h : flagChar c) : keyChar c := by
  have hall : ∀ d ∈ "_-.?".toList, keyChar d := List.all_iff_forall_prop.mp (by decide)
  rcases Bool.or_eq_true _ _ ▸ h with h | h
  · exact Bool.or_eq_true _ _ ▸ .inl h
  · exact hall c (List.contains_iff_mem.mp h)

theorem toNat_lt_of_isAlphanum {c : Char} (h : c.isAlphanum) : c.toNat < 128 := by
  have hle (d : Char) (hd : d.toNat < 128) (hc : c.val ≤ d.val) : c.toNat < 128 :=
    Nat.lt_of_le_of_lt (UInt32.le_iff_toNat_le.mp hc) hd
  rcases Bool.or_eq_true_iff.mp h with halpha | hdigit
  · rcases Bool.or_eq_true_iff.mp halpha with hupper | hlower
    · exact hle 'Z' (by decide) (of_decide_eq_true hupper).2
    · exact hle 'z' (by decide) (of_decide_eq_true (Bool.and_eq_true_iff.mp hlower).2)
  · exact hle '9' (by decide) (of_decide_eq_true (Bool.and_eq_true_iff.mp hdigit).2)

theorem keyChar_toLower {c : Char} (h : c.isAlphanum || "._-/".toList.contains c) :
    c.toNat < 128 ∧ keyChar c.toLower := by
  have hlt : c.toNat < 128 := by
    rcases Bool.or_eq_true _ _ ▸ h with h | h
    · exact toNat_lt_of_isAlphanum h
    · have hall : ∀ d ∈ "._-/".toList, d.toNat < 128 := List.all_iff_forall_prop.mp (by decide)
      exact hall c (List.contains_iff_mem.mp h)
  have hall : ∀ n < 128, ((Char.ofNat n).isAlphanum || "._-/".toList.contains (Char.ofNat n)) →
      keyChar (Char.ofNat n).toLower := by decide +kernel
  have hchar := hall c.toNat hlt
  rw [Char.ofNat_toNat] at hchar
  exact ⟨hlt, hchar h⟩

theorem toLowercase_chars (unicode : Unicode) {name : Text} (h : identifier name) {c : Char}
    (hc : c ∈ unicode.toLowercase name) : keyChar c := by
  simp only [identifier, Bool.and_eq_true, List.all_eq_true] at h
  rw [unicode.ascii name fun x hx => (keyChar_toLower (h.2 x hx)).1] at hc
  obtain ⟨x, hx, rfl⟩ := List.mem_map.mp hc
  exact (keyChar_toLower (h.2 x hx)).2

theorem parsePositional_some {unicode : Unicode} {trimmed group : Text} {line slot : Nat}
    {sectionRow : Bool} {row : PendingOption}
    (h : parsePositional unicode trimmed group line slot sectionRow = some row) :
    ∃ spec help, identifier (positionalName spec) ∧ Char.ofNat 0 ∉ help ∧
      row = { key := unicode.toLowercase (positionalName spec), spellings := [], help, group
              startLine := line, endLine := line, positional := some slot, metavar := spec
              isBoolean := false, negativeOnly := false, aliasConflict := false } := by
  simp only [parsePositional, Option.bind_eq_bind, Option.bind_eq_some_iff, pure,
    Option.guard_eq_some', Option.some.injEq] at h
  obtain ⟨-, -, -, -, -, hnul, -, -, -, -, -, hname, hrow⟩ := h
  exact ⟨_, _, hname, hnul.2, hrow.symm⟩

end AioLM.Options
