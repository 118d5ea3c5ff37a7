import AioLM.OptionResolve

/-!
The registered entry a command starts with: its fixed tokens, the roles a
reviewed layout gives them, and where the options of a pasted command begin.
-/

set_option autoImplicit false

namespace AioLM.Options

open Fallible

/-- A fixed option of the entry and how many of the next tokens it owns. -/
structure PrefixOption where
  index : Nat
  values : Nat

structure CommandLayout where
  version : Nat
  subcommands : List Nat := []
  options : List PrefixOption := []

namespace CommandLayout

def checkOption (tokens : List Text) (occupied : List Nat) (option : PrefixOption) :
    Except Text (List Nat) :=
  match tokens[option.index]? with
  | none => .error "a fixed option index is outside the entry prefix".toList
  | some flag => do
    let owned := List.range' option.index (option.values + 1)
    require (startsWith '-' flag ∧ flag.dropWhile (· = '-') ≠ [] ∧ option.values ≤ 128 ∧
        option.index + option.values < tokens.length ∧ ('=' ∈ flag → option.values = 0))
      "declare a fixed option and its exact following value count".toList
    require (∀ index ∈ owned, index ∉ occupied)
      "fixed option roles overlap in the command layout".toList
    return owned ++ occupied

def subcommandWord (word : Text) : Bool :=
  !word.isEmpty && decide (Text.utf8Len word ≤ 128) && !startsWith '-' word &&
    word.all fun c => c != Char.ofNat 0 && c != '/' && c != '\\' && !Text.isWhitespace c

def checkSubcommand (tokens : List Text) (occupied : List Nat) (previous : Option Nat)
    (index : Nat) : Except Text (Option Nat) :=
  match tokens[index]? with
  | none => .error "a subcommand index is outside the entry prefix".toList
  | some word => do
    require (index ∉ occupied ∧ previous.all (· < index) ∧ subcommandWord word)
      "choose ordered subcommand tokens, not option names or values".toList
    return some index

def validate (layout : CommandLayout) (tokens : List Text) : Except Text Unit := do
  require (layout.version = 1 ∧ tokens.length ≤ 128 ∧ layout.options.length ≤ 128 ∧
      layout.subcommands.length ≤ 8)
    "unsupported command layout version or bounds".toList
  let occupied ← layout.options.foldlM (checkOption tokens) []
  let _ ← layout.subcommands.foldlM (checkSubcommand tokens occupied) none
  tokens.zipIdx.forM fun e =>
    require (startsWith '-' e.1 → e.2 ∈ occupied)
      ("declare the fixed option at argument ".toList ++ Nat.toDigits 10 (e.2 + 1) ++
        " and its value count".toList)

def scope (layout : CommandLayout) (tokens : List Text) : Except Text (List Text) := do
  layout.validate tokens
  return layout.subcommands.filterMap fun index => tokens[index]?

end CommandLayout

inductive PositionalRole where
  | user
  | binding (name : Text)
  | static (index : Nat)
  deriving DecidableEq

structure CommandEntry where
  version : Nat
  program : Text
  prefixTokens : List Text
  layout : Option CommandLayout := none
  separator : Option Text := none
  positionalRoles : KeyMap Text PositionalRole := .empty

namespace CommandEntry

def validate (entry : CommandEntry) : Except Text Unit := do
  require (entry.version = 1) "unsupported command entry version; update the app".toList
  require (entry.prefixTokens.length ≤ 128 ∧ entry.program ≠ []) "invalid command entry".toList
  match entry.layout with
  | none => pure ()
  | some layout => layout.validate entry.prefixTokens
  require (entry.separator.all (· = "--".toList)) "command entry separator must be --".toList

def scope (entry : CommandEntry) : Except Text (List Text) :=
  match entry.layout with
  | none => .ok []
  | some layout => layout.scope entry.prefixTokens

def segmentsFrom (tokens : List Text) : Nat → List Nat → List (List Text)
  | start, [] => [tokens.drop start]
  | start, index :: subcommands =>
    (tokens.take index).drop start :: segmentsFrom tokens (index + 1) subcommands

/-- The head before the first declared subcommand, then the tokens after each. -/
def segments (entry : CommandEntry) : List (List Text) :=
  segmentsFrom entry.prefixTokens 0 (entry.layout.elim [] (·.subcommands))

def head (entry : CommandEntry) : List Text := entry.segments.headD []

end CommandEntry

def isSeparator (c : Char) : Bool := c == '/' || c == '\\'

def toAsciiLowercase (t : Text) : Text :=
  t.map fun c => if c.isUpper then c.toLower else c

def programName (windows : Bool) (text : Text) : Text :=
  let base := (text.reverse.takeWhile fun c => !isSeparator c).reverse
  if windows then
    let lower := toAsciiLowercase base
    if ".exe".toList.isSuffixOf lower then lower.take (lower.length - 4) else lower
  else base

def sameProgram (windows : Bool) (word program : Text) : Bool :=
  decide (word = program) ||
    (!word.isEmpty && decide (programName windows word = programName windows program))

def agreeing : List Text → List Text → Nat
  | token :: tokens, word :: words => if token = word then agreeing tokens words + 1 else 0
  | _, _ => 0

/-- A command that starts with the registered program must go on with the exact
entry head; one that starts with the head alone skips it. -/
def entryStart (windows : Bool) (entry : CommandEntry) (words : List Text) : Except Text Nat :=
  let named := words.head?.any (sameProgram windows · entry.program)
  let after := if named then 1 else 0
  if entry.head.isPrefixOf (words.drop after) then .ok (after + entry.head.length)
  else if named then
    .error (("the pasted command runs this runtime's program with other entry arguments " ++
      "(argument ").toList ++ Nat.toDigits 10 (after + agreeing entry.head (words.drop after) + 1) ++
      (" differs from the registered entry); paste only the options after the entry, or " ++
      "register that entry point").toList)
  else .ok 0

def looksLikeProgram (selected words : List Text) : Bool :=
  words.head?.any fun word =>
    !startsWith '-' word && !(selected.head? == some word) &&
      (word.contains '/' || word.contains '\\' || word.contains '.')

def startIndex (windows : Bool) (selected : List Text) (entry : Option CommandEntry)
    (words : List Text) : Except Text Nat :=
  match entry with
  | some entry => entryStart windows entry words
  | none => .ok (if looksLikeProgram selected words then 1 else 0)

theorem startIndex_le {windows : Bool} {selected : List Text} {entry : Option CommandEntry}
    {words : List Text} {start : Nat} (h : startIndex windows selected entry words = .ok start) :
    start ≤ words.length := by
  cases entry with
  | none =>
    cases words with
    | nil => simp_all [startIndex, looksLikeProgram]
    | cons word words =>
      simp only [startIndex, Except.ok.injEq] at h
      split at h <;> simp [← h]
  | some entry =>
    simp only [startIndex, entryStart] at h
    have hafter : (if words.head?.any (sameProgram windows · entry.program) then 1 else 0) ≤
        words.length := by
      cases words with
      | nil => simp
      | cons word words =>
        rw [List.length_cons]
        split <;> omega
    generalize (if words.head?.any (sameProgram windows · entry.program) then 1 else 0) = after
      at h hafter
    split at h
    · rename_i hhead
      cases h
      have hle := (List.isPrefixOf_iff_prefix.mp hhead).length_le
      rw [List.length_drop] at hle
      omega
    · split at h
      · cases h
      · cases h
        exact Nat.zero_le _

end AioLM.Options
