import Mathlib.Data.Char
import Mathlib.Data.List.Lex
import AioLM.HelpSpecs
import AioLM.HelpService

/-!
The parser of a help text: rows read line by line, switches paired with their
negations, repeated rows dropped.
-/

set_option autoImplicit false

namespace AioLM.Options

/-- `str::lines`: a carriage return goes with the line feed it precedes. -/
def textLines (t : Text) : List Text :=
  ((Framing.lines '\n' t).map fun line => (Text.stripSuffix ['\r'] line).getD line) ++
    if Framing.rest '\n' t = [] then [] else [Framing.rest '\n' t]

theorem length_textLines (t : Text) : (textLines t).length = lineCount t := by
  rw [textLines, lineCount, List.length_append, List.length_map]
  split <;> rfl

def verified {α : Type} (value : α) (document : Text) (startLine endLine : Nat) : Fact α :=
  ⟨some value, .verified, some (.help document startLine endLine)⟩

def isSectionHeader (unicode : Unicode) (trimmed : Text) : Bool :=
  endsWith ':' trimmed && decide (Text.utf8Len trimmed ≤ 80) &&
    !trimmed.contains (Char.ofNat 0) && !(trimEndOf ':' trimmed).isEmpty &&
    !startsWith '-' (trimEndOf ':' trimmed) &&
    (trimEndOf ':' trimmed).all fun c =>
      unicode.isAlphanumeric c || Text.isWhitespace c || c == '_' || c == '-' || c == '/'

def normalizeGroup (unicode : Unicode) (header : Text) : Text :=
  let name := unicode.toLowercase (Text.trim (trimEndOf ':' header))
  if name = [] then "runtime".toList else name.take 256

def isUsage (trimmed : Text) : Bool := Text.eqIgnoreAsciiCase (trimmed.take 6) "usage:".toList

/-- `lastOption` is the row that a deeper or plain line continues, and `sectionIndent`
the indent of the first row of the section. -/
structure Reading where
  options : List PendingOption := []
  group : Text := "runtime".toList
  positionalSection : Bool := false
  sectionIndent : Option Nat := none
  inUsageWrap : Bool := false
  positionalSlot : Nat := 0
  lastOption : Option Nat := none
  lastOptionIndent : Nat := 0
  endOfOptions : Fact Bool := {}

namespace Reading

def push (st : Reading) (row : PendingOption) (indent : Nat) : Reading :=
  if st.options.length < 4096 then
    { st with
      options := st.options ++ [row]
      lastOption := some st.options.length
      lastOptionIndent := indent }
  else { st with lastOption := none }

def append (st : Reading) (index : Nat) (text : Text) (lineNo : Nat) : Reading :=
  { st with options := st.options.modify index (·.appendHelp text lineNo) }

def enterSection (unicode : Unicode) (st : Reading) (header : Text) : Reading :=
  let group := normalizeGroup unicode header
  { st with
    group
    positionalSection := contains "positional" group || contains "operand" group ||
      group = "arguments".toList
    sectionIndent := none
    inUsageWrap := false
    lastOption := none }

def readSyntax (unicode : Unicode) (st : Reading) (trimmed : Text) (indent lineNo : Nat)
    (sectionRow : Bool) : Reading :=
  if startsWith '-' trimmed ∨ startsWith '/' trimmed then
    let (spec, help, parsed) := splitSpecHelp trimmed st.group lineNo
    match (if spec = [] ∨ 1024 < Text.utf8Len spec then none else parsed) with
    | some row => st.push { row with help, endLine := lineNo } indent
    | none => { st with lastOption := none }
  else
    match (if st.positionalSection ∨ startsWith '<' trimmed ∨ startsWith '[' trimmed then
        parsePositional unicode trimmed st.group lineNo st.positionalSlot sectionRow
      else none) with
    | some row =>
      { st with positionalSlot := min (st.positionalSlot + 1) 65535 }.push row indent
    | none => { st with lastOption := none }

def continues (st : Reading) (line trimmed : Text) (lineNo : Nat) (sectionRow : Bool) : Bool :=
  (startsWith ' ' line || startsWith '\t' line) &&
    !(startsWith '-' trimmed || startsWith '/' trimmed || startsWith '<' trimmed || sectionRow ||
      (trimmed.head?.any Char.isUpper &&
        decide (Text.utf8Len (splitSpecHelp trimmed st.group lineNo).1 ≤ 64)))

def readEntry (unicode : Unicode) (st : Reading) (line trimmed : Text) (indent lineNo : Nat) :
    Reading :=
  let sectionRow := st.positionalSection && st.sectionIndent == some indent
  match st.lastOption.filter fun _ => st.continues line trimmed lineNo sectionRow with
  | some index => st.append index trimmed lineNo
  | none => st.readSyntax unicode trimmed indent lineNo sectionRow

def readLine (unicode : Unicode) (document : Text) (st : Reading) (entry : Text × Nat) : Reading :=
  let (line, index) := entry
  let lineNo := min (index + 1) (2 ^ 32 - 1)
  let trimmed := Text.trim line
  let indent := Text.utf8Len line - Text.utf8Len (Text.trimStart line)
  if trimmed = [] then { st with inUsageWrap := false }
  else
    match st.lastOption.filter fun _ => decide (st.lastOptionIndent < indent) with
    | some index => st.append index trimmed lineNo
    | none =>
      if trimmed = "--".toList then
        { st with endOfOptions := verified true document lineNo lineNo, lastOption := none }
      else if isUsage trimmed then { st with inUsageWrap := true, lastOption := none }
      else if isSectionHeader unicode trimmed then st.enterSection unicode trimmed
      else if st.inUsageWrap ∧ (startsWith '[' trimmed ∨ startsWith '(' trimmed) then st
      else
        -- The first row of a positional section fixes the indent of its rows.
        let sectionIndent :=
          if st.positionalSection then some (st.sectionIndent.getD indent) else st.sectionIndent
        { st with inUsageWrap := false, sectionIndent }.readEntry unicode line trimmed indent lineNo

def readText (unicode : Unicode) (document text : Text) : Reading :=
  (textLines text).zipIdx.foldl (readLine unicode document) {}

end Reading

/-- Take over a flag of the other line of a pair, unless it is there already. -/
def addFlag (polarity : Bool) (spellings : List Spelling) (s : Spelling) : List Spelling :=
  if spellings.any (·.flag = s.flag) then spellings
  else spellings ++ [⟨s.flag, .separate, some polarity⟩]

def isOpposite (polarity : Bool) (flag : Text) : Bool :=
  if polarity then isNegated flag else isPositiveLong flag

/-- A flag of the other side that still has no polarity gets the opposite one. -/
def settlePolarity (polarity : Bool) (s : Spelling) : Spelling :=
  if isOpposite polarity s.flag && s.polarity.isNone then { s with polarity := some (!polarity) }
  else s

def PendingOption.absorb (row other : PendingOption) (polarity : Bool) : PendingOption :=
  { row with
    spellings := (other.spellings.foldl (addFlag polarity) row.spellings).map
      (settlePolarity polarity)
    negativeOnly := false
    help := if other.help = [] then row.help
      else (if row.help = [] then row.help else row.help ++ [' ']) ++ other.help
    endLine := other.endLine }

/-- `negatives` holds the lone negations by the name they negate, `positives` the
switches by name. -/
structure Merging where
  merged : List PendingOption := []
  negatives : KeyMap Text Nat := .empty
  positives : KeyMap Text Nat := .empty

namespace Merging

def push (st : Merging) (row : PendingOption) : Merging := { st with merged := st.merged ++ [row] }

def absorb (st : Merging) (index : Nat) (row : PendingOption) (polarity : Bool) : Merging :=
  { st with merged := st.merged.modify index (·.absorb row polarity) }

def add (st : Merging) (row : PendingOption) : Merging :=
  if row.positional.isSome then st.push row
  else if row.negativeOnly then
    match st.positives.get row.key with
    | some index => st.absorb index row false
    | none => { st with negatives := st.negatives.insert row.key st.merged.length }.push row
  else
    match (if row.isBoolean then row.spellings.find? (isPositiveLong ·.flag) else none) with
    | none => st.push row
    | some long =>
      let base := keyForFlag long.flag
      match st.negatives.get base with
      | some index =>
        { st with
          negatives := st.negatives.erase base
          positives := st.positives.insert base index }.absorb index row true
      | none => { st with positives := st.positives.insert base st.merged.length }.push row

end Merging

def mergePairs (rows : List PendingOption) : List PendingOption :=
  (rows.foldl Merging.add {}).merged

def ownKey (flag : Text) : Text := underscore '-' (trimStartOf '-' flag)

/-- Beside another option of its name a lone negation is a switch of its own. -/
def PendingOption.detach (taken : List Text) (row : PendingOption) : PendingOption :=
  if row.negativeOnly && taken.contains row.key then
    match row.spellings.find? (isNegated ·.flag) with
    | none => row
    | some s =>
      { row with
        key := ownKey s.flag
        negativeOnly := false
        spellings := row.spellings.map ({ · with polarity := none }) }
  else row

def detachLone (rows : List PendingOption) : List PendingOption :=
  rows.map (·.detach ((rows.filter fun row => !row.negativeOnly).map (·.key)))

/-- The flags, keys and slots already seen; a report has one scope. -/
structure SeenRows where
  flags : List Text := []
  keys : List Text := []
  positions : List Nat := []

def insertFlags (seen : List Text) (flags : List Text) : Bool × List Text :=
  flags.foldl (fun (fresh, seen) flag => (fresh && !seen.contains flag, flag :: seen)) (true, seen)

def SeenRows.accept (seen : SeenRows) (row : PendingOption) : Bool × SeenRows :=
  let (fresh, flags) := insertFlags seen.flags (row.spellings.map (·.flag))
  let next := { seen with flags, keys := row.key :: seen.keys }
  if !fresh || seen.keys.contains row.key || row.key.isEmpty || decide (128 < Text.utf8Len row.key)
  then (false, next)
  else
    match row.positional with
    | some slot => (!seen.positions.contains slot, { next with positions := slot :: seen.positions })
    | none => (!row.spellings.isEmpty, next)

def keepRows (seen : SeenRows) : List PendingOption → List PendingOption
  | [] => []
  | row :: rows =>
    match seen.accept row with
    | (true, next) => row :: keepRows next rows
    | (false, next) => keepRows next rows

def managedForFlag (flag : Text) : Option ManagedBinding :=
  if ["--model", "--model-path", "--model-dir", "--served-model-name", "--model-alias"].any
      (·.toList = flag) then some .model
  else if flag = "--host".toList then some .host
  else if flag = "--port".toList then some .port
  else if flag = "--api-key".toList then some .authentication
  else none

namespace PendingOption

variable (document : Text) (row : PendingOption)

def kindFact : Fact ValueKind :=
  if row.positional.isNone && row.isBoolean then
    verified .boolean document row.startLine row.endLine
  else {}

def arityFact : Fact Arity :=
  if row.positional.isNone && row.isBoolean then
    verified ⟨0, some 0⟩ document row.startLine row.endLine
  else if row.positional.isNone && row.aliasConflict then {}
  else
    match arityForMetavar row.metavar with
    | some arity => verified arity document row.startLine row.endLine
    | none => {}

def choicesFact : Fact (List Json) :=
  if row.positional.isNone && !row.isBoolean && !row.aliasConflict then
    match parseChoices row.metavar with
    | some values => verified values document row.startLine row.endLine
    | none => {}
  else {}

def confirmStyle (s : Spelling) : Spelling :=
  if s.style = .equals ∧ (arityForMetavar row.metavar).all (·.max ≠ some 1) then
    { s with style := .separate }
  else s

def finalKey : Text := underscore '.' row.key

def toDefinition (scope : List Text) : OptionDefinition :=
  { key := row.finalKey
    scope
    spellings := row.spellings.map row.confirmStyle
    position := row.positional
    kind := row.kindFact document
    arity := row.arityFact document
    choices := row.choicesFact document
    group := row.group
    help := truncateText 32768 row.help
    target := .launch
    managed := row.spellings.findSome? fun s => managedForFlag s.flag
    rawSpans := [.help document row.startLine row.endLine] }

end PendingOption

/-- A report with the parts that only the parser reads: `stdout.clean_text` and
`stderr.clean_text`, and the scope it was made for. -/
structure ScopedReport extends Help.HelpReport where
  scope : List Text
  stdoutText : Text
  stderrText : Text

namespace ScopedReport

variable (unicode : Unicode) (report : ScopedReport)

/-- Complete help may live on either stream. -/
def document : Text × Text :=
  if Text.trim report.stdoutText = [] ∧ Text.trim report.stderrText ≠ [] then
    ("stderr".toList, report.stderrText)
  else ("stdout".toList, report.stdoutText)

def reading : Reading := .readText unicode report.document.1 report.document.2

def keptRows : List PendingOption :=
  keepRows {} (detachLone (mergePairs (report.reading unicode).options))

def definitions : List OptionDefinition :=
  (report.keptRows unicode).map fun row => row.toDefinition report.document.1 report.scope

def rawHelp : List RawHelp :=
  { id := "stdout".toList, scope := report.scope, text := report.stdoutText } ::
    if Text.trim report.stderrText = [] then []
    else [{ id := "stderr".toList, scope := report.scope, text := report.stderrText }]

def schema (binding : SchemaBinding) : OptionSchema :=
  { schemaVersion := 1
    binding
    options := report.definitions unicode
    rawHelp := report.rawHelp
    endOfOptions := (report.reading unicode).endOfOptions }

end ScopedReport

open Fallible in
def parseHelpReport (unicode : Unicode) (serde : Serde) (report : ScopedReport)
    (binding : SchemaBinding) : Except Text OptionSchema := do
  require (¬ report.stdout.decodingLoss ∧ ¬ report.stderr.decodingLoss)
    ("help output is incomplete because decoding lost bytes; " ++
      "choose the engine's help encoding and discover again").toList
  require (report.success ∧ report.error = none ∧ ¬ report.cancelled ∧ ¬ report.timedOut ∧
      ∀ s ∈ [report.stdout, report.stderr], ¬ s.truncated ∧ ¬ s.decodingLoss ∧ s.readError = none)
    "help output is incomplete; rediscover before building options".toList
  require (report.identity.parserVersion = Help.parserVersion)
    "help report uses an unsupported parser version".toList
  require (binding.fingerprint = report.identity.fingerprint)
    "schema binding must match the discovered help fingerprint".toList
  require (Text.utf8Len report.document.2 ≤ 2 * 1024 * 1024)
    "help output exceeds its schema limit".toList
  require (report.definitions unicode ≠ [])
    "help contains no explicit option syntax; nothing verified".toList
  ((report.schema unicode binding).validate serde).mapError ("parsed help schema is invalid: ".toList ++ ·)
  return report.schema unicode binding

end AioLM.Options
