import AioLM.Fallible
import AioLM.Framing
import AioLM.Json
import AioLM.Lists
import Mathlib.Data.List.Nodup
import Mathlib.Data.List.Pairwise

/-!
Option descriptions of a runtime, the check a description must pass before it is
used, and what a checked description guarantees.
-/

set_option autoImplicit false

namespace AioLM.Options

open Fallible

inductive Certainty where
  | unknown
  | documented
  | verified
  | userConfirmed
  deriving DecidableEq

inductive Source where
  | help (document : Text) (startLine endLine : Nat)
  | adapter (id revision : Text)
  | user (note : Text)

structure Fact (α : Type) where
  value : Option α := none
  certainty : Certainty := .unknown
  source : Option Source := none

def Fact.supported {α : Type} (fact : Fact α) : Option α :=
  if fact.certainty = .unknown then none else fact.value

structure SchemaBinding where
  engine : Text
  runtime : Text
  fingerprint : Text

structure RawHelp where
  id : Text
  scope : List Text := []
  text : Text

inductive ValueKind where
  | boolean
  | integer
  | number
  | text
  | tokens
  | json
  deriving DecidableEq

/-- No maximum is a documented variable number of values. -/
structure Arity where
  min : Nat
  max : Option Nat
  deriving DecidableEq

inductive ValueStyle where
  | separate
  | equals
  deriving DecidableEq

structure Spelling where
  flag : Text
  style : ValueStyle := .separate
  polarity : Option Bool := none
  deriving DecidableEq

inductive Target where
  | launch
  | request
  deriving DecidableEq

inductive ManagedBinding where
  | model
  | host
  | port
  | authentication
  | discovery
  | entryPoint
  | reserved
  deriving DecidableEq

structure NumericRange where
  min : Option Float
  max : Option Float
  minExclusive : Bool := false
  maxExclusive : Bool := false
  sentinelValues : List Float := []

namespace NumericRange

def contains (range : NumericRange) (number : Float) : Bool :=
  number.isFinite &&
    (range.sentinelValues.any (· == number) ||
      (range.min.all (fun min =>
          if range.minExclusive then decide (min < number) else decide (min ≤ number)) &&
        range.max.all (fun max =>
          if range.maxExclusive then decide (number < max) else decide (number ≤ max))))

def valid (range : NumericRange) : Bool :=
  range.min.all Float.isFinite && range.max.all Float.isFinite &&
    decide (range.sentinelValues.length ≤ 128) && range.sentinelValues.all Float.isFinite &&
    (!range.minExclusive || range.min.isSome) && (!range.maxExclusive || range.max.isSome) &&
    match range.min, range.max with
    | some min, some max =>
      decide (min < max) || (min == max && !range.minExclusive && !range.maxExclusive)
    | _, _ => true

end NumericRange

structure RuntimeDefault where
  literal : Json

inductive BenchmarkRole where
  | contextTotalTokens
  | contextPerSequenceTokens
  | contextPerRequestKvTokens
  | concurrencyCapacity

structure OptionDefinition where
  key : Text
  scope : List Text := []
  spellings : List Spelling := []
  position : Option Nat := none
  kind : Fact ValueKind := {}
  arity : Fact Arity := {}
  repeatable : Fact Bool := {}
  choices : Fact (List Json) := {}
  range : Fact NumericRange := {}
  unit : Fact Text := {}
  runtimeDefault : Fact RuntimeDefault := {}
  group : Text := []
  help : Text := []
  target : Target
  requestField : Fact Text := {}
  restartRequired : Fact Bool := {}
  sensitive : Fact Bool := {}
  localPath : Fact Bool := {}
  benchmarkPublic : Fact Bool := {}
  benchmarkName : Fact Text := {}
  benchmarkRole : Fact BenchmarkRole := {}
  managed : Option ManagedBinding := none
  rawSpans : List Source := []

/-- Without an operand a predicate tests for an occurrence. -/
structure Predicate where
  key : Text
  equals : Option Json := none

inductive Relation where
  | requires (condition other : Predicate)
  | excludes (condition other : Predicate)

namespace Relation

def condition : Relation → Predicate
  | requires condition _ => condition
  | excludes condition _ => condition

def other : Relation → Predicate
  | requires _ other => other
  | excludes _ other => other

end Relation

structure OptionSchema where
  schemaVersion : Nat
  binding : SchemaBinding
  options : List OptionDefinition
  constraints : List (Fact Relation) := []
  rawHelp : List RawHelp := []
  endOfOptions : Fact Bool := {}

/-- What the JSON package computes: the text of a float, the value of a text,
the size of a serialized schema, and why a saved order does not deserialize. -/
structure Serde where
  floatText : Float → Text
  parse : Text → Option Json
  schemaSize : OptionSchema → Nat
  malformed : Json → Text

def startsWith (c : Char) (t : Text) : Bool := t.head? == some c

/-- `starts_with("--")` -/
def startsWithDashes (t : Text) : Bool := "--".toList.isPrefixOf t

def boundedText (value : Text) (max : Nat) : Bool :=
  decide (Text.utf8Len value ≤ max) && !value.contains (Char.ofNat 0)

def identifier (value : Text) : Bool :=
  !value.isEmpty && decide (Text.utf8Len value ≤ 128) &&
    value.all fun c => c.isAlphanum || "._-/".toList.contains c

def validScope (scope : List Text) : Bool :=
  decide (scope.length ≤ 8) &&
    scope.all fun s => identifier s && !startsWith '-' s && !startsWith '/' s && !s.contains '/'

/-- Wire identifiers exclude local keys, paths and flag markers. -/
def benchmarkIdentifier (value : Text) : Bool :=
  decide (Text.utf8Len value ≤ 64) && value.head?.any Char.isAlphanum &&
    value.all fun c => c.isAlphanum || "_.-".toList.contains c

def hexDigit (c : Char) : Bool :=
  c.isDigit || (decide ('a' ≤ c) && decide (c ≤ 'f')) || (decide ('A' ≤ c) && decide (c ≤ 'F'))

/-- `text.lines().count()` -/
def lineCount (t : Text) : Nat :=
  (Framing.lines '\n' t).length + if Framing.rest '\n' t = [] then 0 else 1

/-- `x.fract()` -/
def fract (x : Float) : Float := x - if x < 0 then x.ceil else x.floor

def maxHelpBytes : Nat := 2 * 1024 * 1024
def maxSchemaBytes : Nat := 3 * 1024 * 1024
def maxOptions : Nat := 4096
def maxArguments : Nat := 512
def maxArgumentBytes : Nat := 32768
def maxValuesBytes : Nat := 131072

def OptionDefinition.valueText (serde : Serde) (option : OptionDefinition) (value : Json) : Text :=
  if option.kind.supported = some .json then value.compact serde.floatText
  else
    match value with
    | .string text => text
    | value => value.compact serde.floatText

/-- The documented type of an option, as a test on values. -/
def ofKind : Option ValueKind → Json → Bool
  | some .boolean, value => value.isBoolean
  | some .integer, value => value.asI64.isSome
  | some .number, value => value.asF64.any Float.isFinite
  | some .json, _ => true
  | some .text, value | some .tokens, value | none, value => value.isString

def OptionDefinition.checkNumber (option : OptionDefinition) (value : Json) : Except Text Unit :=
  match option.range.supported with
  | none => .ok ()
  | some range =>
    match value.asF64 with
    | none => .error "numeric range requires a number".toList
    | some number =>
      require (range.contains number) "value is outside the documented numeric range".toList

def OptionDefinition.scalar (serde : Serde) (option : OptionDefinition) (value : Json) :
    Except Text Text := do
  require (ofKind option.kind.supported value)
    "value does not match the documented type; unknown types accept text tokens only".toList
  require (option.choices.supported.all (·.contains value))
    "value is outside the documented choices".toList
  option.checkNumber value
  require (boundedText (option.valueText serde value) maxArgumentBytes)
    "option value contains NUL or exceeds its size limit".toList
  return option.valueText serde value

theorem OptionDefinition.scalar_eq_ok {serde : Serde} {option : OptionDefinition} {value : Json}
    {text : Text} (h : option.scalar serde value = .ok text) :
    text = option.valueText serde value ∧ ofKind option.kind.supported value := by
  simp only [scalar, bind_eq_ok, require_eq_ok, pure, Except.pure, Except.ok.injEq] at h
  obtain ⟨-, hkind, -, -, -, -, -, -, htext⟩ := h
  exact ⟨htext.symm, hkind⟩

def Source.fits (documents : List RawHelp) : Source → Bool
  | .help document startLine endLine =>
    (documents.find? (·.id = document)).any fun help =>
      0 < startLine && startLine ≤ endLine && endLine ≤ lineCount help.text
  | .adapter id revision => identifier id && !revision.isEmpty && boundedText revision 256
  | .user note => !note.isEmpty && boundedText note 1024

def Source.isAdapter : Source → Bool
  | .adapter _ _ => true
  | _ => false

def checkSource (documents : List RawHelp) (source : Source) : Except Text Unit :=
  require (source.fits documents) "option fact has an invalid source or raw-help span".toList

def checkFact {α : Type} (documents : List RawHelp) (fact : Fact α) : Except Text Unit := do
  require (fact.certainty = .unknown ∨ (fact.value.isSome ∧ fact.source.isSome))
    "supported option facts need a value and source".toList
  match fact.source with
  | none => pure ()
  | some source => checkSource documents source

/-- The names taken by the options already checked. -/
structure Seen where
  keys : List Text := []
  flags : List (List Text × Text) := []
  positions : List (List Text × Nat) := []
  requestFields : List Text := []

namespace OptionDefinition

def checkFacts (documents : List RawHelp) (option : OptionDefinition) : Except Text Unit := do
  checkFact documents option.kind
  checkFact documents option.arity
  checkFact documents option.repeatable
  checkFact documents option.choices
  checkFact documents option.range
  checkFact documents option.unit
  checkFact documents option.runtimeDefault
  checkFact documents option.requestField
  checkFact documents option.restartRequired
  checkFact documents option.sensitive
  checkFact documents option.localPath
  checkFact documents option.benchmarkPublic
  checkFact documents option.benchmarkName
  checkFact documents option.benchmarkRole

def arityFits (option : OptionDefinition) : Bool :=
  option.arity.supported.all fun arity =>
    decide (arity.min ≤ 256) && arity.max.all fun n => decide (arity.min ≤ n) && decide (n ≤ 256)

def choicesFit (option : OptionDefinition) : Bool :=
  option.choices.supported.all fun choices =>
    decide (choices.length ≤ 256) && !choices.any fun v => v.isArray || v.isObject || v.isNull

def rangeFits (option : OptionDefinition) : Bool :=
  option.range.supported.all fun range =>
    (option.kind.supported == some .integer || option.kind.supported == some .number) &&
      range.valid &&
      !(option.kind.supported == some .integer &&
        range.sentinelValues.any fun value => fract value != 0)

def checkRequest (option : OptionDefinition) (seen : Seen) : Except Text Seen :=
  match option.requestField.supported with
  | none => .error (option.key ++ ": request fields need explicit protocol metadata".toList)
  | some field => do
    require (identifier field ∧ option.requestField.source.any Source.isAdapter ∧
        field ∉ seen.requestFields ∧ option.spellings = [] ∧ option.position = none)
      (option.key ++ ": invalid request mapping".toList)
    return { seen with requestFields := field :: seen.requestFields }

def body (flag : Text) : Text := flag.dropWhile fun c => c == '-' || c == '/'

def isSwitch (option : OptionDefinition) : Bool :=
  option.kind.supported == some .boolean && option.arity.supported.any (·.max == some 0)

def spellingFits (option : OptionDefinition) (spelling : Spelling) : Bool :=
  (startsWith '-' spelling.flag || startsWith '/' spelling.flag) &&
    !(body spelling.flag).isEmpty &&
    (body spelling.flag).all (fun c => c.isAlphanum || "_-.?".toList.contains c) &&
    (spelling.style != .equals || option.arity.supported.any (·.max == some 1)) &&
    (spelling.polarity.isNone || option.isSwitch)

def checkSpelling (option : OptionDefinition) (seen : Seen) (spelling : Spelling) :
    Except Text Seen := do
  require (option.spellingFits spelling ∧ (option.scope, spelling.flag) ∉ seen.flags)
    (option.key ++ ": invalid or conflicting flag spelling".toList)
  return { seen with flags := (option.scope, spelling.flag) :: seen.flags }

def checkPosition (option : OptionDefinition) (seen : Seen) : Except Text Seen :=
  match option.position with
  | none => .ok seen
  | some position => do
    require ((option.scope, position) ∉ seen.positions) "duplicate scoped positional slot".toList
    return { seen with positions := (option.scope, position) :: seen.positions }

def checkLaunch (option : OptionDefinition) (seen : Seen) : Except Text Seen := do
  require (option.requestField.value = none ∧
      (option.position.isSome = true ↔ option.spellings = []))
    (option.key ++ ": choose flags or a positional slot".toList)
  let seen ← option.checkPosition seen
  option.spellings.foldlM option.checkSpelling seen

def checkTarget (option : OptionDefinition) (seen : Seen) : Except Text Seen :=
  match option.target with
  | .request => option.checkRequest seen
  | .launch => option.checkLaunch seen

def check (documents : List RawHelp) (seen : Seen) (option : OptionDefinition) :
    Except Text Seen := do
  require (identifier option.key ∧ validScope option.scope ∧ option.key ∉ seen.keys ∧
      boundedText option.help 32768 ∧ boundedText option.group 256)
    "invalid or duplicate runtime option identity".toList
  option.checkFacts documents
  require (option.benchmarkName.value.all benchmarkIdentifier)
    (option.key ++ ": invalid benchmark setting name".toList)
  option.rawSpans.forM (checkSource documents)
  require option.arityFits (option.key ++ ": invalid arity".toList)
  require option.choicesFit (option.key ++ ": invalid documented choices".toList)
  require option.rangeFits (option.key ++ ": invalid numeric range".toList)
  option.checkTarget { seen with keys := option.key :: seen.keys }

end OptionDefinition

namespace OptionSchema

def option (schema : OptionSchema) (key : Text) : Option OptionDefinition :=
  schema.options.find? (·.key = key)

def checkDocument (ids : List Text) (help : RawHelp) : Except Text (List Text) := do
  require (identifier help.id ∧ validScope help.scope ∧ help.id ∉ ids)
    "invalid or duplicate raw-help document".toList
  return help.id :: ids

def checkOperand (serde : Serde) (schema : OptionSchema) (predicate : Predicate) :
    Except Text Unit :=
  match predicate.equals with
  | none => .ok ()
  | some expected =>
    require (!expected.isNull &&
        (schema.option predicate.key).any fun option => (option.scalar serde expected).isOk)
      (predicate.key ++
        ": constraint operand does not match the option's documented values".toList)

def checkConstraint (serde : Serde) (schema : OptionSchema) (constraint : Fact Relation) :
    Except Text Unit := do
  checkFact schema.rawHelp constraint
  match constraint.supported with
  | none => pure ()
  | some relation =>
    require ((schema.option relation.condition.key).isSome ∧
        (schema.option relation.other.key).isSome)
      "constraint refers to an unknown option".toList
    checkOperand serde schema relation.condition
    checkOperand serde schema relation.other

def validate (serde : Serde) (schema : OptionSchema) : Except Text Unit := do
  require (schema.schemaVersion = 1)
    ("unsupported runtime option schema version ".toList ++ Json.intText schema.schemaVersion ++
      "; this app supports 1".toList)
  require (identifier schema.binding.engine ∧ identifier schema.binding.runtime ∧
      Text.utf8Len schema.binding.fingerprint = 64 ∧ schema.binding.fingerprint.all hexDigit)
    "option schema needs an engine, runtime and SHA-256 fingerprint".toList
  require (schema.options.length ≤ maxOptions ∧ schema.constraints.length ≤ maxOptions)
    "runtime option schema exceeds its option/constraint limit".toList
  require ((schema.rawHelp.map fun help => Text.utf8Len help.text).sum ≤ maxHelpBytes)
    "runtime option schema raw help exceeds 2 MiB".toList
  let _ ← schema.rawHelp.foldlM checkDocument []
  checkFact schema.rawHelp schema.endOfOptions
  let _ ← schema.options.foldlM (OptionDefinition.check schema.rawHelp) {}
  schema.constraints.forM (checkConstraint serde schema)
  require (serde.schemaSize schema ≤ maxSchemaBytes)
    "runtime option schema exceeds 3 MiB".toList

end OptionSchema

namespace OptionDefinition

/-- The names an option's flags take in its scope. -/
def addresses (option : OptionDefinition) : List (List Text × Text) :=
  option.spellings.map fun spelling => (option.scope, spelling.flag)

structure Fits (option : OptionDefinition) : Prop where
  scope : validScope option.scope
  spelling : ∀ spelling ∈ option.spellings, option.spellingFits spelling
  request : option.target = .request → option.spellings = [] ∧ option.position = none ∧
    option.requestField.supported.isSome
  launch : option.target = .launch → (option.position.isSome = true ↔ option.spellings = [])

theorem checkSpelling_ok {option : OptionDefinition} {seen seen' : Seen} {spelling : Spelling}
    (h : option.checkSpelling seen spelling = .ok seen') :
    option.spellingFits spelling ∧ (option.scope, spelling.flag) ∉ seen.flags ∧
      seen' = { seen with flags := (option.scope, spelling.flag) :: seen.flags } := by
  simp only [checkSpelling, bind_eq_ok, require_eq_ok, pure, Except.pure, Except.ok.injEq] at h
  obtain ⟨-, ⟨hfits, hfree⟩, hseen⟩ := h
  exact ⟨hfits, hfree, hseen.symm⟩

theorem checkSpellings_ok {option : OptionDefinition} {spellings : List Spelling}
    {seen seen' : Seen} (h : spellings.foldlM option.checkSpelling seen = .ok seen') :
    (∀ spelling ∈ spellings, option.spellingFits spelling) ∧
      (spellings.map fun s => (option.scope, s.flag)).Nodup ∧
      (∀ s ∈ spellings, (option.scope, s.flag) ∉ seen.flags) ∧ seen'.keys = seen.keys ∧
      ∀ address, address ∈ seen'.flags ↔
        address ∈ spellings.map (fun s => (option.scope, s.flag)) ∨ address ∈ seen.flags := by
  induction spellings generalizing seen with
  | nil =>
    cases h
    simp
  | cons spelling spellings ih =>
    obtain ⟨next, hnext, hrest⟩ := bind_eq_ok.mp h
    obtain ⟨hfits, hfree, rfl⟩ := checkSpelling_ok hnext
    obtain ⟨hall, hnodup, hnot, hkeys, hflags⟩ := ih hrest
    refine ⟨List.forall_mem_cons.mpr ⟨hfits, hall⟩, List.nodup_cons.mpr ⟨?_, hnodup⟩,
      List.forall_mem_cons.mpr ⟨hfree, ?_⟩, hkeys, ?_⟩
    · intro hmem
      obtain ⟨s, hs, heq⟩ := List.mem_map.mp hmem
      exact hnot s hs (heq ▸ List.mem_cons_self)
    · intro s hs hmem
      exact hnot s hs (List.mem_cons_of_mem _ hmem)
    · intro address
      rw [hflags, List.mem_cons, List.map_cons, List.mem_cons]
      tauto

theorem checkTarget_ok {option : OptionDefinition} {seen seen' : Seen}
    (hscope : validScope option.scope) (h : option.checkTarget seen = .ok seen') :
    option.Fits ∧ option.addresses.Nodup ∧ (∀ a ∈ option.addresses, a ∉ seen.flags) ∧
      seen'.keys = seen.keys ∧ ∀ a, a ∈ seen'.flags ↔ a ∈ option.addresses ∨ a ∈ seen.flags := by
  cases htarget : option.target with
  | request =>
    simp only [checkTarget, htarget, checkRequest] at h
    cases hfield : option.requestField.supported with
    | none => simp [hfield] at h
    | some field =>
      simp only [hfield, bind_eq_ok, require_eq_ok, pure, Except.pure, Except.ok.injEq] at h
      obtain ⟨-, ⟨-, -, -, hspellings, hposition⟩, rfl⟩ := h
      refine ⟨⟨hscope, ?_, fun _ => ⟨hspellings, hposition, by simp [hfield]⟩, ?_⟩, ?_⟩
      · simp [hspellings]
      · simp [htarget]
      · simp [addresses, hspellings]
  | launch =>
    simp only [checkTarget, htarget, checkLaunch, bind_eq_ok, require_eq_ok] at h
    obtain ⟨-, ⟨-, hchoice⟩, placed, hplaced, hspellings⟩ := h
    have hsame : placed.keys = seen.keys ∧ placed.flags = seen.flags := by
      unfold checkPosition at hplaced
      split at hplaced
      · cases hplaced
        exact ⟨rfl, rfl⟩
      · simp only [bind_eq_ok, require_eq_ok, pure, Except.pure, Except.ok.injEq] at hplaced
        obtain ⟨-, -, rfl⟩ := hplaced
        exact ⟨rfl, rfl⟩
    obtain ⟨hall, hnodup, hnot, hkeys, hflags⟩ := checkSpellings_ok hspellings
    rw [hsame.2] at hnot hflags
    rw [hsame.1] at hkeys
    refine ⟨⟨hscope, hall, by simp [htarget], fun _ => hchoice⟩, hnodup, ?_, hkeys, hflags⟩
    intro a ha
    obtain ⟨s, hs, rfl⟩ := List.mem_map.mp ha
    exact hnot s hs

theorem check_ok {documents : List RawHelp} {option : OptionDefinition} {seen seen' : Seen}
    (h : option.check documents seen = .ok seen') :
    option.Fits ∧ option.key ∉ seen.keys ∧ option.addresses.Nodup ∧
      (∀ a ∈ option.addresses, a ∉ seen.flags) ∧ seen'.keys = option.key :: seen.keys ∧
      ∀ a, a ∈ seen'.flags ↔ a ∈ option.addresses ∨ a ∈ seen.flags := by
  simp only [check, bind_eq_ok, require_eq_ok] at h
  obtain ⟨-, ⟨-, hscope, hkey, -, -⟩, -, -, -, -, -, -, -, -, -, -, -, -, htarget⟩ := h
  obtain ⟨hfits, hnodup, hnot, hkeys, hflags⟩ := checkTarget_ok hscope htarget
  exact ⟨hfits, hkey, hnodup, hnot, hkeys, hflags⟩

end OptionDefinition

namespace OptionSchema

/-- Keys are unique, and so are flags within one scope. -/
structure WellFormed (schema : OptionSchema) : Prop where
  keys : (schema.options.map (·.key)).Nodup
  flags : (schema.options.flatMap OptionDefinition.addresses).Nodup
  fits : ∀ option ∈ schema.options, option.Fits

theorem checkOptions_ok {documents : List RawHelp} {options : List OptionDefinition}
    {seen seen' : Seen}
    (h : options.foldlM (OptionDefinition.check documents) seen = .ok seen') :
    (∀ option ∈ options, option.Fits) ∧ (options.map (·.key)).Nodup ∧
      (∀ option ∈ options, option.key ∉ seen.keys) ∧
      (options.flatMap OptionDefinition.addresses).Nodup ∧
      ∀ a ∈ options.flatMap OptionDefinition.addresses, a ∉ seen.flags := by
  induction options generalizing seen with
  | nil => simp
  | cons option options ih =>
    obtain ⟨next, hnext, hrest⟩ := bind_eq_ok.mp h
    obtain ⟨hfits, hkey, hnodup, hfree, hkeys, hflags⟩ := OptionDefinition.check_ok hnext
    obtain ⟨hall, hkeysNodup, hkeysFree, hflagsNodup, hflagsFree⟩ := ih hrest
    refine ⟨List.forall_mem_cons.mpr ⟨hfits, hall⟩, ?_, ?_, ?_, ?_⟩
    · refine List.nodup_cons.mpr ⟨?_, hkeysNodup⟩
      intro hmem
      obtain ⟨o, ho, heq⟩ := List.mem_map.mp hmem
      exact hkeysFree o ho (by simp [hkeys, heq])
    · refine List.forall_mem_cons.mpr ⟨hkey, ?_⟩
      intro o ho hmem
      exact hkeysFree o ho (by simp [hkeys, hmem])
    · rw [List.flatMap_cons, List.nodup_append']
      refine ⟨hnodup, hflagsNodup, ?_⟩
      intro a ha hlater
      exact hflagsFree a hlater ((hflags a).mpr (.inl ha))
    · intro a ha hmem
      rcases List.mem_append.mp (List.flatMap_cons ▸ ha) with ha | ha
      · exact hfree a ha hmem
      · exact hflagsFree a ha ((hflags a).mpr (.inr hmem))

theorem option_eq_some {schema : OptionSchema} {key : Text} {option : OptionDefinition}
    (h : schema.option key = some option) : option ∈ schema.options ∧ option.key = key := by
  have hkey := List.find?_some h
  exact ⟨List.mem_of_find?_eq_some h, by simpa using hkey⟩

theorem WellFormed.option_key {schema : OptionSchema} (hschema : schema.WellFormed)
    {option : OptionDefinition} (h : option ∈ schema.options) :
    schema.option option.key = some option := Lists.find_key_eq hschema.keys h

theorem WellFormed.eq_of_flag {schema : OptionSchema} (hschema : schema.WellFormed)
    {option option' : OptionDefinition} {spelling spelling' : Spelling}
    (ho : option ∈ schema.options) (ho' : option' ∈ schema.options)
    (hs : spelling ∈ option.spellings) (hs' : spelling' ∈ option'.spellings)
    (hscope : option.scope = option'.scope) (hflag : spelling.flag = spelling'.flag) :
    option = option' := by
  by_contra hne
  obtain ⟨-, hdisjoint⟩ := List.nodup_flatMap.mp hschema.flags
  have hsymm : Std.Symm (Function.onFun List.Disjoint OptionDefinition.addresses) :=
    ⟨fun _ _ h _ ha hb => h hb ha⟩
  have hapart : List.Disjoint option.addresses option'.addresses := hdisjoint.forall ho ho' hne
  refine hapart (List.mem_map.mpr ⟨spelling, hs, rfl⟩) (List.mem_map.mpr ⟨spelling', hs', ?_⟩)
  rw [hscope, hflag]

theorem wellFormed_of_validate {serde : Serde} {schema : OptionSchema}
    (h : schema.validate serde = .ok ()) : schema.WellFormed := by
  simp only [validate, bind_eq_ok, require_eq_ok] at h
  obtain ⟨-, -, -, -, -, -, -, -, -, -, -, -, seen, hoptions, -⟩ := h
  obtain ⟨hfits, hkeys, -, hflags, -⟩ := checkOptions_ok hoptions
  exact ⟨hkeys, hflags, hfits⟩

end OptionSchema

def Fact.confirmed {α : Type} (value : α) : Fact α :=
  ⟨some value, .userConfirmed, some (.user "seen in the manual".toList)⟩

def Serde.plain : Serde := ⟨fun _ => [], fun _ => none, fun _ => 0, fun _ => []⟩

def OptionSchema.ofOptions (options : List OptionDefinition) : OptionSchema :=
  { schemaVersion := 1
    binding := ⟨"engine".toList, "runtime".toList, List.replicate 64 'a'⟩
    options := options
    endOfOptions := .confirmed true }

def OptionDefinition.ofFlag (key flag : String) (count : Nat) : OptionDefinition :=
  { key := key.toList, spellings := [⟨flag.toList, .separate, none⟩], kind := .confirmed .text
    arity := .confirmed ⟨count, some count⟩, target := .launch }

end AioLM.Options
