import AioLM.KeyMap
import AioLM.OptionSchema
import Mathlib.Data.Char
import Mathlib.Data.List.Lex

/-!
Explicit metadata laid over an option description observed in a runtime's help:
unknown facts are filled in, observed syntax stays, and differences are reported.
-/

set_option autoImplicit false

namespace AioLM.Options

open Fallible

deriving instance DecidableEq for Source
deriving instance BEq for NumericRange
deriving instance BEq for RuntimeDefault
deriving instance DecidableEq for BenchmarkRole

inductive FactField where
  | kind
  | arity
  | repeatable
  | choices
  | range
  | unit
  | runtimeDefault
  | requestField
  | restartRequired
  | sensitive
  | localPath
  | benchmarkPublic
  | benchmarkName
  | benchmarkRole
  deriving DecidableEq

namespace FactField

@[reducible] def Value : FactField → Type
  | kind => ValueKind
  | arity => Arity
  | choices => List Json
  | range => NumericRange
  | runtimeDefault => RuntimeDefault
  | unit | requestField | benchmarkName => Text
  | repeatable | restartRequired | sensitive | localPath | benchmarkPublic => Bool
  | benchmarkRole => BenchmarkRole

def name : FactField → String
  | kind => "kind"
  | arity => "arity"
  | repeatable => "repeatable"
  | choices => "choices"
  | range => "range"
  | unit => "unit"
  | runtimeDefault => "runtime_default"
  | requestField => "request_field"
  | restartRequired => "restart_required"
  | sensitive => "sensitive"
  | localPath => "local_path"
  | benchmarkPublic => "benchmark_public"
  | benchmarkName => "benchmark_name"
  | benchmarkRole => "benchmark_role"

instance (field : FactField) : BEq field.Value :=
  match field with
  | kind => inferInstanceAs (BEq ValueKind)
  | arity => inferInstanceAs (BEq Arity)
  | choices => inferInstanceAs (BEq (List Json))
  | range => inferInstanceAs (BEq NumericRange)
  | runtimeDefault => inferInstanceAs (BEq RuntimeDefault)
  | unit | requestField | benchmarkName => inferInstanceAs (BEq Text)
  | repeatable | restartRequired | sensitive | localPath | benchmarkPublic =>
    inferInstanceAs (BEq Bool)
  | benchmarkRole => inferInstanceAs (BEq BenchmarkRole)

end FactField

def ValueKind.serialized : ValueKind → Json
  | boolean => Json.text "boolean"
  | integer => Json.text "integer"
  | number => Json.text "number"
  | text => Json.text "text"
  | tokens => Json.text "tokens"
  | json => Json.text "json"

def Arity.serialized (arity : Arity) : Json :=
  .object [("min".toList, .int arity.min), ("max".toList, arity.max.elim .null fun n => .int n)]

def floatJson (x : Float) : Json := .number (.float x)

/-- Flags that are not set and an empty list of sentinels are not written. -/
def NumericRange.serialized (range : NumericRange) : Json :=
  .object ([("min".toList, range.min.elim .null floatJson),
      ("max".toList, range.max.elim .null floatJson)] ++
    (if range.minExclusive then [("min_exclusive".toList, .bool true)] else []) ++
    (if range.maxExclusive then [("max_exclusive".toList, .bool true)] else []) ++
    if range.sentinelValues.isEmpty then []
    else [("sentinel_values".toList, .array (range.sentinelValues.map floatJson))])

def BenchmarkRole.serialized : BenchmarkRole → Json
  | contextTotalTokens => Json.text "context.total_tokens"
  | contextPerSequenceTokens => Json.text "context.per_sequence_tokens"
  | contextPerRequestKvTokens => Json.text "context.per_request_kv_tokens"
  | concurrencyCapacity => Json.text "concurrency.capacity"

def FactField.serialized : (field : FactField) → field.Value → Json
  | .kind, value => value.serialized
  | .arity, value => value.serialized
  | .choices, value => .array value
  | .range, value => value.serialized
  | .runtimeDefault, value => .object [("literal".toList, value.literal)]
  | .unit, value | .requestField, value | .benchmarkName, value => .string value
  | .repeatable, value | .restartRequired, value | .sensitive, value | .localPath, value
  | .benchmarkPublic, value => .bool value
  | .benchmarkRole, value => value.serialized

namespace OptionDefinition

def fact (option : OptionDefinition) : (field : FactField) → Fact field.Value
  | .kind => option.kind
  | .arity => option.arity
  | .repeatable => option.repeatable
  | .choices => option.choices
  | .range => option.range
  | .unit => option.unit
  | .runtimeDefault => option.runtimeDefault
  | .requestField => option.requestField
  | .restartRequired => option.restartRequired
  | .sensitive => option.sensitive
  | .localPath => option.localPath
  | .benchmarkPublic => option.benchmarkPublic
  | .benchmarkName => option.benchmarkName
  | .benchmarkRole => option.benchmarkRole

def setFact (option : OptionDefinition) : (field : FactField) → Fact field.Value → OptionDefinition
  | .kind, fact => { option with kind := fact }
  | .arity, fact => { option with arity := fact }
  | .repeatable, fact => { option with repeatable := fact }
  | .choices, fact => { option with choices := fact }
  | .range, fact => { option with range := fact }
  | .unit, fact => { option with unit := fact }
  | .runtimeDefault, fact => { option with runtimeDefault := fact }
  | .requestField, fact => { option with requestField := fact }
  | .restartRequired, fact => { option with restartRequired := fact }
  | .sensitive, fact => { option with sensitive := fact }
  | .localPath, fact => { option with localPath := fact }
  | .benchmarkPublic, fact => { option with benchmarkPublic := fact }
  | .benchmarkName, fact => { option with benchmarkName := fact }
  | .benchmarkRole, fact => { option with benchmarkRole := fact }

/-- What help shows of an option, apart from its facts. -/
def observed (option : OptionDefinition) :
    Text × List Text × List Spelling × Option Nat × Target :=
  (option.key, option.scope, option.spellings, option.position, option.target)

theorem observed_eq_iff {a b : OptionDefinition} :
    a.observed = b.observed ↔ a.key = b.key ∧ a.scope = b.scope ∧ a.spellings = b.spellings ∧
      a.position = b.position ∧ a.target = b.target := by
  simp only [observed, Prod.mk.injEq]

@[simp] theorem fact_setFact (option : OptionDefinition) (field : FactField)
    (fact : Fact field.Value) : (option.setFact field fact).fact field = fact := by
  cases field <;> rfl

theorem fact_setFact_of_ne (option : OptionDefinition) {field other : FactField}
    (h : other ≠ field) (fact : Fact field.Value) :
    (option.setFact field fact).fact other = option.fact other := by
  cases field <;> cases other <;> first | rfl | exact absurd rfl h

@[simp] theorem observed_setFact (option : OptionDefinition) (field : FactField)
    (fact : Fact field.Value) : (option.setFact field fact).observed = option.observed := by
  cases field <;> rfl

@[simp] theorem managed_setFact (option : OptionDefinition) (field : FactField)
    (fact : Fact field.Value) : (option.setFact field fact).managed = option.managed := by
  cases field <;> rfl

end OptionDefinition

structure OverlayConflict where
  key : Text
  field : Text
  help : Text
  overlay : Text

structure AppliedOverlay where
  schema : OptionSchema
  conflicts : List OverlayConflict

def ManagedBinding.debug : ManagedBinding → String
  | model => "Model"
  | host => "Host"
  | port => "Port"
  | authentication => "Authentication"
  | discovery => "Discovery"
  | entryPoint => "EntryPoint"
  | reserved => "Reserved"

def Target.debug : Target → String
  | launch => "Launch"
  | request => "Request"

/-- `format!("{:?}", value)` of an optional value. -/
def debugOption {α : Type} (debug : α → Text) : Option α → Text
  | none => "None".toList
  | some value => "Some(".toList ++ debug value ++ ")".toList

def debugManaged : Option ManagedBinding → Text := debugOption fun binding => binding.debug.toList

def debugPosition : Option Nat → Text := debugOption fun n => Json.intText n

/-- `serde_json::to_string(&value)` of an optional value. -/
def valueText (serde : Serde) (field : FactField) (value : Option field.Value) : Text :=
  (value.elim .null field.serialized).compact serde.floatText

namespace OptionDefinition

/-- Only metadata with an adapter's source may claim what the app owns. -/
def hasAdapterProvenance (option : OptionDefinition) : Bool :=
  sourced option.kind || sourced option.arity || sourced option.repeatable ||
    sourced option.choices || sourced option.range || sourced option.unit ||
    sourced option.runtimeDefault || sourced option.requestField ||
    sourced option.restartRequired || sourced option.sensitive || sourced option.localPath
where
  sourced {α : Type} (fact : Fact α) : Bool :=
    fact.certainty ≠ .unknown && fact.source.any Source.isAdapter

end OptionDefinition

/-- An option being merged, and the differences found so far. -/
structure Merge where
  current : OptionDefinition
  conflicts : List OverlayConflict := []

namespace Merge

def report (merge : Merge) (field : String) (help overlay : Text) : Merge :=
  { merge with conflicts := merge.conflicts ++ [⟨merge.current.key, field.toList, help, overlay⟩] }

def mergeScope (incoming : OptionDefinition) (merge : Merge) : Merge :=
  if incoming.scope ≠ merge.current.scope then
    merge.report "scope" (List.intercalate [' '] merge.current.scope)
      (List.intercalate [' '] incoming.scope)
  else merge

def flagList (spellings : List Spelling) : Text :=
  List.intercalate [','] (spellings.map (·.flag))

def mergeSpellings (incoming : OptionDefinition) (merge : Merge) : Merge :=
  if incoming.spellings ≠ [] ∧ incoming.spellings ≠ merge.current.spellings then
    merge.report "spellings" (flagList merge.current.spellings) (flagList incoming.spellings)
  else merge

def mergePosition (incoming : OptionDefinition) (merge : Merge) : Merge :=
  if incoming.position ≠ merge.current.position then
    merge.report "position" (debugPosition merge.current.position)
      (debugPosition incoming.position)
  else merge

def allowed (field : FactField) (fact : Fact field.Value) : Bool :=
  field ≠ .requestField || fact.source.any Source.isAdapter

def fill (serde : Serde) (incoming : OptionDefinition) (merge : Merge) (field : FactField) :
    Merge :=
  let cur := merge.current.fact field
  let inc := incoming.fact field
  if cur.certainty ≠ .unknown ∧ inc.certainty ≠ .unknown ∧ cur.value != inc.value then
    merge.report field.name (valueText serde field cur.value) (valueText serde field inc.value)
  else if cur.certainty = .unknown ∧ inc.certainty ≠ .unknown ∧ allowed field inc then
    { merge with current := merge.current.setFact field inc }
  else merge

def mergeManaged (incoming : OptionDefinition) (merge : Merge) : Merge :=
  if incoming.managed ≠ merge.current.managed then
    if merge.current.managed.isSome ∧ incoming.managed.isSome then
      merge.report "managed" (debugManaged merge.current.managed) (debugManaged incoming.managed)
    else if merge.current.managed = none ∧ incoming.managed.isSome then
      if incoming.hasAdapterProvenance then
        { merge with current := { merge.current with managed := incoming.managed } }
      else merge.report "managed" "none".toList (debugManaged incoming.managed)
    else merge
  else merge

def mergeHelp (incoming : OptionDefinition) (merge : Merge) : Merge :=
  if incoming.help ≠ [] ∧ incoming.help ≠ merge.current.help then
    { merge with current := { merge.current with
        help := Text.trim (merge.current.help ++ ' ' :: incoming.help) } }
  else merge

def mergeGroup (incoming : OptionDefinition) (merge : Merge) : Merge :=
  if incoming.group ≠ [] ∧ incoming.group ≠ merge.current.group then
    { merge with current := { merge.current with group := incoming.group } }
  else merge

def spanObserved (documents : List Text) : Source → Bool
  | .help document _ _ => documents.contains document
  | _ => true

def addSpan (documents : List Text) (spans : List Source) (span : Source) : List Source :=
  if spanObserved documents span ∧ span ∉ spans then spans ++ [span] else spans

def mergeSpans (documents : List Text) (incoming : OptionDefinition) (merge : Merge) : Merge :=
  { merge with current := { merge.current with
      rawSpans := incoming.rawSpans.foldl (addSpan documents) merge.current.rawSpans } }

def mergeTarget (incoming : OptionDefinition) (merge : Merge) : Merge :=
  if merge.current.target ≠ incoming.target then
    merge.report "target" merge.current.target.debug.toList incoming.target.debug.toList
  else merge

def mergedFields : List FactField :=
  [.kind, .arity, .repeatable, .choices, .range, .unit, .runtimeDefault, .requestField,
    .restartRequired, .sensitive, .localPath]

end Merge

open Merge in
/-- The body of the loop over the overlay's options. -/
def mergeOption (serde : Serde) (documents : List Text) (incoming current : OptionDefinition) :
    Merge :=
  mergeTarget incoming
    (mergeSpans documents incoming
      (mergeGroup incoming
        (mergeHelp incoming
          (mergeManaged incoming
            (mergedFields.foldl (fill serde incoming)
              (mergePosition incoming (mergeSpellings incoming
                (mergeScope incoming { current }))))))))

theorem exists_step_of_foldlM_ok {ε σ α : Type} {f : σ → α → Except ε σ} {xs : List α}
    {s s' : σ} (h : xs.foldlM f s = .ok s') {x : α} (hx : x ∈ xs) :
    ∃ t t', f t x = .ok t' := by
  induction xs generalizing s with
  | nil => cases hx
  | cons y ys ih =>
    obtain ⟨next, hnext, hrest⟩ := bind_eq_ok.mp h
    rcases List.mem_cons.mp hx with rfl | hlater
    · exact ⟨s, next, hnext⟩
    · exact ih hrest hlater

namespace OptionSchema

/-- The options and the differences while an overlay is applied. -/
structure Overlaying where
  options : List OptionDefinition
  conflicts : List OverlayConflict := []

/-- `by_key`: where the option with a key stands. -/
def byKey (options : List OptionDefinition) : KeyMap Text Nat :=
  (options.zipIdx.map fun entry => (entry.1.key, entry.2)).foldl
    (fun index entry => index.insert entry.1 entry.2) KeyMap.empty

/-- Metadata for a flag that help does not show is not used. -/
def overlayOne (serde : Serde) (documents : List Text) (index : KeyMap Text Nat)
    (state : Overlaying) (incoming : OptionDefinition) : Overlaying :=
  match (index.get incoming.key).bind fun i => (state.options[i]?).map (i, ·) with
  | none => state
  | some (i, current) =>
    let merge := mergeOption serde documents incoming current
    { options := state.options.set i merge.current
      conflicts := state.conflicts ++ merge.conflicts }

def adapterConstraint (constraint : Fact Relation) : Bool :=
  constraint.certainty ≠ .unknown && constraint.source.any Source.isAdapter

def applyOverlay (serde : Serde) (base overlay : OptionSchema) : Except Text AppliedOverlay := do
  overlay.validate serde
  base.validate serde
  require (overlay.binding.engine = base.binding.engine ∧
      overlay.binding.runtime = base.binding.runtime)
    "metadata overlay targets another runtime".toList
  require (overlay.binding.fingerprint = base.binding.fingerprint)
    "metadata overlay fingerprint must match the discovered help".toList
  let merged := overlay.options.foldl
    (overlayOne serde (base.rawHelp.map (·.id)) (byKey base.options)) { options := base.options }
  let result : OptionSchema := { base with
    options := merged.options
    constraints := base.constraints ++ overlay.constraints.filter adapterConstraint
    endOfOptions :=
      if overlay.endOfOptions.certainty ≠ .unknown ∧ base.endOfOptions.certainty = .unknown then
        overlay.endOfOptions
      else base.endOfOptions }
  match result.validate serde with
  | .error e => .error ("overlay result is invalid: ".toList ++ e)
  | .ok () => return ⟨result, merged.conflicts⟩

end OptionSchema

namespace Merge

/-- The merge goes on without touching facts or the managed binding. -/
structure Keeps (before after : Merge) : Prop where
  observed : after.current.observed = before.current.observed
  fact : ∀ field, after.current.fact field = before.current.fact field
  managed : after.current.managed = before.current.managed
  conflicts : before.conflicts <+: after.conflicts

theorem Keeps.refl (merge : Merge) : Keeps merge merge :=
  ⟨rfl, fun _ => rfl, rfl, List.prefix_rfl⟩

theorem Keeps.trans {a b c : Merge} (hab : Keeps a b) (hbc : Keeps b c) : Keeps a c where
  observed := hbc.observed.trans hab.observed
  fact field := (hbc.fact field).trans (hab.fact field)
  managed := hbc.managed.trans hab.managed
  conflicts := hab.conflicts.trans hbc.conflicts

theorem keeps_report (merge : Merge) (field : String) (help overlay : Text) :
    Keeps merge (merge.report field help overlay) :=
  ⟨rfl, fun _ => rfl, rfl, List.prefix_append _ _⟩

theorem keeps_mergeScope (incoming : OptionDefinition) (merge : Merge) :
    Keeps merge (mergeScope incoming merge) := by
  unfold mergeScope
  split
  · exact keeps_report ..
  · exact .refl merge

theorem keeps_mergeSpellings (incoming : OptionDefinition) (merge : Merge) :
    Keeps merge (mergeSpellings incoming merge) := by
  unfold mergeSpellings
  split
  · exact keeps_report ..
  · exact .refl merge

theorem keeps_mergePosition (incoming : OptionDefinition) (merge : Merge) :
    Keeps merge (mergePosition incoming merge) := by
  unfold mergePosition
  split
  · exact keeps_report ..
  · exact .refl merge

theorem keeps_mergeTarget (incoming : OptionDefinition) (merge : Merge) :
    Keeps merge (mergeTarget incoming merge) := by
  unfold mergeTarget
  split
  · exact keeps_report ..
  · exact .refl merge

theorem keeps_mergeHelp (incoming : OptionDefinition) (merge : Merge) :
    Keeps merge (mergeHelp incoming merge) := by
  unfold mergeHelp
  split
  · exact ⟨rfl, fun field => by cases field <;> rfl, rfl, List.prefix_rfl⟩
  · exact .refl merge

theorem keeps_mergeGroup (incoming : OptionDefinition) (merge : Merge) :
    Keeps merge (mergeGroup incoming merge) := by
  unfold mergeGroup
  split
  · exact ⟨rfl, fun field => by cases field <;> rfl, rfl, List.prefix_rfl⟩
  · exact .refl merge

theorem keeps_mergeSpans (documents : List Text) (incoming : OptionDefinition) (merge : Merge) :
    Keeps merge (mergeSpans documents incoming merge) :=
  ⟨rfl, fun field => by cases field <;> rfl, rfl, List.prefix_rfl⟩

/-- The fact a merge leaves where `current` was observed and `incoming` is explicit. -/
def filled {field : FactField} (current incoming : Fact field.Value) : Fact field.Value :=
  if current.certainty = .unknown ∧ incoming.certainty ≠ .unknown ∧ allowed field incoming then
    incoming
  else current

section Fill

variable (serde : Serde) (incoming : OptionDefinition)

theorem observed_fill (merge : Merge) (field : FactField) :
    (fill serde incoming merge field).current.observed = merge.current.observed := by
  unfold fill
  dsimp only
  split
  · rfl
  · split
    · exact OptionDefinition.observed_setFact ..
    · rfl

theorem managed_fill (merge : Merge) (field : FactField) :
    (fill serde incoming merge field).current.managed = merge.current.managed := by
  unfold fill
  dsimp only
  split
  · rfl
  · split
    · exact OptionDefinition.managed_setFact ..
    · rfl

theorem conflicts_fill (merge : Merge) (field : FactField) :
    merge.conflicts <+: (fill serde incoming merge field).conflicts := by
  unfold fill
  dsimp only
  split
  · exact List.prefix_append _ _
  · split <;> exact List.prefix_rfl

theorem fact_fill (merge : Merge) (field : FactField) :
    (fill serde incoming merge field).current.fact field =
      filled (merge.current.fact field) (incoming.fact field) := by
  unfold fill filled
  dsimp only
  split
  case isTrue hboth => rw [if_neg fun h => hboth.1 h.1]; rfl
  case isFalse =>
    split
    · exact OptionDefinition.fact_setFact ..
    · rfl

theorem fact_fill_of_ne (merge : Merge) {field other : FactField} (h : other ≠ field) :
    (fill serde incoming merge field).current.fact other = merge.current.fact other := by
  unfold fill
  dsimp only
  split
  · rfl
  · split
    · exact OptionDefinition.fact_setFact_of_ne _ h _
    · rfl

def Differ {α : Type} [BEq α] (current incoming : Fact α) : Prop :=
  current.certainty ≠ .unknown ∧ incoming.certainty ≠ .unknown ∧ current.value != incoming.value

def Reported (conflicts : List OverlayConflict) (key : Text) (field : String) : Prop :=
  ∃ conflict ∈ conflicts, conflict.key = key ∧ conflict.field = field.toList

theorem Reported.mono {conflicts conflicts' : List OverlayConflict} {key : Text} {field : String}
    (h : Reported conflicts key field) (hpre : conflicts <+: conflicts') :
    Reported conflicts' key field := by
  obtain ⟨conflict, hmem, hnames⟩ := h
  exact ⟨conflict, hpre.subset hmem, hnames⟩

theorem Reported.append_left {conflicts : List OverlayConflict} {key : Text} {field : String}
    (h : Reported conflicts key field) (earlier : List OverlayConflict) :
    Reported (earlier ++ conflicts) key field := by
  obtain ⟨conflict, hmem, hnames⟩ := h
  exact ⟨conflict, List.mem_append_right _ hmem, hnames⟩

theorem reported_report (merge : Merge) (field : String) (help overlay : Text) :
    Reported (merge.report field help overlay).conflicts merge.current.key field :=
  ⟨_, List.mem_append_right _ List.mem_cons_self, rfl, rfl⟩

theorem reported_mergeScope {incoming : OptionDefinition} {merge : Merge}
    (h : incoming.scope ≠ merge.current.scope) :
    Reported (mergeScope incoming merge).conflicts merge.current.key "scope" := by
  rw [mergeScope, if_pos h]
  exact reported_report ..

theorem reported_mergeSpellings {incoming : OptionDefinition} {merge : Merge}
    (hgiven : incoming.spellings ≠ []) (h : incoming.spellings ≠ merge.current.spellings) :
    Reported (mergeSpellings incoming merge).conflicts merge.current.key "spellings" := by
  rw [mergeSpellings, if_pos ⟨hgiven, h⟩]
  exact reported_report ..

theorem reported_mergePosition {incoming : OptionDefinition} {merge : Merge}
    (h : incoming.position ≠ merge.current.position) :
    Reported (mergePosition incoming merge).conflicts merge.current.key "position" := by
  rw [mergePosition, if_pos h]
  exact reported_report ..

theorem reported_mergeTarget {incoming : OptionDefinition} {merge : Merge}
    (h : merge.current.target ≠ incoming.target) :
    Reported (mergeTarget incoming merge).conflicts merge.current.key "target" := by
  rw [mergeTarget, if_pos h]
  exact reported_report ..

theorem reported_fill (merge : Merge) {field : FactField}
    (h : Differ (merge.current.fact field) (incoming.fact field)) :
    Reported (fill serde incoming merge field).conflicts merge.current.key field.name := by
  unfold fill
  dsimp only
  obtain ⟨hcurrent, hincoming, hvalue⟩ := h
  rw [if_pos ⟨hcurrent, hincoming, hvalue⟩]
  exact reported_report ..

theorem fills_spec {fields : List FactField} (hfields : fields.Nodup) (merge : Merge) :
    let after := fields.foldl (fill serde incoming) merge
    after.current.observed = merge.current.observed ∧
      after.current.managed = merge.current.managed ∧ merge.conflicts <+: after.conflicts ∧
      ∀ field, (field ∉ fields → after.current.fact field = merge.current.fact field) ∧
        (field ∈ fields →
          after.current.fact field = filled (merge.current.fact field) (incoming.fact field) ∧
          (Differ (merge.current.fact field) (incoming.fact field) →
            Reported after.conflicts merge.current.key field.name)) := by
  induction fields generalizing merge with
  | nil => exact ⟨rfl, rfl, List.prefix_rfl, fun field => ⟨fun _ => rfl, by simp⟩⟩
  | cons first fields ih =>
    obtain ⟨hfirst, hrest⟩ := List.nodup_cons.mp hfields
    obtain ⟨hobserved, hmanaged, hconflicts, hfacts⟩ := ih hrest (fill serde incoming merge first)
    rw [observed_fill] at hobserved
    rw [managed_fill] at hmanaged
    have hkey : (fill serde incoming merge first).current.key = merge.current.key :=
      congrArg Prod.fst (observed_fill serde incoming merge first)
    refine ⟨hobserved, hmanaged, (conflicts_fill serde incoming merge first).trans hconflicts, ?_⟩
    intro field
    obtain ⟨hout, hin⟩ := hfacts field
    by_cases hfield : field = first
    · subst hfield
      refine ⟨fun h => absurd List.mem_cons_self h, fun _ => ⟨?_, fun hdiffer => ?_⟩⟩
      · exact (hout hfirst).trans (fact_fill ..)
      · exact (reported_fill serde incoming merge hdiffer).mono hconflicts
    · rw [fact_fill_of_ne serde incoming merge hfield] at hout hin
      rw [hkey] at hin
      refine ⟨fun h => hout fun hmem => h (List.mem_cons_of_mem _ hmem), fun h => hin ?_⟩
      exact (List.mem_cons.mp h).resolve_left hfield

end Fill

theorem mergeManaged_spec (incoming : OptionDefinition) (merge : Merge) :
    let after := mergeManaged incoming merge
    after.current.observed = merge.current.observed ∧
      (∀ field, after.current.fact field = merge.current.fact field) ∧
      merge.conflicts <+: after.conflicts ∧
      (after.current.managed = merge.current.managed ∨ (merge.current.managed = none ∧
        incoming.hasAdapterProvenance ∧ after.current.managed = incoming.managed)) := by
  unfold mergeManaged
  dsimp only
  split_ifs with hdiffer hboth hnew hadapter
  · exact ⟨rfl, fun _ => rfl, List.prefix_append _ _, .inl rfl⟩
  · exact ⟨rfl, fun field => by cases field <;> rfl, List.prefix_rfl,
      .inr ⟨hnew.1, hadapter, rfl⟩⟩
  · exact ⟨rfl, fun _ => rfl, List.prefix_append _ _, .inl rfl⟩
  · exact ⟨rfl, fun _ => rfl, List.prefix_rfl, .inl rfl⟩
  · exact ⟨rfl, fun _ => rfl, List.prefix_rfl, .inl rfl⟩

theorem reported_mergeManaged {incoming : OptionDefinition} {merge : Merge}
    (hgiven : incoming.managed.isSome) (hdiffer : incoming.managed ≠ merge.current.managed)
    (hkept : merge.current.managed.isSome ∨ ¬ incoming.hasAdapterProvenance) :
    Reported (mergeManaged incoming merge).conflicts merge.current.key "managed" := by
  unfold mergeManaged
  rw [if_pos hdiffer]
  split_ifs with hboth hnew hadapter
  · exact reported_report ..
  · exact absurd hadapter (hkept.resolve_left (by simp [hnew.1]))
  · exact reported_report ..
  · cases hcurrent : merge.current.managed with
    | none => exact absurd ⟨hcurrent, hgiven⟩ hnew
    | some binding => exact absurd ⟨by simp [hcurrent], hgiven⟩ hboth

end Merge

open Merge

/-- Where metadata says something else than help. An overlay that lists no flags and
one that names no binding say nothing about them. -/
inductive Disagreement (before incoming : OptionDefinition) : String → Prop where
  | scope (h : incoming.scope ≠ before.scope) : Disagreement before incoming "scope"
  | spellings (hgiven : incoming.spellings ≠ []) (h : incoming.spellings ≠ before.spellings) :
      Disagreement before incoming "spellings"
  | position (h : incoming.position ≠ before.position) : Disagreement before incoming "position"
  | fact (field : FactField) (hfield : field ∈ mergedFields)
      (h : Differ (before.fact field) (incoming.fact field)) :
      Disagreement before incoming field.name
  | managed (hgiven : incoming.managed.isSome) (h : incoming.managed ≠ before.managed)
      (hkept : before.managed.isSome ∨ ¬ incoming.hasAdapterProvenance) :
      Disagreement before incoming "managed"
  | target (h : before.target ≠ incoming.target) : Disagreement before incoming "target"

section MergeOption

variable (serde : Serde) (documents : List Text) (incoming before : OptionDefinition)

theorem mergeOption_stages : ∃ filledIn bound : Merge,
    filledIn = mergedFields.foldl (fill serde incoming)
      (mergePosition incoming (mergeSpellings incoming (mergeScope incoming { current := before })))
      ∧ bound = mergeManaged incoming filledIn ∧
      ∃ spanned : Merge, Keeps bound spanned ∧
        mergeOption serde documents incoming before = mergeTarget incoming spanned :=
  ⟨_, _, rfl, rfl, _,
    ((keeps_mergeHelp incoming _).trans (keeps_mergeGroup incoming _)).trans
      (keeps_mergeSpans documents incoming _), rfl⟩

theorem mergedFields_nodup : mergedFields.Nodup := by decide

theorem mergeOption_spec :
    let after := mergeOption serde documents incoming before
    after.current.observed = before.observed ∧
      (∀ field, after.current.fact field = before.fact field ∨ field ∈ mergedFields ∧
        after.current.fact field = filled (before.fact field) (incoming.fact field)) ∧
      (after.current.managed = before.managed ∨ (before.managed = none ∧
        incoming.hasAdapterProvenance ∧ after.current.managed = incoming.managed)) ∧
      ∀ field, Disagreement before incoming field → Reported after.conflicts before.key field := by
  dsimp only
  -- the stages in order, each with what it keeps of the one before
  have hscope := keeps_mergeScope incoming { current := before }
  have hspellings := keeps_mergeSpellings incoming (mergeScope incoming { current := before })
  have hposition := keeps_mergePosition incoming
    (mergeSpellings incoming (mergeScope incoming { current := before }))
  have hhead := (hscope.trans hspellings).trans hposition
  obtain ⟨filledIn, bound, hfilledIn, hbound, spanned, hspanned, hresult⟩ :=
    mergeOption_stages serde documents incoming before
  have htarget := keeps_mergeTarget incoming spanned
  obtain ⟨hfillObserved, hfillManaged, hfillConflicts, hfillFacts⟩ :=
    fills_spec serde incoming mergedFields_nodup (mergePosition incoming
      (mergeSpellings incoming (mergeScope incoming { current := before })))
  obtain ⟨hboundObserved, hboundFacts, hboundConflicts, hboundManaged⟩ :=
    mergeManaged_spec incoming filledIn
  rw [← hfilledIn] at hfillObserved hfillManaged hfillConflicts hfillFacts
  rw [← hbound] at hboundObserved hboundFacts hboundConflicts hboundManaged
  rw [hfillManaged, hhead.managed] at hboundManaged
  have htail := hspanned.trans htarget
  rw [hresult]
  have hobserved := hfillObserved.trans hhead.observed
  refine ⟨htail.observed.trans (hboundObserved.trans hobserved), ?_, ?_, ?_⟩
  · intro field
    rw [htail.fact, hboundFacts, ← hhead.fact field]
    by_cases hfield : field ∈ mergedFields
    · exact .inr ⟨hfield, ((hfillFacts field).2 hfield).1⟩
    · exact .inl ((hfillFacts field).1 hfield)
  · rw [htail.managed]
    exact hboundManaged
  · -- a conflict once noted stays, so each is looked up at its own stage
    have hlate := hboundConflicts.trans htail.conflicts
    have hearly := hfillConflicts.trans hlate
    intro field hdisagree
    cases hdisagree with
    | scope h =>
      exact (reported_mergeScope h).mono ((hspellings.trans hposition).conflicts.trans hearly)
    | spellings hgiven h =>
      obtain ⟨hkey, -, hsame, -⟩ := OptionDefinition.observed_eq_iff.mp hscope.observed
      rw [← hsame] at h
      rw [← hkey]
      exact (reported_mergeSpellings hgiven h).mono (hposition.conflicts.trans hearly)
    | position h =>
      obtain ⟨hkey, -, -, hsame, -⟩ :=
        OptionDefinition.observed_eq_iff.mp (hscope.trans hspellings).observed
      rw [← hsame] at h
      rw [← hkey]
      exact (reported_mergePosition h).mono hearly
    | fact field hfield h =>
      obtain ⟨hkey, -⟩ := OptionDefinition.observed_eq_iff.mp hhead.observed
      rw [← hhead.fact field] at h
      rw [← hkey]
      exact (((hfillFacts field).2 hfield).2 h).mono hlate
    | managed hgiven h hkept =>
      obtain ⟨hkey, -⟩ := OptionDefinition.observed_eq_iff.mp hobserved
      rw [← hhead.managed, ← hfillManaged] at h hkept
      have hnoted := reported_mergeManaged hgiven h hkept
      rw [← hbound] at hnoted
      rw [← hkey]
      exact hnoted.mono htail.conflicts
    | target h =>
      obtain ⟨hkey, -, -, -, hsame⟩ :=
        OptionDefinition.observed_eq_iff.mp (hspanned.observed.trans
          (hboundObserved.trans hobserved))
      rw [← hsame] at h
      rw [← hkey]
      exact reported_mergeTarget h

end MergeOption

namespace OptionSchema

theorem byKey_get {options : List OptionDefinition} (hkeys : (options.map (·.key)).Nodup)
    {key : Text} {i : Nat} :
    (byKey options).get key = some i ↔ ∃ option, options[i]? = some option ∧ option.key = key := by
  have hentries : ((options.zipIdx.map fun entry => (entry.1.key, entry.2)).map (·.1)).Nodup := by
    have hmap : (options.zipIdx.map fun entry => (entry.1.key, entry.2)).map (·.1) =
        options.map (·.key) := by
      rw [List.map_map]
      conv_rhs => rw [← List.zipIdx_map_fst 0 options, List.map_map]
      rfl
    rwa [hmap]
  rw [byKey, KeyMap.get_foldl_insert hentries, KeyMap.get_empty, Option.or_none]
  constructor
  · intro h
    obtain ⟨⟨option, j⟩, hmem, heq⟩ := List.mem_map.mp (KeyMap.mem_of_find h)
    cases heq
    exact ⟨option, List.mem_zipIdx_iff_getElem?.mp hmem, rfl⟩
  · rintro ⟨option, hoption, rfl⟩
    exact KeyMap.find_of_mem_nodup hentries
      (List.mem_map.mpr ⟨(option, i), List.mem_zipIdx_iff_getElem?.mpr hoption, rfl⟩)

section Run

variable {serde : Serde} {documents : List Text} {options : List OptionDefinition}

theorem overlayOne_length (index : KeyMap Text Nat) (state : Overlaying)
    (incoming : OptionDefinition) :
    (overlayOne serde documents index state incoming).options.length = state.options.length := by
  unfold overlayOne
  split
  · rfl
  · exact List.length_set

theorem overlaid_length (index : KeyMap Text Nat) (incoming : List OptionDefinition)
    (state : Overlaying) :
    (incoming.foldl (overlayOne serde documents index) state).options.length =
      state.options.length := by
  induction incoming generalizing state with
  | nil => rfl
  | cons first rest ih => exact (ih _).trans (overlayOne_length index state first)

theorem conflicts_overlayOne (index : KeyMap Text Nat) (state : Overlaying)
    (incoming : OptionDefinition) :
    state.conflicts <+: (overlayOne serde documents index state incoming).conflicts := by
  unfold overlayOne
  split
  · exact List.prefix_rfl
  · exact List.prefix_append _ _

theorem conflicts_foldl (index : KeyMap Text Nat) (incoming : List OptionDefinition)
    (state : Overlaying) :
    state.conflicts <+:
      (incoming.foldl (overlayOne serde documents index) state).conflicts := by
  induction incoming generalizing state with
  | nil => exact List.prefix_rfl
  | cons first rest ih => exact (conflicts_overlayOne index state first).trans (ih _)

theorem overlayOne_getElem (hkeys : (options.map (·.key)).Nodup) {i : Nat}
    {before : OptionDefinition} (hbefore : options[i]? = some before) (state : Overlaying)
    (incoming : OptionDefinition) :
    (overlayOne serde documents (byKey options) state incoming).options[i]? =
      if incoming.key = before.key then
        (state.options[i]?).map fun current => (mergeOption serde documents incoming current).current
      else state.options[i]? := by
  unfold overlayOne
  split
  case h_1 hnone =>
    split
    case isFalse => rfl
    case isTrue hkey =>
      have hindex := (byKey_get hkeys).mpr ⟨before, hbefore, hkey.symm⟩
      rw [hindex, Option.bind_some, Option.map_eq_none_iff] at hnone
      simp [hnone]
  case h_2 j current hsome =>
    obtain ⟨found, hindex, hcurrent⟩ := Option.bind_eq_some_iff.mp hsome
    obtain ⟨current, hcurrent, heq⟩ := Option.map_eq_some_iff.mp hcurrent
    cases heq
    obtain ⟨option, hoption, hkey⟩ := (byKey_get hkeys).mp hindex
    have hlength : j < state.options.length := (List.getElem?_eq_some_iff.mp hcurrent).1
    split
    case isTrue hsame =>
      have hij := (byKey_get hkeys).mpr ⟨before, hbefore, hsame.symm⟩
      rw [hindex] at hij
      cases hij
      rw [hcurrent, Option.map_some]
      exact List.getElem?_set_self hlength
    case isFalse hother =>
      refine List.getElem?_set_ne ?_
      rintro rfl
      rw [hbefore] at hoption
      cases hoption
      exact hother hkey.symm

theorem overlaid_getElem_of_ne (hkeys : (options.map (·.key)).Nodup) {i : Nat}
    {before : OptionDefinition} (hbefore : options[i]? = some before)
    {incoming : List OptionDefinition} (hother : ∀ option ∈ incoming, option.key ≠ before.key)
    (state : Overlaying) :
    (incoming.foldl (overlayOne serde documents (byKey options)) state).options[i]? =
      state.options[i]? := by
  induction incoming generalizing state with
  | nil => rfl
  | cons first rest ih =>
    obtain ⟨hfirst, hrest⟩ := List.forall_mem_cons.mp hother
    rw [List.foldl_cons, ih hrest, overlayOne_getElem hkeys hbefore, if_neg hfirst]

theorem overlaid_getElem (hkeys : (options.map (·.key)).Nodup)
    {incoming : List OptionDefinition} (hincoming : (incoming.map (·.key)).Nodup) {i : Nat}
    {before : OptionDefinition} (hbefore : options[i]? = some before) :
    (incoming.foldl (overlayOne serde documents (byKey options)) { options }).options[i]? =
      some (((incoming.find? fun option => option.key = before.key).map fun option =>
        (mergeOption serde documents option before).current).getD before) := by
  rw [Lists.foldl_keyed (fun state : Overlaying => state.options[i]?)
    (fun current option => current.map fun c => (mergeOption serde documents option c).current)
    (overlayOne_getElem hkeys hbefore) hincoming]
  dsimp only
  rw [hbefore]
  cases incoming.find? fun option => option.key = before.key <;> rfl

/-- The differences found for a key are among those found in the end. -/
theorem overlaid_conflicts (hkeys : (options.map (·.key)).Nodup)
    {incoming : List OptionDefinition} (hincoming : (incoming.map (·.key)).Nodup) {i : Nat}
    {before option : OptionDefinition} (hbefore : options[i]? = some before)
    (hoption : option ∈ incoming) (hkey : option.key = before.key) {field : String}
    (h : Reported (mergeOption serde documents option before).conflicts before.key field) :
    Reported (incoming.foldl (overlayOne serde documents (byKey options)) { options }).conflicts
      before.key field := by
  obtain ⟨earlier, later, rfl⟩ := List.append_of_mem hoption
  have hearlier : ∀ o ∈ earlier, o.key ≠ before.key := by
    intro o ho heq
    rw [List.map_append, List.nodup_append'] at hincoming
    exact hincoming.2.2 (List.mem_map.mpr ⟨o, ho, rfl⟩) (List.mem_map.mpr
      ⟨option, List.mem_cons_self, hkey.trans heq.symm⟩)
  have hstill : (earlier.foldl (overlayOne serde documents (byKey options))
      { options }).options[i]? = some before :=
    (overlaid_getElem_of_ne hkeys hbefore hearlier _).trans hbefore
  rw [List.foldl_append, List.foldl_cons]
  refine Reported.mono ?_ (conflicts_foldl _ later _)
  have hindex := (byKey_get hkeys).mpr ⟨before, hbefore, hkey.symm⟩
  simp only [overlayOne, hindex, Option.bind_some, hstill, Option.map_some]
  exact h.append_left _

end Run

theorem supported_of_checkFact {α : Type} {documents : List RawHelp} {fact : Fact α}
    (h : checkFact documents fact = .ok ()) :
    fact.certainty = .unknown ∨ fact.supported.isSome := by
  simp only [checkFact, bind_eq_ok, require_eq_ok] at h
  obtain ⟨-, hsupported, -⟩ := h
  by_cases hunknown : fact.certainty = .unknown
  · exact .inl hunknown
  · rw [Fact.supported, if_neg hunknown]
    exact .inr (hsupported.resolve_left hunknown).1

theorem facts_of_check {documents : List RawHelp} {option : OptionDefinition} {seen seen' : Seen}
    (h : option.check documents seen = .ok seen') (field : FactField) :
    (option.fact field).certainty = .unknown ∨ (option.fact field).supported.isSome := by
  simp only [OptionDefinition.check, OptionDefinition.checkFacts, bind_eq_ok] at h
  obtain ⟨-, -, ⟨⟩, ⟨⟨⟩, hkind, ⟨⟩, harity, ⟨⟩, hrepeatable, ⟨⟩, hchoices, ⟨⟩, hrange, ⟨⟩, hunit,
    ⟨⟩, hdefault, ⟨⟩, hrequest, ⟨⟩, hrestart, ⟨⟩, hsensitive, ⟨⟩, hpath, ⟨⟩, hpublic, ⟨⟩, hname,
    hrole⟩, -⟩ := h
  cases field with
  | kind => exact supported_of_checkFact hkind
  | arity => exact supported_of_checkFact harity
  | repeatable => exact supported_of_checkFact hrepeatable
  | choices => exact supported_of_checkFact hchoices
  | range => exact supported_of_checkFact hrange
  | unit => exact supported_of_checkFact hunit
  | runtimeDefault => exact supported_of_checkFact hdefault
  | requestField => exact supported_of_checkFact hrequest
  | restartRequired => exact supported_of_checkFact hrestart
  | sensitive => exact supported_of_checkFact hsensitive
  | localPath => exact supported_of_checkFact hpath
  | benchmarkPublic => exact supported_of_checkFact hpublic
  | benchmarkName => exact supported_of_checkFact hname
  | benchmarkRole => exact supported_of_checkFact hrole

theorem facts_of_validate {serde : Serde} {schema : OptionSchema}
    (h : schema.validate serde = .ok ()) {option : OptionDefinition}
    (hoption : option ∈ schema.options) (field : FactField) :
    (option.fact field).certainty = .unknown ∨ (option.fact field).supported.isSome := by
  simp only [validate, bind_eq_ok, require_eq_ok] at h
  obtain ⟨-, -, -, -, -, -, -, -, -, -, ⟨⟩, hend, seen, hoptions, -⟩ := h
  obtain ⟨before, after, hcheck⟩ := exists_step_of_foldlM_ok hoptions hoption
  exact facts_of_check hcheck field

theorem endOfOptions_of_validate {serde : Serde} {schema : OptionSchema}
    (h : schema.validate serde = .ok ()) :
    schema.endOfOptions.certainty = .unknown ∨ schema.endOfOptions.supported.isSome := by
  simp only [validate, bind_eq_ok, require_eq_ok] at h
  obtain ⟨-, -, -, -, -, -, -, -, -, -, ⟨⟩, hend, -⟩ := h
  exact supported_of_checkFact hend

/-- An option after an overlay: syntax as observed, facts kept or filled in, and
what the app owns claimed by adapter metadata only. -/
structure Overlaid (overlay : OptionSchema) (before after : OptionDefinition) : Prop where
  observed : after.observed = before.observed
  kept : ∀ field, (before.fact field).certainty ≠ .unknown → after.fact field = before.fact field
  changed : ∀ field, after.fact field ≠ before.fact field → ∃ incoming ∈ overlay.options,
    incoming.key = before.key ∧ after.fact field = incoming.fact field ∧
      (incoming.fact field).supported.isSome
  request : after.requestField ≠ before.requestField →
    after.requestField.source.any Source.isAdapter
  managed : after.managed ≠ before.managed → ∃ incoming ∈ overlay.options,
    incoming.key = before.key ∧ after.managed = incoming.managed ∧ before.managed = none ∧
      incoming.hasAdapterProvenance

theorem overlaid_mergeOption {serde : Serde} {overlay : OptionSchema} {documents : List Text}
    (hoverlay : overlay.validate serde = .ok ()) {before incoming : OptionDefinition}
    (hincoming : incoming ∈ overlay.options) (hkey : incoming.key = before.key) :
    Overlaid overlay before (mergeOption serde documents incoming before).current := by
  obtain ⟨hobserved, hfacts, hmanaged, -⟩ := mergeOption_spec serde documents incoming before
  refine ⟨hobserved, ?_, ?_, ?_, ?_⟩
  · intro field hknown
    rcases hfacts field with h | ⟨-, h⟩
    · exact h
    · rw [h, filled, if_neg fun hfill => hknown hfill.1]
  · intro field hchanged
    rcases hfacts field with h | ⟨-, h⟩
    · exact absurd h hchanged
    · by_cases hfill : (before.fact field).certainty = .unknown ∧
        (incoming.fact field).certainty ≠ .unknown ∧ allowed field (incoming.fact field)
      · rw [filled, if_pos hfill] at h
        exact ⟨incoming, hincoming, hkey, h,
          (facts_of_validate hoverlay hincoming field).resolve_left hfill.2.1⟩
      · rw [filled, if_neg hfill] at h
        exact absurd h hchanged
  · intro hchanged
    rcases hfacts .requestField with h | ⟨-, h⟩
    · exact absurd h hchanged
    · by_cases hfill : (before.fact .requestField).certainty = .unknown ∧
        (incoming.fact .requestField).certainty ≠ .unknown ∧
        allowed .requestField (incoming.fact .requestField)
      · rw [filled, if_pos hfill] at h
        obtain ⟨-, -, hallowed⟩ := hfill
        have hsource : (incoming.fact .requestField).source.any Source.isAdapter := by
          simpa [allowed] using hallowed
        exact (congrArg (fun fact => fact.source.any Source.isAdapter) h).trans hsource
      · rw [filled, if_neg hfill] at h
        exact absurd h hchanged
  · intro hchanged
    rcases hmanaged with h | ⟨hnone, hadapter, h⟩
    · exact absurd h hchanged
    · exact ⟨incoming, hincoming, hkey, h, hnone, hadapter⟩

theorem Overlaid.refl (overlay : OptionSchema) (option : OptionDefinition) :
    Overlaid overlay option option :=
  ⟨rfl, fun _ _ => rfl, fun _ h => absurd rfl h, fun h => absurd rfl h, fun h => absurd rfl h⟩

/-- An overlay that is applied leaves what help shows, reports where it disagrees, and
gives a schema that passes its check. -/
theorem applyOverlay_keeps_observed {serde : Serde} {base overlay : OptionSchema}
    {applied : AppliedOverlay} (h : applyOverlay serde base overlay = .ok applied) :
    List.Forall₂ (Overlaid overlay) base.options applied.schema.options ∧
      (base.endOfOptions.certainty ≠ .unknown →
        applied.schema.endOfOptions = base.endOfOptions) ∧
      (applied.schema.endOfOptions ≠ base.endOfOptions →
        applied.schema.endOfOptions = overlay.endOfOptions ∧
          overlay.endOfOptions.supported.isSome) ∧
      (∀ before ∈ base.options, ∀ incoming ∈ overlay.options, incoming.key = before.key →
        ∀ field, Disagreement before incoming field →
          Reported applied.conflicts before.key field) ∧
      base.constraints <+: applied.schema.constraints ∧
      applied.schema.validate serde = .ok () := by
  simp only [applyOverlay, bind_eq_ok, require_eq_ok] at h
  obtain ⟨⟨⟩, hoverlay, ⟨⟩, hbase, -, -, -, -, h⟩ := h
  split at h
  case h_1 => cases h
  case h_2 hresult =>
    cases h
    have hkeys := (wellFormed_of_validate hbase).keys
    have hincoming := (wellFormed_of_validate hoverlay).keys
    refine ⟨?_, ?_, ?_, ?_, List.prefix_append _ _, hresult⟩
    · refine List.forall₂_iff_get.mpr ⟨?_, ?_⟩
      · exact (overlaid_length _ overlay.options { options := base.options }).symm
      · intro i hi hi'
        have hbefore := List.getElem?_eq_getElem hi
        have hafter := (List.getElem?_eq_getElem hi').symm.trans
          (overlaid_getElem hkeys hincoming hbefore)
        rw [List.get_eq_getElem, List.get_eq_getElem, Option.some.inj hafter]
        cases hfind : overlay.options.find? fun option => option.key = base.options[i].key with
        | none => exact Overlaid.refl overlay _
        | some incoming =>
          have hkey := List.find?_some hfind
          exact overlaid_mergeOption hoverlay (List.mem_of_find?_eq_some hfind) (by simpa using hkey)
    · intro hknown
      exact if_neg fun hfill => hknown hfill.2
    · dsimp only
      split_ifs with hfill
      · exact fun _ => ⟨rfl, (endOfOptions_of_validate hoverlay).resolve_left hfill.1⟩
      · exact fun hchanged => absurd rfl hchanged
    · intro before hmem incoming hoption hkey field hdisagree
      obtain ⟨i, hi⟩ := List.mem_iff_getElem?.mp hmem
      obtain ⟨-, -, -, hreports⟩ :=
        mergeOption_spec serde (base.rawHelp.map (·.id)) incoming before
      exact overlaid_conflicts hkeys hincoming hi hoption hkey (hreports field hdisagree)

def sizeFlag : OptionDefinition := .ofFlag "x" "--x" 1

/-- Metadata that knows the unit of a flag and disagrees about its spelling and its arity. -/
def unitOverlay : OptionSchema :=
  .ofOptions [{ OptionDefinition.ofFlag "x" "--y" 2 with unit := .confirmed "tokens".toList }]

/-- The unit is filled in, what help shows stays, and both disagreements are reported. -/
theorem applyOverlay_keeps_observed_unit : ∃ applied,
    applyOverlay Serde.plain (.ofOptions [sizeFlag]) unitOverlay = .ok applied ∧
      applied.schema.options = [{ sizeFlag with unit := .confirmed "tokens".toList }] ∧
      List.Forall₂ (Overlaid unitOverlay) [sizeFlag] applied.schema.options ∧
      Reported applied.conflicts sizeFlag.key "spellings" ∧
      Reported applied.conflicts sizeFlag.key "arity" := by
  refine ⟨_, rfl, rfl, ?_⟩
  obtain ⟨hoptions, -, -, hreported, -⟩ :=
    @applyOverlay_keeps_observed .plain (.ofOptions [sizeFlag]) unitOverlay _ rfl
  have hdisagree := hreported sizeFlag List.mem_cons_self _ List.mem_cons_self rfl
  refine ⟨hoptions, hdisagree _ (.spellings (by decide) (by decide)), hdisagree _ ?_⟩
  exact .fact .arity (by decide) ⟨by decide, by decide, rfl⟩

/-- Metadata that gives an option a positional slot and no flags, and marks its value as
public where the other schema says it is not. -/
def positionalOverlay : OptionDefinition :=
  { key := "x".toList, position := some 0, kind := .confirmed .text, arity := .confirmed ⟨1, some 1⟩
    target := .launch, benchmarkPublic := .confirmed true }

def privateFlag : OptionDefinition :=
  { OptionDefinition.ofFlag "x" "--x" 1 with benchmarkPublic := .confirmed false }

/-- Flags against no flags, and two supported facts about publication, go unreported. -/
theorem applyOverlay_unreported :
    positionalOverlay.key = privateFlag.key ∧
      positionalOverlay.spellings ≠ privateFlag.spellings ∧
      Differ privateFlag.benchmarkPublic positionalOverlay.benchmarkPublic ∧
      ∃ applied, applyOverlay Serde.plain (.ofOptions [privateFlag])
          (.ofOptions [positionalOverlay]) = .ok applied ∧
        ¬ Reported applied.conflicts privateFlag.key "spellings" ∧
        ¬ Reported applied.conflicts privateFlag.key "benchmark_public" := by
  refine ⟨rfl, by decide, ⟨by decide, by decide, rfl⟩, _, rfl, ?_, ?_⟩
  · rintro ⟨conflict, hconflict, -, hfield⟩
    revert conflict
    decide
  · rintro ⟨conflict, hconflict, -, hfield⟩
    revert conflict
    decide

end OptionSchema

end AioLM.Options
