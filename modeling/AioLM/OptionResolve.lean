import AioLM.KeyMap
import AioLM.OptionSchema
import Mathlib.Data.Char
import Mathlib.Data.List.Lex
import Mathlib.Data.List.Sort

/-!
Grouped resolution of saved values: every occurrence is checked and serialized,
and the argument words are laid out scope by scope.
-/

set_option autoImplicit false

namespace AioLM.Options

open Fallible

structure Override where
  spelling : Option Text := none
  occurrences : List (List Json)

abbrev Overrides := KeyMap Text Override

/-- One occurrence with the alias it is spelled with; none is the default. -/
structure Occurrence where
  spelling : Option Text
  values : List Json

def Override.rows (value : Override) : List Occurrence :=
  value.occurrences.map fun row => ⟨value.spelling, row⟩

structure OptionIssue where
  key : Text
  message : Text
  deriving DecidableEq

structure ResolvedOptions where
  scopeBoundaries : List Nat
  argv : List Text
  request : KeyMap Text Json

/-- The range is checked before the cast, so that no saturating cast can match. -/
def integerEqualsFloat (n : Int) (x : Float) : Bool :=
  x.isFinite && fract x == 0 && decide (Json.floatOfInt (-(2 ^ 63)) ≤ x) &&
    decide (x < 18446744073709551616.0) &&
    (if x < 0 then x.toInt64.toInt else (x.toUInt64.toNat : Int)) == n

def sameNumber (a b : Json) : Bool :=
  let integer (v : Json) : Option Int := v.asI64.orElse fun _ => v.asU64.map Int.ofNat
  match integer a, integer b with
  | some a, some b => a == b
  | some a, none => b.asF64.any (integerEqualsFloat a)
  | none, some b => a.asF64.any (integerEqualsFloat b)
  | none, none =>
    a.asF64.any fun x => b.asF64.any fun y => x.isFinite && y.isFinite && x == y

/-- Operands compare by the documented type: `1` and `1.0` are one number. -/
def sameOperand (left right : Json) : Bool :=
  if left.isNumber && right.isNumber then sameNumber left right else left == right

namespace OptionDefinition

def chooseSpelling (option : OptionDefinition) : Option Text → Except Text (Option Spelling)
  | none => .ok option.spellings.head?
  | some flag =>
    match option.spellings.find? (·.flag = flag) with
    | none => .error "saved alias is absent from this schema".toList
    | some spelling => .ok (some spelling)

def turns (spelling : Spelling) (enabled : Bool) : Bool := spelling.polarity.getD true == enabled

def switchWords (serde : Serde) (option : OptionDefinition) (saved : Option Text)
    (chosen : Option Spelling) : List Json → Except Text (List Text)
  | [value] => do
    let _ ← option.scalar serde value
    let enabled := value.asBool.getD false
    let spelling :=
      if saved.isSome then chosen.filter (turns · enabled)
      else option.spellings.find? (turns · enabled)
    match spelling with
    | some spelling => .ok [spelling.flag]
    | none =>
      -- only a sourced false default proves that omission opts out
      require (!enabled && option.runtimeDefault.supported.any (·.literal == .bool false) &&
          saved.isNone)
        "this runtime has no confirmed spelling for the explicit boolean value".toList
      return []
  | _ => .error "a boolean switch needs an explicit true or false".toList

def flagWords (row : List Json) (values : List Text) : Option Spelling → Except Text (List Text)
  | none => .ok values
  | some spelling =>
    match spelling.style, values with
    | .equals, value :: _ => .ok [spelling.flag ++ '=' :: value]
    | _, _ => do
      require (!(row.zip values).any fun v => v.1.isString && startsWith '-' v.2)
        ("a flag-like text value needs a confirmed equals spelling to keep its " ++
          "boundary unambiguous").toList
      return spelling.flag :: values

def effectiveArity (option : OptionDefinition) : Except Text Arity :=
  match option.target, option.arity.supported with
  | .request, _ => .ok ⟨1, some 1⟩
  | .launch, some arity => .ok arity
  | .launch, none =>
    .error ("arity is unknown; confirm the value count or provide adapter metadata before " ++
      "generating argv").toList

def resolveRow (serde : Serde) (option : OptionDefinition) (arity : Arity) (saved : Occurrence) :
    Except Text (List Text) := do
  let chosen ← option.chooseSpelling saved.spelling
  require (saved.values.length ≤ 256) "too many option values".toList
  if option.kind.supported = some .boolean ∧ arity.max = some 0 then
    option.switchWords serde saved.spelling chosen saved.values
  else do
    require (arity.min ≤ saved.values.length ∧ arity.max.all (saved.values.length ≤ ·))
      "value count does not match the documented arity".toList
    let values ← saved.values.mapM (option.scalar serde)
    if option.target = .request then return []
    else flagWords saved.values values chosen

def resolveRows (serde : Serde) (option : OptionDefinition) (rows : List Occurrence) :
    Except Text (List Text) := do
  require (rows.length ≤ 128 ∧ (rows.length ≤ 1 ∨ option.repeatable.supported = some true))
    "repetition needs explicit supported metadata".toList
  let arity ← option.effectiveArity
  let words ← rows.mapM (option.resolveRow serde arity)
  return words.flatten

def resolveOne (serde : Serde) (option : OptionDefinition) (saved : Occurrence) :
    Except Text (List Text) := option.resolveRows serde [saved]

end OptionDefinition

namespace OptionDefinition

variable {serde : Serde} {option : OptionDefinition}

theorem resolveRows_eq_ok {rows : List Occurrence} {words : List Text} :
    option.resolveRows serde rows = .ok words ↔
      (rows.length ≤ 128 ∧ (rows.length ≤ 1 ∨ option.repeatable.supported = some true)) ∧
        ∃ arity, option.effectiveArity = .ok arity ∧
          ∃ parts, rows.Forall₂ (fun row part => option.resolveRow serde arity row = .ok part)
            parts ∧ words = parts.flatten := by
  simp only [resolveRows, bind_eq_ok, require_eq_ok, mapM_eq_ok, pure, Except.pure,
    Except.ok.injEq]
  constructor
  · rintro ⟨-, hrows, arity, harity, parts, hparts, rfl⟩
    exact ⟨hrows, arity, harity, parts, hparts, rfl⟩
  · rintro ⟨hrows, arity, harity, parts, hparts, rfl⟩
    exact ⟨(), hrows, arity, harity, parts, hparts, rfl⟩

theorem resolveOne_eq_ok {saved : Occurrence} {words : List Text} :
    option.resolveOne serde saved = .ok words ↔
      ∃ arity, option.effectiveArity = .ok arity ∧
        option.resolveRow serde arity saved = .ok words := by
  rw [resolveOne, resolveRows_eq_ok]
  constructor
  · rintro ⟨-, arity, harity, parts, hparts, rfl⟩
    obtain _ | ⟨hrow, hnil⟩ := hparts
    cases hnil
    exact ⟨arity, harity, by simpa using hrow⟩
  · rintro ⟨arity, harity, hrow⟩
    exact ⟨by simp, arity, harity, [words], .cons hrow .nil, by simp⟩

def wordsOf (serde : Serde) (option : OptionDefinition) (saved : Occurrence) : List Text :=
  (option.resolveOne serde saved).toOption.getD []

theorem wordsOf_eq {saved : Occurrence} {words : List Text}
    (h : option.resolveOne serde saved = .ok words) : option.wordsOf serde saved = words := by
  simp [wordsOf, h, Except.toOption]

theorem resolveRows_split {rows : List Occurrence} {words : List Text}
    (h : option.resolveRows serde rows = .ok words) :
    (∀ row ∈ rows, option.resolveOne serde row = .ok (option.wordsOf serde row)) ∧
      words = rows.flatMap (option.wordsOf serde) := by
  obtain ⟨-, arity, harity, parts, hparts, rfl⟩ := resolveRows_eq_ok.mp h
  clear h
  induction hparts with
  | nil => simp
  | @cons row part rows parts hrow hrows ih =>
    have hone := resolveOne_eq_ok.mpr ⟨arity, harity, hrow⟩
    refine ⟨List.forall_mem_cons.mpr ⟨?_, ih.1⟩, ?_⟩
    · rw [wordsOf_eq hone]
      exact hone
    · rw [List.flatten_cons, List.flatMap_cons, wordsOf_eq hone, ih.2]

end OptionDefinition

/-- What one saved option adds: argument words, or a request field. -/
inductive Contribution where
  | arguments (words : List Text)
  | field (name : Text) (value : Json)

def managedMessage (option : OptionDefinition) : ManagedBinding → Text
  | .entryPoint => ("this option is fixed by the registered entry point; its saved value was " ++
      "retained. Register another entry point to change it").toList
  | .reserved =>
    "the engine's adapter reserves this option for the app; its saved value was retained".toList
  | .discovery =>
    if option.position.isSome then
      ("this positional's place in the launch command is not mapped; confirm its role in the " ++
        "reviewed help first. Its saved value was retained").toList
    else "this option is managed by the app; use its binding control".toList
  | _ => "this option is managed by the app; use its binding control".toList

namespace OptionSchema

variable (serde : Serde) (schema : OptionSchema) (selected : List Text)

def contribute (key : Text) (rows : List Occurrence) : Except OptionIssue Contribution :=
  let issue (message : Text) : Except OptionIssue Contribution := .error ⟨key, message⟩
  match schema.option key with
  | none =>
    issue "saved option is absent from this schema; review the runtime change".toList
  | some option =>
    if ¬ option.scope <+: selected then
      issue "option belongs to another subcommand; its saved value was retained".toList
    else
      match option.managed with
      | some binding => issue (managedMessage option binding)
      | none =>
        match option.resolveRows serde rows with
        | .error message => issue message
        | .ok words =>
          match option.target, option.requestField.supported, rows with
          | .launch, _, _ => .ok (.arguments words)
          | .request, some field, [⟨_, [value]⟩] => .ok (.field field value)
          | .request, _, _ =>
            issue "request mapping needs exactly one explicit value".toList

variable (overrides : KeyMap Text (List Occurrence))

def contributionIssues : List OptionIssue :=
  overrides.entries.filterMap fun e =>
    match schema.contribute serde selected e.1 e.2 with
    | .error issue => some issue
    | .ok _ => none

def emitted : KeyMap Text (List Text) :=
  overrides.filterMap fun key rows =>
    match schema.contribute serde selected key rows with
    | .ok (.arguments words) => some words
    | _ => none

def requestFields : KeyMap Text Json :=
  overrides.entries.foldl (fun request e =>
    match schema.contribute serde selected e.1 e.2 with
    | .ok (.field name value) => request.insert name value
    | _ => request) .empty

def meets (predicate : Predicate) : Bool :=
  (overrides.get predicate.key).any fun rows =>
    !rows.isEmpty && predicate.equals.all fun expected =>
      rows.any fun saved =>
        match saved.values with
        | [value] => sameOperand value expected
        | _ => false

def constraintIssue (constraint : Fact Relation) : Option OptionIssue :=
  match constraint.supported with
  | some (.requires condition other) =>
    if meets overrides condition && !meets overrides other then
      some ⟨condition.key, "requires the documented value of ".toList ++ other.key⟩
    else none
  | some (.excludes condition other) =>
    if meets overrides condition && meets overrides other then
      some ⟨condition.key, "cannot be combined with ".toList ++ other.key⟩
    else none
  | none => none

end OptionSchema

structure Slot where
  position : Nat
  key : Text
  words : List Text

def hasDash (words : List (List Text)) : Bool := words.any fun ws => ws.any (startsWith '-')

namespace OptionSchema

variable (schema : OptionSchema) (selected : List Text) (words : KeyMap Text (List Text))

def flagsAt (depth : Nat) : List Text :=
  schema.options.flatMap fun option =>
    if option.scope = selected.take depth ∧ option.position = none then
      (words.get option.key).getD []
    else []

def slotFor (depth : Nat) (option : OptionDefinition) : Option Slot :=
  if option.scope = selected.take depth then
    match option.position, words.get option.key with
    | some position, some args => some ⟨position, option.key, args⟩
    | _, _ => none
  else none

def slotsAt (depth : Nat) : List Slot :=
  (schema.options.filterMap (slotFor selected words depth)).insertionSort
    fun a b => a.position ≤ b.position

/-- An earlier slot left out would bind a later value to the wrong slot, unless
the launch template fills it. -/
def gapIssues (depth : Nat) : List OptionIssue :=
  let slots := schema.slotsAt selected words depth
  match slots.getLast? with
  | none => []
  | some last =>
    schema.options.filterMap fun earlier =>
      if earlier.scope = selected.take depth ∧ earlier.position.any (· < last.position) ∧
          earlier.managed.all (· = .discovery) ∧
          !slots.any (fun slot => decide (slot.key = earlier.key) && !slot.words.isEmpty) then
        some ⟨earlier.key,
          "an earlier positional value must be supplied before this slot".toList⟩
      else none

def varying (key : Text) : Bool :=
  schema.options.any fun option =>
    decide (option.key = key) && (option.repeatable.supported == some true ||
      option.arity.supported.all fun arity => arity.max != some arity.min)

def varyingIssues (depth : Nat) : List OptionIssue :=
  match (schema.slotsAt selected words depth).dropLast.find? fun slot => schema.varying slot.key with
  | none => []
  | some slot =>
    [⟨slot.key,
      "a positional with a varying value count must be the last positional supplied".toList⟩]

def delimits (depth : Nat) : Bool :=
  decide (depth = selected.length) && schema.endOfOptions.supported == some true

def dashIssues (depth : Nat) : List OptionIssue :=
  match schema.slotsAt selected words depth with
  | [] => []
  | first :: rest =>
    if hasDash ((first :: rest).map (·.words)) && !schema.delimits selected depth then
      [⟨first.key, ("leading-dash positional values need an explicitly supported " ++
        "end-of-options delimiter").toList⟩]
    else []

def depthIssues (depth : Nat) : List OptionIssue :=
  schema.gapIssues selected words depth ++ schema.varyingIssues selected words depth ++
    schema.dashIssues selected words depth

def depthWords (depth : Nat) : List Text :=
  let positional := (schema.slotsAt selected words depth).map (·.words)
  schema.flagsAt selected words depth ++
    (if hasDash positional && schema.delimits selected depth then ["--".toList] else []) ++
    positional.flatten

end OptionSchema

structure Layout where
  argv : List Text := []
  scopeBoundaries : List Nat := []

/-- Each scope word but the root's stands before the words of its depth. -/
def Layout.push (selected : List Text) (sections : Nat → List Text) (out : Layout) (depth : Nat) :
    Layout :=
  match depth with
  | 0 => { out with argv := out.argv ++ sections 0 }
  | before + 1 =>
    { argv := out.argv ++ selected[before]?.toList ++ sections (before + 1),
      scopeBoundaries := out.scopeBoundaries ++ [out.argv.length] }

def layOut (selected : List Text) (sections : Nat → List Text) : Layout :=
  (List.range (selected.length + 1)).foldl (Layout.push selected sections) {}

theorem layOut_congr {selected : List Text} {f g : Nat → List Text}
    (h : ∀ depth ≤ selected.length, f depth = g depth) : layOut selected f = layOut selected g := by
  refine List.foldl_ext _ _ _ fun out depth hdepth => ?_
  have hle : depth ≤ selected.length := by
    have := List.mem_range.mp hdepth
    omega
  cases depth with
  | zero => simp only [Layout.push, h 0 hle]
  | succ before => simp only [Layout.push, h _ hle]

theorem hasDash_eq (words : List (List Text)) :
    hasDash words = words.flatten.any (startsWith '-') := by
  simp [hasDash, List.any_flatten]

namespace OptionSchema

variable (serde : Serde) (schema : OptionSchema) (selected : List Text)

def sizeIssues (argv : List Text) : List OptionIssue :=
  if argv.length ≤ maxArguments ∧ (argv.map Text.utf8Len).sum ≤ maxValuesBytes then []
  else [⟨[], "runtime option arguments exceed their size limit".toList⟩]

def resolveValidated (overrides : KeyMap Text (List Occurrence)) :
    Except (List OptionIssue) ResolvedOptions := do
  require (overrides.entries.length ≤ maxOptions) [⟨[], "too many saved runtime options".toList⟩]
  require (validScope selected) [⟨[], "invalid selected subcommand".toList⟩]
  let words := schema.emitted serde selected overrides
  let out := layOut selected (schema.depthWords selected words)
  let issues := schema.contributionIssues serde selected overrides ++
    schema.constraints.filterMap (constraintIssue overrides) ++
    (List.range (selected.length + 1)).flatMap (schema.depthIssues selected words) ++
    sizeIssues out.argv
  require (issues = []) issues
  return ⟨out.scopeBoundaries, out.argv, schema.requestFields serde selected overrides⟩

def validated : Except (List OptionIssue) Unit :=
  (schema.validate serde).mapError fun message => [⟨[], message⟩]

variable {serde : Serde} {schema : OptionSchema} {selected : List Text}

theorem wellFormed_of_validated {u : Unit} (h : schema.validated serde = .ok u) :
    schema.WellFormed := by
  cases hvalid : schema.validate serde with
  | error message => simp [validated, hvalid, Except.mapError] at h
  | ok u => exact wellFormed_of_validate hvalid

theorem contribute_eq_ok {key : Text} {rows : List Occurrence} {c : Contribution}
    (h : schema.contribute serde selected key rows = .ok c) :
    ∃ option words, schema.option key = some option ∧ option.scope <+: selected ∧
      option.managed = none ∧ option.resolveRows serde rows = .ok words ∧
      (option.target = .launch ∧ c = .arguments words ∨
        option.target = .request ∧ ∃ name value, c = .field name value) := by
  unfold contribute at h
  split at h
  · cases h
  · rename_i option hoption
    split at h
    · cases h
    · rename_i hscope
      split at h
      · cases h
      · rename_i hmanaged
        split at h
        · cases h
        · rename_i words hwords
          refine ⟨option, words, hoption, not_not.mp hscope, hmanaged, hwords, ?_⟩
          split at h
          · rename_i htarget
            cases h
            exact .inl ⟨htarget, rfl⟩
          · rename_i htarget _
            cases h
            exact .inr ⟨htarget, _, _, rfl⟩
          · cases h

/-- What a successful resolution has found of the saved options and each depth. -/
structure Resolves (serde : Serde) (schema : OptionSchema) (selected : List Text)
    (overrides : KeyMap Text (List Occurrence)) : Prop where
  scope : validScope selected
  contribution : ∀ key rows, overrides.get key = some rows →
    ∃ c, schema.contribute serde selected key rows = .ok c
  depth : ∀ depth ≤ selected.length,
    schema.depthIssues selected (schema.emitted serde selected overrides) depth = []

theorem resolveValidated_eq_ok {overrides : KeyMap Text (List Occurrence)} {r : ResolvedOptions}
    (h : schema.resolveValidated serde selected overrides = .ok r) :
    Resolves serde schema selected overrides ∧
      r.argv = (layOut selected
        (schema.depthWords selected (schema.emitted serde selected overrides))).argv ∧
      r.scopeBoundaries = (layOut selected
        (schema.depthWords selected (schema.emitted serde selected overrides))).scopeBoundaries := by
  simp only [resolveValidated, bind_eq_ok, require_eq_ok, List.append_eq_nil_iff, pure,
    Except.pure, Except.ok.injEq] at h
  obtain ⟨-, -, -, hscope, -, ⟨⟨⟨hissues, -⟩, hdepth⟩, -⟩, rfl⟩ := h
  refine ⟨⟨hscope, ?_, ?_⟩, rfl, rfl⟩
  · intro key rows hrows
    have hnone := List.filterMap_eq_nil_iff.mp hissues (key, rows) (KeyMap.get_eq_some.mp hrows)
    cases hc : schema.contribute serde selected key rows with
    | error issue => simp [hc] at hnone
    | ok c => exact ⟨c, rfl⟩
  · intro depth hle
    exact List.flatMap_eq_nil_iff.mp hdepth depth (List.mem_range.mpr (by omega))

theorem Resolves.option {overrides : KeyMap Text (List Occurrence)}
    (h : Resolves serde schema selected overrides) {key : Text} {rows : List Occurrence}
    (hrows : overrides.get key = some rows) :
    ∃ option words, schema.option key = some option ∧ option.scope <+: selected ∧
      option.managed = none ∧ option.resolveRows serde rows = .ok words ∧
      (schema.emitted serde selected overrides).get key =
        if option.target = .launch then some words else none := by
  obtain ⟨c, hc⟩ := h.contribution key rows hrows
  obtain ⟨option, words, hoption, hscope, hmanaged, hwords, hkind⟩ := contribute_eq_ok hc
  refine ⟨option, words, hoption, hscope, hmanaged, hwords, ?_⟩
  rw [emitted, KeyMap.get_filterMap, hrows, Option.bind_some, hc]
  obtain ⟨htarget, rfl⟩ | ⟨htarget, name, value, rfl⟩ := hkind <;> simp [htarget]

theorem Resolves.emitted {overrides : KeyMap Text (List Occurrence)}
    (h : Resolves serde schema selected overrides) {key : Text} {words : List Text}
    (hwords : (schema.emitted serde selected overrides).get key = some words) :
    ∃ rows option, overrides.get key = some rows ∧ schema.option key = some option ∧
      option.target = .launch ∧ words = rows.flatMap (option.wordsOf serde) := by
  cases hrows : overrides.get key with
  | none =>
    rw [OptionSchema.emitted, KeyMap.get_filterMap, hrows, Option.bind_none] at hwords
    cases hwords
  | some rows =>
    obtain ⟨option, all, hoption, -, -, hresolved, hemitted⟩ := h.option hrows
    rw [hwords] at hemitted
    split at hemitted
    · rename_i htarget
      cases hemitted
      exact ⟨rows, option, rfl, hoption, htarget,
        (OptionDefinition.resolveRows_split hresolved).2⟩
    · cases hemitted

theorem emitted_get_none {overrides : KeyMap Text (List Occurrence)} {key : Text}
    (h : overrides.get key = none) : (schema.emitted serde selected overrides).get key = none := by
  rw [emitted, KeyMap.get_filterMap, h, Option.bind_none]

theorem scope_eq_take_iff {scope : List Text} {depth : Nat} (h : scope <+: selected)
    (hdepth : depth ≤ selected.length) : scope = selected.take depth ↔ scope.length = depth := by
  obtain ⟨more, rfl⟩ := h
  constructor
  · intro heq
    rw [heq, List.length_take]
    omega
  · intro heq
    simp [← heq]

theorem delimits_of_dash {words : KeyMap Text (List Text)} {depth : Nat}
    (h : schema.depthIssues selected words depth = [])
    (hdash : hasDash ((schema.slotsAt selected words depth).map (·.words))) :
    schema.delimits selected depth := by
  simp only [depthIssues, List.append_eq_nil_iff, dashIssues] at h
  obtain ⟨-, h⟩ := h
  split at h
  · rename_i hslots
    simp [hslots, hasDash] at hdash
  · rename_i first rest hslots
    rw [hslots] at hdash
    by_contra hnot
    rw [hdash, Bool.eq_false_of_not_eq_true hnot, if_pos (by rfl)] at h
    cases h

variable (serde) (schema) (selected)

def resolveOccurrences (overrides : KeyMap Text (List Occurrence)) :
    Except (List OptionIssue) ResolvedOptions := do
  schema.validated serde
  schema.resolveValidated serde selected overrides

def resolve (overrides : Overrides) : Except (List OptionIssue) ResolvedOptions :=
  schema.resolveOccurrences serde selected (overrides.map Override.rows)

end OptionSchema

end AioLM.Options
