import AioLM.OptionPlan
import AioLM.ScopeSections

/-!
Which words of resolved arguments may begin with a dash. Saved text reaches a
command as a value, and only flags of the options it was saved for, numbers and
the words behind the delimiter begin with a dash.
-/

set_option autoImplicit false

namespace AioLM.Options

open Fallible

/-- The rows of values given to each option. -/
abbrev Given := Text → List Json → Prop

def Overrides.gives (overrides : Overrides) : Given :=
  fun key row => ∃ value, overrides.get key = some value ∧ row ∈ value.occurrences

def OrderedPlan.gives (plan : OrderedPlan) : Given :=
  fun key row => ∃ occurrence ∈ plan, occurrence.key = key ∧ occurrence.values = row

def givesRows (rows : KeyMap Text (List Occurrence)) : Given :=
  fun key row => ∃ saved, rows.get key = some saved ∧ ∃ occurrence ∈ saved, occurrence.values = row

/-- The flag alone, or the flag and a value behind an equals sign. -/
def Spelling.writes (spelling : Spelling) (word : Text) : Prop :=
  word = spelling.flag ∨ spelling.style = .equals ∧ ∃ value, word = spelling.flag ++ '=' :: value

def FlagWord (schema : OptionSchema) (scope : List Text) (given : Given) (word : Text) : Prop :=
  ∃ option ∈ schema.options, option.managed = none ∧ option.scope = scope ∧
    (∃ row, given option.key row) ∧ ∃ spelling ∈ option.spellings, spelling.writes word

def NumberWord (serde : Serde) (given : Given) (word : Text) : Prop :=
  ∃ key row value, given key row ∧ value ∈ row ∧ value.isNumber ∧
    word = value.compact serde.floatText

def SlotWord (serde : Serde) (schema : OptionSchema) (scope : List Text) (given : Given)
    (word : Text) : Prop :=
  ∃ option ∈ schema.options, option.managed = none ∧ option.scope = scope ∧
    option.position.isSome ∧ ∃ row, given option.key row ∧ ∃ value ∈ row,
      word = option.valueText serde value

def Unmanaged (schema : OptionSchema) (scope : List Text) (word : Text) : Prop :=
  ∀ option ∈ schema.options, option.scope = scope → option.managed.isSome →
    ∀ spelling ∈ option.spellings, spelling.flag ≠ word

/-- A section is its flags and values, then perhaps the delimiter with the
positional values behind it. -/
structure Guarded (serde : Serde) (schema : OptionSchema) (scope : List Text) (last : Bool)
    (given : Given) (words front tail : List Text) : Prop where
  split : words = front ++ tail
  delimiter : "--".toList ∉ front
  dash : ∀ word ∈ front, startsWith '-' word →
    NumberWord serde given word ∨ FlagWord schema scope given word ∧ Unmanaged schema scope word
  behind : tail = [] ∨ last ∧ ∃ values, tail = "--".toList :: values ∧
    ∀ value ∈ values, SlotWord serde schema scope given value

/-- Every section of the arguments is guarded. -/
def NoInjection (serde : Serde) (schema : OptionSchema) (selected : List Text) (given : Given)
    (r : ResolvedOptions) : Prop :=
  (∀ word ∈ selected, ¬ startsWith '-' word) ∧
    ∃ pairs first, r.argv = first ++ joined pairs ∧ pairs.map (·.1) = selected ∧
      r.sections selected = .ok (first :: pairs.map (·.2)) ∧
      ∀ depth words, (first :: pairs.map (·.2))[depth]? = some words →
        ∃ front tail, Guarded serde schema (selected.take depth) (depth = selected.length) given
          words front tail

theorem isNumber_of_dash {floatText : Float → Text} {value : Json}
    (h : startsWith '-' (value.compact floatText)) : value.isNumber := by
  cases value with
  | number n => rfl
  | null => simp [Json.compact_null, startsWith] at h
  | bool b => cases b <;> simp [Json.compact_true, Json.compact_false, startsWith] at h
  | string t => simp [Json.compact_string, Json.quote, startsWith] at h
  | array items => simp [Json.compact_array, startsWith] at h
  | object fields => simp [Json.compact_object, startsWith] at h

namespace OptionDefinition

variable {serde : Serde} {option : OptionDefinition}

theorem mapM_scalar {row : List Json} {values : List Text}
    (h : row.mapM (option.scalar serde) = .ok values) :
    values = row.map (option.valueText serde) := by
  induction row generalizing values with
  | nil =>
    cases h
    rfl
  | cons value row ih =>
    simp only [List.mapM_cons, bind_eq_ok, pure, Except.pure, Except.ok.injEq] at h
    obtain ⟨text, htext, texts, htexts, rfl⟩ := h
    rw [(scalar_eq_ok htext).1, ih htexts, List.map_cons]

theorem chooseSpelling_mem {saved : Option Text} {spelling : Spelling}
    (h : option.chooseSpelling saved = .ok (some spelling)) : spelling ∈ option.spellings := by
  cases saved with
  | none =>
    simp only [chooseSpelling, Except.ok.injEq] at h
    exact List.mem_of_head? h
  | some flag =>
    simp only [chooseSpelling] at h
    split at h
    · cases h
    · rename_i found hfound
      cases h
      exact List.mem_of_find?_eq_some hfound

theorem switchWords_flag {saved : Option Text} {chosen : Option Spelling} {row : List Json}
    {words : List Text} (hchosen : ∀ spelling ∈ chosen, spelling ∈ option.spellings)
    (h : option.switchWords serde saved chosen row = .ok words) {word : Text}
    (hword : word ∈ words) : ∃ spelling ∈ option.spellings, word = spelling.flag := by
  unfold switchWords at h
  split at h
  · rename_i value
    obtain ⟨-, -, h⟩ := bind_eq_ok.mp h
    simp only at h
    split at h
    · rename_i spelling hspelling
      cases h
      refine ⟨spelling, ?_, by simpa using hword⟩
      split at hspelling
      · exact hchosen spelling (Option.filter_eq_some_iff.mp hspelling).1
      · exact List.mem_of_find?_eq_some hspelling
    · simp only [bind_eq_ok, require_eq_ok, pure, Except.pure, Except.ok.injEq] at h
      obtain ⟨-, -, rfl⟩ := h
      simp at hword
  · cases h

theorem resolveRow_dash {arity : Arity} {saved : Occurrence} {words : List Text}
    (hne : option.spellings ≠ []) (h : option.resolveRow serde arity saved = .ok words)
    {word : Text} (hword : word ∈ words) (hdash : startsWith '-' word) :
    (∃ spelling ∈ option.spellings, spelling.writes word) ∨
      ∃ value ∈ saved.values, value.isNumber ∧ word = value.compact serde.floatText := by
  simp only [resolveRow, bind_eq_ok, require_eq_ok] at h
  obtain ⟨chosen, hchosen, -, -, h⟩ := h
  have hmem : ∀ spelling ∈ chosen, spelling ∈ option.spellings := by
    intro spelling hspelling
    obtain rfl : chosen = some spelling := hspelling
    exact chooseSpelling_mem hchosen
  split at h
  · obtain ⟨spelling, hspelling, rfl⟩ := switchWords_flag hmem h hword
    exact .inl ⟨spelling, hspelling, .inl rfl⟩
  · simp only [bind_eq_ok, require_eq_ok] at h
    obtain ⟨-, -, values, hvalues, h⟩ := h
    obtain rfl := mapM_scalar hvalues
    split at h
    · cases h
      simp at hword
    · cases chosen with
      | none =>
        cases hsaved : saved.spelling with
        | none => simp [chooseSpelling, hsaved, hne] at hchosen
        | some flag =>
          simp only [chooseSpelling, hsaved] at hchosen
          split at hchosen <;> cases hchosen
      | some spelling =>
        have hspelling := hmem spelling rfl
        simp only [flagWords] at h
        split at h
        · rename_i value rest hstyle hrow
          cases h
          obtain rfl := List.mem_singleton.mp hword
          exact .inl ⟨spelling, hspelling, .inr ⟨hstyle, value, rfl⟩⟩
        · simp only [bind_eq_ok, require_eq_ok, pure, Except.pure, Except.ok.injEq] at h
          obtain ⟨-, hplain, rfl⟩ := h
          rcases List.mem_cons.mp hword with rfl | hvalue
          · exact .inl ⟨spelling, hspelling, .inl rfl⟩
          · right
            obtain ⟨value, hmem, rfl⟩ := List.mem_map.mp hvalue
            have hnostring : ¬ value.isString := by
              intro hstring
              rw [← List.map_prod_left_eq_zip] at hplain
              have hquiet : ∀ v ∈ saved.values, v.isString = true →
                  startsWith '-' (option.valueText serde v) = false := by
                simpa using hplain
              rw [hquiet value hmem hstring] at hdash
              cases hdash
            have hcompact : option.valueText serde value = value.compact serde.floatText := by
              unfold valueText
              split
              · rfl
              · cases value <;> first | rfl | simp [Json.isString, Json.asStr] at hnostring
            rw [hcompact] at hdash ⊢
            exact ⟨value, hmem, isNumber_of_dash hdash, rfl⟩

theorem resolveRow_slot {arity : Arity} {saved : Occurrence} {words : List Text}
    (hnil : option.spellings = []) (h : option.resolveRow serde arity saved = .ok words)
    {word : Text} (hword : word ∈ words) :
    ∃ value ∈ saved.values, word = option.valueText serde value := by
  simp only [resolveRow, bind_eq_ok, require_eq_ok] at h
  obtain ⟨chosen, hchosen, -, -, h⟩ := h
  have hnone : chosen = none := by
    cases chosen with
    | none => rfl
    | some spelling => simpa [hnil] using chooseSpelling_mem hchosen
  subst hnone
  split at h
  · obtain ⟨spelling, hspelling, -⟩ := switchWords_flag (by simp) h hword
    simp [hnil] at hspelling
  · simp only [bind_eq_ok, require_eq_ok] at h
    obtain ⟨-, -, values, hvalues, h⟩ := h
    obtain rfl := mapM_scalar hvalues
    split at h
    · cases h
      simp at hword
    · simp only [flagWords, Except.ok.injEq] at h
      obtain ⟨value, hvalue, rfl⟩ := List.mem_map.mp (h ▸ hword)
      exact ⟨value, hvalue, rfl⟩

end OptionDefinition

theorem flag_shape {option : OptionDefinition} {spelling : Spelling}
    (h : option.spellingFits spelling) : '=' ∉ spelling.flag ∧ spelling.flag ≠ "--".toList := by
  simp only [OptionDefinition.spellingFits, Bool.and_eq_true] at h
  obtain ⟨⟨⟨⟨-, hnonempty⟩, hbody⟩, -⟩, -⟩ := h
  constructor
  · intro hmem
    rw [← List.takeWhile_append_dropWhile (p := fun c => c == '-' || c == '/')
      (l := spelling.flag)] at hmem
    rcases List.mem_append.mp hmem with hmem | hmem
    · exact absurd (List.mem_takeWhile_imp hmem) (by decide)
    · exact absurd (List.all_eq_true.mp hbody _ hmem) (by decide)
  · intro heq
    rw [heq] at hnonempty
    exact absurd hnonempty (by decide)

theorem writes_ne_dashes {option : OptionDefinition} {spelling : Spelling} {word : Text}
    (h : option.spellingFits spelling) (hword : spelling.writes word) :
    word ≠ "--".toList := by
  obtain rfl | ⟨-, value, rfl⟩ := hword
  · exact (flag_shape h).2
  · intro heq
    have hmem : '=' ∈ "--".toList := heq ▸ by simp
    exact absurd hmem (by decide)

/-- The documented form of a float: never two dashes. -/
def PrintsFloats (serde : Serde) : Prop := ∀ x, serde.floatText x ≠ "--".toList

theorem number_ne_dashes {serde : Serde} (hserde : PrintsFloats serde) {given : Given}
    {word : Text} (h : NumberWord serde given word) : word ≠ "--".toList := by
  obtain ⟨-, -, value, -, -, hnumber, rfl⟩ := h
  cases value with
  | number n =>
    cases n with
    | float x => exact hserde x
    | int n =>
      simp only [Json.compact_int, Json.intText]
      split
      · intro heq
        have hmem : '-' ∈ Nat.toDigits 10 n.natAbs := by
          rw [(List.cons.inj heq).2]
          decide
        exact absurd (Nat.isDigit_of_mem_toDigits (by decide) (by decide) hmem) (by decide)
      · intro heq
        have hmem : '-' ∈ Nat.toDigits 10 n.natAbs := by
          rw [heq]
          decide
        exact absurd (Nat.isDigit_of_mem_toDigits (by decide) (by decide) hmem) (by decide)
  | _ => simp [Json.isNumber] at hnumber

theorem unmanaged_of_writes {schema : OptionSchema} (hschema : schema.WellFormed)
    {option : OptionDefinition} {spelling : Spelling} {word : Text}
    (ho : option ∈ schema.options) (hfree : option.managed = none)
    (hs : spelling ∈ option.spellings) (hword : spelling.writes word) :
    Unmanaged schema option.scope word := by
  intro owned howned hscope hmanaged spelling' hs' heq
  obtain rfl | ⟨-, value, rfl⟩ := hword
  · have hsame := hschema.eq_of_flag howned ho hs' hs hscope heq
    simp [hsame, hfree] at hmanaged
  · have hmem : '=' ∈ spelling'.flag := heq ▸ by simp
    exact (flag_shape ((hschema.fits owned howned).spelling _ hs')).1 hmem

theorem guarded_of_parts {serde : Serde} {schema : OptionSchema} (hserde : PrintsFloats serde)
    (hschema : schema.WellFormed) {scope : List Text} {last : Bool} {given : Given}
    {flags : List Text} {positional : List (List Text)}
    (hflags : ∀ word ∈ flags, startsWith '-' word →
      NumberWord serde given word ∨ FlagWord schema scope given word ∧ Unmanaged schema scope word)
    (hslots : ∀ words ∈ positional, ∀ word ∈ words, SlotWord serde schema scope given word)
    (hlast : hasDash positional → last) :
    ∃ front tail, Guarded serde schema scope last given
      (flags ++ (if hasDash positional then ["--".toList] else []) ++ positional.flatten)
      front tail := by
  have hslots' : ∀ word ∈ positional.flatten, SlotWord serde schema scope given word := by
    intro word hword
    obtain ⟨words, hwords, hmem⟩ := List.mem_flatten.mp hword
    exact hslots words hwords word hmem
  have hdelimiter : "--".toList ∉ flags := by
    intro hmem
    obtain hnumber | ⟨⟨option, ho, -, -, -, spelling, hs, hword⟩, -⟩ := hflags _ hmem (by decide)
    · exact number_ne_dashes hserde hnumber rfl
    · exact writes_ne_dashes ((hschema.fits option ho).spelling _ hs) hword rfl
  by_cases hdash : hasDash positional
  · refine ⟨flags, "--".toList :: positional.flatten, by simp [hdash], hdelimiter, hflags, ?_⟩
    exact .inr ⟨hlast hdash, _, rfl, hslots'⟩
  · have hquiet : ∀ word ∈ positional.flatten, startsWith '-' word = false := by
      intro word hword
      have hall := hdash
      rw [hasDash_eq] at hall
      simpa using List.any_eq_false.mp (Bool.eq_false_of_not_eq_true hall) word hword
    refine ⟨flags ++ positional.flatten, [], by simp [hdash], ?_, ?_, .inl rfl⟩
    · intro hmem
      rcases List.mem_append.mp hmem with hmem | hmem
      · exact hdelimiter hmem
      · exact absurd (hquiet _ hmem) (by decide)
    · intro word hword hstart
      rcases List.mem_append.mp hword with hmem | hmem
      · exact hflags word hmem hstart
      · rw [hquiet word hmem] at hstart
        cases hstart

namespace OptionSchema

variable {serde : Serde} {schema : OptionSchema} {selected : List Text}
  {rows : KeyMap Text (List Occurrence)}

structure Emits (serde : Serde) (schema : OptionSchema) (rows : KeyMap Text (List Occurrence))
    (option : OptionDefinition) (saved : Occurrence) : Prop where
  mem : option ∈ schema.options
  free : option.managed = none
  launch : option.target = .launch
  given : givesRows rows option.key saved.values
  resolves : option.resolveOne serde saved = .ok (option.wordsOf serde saved)

theorem Emits.flag {option : OptionDefinition} {saved : Occurrence}
    (h : Emits serde schema rows option saved) (hschema : schema.WellFormed)
    (hposition : option.position = none) {word : Text} (hword : word ∈ option.wordsOf serde saved)
    (hdash : startsWith '-' word) :
    NumberWord serde (givesRows rows) word ∨
      FlagWord schema option.scope (givesRows rows) word ∧
        Unmanaged schema option.scope word := by
  have hne : option.spellings ≠ [] := by
    intro hnil
    have hsome := ((hschema.fits option h.mem).launch h.launch).mpr hnil
    simp [hposition] at hsome
  obtain ⟨arity, -, hrow⟩ := OptionDefinition.resolveOne_eq_ok.mp h.resolves
  obtain ⟨spelling, hs, hwrites⟩ | ⟨value, hvalue, hnumber, rfl⟩ :=
    OptionDefinition.resolveRow_dash hne hrow hword hdash
  · exact .inr ⟨⟨option, h.mem, h.free, rfl, ⟨_, h.given⟩, spelling, hs, hwrites⟩,
      unmanaged_of_writes hschema h.mem h.free hs hwrites⟩
  · exact .inl ⟨option.key, saved.values, value, h.given, hvalue, hnumber, rfl⟩

theorem Emits.slot {option : OptionDefinition} {saved : Occurrence}
    (h : Emits serde schema rows option saved) (hschema : schema.WellFormed)
    (hposition : option.position.isSome) {word : Text}
    (hword : word ∈ option.wordsOf serde saved) :
    SlotWord serde schema option.scope (givesRows rows) word := by
  have hnil := ((hschema.fits option h.mem).launch h.launch).mp hposition
  obtain ⟨arity, -, hrow⟩ := OptionDefinition.resolveOne_eq_ok.mp h.resolves
  obtain ⟨value, hvalue, rfl⟩ := OptionDefinition.resolveRow_slot hnil hrow hword
  exact ⟨option, h.mem, h.free, rfl, hposition, saved.values, h.given, value, hvalue, rfl⟩

theorem Resolves.emits (h : Resolves serde schema selected rows) {key : Text}
    {saved : List Occurrence} {option : OptionDefinition} {occurrence : Occurrence}
    (hrows : rows.get key = some saved) (hocc : occurrence ∈ saved)
    (hoption : schema.option key = some option) (hlaunch : option.target = .launch) :
    Emits serde schema rows option occurrence ∧ option.scope <+: selected := by
  obtain ⟨o, words, ho, hscope, hfree, hwords, -⟩ := h.option hrows
  obtain rfl : option = o := Option.some.inj (hoption.symm.trans ho)
  obtain ⟨hmem, hkey⟩ := option_eq_some hoption
  have hresolves := (OptionDefinition.resolveRows_split hwords).1 occurrence hocc
  exact ⟨⟨hmem, hfree, hlaunch, ⟨saved, hkey ▸ hrows, occurrence, hocc, rfl⟩, hresolves⟩, hscope⟩

theorem emits_of_emitted (hschema : schema.WellFormed) (h : Resolves serde schema selected rows)
    {option : OptionDefinition} (ho : option ∈ schema.options) {words : List Text}
    (hwords : (schema.emitted serde selected rows).get option.key = some words) {word : Text}
    (hword : word ∈ words) :
    ∃ saved, Emits serde schema rows option saved ∧ word ∈ option.wordsOf serde saved := by
  obtain ⟨saved, o, hrows, hoption, hlaunch, rfl⟩ := h.emitted hwords
  obtain rfl : option = o := Option.some.inj ((hschema.option_key ho).symm.trans hoption)
  obtain ⟨occurrence, hocc, hmem⟩ := List.mem_flatMap.mp hword
  exact ⟨occurrence, (h.emits hrows hocc hoption hlaunch).1, hmem⟩

theorem mem_slotsAt {words : KeyMap Text (List Text)} {depth : Nat} {slot : Slot} :
    slot ∈ schema.slotsAt selected words depth ↔
      ∃ option ∈ schema.options, option.scope = selected.take depth ∧
        option.position = some slot.position ∧ option.key = slot.key ∧
        words.get option.key = some slot.words := by
  rw [slotsAt, List.mem_insertionSort, List.mem_filterMap]
  constructor
  · intro h
    obtain ⟨option, ho, hslot⟩ := h
    unfold slotFor at hslot
    split at hslot
    · rename_i hscope
      split at hslot
      · rename_i hposition hargs
        cases hslot
        exact ⟨option, ho, hscope, hposition, rfl, hargs⟩
      · cases hslot
    · cases hslot
  · intro h
    obtain ⟨option, ho, hscope, hposition, hkey, hwords⟩ := h
    refine ⟨option, ho, ?_⟩
    rw [slotFor, if_pos hscope, hposition, hwords, hkey]

theorem depthWords_guarded (hserde : PrintsFloats serde) (hschema : schema.WellFormed)
    (h : Resolves serde schema selected rows) {depth : Nat} (hdepth : depth ≤ selected.length) :
    ∃ front tail, Guarded serde schema (selected.take depth) (depth = selected.length)
      (givesRows rows)
      (schema.depthWords selected (schema.emitted serde selected rows) depth) front tail := by
  have hdelimits := delimits_of_dash (h.depth depth hdepth)
  have hwords : schema.depthWords selected (schema.emitted serde selected rows) depth =
      schema.flagsAt selected (schema.emitted serde selected rows) depth ++
        (if hasDash ((schema.slotsAt selected (schema.emitted serde selected rows) depth).map
            (·.words)) then ["--".toList] else []) ++
        ((schema.slotsAt selected (schema.emitted serde selected rows) depth).map
          (·.words)).flatten := by
    rw [depthWords]
    by_cases hdash : hasDash ((schema.slotsAt selected (schema.emitted serde selected rows)
        depth).map (·.words)) = true
    · simp [hdash, hdelimits hdash]
    · simp [hdash]
  rw [hwords]
  refine guarded_of_parts hserde hschema ?_ ?_ ?_
  · intro word hword hdash
    obtain ⟨option, ho, hmem⟩ := List.mem_flatMap.mp hword
    split at hmem
    · rename_i hplace
      cases hget : (schema.emitted serde selected rows).get option.key with
      | none => simp [hget] at hmem
      | some words =>
        rw [hget, Option.getD_some] at hmem
        obtain ⟨saved, hemits, hin⟩ := emits_of_emitted hschema h ho hget hmem
        rw [← hplace.1]
        exact hemits.flag hschema hplace.2 hin hdash
    · simp at hmem
  · intro words hmem word hword
    obtain ⟨slot, hslot, rfl⟩ := List.mem_map.mp hmem
    obtain ⟨option, ho, hscope, hposition, -, hget⟩ := mem_slotsAt.mp hslot
    obtain ⟨saved, hemits, hin⟩ := emits_of_emitted hschema h ho hget hword
    rw [← hscope]
    exact hemits.slot hschema (by simp [hposition]) hin
  · intro hdash
    have hlast := hdelimits hdash
    simp only [delimits, Bool.and_eq_true] at hlast
    exact hlast.1

theorem mem_placed {plan : OrderedPlan} (h : Resolves serde schema selected (groupPlan plan))
    {p : Placed} (hp : p ∈ plan.filterMap (schema.placed serde)) :
    ∃ option saved, Emits serde schema (groupPlan plan) option saved ∧
      option.scope <+: selected ∧ p = ⟨option.scope.length, option.position,
        option.wordsOf serde saved⟩ ∧
      ∃ words, (schema.emitted serde selected (groupPlan plan)).get option.key = some words ∧
        ∀ word ∈ option.wordsOf serde saved, word ∈ words := by
  obtain ⟨occurrence, hocc, hplaced⟩ := List.mem_filterMap.mp hp
  obtain ⟨rows, hrows, hsaved⟩ := saved_mem_groupPlan hocc
  obtain ⟨option, words, hoption, -, -, hwords, hemitted⟩ := h.option hrows
  have hkey := (option_eq_some hoption).2
  by_cases hrequest : option.target = .request
  · simp [placed, hoption, hrequest] at hplaced
  · have hlaunch : option.target = .launch := by
      cases hkind : option.target <;> simp_all
    obtain ⟨hemits, hscope⟩ := h.emits hrows hsaved hoption hlaunch
    simp only [placed, hoption, Option.bind_some, if_neg hrequest, Option.some.injEq] at hplaced
    refine ⟨option, occurrence.saved, hemits, hscope, hplaced.symm, words, ?_, ?_⟩
    · rw [hkey, hemitted, if_pos hlaunch]
    · intro word hword
      rw [(OptionDefinition.resolveRows_split hwords).2]
      exact List.mem_flatMap.mpr ⟨occurrence.saved, hsaved, hword⟩

theorem mem_slotWordsAt {pieces : List Placed} {depth : Nat} {words : List Text} :
    words ∈ slotWordsAt pieces depth ↔
      ∃ p ∈ pieces, p.depth = depth ∧ p.position.isSome ∧ p.words = words := by
  rw [slotWordsAt, List.mem_map]
  constructor
  · intro h
    obtain ⟨entry, hentry, rfl⟩ := h
    obtain ⟨p, hp, hsome⟩ := List.mem_filterMap.mp ((List.mem_insertionSort _).mp hentry)
    split at hsome
    · rename_i hdepth
      obtain ⟨position, hposition, rfl⟩ := Option.map_eq_some_iff.mp hsome
      exact ⟨p, hp, hdepth, by simp [hposition], rfl⟩
    · cases hsome
  · intro h
    obtain ⟨p, hp, hdepth, hposition, rfl⟩ := h
    obtain ⟨position, hposition⟩ := Option.isSome_iff_exists.mp hposition
    refine ⟨(position, p.words), (List.mem_insertionSort _).mpr ?_, rfl⟩
    exact List.mem_filterMap.mpr ⟨p, hp, by simp [hdepth, hposition]⟩

/-- Every depth of a re-emitted plan is guarded: a dash among its positionals is
one that the grouped checks have seen. -/
theorem planWordsAt_guarded (hserde : PrintsFloats serde) (hschema : schema.WellFormed)
    {plan : OrderedPlan} (h : Resolves serde schema selected (groupPlan plan)) {depth : Nat}
    (hdepth : depth ≤ selected.length) :
    ∃ front tail, Guarded serde schema (selected.take depth) (depth = selected.length)
      (givesRows (groupPlan plan))
      (planWordsAt (plan.filterMap (schema.placed serde)) depth) front tail := by
  refine guarded_of_parts hserde hschema ?_ ?_ ?_
  · intro word hword hdash
    obtain ⟨p, hp, hmem⟩ := List.mem_flatMap.mp hword
    obtain ⟨option, saved, hemits, hscope, rfl, -⟩ := mem_placed h hp
    split at hmem
    · rename_i hplace
      rw [← (scope_eq_take_iff hscope hdepth).mpr hplace.1]
      exact hemits.flag hschema hplace.2 hmem hdash
    · simp at hmem
  · intro words hmem word hword
    obtain ⟨p, hp, hlength, hposition, rfl⟩ := mem_slotWordsAt.mp hmem
    obtain ⟨option, saved, hemits, hscope, rfl, -⟩ := mem_placed h hp
    rw [← (scope_eq_take_iff hscope hdepth).mpr hlength]
    exact hemits.slot hschema hposition hword
  · intro hdash
    obtain ⟨words, hwords, hany⟩ := List.any_eq_true.mp hdash
    obtain ⟨word, hword, hstart⟩ := List.any_eq_true.mp hany
    obtain ⟨p, hp, hlength, hposition, rfl⟩ := mem_slotWordsAt.mp hwords
    obtain ⟨option, saved, hemits, hscope, rfl, all, hget, hall⟩ := mem_placed h hp
    obtain ⟨position, hposition⟩ := Option.isSome_iff_exists.mp hposition
    have hslot : (⟨position, option.key, all⟩ : Slot) ∈
        schema.slotsAt selected (schema.emitted serde selected (groupPlan plan)) depth :=
      mem_slotsAt.mpr ⟨option, hemits.mem, (scope_eq_take_iff hscope hdepth).mpr hlength,
        hposition, rfl, hget⟩
    have hgrouped : hasDash ((schema.slotsAt selected
        (schema.emitted serde selected (groupPlan plan)) depth).map (·.words)) = true :=
      List.any_eq_true.mpr ⟨all, List.mem_map.mpr ⟨_, hslot, rfl⟩,
        List.any_eq_true.mpr ⟨word, hall word hword, hstart⟩⟩
    have hlast := delimits_of_dash (h.depth depth hdepth) hgrouped
    simp only [delimits, Bool.and_eq_true] at hlast
    exact hlast.1

end OptionSchema

theorem Guarded.mono {serde : Serde} {schema : OptionSchema} {scope : List Text} {last : Bool}
    {given given' : Given} {words front tail : List Text}
    (hgiven : ∀ key row, given key row → given' key row)
    (h : Guarded serde schema scope last given words front tail) :
    Guarded serde schema scope last given' words front tail where
  split := h.split
  delimiter := h.delimiter
  dash := by
    intro word hword hdash
    obtain ⟨key, row, value, hrow, hnumber⟩ | ⟨⟨option, ho, hfree, hscope, ⟨row, hrow⟩, hs⟩,
      hunmanaged⟩ := h.dash word hword hdash
    · exact .inl ⟨key, row, value, hgiven _ _ hrow, hnumber⟩
    · exact .inr ⟨⟨option, ho, hfree, hscope, ⟨row, hgiven _ _ hrow⟩, hs⟩, hunmanaged⟩
  behind := by
    obtain hnil | ⟨hlast, values, htail, hvalues⟩ := h.behind
    · exact .inl hnil
    · refine .inr ⟨hlast, values, htail, fun value hvalue => ?_⟩
      obtain ⟨option, ho, hfree, hscope, hposition, row, hrow, hword⟩ := hvalues value hvalue
      exact ⟨option, ho, hfree, hscope, hposition, row, hgiven _ _ hrow, hword⟩

theorem NoInjection.mono {serde : Serde} {schema : OptionSchema} {selected : List Text}
    {given given' : Given} {r : ResolvedOptions}
    (hgiven : ∀ key row, given key row → given' key row)
    (h : NoInjection serde schema selected given r) :
    NoInjection serde schema selected given' r := by
  obtain ⟨hscope, pairs, first, hargv, hpairs, hsections, hall⟩ := h
  refine ⟨hscope, pairs, first, hargv, hpairs, hsections, fun depth words hwords => ?_⟩
  obtain ⟨front, tail, hguarded⟩ := hall depth words hwords
  exact ⟨front, tail, hguarded.mono hgiven⟩

theorem noInjection_of_layOut {serde : Serde} {schema : OptionSchema} {selected : List Text}
    {given : Given} {r : ResolvedOptions} (hscope : validScope selected)
    {words : Nat → List Text} (hargv : r.argv = (layOut selected words).argv)
    (hboundaries : r.scopeBoundaries = (layOut selected words).scopeBoundaries)
    (hguarded : ∀ depth ≤ selected.length, ∃ front tail,
      Guarded serde schema (selected.take depth) (depth = selected.length) given (words depth)
        front tail) : NoInjection serde schema selected given r := by
  have hpairs : words 0 :: (scopePairs words 0 selected).map (·.2) =
      (List.range (selected.length + 1)).map words := by
    rw [map_snd_scopePairs, List.range_eq_range', List.range'_succ]
    rfl
  refine ⟨?_, scopePairs words 0 selected, words 0, ?_, map_fst_scopePairs words selected 0, ?_, ?_⟩
  · intro word hword hdash
    simp only [validScope, Bool.and_eq_true] at hscope
    have hplain := List.all_eq_true.mp hscope.2 word hword
    simp [hdash] at hplain
  · rw [hargv, layOut_eq]
  · rw [hpairs]
    exact sections_layOut hargv hboundaries
  · intro depth section' hsection
    rw [hpairs, List.getElem?_map] at hsection
    obtain ⟨d, hd, rfl⟩ := Option.map_eq_some_iff.mp hsection
    obtain ⟨hlt, rfl⟩ := List.getElem?_eq_some_iff.mp hd
    rw [List.length_range] at hlt
    rw [List.getElem_range]
    exact hguarded depth (by omega)

theorem gives_of_groupPlan {plan : OrderedPlan} {key : Text} {row : List Json}
    (h : givesRows (groupPlan plan) key row) : OrderedPlan.gives plan key row := by
  obtain ⟨saved, hsaved, occurrence, hocc, rfl⟩ := h
  rw [groupPlan, KeyMap.get_group] at hsaved
  split at hsaved
  · cases hsaved
  · cases hsaved
    obtain ⟨e, he, heq⟩ := List.mem_filterMap.mp hocc
    obtain ⟨planned, hplanned, rfl⟩ := List.mem_map.mp he
    split at heq
    · rename_i hkey
      cases heq
      exact ⟨planned, hplanned, hkey, rfl⟩
    · cases heq

theorem gives_of_overrides {overrides : Overrides} {key : Text} {row : List Json}
    (h : givesRows (overrides.map Override.rows) key row) : overrides.gives key row := by
  obtain ⟨saved, hsaved, occurrence, hocc, rfl⟩ := h
  rw [KeyMap.get_map] at hsaved
  obtain ⟨value, hvalue, rfl⟩ := Option.map_eq_some_iff.mp hsaved
  obtain ⟨row, hrow, rfl⟩ := List.mem_map.mp hocc
  exact ⟨value, hvalue, hrow⟩

theorem recordedPlan_gives {grouped : Overrides} {seen : List Text} {entries : List OrderEntry}
    (hcount : ∀ entry ∈ entries, ∃ value, grouped.get entry.key = some value ∧
      seen.count entry.key + (entries.map (·.key)).count entry.key ≤ value.occurrences.length)
    {occurrence : PlannedOccurrence} (h : occurrence ∈ recordedPlan grouped seen entries) :
    grouped.gives occurrence.key occurrence.values := by
  induction entries generalizing seen with
  | nil => simp [recordedPlan] at h
  | cons entry entries ih =>
    rw [recordedPlan] at h
    rcases List.mem_cons.mp h with rfl | h
    · obtain ⟨value, hvalue, hle⟩ := hcount entry List.mem_cons_self
      have hlt : seen.count entry.key < value.occurrences.length := by
        rw [List.map_cons, List.count_cons_self] at hle
        omega
      refine ⟨value, hvalue, ?_⟩
      simp [hvalue, List.getElem?_eq_getElem hlt]
    · refine ih (fun e he => ?_) h
      obtain ⟨value, hvalue, hle⟩ := hcount e (List.mem_cons_of_mem _ he)
      refine ⟨value, hvalue, ?_⟩
      rw [List.map_cons, List.count_cons] at hle
      rw [List.count_cons]
      omega

theorem savedPlan_gives {schema : OptionSchema} {grouped : Overrides} {order : SavedOrder}
    (hcounted : Counted grouped order) {key : Text} {row : List Json}
    (h : OrderedPlan.gives (savedPlanFromGrouped schema grouped order) key row) :
    grouped.gives key row := by
  have hrows : ∀ (k : Text) (value : Override), grouped.get k = some value →
      ∀ o ∈ plannedRows k value, grouped.gives o.key o.values := by
    intro k value hvalue o ho
    obtain ⟨row, hrow, rfl⟩ := List.mem_map.mp ho
    exact ⟨value, hvalue, hrow⟩
  obtain ⟨occurrence, hocc, rfl, rfl⟩ := h
  rw [savedPlanFromGrouped, List.mem_append, List.mem_append] at hocc
  obtain (hocc | hocc) | hocc := hocc
  · obtain ⟨option, -, hmem⟩ := List.mem_flatMap.mp hocc
    split at hmem
    · rename_i value hvalue
      split at hmem
      · exact hrows option.key value hvalue occurrence hmem
      · simp at hmem
    · simp at hmem
  · obtain ⟨e, he, hmem⟩ := List.mem_flatMap.mp hocc
    split at hmem
    · exact hrows e.1 e.2 (KeyMap.get_eq_some.mpr he) occurrence hmem
    · simp at hmem
  · refine recordedPlan_gives (fun entry hentry => ?_) hocc
    obtain ⟨value, hvalue, hlength⟩ := hcounted.entry hentry
    exact ⟨value, hvalue, by rw [hlength]; simp⟩

theorem noInjection_resolve {serde : Serde} (hserde : PrintsFloats serde) {schema : OptionSchema}
    {selected : List Text} {overrides : Overrides} {r : ResolvedOptions}
    (h : schema.resolve serde selected overrides = .ok r) :
    NoInjection serde schema selected overrides.gives r := by
  obtain ⟨_, hvalid, hresolved⟩ := bind_eq_ok.mp h
  have hschema := OptionSchema.wellFormed_of_validated hvalid
  obtain ⟨hresolves, hargv, hboundaries⟩ := OptionSchema.resolveValidated_eq_ok hresolved
  refine NoInjection.mono (fun key row => gives_of_overrides) ?_
  exact noInjection_of_layOut hresolves.scope hargv hboundaries fun depth hdepth =>
    OptionSchema.depthWords_guarded hserde hschema hresolves hdepth

theorem noInjection_resolvePlan {serde : Serde} (hserde : PrintsFloats serde)
    {schema : OptionSchema} {selected : List Text} {plan : OrderedPlan} {r : ResolvedOptions}
    (h : schema.resolvePlan serde selected plan = .ok r) :
    NoInjection serde schema selected plan.gives r := by
  rw [OptionSchema.resolvePlan_eq] at h
  simp only [bind_eq_ok, require_eq_ok, pure, Except.pure, Except.ok.injEq] at h
  obtain ⟨_, hvalid, -, -, resolved, hresolved, rfl⟩ := h
  have hschema := OptionSchema.wellFormed_of_validated hvalid
  obtain ⟨hresolves, -, -⟩ := OptionSchema.resolveValidated_eq_ok hresolved
  refine NoInjection.mono (fun key row => gives_of_groupPlan) ?_
  exact noInjection_of_layOut hresolves.scope rfl rfl fun depth hdepth =>
    OptionSchema.planWordsAt_guarded hserde hschema hresolves hdepth

/-- Whatever text is saved, a word before the delimiter begins with a dash only
as a flag of an unmanaged option the values set, in its own scope, or as a
number; and there is no other delimiter before the one in the last section. -/
theorem no_argument_injection (serde : Serde) (hserde : PrintsFloats serde)
    (schema : OptionSchema) (selected : List Text) :
    (∀ overrides r, schema.resolve serde selected overrides = .ok r →
      NoInjection serde schema selected (Overrides.gives overrides) r) ∧
    (∀ plan r, schema.resolvePlan serde selected plan = .ok r →
      NoInjection serde schema selected (OrderedPlan.gives plan) r) ∧
    ∀ values r, schema.resolveSaved serde selected values = .ok r →
      NoInjection serde schema selected (overridesFromMap values).gives r := by
  refine ⟨fun overrides r h => noInjection_resolve hserde h,
    fun plan r h => noInjection_resolvePlan hserde h, fun values r h => ?_⟩
  unfold OptionSchema.resolveSaved at h
  split at h
  · cases h
  · exact noInjection_resolve hserde h
  · rename_i order grouped hchecked
    obtain ⟨rfl, -, -, hcounted⟩ := checkedSavedOrder_eq_some hchecked
    split at h
    · cases h
    · refine NoInjection.mono (fun key row => ?_) (noInjection_resolvePlan hserde h)
      exact savedPlan_gives hcounted

/-- A model flag of the app beside a text option and a positional. -/
def slashSchema : OptionSchema :=
  .ofOptions [{ OptionDefinition.ofFlag "model" "/model" 1 with managed := some .model },
    .ofFlag "name" "--name" 1,
    { key := "prompt".toList, position := some 0, kind := .confirmed .text
      arity := .confirmed ⟨1, some 1⟩, target := .launch }]

def slashName : Overrides where
  entries := [("name".toList, ⟨none, [[.text "/model"]]⟩)]
  sorted := by decide

def dashPrompt : Overrides where
  entries := [("prompt".toList, ⟨none, [[.text "--"]]⟩)]
  sorted := by decide

theorem no_argument_injection_slash :
    ∃ r, slashSchema.resolve .plain [] slashName = .ok r ∧
      NoInjection .plain slashSchema [] slashName.gives r := by
  have hok : (slashSchema.resolve .plain [] slashName).isOk = true := by decide +kernel
  have hsafe := (no_argument_injection .plain (fun _ => by simp [Serde.plain]) slashSchema []).1 slashName
  cases hresolved : slashSchema.resolve .plain [] slashName with
  | error issues => simp [hresolved, Except.isOk, Except.toBool] at hok
  | ok r => exact ⟨r, rfl, hsafe r hresolved⟩

/-- A text may read like a managed flag that begins with a slash, and a
positional may read like the delimiter. -/
theorem managed_spelling_emitted :
    ((slashSchema.resolve .plain [] slashName).toOption.map (·.argv) =
        some (["--name", "/model"].map String.toList) ∧
      ∃ option ∈ slashSchema.options, option.scope = [] ∧ option.managed = some .model ∧
        ∃ spelling ∈ option.spellings, spelling.flag = "/model".toList) ∧
      (slashSchema.resolve .plain [] dashPrompt).toOption.map (·.argv) =
        some (["--", "--"].map String.toList) := by
  refine ⟨⟨by decide +kernel, ?_⟩, by decide +kernel⟩
  exact ⟨_, List.mem_cons_self, rfl, rfl, _, List.mem_cons_self, rfl⟩

end AioLM.Options
