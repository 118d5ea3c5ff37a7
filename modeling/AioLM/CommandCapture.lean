import AioLM.CommandImport

/-!
The capture of a launched command. The recognizer walks the raw words, values are
read from the sanitized ones, and a word that was masked shows in neither.
-/

set_option autoImplicit false

namespace AioLM.Options

open Fallible

inductive CapturedValue where
  | known (values : List Json)
  | redacted
  | invalid

structure CapturedOccurrence where
  key : Text
  spelling : Option Text
  order : Nat
  state : CapturedValue

/-- Some launch adapters write a vector of numbers with commas between them. -/
def capturedVector (serde : Serde) (text : Text) : Option Json :=
  if ',' ∉ text then none
  else do
    let numbers ← ((text.splitOn ',').take 65).mapM fun part =>
      (serde.parse part).filter fun value =>
        value.isNumber && value.asF64.any Float.isFinite && hasSafeIntegers value
    if numbers.length ≤ 64 then some (.array numbers) else none

def capturedValue (serde : Serde) (value : Json) : Option Json := do
  let text ← value.asStr
  match serde.parse text with
  | some value => if hasSafeIntegers value then some value else none
  | none => capturedVector serde text

def capturedValues (serde : Serde) (option : OptionDefinition) (values : List Json) :
    Option (List Json) :=
  if option.kind.supported ≠ some .json then importedValues serde option values
  else values.mapM (capturedValue serde)

/-- A word that was masked hides the whole occurrence. -/
def capturedState (serde : Serde) (raw sanitized : List Text) (occurrence : TokenOccurrence) :
    CapturedValue :=
  if occurrence.span.slice raw ≠ occurrence.span.slice sanitized then .redacted
  else if !occurrence.valid || occurrence.option.arity.supported.isNone ||
      occurrence.option.kind.supported.isNone then .invalid
  else
    let values :=
      match occurrence.boolean with
      | some value => some [.bool value]
      | none => capturedValues serde occurrence.option (occurrence.values sanitized)
    match values with
    | some values => .known values
    | none => .invalid

def capturedOf (serde : Serde) (raw sanitized : List Text) (entry : TokenOccurrence × Nat) :
    CapturedOccurrence :=
  ⟨entry.1.option.key, entry.1.spelling, entry.2, capturedState serde raw sanitized entry.1⟩

def capturePlanForEntry (windows : Bool) (serde : Serde) (schema : OptionSchema)
    (selected : List Text) (entry : Option CommandEntry) (raw sanitized : List Text) :
    Except Text (List CapturedOccurrence) := do
  require (raw.length = sanitized.length)
    "capture requires position-aligned sanitized command words".toList
  let tiles ← recognizeTokens windows serde schema selected entry true raw
  return (occurrencesOf tiles).zipIdx.map (capturedOf serde raw sanitized)

inductive Reaches (schema : OptionSchema) (selected : List Text) (entry : Option CommandEntry)
    (capture : Bool) (words : List Text) : Cursor → Cursor → Prop where
  | refl (cursor : Cursor) : Reaches schema selected entry capture words cursor cursor
  | step {cursor next final : Cursor} {word : Text} {rest : List Text} {token : Token}
      (hwords : words.drop cursor.index = word :: rest)
      (hstep : recognizeWord schema selected entry capture cursor word rest = .ok (token, next))
      (hlater : Reaches schema selected entry capture words next final) :
      Reaches schema selected entry capture words cursor final

theorem Reaches.index_le {schema : OptionSchema} {selected : List Text}
    {entry : Option CommandEntry} {capture : Bool} {words : List Text} {cursor final : Cursor}
    (h : Reaches schema selected entry capture words cursor final) :
    cursor.index ≤ final.index := by
  induction h with
  | refl => exact Nat.le_refl _
  | step hwords hstep _ ih => exact (recognizeWord_steps hwords hstep).forward.le.trans ih

def ScopeOrEntryWord (selected : List Text) (entry : Option CommandEntry) (word : Text) : Prop :=
  word ∈ selected ∨ ∃ e, entry = some e ∧ word ∈ e.prefixTokens

inductive Alike (selected : List Text) (entry : Option CommandEntry) : Text → Text → Prop where
  | same (word : Text) : Alike selected entry word word
  | value {word word' : Text} (h : startsWith '-' word = false)
      (h' : startsWith '-' word' = false) (hfree : ¬ ScopeOrEntryWord selected entry word)
      (hfree' : ¬ ScopeOrEntryWord selected entry word') : Alike selected entry word word'
  | inline {name value value' : Text} (hname : '=' ∉ name) (hdash : startsWith '-' name)
      (hfree : ¬ ScopeOrEntryWord selected entry (name ++ '=' :: value))
      (hfree' : ¬ ScopeOrEntryWord selected entry (name ++ '=' :: value')) :
      Alike selected entry (name ++ '=' :: value) (name ++ '=' :: value')

theorem splitInline_equals {name : Text} (h : '=' ∉ name) (value : Text) :
    splitInline (name ++ '=' :: value) = (name, some (name.length + 1)) := by
  rw [splitInline, Text.splitOnce_append h]

theorem startsWith_append {name : Text} (h : startsWith '-' name) (more : Text) :
    startsWith '-' (name ++ more) := by
  cases name with
  | nil => simp [startsWith] at h
  | cons c name => simpa [startsWith] using h

namespace Alike

variable {selected : List Text} {entry : Option CommandEntry} {word word' : Text}

theorem dash (h : Alike selected entry word word') : startsWith '-' word = startsWith '-' word' := by
  cases h with
  | same => rfl
  | value h h' => rw [h, h']
  | inline hname hdash => rw [startsWith_append hdash, startsWith_append hdash]

theorem dashes (h : Alike selected entry word word') :
    startsWithDashes word = startsWithDashes word' := by
  have hplain {t : Text} (ht : startsWith '-' t = false) : startsWithDashes t = false := by
    cases t with
    | nil => rfl
    | cons c t =>
      have hc : c ≠ '-' := by simpa [startsWith] using ht
      simp [startsWithDashes, List.isPrefixOf, Ne.symm hc]
  cases h with
  | same => rfl
  | value h h' => rw [hplain h, hplain h']
  | @inline name value value' hname hdash =>
    obtain _ | ⟨c, _ | ⟨d, name⟩⟩ := name
    · simp [startsWith] at hdash
    · simp [startsWithDashes, List.isPrefixOf]
    · simp [startsWithDashes, List.isPrefixOf]

theorem numeric (h : Alike selected entry word word') (hdash : startsWith '-' word)
    (capture : Bool) : numericWord capture word = numericWord capture word' := by
  cases h with
  | same => rfl
  | value h =>
    rw [h] at hdash
    cases hdash
  | inline => rw [numericWord, numericWord, scanDecimal_equals (by simp), scanDecimal_equals (by simp)]

theorem eq_iff (h : Alike selected entry word word') {t : Text}
    (ht : ScopeOrEntryWord selected entry t) : word = t ↔ word' = t := by
  cases h with
  | same => rfl
  | value _ _ hfree hfree' =>
    exact ⟨fun heq => absurd (heq ▸ ht) hfree, fun heq => absurd (heq ▸ ht) hfree'⟩
  | inline _ _ hfree hfree' =>
    exact ⟨fun heq => absurd (heq ▸ ht) hfree, fun heq => absurd (heq ▸ ht) hfree'⟩

end Alike

section

variable {schema : OptionSchema} {selected : List Text} {entry : Option CommandEntry}
  {capture : Bool} {word word' : Text} {rest rest' : List Text}

/-- Word by word alike. -/
abbrev AllAlike (selected : List Text) (entry : Option CommandEntry) :
    List Text → List Text → Prop := List.Forall₂ (Alike selected entry)

theorem head_alike (hrest : AllAlike selected entry rest rest') {p : Text → Bool}
    (hp : ∀ w w', Alike selected entry w w' → p w = p w') : rest.head?.any p = rest'.head?.any p := by
  cases hrest with
  | nil => rfl
  | cons hword => exact hp _ _ hword

theorem takeValues_alike (hrest : AllAlike selected entry rest rest') (arity : Arity)
    (max count : Nat) :
    takeValues capture arity max count rest = takeValues capture arity max count rest' := by
  induction hrest generalizing count with
  | nil => rfl
  | @cons w w' ws ws' hword hrest ih =>
    have hlook : (startsWith '-' w && !numericWord capture w) =
        (startsWith '-' w' && !numericWord capture w') := by
      rw [← hword.dash]
      cases hdash : startsWith '-' w with
      | false => rfl
      | true => rw [hword.numeric hdash capture]
    have hhead : ws.head?.any startsWithDashes = ws'.head?.any startsWithDashes :=
      head_alike hrest fun _ _ h => h.dashes
    rw [takeValues, takeValues, hword.dashes, hlook, hhead, ih]

theorem takeSlot_alike (hrest : AllAlike selected entry rest rest') (max : Option Nat)
    {scopeWord : Option Text} (hscope : ∀ t ∈ scopeWord, t ∈ selected) (taken : Nat) :
    takeSlot max scopeWord taken rest = takeSlot max scopeWord taken rest' := by
  induction hrest generalizing taken with
  | nil => rfl
  | @cons w w' ws ws' hword hrest ih =>
    have hstop : (scopeWord == some w) = (scopeWord == some w') := by
      cases scopeWord with
      | none => rfl
      | some t =>
        have heq := hword.eq_iff (.inl (hscope t rfl))
        rw [eq_comm, @eq_comm _ w'] at heq
        simpa using heq
    rw [takeSlot, takeSlot, hword.dash, hstop, ih]

theorem segment_subset {e : CommandEntry} {segment : List Text} (h : segment ∈ e.segments) :
    ∀ t ∈ segment, t ∈ e.prefixTokens := by
  have hfrom (start : Nat) (subcommands : List Nat) (segment : List Text)
      (h : segment ∈ CommandEntry.segmentsFrom e.prefixTokens start subcommands) :
      ∀ t ∈ segment, t ∈ e.prefixTokens := by
    induction subcommands generalizing start with
    | nil =>
      obtain rfl : segment = e.prefixTokens.drop start := by
        simpa [CommandEntry.segmentsFrom] using h
      exact fun t ht => List.mem_of_mem_drop ht
    | cons index subcommands ih =>
      rw [CommandEntry.segmentsFrom, List.mem_cons] at h
      rcases h with rfl | hlater
      · exact fun t ht => List.mem_of_mem_take (List.mem_of_mem_drop ht)
      · exact ih (index + 1) hlater
  exact hfrom 0 _ segment h

theorem isPrefixOf_alike (hrest : AllAlike selected entry rest rest') {tokens : List Text}
    (htokens : ∀ t ∈ tokens, ScopeOrEntryWord selected entry t) :
    tokens.isPrefixOf rest = tokens.isPrefixOf rest' := by
  induction hrest generalizing tokens with
  | nil => rfl
  | @cons w w' ws ws' hword hrest ih =>
    obtain _ | ⟨t, tokens⟩ := tokens
    · rfl
    obtain ⟨ht, htokens⟩ := List.forall_mem_cons.mp htokens
    have heq := hword.eq_iff ht
    rw [eq_comm, @eq_comm _ w'] at heq
    rw [List.isPrefixOf, List.isPrefixOf, ih htokens]
    congr 1
    simpa using heq

theorem agreeing_alike (hrest : AllAlike selected entry rest rest') {tokens : List Text}
    (htokens : ∀ t ∈ tokens, ScopeOrEntryWord selected entry t) :
    agreeing tokens rest = agreeing tokens rest' := by
  induction hrest generalizing tokens with
  | nil => rfl
  | @cons w w' ws ws' hword hrest ih =>
    obtain _ | ⟨t, tokens⟩ := tokens
    · rfl
    obtain ⟨ht, htokens⟩ := List.forall_mem_cons.mp htokens
    have heq := hword.eq_iff ht
    rw [eq_comm, @eq_comm _ w'] at heq
    simp only [agreeing, heq, ih htokens]

theorem skipSegment_alike (hrest : AllAlike selected entry rest rest') (scopeCursor : Nat) :
    skipSegment entry scopeCursor rest = skipSegment entry scopeCursor rest' := by
  unfold skipSegment
  cases hsegment : entry.bind fun e => e.segments[scopeCursor]? with
  | none => rfl
  | some segment =>
    obtain ⟨e, rfl, hget⟩ := Option.bind_eq_some_iff.mp hsegment
    have hmem : segment ∈ e.segments := List.mem_of_getElem? hget
    simp only [isPrefixOf_alike hrest fun t ht => .inr ⟨e, rfl, segment_subset hmem t ht⟩]

theorem recognizeManaged_alike (hrest : AllAlike selected entry rest rest') (cursor : Cursor)
    (option : OptionDefinition) (name : Text) (inline : Option Nat) :
    recognizeManaged cursor option name inline rest =
      recognizeManaged cursor option name inline rest' := by
  unfold recognizeManaged
  rw [hrest.length_eq]

theorem recognizeUnknown_alike (hrest : AllAlike selected entry rest rest') (cursor : Cursor)
    (inline : Option Nat) :
    recognizeUnknown cursor inline rest = recognizeUnknown cursor inline rest' := by
  unfold recognizeUnknown
  rw [head_alike hrest fun _ _ h => congrArg not h.dashes]

theorem recognizeOption_alike (hrest : AllAlike selected entry rest rest') (cursor : Cursor)
    (option : OptionDefinition) (name : Text) (inline : Option Nat) :
    recognizeOption capture cursor option name inline rest =
      recognizeOption capture cursor option name inline rest' := by
  have hhead := head_alike hrest fun _ _ h => congrArg not h.dash
  simp only [recognizeOption, takeValues_alike hrest, hhead]

theorem recognizeFlag_alike (hrest : AllAlike selected entry rest rest') (cursor : Cursor)
    (hsplit : splitInline word = splitInline word') :
    recognizeFlag schema selected capture cursor word rest =
      recognizeFlag schema selected capture cursor word' rest' := by
  simp only [recognizeFlag, hsplit, recognizeManaged_alike hrest, recognizeUnknown_alike hrest,
    recognizeOption_alike hrest]

theorem recognizePositional_alike (hrest : AllAlike selected entry rest rest') (cursor : Cursor)
    (word : Text) :
    recognizePositional selected entry capture cursor word rest =
      recognizePositional selected entry capture cursor word rest' := by
  have hslot (cursor : Cursor) : recognizeSlot selected entry capture cursor rest =
      recognizeSlot selected entry capture cursor rest' := by
    have htake (max : Option Nat) :
        takeSlot max selected[cursor.scopeCursor]? 1 rest =
          takeSlot max selected[cursor.scopeCursor]? 1 rest' :=
      takeSlot_alike hrest max (fun t ht => List.mem_of_getElem? ht) 1
    simp only [recognizeSlot, htake]
  simp only [recognizePositional, hslot]

theorem recognizeWord_alike (hrest : AllAlike selected entry rest rest')
    (hword : Alike selected entry word word') (hplain : word = word' ∨ startsWith '-' word)
    (cursor : Cursor) :
    recognizeWord schema selected entry capture cursor word rest =
      recognizeWord schema selected entry capture cursor word' rest' := by
  cases hword with
  | same =>
    simp only [recognizeWord, skipSegment_alike hrest, recognizeFlag_alike hrest cursor rfl,
      recognizePositional_alike hrest]
  | value h =>
    rcases hplain with rfl | hdash
    · simp only [recognizeWord, skipSegment_alike hrest, recognizeFlag_alike hrest cursor rfl,
        recognizePositional_alike hrest]
    · rw [h] at hdash
      cases hdash
  | @inline name value value' hname hdash hfree hfree' =>
    have hflag (value : Text) (rest : List Text)
        (hfree : ¬ ScopeOrEntryWord selected entry (name ++ '=' :: value)) :
        recognizeWord schema selected entry capture cursor (name ++ '=' :: value) rest =
          recognizeFlag schema selected capture cursor (name ++ '=' :: value) rest := by
      have hmem : '=' ∈ name ++ '=' :: value := by simp
      have hscope : selected[cursor.scopeCursor]? ≠ some (name ++ '=' :: value) :=
        fun hget => hfree (.inl (List.mem_of_getElem? hget))
      have hseparator : name ++ '=' :: value ≠ "--".toList := by
        intro heq
        rw [heq] at hmem
        revert hmem
        decide
      have hlength : 1 < (name ++ '=' :: value).length := by
        cases name with
        | nil => simp [startsWith] at hdash
        | cons c name =>
          rw [List.length_append, List.length_cons, List.length_cons]
          omega
      have hnumeric : numericWord capture (name ++ '=' :: value) = false := by
        rw [numericWord, scanDecimal_equals hmem, Option.any_none]
      rw [recognizeWord, if_neg hscope, if_neg hseparator,
        if_pos (.inr ⟨startsWith_append hdash _, hlength, by rw [hnumeric]; rfl⟩)]
    rw [hflag value rest hfree, hflag value' rest' hfree']
    exact recognizeFlag_alike hrest cursor
      ((splitInline_equals hname value).trans (splitInline_equals hname value').symm)

end

def FlagOccurs (schema : OptionSchema) (selected : List Text) (entry : Option CommandEntry)
    (capture : Bool) (words : List Text) (start : Cursor) (o : TokenOccurrence) : Prop :=
  ∃ cursor next word rest, Reaches schema selected entry capture words start cursor ∧
    words.drop cursor.index = word :: rest ∧ o.spelling.isSome ∧
    recognizeWord schema selected entry capture cursor word rest = .ok (.occurrence o, next)

/-- Two words at a value position of the occurrence: two values, or the flag with two
inline values. -/
inductive ValuesAt (o : TokenOccurrence) (i : Nat) (word word' : Text) : Prop where
  | separate (hinline : o.inline = none) (hstart : o.valueStart ≤ i) (hstop : i < o.span.stop)
      (h : startsWith '-' word = false) (h' : startsWith '-' word' = false)
  | inline (offset : Nat) (hinline : o.inline = some offset) (hstart : i = o.span.start)
      (h : word.take offset = word'.take offset)

section

variable {schema : OptionSchema} {selected : List Text} {entry : Option CommandEntry}
  {capture : Bool} {words : List Text} {cursor next : Cursor} {word : Text} {rest : List Text}
  {o : TokenOccurrence}

theorem recognizeOption_flag {option : OptionDefinition} {name : Text} {inline : Option Nat}
    (h : recognizeOption capture cursor option name inline rest = (.occurrence o, next)) :
    o.inline = inline ∧ o.valueStart = cursor.index + 1 := by
  unfold recognizeOption at h
  simp only [Cursor.occurs] at h
  split at h
  · cases h
    exact ⟨rfl, rfl⟩
  · split at h
    · cases h
      exact ⟨rfl, rfl⟩
    · split at h
      · cases h
        exact ⟨rfl, rfl⟩
      · split at h
        · cases h
          exact ⟨rfl, rfl⟩
        · cases h
          exact ⟨rfl, rfl⟩

theorem recognizeFlag_flag
    (h : recognizeFlag schema selected capture cursor word rest = .ok (.occurrence o, next)) :
    o.inline = (splitInline word).2 ∧ o.valueStart = cursor.index + 1 := by
  simp only [recognizeFlag] at h
  split at h
  · unfold recognizeManaged at h
    split at h
    · cases h
    · split at h
      · cases h
      · simp only [bind_eq_ok, pure, Except.pure, Except.ok.injEq] at h
        obtain ⟨-, -, h⟩ := h
        cases h
  · split at h
    · cases h
    · split at h
      · exact recognizeOption_flag (Except.ok.inj h)
      · cases h

theorem recognizePositional_flag
    (h : recognizePositional selected entry capture cursor word rest = (.occurrence o, next)) :
    o.spelling = none := by
  have hslot (cursor : Cursor)
      (h : recognizeSlot selected entry capture cursor rest = (.occurrence o, next)) :
      o.spelling = none := by
    simp only [recognizeSlot, Cursor.occurs] at h
    split at h
    · cases h
    · split at h
      · cases h
      · split at h <;> cases h <;> rfl
  unfold recognizePositional at h
  split at h
  · exact hslot cursor h
  · split at h
    · cases h
    · exact hslot _ h

theorem recognizeWord_flag
    (h : recognizeWord schema selected entry capture cursor word rest =
      .ok (.occurrence o, next)) (hspelling : o.spelling.isSome) :
    startsWith '-' word ∧ o.inline = (splitInline word).2 ∧ o.valueStart = cursor.index + 1 := by
  unfold recognizeWord at h
  simp only at h
  split at h
  · cases h
  · split at h
    · split at h <;> cases h
    · split at h
      case isTrue hflag =>
        refine ⟨hflag.elim (fun hdashes => ?_) (·.1), recognizeFlag_flag h⟩
        obtain ⟨rest, rfl⟩ := List.isPrefixOf_iff_prefix.mp hdashes
        rfl
      case isFalse =>
        split at h
        · cases h
        · rw [recognizePositional_flag (Except.ok.inj h)] at hspelling
          cases hspelling

theorem valuesAt_bounds {i : Nat} {w w' : Text}
    (hwords : words.drop cursor.index = word :: rest)
    (hstep : recognizeWord schema selected entry capture cursor word rest =
      .ok (.occurrence o, next)) (hspelling : o.spelling.isSome) (h : ValuesAt o i w w') :
    cursor.index ≤ i ∧ i < next.index ∧ (o.inline = none → cursor.index < i) := by
  obtain ⟨hspan, -⟩ := (recognizeWord_steps hwords hstep).justified
  have hforward := (recognizeWord_steps hwords hstep).forward
  obtain ⟨-, -, hstart⟩ := recognizeWord_flag hstep hspelling
  cases h with
  | separate hinline hvalue hstop =>
    rw [hspan] at hstop
    exact ⟨by omega, hstop, fun _ => by omega⟩
  | inline offset hinline hi =>
    rw [hspan] at hi
    exact ⟨hi.ge, hi ▸ hforward, fun hnone => by rw [hinline] at hnone; cases hnone⟩

end

section

variable {schema : OptionSchema} {selected : List Text} {entry : Option CommandEntry}
  {capture : Bool} {raw raw' : List Text}

theorem recognizeFrom_alike (halike : AllAlike selected entry raw raw') {cursor : Cursor}
    (hvalues : ∀ i word word', cursor.index ≤ i → raw[i]? = some word → raw'[i]? = some word' →
      word ≠ word' → ∃ o, FlagOccurs schema selected entry capture raw cursor o ∧
        ValuesAt o i word word') :
    recognizeFrom schema selected entry capture raw cursor =
      recognizeFrom schema selected entry capture raw' cursor := by
  induction hn : raw.length - cursor.index using Nat.strongRecOn generalizing cursor with
  | ind n ih =>
  have hdrop := List.forall₂_drop cursor.index halike
  cases hwords : raw.drop cursor.index with
  | nil =>
    rw [hwords] at hdrop
    have hwords' := List.forall₂_nil_left_iff.mp hdrop
    rw [recognizeFrom_nil hwords, recognizeFrom_nil hwords']
  | cons word rest =>
    rw [hwords] at hdrop
    obtain ⟨word', rest', hword, hrest, hwords'⟩ := List.forall₂_cons_left_iff.mp hdrop
    have hget : raw[cursor.index]? = some word := by rw [← List.head?_drop, hwords, List.head?_cons]
    have hget' : raw'[cursor.index]? = some word' := by
      rw [← List.head?_drop, hwords', List.head?_cons]
    have hplain : word = word' ∨ startsWith '-' word := by
      rw [or_iff_not_imp_left]
      intro hne
      obtain ⟨o, ⟨final, next, w, ws, hreaches, hfinal, hspelling, hstep⟩, hat⟩ :=
        hvalues _ _ _ (Nat.le_refl _) hget hget' hne
      have hbounds := valuesAt_bounds hfinal hstep hspelling hat
      cases hreaches with
      | refl =>
        rw [hwords] at hfinal
        cases hfinal
        exact (recognizeWord_flag hstep hspelling).1
      | step hcons hfirst hlater =>
        have hforward := (recognizeWord_steps hcons hfirst).forward
        have hle := hlater.index_le
        simp only at hforward
        omega
    rw [recognizeFrom_cons hwords, recognizeFrom_cons hwords',
      ← recognizeWord_alike hrest hword hplain cursor]
    cases hstep : recognizeWord schema selected entry capture cursor word rest with
    | error message => rfl
    | ok result =>
      have hsteps := recognizeWord_steps hwords hstep
      have hforward := hsteps.forward
      have hinside := hsteps.inside
      have hmore : recognizeFrom schema selected entry capture raw result.2 =
          recognizeFrom schema selected entry capture raw' result.2 := by
        refine ih _ (by omega) ?_ rfl
        intro i w w' hi hw hw' hne
        obtain ⟨o, ⟨final, next, v, vs, hreaches, hfinal, hspelling, hlast⟩, hat⟩ :=
          hvalues i w w' (by omega) hw hw' hne
        refine ⟨o, ⟨final, next, v, vs, ?_, hfinal, hspelling, hlast⟩, hat⟩
        have hbounds := valuesAt_bounds hfinal hlast hspelling hat
        cases hreaches with
        | refl =>
          rw [hwords] at hfinal
          cases hfinal
          rw [hstep] at hlast
          cases hlast
          simp only at hi
          omega
        | step hcons hfirst hlater =>
          rw [hwords] at hcons
          cases hcons
          rw [hstep] at hfirst
          cases hfirst
          exact hlater
      simp only [bind, Except.bind, hmore]

end

/-- Two raw lists beside one sanitized list: they differ at the values of flags the walk
comes by, of whatever arity, where neither has the sanitized word, a scope word or an entry
word. -/
structure Masked (windows : Bool) (serde : Serde) (schema : OptionSchema) (selected : List Text)
    (entry : Option CommandEntry) (raw raw' sanitized : List Text) : Prop where
  length : raw'.length = raw.length
  aligned : raw.length = sanitized.length
  differ : ∀ i word word', raw[i]? = some word → raw'[i]? = some word' → word ≠ word' →
    (∃ start o, recognizeStart windows serde schema selected entry raw = .ok start ∧
      FlagOccurs schema selected entry true raw start o ∧ ValuesAt o i word word') ∧
    ¬ ScopeOrEntryWord selected entry word ∧ ¬ ScopeOrEntryWord selected entry word' ∧
    sanitized[i]? ≠ some word ∧ sanitized[i]? ≠ some word'

def SameProgramWord (windows : Bool) (entry : Option CommandEntry) (raw raw' : List Text) : Prop :=
  ∀ e ∈ entry, raw.head?.any (sameProgram windows · e.program) =
    raw'.head?.any (sameProgram windows · e.program)

section

variable {windows : Bool} {serde : Serde} {schema : OptionSchema} {selected : List Text}
  {entry : Option CommandEntry} {raw raw' sanitized : List Text}

theorem splitInline_eq_some {word name : Text} {offset : Nat}
    (h : splitInline word = (name, some offset)) : '=' ∉ name ∧ offset = name.length + 1 := by
  by_cases hmem : '=' ∈ word
  · obtain ⟨before, after, rfl, hbefore⟩ := List.eq_append_cons_of_mem hmem
    rw [splitInline_equals hbefore] at h
    cases h
    exact ⟨hbefore, rfl⟩
  · rw [splitInline, Text.splitOnce_eq_none hmem] at h
    cases h

theorem alike_of_valuesAt {start : Cursor} {o : TokenOccurrence} {i : Nat} {word word' : Text}
    (hoccurs : FlagOccurs schema selected entry true raw start o) (h : ValuesAt o i word word')
    (hget : raw[i]? = some word) (hfree : ¬ ScopeOrEntryWord selected entry word)
    (hfree' : ¬ ScopeOrEntryWord selected entry word') : Alike selected entry word word' := by
  obtain ⟨cursor, next, w, ws, -, hwords, hspelling, hstep⟩ := hoccurs
  obtain ⟨hspan, -⟩ := (recognizeWord_steps hwords hstep).justified
  obtain ⟨hdash, hinline, -⟩ := recognizeWord_flag hstep hspelling
  cases h with
  | separate _ _ _ h h' => exact .value h h' hfree hfree'
  | inline offset hoffset hi htake =>
    have hw : raw[cursor.index]? = some w := by rw [← List.head?_drop, hwords, List.head?_cons]
    have hat : i = cursor.index := by rw [hi, hspan]
    rw [hat, hw] at hget
    cases hget
    cases hsplit : splitInline word with
    | mk name inline =>
      rw [hoffset, hsplit] at hinline
      cases hinline
      obtain ⟨hname, rfl⟩ := splitInline_eq_some hsplit
      obtain hword := splitInline_some hsplit
      have hhead : word.take (name.length + 1) = name ++ ['='] := by
        rw [hword, List.take_append, List.take_of_length_le (by omega)]
        simp
      have hword' : word' = name ++ '=' :: word'.drop (name.length + 1) := by
        conv_lhs => rw [← List.take_append_drop (name.length + 1) word', ← htake, hhead]
        simp
      have hdash' : startsWith '-' name := by
        cases name with
        | nil => rw [hword] at hdash; simp [startsWith] at hdash
        | cons c name => rw [hword] at hdash; simpa [startsWith] using hdash
      rw [hword] at hfree ⊢
      rw [hword'] at hfree' ⊢
      exact .inline hname hdash' hfree hfree'

namespace Masked

variable (h : Masked windows serde schema selected entry raw raw' sanitized)

include h

theorem alike : AllAlike selected entry raw raw' := by
  refine List.forall₂_iff_get.mpr ⟨h.length.symm, ?_⟩
  intro i hi hi'
  rw [List.get_eq_getElem, List.get_eq_getElem]
  by_cases hne : raw[i] = raw'[i]
  · rw [hne]
    exact .same _
  · obtain ⟨⟨start, o, -, hoccurs, hat⟩, hfree, hfree', -⟩ :=
      h.differ i _ _ (List.getElem?_eq_getElem hi) (List.getElem?_eq_getElem hi') hne
    exact alike_of_valuesAt hoccurs hat (List.getElem?_eq_getElem hi) hfree hfree'

theorem getElem_ne {i : Nat} (hne : raw[i]? ≠ raw'[i]?) :
    ∃ word word', raw[i]? = some word ∧ raw'[i]? = some word' ∧ word ≠ word' := by
  by_cases hi : i < raw.length
  · have hi' : i < raw'.length := h.length ▸ hi
    refine ⟨raw[i], raw'[i], List.getElem?_eq_getElem hi, List.getElem?_eq_getElem hi', ?_⟩
    intro heq
    exact hne (by rw [List.getElem?_eq_getElem hi, List.getElem?_eq_getElem hi', heq])
  · have hi' : raw'.length ≤ i := h.length ▸ Nat.not_lt.mp hi
    exact absurd (by rw [List.getElem?_eq_none (Nat.not_lt.mp hi), List.getElem?_eq_none hi']) hne

theorem eq_of_error {message : Text}
    (hstart : recognizeStart windows serde schema selected entry raw = .error message) :
    raw = raw' := by
  refine List.ext_getElem? fun i => ?_
  by_contra hne
  obtain ⟨word, word', hget, hget', hdiffer⟩ := h.getElem_ne hne
  obtain ⟨⟨start, o, hok, -⟩, -⟩ := h.differ i word word' hget hget' hdiffer
  rw [hstart] at hok
  cases hok

/-- The first words differ only where a flag with an inline value stands there. -/
theorem head_ne (hne : raw.head? ≠ raw'.head?) :
    ∃ start word, recognizeStart windows serde schema selected entry raw = .ok start ∧
      start.index = 0 ∧ raw.head? = some word ∧ startsWith '-' word := by
  rw [List.head?_eq_getElem?, List.head?_eq_getElem?] at hne
  obtain ⟨word, word', hget, hget', hdiffer⟩ := h.getElem_ne hne
  obtain ⟨⟨start, o, hstart, ⟨cursor, next, w, ws, hreaches, hwords, hspelling, hstep⟩, hat⟩, -⟩ :=
    h.differ 0 word word' hget hget' hdiffer
  have hbounds := valuesAt_bounds hwords hstep hspelling hat
  have hle := hreaches.index_le
  have hzero : cursor.index = 0 := by omega
  rw [hzero, List.drop_zero] at hwords
  refine ⟨start, w, hstart, by omega, by rw [hwords, List.head?_cons], ?_⟩
  exact (recognizeWord_flag hstep hspelling).1

theorem startIndex_eq (hsame : SameProgramWord windows entry raw raw') :
    startIndex windows selected entry raw = startIndex windows selected entry raw' := by
  cases entry with
  | none =>
    have hlooks : looksLikeProgram selected raw = looksLikeProgram selected raw' := by
      by_cases hhead : raw.head? = raw'.head?
      · rw [looksLikeProgram, looksLikeProgram, hhead]
      · obtain ⟨-, word, -, -, hword, hdash⟩ := h.head_ne hhead
        have hfalse {words : List Text} (hdash : words.head?.any (startsWith '-' ·)) :
            looksLikeProgram selected words = false := by
          cases hw : words.head? with
          | none => rw [looksLikeProgram, hw]; rfl
          | some first =>
            rw [hw, Option.any_some] at hdash
            rw [looksLikeProgram, hw, Option.any_some, hdash]
            rfl
        have hfirst : raw.head?.any (startsWith '-' ·) := by rw [hword]; exact hdash
        rw [hfalse hfirst, hfalse (by rwa [← head_alike h.alike fun _ _ ha => ha.dash])]
    rw [startIndex, startIndex, hlooks]
  | some e =>
    have htokens : ∀ t ∈ e.head, ScopeOrEntryWord selected (some e) t := by
      have hhead : e.head ∈ e.segments := by
        unfold CommandEntry.head CommandEntry.segments
        cases e.layout.elim [] (·.subcommands) <;> simp [CommandEntry.segmentsFrom]
      exact fun t ht => .inr ⟨e, rfl, segment_subset hhead t ht⟩
    have hpre (after : Nat) : e.head.isPrefixOf (raw.drop after) =
        e.head.isPrefixOf (raw'.drop after) :=
      isPrefixOf_alike (List.forall₂_drop after h.alike) htokens
    have hagree (after : Nat) : agreeing e.head (raw.drop after) =
        agreeing e.head (raw'.drop after) :=
      agreeing_alike (List.forall₂_drop after h.alike) htokens
    simp only [startIndex, entryStart, hsame e rfl, hpre, hagree]

theorem recognizeTokens_eq (hsame : SameProgramWord windows entry raw raw') :
    recognizeTokens windows serde schema selected entry true raw =
      recognizeTokens windows serde schema selected entry true raw' := by
  cases hstart : recognizeStart windows serde schema selected entry raw with
  | error message => rw [h.eq_of_error hstart]
  | ok start =>
    have hstart' : recognizeStart windows serde schema selected entry raw' = .ok start := by
      rw [← hstart, recognizeStart, recognizeStart, h.startIndex_eq hsame]
    have hwalk : recognizeFrom schema selected entry true raw start =
        recognizeFrom schema selected entry true raw' start := by
      refine recognizeFrom_alike h.alike ?_
      intro i word word' _ hget hget' hne
      obtain ⟨⟨start', o, hok, hoccurs, hat⟩, -⟩ := h.differ i word word' hget hget' hne
      rw [hstart] at hok
      cases hok
      exact ⟨o, hoccurs, hat⟩
    rw [recognizeTokens, recognizeTokens, hstart, hstart']
    simp only [bind, Except.bind, hwalk]

theorem capturedState_redacted {o : TokenOccurrence} {i : Nat} (hspan : o.span.Contains i)
    (hne : raw[i]? ≠ raw'[i]?) : capturedState serde raw sanitized o = .redacted ∧
      capturedState serde raw' sanitized o = .redacted := by
  obtain ⟨word, word', hget, hget', hdiffer⟩ := h.getElem_ne hne
  obtain ⟨-, -, -, hmask, hmask'⟩ := h.differ i word word' hget hget' hdiffer
  have hhidden {words : List Text} {w : Text} (hw : words[i]? = some w)
      (hother : sanitized[i]? ≠ some w) : capturedState serde words sanitized o = .redacted := by
    rw [capturedState, if_pos]
    intro heq
    have hat := congrArg (·[i - o.span.start]?) heq
    simp only [Span.getElem?_slice hspan] at hat
    exact hother (hat.symm.trans hw)
  exact ⟨hhidden hget hmask, hhidden hget' hmask'⟩

theorem capturedState_eq (o : TokenOccurrence) :
    capturedState serde raw sanitized o = capturedState serde raw' sanitized o := by
  by_cases hdiffer : ∃ i, o.span.Contains i ∧ raw[i]? ≠ raw'[i]?
  · obtain ⟨i, hspan, hne⟩ := hdiffer
    obtain ⟨hleft, hright⟩ := h.capturedState_redacted hspan hne
    rw [hleft, hright]
  · have hslice : o.span.slice raw = o.span.slice raw' :=
      Span.slice_congr fun i hspan => by
        by_contra hne
        exact hdiffer ⟨i, hspan, hne⟩
    rw [capturedState, capturedState, hslice]

theorem recognizeTokens_ne (hother : ¬ SameProgramWord windows entry raw raw') {tiles : List Tile}
    (hok : recognizeTokens windows serde schema selected entry true raw = .ok tiles) :
    recognizeTokens windows serde schema selected entry true raw' ≠ .ok tiles := by
  simp only [SameProgramWord, not_forall] at hother
  obtain ⟨e, he, hnamed⟩ := hother
  cases he
  obtain ⟨start, word, hstart, hzero, hword, -⟩ := h.head_ne fun heq => hnamed (by rw [heq])
  intro hok'
  simp only [recognizeTokens, bind_eq_ok, pure, Except.pure, Except.ok.injEq] at hok hok'
  obtain ⟨cursor, hcursor, found, hfound, -, -, rfl⟩ := hok
  obtain ⟨cursor', hcursor', found', hfound', -, -, rfl⟩ := hok'
  rw [hstart] at hcursor
  cases hcursor
  have hindex {words : List Text} {c : Cursor}
      (hc : recognizeStart windows serde schema selected (some e) words = .ok c) :
      entryStart windows e words = .ok c.index := by
    simp only [recognizeStart, bind_eq_ok, pure, Except.pure, Except.ok.injEq] at hc
    obtain ⟨-, -, -, -, index, hindex, rfl⟩ := hc
    exact hindex
  have hpast {words : List Text} {c : Cursor} (hc : entryStart windows e words = .ok c.index)
      (hn : words.head?.any (sameProgram windows · e.program)) : 0 < c.index := by
    simp only [entryStart, hn, if_true] at hc
    split at hc
    · have := Except.ok.inj hc
      omega
    · cases hc
  have hunnamed : raw.head?.any (sameProgram windows · e.program) = false := by
    by_contra hn
    have hpos := hpast (hindex hstart) (by simpa using hn)
    omega
  have hnamed' : raw'.head?.any (sameProgram windows · e.program) := by
    rw [hunnamed] at hnamed
    simpa using Ne.symm hnamed
  have hpos := hpast (hindex hcursor') hnamed'
  have hle : start.index ≤ raw.length := by omega
  have hle' : cursor'.index ≤ raw'.length :=
    startIndex_le (show startIndex windows selected (some e) raw' = .ok cursor'.index from
      hindex hcursor')
  obtain ⟨htiles, -⟩ := recognizeFrom_spec hle hfound
  obtain ⟨htiles', -⟩ := recognizeFrom_spec hle' hfound'
  have hsome : 0 < raw.length := by
    cases raw with
    | nil => cases hword
    | cons first rest => simp
  cases hspans : found'.map (·.span) with
  | nil =>
    rw [hspans, hzero] at htiles
    exact absurd htiles hsome.ne
  | cons span spans =>
    rw [hspans] at htiles htiles'
    have hstarts := htiles.1.symm.trans htiles'.1
    omega

end Masked

end

/-- What a masked value was does not show in a capture: both lists give the same result, each
occurrence that a mask touches is hidden, and every occurrence of the command keeps its place.
This holds when the first words agree on naming the registered program; when they do not, one
walk starts at the first word and the other behind it. -/
theorem capture_hides_masked {windows : Bool} {serde : Serde} {schema : OptionSchema}
    {selected : List Text} {entry : Option CommandEntry} {raw raw' sanitized : List Text}
    (h : Masked windows serde schema selected entry raw raw' sanitized) :
    (SameProgramWord windows entry raw raw' →
      capturePlanForEntry windows serde schema selected entry raw sanitized =
        capturePlanForEntry windows serde schema selected entry raw' sanitized ∧
      ∀ captured : List CapturedOccurrence,
        capturePlanForEntry windows serde schema selected entry raw sanitized = .ok captured →
        ∃ tiles : List Tile,
        recognizeTokens windows serde schema selected entry true raw = .ok tiles ∧
        captured.length = (occurrencesOf tiles).length ∧
        ∀ (order : Nat) (o : TokenOccurrence), (occurrencesOf tiles)[order]? = some o →
          ∃ c : CapturedOccurrence, captured[order]? = some c ∧ c.key = o.option.key ∧
            c.spelling = o.spelling ∧ c.order = order ∧
            ((∃ i, o.span.Contains i ∧ raw[i]? ≠ raw'[i]?) → c.state = .redacted)) ∧
    (¬ SameProgramWord windows entry raw raw' → ∀ tiles,
      recognizeTokens windows serde schema selected entry true raw = .ok tiles →
      recognizeTokens windows serde schema selected entry true raw' ≠ .ok tiles) := by
  refine ⟨fun hsame => ⟨?_, ?_⟩, fun hother tiles hok => h.recognizeTokens_ne hother hok⟩
  · have hlength : raw'.length = sanitized.length := h.length.trans h.aligned
    have hof : capturedOf serde raw sanitized = capturedOf serde raw' sanitized := by
      funext entry
      rw [capturedOf, capturedOf, h.capturedState_eq]
    simp only [capturePlanForEntry, h.recognizeTokens_eq hsame, h.aligned, hlength, hof]
  · intro captured hcaptured
    simp only [capturePlanForEntry, bind_eq_ok, pure, Except.pure, Except.ok.injEq] at hcaptured
    obtain ⟨-, -, tiles, htiles, rfl⟩ := hcaptured
    refine ⟨tiles, htiles, by simp, ?_⟩
    intro order o ho
    refine ⟨capturedOf serde raw sanitized (o, order), ?_, rfl, rfl, rfl, ?_⟩
    · rw [List.getElem?_map, List.getElem?_zipIdx, ho]
      simp
    · rintro ⟨i, hspan, hne⟩
      exact (h.capturedState_redacted hspan hne).1

def maskedWords (value : String) : List Text := ["--tag".toList, value.toList]

def pythonEntry : CommandEntry :=
  { version := 1, program := "/opt/python".toList, prefixTokens := [] }

/-- A command that names the program by its file name. -/
def pythonWords (value : String) : List Text := "/usr/python".toList :: maskedWords value

theorem masked_tag : Masked false .plain taggedSchema [] (some pythonEntry) (pythonWords "a")
    (pythonWords "b") (pythonWords "[redacted]") := by
  refine ⟨rfl, rfl, ?_⟩
  intro i word word' hget hget' hne
  obtain _ | _ | _ | i := i
  · cases hget
    cases hget'
    exact absurd rfl hne
  · cases hget
    cases hget'
    exact absurd rfl hne
  · cases hget
    cases hget'
    refine ⟨⟨_, _, rfl, ⟨_, _, _, _, .refl _, rfl, ?_, rfl⟩, ?_⟩, ?_, ?_, by decide, by decide⟩
    · rfl
    · exact .separate rfl (by decide) (by decide) (by decide) (by decide)
    · rintro (hscope | ⟨e, he, hentry⟩)
      · cases hscope
      · cases he
        cases hentry
    · rintro (hscope | ⟨e, he, hentry⟩)
      · cases hscope
      · cases he
        cases hentry
  · cases hget

theorem capture_hides_masked_tag :
    SameProgramWord false (some pythonEntry) (pythonWords "a") (pythonWords "b") ∧
      capturePlanForEntry false .plain taggedSchema [] (some pythonEntry) (pythonWords "a")
          (pythonWords "[redacted]") =
        capturePlanForEntry false .plain taggedSchema [] (some pythonEntry) (pythonWords "b")
          (pythonWords "[redacted]") := by
  have hsame : SameProgramWord false (some pythonEntry) (pythonWords "a") (pythonWords "b") :=
    fun _ _ => rfl
  exact ⟨hsame, ((capture_hides_masked masked_tag).1 hsame).1⟩

def inlineWord (value : String) : List Text := ["--tag=".toList ++ value.toList]

/-- An inline value whose file name is the program's name is skipped as the program. -/
theorem program_named_value_shows :
    Masked false .plain taggedSchema [] (some pythonEntry) (inlineWord "v")
        (inlineWord "/usr/python") (inlineWord "[redacted]") ∧
      capturePlanForEntry false .plain taggedSchema [] (some pythonEntry) (inlineWord "v")
          (inlineWord "[redacted]") ≠
        capturePlanForEntry false .plain taggedSchema [] (some pythonEntry)
          (inlineWord "/usr/python") (inlineWord "[redacted]") := by
  refine ⟨⟨rfl, rfl, ?_⟩, ?_⟩
  · intro i word word' hget hget' hne
    obtain _ | i := i
    · cases hget
      cases hget'
      refine ⟨⟨_, _, rfl, ⟨_, _, _, _, .refl _, rfl, ?_, rfl⟩, ?_⟩, ?_, ?_, by decide, by decide⟩
      · rfl
      · exact .inline 6 rfl rfl (by decide)
      · rintro (hscope | ⟨e, he, hentry⟩)
        · cases hscope
        · cases he
          cases hentry
      · rintro (hscope | ⟨e, he, hentry⟩)
        · cases hscope
        · cases he
          cases hentry
    · cases hget
  · intro heq
    have hlength := congrArg (fun result => result.toOption.map List.length) heq
    revert hlength
    decide +kernel

end AioLM.Options
