import AioLM.CommandCapture

/-!
The import and the capture of one command beside each other. The app's own flags are
handed over by the one and observed by the other; all else they take for the same.
-/

set_option autoImplicit false

namespace AioLM.Options

open Fallible

def NumbersFinite (words : List Text) : Prop :=
  ∀ word ∈ words, startsWith '-' word → ∀ d ∈ scanDecimal word, d.finite

theorem NumbersFinite.tail {word : Text} {rest : List Text} (h : NumbersFinite (word :: rest)) :
    NumbersFinite rest := fun w hw => h w (List.mem_cons_of_mem _ hw)

theorem numericWord_capture {words : List Text} (h : NumbersFinite words) {word : Text}
    (hword : word ∈ words) (hdash : startsWith '-' word) :
    numericWord false word = numericWord true word := by
  rw [numericWord, numericWord]
  cases hscan : scanDecimal word with
  | none => rfl
  | some d => simp [h word hword hdash d hscan]

section

variable {schema : OptionSchema} {selected : List Text} {entry : Option CommandEntry}
  {cursor : Cursor} {word name : Text} {rest : List Text} {inline : Option Nat}
  {option : OptionDefinition}

theorem takeValues_capture (h : NumbersFinite rest) (arity : Arity) (max count : Nat) :
    takeValues false arity max count rest = takeValues true arity max count rest := by
  induction rest generalizing count with
  | nil => rfl
  | cons word rest ih =>
    have hlook : (startsWith '-' word && !numericWord false word) =
        (startsWith '-' word && !numericWord true word) := by
      cases hdash : startsWith '-' word with
      | false => rfl
      | true => rw [numericWord_capture h List.mem_cons_self hdash]
    rw [takeValues, takeValues, hlook, ih h.tail]

theorem recognizeOption_capture (h : NumbersFinite rest) :
    recognizeOption false cursor option name inline rest =
      recognizeOption true cursor option name inline rest := by
  simp only [recognizeOption, takeValues_capture h]

def HandsOver (step : Except Text (Token × Cursor)) : Prop :=
  ∃ next, step = .ok (.managed, next)

/-- Import takes the word for a flag of the app's own and fails there. -/
def Refuses (schema : OptionSchema) (word : Text) (step : Except Text (Token × Cursor)) : Prop :=
  word ≠ "--".toList ∧ (schema.managedFlag (splitInline word).1).isSome ∧ ¬ step.isOk

theorem recognizeManaged_handsOver :
    HandsOver (recognizeManaged cursor option name inline rest) ∨
      ¬ (recognizeManaged cursor option name inline rest).isOk := by
  cases hstep : recognizeManaged cursor option name inline rest with
  | error message => exact .inr Bool.false_ne_true
  | ok result =>
    refine .inl ⟨result.2, ?_⟩
    unfold recognizeManaged at hstep
    split at hstep
    · cases hstep
      rfl
    · split at hstep
      · cases hstep
      · simp only [bind_eq_ok, pure, Except.pure, Except.ok.injEq] at hstep
        obtain ⟨-, -, rfl⟩ := hstep
        rfl

theorem recognizeFlag_capture (h : NumbersFinite rest) (hword : word ≠ "--".toList) :
    recognizeFlag schema selected false cursor word rest =
        recognizeFlag schema selected true cursor word rest ∨
      HandsOver (recognizeFlag schema selected false cursor word rest) ∨
      Refuses schema word (recognizeFlag schema selected false cursor word rest) := by
  cases hmanaged : schema.managedFlag (splitInline word).1 with
  | none =>
    left
    simp only [recognizeFlag, hmanaged, recognizeOption_capture h]
    rfl
  | some option =>
    right
    simp only [recognizeFlag, hmanaged]
    exact recognizeManaged_handsOver.imp_right fun hfail => ⟨hword, by rw [hmanaged]; rfl, hfail⟩

theorem recognizePositional_capture :
    recognizePositional selected entry false cursor word rest =
        recognizePositional selected entry true cursor word rest ∨
      HandsOver (.ok (recognizePositional selected entry false cursor word rest)) := by
  have hslot (cursor : Cursor) : recognizeSlot selected entry false cursor rest =
        recognizeSlot selected entry true cursor rest ∨
      HandsOver (.ok (recognizeSlot selected entry false cursor rest)) := by
    cases hslots : cursor.slots with
    | nil => simp [recognizeSlot, hslots]
    | cons slot slots =>
      by_cases hmanaged : entry.isSome && slot.managed.isSome
      · exact .inr ⟨_, by simp only [recognizeSlot, hslots, hmanaged]; rfl⟩
      · left
        simp only [recognizeSlot, hslots, hmanaged, Bool.false_and]
  unfold recognizePositional
  split
  · exact hslot cursor
  · split
    · exact .inl rfl
    · exact hslot _

theorem recognizeWord_capture (h : NumbersFinite (word :: rest)) :
    recognizeWord schema selected entry false cursor word rest =
        recognizeWord schema selected entry true cursor word rest ∨
      HandsOver (recognizeWord schema selected entry false cursor word rest) ∨
      Refuses schema word (recognizeWord schema selected entry false cursor word rest) := by
  have hflag : (startsWithDashes word = true ∨
      startsWith '-' word = true ∧ 1 < word.length ∧ (!numericWord false word) = true) ↔
      (startsWithDashes word = true ∨
        startsWith '-' word = true ∧ 1 < word.length ∧ (!numericWord true word) = true) := by
    refine or_congr_right (and_congr_right fun hdash => ?_)
    rw [numericWord_capture h List.mem_cons_self hdash]
  unfold recognizeWord
  simp only [hflag]
  split
  · exact .inl rfl
  · split
    · exact .inl rfl
    · rename_i hword
      split
      · exact recognizeFlag_capture h.tail hword
      · split
        · exact .inl rfl
        · exact recognizePositional_capture.imp (congrArg Except.ok) .inl

end

section

variable (schema : OptionSchema) (selected : List Text) (entry : Option CommandEntry)

/-- Where import hands a word over, capture covers as many words, and no flag of the app's own
makes import fail. -/
def ManagedAligned (words : List Text) (start : Cursor) : Prop :=
  ∀ cursor word rest, Reaches schema selected entry false words start cursor →
    words.drop cursor.index = word :: rest →
    (∀ next, recognizeWord schema selected entry false cursor word rest = .ok (.managed, next) →
      ∃ token, recognizeWord schema selected entry true cursor word rest = .ok (token, next)) ∧
    ¬ Refuses schema word (recognizeWord schema selected entry false cursor word rest)

end

section

variable {schema : OptionSchema} {selected : List Text} {entry : Option CommandEntry}
  {words : List Text} {cursor : Cursor}

theorem ManagedAligned.nil (h : words.drop cursor.index = []) :
    ManagedAligned schema selected entry words cursor := by
  intro final word rest hreaches hwords
  cases hreaches with
  | refl => cases h.symm.trans hwords
  | step hfirst => cases h.symm.trans hfirst

theorem ManagedAligned.cons {word : Text} {rest : List Text} {token : Token} {next : Cursor}
    (hwords : words.drop cursor.index = word :: rest)
    (hstep : recognizeWord schema selected entry false cursor word rest = .ok (token, next))
    (hmanaged : token = .managed →
      ∃ token', recognizeWord schema selected entry true cursor word rest = .ok (token', next))
    (hlater : ManagedAligned schema selected entry words next) :
    ManagedAligned schema selected entry words cursor := by
  intro final word' rest' hreaches hwords'
  cases hreaches with
  | refl =>
    obtain ⟨rfl, rfl⟩ := List.cons.inj (hwords.symm.trans hwords')
    rw [hstep]
    refine ⟨fun next' hover => ?_, fun hrefuses => hrefuses.2.2 rfl⟩
    cases hover
    exact hmanaged rfl
  | step hfirst hstep' hreaches =>
    obtain ⟨rfl, rfl⟩ := List.cons.inj (hwords.symm.trans hfirst)
    rw [hstep] at hstep'
    cases hstep'
    exact hlater final word' rest' hreaches hwords'

end

/-- The same words, taken for the same unless import hands them over. -/
def Tile.Agrees (imported captured : Tile) : Prop :=
  imported.span = captured.span ∧ (imported.token = captured.token ∨ imported.token = .managed)

section

variable {schema : OptionSchema} {selected : List Text} {entry : Option CommandEntry}
  {words : List Text} {cursor : Cursor}

theorem recognizeWord_agrees (hnumbers : NumbersFinite words)
    (haligned : ManagedAligned schema selected entry words cursor) {word : Text}
    {rest : List Text} (hwords : words.drop cursor.index = word :: rest) :
    (∀ message, recognizeWord schema selected entry false cursor word rest = .error message →
      ∃ message', recognizeWord schema selected entry true cursor word rest = .error message') ∧
    ∀ token next, recognizeWord schema selected entry false cursor word rest = .ok (token, next) →
      ∃ token', recognizeWord schema selected entry true cursor word rest = .ok (token', next) ∧
        (token = token' ∨ token = .managed) := by
  obtain ⟨hmanaged, haccepted⟩ := haligned cursor word rest (.refl cursor) hwords
  have hfinite : NumbersFinite (word :: rest) := by
    rw [← hwords]
    exact fun w hw => hnumbers w (List.mem_of_mem_drop hw)
  have hcapture : recognizeWord schema selected entry false cursor word rest =
        recognizeWord schema selected entry true cursor word rest ∨
      HandsOver (recognizeWord schema selected entry false cursor word rest) ∨
      Refuses schema word (recognizeWord schema selected entry false cursor word rest) :=
    recognizeWord_capture hfinite
  rcases hcapture with hsame | ⟨next', hover⟩ | hrefuses
  · exact ⟨fun message hfail => ⟨message, hsame ▸ hfail⟩,
      fun token next hstep => ⟨token, hsame ▸ hstep, .inl rfl⟩⟩
  · obtain ⟨token', htoken⟩ := hmanaged _ hover
    rw [hover]
    refine ⟨fun _ h => (nomatch h), fun token next hstep => ?_⟩
    cases hstep
    exact ⟨token', htoken, .inr rfl⟩
  · exact absurd hrefuses haccepted

theorem recognizeFrom_agrees (hnumbers : NumbersFinite words)
    (haligned : ManagedAligned schema selected entry words cursor) :
    (∀ message, recognizeFrom schema selected entry false words cursor = .error message →
      ∃ message', recognizeFrom schema selected entry true words cursor = .error message') ∧
    ∀ tiles, recognizeFrom schema selected entry false words cursor = .ok tiles →
      ∃ tiles', recognizeFrom schema selected entry true words cursor = .ok tiles' ∧
        List.Forall₂ Tile.Agrees tiles tiles' := by
  induction hn : words.length - cursor.index using Nat.strongRecOn generalizing cursor with
  | ind n ih =>
  cases hwords : words.drop cursor.index with
  | nil =>
    rw [recognizeFrom_nil hwords, recognizeFrom_nil hwords]
    refine ⟨fun _ h => (nomatch h), fun tiles h => ?_⟩
    cases h
    exact ⟨[], rfl, .nil⟩
  | cons word rest =>
    obtain ⟨herror, hok⟩ := recognizeWord_agrees hnumbers haligned hwords
    rw [recognizeFrom_cons hwords, recognizeFrom_cons hwords]
    cases hstep : recognizeWord schema selected entry false cursor word rest with
    | error message =>
      obtain ⟨message', hfail⟩ := herror message hstep
      rw [hfail]
      exact ⟨fun _ _ => ⟨message', rfl⟩, fun tiles h => nomatch h⟩
    | ok result =>
      obtain ⟨token', hstep', hagree⟩ := hok result.1 result.2 hstep
      have hsteps := recognizeWord_steps hwords hstep
      have hforward := hsteps.forward
      have hinside := hsteps.inside
      have hlater : ManagedAligned schema selected entry words result.2 :=
        fun final w ws hreaches => haligned final w ws (.step hwords hstep hreaches)
      obtain ⟨hmoreError, hmoreOk⟩ := ih _ (by omega) hlater rfl
      rw [hstep']
      simp only [bind, Except.bind]
      cases hmore : recognizeFrom schema selected entry false words result.2 with
      | error message =>
        obtain ⟨message', hfail⟩ := hmoreError message hmore
        simp only [hfail]
        exact ⟨fun _ _ => ⟨message', rfl⟩, fun tiles h => nomatch h⟩
      | ok tiles =>
        obtain ⟨tiles', hfound, htiles⟩ := hmoreOk tiles hmore
        simp only [hfound]
        refine ⟨fun _ h => (nomatch h), fun tiles h => ?_⟩
        cases h
        exact ⟨_, rfl, .cons ⟨rfl, hagree⟩ htiles⟩

theorem length_occurrencesOf (tiles : List Tile) :
    (tiles.filter fun t => t.token matches .occurrence _).length = (occurrencesOf tiles).length := by
  induction tiles with
  | nil => rfl
  | cons tile tiles ih =>
    rw [occurrencesOf] at ih ⊢
    cases htoken : tile.token with
    | occurrence o => simp [htoken, ih]
    | _ => simp [htoken, ih]

/-- Capture finds the occurrences import finds, and some where import hands words over. -/
theorem occurrences_agree {tiles tiles' : List Tile} (h : List.Forall₂ Tile.Agrees tiles tiles')
    (hspan : ∀ tile ∈ tiles', ∀ o, tile.token = .occurrence o → o.span = tile.span) :
    (occurrencesOf tiles).Sublist (occurrencesOf tiles') ∧
      ∀ o ∈ occurrencesOf tiles', o ∈ occurrencesOf tiles ∨ o.span ∈ managedOf tiles := by
  induction h with
  | nil => simp [occurrencesOf]
  | @cons tile tile' tiles tiles' hagree hrest ih =>
    obtain ⟨hfirst, hspan⟩ := List.forall_mem_cons.mp hspan
    obtain ⟨hsub, hcover⟩ := ih hspan
    obtain ⟨hsame, htoken⟩ := hagree
    have hcons (t : Tile) (ts : List Tile) : occurrencesOf (t :: ts) =
        (match t.token with | .occurrence o => [o] | _ => []) ++ occurrencesOf ts := by
      rw [occurrencesOf, List.filterMap_cons]
      cases t.token <;> rfl
    rw [hcons tile, hcons tile']
    rcases htoken with htoken | hmanaged
    · rw [htoken]
      refine ⟨(List.Sublist.refl _).append hsub, ?_⟩
      intro o ho
      rcases List.mem_append.mp ho with hhere | hlater
      · exact .inl (List.mem_append_left _ hhere)
      · refine (hcover o hlater).imp (List.mem_append_right _) fun hmem => ?_
        exact List.mem_filterMap.mpr ((List.mem_filterMap.mp hmem).imp fun t ht =>
          ⟨List.mem_cons_of_mem _ ht.1, ht.2⟩)
    · rw [hmanaged, List.nil_append]
      refine ⟨hsub.trans (List.sublist_append_right _ _), ?_⟩
      have hover : managedOf (tile :: tiles) = tile.span :: managedOf tiles := by
        rw [managedOf, List.filterMap_cons, hmanaged]
        rfl
      intro o ho
      rw [hover]
      rcases List.mem_append.mp ho with hhere | hlater
      · right
        cases htile : tile'.token with
        | occurrence o' =>
          rw [htile, List.mem_singleton] at hhere
          rw [hhere, hfirst o' htile, hsame]
          exact List.mem_cons_self
        | _ => simp [htile] at hhere
      · exact (hcover o hlater).imp_right (List.mem_cons_of_mem _)

end

/-- Capture and import see the same command, apart from what import hands to the app: both
succeed or neither does, short of more occurrences than a plan may have, and capture lists the
occurrences import finds in the same order, whether their values can be planned or not. -/
theorem capture_import_agree {windows : Bool} {serde : Serde} {schema : OptionSchema}
    {selected : List Text} {entry : Option CommandEntry} {words : List Text}
    (hnumbers : NumbersFinite words)
    (haligned : ∀ start, recognizeStart windows serde schema selected entry words = .ok start →
      ManagedAligned schema selected entry words start) :
    (∀ message, recognizeTokens windows serde schema selected entry false words = .error message →
      ∃ message', capturePlanForEntry windows serde schema selected entry words words =
        .error message') ∧
    ∀ tiles, recognizeTokens windows serde schema selected entry false words = .ok tiles →
      ∃ occurrences : List TokenOccurrence, (occurrencesOf tiles).Sublist occurrences ∧
        (∀ o ∈ occurrences, o ∈ occurrencesOf tiles ∨ o.span ∈ managedOf tiles) ∧
        capturePlanForEntry windows serde schema selected entry words words =
          (if occurrences.length ≤ maxPlan then
            .ok (occurrences.zipIdx.map (capturedOf serde words words))
          else .error "too many planned option occurrences".toList) ∧
        ∀ imported, importPlanTokensForEntry windows serde schema selected entry words =
            .ok imported →
          imported.plan = (occurrencesOf tiles).filterMap (plannedOf serde words) := by
  have hcapture : capturePlanForEntry windows serde schema selected entry words words = (do
      let tiles ← recognizeTokens windows serde schema selected entry true words
      return (occurrencesOf tiles).zipIdx.map (capturedOf serde words words)) := by
    simp only [capturePlanForEntry, require, if_true]
    rfl
  rw [hcapture]
  cases hstart : recognizeStart windows serde schema selected entry words with
  | error message =>
    simp only [recognizeTokens, hstart]
    refine ⟨fun _ _ => ⟨message, rfl⟩, fun tiles h => ?_⟩
    cases h
  | ok start =>
    have hle : start.index ≤ words.length := by
      simp only [recognizeStart, bind_eq_ok, pure, Except.pure, Except.ok.injEq] at hstart
      obtain ⟨-, -, -, -, index, hindex, rfl⟩ := hstart
      exact startIndex_le hindex
    obtain ⟨herror, hok⟩ := recognizeFrom_agrees hnumbers (haligned start hstart)
    constructor
    · intro message hfail
      cases hwalk : recognizeFrom schema selected entry false words start with
      | error failure =>
        obtain ⟨message', hfail'⟩ := herror failure hwalk
        exact ⟨message', by simp only [recognizeTokens, hstart, hfail', bind, Except.bind]⟩
      | ok tiles =>
        simp [recognizeTokens, hstart, hwalk, bind, Except.bind, require, pure, Except.pure]
          at hfail
    · intro tiles htiles
      have himport := htiles
      simp only [recognizeTokens, hstart, bind_eq_ok, pure, Except.pure, Except.ok.injEq] at htiles
      obtain ⟨_, rfl, found, hfound, -, -, rfl⟩ := htiles
      obtain ⟨tiles', hwalk, hagree⟩ := hok found hfound
      have hspan : ∀ tile ∈ tiles', ∀ o, tile.token = .occurrence o → o.span = tile.span := by
        intro tile htile o ho
        have hjustified := (recognizeFrom_spec hle hwalk).2.1 tile htile
        rw [ho] at hjustified
        exact hjustified.1
      obtain ⟨hsub, hcover⟩ := occurrences_agree hagree hspan
      refine ⟨occurrencesOf tiles', hsub, hcover, ?_, ?_⟩
      · simp only [recognizeTokens, hstart, hwalk, bind, Except.bind]
        by_cases hfew : (occurrencesOf tiles').length ≤ maxPlan
        · rw [if_pos hfew, require, if_pos]
          · rfl
          · exact fun _ => (length_occurrencesOf tiles').trans_le hfew
        · rw [if_neg hfew, require, if_neg]
          exact fun hle => hfew ((length_occurrencesOf tiles').symm.trans_le (hle trivial))
      · intro imported himported
        simp only [importPlanTokensForEntry, himport, bind_eq_ok, pure, Except.pure,
          Except.ok.injEq] at himported
        obtain ⟨_, rfl, -, -, rfl⟩ := himported
        rfl

theorem keys_capturedOf (serde : Serde) (raw sanitized : List Text)
    (occurrences : List TokenOccurrence) :
    (occurrences.zipIdx.map (capturedOf serde raw sanitized)).map (·.key) =
      occurrences.map (·.option.key) := by
  have hkey : (·.key) ∘ capturedOf serde raw sanitized =
      (fun o : TokenOccurrence => o.option.key) ∘ Prod.fst := rfl
  rw [List.map_map, hkey, ← List.map_map, List.zipIdx_map_fst]

/-- A flag of the app's own and one of the user's, and a command with both. -/
def besideSchema : OptionSchema :=
  .ofOptions [{ OptionDefinition.ofFlag "tag" "--tag" 1 with managed := some .discovery },
    .ofFlag "name" "--name" 1]

def besideWords : List Text := ["--tag".toList, "a".toList, "--name".toList, "b".toList]

theorem managedAligned_beside :
    ManagedAligned besideSchema [] none besideWords ⟨0, 0, [], none⟩ := by
  have hend : ManagedAligned besideSchema [] none besideWords ⟨4, 0, [], none⟩ := .nil rfl
  have hname : ∃ o, recognizeWord besideSchema [] none false ⟨2, 0, [], none⟩ "--name".toList
      ["b".toList] = .ok (.occurrence o, ⟨4, 0, [], none⟩) := ⟨_, rfl⟩
  obtain ⟨o, hname⟩ := hname
  have hlater : ManagedAligned besideSchema [] none besideWords ⟨2, 0, [], none⟩ :=
    .cons rfl hname (fun hmanaged => nomatch hmanaged) hend
  have htag : recognizeWord besideSchema [] none false ⟨0, 0, [], none⟩ "--tag".toList
      ["a".toList, "--name".toList, "b".toList] = .ok (.managed, ⟨2, 0, [], none⟩) := rfl
  exact .cons rfl htag (fun _ => ⟨_, rfl⟩) hlater

/-- Import hands the first flag over and keeps the second, capture lists both. -/
theorem capture_import_agree_beside :
    ∃ tiles occurrences, recognizeTokens false .plain besideSchema [] none false besideWords =
        .ok tiles ∧ managedOf tiles = [⟨0, 2⟩] ∧
      (occurrencesOf tiles).map (·.option.key) = ["name".toList] ∧
      occurrences.map (·.option.key) = ["tag".toList, "name".toList] ∧
      (occurrencesOf tiles).Sublist occurrences ∧
      capturePlanForEntry false .plain besideSchema [] none besideWords besideWords =
        .ok (occurrences.zipIdx.map (capturedOf .plain besideWords besideWords)) := by
  have hnumbers : NumbersFinite besideWords := by
    intro word hword hdash d hd
    simp only [besideWords, List.mem_cons, List.not_mem_nil, or_false] at hword
    have hnone : scanDecimal word = none := by
      rcases hword with rfl | rfl | rfl | rfl <;> rfl
    rw [hnone] at hd
    cases hd
  have haligned : ∀ start, recognizeStart false .plain besideSchema [] none besideWords =
      .ok start → ManagedAligned besideSchema [] none besideWords start := by
    intro start hstart
    have hzero : recognizeStart false .plain besideSchema [] none besideWords =
      .ok ⟨0, 0, [], none⟩ := rfl
    rw [hzero] at hstart
    cases hstart
    exact managedAligned_beside
  have hok : (recognizeTokens false .plain besideSchema [] none false besideWords).toOption.map
      (fun tiles => (managedOf tiles, (occurrencesOf tiles).map (·.option.key))) =
        some ([⟨0, 2⟩], ["name".toList]) := by
    decide +kernel
  have hkeys : (capturePlanForEntry false .plain besideSchema [] none besideWords
      besideWords).toOption.map (fun captured => captured.map (·.key)) =
        some ["tag".toList, "name".toList] := by
    decide +kernel
  cases htiles : recognizeTokens false .plain besideSchema [] none false besideWords with
  | error message =>
    rw [htiles] at hok
    cases hok
  | ok tiles =>
    rw [htiles] at hok
    obtain ⟨hmanaged, hplanned⟩ := Prod.mk.inj (Option.some.inj hok)
    obtain ⟨occurrences, hsub, -, hcapture, -⟩ :=
      (capture_import_agree hnumbers haligned).2 tiles htiles
    have hfew : occurrences.length ≤ maxPlan := by
      by_contra hmany
      rw [hcapture, if_neg hmany] at hkeys
      cases hkeys
    rw [hcapture, if_pos hfew] at hkeys
    rw [if_pos hfew] at hcapture
    refine ⟨tiles, occurrences, rfl, hmanaged, hplanned, ?_, hsub, hcapture⟩
    rw [← keys_capturedOf .plain besideWords besideWords occurrences]
    exact Option.some.inj hkeys

/-- The tag as the app's own, with a confirmed number of values or an open one. -/
def managedTag (max : Option Nat) : OptionSchema :=
  .ofOptions [{ OptionDefinition.ofFlag "tag" "--tag" 1 with
    managed := some .discovery, arity := .confirmed ⟨1, max⟩ }]

/-- Capture observes the app's own flag, where import hands it over without an occurrence, or
fails when the number of its values is open. It takes a number no double holds for the value of
the flag, where import takes it for a flag of its own. -/
theorem capture_import_differ :
    ((capturePlanForEntry false .plain (managedTag (some 1)) [] none (maskedWords "a")
        (maskedWords "a")).toOption.map List.length = some 1 ∧
      (importPlanTokensForEntry false .plain (managedTag (some 1)) [] none
        (maskedWords "a")).toOption.map (fun imported =>
          (imported.plan.length, imported.unrecognized)) = some (0, [])) ∧
    ((capturePlanForEntry false .plain (managedTag none) [] none (maskedWords "a")
        (maskedWords "a")).isOk = true ∧
      (recognizeTokens false .plain (managedTag none) [] none false (maskedWords "a")).isOk =
        false) ∧
    ((recognizeTokens false .plain taggedSchema [] none true
        (maskedWords "-1e999")).toOption.map (fun tiles =>
          (occurrencesOf tiles).map (·.span)) = some [⟨0, 2⟩] ∧
      (recognizeTokens false .plain taggedSchema [] none false
        (maskedWords "-1e999")).toOption.map (fun tiles =>
          (occurrencesOf tiles).map (·.span)) = some [⟨0, 1⟩]) := by
  decide +kernel

end AioLM.Options
