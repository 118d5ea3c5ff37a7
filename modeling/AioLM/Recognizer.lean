import AioLM.CommandEntry
import AioLM.Decimals
import AioLM.OptionPlan
import AioLM.Spans

/-!
The recognizer that splits command words into option occurrences, words the app
manages and words left for review. Its loop is a cursor over the words; every
iteration covers some words from the next one on.
-/

set_option autoImplicit false

namespace AioLM.Options

open Fallible

def numericWord (capture : Bool) (word : Text) : Bool :=
  (scanDecimal word).any fun d => capture || d.finite

/-- An inline value starts after `=` in the first word; all other values occupy
whole words. -/
structure TokenOccurrence where
  option : OptionDefinition
  spelling : Option Text
  span : Span
  inline : Option Nat
  valueStart : Nat
  boolean : Option Bool
  valid : Bool

def TokenOccurrence.texts (occurrence : TokenOccurrence) (words : List Text) : List Text :=
  match occurrence.inline with
  | some offset => [(words[occurrence.span.start]?.getD []).drop offset]
  | none => (⟨occurrence.valueStart, occurrence.span.stop⟩ : Span).slice words

def TokenOccurrence.values (occurrence : TokenOccurrence) (words : List Text) : List Json :=
  (occurrence.texts words).map .string

def TokenOccurrence.spelled (occurrence : TokenOccurrence) (words : List Text) : List Text :=
  match occurrence.spelling, occurrence.inline with
  | none, _ => occurrence.texts words
  | some name, none => name :: occurrence.texts words
  | some name, some _ => (occurrence.texts words).map fun text => name ++ '=' :: text

/-- What a run of words is taken for. -/
inductive Token where
  | scopeWord
  | separator
  | entryToken (slot : OptionDefinition) (index : Nat)
  | managed
  | unrecognized
  | occurrence (o : TokenOccurrence)

structure Tile where
  token : Token
  span : Span

/-- The state of the loop over the words: the next word, the next scope word,
the positional slots not filled yet, and the separator not used yet. -/
structure Cursor where
  index : Nat
  scopeCursor : Nat
  slots : List OptionDefinition
  separator : Option Text

/-- The number of words of a flag's values. A run that is long enough ends at
the next word with two dashes. -/
def takeValues (capture : Bool) (arity : Arity) (max : Nat) : Nat → List Text → Nat
  | count, [] => count
  | count, word :: rest =>
    if max ≤ count ∨ startsWithDashes word then count
    else if startsWith '-' word && !numericWord capture word then count
    else if arity.max = some 1 then count + 1
    else if arity.min ≤ count + 1 ∧ rest.head?.any startsWithDashes then count + 1
    else takeValues capture arity max (count + 1) rest

/-- The words that follow in the same user slot, after `taken` of them. -/
def takeSlot (max : Option Nat) (scopeWord : Option Text) : Nat → List Text → Nat
  | _, [] => 0
  | taken, word :: rest =>
    if max.all (taken < ·) && decide (taken < 256) && !startsWith '-' word &&
        !(scopeWord == some word) then
      takeSlot max scopeWord (taken + 1) rest + 1
    else 0

/-- Entry tokens fill the static slots before the next user slot. A static slot
that another word stands in is passed over. -/
def skipStatic (entry : CommandEntry) (word : Text) :
    List OptionDefinition → Option (OptionDefinition × Nat) × List OptionDefinition
  | [] => (none, [])
  | slot :: slots =>
    match entry.positionalRoles.get slot.key with
    | some (.static index) =>
      if entry.prefixTokens[index]? = some word then (some (slot, index), slots)
      else skipStatic entry word slots
    | _ => (none, slot :: slots)

def splitInline (word : Text) : Text × Option Nat :=
  match Text.splitOnce '=' word with
  | some (name, _) => (name, some (name.length + 1))
  | none => (word, none)

namespace OptionDefinition

def hasFlag (option : OptionDefinition) (name : Text) : Bool :=
  option.spellings.any (·.flag = name)

/-- `name` is `--no-` before the name of a flag of two dashes. -/
def negates (option : OptionDefinition) (name : Text) : Bool :=
  match Text.stripPrefix "--no-".toList name with
  | none => false
  | some rest => option.spellings.any fun s => Text.stripPrefix "--".toList s.flag = some rest

def answersTo (option : OptionDefinition) (name : Text) : Bool :=
  option.hasFlag name || option.negates name

end OptionDefinition

namespace OptionSchema

def managedFlag (schema : OptionSchema) (name : Text) : Option OptionDefinition :=
  schema.options.find? fun o => o.managed.isSome && o.hasFlag name

def firstMatch (schema : OptionSchema) (name : Text) : Option OptionDefinition :=
  schema.options.find? (·.answersTo name)

def eligible (schema : OptionSchema) (selected : List Text) (name : Text) :
    Option OptionDefinition :=
  schema.options.find? fun o => o.answersTo name && o.scope.isPrefixOf selected

def positionalSlots (schema : OptionSchema) (selected : List Text) : List OptionDefinition :=
  (schema.options.filter fun o => o.position.isSome && o.scope.isPrefixOf selected).insertionSort
    fun a b => a.position.getD 65535 ≤ b.position.getD 65535

end OptionSchema

def Cursor.occurs (cursor : Cursor) (option : OptionDefinition) (spelling : Option Text)
    (inline : Option Nat) (valueStart stop : Nat) (boolean : Option Bool) (valid : Bool) :
    Token × Cursor :=
  (.occurrence ⟨option, spelling, ⟨cursor.index, stop⟩, inline, valueStart, boolean, valid⟩,
    { cursor with index := stop })

def recognizeManaged (cursor : Cursor) (option : OptionDefinition) (name : Text)
    (inline : Option Nat) (rest : List Text) : Except Text (Token × Cursor) :=
  match inline with
  | some _ => .ok (.managed, { cursor with index := cursor.index + 1 })
  | none =>
    match option.arity.supported.filter fun arity => arity.max = some arity.min with
    | none =>
      .error (name ++ (": confirm its exact value count before importing a command; its saved " ++
        "values were retained").toList)
    | some arity => do
      require (arity.min ≤ rest.length)
        (name ++ ": the pasted command is missing a managed option value".toList)
      return (.managed, { cursor with index := cursor.index + 1 + arity.min })

/-- A flag no option of the schema answers to may be followed by its value. -/
def recognizeUnknown (cursor : Cursor) (inline : Option Nat) (rest : List Text) :
    Token × Cursor :=
  let taken := if inline.isNone && rest.head?.any (!startsWithDashes ·) then 1 else 0
  (.unrecognized, { cursor with index := cursor.index + 1 + taken })

/-- A flag of an option of the selected scope with its values. -/
def recognizeOption (capture : Bool) (cursor : Cursor) (option : OptionDefinition) (name : Text)
    (inline : Option Nat) (rest : List Text) : Token × Cursor :=
  let next := cursor.index + 1
  let spelling := option.spellings.find? (·.flag = name)
  let isNegative := (option.negates name && spelling.isNone) ||
    spelling.any (·.polarity == some false)
  if option.isSwitch then
    cursor.occurs option (some name) inline next next (some !isNegative)
      (inline.isNone && !(isNegative && spelling.isNone))
  else
    match option.arity.supported with
    | some arity =>
      let max := min (arity.max.getD 8) 8
      let taken := if inline.isSome then 0 else takeValues capture arity max 0 rest
      let count := if inline.isSome then 1 else taken
      cursor.occurs option (some name) inline next (next + taken) none
        (decide (arity.min ≤ count) && arity.max.all (count ≤ ·))
    | none =>
      if inline.isSome then cursor.occurs option (some name) inline next next none true
      else if rest.head?.any (!startsWith '-' ·) then
        cursor.occurs option (some name) inline next (next + 1) none true
      else cursor.occurs option (some name) inline next next none false

section

variable (schema : OptionSchema) (selected : List Text) (entry : Option CommandEntry)
  (capture : Bool)

def recognizeFlag (cursor : Cursor) (word : Text) (rest : List Text) :
    Except Text (Token × Cursor) :=
  let (name, inline) := splitInline word
  match if capture then none else schema.managedFlag name with
  | some option => recognizeManaged cursor option name inline rest
  | none =>
    match (schema.eligible selected name).or (schema.firstMatch name) with
    | none => .ok (recognizeUnknown cursor inline rest)
    | some option =>
      if option.scope <+: selected then .ok (recognizeOption capture cursor option name inline rest)
      else .ok (.unrecognized, { cursor with index := cursor.index + 1 })

def recognizeSlot (cursor : Cursor) (rest : List Text) : Token × Cursor :=
  let next := cursor.index + 1
  match cursor.slots with
  | [] => (.unrecognized, { cursor with index := next })
  | slot :: slots =>
    let cursor := { cursor with slots := slots }
    if entry.isSome && slot.managed.isSome && !capture then
      (.managed, { cursor with index := next })
    else if entry.isSome then
      let arity : Arity := (slot.arity.supported.map fun a => ⟨max a.min 1, a.max⟩).getD ⟨1, some 1⟩
      let taken := takeSlot arity.max selected[cursor.scopeCursor]? 1 rest
      cursor.occurs slot none none cursor.index (next + taken) none
        (decide (arity.min ≤ taken + 1))
    else cursor.occurs slot none none cursor.index next none true

def recognizePositional (cursor : Cursor) (word : Text) (rest : List Text) : Token × Cursor :=
  match entry with
  | none => recognizeSlot selected entry capture cursor rest
  | some e =>
    match skipStatic e word cursor.slots with
    | (some (slot, index), slots) =>
      (.entryToken slot index, { cursor with index := cursor.index + 1, slots := slots })
    | (none, slots) => recognizeSlot selected entry capture { cursor with slots := slots } rest

/-- The entry tokens after a subcommand, when they follow in the command. -/
def skipSegment (scopeCursor : Nat) (rest : List Text) : Nat :=
  match entry.bind fun e => e.segments[scopeCursor]? with
  | none => 0
  | some segment => if segment.isPrefixOf rest then segment.length else 0

def recognizeWord (cursor : Cursor) (word : Text) (rest : List Text) :
    Except Text (Token × Cursor) :=
  let next := cursor.index + 1
  if selected[cursor.scopeCursor]? = some word then
    .ok (.scopeWord, { cursor with
      scopeCursor := cursor.scopeCursor + 1
      index := next + skipSegment entry (cursor.scopeCursor + 1) rest })
  else if word = "--".toList then
    if cursor.separator.isSome then
      .ok (.separator, { cursor with index := next, separator := none })
    else .error "a bare -- would turn every later argument into a positional value".toList
  else if startsWithDashes word ∨
      (startsWith '-' word ∧ 1 < word.length ∧ !numericWord capture word) then
    recognizeFlag schema selected capture cursor word rest
  else if startsWith '-' word then .ok (.unrecognized, { cursor with index := next })
  else .ok (recognizePositional selected entry capture cursor word rest)

end

theorem takeValues_le (capture : Bool) (arity : Arity) (max count : Nat) (rest : List Text) :
    takeValues capture arity max count rest ≤ count + rest.length := by
  induction rest generalizing count with
  | nil => simp [takeValues]
  | cons word rest ih =>
    have hmore := ih (count + 1)
    rw [takeValues, List.length_cons]
    split
    · omega
    · split
      · omega
      · split
        · omega
        · split <;> omega

theorem takeSlot_le (max : Option Nat) (scopeWord : Option Text) (taken : Nat)
    (rest : List Text) : takeSlot max scopeWord taken rest ≤ rest.length := by
  induction rest generalizing taken with
  | nil => simp [takeSlot]
  | cons word rest ih =>
    have hmore := ih (taken + 1)
    rw [takeSlot, List.length_cons]
    split <;> omega

theorem head_any_pos {rest : List Text} {p : Text → Bool} (h : rest.head?.any p) :
    1 ≤ rest.length := by
  cases rest with
  | nil => simp at h
  | cons word rest => simp

def Token.Justified (selected : List Text) (entry : Option CommandEntry) (words : List Text)
    (span : Span) : Token → Prop
  | .scopeWord => ∃ depth word segment, selected[depth]? = some word ∧
      span.slice words = word :: segment ∧
      (segment = [] ∨ ∃ e, entry = some e ∧ e.segments[depth + 1]? = some segment)
  | .separator => span.slice words = ["--".toList]
  | .entryToken slot index => ∃ e text, entry = some e ∧
      e.positionalRoles.get slot.key = some (.static index) ∧
      e.prefixTokens[index]? = some text ∧ span.slice words = [text]
  | .managed | .unrecognized => True
  | .occurrence o => o.span = span ∧ o.spelled words = span.slice words ∧
      (o.boolean.isSome → o.valid → o.texts words = [])

def Token.isSeparator : Token → Bool
  | .separator => true
  | _ => false

/-- What one iteration does: it covers some words from the next one on, and
takes the declared separator only once. -/
structure Cursor.Steps (selected : List Text) (entry : Option CommandEntry) (words : List Text)
    (cursor : Cursor) (result : Token × Cursor) : Prop where
  forward : cursor.index < result.2.index
  inside : result.2.index ≤ words.length
  justified : result.1.Justified selected entry words ⟨cursor.index, result.2.index⟩
  separator : if result.1.isSeparator then cursor.separator.isSome ∧ result.2.separator = none
    else result.2.separator = cursor.separator

section

variable {schema : OptionSchema} {selected : List Text} {entry : Option CommandEntry}
  {capture : Bool} {words : List Text} {cursor : Cursor} {word name : Text} {rest : List Text}
  {inline : Option Nat} {option : OptionDefinition} {result : Token × Cursor}

theorem span_words (hwords : words.drop cursor.index = word :: rest) (n : Nat) :
    (⟨cursor.index, cursor.index + 1 + n⟩ : Span).slice words = word :: rest.take n := by
  have hlength : cursor.index + 1 + n - cursor.index = n + 1 := by omega
  rw [Span.slice, hwords, hlength, List.take_succ_cons]

theorem rest_words (hwords : words.drop cursor.index = word :: rest) (n : Nat) :
    (⟨cursor.index + 1, cursor.index + 1 + n⟩ : Span).slice words = rest.take n := by
  have hlength : cursor.index + 1 + n - (cursor.index + 1) = n := by omega
  rw [Span.slice, ← List.tail_drop, hwords, List.tail_cons, hlength]

theorem length_words (hwords : words.drop cursor.index = word :: rest) :
    words.length = cursor.index + 1 + rest.length := by
  have hlength := congrArg List.length hwords
  rw [List.length_drop, List.length_cons] at hlength
  omega

theorem splitInline_none (h : splitInline word = (name, none)) : name = word := by
  unfold splitInline at h
  split at h <;> cases h
  rfl

theorem splitInline_some {offset : Nat} (h : splitInline word = (name, some offset)) :
    word = name ++ '=' :: word.drop offset := by
  unfold splitInline at h
  split at h
  · rename_i before after hsplit
    cases h
    have hword := Text.splitOnce_eq_some hsplit
    have hdrop : word.drop (name.length + 1) = after := by
      rw [hword, ← List.drop_drop, List.drop_left]
      rfl
    rw [hdrop]
    exact hword
  · cases h

theorem steps_plain {token : Token} {next : Cursor}
    (hwords : words.drop cursor.index = word :: rest) {n : Nat} (hn : n ≤ rest.length)
    (hindex : next.index = cursor.index + 1 + n) (hsep : next.separator = cursor.separator)
    (htoken : token = .managed ∨ token = .unrecognized) :
    cursor.Steps selected entry words (token, next) := by
  have hlength := length_words hwords
  obtain rfl | rfl := htoken
  · exact ⟨by simp only; omega, by simp only; omega, trivial, by simpa [Token.isSeparator]⟩
  · exact ⟨by simp only; omega, by simp only; omega, trivial, by simpa [Token.isSeparator]⟩

/-- An occurrence of a flag with the `n` words after it. -/
theorem steps_flag (hwords : words.drop cursor.index = word :: rest)
    (hsplit : splitInline word = (name, inline)) {n : Nat} (hn : n ≤ rest.length)
    {boolean : Option Bool} {valid : Bool} (hinline : inline.isSome → n = 0)
    (hboolean : boolean.isSome → n = 0 ∧ (valid → inline = none)) :
    cursor.Steps selected entry words (cursor.occurs option (some name) inline (cursor.index + 1)
      (cursor.index + 1 + n) boolean valid) := by
  have hlength := length_words hwords
  refine ⟨?_, ?_, ⟨rfl, ?_, ?_⟩, rfl⟩
  · simp only [Cursor.occurs]
    omega
  · simp only [Cursor.occurs]
    omega
  · simp only [Cursor.occurs, TokenOccurrence.spelled, TokenOccurrence.texts]
    rw [span_words hwords]
    cases inline with
    | none => simp only [rest_words hwords, splitInline_none hsplit]
    | some offset =>
      have hword : words[cursor.index]? = some word := by
        rw [← List.head?_drop, hwords, List.head?_cons]
      obtain rfl : n = 0 := hinline rfl
      simp only [hword, Option.getD_some, List.map_cons, List.map_nil, List.take_zero]
      rw [← splitInline_some hsplit]
  · intro hsome hvalid
    obtain ⟨rfl, hnone⟩ := hboolean hsome
    simp only [TokenOccurrence.texts, hnone hvalid, rest_words hwords, List.take_zero]

theorem steps_slot (slots : List OptionDefinition)
    (hwords : words.drop cursor.index = word :: rest) {n : Nat} (hn : n ≤ rest.length)
    {valid : Bool} :
    cursor.Steps selected entry words (Cursor.occurs { cursor with slots := slots } option none
      none cursor.index (cursor.index + 1 + n) none valid) := by
  have hlength := length_words hwords
  refine ⟨?_, ?_, ⟨rfl, rfl, ?_⟩, rfl⟩
  · simp only [Cursor.occurs]
    omega
  · simp only [Cursor.occurs]
    omega
  · intro hsome
    cases hsome

theorem skipSegment_spec (scopeCursor : Nat) (rest : List Text) :
    skipSegment entry scopeCursor rest ≤ rest.length ∧
      (rest.take (skipSegment entry scopeCursor rest) = [] ∨
        ∃ e, entry = some e ∧ e.segments[scopeCursor]? =
          some (rest.take (skipSegment entry scopeCursor rest))) := by
  unfold skipSegment
  split
  · exact ⟨Nat.zero_le _, .inl rfl⟩
  · rename_i segment hsegment
    split
    · rename_i hleads
      have hmore := List.isPrefixOf_iff_prefix.mp hleads
      obtain ⟨e, he, hget⟩ := Option.bind_eq_some_iff.mp hsegment
      refine ⟨hmore.length_le, .inr ⟨e, he, ?_⟩⟩
      rw [← List.prefix_iff_eq_take.mp hmore]
      exact hget
    · exact ⟨Nat.zero_le _, .inl rfl⟩

theorem recognizeManaged_steps (hwords : words.drop cursor.index = word :: rest)
    (h : recognizeManaged cursor option name inline rest = .ok result) :
    cursor.Steps selected entry words result := by
  unfold recognizeManaged at h
  split at h
  · cases h
    exact steps_plain hwords (n := 0) (Nat.zero_le _) rfl rfl (.inl rfl)
  · split at h
    · cases h
    · rename_i arity harity
      simp only [bind_eq_ok, require_eq_ok, pure, Except.pure, Except.ok.injEq] at h
      obtain ⟨-, hle, rfl⟩ := h
      exact steps_plain hwords hle rfl rfl (.inl rfl)

theorem recognizeUnknown_steps (hwords : words.drop cursor.index = word :: rest) :
    cursor.Steps selected entry words (recognizeUnknown cursor inline rest) := by
  refine steps_plain hwords ?_ rfl rfl (.inr rfl)
  split
  · rename_i hvalue
    rw [Bool.and_eq_true] at hvalue
    exact head_any_pos hvalue.2
  · exact Nat.zero_le _

theorem recognizeOption_steps (hwords : words.drop cursor.index = word :: rest)
    (hsplit : splitInline word = (name, inline)) :
    cursor.Steps selected entry words
      (recognizeOption capture cursor option name inline rest) := by
  unfold recognizeOption
  simp only
  split
  · refine steps_flag hwords hsplit (n := 0) (Nat.zero_le _) (fun _ => rfl) fun _ => ⟨rfl, ?_⟩
    intro hvalid
    cases inline with
    | none => rfl
    | some offset => simp at hvalid
  · split
    · rename_i arity harity
      refine steps_flag hwords hsplit ?_ (fun hsome => if_pos hsome) fun hsome => nomatch hsome
      split
      · exact Nat.zero_le _
      · have hle := takeValues_le capture arity (min (arity.max.getD 8) 8) 0 rest
        omega
    · split
      · exact steps_flag hwords hsplit (n := 0) (Nat.zero_le _) (fun _ => rfl)
          fun hsome => nomatch hsome
      · rename_i hnone
        split
        · rename_i hvalue
          exact steps_flag hwords hsplit (head_any_pos hvalue) (fun hsome => absurd hsome hnone)
            fun hsome => nomatch hsome
        · exact steps_flag hwords hsplit (n := 0) (Nat.zero_le _) (fun _ => rfl)
            fun hsome => nomatch hsome

theorem recognizeFlag_steps (hwords : words.drop cursor.index = word :: rest)
    (h : recognizeFlag schema selected capture cursor word rest = .ok result) :
    cursor.Steps selected entry words result := by
  unfold recognizeFlag at h
  cases hsplit : splitInline word with
  | mk name inline =>
    simp only [hsplit] at h
    split at h
    · exact recognizeManaged_steps hwords h
    · split at h
      · simp only [Except.ok.injEq] at h
        exact h ▸ recognizeUnknown_steps hwords
      · split at h
        · simp only [Except.ok.injEq] at h
          exact h ▸ recognizeOption_steps hwords hsplit
        · cases h
          exact steps_plain hwords (n := 0) (Nat.zero_le _) rfl rfl (.inr rfl)

theorem Cursor.Steps.of_slots (slots : List OptionDefinition)
    (h : Cursor.Steps selected entry words { cursor with slots := slots } result) :
    cursor.Steps selected entry words result := ⟨h.forward, h.inside, h.justified, h.separator⟩

theorem recognizeSlot_steps (hwords : words.drop cursor.index = word :: rest) :
    cursor.Steps selected entry words (recognizeSlot selected entry capture cursor rest) := by
  unfold recognizeSlot
  simp only
  split
  · exact steps_plain hwords (n := 0) (Nat.zero_le _) rfl rfl (.inr rfl)
  · rename_i slot slots hslots
    split
    · exact steps_plain hwords (n := 0) (Nat.zero_le _) rfl rfl (.inl rfl)
    · split
      · exact steps_slot slots hwords (takeSlot_le _ _ _ _)
      · exact steps_slot slots hwords (n := 0) (Nat.zero_le _)

theorem skipStatic_spec {e : CommandEntry} {slots more : List OptionDefinition}
    {slot : OptionDefinition} {index : Nat}
    (h : skipStatic e word slots = (some (slot, index), more)) :
    e.positionalRoles.get slot.key = some (.static index) ∧
      e.prefixTokens[index]? = some word := by
  induction slots with
  | nil => cases h
  | cons first slots ih =>
    rw [skipStatic] at h
    split at h
    · rename_i token hrole
      split at h
      · rename_i htoken
        cases h
        exact ⟨hrole, htoken⟩
      · exact ih h
    · cases h

theorem recognizePositional_steps (hwords : words.drop cursor.index = word :: rest) :
    cursor.Steps selected entry words
      (recognizePositional selected entry capture cursor word rest) := by
  unfold recognizePositional
  split
  · exact recognizeSlot_steps hwords
  · rename_i e
    split
    · rename_i slot index slots hskip
      obtain ⟨hrole, htoken⟩ := skipStatic_spec hskip
      have hlength := length_words hwords
      refine ⟨by simp only; omega, by simp only; omega, ?_, rfl⟩
      exact ⟨e, word, rfl, hrole, htoken, span_words hwords 0⟩
    · rename_i slots hskip
      exact .of_slots slots (recognizeSlot_steps hwords)

theorem recognizeWord_steps (hwords : words.drop cursor.index = word :: rest)
    (h : recognizeWord schema selected entry capture cursor word rest = .ok result) :
    cursor.Steps selected entry words result := by
  have hlength := length_words hwords
  unfold recognizeWord at h
  simp only at h
  split at h
  · rename_i hscope
    cases h
    obtain ⟨hle, hsegment⟩ := @skipSegment_spec entry (cursor.scopeCursor + 1) rest
    refine ⟨by simp only; omega, by simp only; omega, ?_, rfl⟩
    exact ⟨cursor.scopeCursor, word, _, hscope, span_words hwords _, hsegment⟩
  · split at h
    · rename_i hdashes
      split at h
      · rename_i hseparator
        cases h
        refine ⟨by simp only; omega, by simp only; omega, ?_, hseparator, rfl⟩
        rw [hdashes] at hwords
        exact span_words hwords 0
      · cases h
    · split at h
      · exact recognizeFlag_steps hwords h
      · split at h
        · cases h
          exact steps_plain hwords (n := 0) (Nat.zero_le _) rfl rfl (.inr rfl)
        · simp only [Except.ok.injEq] at h
          exact h ▸ recognizePositional_steps hwords

end

set_option linter.unusedVariables false in
def recognizeFrom (schema : OptionSchema) (selected : List Text) (entry : Option CommandEntry)
    (capture : Bool) (words : List Text) (cursor : Cursor) : Except Text (List Tile) :=
  match hwords : words.drop cursor.index with
  | [] => .ok []
  | word :: rest =>
    match hnext : recognizeWord schema selected entry capture cursor word rest with
    | .error message => .error message
    | .ok (token, next) => do
      let tiles ← recognizeFrom schema selected entry capture words next
      return ⟨token, ⟨cursor.index, next.index⟩⟩ :: tiles
termination_by words.length - cursor.index
decreasing_by
  have hsteps := recognizeWord_steps hwords hnext
  have hforward := hsteps.forward
  have hinside := hsteps.inside
  simp only at hforward hinside
  omega

section

variable {schema : OptionSchema} {selected : List Text} {entry : Option CommandEntry}
  {capture : Bool} {words : List Text} {cursor : Cursor}

theorem recognizeFrom_nil (h : words.drop cursor.index = []) :
    recognizeFrom schema selected entry capture words cursor = .ok [] := by
  rw [recognizeFrom]
  split
  · rfl
  · rename_i hcons
    rw [h] at hcons
    cases hcons

theorem recognizeFrom_cons {word : Text} {rest : List Text}
    (h : words.drop cursor.index = word :: rest) :
    recognizeFrom schema selected entry capture words cursor = (do
      let result ← recognizeWord schema selected entry capture cursor word rest
      let tiles ← recognizeFrom schema selected entry capture words result.2
      return ⟨result.1, ⟨cursor.index, result.2.index⟩⟩ :: tiles) := by
  rw [recognizeFrom]
  split
  · rename_i hnil
    rw [h] at hnil
    cases hnil
  · rename_i word' rest' hcons
    obtain ⟨rfl, rfl⟩ := List.cons.inj (h.symm.trans hcons)
    split
    · rename_i message hnext
      rw [hnext]
      rfl
    · rename_i token next hnext
      rw [hnext]
      rfl

theorem recognizeFrom_spec {tiles : List Tile} (hcursor : cursor.index ≤ words.length)
    (h : recognizeFrom schema selected entry capture words cursor = .ok tiles) :
    Span.Tiles cursor.index words.length (tiles.map (·.span)) ∧
      (∀ tile ∈ tiles, tile.token.Justified selected entry words tile.span) ∧
      tiles.countP (·.token.isSeparator) ≤ if cursor.separator.isSome then 1 else 0 := by
  induction hn : words.length - cursor.index using Nat.strongRecOn generalizing cursor tiles with
  | ind n ih =>
    cases hwords : words.drop cursor.index with
    | nil =>
      rw [recognizeFrom_nil hwords] at h
      cases h
      rw [List.drop_eq_nil_iff] at hwords
      exact ⟨Nat.le_antisymm hcursor hwords, by simp, by simp⟩
    | cons word rest =>
      rw [recognizeFrom_cons hwords] at h
      simp only [bind_eq_ok, pure, Except.pure, Except.ok.injEq] at h
      obtain ⟨result, hresult, more, hmore, rfl⟩ := h
      have hsteps := recognizeWord_steps hwords hresult
      have hforward := hsteps.forward
      have hinside := hsteps.inside
      obtain ⟨htiles, hjustified, hseparator⟩ := ih _ (by omega) hinside hmore rfl
      refine ⟨⟨rfl, hforward, htiles⟩, List.forall_mem_cons.mpr ⟨hsteps.justified, hjustified⟩, ?_⟩
      have hsep := hsteps.separator
      rw [List.countP_cons]
      split at hsep
      · rename_i hfirst
        rw [hsep.2] at hseparator
        rw [if_pos hfirst, if_pos hsep.1]
        simpa using hseparator
      · rename_i hfirst
        rw [hsep] at hseparator
        rw [if_neg hfirst]
        exact hseparator

end

def checkEntry (selected : List Text) : Option CommandEntry → Except Text Unit
  | none => .ok ()
  | some e => do
    e.validate
    let scope ← e.scope
    require (scope = selected)
      "the selected scope does not match the registered entry's subcommands".toList

def recognizeStart (windows : Bool) (serde : Serde) (schema : OptionSchema)
    (selected : List Text) (entry : Option CommandEntry) (words : List Text) :
    Except Text Cursor := do
  schema.validate serde
  checkEntry selected entry
  let index ← startIndex windows selected entry words
  return ⟨index, 0, schema.positionalSlots selected, entry.bind (·.separator)⟩

def recognizeTokens (windows : Bool) (serde : Serde) (schema : OptionSchema)
    (selected : List Text) (entry : Option CommandEntry) (capture : Bool) (words : List Text) :
    Except Text (List Tile) := do
  let cursor ← recognizeStart windows serde schema selected entry words
  let tiles ← recognizeFrom schema selected entry capture words cursor
  require (capture → (tiles.filter fun t => t.token matches .occurrence _).length ≤ maxPlan)
    "too many planned option occurrences".toList
  return tiles

end AioLM.Options
