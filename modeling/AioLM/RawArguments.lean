import AioLM.Decimals
import AioLM.OptionCatalog

/-!
Raw engine arguments. They follow the dedicated settings on the command line, so
none may spell an option that has one, by any rule of the engine's parser.
-/

set_option autoImplicit false

namespace AioLM.Catalog

open Options

def flagName (argument : Text) : Text := Text.trim (argument.takeWhile (· != '='))

def dashed (c : Char) : Char := if c = '_' then '-' else c

/-- The option a long argument sets, spelled as the schema spells it. -/
def canonicalFlag (provider : ProviderId) (argument : Text) : Text :=
  let name := flagName argument
  match provider, Text.stripPrefix "--".toList name with
  | .vllm, some (c :: rest) =>
    let key := Text.trimEndMatches (· == '+') ((c :: rest).takeWhile (· != '.'))
    "--".toList ++ key.map dashed
  | _, _ => name

/-- `str::parse::<f64>` gives a finite number. -/
def finiteNumber (t : Text) : Bool := (scanDecimal t).any Decimal.finite

def negativeNumber : Text → Bool
  | '-' :: rest => finiteNumber rest
  | _ => false

def dedicated (provider : ProviderId) : List Text :=
  appManagedFlags provider ++ (schema provider).filterMap (·.flag)

def rawArgumentProblem (provider : ProviderId) (argument : Text) : Option (String × Text) :=
  if argument = "--".toList then
    some ("type", "a bare -- would turn every later argument into a positional value".toList)
  else if startsWithDashes argument then
    let name := canonicalFlag provider argument
    if name ∈ dedicated provider then
      some ("managed", name ++
        " has a dedicated setting and cannot be passed as a raw argument".toList)
    else
      -- any unambiguous prefix of a long option is accepted by both servers
      match (dedicated provider).find? name.isPrefixOf with
      | some full =>
        some ("managed", name ++ " abbreviates ".toList ++ full ++
          ", which has a dedicated setting; spell out the full flag".toList)
      | none => none
  else if startsWith '-' argument && !negativeNumber argument then
    some ("short", "short option ".toList ++ argument ++
      " is not accepted; use the long --flag spelling so it can be checked".toList)
  else none

def trustRemoteCodeKey : Text := "trust_remote_code".toList
def maxExtraArgs : Nat := 128

def checkExtraArg (provider : ProviderId) (argument : Json) : Option OptionIssue :=
  match argument.asStr with
  | some text =>
    if wholeText text 32768 then
      (rawArgumentProblem provider (Text.trim text)).map fun p => issue extraArgsKey p.1 p.2
    else some (issue extraArgsKey "type" "raw arguments must be non-empty text".toList)
  | none => some (issue extraArgsKey "type" "raw arguments must be non-empty text".toList)

def tooManyArguments : List OptionIssue :=
  [issue extraArgsKey "type" (extraArgsKey ++ " must be a list of at most ".toList ++
    Nat.toDigits 10 maxExtraArgs ++ " arguments".toList)]

def checkExtraArgs (provider : ProviderId) (value : Json) : List OptionIssue :=
  match value.asArray with
  | some arguments =>
    if arguments.length ≤ maxExtraArgs then arguments.filterMap (checkExtraArg provider)
    else tooManyArguments
  | none => tooManyArguments

def checkTrust : Json → List OptionIssue
  | .bool false => []
  | _ => [issue trustRemoteCodeKey "managed"
      "AioLM does not run code from model repositories; clear trust_remote_code".toList]

def validateEntry (serde : Serde) (provider : ProviderId) (key : Text) (value : Json) :
    List OptionIssue :=
  if key = extraArgsKey then checkExtraArgs provider value
  else if key = trustRemoteCodeKey then checkTrust value
  else
    match (schema provider).find? (·.key = key) with
    | none =>
      [issue key "unknown" (key ++ " is not an option of ".toList ++ provider.server)]
    | some spec => (checkValue serde spec value).toList

/-- Problems are reported, never repaired; a launch with any issue is refused. -/
def validate (serde : Serde) (provider : ProviderId) (options : KeyMap Text Json) :
    List OptionIssue :=
  options.entries.flatMap fun e => validateEntry serde provider e.1 e.2

/-- The name an engine's parser looks up: what precedes the equals sign; for vLLM
a dotted key without its fields, with dashes for underscores. -/
def engineName (provider : ProviderId) (argument : Text) : Text :=
  let name := argument.takeWhile (· != '=')
  match provider with
  | .vllm => if startsWithDashes argument then (name.takeWhile (· != '.')).map dashed else name
  | .mlxVlm => name

/-- An argument denotes an option of a parser: by its name, or by a prefix that
no other of its options has. -/
structure Denotes (provider : ProviderId) (known : List Text) (argument option : Text) : Prop where
  dash : startsWith '-' argument
  mem : option ∈ known
  named : engineName provider argument = option ∨
    engineName provider argument ∉ known ∧ engineName provider argument <+: option ∧
      ∀ other ∈ known, engineName provider argument <+: other → other = option

theorem Denotes.isPrefix {provider : ProviderId} {known : List Text} {argument option : Text}
    (h : Denotes provider known argument option) : engineName provider argument <+: option := by
  obtain heq | ⟨-, hbegins, -⟩ := h.named
  · exact heq ▸ List.prefix_rfl
  · exact hbegins

/-- The spellings that turn a dedicated toggle off. -/
def negations (provider : ProviderId) : List Text :=
  (schema provider).filterMap fun spec =>
    if spec.kind = .toggle then spec.flag.map negated else none

/-- No raw argument denotes a flag that has a dedicated setting, nor the negation
of one. -/
def Separate (provider : ProviderId) (known : List Text) (options : KeyMap Text Json) : Prop :=
  ∀ argument ∈ extraArgs options, ∀ option, Denotes provider known argument option →
    option ∉ dedicated provider ∧ option ∉ negations provider

/-- Characters that a parser name and its spelling in the schema share. -/
def plainChar (c : Char) : Bool := !Text.isWhitespace c && c != '+' && c != '='

theorem plainChar_spec {c : Char} (h : plainChar c = true) :
    Text.isWhitespace c = false ∧ c ≠ '+' ∧ c ≠ '=' := by
  simpa [plainChar, and_assoc] using h

theorem trim_plain {name : Text} (h : ∀ c ∈ name, plainChar c = true) : Text.trim name = name := by
  have hblank : ∀ c ∈ name, Text.isWhitespace c = false := fun c hc => (plainChar_spec (h c hc)).1
  have hstart (t : Text) (ht : ∀ c ∈ t, Text.isWhitespace c = false) :
      t.dropWhile Text.isWhitespace = t := by
    cases t with
    | nil => rfl
    | cons c t => rw [List.dropWhile_cons_of_neg (by simp [ht c List.mem_cons_self])]
  rw [Text.trim, Text.trimEndMatches, Text.trimStart, hstart name hblank,
    hstart name.reverse fun c hc => hblank c (List.mem_reverse.mp hc), List.reverse_reverse]

/-- A name survives trimming, whatever visible character follows it. -/
theorem trim_plain_append {name : Text} (h : ∀ c ∈ name, plainChar c = true) {c : Char}
    (hc : Text.isWhitespace c = false) (hne : name ≠ []) (more : Text) :
    Text.trim (name ++ c :: more) = name ++ c :: Text.trimEndMatches Text.isWhitespace more := by
  have hstart : Text.trimStart (name ++ c :: more) = name ++ c :: more := by
    obtain _ | ⟨first, name⟩ := name
    · exact absurd rfl hne
    · have hfirst := (plainChar_spec (h first List.mem_cons_self)).1
      rw [Text.trimStart, List.cons_append, List.dropWhile_cons_of_neg (by simp [hfirst])]
  rw [Text.trim, hstart, Text.trimEndMatches_append hc]

theorem takeWhile_plain {name : Text} (h : ∀ c ∈ name, plainChar c = true) (more : Text) :
    (name ++ more).takeWhile (· != '=') = name ++ more.takeWhile (· != '=') := by
  rw [List.takeWhile_append_of_pos]
  intro c hc
  simpa using (plainChar_spec (h c hc)).2.2

theorem flagName_trim {name : Text} (h : ∀ c ∈ name, plainChar c = true) (hne : name ≠ [])
    {more : Text} (hmore : more = [] ∨ ∃ value, more = '=' :: value) :
    flagName (Text.trim (name ++ more)) = name := by
  obtain rfl | ⟨value, rfl⟩ := hmore
  · have htake := takeWhile_plain h []
    rw [List.append_nil] at htake ⊢
    rw [trim_plain h, flagName, htake, List.takeWhile_nil, List.append_nil, trim_plain h]
  · rw [trim_plain_append h (by decide) hne, flagName, takeWhile_plain h,
      List.takeWhile_cons_of_neg (by simp), List.append_nil, trim_plain h]

theorem flagName_trim_dotted {name : Text} (h : ∀ c ∈ name, plainChar c = true) (hne : name ≠ [])
    (more : Text) : ∃ fields, flagName (Text.trim (name ++ '.' :: more)) = name ++ '.' :: fields := by
  rw [trim_plain_append h (by decide) hne, flagName, takeWhile_plain h,
    List.takeWhile_cons_of_pos (by simp), trim_plain_append h (by decide) hne]
  exact ⟨_, rfl⟩

theorem plainChar_dashed {c : Char} (h : plainChar (dashed c) = true) : plainChar c = true := by
  by_cases hc : c = '_'
  · subst hc
    rfl
  · rwa [dashed, if_neg hc] at h

theorem dropWhile_ne_eq (c : Char) (t : Text) :
    t.dropWhile (· != c) = [] ∨ ∃ more, t.dropWhile (· != c) = c :: more := by
  cases hdrop : t.dropWhile (· != c) with
  | nil => exact .inl rfl
  | cons x more =>
    have hne : t.dropWhile (· != c) ≠ [] := by simp [hdrop]
    have hhead := List.head_dropWhile_not (· != c) hne
    simp only [hdrop, List.head_cons, bne_eq_false_iff_eq] at hhead
    exact .inr ⟨more, by rw [hhead]⟩

theorem startsWithDashes_iff {t : Text} :
    startsWithDashes t = true ↔ ∃ rest, t = '-' :: '-' :: rest := by
  rw [startsWithDashes, List.isPrefixOf_iff_prefix]
  exact ⟨fun ⟨rest, h⟩ => ⟨rest, h.symm⟩, fun ⟨rest, h⟩ => ⟨rest, h.symm⟩⟩

theorem canonicalFlag_of_flagName {argument body fields : Text}
    (hbody : ∀ c ∈ body, plainChar c = true ∧ c ≠ '.')
    (hfields : fields = [] ∨ ∃ more, fields = '.' :: more)
    (hname : flagName argument = '-' :: '-' :: body ++ fields) :
    canonicalFlag .vllm argument = ('-' :: '-' :: body).map dashed := by
  have hstrip : Text.stripPrefix "--".toList (flagName argument) = some (body ++ fields) := by
    rw [hname]
    exact Text.stripPrefix_append "--".toList _
  have hkey : (body ++ fields).takeWhile (· != '.') = body := by
    rw [List.takeWhile_append_of_pos fun c hc => by simpa using (hbody c hc).2]
    obtain rfl | ⟨more, rfl⟩ := hfields
    · simp
    · simp
  have hplus : Text.trimEndMatches (· == '+') body = body := by
    have hlast : body.reverse.dropWhile (· == '+') = body.reverse := by
      cases hrev : body.reverse with
      | nil => rfl
      | cons c rest =>
        have hc := (plainChar_spec (hbody c (List.mem_reverse.mp (by simp [hrev]))).1).2.1
        rw [List.dropWhile_cons_of_neg (by simpa using hc)]
    rw [Text.trimEndMatches, hlast, List.reverse_reverse]
  unfold canonicalFlag
  simp only [hstrip]
  cases hrest : body ++ fields with
  | nil =>
    obtain ⟨rfl, rfl⟩ := List.append_eq_nil_iff.mp hrest
    exact hname
  | cons c rest =>
    simp only
    rw [← hrest, hkey, hplus]
    rfl

theorem canonicalFlag_trim {provider : ProviderId} {argument : Text}
    (hdash : startsWithDashes argument = true)
    (hplain : ∀ c ∈ engineName provider argument, plainChar c = true) :
    canonicalFlag provider (Text.trim argument) = engineName provider argument := by
  have hsplit : argument.takeWhile (· != '=') ++ argument.dropWhile (· != '=') = argument :=
    List.takeWhile_append_dropWhile
  have hvalue := dropWhile_ne_eq '=' argument
  obtain ⟨rest, hrest⟩ := startsWithDashes_iff.mp hdash
  have hlong : argument.takeWhile (· != '=') = '-' :: '-' :: rest.takeWhile (· != '=') := by
    simp [hrest]
  cases provider with
  | mlxVlm =>
    have hname := flagName_trim hplain (by simp [engineName, hlong]) hvalue
    simp only [engineName, hsplit] at hname
    simp [canonicalFlag, engineName, hname]
  | vllm =>
    set long := rest.takeWhile (· != '=') with hlongdef
    set body := long.takeWhile (· != '.') with hbody
    have hengine : engineName .vllm argument = ('-' :: '-' :: body).map dashed := by
      simp [engineName, hdash, hlong, hbody]
    have hclean : ∀ c ∈ body, plainChar c = true ∧ c ≠ '.' := by
      intro c hc
      refine ⟨plainChar_dashed (hplain _ ?_), by simpa using List.mem_takeWhile_imp hc⟩
      rw [hengine]
      exact List.mem_map_of_mem (List.mem_cons_of_mem _ (List.mem_cons_of_mem _ hc))
    have hfirst : ∀ c ∈ '-' :: '-' :: body, plainChar c = true := by
      intro c hc
      simp only [List.mem_cons] at hc
      obtain rfl | rfl | hc := hc
      · rfl
      · rfl
      · exact (hclean c hc).1
    have hwhole : argument = '-' :: '-' :: body ++
        (long.dropWhile (· != '.') ++ argument.dropWhile (· != '=')) := by
      rw [List.cons_append, List.cons_append, ← List.append_assoc,
        List.takeWhile_append_dropWhile, ← List.cons_append, ← List.cons_append, ← hlong, hsplit]
    rw [hengine]
    obtain hnone | ⟨fields, hfields⟩ := dropWhile_ne_eq '.' long
    · rw [hnone, List.nil_append] at hwhole
      have hname := flagName_trim hfirst (by simp) hvalue
      rw [← hwhole] at hname
      exact canonicalFlag_of_flagName hclean (.inl rfl) (hname.trans (List.append_nil _).symm)
    · rw [hfields] at hwhole
      obtain ⟨more, hname⟩ := flagName_trim_dotted hfirst (by simp)
        (fields ++ argument.dropWhile (· != '='))
      rw [← List.cons_append, ← hwhole] at hname
      exact canonicalFlag_of_flagName hclean (.inr ⟨more, rfl⟩) hname

theorem dedicated_spec {provider : ProviderId} {flag : Text} (h : flag ∈ dedicated provider) :
    startsWithDashes flag = true ∧ ∀ c ∈ flag, plainChar c = true := by
  have hall : ((dedicated provider).all fun f => startsWithDashes f && f.all plainChar) = true := by
    cases provider with
    | vllm =>
      rw [@Text.Spelled.eq (dedicated .vllm) _ (by repeat constructor)]
      decide +kernel
    | mlxVlm =>
      rw [@Text.Spelled.eq (dedicated .mlxVlm) _ (by repeat constructor)]
      decide +kernel
  have hflag := List.all_eq_true.mp hall flag h
  rwa [Bool.and_eq_true, List.all_eq_true] at hflag

theorem trim_dash (rest : Text) :
    Text.trim ('-' :: rest) = '-' :: Text.trimEndMatches Text.isWhitespace rest :=
  Text.trimEndMatches_append rfl [] rest

theorem finiteNumber_equals (value : Text) : finiteNumber ('=' :: value) = false := rfl

theorem problem_of_denotes {provider : ProviderId} {known : List Text} {argument option : Text}
    (h : Denotes provider known argument option) (hoption : option ∈ dedicated provider) :
    (rawArgumentProblem provider (Text.trim argument)).isSome := by
  obtain ⟨hlong, hplain⟩ := dedicated_spec hoption
  have hbegins := h.isPrefix
  obtain ⟨rest, rfl⟩ : ∃ rest, argument = '-' :: rest := by
    have hdash := h.dash
    cases argument with
    | nil => cases hdash
    | cons c rest =>
      simp only [startsWith, List.head?_cons, beq_iff_eq, Option.some.injEq] at hdash
      exact ⟨rest, by rw [hdash]⟩
  by_cases hdashes : startsWithDashes ('-' :: rest) = true
  · have hname : canonicalFlag provider (Text.trim ('-' :: rest)) =
        engineName provider ('-' :: rest) :=
      canonicalFlag_trim hdashes fun c hc => hplain c (hbegins.mem hc)
    have htrimmed : startsWithDashes (Text.trim ('-' :: rest)) = true := by
      obtain ⟨more, hmore⟩ := startsWithDashes_iff.mp hdashes
      rw [startsWithDashes_iff, hmore]
      exact ⟨_, Text.trimEndMatches_append rfl ['-'] more⟩
    have hfound : ((dedicated provider).find?
        (engineName provider ('-' :: rest)).isPrefixOf).isSome := by
      rw [List.find?_isSome]
      exact ⟨option, hoption, List.isPrefixOf_iff_prefix.mpr hbegins⟩
    obtain ⟨full, hfull⟩ := Option.isSome_iff_exists.mp hfound
    simp only [rawArgumentProblem, htrimmed, hname, hfull, if_true]
    split
    · rfl
    · split <;> rfl
  -- a short name is no prefix of a long flag unless nothing follows its dash
  · have hshort : engineName provider ('-' :: rest) = '-' :: rest.takeWhile (· != '=') := by
      cases provider <;> simp [engineName, hdashes]
    obtain ⟨flag, rfl⟩ := startsWithDashes_iff.mp hlong
    have hempty : rest.takeWhile (· != '=') = [] := by
      rw [hshort, List.cons_prefix_cons] at hbegins
      cases rest with
      | nil => rfl
      | cons c more =>
        by_cases hc : c = '='
        · simp [hc]
        · rw [List.takeWhile_cons_of_pos (by simpa using hc), List.cons_prefix_cons] at hbegins
          exact absurd (startsWithDashes_iff.mpr ⟨more, by rw [hbegins.2.1]⟩) hdashes
    have hnumber : finiteNumber (Text.trimEndMatches Text.isWhitespace rest) = false := by
      have hrest := List.takeWhile_append_dropWhile (p := (· != '=')) (l := rest)
      rw [hempty, List.nil_append] at hrest
      obtain hnil | ⟨value, hvalue⟩ := dropWhile_ne_eq '=' rest
      · rw [← hrest, hnil]
        rfl
      · rw [← hrest, hvalue]
        have hcut := Text.trimEndMatches_append (p := Text.isWhitespace) (x := '=') rfl [] value
        rw [List.nil_append, List.nil_append] at hcut
        rw [hcut, finiteNumber_equals]
    have hstill : startsWithDashes (Text.trim ('-' :: rest)) = false := by
      rw [Bool.eq_false_iff, trim_dash]
      intro hlonger
      obtain ⟨more, hmore⟩ := startsWithDashes_iff.mp hlonger
      obtain ⟨cut, hcut, -⟩ := Text.trimEndMatches_split Text.isWhitespace rest
      rw [(List.cons.inj hmore).2] at hcut
      exact hdashes (startsWithDashes_iff.mpr ⟨more ++ cut, by rw [hcut]; rfl⟩)
    have hbare : Text.trim ('-' :: rest) ≠ "--".toList := by
      intro hbare
      rw [hbare] at hstill
      cases hstill
    have hnegative : negativeNumber (Text.trim ('-' :: rest)) = false := by
      rw [trim_dash]
      exact hnumber
    have hdash : startsWith '-' (Text.trim ('-' :: rest)) = true := by
      rw [trim_dash]
      rfl
    rw [rawArgumentProblem, if_neg hbare, hstill, if_neg Bool.false_ne_true, hdash, hnegative,
      if_pos (by rfl)]
    rfl

theorem problem_of_validate {serde : Serde} {provider : ProviderId} {options : KeyMap Text Json}
    (h : validate serde provider options = []) {argument : Text}
    (hargument : argument ∈ extraArgs options) :
    rawArgumentProblem provider (Text.trim argument) = none := by
  obtain ⟨item, hitem, htext⟩ := List.mem_filterMap.mp hargument
  cases hvalue : options.get extraArgsKey with
  | none => simp [hvalue] at hitem
  | some value =>
    have hentry := List.flatMap_eq_nil_iff.mp h _ (KeyMap.get_eq_some.mp hvalue)
    rw [validateEntry, if_pos rfl, checkExtraArgs] at hentry
    cases harray : value.asArray with
    | none => simp [hvalue, harray] at hitem
    | some items =>
      simp only [hvalue, Option.bind_some, harray, Option.getD_some] at hitem
      simp only [harray] at hentry
      split at hentry
      · have hnone := List.filterMap_eq_nil_iff.mp hentry item hitem
        simp only [checkExtraArg, htext] at hnone
        split at hnone
        · exact Option.map_eq_none_iff.mp hnone
        · cases hnone
      · cases hentry

theorem not_dedicated_of_denotes {serde : Serde} {provider : ProviderId} {known : List Text}
    {options : KeyMap Text Json} (h : validate serde provider options = []) {argument : Text}
    (hargument : argument ∈ extraArgs options) {option : Text}
    (hdenotes : Denotes provider known argument option) : option ∉ dedicated provider := by
  intro hdedicated
  have hproblem := problem_of_denotes hdenotes hdedicated
  rw [problem_of_validate h hargument] at hproblem
  cases hproblem

theorem separate_mlxVlm {serde : Serde} {known : List Text} {options : KeyMap Text Json}
    (h : validate serde .mlxVlm options = []) : Separate .mlxVlm known options := by
  have hnone : negations .mlxVlm = [] := by decide
  intro argument hargument option hdenotes
  refine ⟨not_dedicated_of_denotes h hargument hdenotes, ?_⟩
  rw [hnone]
  exact List.not_mem_nil

/-- Accepted raw arguments keep clear of the dedicated settings exactly when none
of them turns a dedicated toggle off by its negated spelling. -/
theorem raw_arguments_separate_iff (serde : Serde) (provider : ProviderId) (known : List Text)
    (options : KeyMap Text Json) (h : validate serde provider options = []) :
    Separate provider known options ↔
      ∀ argument ∈ extraArgs options, ∀ option ∈ negations provider,
        ¬ Denotes provider known argument option := by
  constructor
  · intro hseparate argument hargument option hoption hdenotes
    exact (hseparate argument hargument option hdenotes).2 hoption
  · intro hnegations argument hargument option hdenotes
    refine ⟨not_dedicated_of_denotes h hargument hdenotes, fun hoption => ?_⟩
    exact hnegations argument hargument option hoption hdenotes

def rawOptions (arguments : List String) : KeyMap Text Json :=
  KeyMap.empty.insert extraArgsKey (.array (arguments.map Json.text))

/-- The spellings of one toggle and an option without a dedicated setting. -/
def parserOptions : List Text :=
  ["--enable-prefix-caching", "--no-enable-prefix-caching", "--disable-log-stats"].map
    String.toList

theorem raw_arguments_separate_iff_stats :
    Separate .vllm parserOptions (rawOptions ["--disable_log_stats", "-1.5"]) := by
  obtain ⟨hvalid, hnone⟩ : validate .plain .vllm (rawOptions ["--disable_log_stats", "-1.5"]) = [] ∧
      ((extraArgs (rawOptions ["--disable_log_stats", "-1.5"])).all fun a =>
        (negations .vllm).all fun o => !(engineName .vllm a).isPrefixOf o) = true := by
    decide +kernel
  refine (raw_arguments_separate_iff .plain .vllm parserOptions _ hvalid).mpr ?_
  intro argument hargument option hoption hdenotes
  have hnot := List.all_eq_true.mp (List.all_eq_true.mp hnone argument hargument) option hoption
  simp [List.isPrefixOf_iff_prefix.mpr hdenotes.isPrefix] at hnot

/-- The saved toggle is on, and a raw argument after it turns it off. -/
def overridden : KeyMap Text Json :=
  (rawOptions ["--no-enable-prefix-caching"]).insert "enable_prefix_caching".toList (.bool true)

theorem negated_toggle_accepted :
    validate .plain .vllm overridden = [] ∧
      launchArgs .plain .vllm overridden =
        ["--enable-prefix-caching", "--no-enable-prefix-caching"].map String.toList ∧
      ¬ Separate .vllm parserOptions overridden := by
  obtain ⟨hvalid, hlaunch, hargument, hnegation⟩ : validate .plain .vllm overridden = [] ∧
      launchArgs .plain .vllm overridden =
        ["--enable-prefix-caching", "--no-enable-prefix-caching"].map String.toList ∧
      "--no-enable-prefix-caching".toList ∈ extraArgs overridden ∧
      "--no-enable-prefix-caching".toList ∈ negations .vllm := by decide +kernel
  refine ⟨hvalid, hlaunch, fun hseparate => ?_⟩
  have hdenotes : Denotes .vllm parserOptions "--no-enable-prefix-caching".toList
      "--no-enable-prefix-caching".toList :=
    ⟨by decide, by decide +kernel, .inl (by decide +kernel)⟩
  exact (hseparate _ hargument _ hdenotes).2 hnegation

end AioLM.Catalog
