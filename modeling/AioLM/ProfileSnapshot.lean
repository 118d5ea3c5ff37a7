import AioLM.ProfileUpdates
import AioLM.ServerArguments

/-!
The settings a profile stores of a configuration, without the authentication values and
the managed arguments of the server command line.
-/

set_option autoImplicit false

namespace AioLM.Profiles

open ServerArguments

section Arguments

/-- `argument.trim().split('=').next()` -/
def argumentName (argument : Text) : Text := (Text.trim argument).takeWhile (· ≠ '=')

def isStripped (argument : Text) : Bool :=
  authenticationArgument argument || oneOf APP_MANAGED_SERVER_ARGS (argumentName argument)

/-- How many words after a stripped argument may be its values. -/
def valueCount (argument : Text) : Nat :=
  if argument.contains '=' then 0
  else if argumentName argument = "--lora-scaled".toList then 2
  else 1

variable (isAlphabetic : Char → Bool)

/-- Anything but dashes followed by a letter. -/
def readsAsValue (word : Text) : Bool :=
  !(word.dropWhile (· = '-')).head?.any isAlphabetic || !(['-'].isPrefixOf word)

/-- The arguments that stay, where the first `pending` words may be values of a
stripped argument before them. -/
def keptArgs (pending : Nat) : List Text → List Text
  | [] => []
  | argument :: rest =>
    if 0 < pending ∧ readsAsValue isAlphabetic argument then keptArgs (pending - 1) rest
    else if isStripped argument then keptArgs (valueCount argument) rest
    else argument :: keptArgs 0 rest

end Arguments

section Snapshot

variable {C : Type} (isAlphabetic : Char → Bool) (exec : Execution C)
  (options : C → KeyMap Text (KeyMap Text Json))

/-- `provider_of`: what does not parse is llama.cpp. -/
def providerOf (launch : Launch C) : Text :=
  (parseProvider launch.activeProvider).getD llamaProvider

def providerOptions (launch : Launch C) (provider : Text) : KeyMap Text Json :=
  ((options launch.other).get provider).getD .empty

/-- The settings of an engine other than llama.cpp that a profile stores. -/
def engineFields : List Text :=
  ["provider_options", "request_timeout_seconds", "sleep_idle_seconds"].map String.toList

/-- The saved fields without the model and the runtime they were used with. -/
def storedFields (launch : Launch C) : KeyMap Text Json :=
  ((exec.snapshot launch).fields.erase "active_model".toList).filterMap fun key value =>
    if runtimeField key then none else some value

def llamaFields (settings : KeyMap Text Json) (chosen : List (Text × Json)) : KeyMap Text Json :=
  if chosen = [] then settings.erase "provider_options".toList
  else settings.insert "provider_options".toList (.object [(llamaProvider, .object chosen)])

def otherFields (settings : KeyMap Text Json) (provider : Text) (chosen : List (Text × Json)) :
    KeyMap Text Json :=
  (settings.filterMap fun key value => if engineFields.contains key then some value else none).insert
    "provider_options".toList (.object [(provider, .object chosen)])

def profileSnapshot (launch : Launch C) : KeyMap Text Json :=
  let launch := { launch with serverArgs := keptArgs isAlphabetic 0 launch.serverArgs }
  let settings := storedFields exec launch
  let chosen := (providerOptions options launch (providerOf launch)).entries
  if providerOf launch = llamaProvider then llamaFields settings chosen
  else otherFields settings launch.activeProvider chosen

/-- The saved form of a configuration holds its server arguments under their own key. -/
structure SerializesArgs (exec : Execution C) : Prop where
  serverArgs : ∀ launch : Launch C, (exec.snapshot launch).fields.get "server_args".toList =
    some (.array (launch.serverArgs.map .string))
  others : ∀ (launch : Launch C) (arguments : List Text) (key : Text), key ≠ "server_args".toList →
    (exec.snapshot { launch with serverArgs := arguments }).fields.get key =
      (exec.snapshot launch).fields.get key

end Snapshot

section Arguments

variable {isAlphabetic : Char → Bool}

/-- One dash or more, and a letter behind them. -/
def optionLike (isAlphabetic : Char → Bool) : Text → Bool
  | '-' :: rest => (rest.dropWhile (· = '-')).head?.any isAlphabetic
  | _ => false

theorem readsAsValue_eq (word : Text) :
    readsAsValue isAlphabetic word = !optionLike isAlphabetic word := by
  cases word with
  | nil => rfl
  | cons c rest =>
    by_cases hdash : c = '-'
    · subst hdash
      simp [readsAsValue, optionLike, List.isPrefixOf]
    · have hplain : optionLike isAlphabetic (c :: rest) = false := by
        unfold optionLike
        split
        · rename_i heq
          exact absurd (List.cons.inj heq).1 hdash
        · rfl
      simp [readsAsValue, hplain, List.isPrefixOf, Ne.symm hdash]

/-- What one argument leaves of the values still to come. -/
def nextPending (isAlphabetic : Char → Bool) (pending : Nat) (argument : Text) : Nat :=
  if 0 < pending ∧ !optionLike isAlphabetic argument then pending - 1
  else if isStripped argument then valueCount argument
  else 0

def pendingValues (isAlphabetic : Char → Bool) (arguments : List Text) : Nat :=
  arguments.foldl (nextPending isAlphabetic) 0

def Standing (isAlphabetic : Char → Bool) (before : List Text) (argument : Text) : Prop :=
  pendingValues isAlphabetic before = 0 ∨ optionLike isAlphabetic argument

theorem keptArgs_append (pending : Nat) (before after : List Text) :
    keptArgs isAlphabetic pending (before ++ after) =
      keptArgs isAlphabetic pending before ++
        keptArgs isAlphabetic (before.foldl (nextPending isAlphabetic) pending) after := by
  induction before generalizing pending with
  | nil => rfl
  | cons argument before ih =>
    rw [List.cons_append, keptArgs, keptArgs, List.foldl_cons, nextPending, readsAsValue_eq]
    split
    · exact ih _
    · split
      · exact ih _
      · rw [ih, List.cons_append]

theorem Standing.not_taken {before : List Text} {argument : Text}
    (h : Standing isAlphabetic before argument) :
    ¬ (0 < before.foldl (nextPending isAlphabetic) 0 ∧
      readsAsValue isAlphabetic argument = true) := by
  rw [readsAsValue_eq]
  rintro ⟨hpending, hreads⟩
  rcases h with hzero | hoption
  · rw [pendingValues] at hzero
    omega
  · rw [hoption] at hreads
    cases hreads

theorem keptArgs_standing {before : List Text} {word : Text}
    (hstanding : Standing isAlphabetic before word) (hword : isStripped word = false)
    (after : List Text) :
    keptArgs isAlphabetic 0 (before ++ word :: after) =
      keptArgs isAlphabetic 0 before ++ word :: keptArgs isAlphabetic 0 after := by
  rw [keptArgs_append, keptArgs, if_neg hstanding.not_taken, hword, if_neg Bool.false_ne_true]

theorem keptArgs_value {before : List Text} {flag : Text} (hflag : authenticationArgument flag)
    (hbare : '=' ∉ flag) (hstanding : Standing isAlphabetic before flag) {value : Text}
    (hvalue : optionLike isAlphabetic value = false) (after : List Text) :
    keptArgs isAlphabetic 0 (before ++ flag :: value :: after) =
      keptArgs isAlphabetic 0 before ++
        keptArgs isAlphabetic (valueCount flag - 1) after := by
  have hstripped : isStripped flag = true := by simp [isStripped, hflag]
  have hcount : 0 < valueCount flag := by
    rw [valueCount, if_neg (by simpa using hbare)]
    split <;> decide
  have hreads : readsAsValue isAlphabetic value := by rw [readsAsValue_eq, hvalue, Bool.not_false]
  rw [keptArgs_append, keptArgs, if_neg hstanding.not_taken, if_pos hstripped, keptArgs,
    if_pos ⟨hcount, hreads⟩]

theorem not_isStripped_of_mem {pending : Nat} {arguments : List Text} {word : Text}
    (h : word ∈ keptArgs isAlphabetic pending arguments) : isStripped word = false := by
  induction arguments generalizing pending with
  | nil => cases h
  | cons argument rest ih =>
    rw [keptArgs] at h
    split at h
    · exact ih h
    · split at h
      · exact ih h
      · rename_i hstripped
        rcases List.mem_cons.mp h with rfl | h
        · exact Bool.of_not_eq_true hstripped
        · exact ih h

end Arguments

section Snapshot

variable {C : Type} {isAlphabetic : Char → Bool} {exec : Execution C}
  {options : C → KeyMap Text (KeyMap Text Json)} {launch : Launch C}

theorem get_storedFields (h : SerializesArgs exec) (launch : Launch C) :
    (storedFields exec launch).get "server_args".toList =
      some (.array (launch.serverArgs.map .string)) := by
  have hmodel : "server_args".toList ≠ "active_model".toList := by decide
  have hruntime : runtimeField "server_args".toList = false := by decide
  rw [storedFields, KeyMap.get_filterMap, KeyMap.get_erase, if_neg hmodel, h.serverArgs]
  exact congrArg (fun b => if b = true then none else some (Json.array _)) hruntime

theorem get_storedFields_of_ne (h : SerializesArgs exec) (launch : Launch C) (a b : List Text)
    {key : Text} (hkey : key ≠ "server_args".toList) :
    (storedFields exec { launch with serverArgs := a }).get key =
      (storedFields exec { launch with serverArgs := b }).get key := by
  simp only [storedFields, KeyMap.get_filterMap, KeyMap.get_erase, h.others launch a key hkey,
    h.others launch b key hkey]

theorem get_llamaFields (settings : KeyMap Text Json) (chosen : List (Text × Json)) :
    (llamaFields settings chosen).get "server_args".toList =
      settings.get "server_args".toList := by
  have hoptions : "server_args".toList ≠ "provider_options".toList := by decide
  unfold llamaFields
  split
  · rw [KeyMap.get_erase, if_neg hoptions]
  · rw [KeyMap.get_insert, if_neg hoptions]

theorem get_otherFields (settings : KeyMap Text Json) (provider : Text)
    (chosen : List (Text × Json)) :
    (otherFields settings provider chosen).get "server_args".toList = none := by
  have hoptions : "server_args".toList ≠ "provider_options".toList := by decide
  have hengine : engineFields.contains "server_args".toList = false := by decide
  rw [otherFields, KeyMap.get_insert, if_neg hoptions, KeyMap.get_filterMap, Option.bind_eq_none_iff]
  intro value _
  rw [hengine]
  rfl

theorem otherFields_congr {a b : KeyMap Text Json}
    (h : ∀ key, engineFields.contains key → a.get key = b.get key) (provider : Text)
    (chosen : List (Text × Json)) : otherFields a provider chosen = otherFields b provider chosen := by
  refine KeyMap.ext_get fun key => ?_
  rw [otherFields, otherFields, KeyMap.get_insert, KeyMap.get_insert, KeyMap.get_filterMap,
    KeyMap.get_filterMap]
  by_cases hkey : engineFields.contains key
  · rw [h key hkey]
  · have hnone (m : KeyMap Text Json) : ((m.get key).bind fun value =>
        if engineFields.contains key = true then some value else none) = none := by
      rw [Option.bind_eq_none_iff]
      intro value _
      rw [if_neg hkey]
    rw [hnone a, hnone b]

theorem profileSnapshot_llama (hllama : providerOf launch = llamaProvider) :
    profileSnapshot isAlphabetic exec options launch = llamaFields
      (storedFields exec { launch with serverArgs := keptArgs isAlphabetic 0 launch.serverArgs })
      (providerOptions options launch (providerOf launch)).entries := if_pos hllama

theorem profileSnapshot_other (hother : providerOf launch ≠ llamaProvider) :
    profileSnapshot isAlphabetic exec options launch = otherFields
      (storedFields exec { launch with serverArgs := keptArgs isAlphabetic 0 launch.serverArgs })
      launch.activeProvider (providerOptions options launch (providerOf launch)).entries :=
  if_neg hother

theorem profileSnapshot_congr {a b : List Text}
    (h : keptArgs isAlphabetic 0 a = keptArgs isAlphabetic 0 b) :
    profileSnapshot isAlphabetic exec options { launch with serverArgs := a } =
      profileSnapshot isAlphabetic exec options { launch with serverArgs := b } := by
  simp only [profileSnapshot, h]

theorem profileSnapshot_engine (h : SerializesArgs exec) (hother : providerOf launch ≠ llamaProvider)
    (a b : List Text) : profileSnapshot isAlphabetic exec options { launch with serverArgs := a } =
      profileSnapshot isAlphabetic exec options { launch with serverArgs := b } := by
  have hprovider (arguments : List Text) :
      providerOf { launch with serverArgs := arguments } ≠ llamaProvider := hother
  rw [profileSnapshot_other (hprovider a), profileSnapshot_other (hprovider b)]
  refine otherFields_congr (fun key hkey => ?_) _ _
  have hne : key ≠ "server_args".toList := by
    rintro rfl
    revert hkey
    decide
  exact get_storedFields_of_ne h launch _ _ hne

structure Discreet (isAlphabetic : Char → Bool) (exec : Execution C)
    (options : C → KeyMap Text (KeyMap Text Json)) (launch : Launch C) : Prop where
  engine : providerOf launch ≠ llamaProvider →
    (profileSnapshot isAlphabetic exec options launch).get "server_args".toList = none ∧
      ∀ arguments, profileSnapshot isAlphabetic exec options
        { launch with serverArgs := arguments } = profileSnapshot isAlphabetic exec options launch
  values : ∀ before flag value other after, launch.serverArgs = before ++ flag :: value :: after →
    authenticationArgument flag → '=' ∉ flag → Standing isAlphabetic before flag →
      optionLike isAlphabetic value = false → optionLike isAlphabetic other = false →
        profileSnapshot isAlphabetic exec options
          { launch with serverArgs := before ++ flag :: other :: after } =
            profileSnapshot isAlphabetic exec options launch
  stored : providerOf launch = llamaProvider →
    (profileSnapshot isAlphabetic exec options launch).get "server_args".toList =
      some (.array ((keptArgs isAlphabetic 0 launch.serverArgs).map .string))
  clean : ∀ word ∈ keptArgs isAlphabetic 0 launch.serverArgs, isStripped word = false
  order : ∀ before word after, launch.serverArgs = before ++ word :: after →
    isStripped word = false → Standing isAlphabetic before word →
      keptArgs isAlphabetic 0 launch.serverArgs =
        keptArgs isAlphabetic 0 before ++ word :: keptArgs isAlphabetic 0 after

theorem profileSnapshot_stored (h : SerializesArgs exec) {launch : Launch C}
    (hllama : providerOf launch = llamaProvider) :
    (profileSnapshot isAlphabetic exec options launch).get "server_args".toList =
      some (.array ((keptArgs isAlphabetic 0 launch.serverArgs).map .string)) := by
  rw [profileSnapshot_llama hllama, get_llamaFields, get_storedFields h]

/-- What reads as the value of an authentication argument is not in the profile, and
what is the value of no stripped argument is there in its place. -/
theorem profileSnapshot_discreet (h : SerializesArgs exec) (launch : Launch C) :
    Discreet isAlphabetic exec options launch where
  engine hother := by
    refine ⟨?_, fun arguments => profileSnapshot_engine h hother arguments launch.serverArgs⟩
    rw [profileSnapshot_other hother, get_otherFields]
  values before flag value other after hargs hflag hbare hstanding hvalue hother := by
    refine profileSnapshot_congr (b := launch.serverArgs) ?_
    rw [hargs, keptArgs_value hflag hbare hstanding hother,
      keptArgs_value hflag hbare hstanding hvalue]
  stored hllama := profileSnapshot_stored h hllama
  clean _ hword := not_isStripped_of_mem hword
  order before word after hargs hword hstanding := by
    rw [hargs, keptArgs_standing hstanding hword]

end Snapshot

/-- A configuration of which only the server arguments are saved. -/
def argsExecution : Execution Unit :=
  { sampleExecution with
    snapshot := fun launch =>
      { fields := KeyMap.empty.insert "server_args".toList
          (.array (launch.serverArgs.map .string))
        ordered := by
          intro key value hget
          rw [KeyMap.get_insert] at hget
          split at hget
          · exact Option.some.inj hget ▸ strings_ordered _
          · cases hget } }

theorem argsExecution_serializes : SerializesArgs argsExecution where
  serverArgs launch := by rw [argsExecution, KeyMap.get_insert, if_pos rfl]
  others launch arguments key hkey := by
    simp only [argsExecution, KeyMap.get_insert, if_neg hkey]

def launchWith (provider : String) (arguments : List String) : Launch Unit :=
  { sampleLaunch with
    activeProvider := provider.toList
    serverArgs := arguments.map String.toList }

theorem not_stripped : ∀ word ∈ ["--verbose", "-1", "-key", "key"].map String.toList,
    isStripped word = false := by
  simp only [isStripped, oneOf_eq_contains]
  rw [@Text.Spelled.eq (APP_MANAGED_SERVER_ARGS.map String.toList) _ (by repeat constructor)]
  decide +kernel

theorem keptArgs_apiKey (rest : List Text) :
    keptArgs Char.isAlpha 0 ("--api-key".toList :: rest) = keptArgs Char.isAlpha 1 rest := by
  have hstripped : isStripped "--api-key".toList = true := by decide
  have hcount : valueCount "--api-key".toList = 1 := by decide
  rw [keptArgs, if_neg (fun h => Nat.lt_irrefl 0 h.1), if_pos hstripped, hcount]

theorem keptArgs_one {pending : Nat} {word : Text} (hstays : isStripped word = false)
    (hvalue : 0 < pending → readsAsValue Char.isAlpha word = false) :
    keptArgs Char.isAlpha pending [word] = [word] := by
  rw [keptArgs, if_neg, if_neg (by rw [hstays]; exact Bool.false_ne_true), keptArgs]
  rintro ⟨hpending, hreads⟩
  rw [hvalue hpending] at hreads
  cases hreads

/-- The key is not stored, and the option behind a managed flag that takes no value is. -/
theorem profileSnapshot_discreet_key :
    profileSnapshot Char.isAlpha argsExecution (fun _ => .empty)
        (launchWith "llama.cpp" ["--no-mmproj", "--verbose", "--api-key", "other", "-1"]) =
      profileSnapshot Char.isAlpha argsExecution (fun _ => .empty)
        (launchWith "llama.cpp" ["--no-mmproj", "--verbose", "--api-key", "secret", "-1"]) ∧
    (profileSnapshot Char.isAlpha argsExecution (fun _ => .empty)
        (launchWith "llama.cpp" ["--no-mmproj", "--verbose", "--api-key", "secret",
          "-1"])).get "server_args".toList = some (.array [.text "--verbose", .text "-1"]) := by
  have hdiscreet := @profileSnapshot_discreet Unit Char.isAlpha argsExecution (fun _ => .empty)
    argsExecution_serializes
    (launchWith "llama.cpp" ["--no-mmproj", "--verbose", "--api-key", "secret", "-1"])
  refine ⟨hdiscreet.values ["--no-mmproj".toList, "--verbose".toList] "--api-key".toList
    "secret".toList "other".toList ["-1".toList] rfl (by decide) (by decide) (.inr (by decide))
    (by decide) (by decide), ?_⟩
  have hbehind : keptArgs Char.isAlpha 0 (["--api-key", "secret", "-1"].map String.toList) =
      ["-1".toList] := by
    have hvalue : readsAsValue Char.isAlpha "secret".toList = true := by decide
    rw [List.map_cons, keptArgs_apiKey, List.map_cons, keptArgs, if_pos ⟨Nat.one_pos, hvalue⟩]
    exact keptArgs_one (not_stripped _ (by decide)) (fun h => absurd h (Nat.lt_irrefl 0))
  rw [hdiscreet.stored (by decide), hdiscreet.order ["--no-mmproj".toList] "--verbose".toList
    (["--api-key", "secret", "-1"].map String.toList) rfl (not_stripped _ (by decide))
    (.inr (by decide)), hbehind]
  rfl

/-- A value that looks like an option is kept, and an engine other than llama.cpp keeps no
server arguments at all. -/
theorem dashed_value_stored :
    authenticationArgument "--api-key".toList ∧ isStripped "-key".toList = false ∧
      isStripped "key".toList = false ∧ isStripped "--verbose".toList = false ∧
      (profileSnapshot Char.isAlpha argsExecution (fun _ => .empty)
        (launchWith "llama.cpp" ["--api-key", "-key"])).get "server_args".toList =
          some (.array [.text "-key"]) ∧
      (profileSnapshot Char.isAlpha argsExecution (fun _ => .empty)
        (launchWith "llama.cpp" ["--api-key", "key"])).get "server_args".toList =
          some (.array []) ∧
      (profileSnapshot Char.isAlpha argsExecution (fun _ => .empty)
        (launchWith "vllm" ["--verbose"])).get "server_args".toList = none := by
  have hdash : keptArgs Char.isAlpha 0 (["--api-key", "-key"].map String.toList) =
      ["-key".toList] := by
    rw [List.map_cons, keptArgs_apiKey]
    exact keptArgs_one (not_stripped _ (by decide)) fun _ => by decide
  have hbare : keptArgs Char.isAlpha 0 (["--api-key", "key"].map String.toList) = [] := by
    have hvalue : readsAsValue Char.isAlpha "key".toList = true := by decide
    rw [List.map_cons, keptArgs_apiKey, List.map_cons, keptArgs, if_pos ⟨Nat.one_pos, hvalue⟩]
    rfl
  refine ⟨by decide, not_stripped _ (by decide), not_stripped _ (by decide),
    not_stripped _ (by decide), ?_, ?_, ?_⟩
  · rw [profileSnapshot_stored argsExecution_serializes (by decide)]
    exact congrArg (fun kept => some (Json.array (kept.map .string))) hdash
  · rw [profileSnapshot_stored argsExecution_serializes (by decide)]
    exact congrArg (fun kept => some (Json.array (kept.map .string))) hbare
  · rw [profileSnapshot_other (by decide), get_otherFields]

end AioLM.Profiles
