import Mathlib.Data.Char
import Mathlib.Data.List.Lex
import AioLM.Fallible
import AioLM.JsonFields
import AioLM.KeyMap

/-!
The library of settings profiles in the configuration: its data, what makes it
valid, and the check a save of it has to pass.
-/

set_option autoImplicit false

namespace AioLM.Profiles

open Fallible

def maxProfiles : Nat := 1024

def maxApplications : Nat := 4096

def maxLibraryBytes : Nat := 16 * 1024 * 1024

def maxPromptBytes : Nat := 262144

/-- A JSON object: its values hold their own objects in key order too. -/
structure Settings where
  fields : KeyMap Text Json
  ordered : ∀ key value, fields.get key = some value → value.Ordered

inductive ProfileScope where
  | model | global
  deriving DecidableEq

inductive ProfileSourceScope where
  | preset | global
  deriving DecidableEq

structure SettingsProfile where
  provider : Text
  legacyRuntime : Option Settings := none
  id : Text
  name : Text
  scope : ProfileScope
  modelKey : Option Text := none
  sourceId : Option Text := none
  sourceScope : Option ProfileSourceScope := none
  revision : Nat
  settings : Settings
  systemPrompt : Option Text := none
  legacy : Option Bool := none
  coverage : Option (List Text) := none

structure ProfileApplication where
  provider : Text
  model : Text
  profileId : Option Text := none
  profileName : Option Text := none
  profileRevision : Option Nat := none
  settings : Settings
  systemPrompt : Text

structure SettingsProfileLibrary where
  version : Nat
  revision : Nat
  entries : List SettingsProfile
  defaultProfileId : Option Text := none
  providerDefaults : KeyMap Text Text := .empty
  providerRecent : KeyMap Text Text := .empty
  applied : KeyMap Text ProfileApplication
  legacyImported : Bool

def optional (key : String) (value : Option Json) : List (Text × Json) :=
  value.toList.map fun value => (key.toList, value)

def Settings.toValue (settings : Settings) : Json := .object settings.fields.entries

def textMap (m : KeyMap Text Text) : Json :=
  .object (m.entries.map fun e => (e.1, .string e.2))

def ProfileScope.toValue : ProfileScope → Json
  | .model => .text "model"
  | .global => .text "global"

def ProfileSourceScope.toValue : ProfileSourceScope → Json
  | .preset => .text "preset"
  | .global => .text "global"

def SettingsProfile.fields (profile : SettingsProfile) : List (Text × Json) :=
  optional "coverage" (profile.coverage.map fun keys => .array (keys.map .string)) ++
  ("id".toList, .string profile.id) ::
  optional "legacy" (profile.legacy.map .bool) ++
  optional "legacy_runtime" (profile.legacyRuntime.map Settings.toValue) ++
  optional "model_key" (profile.modelKey.map .string) ++
  ("name".toList, .string profile.name) ::
  ("provider".toList, .string profile.provider) ::
  ("revision".toList, .int profile.revision) ::
  ("scope".toList, profile.scope.toValue) ::
  ("settings".toList, profile.settings.toValue) ::
  optional "source_id" (profile.sourceId.map .string) ++
  optional "source_scope" (profile.sourceScope.map ProfileSourceScope.toValue) ++
  optional "system_prompt" (profile.systemPrompt.map .string)

def SettingsProfile.toValue (profile : SettingsProfile) : Json := .object profile.fields

def ProfileApplication.fields (application : ProfileApplication) : List (Text × Json) :=
  ("model".toList, .string application.model) ::
  optional "profile_id" (application.profileId.map .string) ++
  optional "profile_name" (application.profileName.map .string) ++
  optional "profile_revision" (application.profileRevision.map fun n : Nat => .int n) ++
  [("provider".toList, .string application.provider),
    ("settings".toList, application.settings.toValue),
    ("system_prompt".toList, .string application.systemPrompt)]

def ProfileApplication.toValue (application : ProfileApplication) : Json :=
  .object application.fields

def SettingsProfileLibrary.fields (library : SettingsProfileLibrary) : List (Text × Json) :=
  ("applied".toList, .object (library.applied.entries.map fun e => (e.1, e.2.toValue))) ::
  optional "default_profile_id" (library.defaultProfileId.map .string) ++
  [("entries".toList, .array (library.entries.map SettingsProfile.toValue)),
    ("legacy_imported".toList, .bool library.legacyImported),
    ("provider_defaults".toList, textMap library.providerDefaults),
    ("provider_recent".toList, textMap library.providerRecent),
    ("revision".toList, .int library.revision), ("version".toList, .int library.version)]

def SettingsProfileLibrary.toValue (library : SettingsProfileLibrary) : Json :=
  .object library.fields

def Settings.beq (a b : Settings) : Bool := Json.beqFields a.fields.entries b.fields.entries

def SettingsProfile.beq (a b : SettingsProfile) : Bool :=
  a.provider == b.provider && optionBeq Settings.beq a.legacyRuntime b.legacyRuntime &&
    a.id == b.id && a.name == b.name && a.scope == b.scope && a.modelKey == b.modelKey &&
    a.sourceId == b.sourceId && a.sourceScope == b.sourceScope && a.revision == b.revision &&
    a.settings.beq b.settings && a.systemPrompt == b.systemPrompt && a.legacy == b.legacy &&
    a.coverage == b.coverage
where
  optionBeq {α : Type} (beq : α → α → Bool) : Option α → Option α → Bool
    | none, none => true
    | some a, some b => beq a b
    | _, _ => false

def ProfileApplication.beq (a b : ProfileApplication) : Bool :=
  a.provider == b.provider && a.model == b.model && a.profileId == b.profileId &&
    a.profileName == b.profileName && a.profileRevision == b.profileRevision &&
    a.settings.beq b.settings && a.systemPrompt == b.systemPrompt

def listBeq {α : Type} (beq : α → α → Bool) : List α → List α → Bool
  | [], [] => true
  | a :: as, b :: bs => beq a b && listBeq beq as bs
  | _, _ => false

def SettingsProfileLibrary.beq (a b : SettingsProfileLibrary) : Bool :=
  a.version == b.version && a.revision == b.revision &&
    listBeq SettingsProfile.beq a.entries b.entries &&
    a.defaultProfileId == b.defaultProfileId &&
    a.providerDefaults.entries == b.providerDefaults.entries &&
    a.providerRecent.entries == b.providerRecent.entries &&
    listBeq (fun x y => x.1 == y.1 && x.2.beq y.2) a.applied.entries b.applied.entries &&
    a.legacyImported == b.legacyImported

def Number.isF64 : Number → Bool
  | .float _ => true
  | .int _ => false

def Number.asF64 : Number → Float
  | .float x => x
  | .int n => Json.floatOfInt n

/-- A float of integral value stands for the integer as long as both are safe. -/
def sameNumber (left right : Number) : Bool :=
  left.beq right ||
    (Number.isF64 left != Number.isF64 right && Number.asF64 left == Number.asF64 right &&
      (Number.asF64 left).abs ≤ 9007199254740991)

mutual

def sameJsonValue : Json → Json → Bool
  | .number left, right =>
    match right with
    | .number right => sameNumber left right
    | _ => false
  | .array left, right =>
    match right with
    | .array right => left.length == right.length && sameItems left right
    | _ => false
  | .object left, right =>
    match right with
    | .object right => left.length == right.length && sameFields left right
    | _ => false
  | left, right => left == right

def sameItems : List Json → List Json → Bool
  | a :: left, b :: right => sameJsonValue a b && sameItems left right
  | _, _ => true

def sameFields : List (Text × Json) → List (Text × Json) → Bool
  | [], _ => true
  | (key, value) :: left, right =>
    (match Json.lookup key right with
    | some other => sameJsonValue value other
    | none => false) && sameFields left right

end

def sameLibrary (current incoming : SettingsProfileLibrary) : Bool :=
  if current.beq incoming then true
  else if current.revision ≠ incoming.revision then false
  else sameJsonValue current.toValue incoming.toValue

structure SessionDefinition where
  id : Text
  primaryModel : Text
  mmproj : Text
  draftModel : Text
  gpu : Json
  execution : Option Settings

/-- The configuration without its library, `other` being the fields not read here. -/
structure Launch (C : Type) where
  activeModel : Text
  activeProvider : Text
  activeRuntime : Text
  activeBackend : Text
  activeBuild : Text
  mmproj : Text
  specDraftModel : Text
  gpu : Json
  runtimeDefaults : List Text
  loraAdapters : List Json
  serverArgs : List Text
  sessions : List SessionDefinition
  other : C

structure AppConfig (C : Type) where
  settingsProfiles : Option SettingsProfileLibrary
  launch : Launch C

/-- What the rest of the configuration computes, and the texts of the standard library
that depend on more than ASCII. -/
structure Execution (C : Type) where
  toLowercase : Text → Text
  floatText : Float → Text
  settingsConfig : Settings → Except Text (Launch C)
  normalize : Launch C → Launch C
  validate : Launch C → Except Text Unit
  snapshot : Launch C → Settings
  mergeFields : Launch C → Settings → Except Text (Launch C)

def llamaProvider : Text := "llama.cpp".toList

/-- `ProviderId::parse`, by the name it is saved under. -/
def parseProvider (value : Text) : Option Text :=
  let id := Text.trim value
  if id = [] ∨ id = llamaProvider then some llamaProvider
  else if id = "vllm".toList ∨ id = "mlx-vlm".toList then some id
  else if "custom.".toList.isPrefixOf id ∧ 7 < id.utf8Len ∧ id.utf8Len ≤ 64 ∧
      (id.drop 7).head?.any Char.isAlphanum ∧
      id.all (fun c => c.isLower || c.isDigit || "._-".toList.contains c) then some id
  else none

def executionFields : List Text :=
  ["active_provider", "active_runtime", "provider_options", "runtime_defaults", "ngl", "ctx_size",
    "batch_size", "ubatch_size", "keep", "cache_type_k", "cache_type_v", "flash_attn", "n_cpu_moe",
    "threads", "temperature", "top_p", "top_k", "spec_type", "spec_draft_n_max",
    "spec_draft_n_min", "spec_draft_p_min", "spec_draft_p_split", "spec_draft_ngl",
    "spec_draft_device", "spec_draft_model", "reasoning", "reasoning_format", "reasoning_effort",
    "reasoning_budget", "reasoning_budget_message", "reasoning_preserve", "server_args",
    "chat_options", "mmproj", "active_model", "active_backend", "active_build", "parallel",
    "request_timeout_seconds", "sleep_idle_seconds", "lora_adapters", "gpu"].map String.toList

def globalFields : List Text :=
  ["runtime_defaults", "provider_options", "ctx_size", "batch_size", "ubatch_size", "keep",
    "cache_type_k", "cache_type_v", "flash_attn", "threads", "parallel", "request_timeout_seconds",
    "sleep_idle_seconds", "temperature", "top_p", "top_k", "chat_options", "reasoning",
    "reasoning_format", "reasoning_effort", "reasoning_budget", "reasoning_budget_message",
    "reasoning_preserve"].map String.toList

def runtimeFields : List Text :=
  ["active_provider", "active_runtime", "active_backend", "active_build"].map String.toList

def sessionBindings : List Text :=
  ["active_model", "mmproj", "spec_draft_model", "gpu"].map String.toList

def runtimeField (key : Text) : Bool := runtimeFields.contains key

def modelField (key : Text) : Bool :=
  key != "active_model".toList && !runtimeField key && executionFields.contains key

def authenticationNames : List Text :=
  ["apikey", "apikeyfile", "authorization", "auth", "credential", "password", "privatekey",
    "secret", "token"].map String.toList

def authenticationArgument (argument : Text) : Bool :=
  let name := (Text.trim argument).takeWhile (· ≠ '=')
  authenticationNames.contains
    (Text.toAsciiLower ((name.dropWhile (· = '-')).filter fun c => c ≠ '-' ∧ c ≠ '_'))

section Checks

variable {C : Type} (exec : Execution C)

def modelKey (path : Text) : Text :=
  let path := Text.trim path
  if ['/'].isPrefixOf path ∧ ¬ ['/', '/'].isPrefixOf path then "model:".toList ++ path
  else
    let lower := exec.toLowercase path
    let display :=
      if "\\\\?\\unc\\".toList.isPrefixOf lower then "\\\\".toList ++ path.drop 8
      else if "\\\\?\\".toList.isPrefixOf lower then path.drop 4
      else path
    "model:".toList ++ exec.toLowercase (display.map fun c => if c = '\\' then '/' else c)

def applicationKey (model session provider : Text) : Text :=
  if session ≠ "default".toList then "session:".toList ++ session
  else if provider = llamaProvider then modelKey exec model
  else "provider:".toList ++ provider ++ ':' :: modelKey exec model

def compatible (profile : SettingsProfile) (model : Text) : Bool :=
  profile.scope == .global || profile.modelKey == some (modelKey exec model)

def textValid (value field : Text) (max : Nat) (required : Bool) : Except Text Unit :=
  require (value.utf8Len ≤ max ∧ Char.ofNat 0 ∉ value ∧ (required = true → Text.trim value ≠ []))
    ("invalid settings profile ".toList ++ field)

def checkOptional {α : Type} (check : α → Except Text Unit) : Option α → Except Text Unit
  | some a => check a
  | none => .ok ()

def checkDefaults (global : Bool) (seen : List Text) : List Text → Except Text Unit
  | [] => .ok ()
  | key :: keys => do
    require (modelField key ∧ (global = true → key ∈ globalFields) ∧ key ∉ seen)
      ("invalid settings profile default field: ".toList ++ key)
    checkDefaults global (key :: seen) keys

def validateSettings (settings : Settings) (global preserveUncoveredRuntime : Bool) :
    Except Text Unit := do
  settings.fields.entries.forM fun e => do
    require (modelField e.1 ∧ (global = true → e.1 ∈ globalFields))
      ("unsupported settings profile field: ".toList ++ e.1)
    checkOptional (fun value => textValid value e.1 32768 false) e.2.asStr
  let cfg ← exec.settingsConfig settings
  let cfg :=
    if preserveUncoveredRuntime && cfg.activeBackend.isEmpty != cfg.activeBuild.isEmpty then
      { cfg with activeBackend := [], activeBuild := [] }
    else cfg
  (exec.validate cfg).mapError fun error => "invalid settings profile values: ".toList ++ error
  checkDefaults global [] cfg.runtimeDefaults
  require (cfg.loraAdapters.length ≤ 32) "too many settings profile LoRA adapters".toList
  cfg.serverArgs.forM fun argument =>
    require (Char.ofNat 0 ∉ argument ∧ authenticationArgument argument = false)
      "settings profiles cannot include authentication arguments".toList

def providerOnlyFields : List Text :=
  ["provider_options", "request_timeout_seconds", "sleep_idle_seconds"].map String.toList

def validateSource (profile : SettingsProfile) : Except Text Unit :=
  match profile.sourceId, profile.sourceScope with
  | none, none => .ok ()
  | some source, some _ =>
    if profile.scope = .model then do
      textValid source "source id".toList 128 true
      require (source ≠ profile.id) "settings profile cannot be its own source".toList
    else .error "invalid settings profile source".toList
  | _, _ => .error "invalid settings profile source".toList

def validateScope (profile : SettingsProfile) : Except Text Unit :=
  match profile.scope, profile.modelKey with
  | .model, some model => textValid model "model key".toList 32768 true
  | .global, none => .ok ()
  | _, _ => .error "settings profile scope and model key do not match".toList

/-- One entry of the library, `ids` being those of the entries before it. -/
def validateEntry (ids : List Text) (profile : SettingsProfile) : Except Text Unit := do
  let provider ← orError (parseProvider profile.provider) "unknown profile provider".toList
  require (profile.settings.fields.entries.all fun e => !runtimeField e.1)
    "profiles cannot select or change the runtime".toList
  require (provider = llamaProvider ∨
      profile.settings.fields.entries.all (fun e => providerOnlyFields.contains e.1) = true)
    "profile contains options belonging to llama.cpp".toList
  require (((profile.settings.fields.get "provider_options".toList).bind Json.asObject).all
      fun options => options.all fun e => e.1 == provider)
    "profile contains another provider's options".toList
  textValid profile.id "id".toList 128 true
  textValid profile.name "name".toList 256 true
  require (profile.id ∉ ids) ("duplicate settings profile id: ".toList ++ profile.id)
  require (profile.revision ≠ 0) "settings profile revision must be positive".toList
  validateScope profile
  validateSource profile
  let global := profile.scope == .global && profile.legacy != some true
  let preserveUncoveredRuntime := profile.legacy == some true &&
    profile.coverage.any fun fields => !fields.any fun field =>
      field == "active_backend".toList || field == "active_build".toList
  validateSettings exec profile.settings global preserveUncoveredRuntime
  checkOptional (fun prompt => textValid prompt "system prompt".toList maxPromptBytes false)
    profile.systemPrompt
  checkOptional (fun coverage => require (coverage.length ≤ executionFields.length ∧
      coverage.Nodup ∧ ∀ key ∈ coverage, modelField key ∧ (global = true → key ∈ globalFields))
    "invalid settings profile coverage".toList) profile.coverage

def validateEntries (ids : List Text) : List SettingsProfile → Except Text Unit
  | [] => .ok ()
  | profile :: entries => do
    validateEntry exec ids profile
    validateEntries (profile.id :: ids) entries

def validateApplication (entries : List SettingsProfile) (target : Text)
    (application : ProfileApplication) : Except Text Unit := do
  textValid target "application target".toList 32768 true
  textValid application.model "application model".toList 32768
    (target != applicationKey exec [] "default".toList application.provider)
  let id ← orError application.profileId "an applied settings profile is required".toList
  textValid id "application profile id".toList 128 true
  let profile ← orError (entries.find? fun entry => entry.id == id)
    "the applied settings profile no longer exists".toList
  require (profile.provider = application.provider ∧
      compatible exec profile application.model = true ∧
      (application.model = [] → profile.scope = .global))
    "the applied settings profile belongs to a different model".toList
  let name ← orError application.profileName "an applied settings profile name is required".toList
  textValid name "application profile name".toList 256 true
  require (application.profileRevision.any fun revision =>
      revision != 0 && decide (revision ≤ profile.revision))
    "invalid applied settings profile revision".toList
  textValid application.systemPrompt "application system prompt".toList maxPromptBytes false
  validateSettings exec application.settings false false

def SettingsProfileLibrary.validate (library : SettingsProfileLibrary) : Except Text Unit := do
  require (library.version = 1)
    ("unsupported settings profile library version: ".toList ++ Json.intText library.version)
  require (library.entries ≠ []) "at least one settings profile is required".toList
  let defaultId ← orError library.defaultProfileId "a default settings profile is required".toList
  textValid defaultId "default profile id".toList 128 true
  let default ← orError (library.entries.find? fun entry => entry.id == defaultId)
    "the default settings profile cannot be deleted".toList
  require (default.scope = .global)
    "the default settings profile must apply to every model".toList
  require (library.providerDefaults.entries.all fun e => (parseProvider e.1).isSome &&
      library.entries.any fun entry => entry.id == e.2 && entry.provider == e.1 &&
        entry.scope == .global)
    "invalid provider default profile".toList
  require (library.providerRecent.entries.all fun e =>
      library.entries.any fun entry => entry.id == e.2 && entry.provider == e.1)
    "invalid recent provider profile".toList
  require (library.entries.length ≤ maxProfiles ∧
      library.applied.entries.length ≤ maxApplications)
    "too many saved settings profiles or applications".toList
  require ((Json.compact exec.floatText library.toValue).utf8Len ≤ maxLibraryBytes)
    "settings profile library is too large".toList
  validateEntries exec [] library.entries
  library.applied.entries.forM fun e => validateApplication exec library.entries e.1 e.2

def SettingsProfileLibrary.hasEntry (library : SettingsProfileLibrary) (id : Text) : Bool :=
  library.entries.any fun entry => entry.id == id

def deletedTarget : Text :=
  "deleted profile targets must be assigned to the default profile".toList

def SettingsProfileLibrary.fallback (library : SettingsProfileLibrary) (provider : Text) :
    Option Text :=
  (library.providerDefaults.get provider).or library.defaultProfileId

def checkReassigned (incoming : SettingsProfileLibrary) (target : Text)
    (application : ProfileApplication) : Except Text Unit :=
  match application.profileId with
  | none => .ok ()
  | some id =>
    if incoming.hasEntry id then .ok ()
    else do
      let replacement ← orError (incoming.applied.get target) deletedTarget
      require (replacement.profileId = incoming.fallback application.provider ∧
        replacement.model = application.model ∧ replacement.provider = application.provider)
        deletedTarget

/-- `checked_add(1)` -/
def nextRevision (revision : Nat) : Option Nat :=
  if revision + 1 < 2 ^ 64 then some (revision + 1) else none

def changedSince : Text :=
  "settings profiles changed since this configuration was opened; reload before saving".toList

def checkIncoming (current : Option SettingsProfileLibrary) (incoming : SettingsProfileLibrary) :
    Except Text Unit := do
  incoming.validate exec
  checkOptional (fun current => current.applied.entries.forM fun e =>
    checkReassigned incoming e.1 e.2) current

def checkRevision (current incoming : Option SettingsProfileLibrary) : Except Text Unit :=
  match current, incoming with
  | none, none => .ok ()
  | some current, some incoming =>
    require (sameLibrary current incoming = true ∨
      nextRevision current.revision = some incoming.revision) changedSince
  | none, some incoming => require (incoming.revision = 1) changedSince
  | some _, none => .error changedSince

def validateUpdate (current incoming : Option SettingsProfileLibrary) : Except Text Unit := do
  checkOptional (checkIncoming exec current) incoming
  checkRevision current incoming

/-- A value of the settings that the snapshot has too is the snapshot's. -/
def Settings.overlay (settings normalized : Settings) : Settings where
  fields := settings.fields.filterMap fun key value => some ((normalized.fields.get key).getD value)
  ordered key value h := by
    rw [KeyMap.get_filterMap] at h
    obtain ⟨old, hold, hsome⟩ := Option.bind_eq_some_iff.mp h
    obtain rfl := Option.some.inj hsome
    cases hnew : normalized.fields.get key with
    | none => exact settings.ordered key old hold
    | some value => exact normalized.ordered key value hnew

def normalizeApplication (application : ProfileApplication) : Except Text ProfileApplication := do
  let cfg ← exec.settingsConfig application.settings
  let cfg := exec.normalize cfg
  exec.validate cfg
  return { application with settings := application.settings.overlay (exec.snapshot cfg) }

/-- `values_mut` with a body that can fail. -/
def tryMapValues {α : Type} (f : α → Except Text α) (m : KeyMap Text α) :
    Except Text (KeyMap Text α) := do
  let entries ← m.entries.mapM fun e => (f e.2).map (e.1, ·)
  return entries.foldl (fun m e => m.insert e.1 e.2) .empty

def mergeLaunch (base launch : Launch C) : Except Text (Launch C) :=
  exec.mergeFields base (exec.snapshot launch)

def sessionConfig (base : Launch C) (definition : SessionDefinition) : Except Text (Launch C) := do
  let cfg := { base with sessions := [] }
  let cfg ← definition.execution.elim (.ok cfg) fun patch => do
    patch.fields.entries.forM fun e => require (e.1 ∉ sessionBindings)
      ("session execution setting ".toList ++ e.1 ++ " must use its dedicated binding".toList)
    exec.mergeFields cfg patch
  return { cfg with
    activeModel := definition.primaryModel
    mmproj := definition.mmproj
    specDraftModel := definition.draftModel
    gpu := definition.gpu }

def withRuntime (effective runtime : Launch C) : Launch C :=
  { effective with
    activeProvider := runtime.activeProvider
    activeRuntime := runtime.activeRuntime
    activeBackend := runtime.activeBackend
    activeBuild := runtime.activeBuild }

def Settings.without (settings : Settings) (keys : List Text) : Settings where
  fields := settings.fields.filterMap fun key value => if key ∈ keys then none else some value
  ordered key value h := by
    rw [KeyMap.get_filterMap] at h
    obtain ⟨old, hold, hsome⟩ := Option.bind_eq_some_iff.mp h
    split at hsome
    · cases hsome
    · obtain rfl := Option.some.inj hsome
      exact settings.ordered key old hold

/-- The first session the predicate holds of, rewritten. -/
def updateSession (p : SessionDefinition → Bool) (f : SessionDefinition → SessionDefinition) :
    List SessionDefinition → List SessionDefinition
  | [] => []
  | definition :: rest =>
    if p definition then f definition :: rest else definition :: updateSession p f rest

def reassignLaunch (prepared : Launch C) (target : Text) (application : ProfileApplication) :
    Except Text (Launch C) := do
  let effective ← exec.settingsConfig application.settings
  let effective := { effective with activeModel := application.model }
  if target = applicationKey exec prepared.activeModel "default".toList prepared.activeProvider ∧
      modelKey exec application.model = modelKey exec prepared.activeModel then
    mergeLaunch exec prepared (withRuntime effective prepared)
  else
    match Text.stripPrefix "session:".toList target with
    | none => return prepared
    | some id =>
      let runtime ← (prepared.sessions.find? fun entry => entry.id == id).mapM
        (sessionConfig exec prepared)
      let effective := runtime.elim effective (withRuntime effective)
      return { prepared with
        sessions := updateSession
          (fun entry => entry.id == id &&
            modelKey exec entry.primaryModel == modelKey exec application.model)
          (fun entry => { entry with
            execution := some ((exec.snapshot effective).without sessionBindings)
            mmproj := effective.mmproj
            draftModel := effective.specDraftModel
            gpu := effective.gpu }) prepared.sessions }

def reassigned (previous library : SettingsProfileLibrary) : List (Text × ProfileApplication) :=
  previous.applied.entries.filterMap fun e =>
    if e.2.profileId.any fun id => !library.hasEntry id then
      (library.applied.get e.1).map (e.1, ·)
    else none

/-- The library as it is stored: as it was under its old revision, else with the settings
of its applications normalized. -/
def prepareLibrary (current incoming : Option SettingsProfileLibrary) :
    Except Text (Option SettingsProfileLibrary) :=
  if incoming.map (·.revision) = current.map (·.revision) then .ok current
  else
    match incoming with
    | some library => do
      let applied ← tryMapValues (normalizeApplication exec) library.applied
      return some { library with applied := applied }
    | none => .ok none

def reassignAll (launch : Launch C) (previous library : Option SettingsProfileLibrary) :
    Except Text (Launch C) :=
  match previous, library with
  | some previous, some library =>
    (reassigned previous library).foldlM (fun launch e => reassignLaunch exec launch e.1 e.2) launch
  | _, _ => .ok launch

def prepareConfigUpdate (current incoming : AppConfig C) : Except Text (AppConfig C) := do
  validateUpdate exec current.settingsProfiles incoming.settingsProfiles
  let library ← prepareLibrary exec current.settingsProfiles incoming.settingsProfiles
  let launch ← reassignAll exec incoming.launch current.settingsProfiles library
  return ⟨library, launch⟩

end Checks

end AioLM.Profiles
