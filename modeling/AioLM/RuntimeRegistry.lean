import Mathlib.Data.Char
import Mathlib.Data.List.Lex
import AioLM.Fallible
import AioLM.Json
import AioLM.KeyMap
import AioLM.Runs
import AioLM.TextBytes

/-!
The stored registration of one runtime: the calls that register, refresh and remove it,
each cut at its file operations. What a call reads of the machine while it runs comes with
the step, so a probe may take any time and have any outcome.
-/

set_option autoImplicit false

namespace AioLM.Registry

/-- A manifest; `other` holds the fields that only its checks and the probe read. -/
structure RuntimeManifest where
  engineId : Text
  runtimeId : Text
  launchProgram : Text
  probeProgram : Text
  artifacts : List Text
  other : Json

structure Registration where
  manifest : RuntimeManifest
  executableSha256 : Text
  probeSha256 : Text
  artifactsSha256 : KeyMap Text Text
  probe : Option Json := none
  modelFingerprint : Text := []
  launchFingerprint : Text := []
  error : Option Text := none

structure AppConfig where
  activeModel : Text
  other : Json

/-- The id the calls are about, and the checks of what is registered under it. The
predicate is what `is_owned_manifest` asks of the manifest alone. -/
structure Site where
  engine : Text
  runtime : Text
  path : Except Text Unit
  validateManifest : RuntimeManifest → Except Text Unit
  ownedContract : RuntimeManifest → Bool
  recordLength : Registration → Except Text Nat

/-- What a call reads outside the registry: the hash of a file, the program that runs, the
connection file of an owned manifest and the fingerprints of a probe. -/
structure Machine where
  digest : Text → Except Text Text
  currentExe : Except Text Text
  ownedSpec : RuntimeManifest → Bool
  fingerprint : Text → Text
  launchFingerprint : RuntimeManifest → AppConfig → Text

def Site.isOwnedManifest (site : Site) (machine : Machine) (manifest : RuntimeManifest) : Bool :=
  site.ownedContract manifest && machine.ownedSpec manifest

def limit : Nat := 256 * 1024

def divCeil (n d : Nat) : Nat := (n + (d - 1)) / d

/-- `record_bytes`, which refuses what the reader could not read back. -/
def Site.recordBytes (site : Site) (r : Registration) : Except Text Unit := do
  let bytes ← site.recordLength r
  Fallible.require (bytes ≤ limit)
    ("the runtime registration record would be ".toList ++
      (toString (divCeil bytes 1024)).toList ++ " KiB; registrations are limited to ".toList ++
      (toString (limit / 1024)).toList ++
      " KiB. Shorten the manifest's artifact paths, options or option metadata".toList)

def alreadyRegistered : Text :=
  ("runtime ID is already registered; remove its registration before replacing " ++
    "the build").toList

def probeCancelled : Text := "runtime probe cancelled".toList

def hashArtifacts (machine : Machine) : List Text → KeyMap Text Text →
    Except Text (KeyMap Text Text)
  | [], hashes => .ok hashes
  | path :: paths, hashes => do
    let hash ← machine.digest path
    hashArtifacts machine paths (hashes.insert path hash)

def hashed (machine : Machine) (manifest : RuntimeManifest) : Except Text Registration := do
  let artifacts ← hashArtifacts machine manifest.artifacts .empty
  let executable ← machine.digest manifest.launchProgram
  let probe ← machine.digest manifest.probeProgram
  return {
    manifest := manifest
    executableSha256 := executable
    probeSha256 := probe
    artifactsSha256 := artifacts }

/-- The record a registrar publishes: it is hashed, found to fit and probed. -/
def prepare (site : Site) (machine : Machine) (manifest : RuntimeManifest)
    (probe : Except Text Json) (cancelled : Bool) : Except Text Registration := do
  let r ← hashed machine manifest
  site.recordBytes r
  let probe ← probe
  Fallible.require (cancelled = false) probeCancelled
  return { r with probe := some probe }

/-- Every artifact the manifest lists has a hash, and nothing else has. -/
def artifactsComplete (r : Registration) : Bool :=
  decide (r.manifest.artifacts.length = r.artifactsSha256.entries.length) &&
    r.manifest.artifacts.all fun path => (r.artifactsSha256.get path).isSome

def checkArtifacts (machine : Machine) (r : Registration) : Except Text Unit :=
  r.artifactsSha256.entries.forM fun (path, expected) => do
    let hash ← machine.digest path
    Fallible.require (hash = expected)
      "adapter artifact changed; register the updated build explicitly".toList

def RuntimeManifest.withHelper (manifest : RuntimeManifest) (helper : Text) : RuntimeManifest :=
  { manifest with launchProgram := helper, probeProgram := helper }

def adoptHelper (r : Registration) (helper hash : Text) : Registration :=
  if r.manifest.launchProgram ≠ helper ∨ r.executableSha256 ≠ hash ∨ r.probeSha256 ≠ hash then
    { r with
      manifest := r.manifest.withHelper helper
      executableSha256 := hash
      probeSha256 := hash
      probe := none
      modelFingerprint := []
      launchFingerprint := [] }
  else r

def trustHelper (site : Site) (machine : Machine) (r : Registration) :
    Except Text Registration :=
  if site.isOwnedManifest machine r.manifest then do
    Fallible.require (artifactsComplete r)
      ("automatic connection artifact identity is incomplete; find the installation " ++
        "again").toList
    checkArtifacts machine r
    let helper ← machine.currentExe
    let hash ← machine.digest helper
    return adoptHelper r helper hash
  else .ok r

/-- The record a refresh writes after its probe, and what it returns when that is stored. -/
def settle (machine : Machine) (cfg : AppConfig) (r : Registration) :
    Except Text Json → Registration × Except Text Unit
  | .ok probe =>
    ({ r with
        probe := some probe
        modelFingerprint := machine.fingerprint cfg.activeModel
        launchFingerprint := machine.launchFingerprint r.manifest cfg
        error := none },
      .ok ())
  | .error error =>
    ((if cfg.activeModel.isEmpty then
        { r with probe := none, error := some error, modelFingerprint := [] }
      else { r with modelFingerprint := [] }),
      .error error)

/-- The outer result is that of joining the worker the probe runs in. -/
def reprobe (site : Site) (machine : Machine) (cfg : AppConfig) (r : Registration)
    (probe : Except Text (Except Text Json)) : Except Text (Registration × Except Text Unit) := do
  let r ← trustHelper site machine r
  let probe ← probe
  return settle machine cfg r probe

/-- What the directory of the runtime holds: its registration, the claim of a registrar
and other files, such as reviewed help. -/
structure Folder where
  present : Bool := false
  registration : Option Registration := none
  registering : Bool := false
  others : Bool := false

def notFound : Text := "entity not found".toList

def alreadyExists : Text := "entity already exists".toList

/-- A file operation that works on the folder unless the system refuses it. -/
def attempt {α : Type} (fault : Option Text) (result : Except Text α) : Except Text α :=
  match fault with
  | some error => .error error
  | none => result

def createDirAll (folder : Folder) : Except Text Folder := .ok { folder with present := true }

def createClaim (folder : Folder) : Except Text Folder :=
  if !folder.present then .error notFound
  else if folder.registering then .error alreadyExists
  else .ok { folder with registering := true }

def atomicWrite (r : Registration) (folder : Folder) : Except Text Folder :=
  if !folder.present then .error notFound else .ok { folder with registration := some r }

def removeRegistration (folder : Folder) : Except Text Folder :=
  if folder.registration.isNone then .error notFound
  else .ok { folder with registration := none }

def removeClaim (folder : Folder) : Except Text Folder :=
  if folder.registering then .ok { folder with registering := false } else .error notFound

def Folder.isEmpty (folder : Folder) : Bool :=
  folder.registration.isNone && !folder.registering && !folder.others

/-- `true` when the directory is gone, `false` when it is not empty. -/
def removeDir (folder : Folder) : Except Text (Folder × Bool) :=
  if !folder.present then .error notFound
  else if folder.isEmpty then .ok ({ folder with present := false }, true)
  else .ok (folder, false)

def readRegistration (site : Site) (folder : Folder) : Except Text Registration := do
  site.path
  let r ← Fallible.orError folder.registration
    ("cannot read runtime registration: ".toList ++ notFound)
  Fallible.require (r.manifest.engineId = site.engine ∧ r.manifest.runtimeId = site.runtime)
    "runtime registration identity mismatch".toList
  site.validateManifest r.manifest
  return r

/-- The next thing a call does, with what it holds until then. -/
inductive Phase where
  | probing (manifest : RuntimeManifest)
  | creating (r : Registration)
  | claiming (r : Registration)
  | checking (r : Registration)
  | publishing (r : Registration)
  | saving (r : Registration)
  | unclaiming (published : Except Text RuntimeManifest)
  | leaving (error : Text)
  | registered (result : Except Text RuntimeManifest)
  | refreshing (r : Registration) (cfg : AppConfig)
  | storing (r : Registration) (result : Except Text Unit)
  | rewriting (r : Registration) (result : Except Text Unit)
  | refreshed (result : Except Text Unit)
  | removing
  | removed (result : Except Text Unit)

inductive Outcome where
  | probed (machine : Machine) (probe : Except Text Json) (cancelled : Bool)
  | reprobed (machine : Machine) (probe : Except Text (Except Text Json))
  | io (fault : Option Text)

inductive Event where
  | claimed (call : Nat)
  | published (call : Nat) (r : Registration)
  | read (call : Nat)
  | rewrote (call : Nat) (r : Registration)
  | deleted (call : Nat)
  | removed (call : Nat)

def work (site : Site) (call : Nat) (folder : Folder) :
    Phase → Outcome → Option (Folder × Phase × List Event)
  | .probing manifest, .probed machine probe cancelled =>
    match prepare site machine manifest probe cancelled with
    | .error error => some (folder, .registered (.error error), [])
    | .ok r => some (folder, .creating r, [])
  | .creating r, .io fault =>
    match attempt fault (createDirAll folder) with
    | .error error => some (folder, .registered (.error error), [])
    | .ok folder' => some (folder', .claiming r, [])
  | .claiming r, .io fault =>
    match attempt fault (createClaim folder) with
    | .error error =>
      some (folder, .registered (.error ("runtime registration collision: ".toList ++ error)), [])
    | .ok folder' => some (folder', .checking r, [.claimed call])
  | .checking r, .io _ =>
    -- `exists` has no error of its own
    if folder.registration.isSome then
      some (folder, .unclaiming (.error alreadyRegistered), [])
    else some (folder, .publishing r, [])
  | .publishing r, .io fault =>
    match site.recordBytes r >>= fun _ => attempt fault (createDirAll folder) with
    | .error error => some (folder, .unclaiming (.error error), [])
    | .ok folder' => some (folder', .saving r, [])
  | .saving r, .io fault =>
    match attempt fault (atomicWrite r folder) with
    | .error error => some (folder, .unclaiming (.error error), [])
    | .ok folder' => some (folder', .unclaiming (.ok r.manifest), [.published call r])
  | .unclaiming published, .io fault =>
    -- a claim that cannot be removed stays behind
    let folder' := ((attempt fault (removeClaim folder)).toOption).getD folder
    match published with
    | .error error => some (folder', .leaving error, [])
    | .ok manifest => some (folder', .registered (.ok manifest), [])
  | .leaving error, .io fault =>
    let folder' := ((attempt fault (removeDir folder)).toOption.map (·.1)).getD folder
    some (folder', .registered (.error error), [])
  | .refreshing r cfg, .reprobed machine probe =>
    match reprobe site machine cfg r probe with
    | .error error => some (folder, .refreshed (.error error), [])
    | .ok (r', result) => some (folder, .storing r' result, [])
  | .storing r result, .io fault =>
    match site.recordBytes r >>= fun _ => attempt fault (createDirAll folder) with
    | .error error => some (folder, .refreshed (.error error), [])
    | .ok folder' => some (folder', .rewriting r result, [])
  | .rewriting r result, .io fault =>
    match attempt fault (atomicWrite r folder) with
    | .error error => some (folder, .refreshed (.error error), [])
    | .ok folder' => some (folder', .refreshed result, [.rewrote call r])
  | .removing, .io fault =>
    match attempt fault (removeDir folder) with
    | .error error => some (folder, .removed (.error error), [])
    | .ok (folder', _) => some (folder', .removed (.ok ()), [.removed call])
  | _, _ => none

structure World where
  folder : Folder
  calls : List Phase := []
  log : List Event := []

inductive Action where
  | register (manifest : RuntimeManifest)
  | refresh (cfg : AppConfig) (fault : Option Text)
  | remove (fault : Option Text)
  | work (call : Nat) (outcome : Outcome)

/-- `register_manifest` up to its first look at the registration. -/
def beginRegister (site : Site) (folder : Folder) (manifest : RuntimeManifest) : Phase :=
  match (do
      site.validateManifest manifest
      site.path
      Fallible.require (folder.registration.isNone) alreadyRegistered : Except Text Unit) with
  | .error error => .registered (.error error)
  | .ok () => .probing manifest

def World.begin (w : World) (folder : Folder) (phase : Phase) (events : List Event) : World :=
  { folder := folder, calls := w.calls ++ [phase], log := events ++ w.log }

def step (site : Site) (w : World) : Action → Option World
  | .register manifest =>
    if manifest.engineId = site.engine ∧ manifest.runtimeId = site.runtime then
      some (w.begin w.folder (beginRegister site w.folder manifest) [])
    else none
  | .refresh cfg fault =>
    match attempt fault (readRegistration site w.folder) with
    | .error error => some (w.begin w.folder (.refreshed (.error error)) [])
    | .ok r => some (w.begin w.folder (.refreshing r cfg) [.read w.calls.length])
  | .remove fault =>
    match site.path >>= fun _ => attempt fault (removeRegistration w.folder) with
    | .error error => some (w.begin w.folder (.removed (.error error)) [])
    | .ok folder => some (w.begin folder .removing [.deleted w.calls.length])
  | .work call outcome =>
    w.calls[call]?.bind fun phase =>
      (work site call w.folder phase outcome).map fun (folder, phase', events) =>
        { folder := folder, calls := w.calls.set call phase', log := events ++ w.log }

end AioLM.Registry
