import Mathlib.Data.List.ReduceOption
import AioLM.Snapshots

/-!
Updates of installed models: what is to be fetched and what is removed, and the exchange of the
files, which is taken back where a step of it fails.
-/

set_option autoImplicit false

namespace AioLM.Discover.Updates

open Fallible Files

structure TrackedFile where
  remote : Text
  localPath : Text
  size : Nat
  oid : Option Text
  deriving DecidableEq

def TrackedFile.snapshotFile (file : TrackedFile) : SnapshotFile :=
  ⟨file.localPath, file.size, file.oid⟩

structure GgufManifest where
  format : Nat
  repository : Text
  revision : Text
  entrypoint : Text
  companions : Bool
  files : List TrackedFile

/-- What is recorded of an installed model; the paths are those below its folder. -/
structure Installed where
  path : Text
  metadata : Text
  repository : Text
  revision : Option Text
  files : List TrackedFile
  gguf : Option (Text × Bool)
  previousMetadata : Option Bytes

structure Plan where
  installed : Installed
  revision : Text
  files : List TrackedFile
  changed : List Nat
  removed : List Nat
  downloadBytes : Nat
  reusedBytes : Nat
  metadata : Bytes
  adoptedCompanions : Bool

structure ModelUpdateResult where
  path : Text
  revision : Text
  downloadedBytes : Nat
  reusedBytes : Nat
  updatedFiles : Nat
  removedFiles : Nat

inductive PlanMode where
  | check
  | apply
  deriving DecidableEq

/-- The packages, and what the loading files in a folder say. -/
structure UpdateTools extends Tools where
  prettyGguf : GgufManifest → Bytes
  inspectView : Tree → Text → Inspection
  validateGgufCompanions : Tree → Text → Except Text Unit

structure UpdateSurroundings extends Surroundings where
  contentLength : Text → Option Nat := fun _ => none

/-- The files one by one, `locals` and `remotes` being the paths before, in lower case. -/
def checkTracked (locals remotes : List Text) : List TrackedFile → Except Text (List Text)
  | [] => .ok locals
  | file :: files => do
    safeFile file.remote
    safeFile file.localPath
    let path := Text.toAsciiLower file.localPath
    let remote := Text.toAsciiLower file.remote
    require (((parts file.localPath ++ parts file.remote).any ownName = false ∧
        file.size ≤ maxModelBytes) ∧ path ∉ locals ∧ remote ∉ remotes)
      "update metadata has unsafe or colliding file paths".toList
    checkTracked (path :: locals) (remote :: remotes) files

def validateFiles (files : List TrackedFile) : Except Text Unit := do
  require (files ≠ [] ∧ files.length ≤ maxTreeEntries) "invalid update file count".toList
  let locals ← checkTracked [] [] files
  require (locals.all (fun name => (parents name).all fun folder => !locals.contains folder) = true)
    "update files have a path collision".toList

section Update

variable (tools : UpdateTools) (env : UpdateSurroundings)

/-- No part of a path below the folder is a link. -/
def checkComponent (path : Text) : Install Unit := do
  let node ← look env.host fun t => Tree.inspect t path
  match node with
  | some .link => throw "model update path contains a symbolic link".toList
  | some _ => look env.host fun _ => .ok ()
  | none => return ()

def safeDestination (relative : Text) : Install Unit := do
  Effect.ofExcept (safeFile relative)
  look env.host fun _ => .ok ()
  (parents relative ++ [relative]).forM (checkComponent env)

def boundedMetadata (path : Text) : Install (Option Bytes) := do
  let node ← look env.host fun t => Tree.inspect t path
  match node with
  | none => return none
  | some (.file content _) => do
    Effect.demand (content.length ≤ maxSnapshotManifestBytes)
      "update metadata must be a bounded regular file".toList
    look env.host fun _ => .ok ()
    return some content
  | some _ => throw "update metadata must be a bounded regular file".toList

def localModification (file : TrackedFile) (error : Text) : Text :=
  if error = downloadCancelled then error
  else "local modification in ".toList ++ file.localPath ++ ": ".toList ++ error

/-- The new state of a file that several quantizations share. -/
def companion (installed : Installed) (files : List TrackedFile) (file : TrackedFile) :
    Option TrackedFile :=
  if installed.gguf.any (·.2) ∧
      (extension (fileName file.remote)).all (fun e => !Text.eqIgnoreAsciiCase e "gguf".toList) then
    files.find? fun desired => desired.localPath = file.localPath ∧ desired.remote = file.remote
  else none

/-- `hash_existing_file` -/
def hashExistingFile (path : Text) (size : Nat) : Install Text := do
  let content ← Effect.mapError ("cannot verify downloaded file: ".toList ++ ·)
    (look env.host fun t => orError (Tree.content t path) .notFound)
  Effect.demand (content.length = size) ("existing file is ".toList ++
    Nat.toDigits 10 content.length ++ " bytes; expected ".toList ++ Nat.toDigits 10 size)
  checkCancelled env.toSurroundings
  Effect.mapError ("cannot hash downloaded file: ".toList ++ ·) (look env.host fun _ => .ok ())
  return hexText (tools.hashes.sha256 content)

def checkInstalled (mode : PlanMode) (installed : Installed) (files : List TrackedFile)
    (file : TrackedFile) : Install (TrackedFile × Bool) := do
  safeDestination env file.localPath
  let desired := companion installed files file
  if mode = .check ∧ validOid file.oid then
    let node ← look env.host fun t => (Tree.inspect t file.localPath).bind (orError · .notFound)
    let found := match node with
      | .file content _ => content.length == file.size || desired.any (·.size == content.length)
      | _ => false
    Effect.demand (found = true)
      ("local file differs from download metadata: ".toList ++ file.localPath)
    return (file, false)
  else if file.oid = none ∧ installed.revision = none then do
    let digest ← hashExistingFile tools env file.localPath file.size
    return ({ file with oid := some digest }, false)
  else
    match ← Effect.observe
      (verifyFileDigest tools.toTools env.toSurroundings file.snapshotFile) with
    | .ok () => return (file, false)
    | .error error =>
      match if error = downloadCancelled ∨ validOid file.oid = false then none else desired with
      | none => throw (localModification file error)
      | some desired =>
        match ← Effect.observe
          (verifyFileDigest tools.toTools env.toSurroundings desired.snapshotFile) with
        | .ok () => return ({ file with size := desired.size, oid := desired.oid }, true)
        | .error refused =>
          throw (if refused = downloadCancelled then refused else localModification file error)

/-- `expected_sha256` -/
def expectedSha256 (oid : Option Text) : Option Text :=
  oid.bind fun oid =>
    let value := Text.toAsciiLower ((Text.stripPrefix "sha256:".toList oid).getD oid)
    if value.utf8Len = 64 ∧ value.all isHexDigit then some value else none

def reusable (installed : Installed) (file : TrackedFile) : Install Bool := do
  let previous := installed.files.find? (·.localPath = file.localPath)
  let sameFile := previous.any fun p => p.remote = file.remote && p.size = file.size
  let algorithmChanged := previous.any fun p =>
    (expectedSha256 p.oid).isSome ≠ (expectedSha256 file.oid).isSome
  if sameFile && previous.any (fun p => identitiesEqual p.oid file.oid) then return true
  else if (installed.revision.isNone || algorithmChanged) && sameFile then do
    safeDestination env file.localPath
    match ← Effect.observe
      (verifyFileDigest tools.toTools env.toSurroundings file.snapshotFile) with
    | .ok () => return true
    | .error error => if error = downloadCancelled then throw error else return false
  else return false

def refuseUntracked (installed : Installed) (file : TrackedFile) : Install Unit := do
  safeDestination env file.localPath
  if installed.files.any (·.localPath = file.localPath) then return ()
  else
    let node ← Effect.observe (look env.host fun t => Tree.inspect t file.localPath)
    let there := match node with
      | .ok (some _) => true
      | _ => false
    Effect.demand (there = false)
      ("untracked local file collides with update: ".toList ++ file.localPath)

/-- What is to be fetched, the bytes of it, and the bytes that are there already. -/
structure Totals where
  changed : List Nat := []
  downloadBytes : Nat := 0
  reusedBytes : Nat := 0
  deriving DecidableEq

def planTransfers (installed : Installed) : Totals → List (TrackedFile × Nat) → Install Totals
  | totals, [] => return totals
  | totals, (file, index) :: rest => do
    if ← reusable tools env installed file then
      Effect.demand (totals.reusedBytes + file.size < 2 ^ 64) "update size overflow".toList
      planTransfers installed { totals with reusedBytes := totals.reusedBytes + file.size } rest
    else
      refuseUntracked env installed file
      Effect.demand (totals.downloadBytes + file.size < 2 ^ 64) "update size overflow".toList
      planTransfers installed { totals with
        changed := totals.changed ++ [index]
        downloadBytes := totals.downloadBytes + file.size } rest

def updatedMetadata (installed : Installed) (revision : Text) (files : List TrackedFile) : Bytes :=
  match installed.gguf with
  | some (entrypoint, companions) =>
    tools.prettyGguf ⟨1, installed.repository, revision, entrypoint, companions, files⟩
  | none =>
    tools.pretty ⟨1, installed.repository, revision, files.map TrackedFile.snapshotFile, true⟩

/-- `files` are those `selected_files` takes from the repository. -/
def planUpdate (mode : PlanMode) (installed : Installed) (revision : Text)
    (files : List TrackedFile) : Install Plan := do
  let checked ← installed.files.mapM (checkInstalled tools env mode installed files)
  let installed := { installed with files := checked.map (·.1) }
  let totals ← planTransfers tools env installed {} files.zipIdx
  let removed := (installed.files.zipIdx.filter fun old =>
    !files.any (·.localPath = old.1.localPath)).map (·.2)
  return {
    installed
    revision
    files
    changed := totals.changed
    removed
    downloadBytes := totals.downloadBytes
    reusedBytes := totals.reusedBytes
    metadata := updatedMetadata tools installed revision files
    adoptedCompanions := checked.any (·.2) }

def verifyBaseline (plan : Plan) : Install Unit := do
  let metadata ← boundedMetadata env plan.installed.metadata
  Effect.demand (metadata = plan.installed.previousMetadata)
    "model ownership metadata changed while updating".toList
  plan.installed.files.forM fun file => do
    safeDestination env file.localPath
    Effect.mapError (localModification file)
      (verifyFileDigest tools.toTools env.toSurroundings file.snapshotFile)
  plan.files.forM (refuseUntracked env plan.installed)

def receiveChunks (size : Nat) (staged : Text) (received : Bytes) :
    List (Except Text Bytes) → Install Bytes
  | [] => do
    checkCancelled env.toSurroundings
    return received
  | chunk :: chunks => do
    checkCancelled env.toSurroundings
    let chunk ← Effect.ofExcept
      (chunk.mapError fun error => "model download stream failed: ".toList ++ error)
    let received := received ++ chunk
    Effect.demand (received.length ≤ maxModelBytes ∧ received.length ≤ size)
      "model download reported an unsafe size".toList
    Effect.mapError ("cannot write model download: ".toList ++ ·)
      (change env.host (append staged chunk))
    receiveChunks size staged received chunks

def receiveDownload (file : TrackedFile) (staged : Text) (chunks : List (Except Text Bytes)) :
    Install Unit := do
  createStagingFile env.toSurroundings staged
  cleaning env.toSurroundings staged do
    Effect.demand (file.oid.all fun oid => (identity oid).isSome)
      "snapshot file has an invalid digest".toList
    let received ← receiveChunks env file.size staged [] chunks
    Effect.mapError ("cannot flush model download: ".toList ++ ·) (look env.host fun _ => .ok ())
    Effect.demand (received.length = file.size) ("model download ended at ".toList ++
      Nat.toDigits 10 received.length ++ " bytes; expected ".toList ++ Nat.toDigits 10 file.size)
    Effect.demand (file.oid.all fun oid => digestMatches tools.hashes oid file.size received)
      "downloaded model checksum does not match Hugging Face metadata".toList
    checkCancelled env.toSurroundings

def stagedFile (stage : Text) (index : Nat) : Text :=
  join (join stage "data".toList) (Nat.toDigits 10 index)

def stagedMetadata (stage : Text) : Text := join stage "metadata.json".toList

def viewFolder (stage : Text) : Text := join stage "view".toList

def backupFolder (stage : Text) : Text := join stage "backup".toList

def fetchFile (stage : Text) (file : TrackedFile) (index : Nat) : Install Unit := do
  checkCancelled env.toSurroundings
  match env.responses file.remote with
  | .failed error => throw ("model update download failed: ".toList ++ error)
  | .refused error => throw error
  | .status code => throw ("model update HTTP status: ".toList ++ code)
  | .body chunks => do
    Effect.demand ((env.contentLength file.remote).all (· == file.size))
      "model update length differs from repository metadata".toList
    receiveDownload tools env file (stagedFile stage index) chunks
    look env.host fun _ => .ok ()

def fetchFiles (stage : Text) : Nat → List (TrackedFile × Nat) → Install Nat
  | completed, [] => return completed
  | completed, (file, index) :: rest => do
    fetchFile tools env stage file index
    Effect.demand (completed + file.size < 2 ^ 64) "update size overflow".toList
    fetchFiles stage (completed + file.size) rest

def Plan.fetched (plan : Plan) : List (TrackedFile × Nat) :=
  plan.changed.filterMap fun index => plan.files[index]?.map (·, index)

/-- The installed files the plan takes away. -/
def Plan.dropped (plan : Plan) : List TrackedFile :=
  plan.removed.filterMap fun index => plan.installed.files[index]?

/-- `create_dir_all`, below the staging folder -/
def createMissing (folder : Text) : Install Unit := do
  let node ← look env.host fun t => Tree.inspect t folder
  match node with
  | none => change env.host fun t _ => Tree.createDirectory t folder
  | some .directory => return ()
  | some _ => throw (env.host.message .exists)

def linkView (plan : Plan) (stage : Text) (file : TrackedFile) (index : Nat) : Install Unit := do
  let fetched := plan.changed.contains index
  if fetched then pure () else safeDestination env file.localPath
  let destination := join (viewFolder stage) file.localPath
  ((parents destination).filter fun folder => (viewFolder stage).isPrefixOf folder).forM
    (createMissing env)
  Effect.mapError ("cannot link model validation view: ".toList ++ ·)
    (change env.host fun t _ => Tree.hardLink t
      (if fetched then stagedFile stage index else file.localPath) destination)

def validateStagedModel (plan : Plan) (stage : Text) : Install Unit := do
  change env.host fun t _ => Tree.createDirectory t (viewFolder stage)
  plan.files.zipIdx.forM fun entry => linkView env plan stage entry.1 entry.2
  match plan.installed.gguf with
  | some (entrypoint, companions) =>
    let d ← get
    if companions then
      Effect.ofExcept
        (tools.validateGgufCompanions d.tree (join (viewFolder stage) (fileName entrypoint)))
    else return ()
  | none => do
    change env.host fun t clock =>
      Tree.write t (join (viewFolder stage) snapshotManifest) plan.metadata clock
    let d ← get
    let inspection := tools.inspectView d.tree (viewFolder stage)
    Effect.demand (inspection.missing = [] ∧ inspection.unknownFormat = false)
      ("updated snapshot loading files are invalid: ".toList ++ joined inspection.missing)

/-- Everything before the first file of the model is touched. -/
def prepareUpdate (plan : Plan) (stage : Text) : Install Nat := do
  change env.host fun t _ => Tree.createDirectory t (join stage "data".toList)
  change env.host fun t _ => Tree.createDirectory t (backupFolder stage)
  let completed ← fetchFiles tools env stage 0 plan.fetched
  validateStagedModel tools env plan stage
  change env.host fun t clock => Tree.write t (stagedMetadata stage) plan.metadata clock
  look env.host fun _ => .ok ()
  verifyBaseline tools env plan
  checkCancelled env.toSurroundings
  return completed

structure CommitEntry where
  target : Text
  backup : Option Text
  activated : Bool
  activatedStamp : Option Nat

def isFile : Node → Bool
  | .file _ _ => true
  | _ => false

/-- The identity of a file. -/
def stamp (path : Text) : Install Nat :=
  look env.host fun t =>
    match t.get path with
    | some (.file _ stamp) => .ok stamp
    | _ => .error .notFound

def backUp (target : Text) (expectedExists : Bool) (backup : Text) :
    Install (Option Text) := do
  let node ← look env.host fun t => Tree.inspect t target
  Effect.demand (node.all isFile = true)
    "update commit destination is not a regular file".toList
  Effect.demand (node.isSome = expectedExists)
    "model file appeared or disappeared during commit".toList
  if node.isSome then do
    Effect.mapError ("cannot back up model file: ".toList ++ ·)
      (change env.host fun t _ => Tree.rename t target backup)
    return some backup
  else return none

/-- The entries come back also where a step fails. -/
def commitFile (target : Text) (source : Option Text) (expectedExists : Bool)
    (backupDirectory : Text) (entries : List CommitEntry) :
    Install (Except Text Unit × List CommitEntry) := do
  let name := join backupDirectory (Nat.toDigits 10 entries.length)
  match ← Effect.observe (backUp env target expectedExists name) with
  | .error error => return (.error error, entries)
  | .ok backup =>
    match source with
    | none => return (.ok (), entries ++ [⟨target, backup, false, none⟩])
    | some source =>
      match ← Effect.observe (change env.host fun t _ => Tree.hardLink t source target) with
      | .error error =>
        return (.error ("cannot activate updated file: ".toList ++ error),
          entries ++ [⟨target, backup, false, none⟩])
      | .ok () =>
        match ← Effect.observe (stamp env target) with
        | .error error => return (.error error, entries ++ [⟨target, backup, true, none⟩])
        | .ok found => return (.ok (), entries ++ [⟨target, backup, true, some found⟩])

/-- A file to be put in place or, without a source, to be taken away. -/
structure Exchange where
  target : Text
  source : Option Text
  expectedExists : Bool
  checked : Install Unit

def commitFiles (stage : Text) :
    List Exchange → List CommitEntry → Install (Except Text Unit × List CommitEntry)
  | [], entries => return (.ok (), entries)
  | exchange :: rest, entries => do
    match ← Effect.observe exchange.checked with
    | .error error => return (.error error, entries)
    | .ok () =>
      match ← commitFile env exchange.target exchange.source exchange.expectedExists
        (backupFolder stage) entries with
      | (.ok (), entries) => commitFiles stage rest entries
      | (.error error, entries) => return (.error error, entries)

def Plan.exchanges (plan : Plan) (stage : Text) : List Exchange :=
  plan.dropped.map (fun file =>
    { target := file.localPath, source := none, expectedExists := true,
      checked := safeDestination env file.localPath }) ++
  plan.fetched.map (fun entry =>
    { target := entry.1.localPath, source := some (stagedFile stage entry.2),
      expectedExists := plan.installed.files.any (·.localPath = entry.1.localPath),
      checked := checkedDestination env.toSurroundings entry.1.localPath true }) ++
  [{ target := plan.installed.metadata, source := some (stagedMetadata stage),
     expectedExists := plan.installed.previousMetadata.isSome, checked := pure () }]

/-- Takes a file away that was put in place, or says why it could not. -/
def withdraw (entry : CommitEntry) : Install (Option Text) :=
  if entry.activated then do
    let node ← Effect.observe (look env.host fun t => Tree.inspect t entry.target)
    let current ← Effect.observe (stamp env entry.target)
    let regular := match node with
      | .ok (some node) => isFile node
      | _ => false
    if regular = false ∨ current.toOption.isNone ∨ current.toOption ≠ entry.activatedStamp then
      return some ("activated file changed before rollback: ".toList ++ entry.target)
    else
      match ← Effect.observe (change env.host fun t _ => Tree.removeFile t entry.target) with
      | .error error =>
        return some ("cannot remove ".toList ++ entry.target ++ ": ".toList ++ error)
      | .ok () => return none
  else return none

/-- An old file comes back unless something stands where it was. -/
def restore (target backup : Text) : Install (Option Text) := do
  match ← Effect.observe (look env.host fun t => Tree.inspect t target) with
  | .ok (some _) => return some ("restore destination exists: ".toList ++ target)
  | _ =>
    match ← Effect.observe (change env.host fun t _ => Tree.rename t backup target) with
    | .error error => return some ("cannot restore ".toList ++ target ++ ": ".toList ++ error)
    | .ok () => return none

/-- Takes one exchange back. -/
def rollbackEntry (entry : CommitEntry) : Install (Option Text) := do
  match ← withdraw env entry, entry.backup with
  | some failure, _ => return some failure
  | none, none => return none
  | none, some backup => restore env entry.target backup

/-- The failures of taking everything back, the last exchange first. -/
def rollback (entries : List CommitEntry) : Install (List Text) := do
  let failures ← entries.reverse.mapM (rollbackEntry env)
  return failures.reduceOption

def inside (stage path : Text) : Bool := path == stage || (stage ++ ['/']).isPrefixOf path

/-- `remove_dir_all`, as far as it comes -/
def removeStage (stage : Text) : Install Unit := do
  let d ← get
  let paths := (d.tree.entries.map (·.1)).filter (inside stage)
  let _ ← Effect.observe
    (paths.reverse.forM fun path => change env.host fun t _ => .ok (t.erase path))
  return ()

/-- The update in its staging folder; the answer is also whether the folder is to stay. -/
def runStaged (plan : Plan) (stage : Text) : Install (Except Text Nat × Bool) := do
  match ← Effect.observe (prepareUpdate tools env plan stage) with
  | .error error => return (.error error, false)
  | .ok completed =>
    match ← commitFiles env stage (plan.exchanges env stage) [] with
    | (.ok (), _) => return (.ok completed, false)
    | (.error error, entries) => do
      let failures ← rollback env entries
      if failures = [] then return (.error error, false)
      else return (.error (error ++ "; rollback failed: ".toList ++
        List.flatten (failures.intersperse "; ".toList) ++
        "; original backups retained at ".toList ++ stage), true)

def stageFolder (unique : Text) : Text := ".aiolm-update-".toList ++ unique

/-- The receipts that are noted once the files are in place lie outside the model's folder. -/
def applyPlan (plan : Plan) : Install ModelUpdateResult := do
  checkCancelled env.toSurroundings
  if plan.changed = [] ∧ plan.removed = [] ∧ plan.adoptedCompanions = false then do
    verifyBaseline tools env plan
    return ⟨plan.installed.path, plan.revision, 0, plan.reusedBytes, 0, 0⟩
  else do
    ensureDownloadParent env.toSurroundings "update-staging".toList
    let d ← get
    let stage := stageFolder (env.unique d.clock)
    Effect.mapError ("cannot stage model update: ".toList ++ ·)
      (change env.host fun t _ => Tree.createDirectory t stage)
    let (result, preserve) ← runStaged tools env plan stage
    if preserve then pure () else removeStage env stage
    let completed ← Effect.ofExcept result
    return ⟨plan.installed.path, plan.revision, completed, plan.reusedBytes, plan.changed.length,
      plan.removed.length⟩

def updateModel (installed : Installed) (revision : Text) (files : List TrackedFile) :
    Install ModelUpdateResult := do
  let plan ← planUpdate tools env .apply installed revision files
  applyPlan tools env plan

end Update

end AioLM.Discover.Updates
