import AioLM.Digests
import AioLM.Fallible
import AioLM.Files
import AioLM.Search

/-!
Downloads of repository snapshots: what is fetched into a folder, and the manifest
that says whether everything is there.
-/

set_option autoImplicit false

namespace AioLM.Discover

open Fallible Files

def maxTreeEntries : Nat := 50000

def maxModelBytes : Nat := 512 * 1024 * 1024 * 1024

def maxSnapshotManifestBytes : Nat := 32 * 1024 * 1024

def downloadCancelled : Text := "model download cancelled".toList

def snapshotManifest : Text := ".aiolm-snapshot.json".toList

structure SnapshotManifest where
  format : Nat
  repository : Text
  revision : Text
  files : List SnapshotFile
  complete : Bool
  deriving DecidableEq

structure ApiTreeEntry where
  path : Text
  size : Nat
  oid : Option Text
  lfs : Option (Option Text)
  entryType : Text

def parts (path : Text) : List Text := path.splitOnP (· == '/')

def trimEnd (t : Text) : Text := Text.trimEndMatches Text.isWhitespace t

/-- Names that stand for devices on Windows, in every folder and with any extension. -/
def reservedDeviceName (part : Text) : Bool :=
  let stem : Text := (trimEnd (part.takeWhile (· ≠ '.'))).map Char.toUpper
  ["CON".toList, "PRN".toList, "AUX".toList, "NUL".toList].contains stem ||
    (stem.utf8Len == 4 && ("COM".toList.isPrefixOf stem || "LPT".toList.isPrefixOf stem) &&
      (stem.drop 3).head?.any Char.isDigit)

/-- `char::is_control` -/
def isControl (c : Char) : Bool := c.toNat < 0x20 || (0x7F ≤ c.toNat && c.toNat < 0xA0)

def unsafeComponent (part : Text) : Bool :=
  part.isEmpty || part == ['.'] || part == ['.', '.'] || decide (255 < part.utf8Len) ||
    part.getLast? == some '.' || part.getLast? == some ' ' ||
    part.any fun c => isControl c || "<>:\"|?*".toList.contains c

def validateRepoPath (filePath : Text) : Except Text Unit := do
  let value := Text.trim filePath
  require (value ≠ [] ∧ value.head? ≠ some '/' ∧ '\\' ∉ value)
    "model file path is not a safe relative path".toList
  require ((parts value).all (fun part => !unsafeComponent part) = true)
    "model file path contains an unsafe component".toList
  require (".gguf".toList.isSuffixOf (Text.toAsciiLower value))
    "Discover only downloads GGUF files".toList

def safeFile (path : Text) : Except Text Unit := do
  require (path.getLast?.all (fun c => c != '/' && c != '.' && c != ' ') = true ∧
      (parts path).any reservedDeviceName = false) "unsafe snapshot path".toList
  validateRepoPath (path ++ ".gguf".toList)

/-- A part of a path the program keeps for its own files. -/
def ownName (part : Text) : Bool :=
  Text.eqIgnoreAsciiCase part snapshotManifest ||
    Text.eqIgnoreAsciiCase (part.take 7) ".aiolm-".toList ||
    Text.eqIgnoreAsciiCase (part.drop (part.length - 18)) ".aiolm-update.json".toList

/-- Upstream data never overlaps the program's ownership and update metadata. -/
def safeDataFile (path : Text) : Except Text Unit := do
  safeFile path
  require ((parts path).any ownName = false) "repository file conflicts with AioLM metadata".toList

def fileName (path : Text) : Text := (parts path).getLast?.getD []

def acceptedNames : List Text :=
  ["tokenizer.model", "tiktoken.model", "spiece.model", "sentencepiece.bpe.model", "vocab.txt",
    "merges.txt", "chat_template.jinja"].map String.toList

def acceptedPath (path : Text) : Bool :=
  ".safetensors".toList.isSuffixOf path || ".json".toList.isSuffixOf path ||
    ".tiktoken".toList.isSuffixOf path || acceptedNames.contains (fileName path)

/-- The listed files one by one, `seen` being the paths before, in lower case. -/
def planFiles (seen : List Text) : List ApiTreeEntry → Except Text (List SnapshotFile)
  | [] => .ok []
  | entry :: entries => do
    safeDataFile entry.path
    let path := Text.toAsciiLower entry.path
    require (path ∉ seen) "snapshot has colliding file paths".toList
    require (entry.size ≤ maxModelBytes) "snapshot file exceeds the model size limit".toList
    let files ← planFiles (path :: seen) entries
    return ⟨entry.path, entry.size, entry.lfs.join.or entry.oid⟩ :: files

/-- `str::rsplit_once` -/
def rsplitOnce (pattern t : Text) : Option (Text × Text) :=
  (Search.find pattern.reverse t.reverse).map fun n =>
    (t.take (t.length - n - pattern.length), t.drop (t.length - n))

/-- `Path::extension` of a file of this name. -/
def extension (name : Text) : Option Text :=
  match rsplitOnce ['.'] name with
  | some (stem, extension) => if stem = [] then none else some extension
  | none => none

/-- `{n:05}` -/
def fiveDigits (n : Nat) : Text :=
  let digits := Nat.toDigits 10 n
  List.replicate (5 - digits.length) '0' ++ digits

/-- The base, index and count of a file that is one of several, by its stem. -/
def shardOf (stem : Text) : Option (Text × Text × Text) := do
  let (head, count) ← rsplitOnce "-of-".toList stem
  let (base, index) ← rsplitOnce ['-'] head
  if index.utf8Len = 5 ∧ count.utf8Len = 5 ∧ (index ++ count).all Char.isDigit then
    some (base, index, count)
  else none

def shardName (base : Text) (part count : Nat) : Text :=
  base ++ '-' :: fiveDigits part ++ "-of-".toList ++ fiveDigits count ++ ".safetensors".toList

def checkShards (names : List Text) (groups : List Text) : List SnapshotFile → Except Text Unit
  | [] => .ok ()
  | file :: files =>
    match (Text.stripSuffix ".safetensors".toList file.path).bind shardOf with
    | none => checkShards names groups files
    | some (base, index, count) => do
      let index := Nat.ofDigitChars 10 index 0
      let count := Nat.ofDigitChars 10 count 0
      require (index ≠ 0 ∧ index ≤ count ∧ count ≤ maxTreeEntries)
        "invalid weight shard count".toList
      let group := base ++ "-of-".toList ++ fiveDigits count
      if group ∈ groups then checkShards names groups files
      else do
        (List.range count).forM fun part => require (shardName base (part + 1) count ∈ names)
          ("snapshot is missing weight shard: ".toList ++ shardName base (part + 1) count)
        checkShards names (group :: groups) files

def tokenizerNames : List Text :=
  ["tokenizer.json", "tokenizer.model", "tiktoken.model", "spiece.model",
    "sentencepiece.bpe.model", "vocab.txt"].map String.toList

def planSnapshot (entries : List ApiTreeEntry) : Except Text (List SnapshotFile) := do
  let files ← planFiles []
    (entries.filter fun entry => entry.entryType == "file".toList && acceptedPath entry.path)
  let names := files.map (·.path)
  require ("config.json".toList ∈ names ∧
      names.any (fun path => !path.contains '/' && ".safetensors".toList.isSuffixOf path) = true)
    "repository has no supported root safetensors snapshot".toList
  require (tokenizerNames.any names.contains ∨
      ("vocab.json".toList ∈ names ∧ "merges.txt".toList ∈ names))
    "snapshot is missing local tokenizer assets".toList
  checkShards names [] files
  return files

/-- What a run establishes about the folder and writes of the manifest, in order. -/
inductive Note where
  | finding
  | wrote (manifest : SnapshotManifest)

inductive Response where
  | failed (error : Text)
  | refused (error : Text)
  | status (code : Text)
  | body (chunks : List (Except Text Bytes))

/-- What `inspect_snapshot` says of the folder. -/
structure Inspection where
  missing : List Text
  unknownFormat : Bool

/-- What one run meets with: the system, the writes of the manifest that fail, what the
hub answers for each file, the random part of a staging file's name. -/
structure Surroundings where
  host : Host
  unsaved : Nat → Option Text := fun _ => none
  responses : Text → Response
  unique : Nat → Text

/-- The packages, and the inspection of the loading files. -/
structure Tools where
  hashes : Hashes
  pretty : SnapshotManifest → Bytes
  parse : Bytes → Except Text SnapshotManifest
  validateRepoId : Text → Except Text Unit
  inspectSnapshot : Tree → Inspection

abbrev Install := Io Note

section Download

variable (tools : Tools) (env : Surroundings)

/-- The request to stop ends the run where it is looked at. -/
def checkCancelled : Install Unit := do
  if ← stopped env.host then throw downloadCancelled else return ()

def unbounded : Text := "snapshot manifest is not a bounded regular file".toList

def checkManifest (manifest : SnapshotManifest) : Except Text Unit := do
  require (manifest.format = 1 ∧ manifest.files.length ≤ maxTreeEntries)
    "unsupported snapshot manifest".toList
  tools.validateRepoId manifest.repository
  require (manifest.revision.utf8Len = 40 ∧ manifest.revision.all isHexDigit)
    "snapshot manifest has an invalid revision".toList
  require (manifest.files.all (fun file => file.size ≤ maxModelBytes) = true ∧
      (manifest.files.map fun file => Text.toAsciiLower file.path).Nodup)
    "snapshot manifest lists duplicate paths or excessive file sizes".toList
  require (manifest.files.all fun file =>
      (safeFile file.path).isOk && file.path != snapshotManifest)
    "snapshot manifest lists an unsafe path".toList

def parseManifest (content : Bytes) : Except Text SnapshotManifest := do
  require (content.length ≤ maxSnapshotManifestBytes) unbounded
  let manifest ← (tools.parse content).mapError fun error =>
    "snapshot manifest is invalid: ".toList ++ error
  checkManifest tools manifest
  return manifest

def readSnapshotManifest : Install (Option SnapshotManifest) := do
  let node ← Effect.mapError ("cannot inspect snapshot manifest: ".toList ++ ·)
    (look env.host fun t => Tree.inspect t snapshotManifest)
  match node with
  | none => return none
  | some (.file content _) =>
    Effect.mapError ("cannot read snapshot manifest: ".toList ++ ·) (look env.host fun _ => .ok ())
    let manifest ← Effect.ofExcept (parseManifest tools content)
    return some manifest
  | some _ => throw unbounded

def saveManifest (manifest : SnapshotManifest) : Install Unit := do
  let d ← get
  modify Disk.tick
  match env.unsaved d.clock with
  | some error => throw error
  | none => do
    modify fun d => { d with
      tree := d.tree.insert snapshotManifest (.file (tools.pretty manifest) d.clock) }
    note (.wrote manifest)

def checkParent (create : Bool) (folder : Text) : Install Unit := do
  let there ← Effect.observe (look env.host fun t => Tree.inspect t folder)
  match there with
  | .ok (some node) => do
    look env.host fun _ => .ok ()
    Effect.demand (node ≠ .link) "snapshot destination contains a link".toList
  | _ =>
    if create then do
      change env.host fun t _ => Tree.createDirectory t folder
      look env.host fun _ => .ok ()
    else return ()

def checkedDestination (relative : Text) (create : Bool) : Install Unit := do
  Effect.ofExcept (safeFile relative)
  (parents relative).forM (checkParent env create)

def notVerified (path : Text) : Text :=
  "snapshot file failed verification: ".toList ++ path

/-- The bytes of a file, read to its end unless the run is to stop. -/
def hashedContent (algorithm : Algorithm) (path : Text) : Install Bytes := do
  let what := if algorithm = .sha256 then "downloaded".toList else "snapshot".toList
  let content ← Effect.mapError (fun error =>
      "cannot verify ".toList ++ what ++ " file: ".toList ++ error)
    (look env.host fun t => orError (Tree.content t path) .notFound)
  checkCancelled env
  Effect.mapError (fun error => "cannot hash ".toList ++ what ++ " file: ".toList ++ error)
    (look env.host fun _ => .ok ())
  return content

def verifyFileDigest (file : SnapshotFile) : Install Unit := do
  checkCancelled env
  let oid ← Effect.ofExcept (orError file.oid "snapshot file has no digest".toList)
  let (algorithm, expected) ← Effect.ofExcept
    (orError (identity oid) "snapshot file has an invalid digest".toList)
  let node ← Effect.mapError (fun error =>
      "cannot inspect snapshot file ".toList ++ file.path ++ ": ".toList ++ error)
    (look env.host fun t => (Tree.inspect t file.path).bind (orError · .notFound))
  match node with
  | .file content _ => do
    Effect.demand (content.length = file.size) (notVerified file.path)
    let read ← hashedContent env algorithm file.path
    let same : Bool := match algorithm with
      | .sha256 => Text.eqIgnoreAsciiCase (hexText (tools.hashes.sha256 read)) expected
      | .gitBlob => matchesHex (algorithm.digest tools.hashes file.size read) expected
    Effect.demand (read.length = file.size ∧ same) (notVerified file.path)
  | _ => throw (notVerified file.path)

def verifyPublished (file : SnapshotFile) (failed : Text) : Install Unit :=
  if file.oid.isSome then
    Effect.mapError (fun error =>
        if error = downloadCancelled then error else failed ++ ": ".toList ++ error)
      (verifyFileDigest tools env file)
  else return ()

/-- Whether a file of the declared size and digest is there; anything else there is
an error, nothing there is not. -/
def verifyExisting (file : SnapshotFile) : Install Bool := do
  let node ← Effect.mapError (fun error =>
      "cannot inspect snapshot file ".toList ++ file.path ++ ": ".toList ++ error)
    (look env.host fun t => Tree.inspect t file.path)
  let failed := "existing snapshot file failed verification: ".toList ++ file.path
  match node with
  | none => return false
  | some (.file content _) => do
    Effect.demand (content.length = file.size) failed
    verifyPublished tools env file failed
    return true
  | some _ => throw failed

def ensureDownloadParent (path : Text) : Install Unit := do
  let real ← Effect.mapError ("cannot inspect download directory: ".toList ++ ·)
    (look env.host fun t => .ok ((parent path).all fun p => Tree.isDirectory t p))
  Effect.demand (real = true) "download directory must be a real directory".toList

/-- `.<name>.<unique>.part` beside the target. -/
def temporaryDownloadPath (target unique : Text) : Text :=
  let name := ('.' :: fileName target) ++ '.' :: unique ++ ".part".toList
  match parent target with
  | some folder => join folder name
  | none => name

def createStagingFile (path : Text) : Install Unit := do
  ensureDownloadParent env path
  let node ← Effect.mapError ("cannot inspect download staging path: ".toList ++ ·)
    (look env.host fun t => Tree.inspect t path)
  Effect.demand (node = none) "download staging path already exists".toList
  Effect.mapError ("cannot stage model download: ".toList ++ ·)
    (change env.host fun t clock => Tree.createFile t path [] clock)

def append (path : Text) (chunk : Bytes) (t : Tree) (clock : Nat) : Except Errno Tree := do
  let content ← orError (Tree.content t path) .notFound
  Tree.write t path (content ++ chunk) clock

/-- The stream into the staging file, as long as it is not longer than declared. -/
def receive (file : SnapshotFile) (temporary : Text) (received : Bytes) :
    List (Except Text Bytes) → Install Bytes
  | [] => do
    checkCancelled env
    return received
  | chunk :: chunks => do
    checkCancelled env
    let chunk ← Effect.ofExcept chunk
    let received := received ++ chunk
    Effect.demand (received.length ≤ file.size)
      ("snapshot file exceeds declared size: ".toList ++ file.path)
    change env.host (append temporary chunk)
    receive file temporary received chunks

def fillStagingFile (file : SnapshotFile) (temporary : Text)
    (chunks : List (Except Text Bytes)) : Install Unit := do
  let received ← receive env file temporary [] chunks
  Effect.demand (received.length = file.size)
    ("snapshot file is truncated: ".toList ++ file.path)
  Effect.demand (file.oid.all fun oid => digestMatches tools.hashes oid file.size received)
    ("snapshot checksum mismatch: ".toList ++ file.path)
  look env.host fun _ => .ok ()

def activateDownload (temporary target : Text) : Install Unit := do
  ensureDownloadParent env target
  let node ← Effect.mapError ("cannot inspect model destination before activation: ".toList ++ ·)
    (look env.host fun t => Tree.inspect t target)
  Effect.demand (node = none) "a different model appeared at the download destination".toList
  Effect.mapError ("cannot activate downloaded model without overwrite: ".toList ++ ·)
    (change env.host fun t _ => Tree.hardLink t temporary target)
  Effect.mapError ("cannot clean up staged model download: ".toList ++ ·)
    (change env.host fun t _ => Tree.removeFile t temporary)

/-- A step that leaves no staging file when it fails. -/
def cleaning (temporary : Text) (x : Install Unit) : Install Unit := do
  match ← Effect.observe x with
  | .ok () => return ()
  | .error error => do
    let _ ← Effect.observe (change env.host fun t _ => Tree.removeFile t temporary)
    throw error

def requestFile (file : SnapshotFile) : Install (List (Except Text Bytes)) := do
  checkCancelled env
  match env.responses file.path with
  | .failed error => throw error
  | .refused error => throw error
  | .status code =>
    throw ("snapshot file ".toList ++ file.path ++ ": HTTP ".toList ++ code)
  | .body chunks => return chunks

def transferFile (file : SnapshotFile) : Install Unit := do
  checkedDestination env file.path true
  let chunks ← requestFile env file
  let d ← get
  let temporary := temporaryDownloadPath file.path (env.unique d.clock)
  Effect.demand (file.oid.all fun oid => (identity oid).isSome)
    "snapshot file has an invalid digest".toList
  createStagingFile env temporary
  cleaning env temporary (fillStagingFile tools env file temporary chunks)
  cleaning env temporary (activateDownload env temporary file.path)

def invalidate (manifest : SnapshotManifest) (ready : Bool) : Install Unit :=
  if ready then saveManifest tools env manifest else return ()

def refuse {α : Type} (manifest : SnapshotManifest) (ready : Bool) (error : Text) :
    Install α := do
  note .finding
  invalidate tools env manifest ready
  throw error

def installFile (manifest : SnapshotManifest) (ready : Bool) (file : SnapshotFile) :
    Install Bool := do
  checkCancelled env
  match ← Effect.observe (checkedDestination env file.path false) with
  | .error error => refuse tools env manifest ready error
  | .ok () =>
    match ← Effect.observe (verifyExisting tools env file) with
    | .ok true => return ready
    | .ok false => do
      note .finding
      invalidate tools env manifest ready
      transferFile tools env file
      return false
    | .error error =>
      if error = downloadCancelled then throw error
      else refuse tools env manifest ready error

def installFiles (manifest : SnapshotManifest) (ready : Bool) :
    List SnapshotFile → Install Bool
  | [] => return ready
  | file :: files => do
    let ready ← installFile tools env manifest ready file
    installFiles manifest ready files

def joined (texts : List Text) : Text := List.flatten (texts.intersperse ", ".toList)

def checkLoading (manifest : SnapshotManifest) (ready : Bool) : Install Unit := do
  let d ← get
  let inspection := tools.inspectSnapshot d.tree
  if inspection.missing ≠ [] ∨ inspection.unknownFormat then
    refuse tools env manifest ready
      ("snapshot loading files are incomplete or invalid: ".toList ++ joined inspection.missing)
  else return ()

/-- Completion is published once the loading metadata agrees. -/
def publish (manifest : SnapshotManifest) (ready : Bool) : Install Unit := do
  checkLoading tools env manifest ready
  checkCancelled env
  saveManifest tools env { manifest with complete := true }

/-- Whether the manifest there says ready, of this revision and these files. -/
def previouslyComplete (manifest : SnapshotManifest) : Install Bool := do
  match ← readSnapshotManifest tools env with
  | none => return false
  | some previous => do
    Effect.demand (previous.repository = manifest.repository ∧
        previous.revision = manifest.revision ∧ previous.files = manifest.files)
      "existing snapshot manifest differs from the repository".toList
    return previous.complete

def saveIncomplete (manifest : SnapshotManifest) (ready : Bool) : Install Unit :=
  if ready then return () else saveManifest tools env manifest

def downloadSnapshotFiles (manifest : SnapshotManifest) : Install Unit := do
  Effect.demand ((manifest.files.map (·.size)).sum < 2 ^ 64) "snapshot size overflow".toList
  let ready ← previouslyComplete tools env manifest
  saveIncomplete tools env manifest ready
  let ready ← installFiles tools env manifest ready manifest.files
  publish tools env manifest ready

def plannedManifest (repository revision : Text) (files : List SnapshotFile) : SnapshotManifest where
  format := 1
  repository := repository
  revision := revision
  files := files
  complete := false

end Download

end AioLM.Discover
