import Mathlib.Data.List.Lex
import AioLM.Digests
import AioLM.Effects
import AioLM.KeyMap

/-!
The records that bind a submission to its owner: what makes one valid, the file it has
in the owners folder, and what reading that file gives.
-/

set_option autoImplicit false

namespace AioLM.Owners

inductive SharingError where
  | vaultUnavailable (message : Text)
  | bindingConflict (message : Text)
  deriving DecidableEq

def unavailable : SharingError :=
  .vaultUnavailable "The ownership registry is unavailable.".toList

structure Record where
  version : Nat
  submissionId : Text
  credentialRef : Text
  bodySha256 : Text
  destination : Text
  origin : Text
  createdAtMs : Nat
  deriving DecidableEq

/-- What the parser makes of an address. -/
structure Url where
  scheme : Text
  username : Text := []
  password : Option Text := none
  host : Option Text
  port : Option Nat := none
  path : Text := "/".toList
  query : Option Text := none
  fragment : Option Text := none
  deriving DecidableEq

structure LegacyEntry where
  credentialRef : Text
  bodySha256 : Text
  destination : Text
  origin : Text
  createdAtMs : Nat
  deriving DecidableEq

/-- The registry of the previous layout. -/
structure LegacyFile where
  version : Nat
  bindings : KeyMap Text LegacyEntry

/-- The packages: hashing, the parsers, the writer of records, and whether the build has
debug assertions. -/
structure Packages where
  sha256 : Bytes → Bytes
  parseUuid : Text → Bool
  parseUrl : Text → Option Url
  fromSlice : Bytes → Option Record
  toVec : Record → Option Bytes
  legacyFromSlice : Bytes → Option LegacyFile
  debugAssertions : Bool := false

def recordVersion : Nat := 1
def maxRecordBytes : Nat := 4096
def maxUrlLen : Nat := 2048
def vaultService : Text := "aiolm-benchmark-owner".toList
def unknownBody : Text := "unknown".toList

def validBodyHash (hash : Text) : Bool :=
  hash == unknownBody || (hash.utf8Len == 64 && hash.all Discover.isHexDigit)

def credentialRef (submissionId : Text) : Text :=
  "keyring/".toList ++ vaultService ++ '/' :: submissionId

/-- The form of a lowercase UUIDv4, by its places. -/
def uuidChar (index : Nat) (c : Char) : Bool :=
  if [8, 13, 18, 23].contains index then c == '-'
  else Text.isLowerHex c && (index != 14 || c == '4') && (index != 19 || "89ab".toList.contains c)

def validateSubmissionId (pkg : Packages) (submissionId : Text) : Except Text Unit :=
  let valid := submissionId.utf8Len == 36 &&
    submissionId.zipIdx.all fun (c, index) => uuidChar index c
  if !valid || !pkg.parseUuid submissionId then .error "submission id is not a UUIDv4".toList
  else .ok ()

def isLoopbackHost (url : Url) : Bool :=
  match url.host with
  | some host => ["localhost".toList, "127.0.0.1".toList, "[::1]".toList, "::1".toList].contains host
  | none => false

def validateRootOrigin (pkg : Packages) (url : Url) : Except Text Unit :=
  if url.host.all List.isEmpty then .error "benchmark service URL has no host".toList
  else if !url.username.isEmpty || url.password.isSome then
    .error "benchmark service URL must not embed credentials".toList
  else if url.query.isSome || url.fragment.isSome then
    .error "benchmark service URL must not contain a query or fragment".toList
  else if url.path != "/".toList then
    .error "benchmark service URL must be a root origin without a base path".toList
  else if url.scheme == "https".toList then .ok ()
  else if pkg.debugAssertions && url.scheme == "http".toList && isLoopbackHost url then .ok ()
  else .error "benchmark service URL requires HTTPS without embedded credentials".toList

def validateBaseUrl (pkg : Packages) (raw : Text) : Except Text Url :=
  let raw := Text.trim raw
  if raw.isEmpty then .error "benchmark service URL is empty".toList
  else if maxUrlLen < raw.utf8Len then .error "benchmark service URL exceeds the size limit".toList
  else match pkg.parseUrl raw with
    | none => .error "benchmark service URL is not absolute".toList
    | some url => (validateRootOrigin pkg url).map fun _ => url

def originOf (url : Url) : Text :=
  let host := url.host.getD []
  match url.port with
  | some port => url.scheme ++ "://".toList ++ host ++ ':' :: Nat.toDigits 10 port
  | none => url.scheme ++ "://".toList ++ host

def submitEndpointForOrigin (origin : Text) : Text := origin ++ "/v1/benchmark-runs".toList

def validateDestination (origin destination : Text) : Except Text Unit :=
  if maxUrlLen < destination.utf8Len then
    .error "benchmark destination exceeds the size limit".toList
  else if destination != submitEndpointForOrigin origin then
    .error "benchmark destination is not the service publication endpoint".toList
  else .ok ()

def maxCreatedAtMs : Nat := 8640000000000000

def validateRecord (pkg : Packages) (record : Record) : Except SharingError Unit := do
  if record.version ≠ recordVersion then throw unavailable
  (validateSubmissionId pkg record.submissionId).mapError fun _ => unavailable
  if record.credentialRef ≠ credentialRef record.submissionId then throw unavailable
  if !validBodyHash record.bodySha256 then throw unavailable
  let originUrl ← (validateBaseUrl pkg record.origin).mapError fun _ => unavailable
  (validateDestination (originOf originUrl) record.destination).mapError fun _ => unavailable
  if maxCreatedAtMs < record.createdAtMs then throw unavailable

/-- The name of the file of a submission, without its extension. -/
def recordStem (pkg : Packages) (submissionId : Text) : Except SharingError Text := do
  (validateSubmissionId pkg submissionId).mapError fun _ =>
    SharingError.bindingConflict "The submission id is not a valid identifier.".toList
  return Discover.hexText (pkg.sha256 (TextBytes.encode submissionId))

def recordName (pkg : Packages) (submissionId : Text) : Except SharingError Text :=
  (recordStem pkg submissionId).map (· ++ ".json".toList)

/-- What stands at a name of the owners folder; a content that cannot be read is `none`,
and so is what a link leads to when that is missing. -/
inductive Node where
  | file (content : Option Bytes)
  | directory
  | link (target : Option (Option Bytes))
  deriving DecidableEq

/-- What a name of the folder opens to, `none` when that is missing. -/
def opened : Option Node → Option (Option Bytes)
  | none => none
  | some (.file content) => some content
  | some .directory => some none
  | some (.link target) => target

def readRecordFile (pkg : Packages) (node : Option Node) : Except SharingError (Option Record) :=
  match opened node with
  | none => .ok none
  | some none => .error unavailable
  | some (some content) =>
    let bytes := content.take (maxRecordBytes + 1)
    if maxRecordBytes < bytes.length then .error unavailable
    else match pkg.fromSlice bytes with
      | none => .error unavailable
      | some record => (validateRecord pkg record).map fun _ => some record

/-- The sharing folder: the registry of the previous layout, the names it was moved aside
to, and the owners folder when there is one. -/
structure Store where
  legacy : Option Bytes
  archived : KeyMap Text Bytes
  owners : Option (KeyMap Text Node)

def Store.owner (s : Store) (name : Text) : Option Node := s.owners.bind (·.get name)

def Readable (pkg : Packages) (node : Option Node) (record : Record) : Prop :=
  readRecordFile pkg node = .ok (some record)

/-- What is promised of the packages: digests have 32 bytes and do not collide on the
texts of `D`, and the records of `R` are read back as they were written. -/
structure Lawful (pkg : Packages) (D : Set Bytes) (R : Set Record) : Prop where
  length_sha256 : ∀ bytes, (pkg.sha256 bytes).length = 32
  injective : Set.InjOn pkg.sha256 D
  written : ∀ record ∈ R, ∃ bytes, pkg.toVec record = some bytes ∧ pkg.fromSlice bytes = some record

variable {pkg : Packages}

theorem readRecordFile_written {record : Record} {bytes : Bytes}
    (hread : pkg.fromSlice bytes = some record) (hfits : bytes.length ≤ maxRecordBytes)
    (hvalid : validateRecord pkg record = .ok ()) :
    Readable pkg (some (.file (some bytes))) record := by
  have htake : bytes.take (maxRecordBytes + 1) = bytes :=
    List.take_of_length_le (hfits.trans (Nat.le_succ _))
  simp [Readable, readRecordFile, opened, htake, not_lt.mpr hfits, hread, hvalid, Except.map]

theorem readable_file {record : Record} {bytes : Bytes}
    (h : Readable pkg (some (.file (some bytes))) record) : pkg.fromSlice bytes = some record := by
  simp only [Readable, readRecordFile, opened] at h
  split at h
  · cases h
  · rename_i hlength
    rw [List.length_take] at hlength
    have htake : bytes.take (maxRecordBytes + 1) = bytes := List.take_of_length_le (by omega)
    rw [htake] at h
    cases hread : pkg.fromSlice bytes with
    | none => simp [hread] at h
    | some found =>
      simp only [hread] at h
      cases hvalid : validateRecord pkg found with
      | error error => simp [hvalid, Except.map] at h
      | ok u =>
        simp only [hvalid, Except.map, Except.ok.injEq] at h
        exact h

theorem readRecordFile_file (content : Option Bytes) :
    readRecordFile pkg (some (.file content)) ≠ .ok none := by
  unfold readRecordFile opened
  cases content with
  | none => simp
  | some bytes =>
    simp only
    split
    · simp
    · split
      · simp
      · rename_i record _
        cases validateRecord pkg record <;> simp [Except.map]

end AioLM.Owners
