import AioLM.AppVersions
import AioLM.Digests
import AioLM.HelpRows

/-!
The application's own update: what is offered for the latest published release,
and the installation of an offered version up to the start of the download.
-/

set_option autoImplicit false

namespace AioLM.AppUpdate

open Fallible
open Options (textLines)

def releaseRepository : Text := "aiolm/AioLM".toList

def productName : Text := "AioLM".toList

def checksumsAsset : Text := "checksums.txt".toList

def maxChecksumsBytes : Nat := 64 * 1024

def maxInstallerBytes : Nat := 512 * 1024 * 1024

inductive InstallerArch where
  | x64 | arm64
  deriving DecidableEq

inductive InstallKind where
  | nsis
  | msi
  | dmg (arch : InstallerArch)
  | deb (arch : InstallerArch)
  deriving DecidableEq

structure ReleaseAsset where
  name : Text
  browserDownloadUrl : Text
  digest : Option Text
  size : Nat
  deriving DecidableEq

structure Release where
  tagName : Text
  draft : Bool
  prerelease : Bool
  htmlUrl : Option Text
  publishedAt : Option Text
  body : Option Text
  assets : List ReleaseAsset
  deriving DecidableEq

structure UpdateStatus where
  currentVersion : Text
  latestVersion : Option Text
  available : Bool
  canInstall : Bool
  releaseUrl : Option Text
  publishedAt : Option Text
  notes : Option Text
  deriving DecidableEq

structure LatestRelease where
  version : Text
  newer : Bool
  releaseUrl : Option Text
  publishedAt : Option Text
  notes : Option Text

/-- The parts of a URL that are looked at. -/
structure Url where
  scheme : Text
  host : Option Text
  path : Text

/-- An answer to the request for an asset: where it came from, and its body in
the pieces it arrives in, one of which may fail. -/
structure Response where
  url : Text
  status : Text
  success : Bool
  contentLength : Option Nat
  chunks : List (Except Text Bytes)

structure Machine where
  /-- `reqwest::Url::parse` -/
  parseUrl : Text → Except Text Url
  installedKind : Except Text InstallKind
  installRunning : Bool
  updateDirectory : Except Text Text
  download : Text → Except Text Response
  /-- What is wrong with bytes that are not UTF-8. -/
  utf8Error : Bytes → Text

/-- The releases of the repository, as its two endpoints give them. -/
structure Published where
  releases : List Release
  nodup_tags : (releases.map (·.tagName)).Nodup
  latest : Option Release
  latest_mem : ∀ release ∈ latest, release ∈ releases

def Published.byTag (published : Published) (tag : Text) : Option Release :=
  published.releases.find? fun release => release.tagName == tag

/-- Why an installation stops: at one of its checks, or at the content of the
checksums file. -/
inductive Refusal where
  | refused (message : Text)
  | checksums (message : Text)
  deriving DecidableEq

def installerAssetName (kind : InstallKind) (version : Text) : Text :=
  productName ++ '_' :: version ++
    match kind with
    | .nsis => "_x64-setup.exe".toList
    | .msi => "_x64_en-US.msi".toList
    | .dmg .x64 => "_x64.dmg".toList
    | .dmg .arm64 => "_aarch64.dmg".toList
    | .deb .x64 => "_amd64.deb".toList
    | .deb .arm64 => "_arm64.deb".toList

def findAsset (assets : List ReleaseAsset) (name : Text) : Except Text ReleaseAsset :=
  orError (assets.find? fun asset => asset.name == name)
    ("release does not publish the installer asset ".toList ++ name)

section Urls

variable (parseUrl : Text → Except Text Url)

def githubusercontent (host : Text) : Bool :=
  host == "objects.githubusercontent.com".toList ||
    ".githubusercontent.com".toList.isSuffixOf host

def validateAssetUrl (url : Text) : Except Text Unit := do
  let parsed ← (parseUrl url).mapError ("invalid release asset URL: ".toList ++ ·)
  require (parsed.scheme = "https".toList) "release asset URL must use HTTPS".toList
  let host := parsed.host.getD []
  if host = "github.com".toList then
    require (('/' :: releaseRepository ++ "/releases/download/".toList).isPrefixOf parsed.path)
      ("release asset URL does not belong to ".toList ++ releaseRepository ++ ": ".toList ++ url)
  else require (githubusercontent host) ("release asset host is not trusted: ".toList ++ host)

def validateReleasePageUrl (url : Text) : Except Text Unit := do
  let parsed ← (parseUrl url).mapError ("invalid release page URL: ".toList ++ ·)
  require (parsed.scheme = "https".toList ∧ parsed.host = some "github.com".toList)
    "release page URL must be an HTTPS github.com URL".toList
  require (('/' :: releaseRepository ++ "/releases".toList).isPrefixOf parsed.path)
    ("release page URL does not belong to ".toList ++ releaseRepository)

end Urls

def normalizeDigest (value : Text) : Except Text Text :=
  let hex := (Text.stripPrefix "sha256:".toList value.trim).getD value.trim
  if hex.utf8Len ≠ 64 ∨ ¬ hex.all Discover.isHexDigit then
    .error "release asset digest is not a SHA-256 value".toList
  else .ok hex.toAsciiLower

def checksumOfLine (assetName line : Text) : Option Text :=
  match line.splitWhitespace with
  | [hash, name] => if name = assetName then (normalizeDigest hash).toOption else none
  | _ => none

def digestFromChecksums (text assetName : Text) : Option Text :=
  (textLines text).findSome? (checksumOfLine assetName)

def installable (parseUrl : Text → Except Text Url) (kind : Option InstallKind)
    (assets : List ReleaseAsset) (version : Text) : Bool :=
  kind.any fun kind =>
    match findAsset assets (installerAssetName kind version) with
    | .error _ => false
    | .ok asset =>
      (validateAssetUrl parseUrl asset.browserDownloadUrl).isOk &&
        match asset.digest with
        | some digest => (normalizeDigest digest).isOk
        | none =>
          match findAsset assets checksumsAsset with
          | .error _ => false
          | .ok checksums => (validateAssetUrl parseUrl checksums.browserDownloadUrl).isOk

def stableRelease (parseUrl : Text → Except Text Url) (current : Version) (release : Release) :
    Option LatestRelease :=
  if release.draft || release.prerelease then none
  else
    (parseVersion release.tagName).toOption.map fun version =>
      { newer := decide (current < version)
        version := version.text
        releaseUrl := release.htmlUrl.filter fun url => (validateReleasePageUrl parseUrl url).isOk
        publishedAt := release.publishedAt
        notes := (release.body.map Text.trim).filter fun notes => !notes.isEmpty }

def nothingOffered (current : Version) : UpdateStatus :=
  ⟨current.text, none, false, false, none, none, none⟩

def check (machine : Machine) (published : Published) (currentVersion : Text) :
    Except Text UpdateStatus := do
  let current ← parseVersion currentVersion
  match published.latest with
  | none => .ok (nothingOffered current)
  | some release =>
    match stableRelease machine.parseUrl current release with
    | none => .ok (nothingOffered current)
    | some latest =>
      let canInstall := latest.newer &&
        installable machine.parseUrl machine.installedKind.toOption release.assets latest.version
      .ok ⟨current.text, some latest.version, latest.newer, canInstall, latest.releaseUrl,
        latest.publishedAt, latest.notes⟩

/-- The pieces of a body, as long as they stay within the limit. -/
def readChunks (limit : Nat) (label : Text) : Bytes → List (Except Text Bytes) →
    Except Refusal Bytes
  | bytes, [] => .ok bytes
  | _, .error error :: _ =>
    .error (.refused (label ++ " response failed: ".toList ++ error))
  | bytes, .ok chunk :: chunks =>
    if limit < bytes.length + chunk.length then
      .error (.checksums (label ++ " response exceeds its size limit".toList))
    else readChunks limit label (bytes ++ chunk) chunks

def boundedText (machine : Machine) (response : Response) (limit : Nat) (label : Text) :
    Except Refusal Text := do
  require (¬ response.contentLength.any (limit < ·))
    (Refusal.checksums (label ++ " response exceeds its size limit".toList))
  let bytes ← readChunks limit label [] response.chunks
  orError (TextBytes.decode bytes)
    (.checksums (label ++ " response was not UTF-8: ".toList ++ machine.utf8Error bytes))

def checksumsText (machine : Machine) (url : Text) : Except Refusal Text := do
  let response ← (machine.download url).mapError fun error =>
    .refused (checksumsAsset ++ " download failed: ".toList ++ error)
  (validateAssetUrl machine.parseUrl response.url).mapError .refused
  require response.success
    (Refusal.refused (checksumsAsset ++ " download returned HTTP ".toList ++ response.status))
  boundedText machine response maxChecksumsBytes checksumsAsset

def expectedDigest (machine : Machine) (asset : ReleaseAsset) (assets : List ReleaseAsset) :
    Except Refusal Text :=
  match asset.digest with
  | some digest => (normalizeDigest digest).mapError .refused
  | none => do
    let checksums ← (findAsset assets checksumsAsset).mapError fun _ =>
      .refused ("release publishes no SHA-256 digest for ".toList ++ asset.name ++
        " and no ".toList ++ checksumsAsset ++ "; refusing an unverified installer".toList)
    (validateAssetUrl machine.parseUrl checksums.browserDownloadUrl).mapError .refused
    let text ← checksumsText machine checksums.browserDownloadUrl
    orError (digestFromChecksums text asset.name)
      (.checksums (checksumsAsset ++ " has no SHA-256 entry for ".toList ++ asset.name ++
        "; refusing an unverified installer".toList))

/-- What is downloaded, and what it is verified against. -/
structure Download where
  kind : InstallKind
  version : Version
  release : Release
  asset : ReleaseAsset
  expected : Text
  limit : Nat
  directory : Text
  deriving DecidableEq

def downloadLimit (asset : ReleaseAsset) : Nat :=
  if asset.size = 0 then maxInstallerBytes else min asset.size maxInstallerBytes

def install (machine : Machine) (published : Published) (requestedVersion currentVersion : Text) :
    Except Refusal Download := do
  require (machine.installRunning = false)
    (Refusal.refused "an application update is already being installed".toList)
  let current ← (parseVersion currentVersion).mapError .refused
  let requested ← (parseRequestedVersion requestedVersion).mapError .refused
  require (¬ requested ≤ current)
    (Refusal.refused (productName ++ ' ' :: requested.text ++
      " is not newer than the installed ".toList ++ current.text))
  let kind ← machine.installedKind.mapError .refused
  let named := "release v".toList ++ requested.text
  let release ← orError (published.byTag ('v' :: requested.text))
    (.refused (named ++ " is not published by ".toList ++ releaseRepository))
  require (¬ (release.draft || release.prerelease))
    (Refusal.refused (named ++ " is a draft or pre-release and is not offered as an update".toList))
  require ((parseVersion release.tagName).toOption = some requested)
    (Refusal.refused (named ++ " is published under the unexpected tag ".toList ++ release.tagName))
  let name := installerAssetName kind requested.text
  let asset ← (findAsset release.assets name).mapError .refused
  (validateAssetUrl machine.parseUrl asset.browserDownloadUrl).mapError .refused
  let expected ← expectedDigest machine asset release.assets
  let directory ← machine.updateDirectory.mapError fun error =>
    .refused ("could not create the update download directory: ".toList ++ error)
  .ok ⟨kind, requested, release, asset, expected, downloadLimit asset, directory⟩

end AioLM.AppUpdate
