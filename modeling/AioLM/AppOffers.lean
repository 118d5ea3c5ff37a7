import AioLM.AppUpdate

/-!
What an offer of an update promises. The offer is computed from the latest
release under whatever tag it has; the installation finds its release again by
the tag that is written from the version.
-/

set_option autoImplicit false

namespace AioLM.AppUpdate

open Fallible

variable {α β : Type} {machine : Machine} {published : Published} {release latest : Release}
  {current v : Version} {currentVersion requestedVersion : Text}

/-- Nothing stops it, other than the content of the checksums file. -/
def Unrefused (x : Except Refusal α) : Prop := ∀ message, x ≠ .error (.refused message)

theorem unrefused_ok (a : α) : Unrefused (.ok a) := nofun

theorem unrefused_bind {x : Except Refusal α} {f : α → Except Refusal β} :
    Unrefused (x >>= f) ↔ Unrefused x ∧ ∀ a, x = .ok a → Unrefused (f a) := by
  cases x with
  | ok a => simp [Unrefused, bind, Except.bind]
  | error e => simp [Unrefused, bind, Except.bind]

theorem unrefused_require_bind {p : Prop} [Decidable p] {message : Text}
    {f : Unit → Except Refusal β} :
    Unrefused (require p (Refusal.refused message) >>= f) ↔ p ∧ Unrefused (f ()) := by
  by_cases hp : p <;> simp [Unrefused, require, hp, bind, Except.bind]

theorem unrefused_refused_bind {x : Except Text α} {f : α → Except Refusal β} :
    Unrefused (x.mapError Refusal.refused >>= f) ↔ ∃ a, x = .ok a ∧ Unrefused (f a) := by
  cases x <;> simp [Unrefused, Except.mapError, bind, Except.bind]

theorem unrefused_mapError_bind {x : Except Text α} {g : Text → Text}
    {f : α → Except Refusal β} :
    Unrefused (x.mapError (fun error => .refused (g error)) >>= f) ↔
      ∃ a, x = .ok a ∧ Unrefused (f a) := by
  cases x <;> simp [Unrefused, Except.mapError, bind, Except.bind]

theorem unrefused_orError_bind {x : Option α} {message : Text} {f : α → Except Refusal β} :
    Unrefused (orError x (Refusal.refused message) >>= f) ↔ ∃ a, x = some a ∧ Unrefused (f a) := by
  cases x <;> simp [Unrefused, orError, bind, Except.bind]

theorem unrefused_checksums (x : Option α) (message : Text) :
    Unrefused (orError x (Refusal.checksums message)) := by
  cases x <;> simp [Unrefused, orError]

theorem mapError_eq_ok {ε δ : Type} {x : Except ε α} {f : ε → δ} {a : α} :
    x.mapError f = .ok a ↔ x = .ok a := by
  cases x <;> simp [Except.mapError]

theorem toOption_eq_some {ε : Type} {x : Except ε α} {a : α} :
    x.toOption = some a ↔ x = .ok a := by
  cases x <;> simp [Except.toOption]

theorem isOk_iff {ε : Type} {x : Except ε α} : x.isOk = true ↔ ∃ a, x = .ok a := by
  cases x <;> simp [Except.isOk, Except.toBool]

/-- The latest release is an update that `check` says can be installed. -/
structure Offerable (machine : Machine) (current : Version) (latest : Release) (v : Version) :
    Prop where
  draft : latest.draft = false
  prerelease : latest.prerelease = false
  tag : parseVersion latest.tagName = .ok v
  newer : current < v
  installable : installable machine.parseUrl machine.installedKind.toOption latest.assets v.text

theorem check_ok {status : UpdateStatus} (h : check machine published currentVersion = .ok status) :
    ∃ current, parseVersion currentVersion = .ok current ∧ (status = nothingOffered current ∨
      ∃ latest v, published.latest = some latest ∧ latest.draft = false ∧
        latest.prerelease = false ∧ parseVersion latest.tagName = .ok v ∧
        status.latestVersion = some v.text ∧ status.available = decide (current < v) ∧
        status.canInstall = (decide (current < v) &&
          AppUpdate.installable machine.parseUrl machine.installedKind.toOption latest.assets
            v.text)) := by
  obtain ⟨current, hcurrent, h⟩ := bind_eq_ok.mp h
  refine ⟨current, hcurrent, ?_⟩
  cases hlatest : published.latest with
  | none =>
    simp only [hlatest, Except.ok.injEq] at h
    exact .inl h.symm
  | some latest =>
    simp only [hlatest, stableRelease] at h
    by_cases hdraft : (latest.draft || latest.prerelease) = true
    · simp only [hdraft, if_true, Except.ok.injEq] at h
      exact .inl h.symm
    · cases hv : (parseVersion latest.tagName).toOption with
      | none =>
        simp only [hdraft, hv, Option.map_none, Bool.false_eq_true, if_false,
          Except.ok.injEq] at h
        exact .inl h.symm
      | some v =>
        simp only [hdraft, hv, Option.map_some, Bool.false_eq_true, if_false,
          Except.ok.injEq] at h
        simp only [Bool.or_eq_true, not_or, Bool.not_eq_true] at hdraft
        exact .inr ⟨latest, v, rfl, hdraft.1, hdraft.2, toOption_eq_some.mp hv, h ▸ rfl,
          h ▸ rfl, h ▸ rfl⟩

/-- What `check` says of a release that can be installed. -/
theorem check_of_offerable (hcurrent : parseVersion currentVersion = .ok current)
    (hlatest : published.latest = some latest) (h : Offerable machine current latest v) :
    ∃ status, check machine published currentVersion = .ok status ∧ status.canInstall = true ∧
      status.latestVersion = some v.text := by
  have hdraft : ¬ (latest.draft || latest.prerelease) = true := by simp [h.draft, h.prerelease]
  have hstable : ∃ url notes, stableRelease machine.parseUrl current latest =
      some ⟨v.text, decide (current < v), url, latest.publishedAt, notes⟩ := by
    rw [stableRelease, if_neg hdraft, toOption_eq_some.mpr h.tag]
    exact ⟨_, _, rfl⟩
  obtain ⟨url, notes, hstable⟩ := hstable
  refine ⟨⟨current.text, some v.text, decide (current < v), decide (current < v) &&
    AppUpdate.installable machine.parseUrl machine.installedKind.toOption latest.assets v.text,
    url, latest.publishedAt, notes⟩, bind_eq_ok.mpr ⟨current, hcurrent, ?_⟩, ?_, rfl⟩
  · simp only [hlatest, hstable]
  · simp [h.newer, h.installable]

/-- The release is one that `install` accepts for the version. -/
structure Accepted (machine : Machine) (release : Release) (v : Version) : Prop where
  draft : release.draft = false
  prerelease : release.prerelease = false
  installable : installable machine.parseUrl machine.installedKind.toOption release.assets v.text
  /-- A checksums file that is needed can be had. -/
  delivered : ∀ kind asset checksums, machine.installedKind = .ok kind →
    findAsset release.assets (installerAssetName kind v.text) = .ok asset →
    asset.digest = none → findAsset release.assets checksumsAsset = .ok checksums →
    Unrefused (checksumsText machine checksums.browserDownloadUrl)
  /-- With a digest known, there is a place for the installer. -/
  directory : ∀ kind asset, machine.installedKind = .ok kind →
    findAsset release.assets (installerAssetName kind v.text) = .ok asset →
    (expectedDigest machine asset release.assets).isOk → machine.updateDirectory.isOk

/-- Installing the version finds nothing in its way. -/
def Ready (machine : Machine) (published : Published) (v : Version) : Prop :=
  machine.installRunning = false ∧
    ∃ release, published.byTag ('v' :: v.text) = some release ∧ Accepted machine release v

theorem unrefused_expectedDigest {asset : ReleaseAsset} {assets : List ReleaseAsset} :
    Unrefused (expectedDigest machine asset assets) ↔
      (∃ digest, asset.digest = some digest ∧ (normalizeDigest digest).isOk) ∨
        asset.digest = none ∧ ∃ checksums, findAsset assets checksumsAsset = .ok checksums ∧
          (validateAssetUrl machine.parseUrl checksums.browserDownloadUrl).isOk ∧
          Unrefused (checksumsText machine checksums.browserDownloadUrl) := by
  unfold expectedDigest
  cases hdigest : asset.digest with
  | some digest =>
    cases hnormal : normalizeDigest digest <;>
      simp [Unrefused, Except.mapError, Except.isOk, Except.toBool, hnormal]
  | none =>
    simp only [unrefused_mapError_bind, unrefused_refused_bind, isOk_iff, true_and, false_and,
      exists_false, false_or, reduceCtorEq]
    refine exists_congr fun checksums => and_congr_right fun _ => ?_
    simp [unrefused_bind, unrefused_checksums]

theorem installable_iff {parseUrl : Text → Except Text Url} {kind : Option InstallKind}
    {assets : List ReleaseAsset} {version : Text} :
    installable parseUrl kind assets version = true ↔ ∃ k asset, kind = some k ∧
      findAsset assets (installerAssetName k version) = .ok asset ∧
      (validateAssetUrl parseUrl asset.browserDownloadUrl).isOk ∧
      ((∃ digest, asset.digest = some digest ∧ (normalizeDigest digest).isOk) ∨
        asset.digest = none ∧ ∃ checksums, findAsset assets checksumsAsset = .ok checksums ∧
          (validateAssetUrl parseUrl checksums.browserDownloadUrl).isOk) := by
  unfold installable
  cases kind with
  | none => simp
  | some k =>
    rw [Option.any_some]
    cases hasset : findAsset assets (installerAssetName k version) with
    | error e => simp [hasset]
    | ok asset =>
      cases hdigest : asset.digest with
      | some digest => simp [hasset, hdigest]
      | none =>
        cases hchecksums : findAsset assets checksumsAsset with
        | error e => simp [hasset, hdigest]
        | ok checksums => simp [hasset, hdigest]

theorem mem_of_byTag {tag : Text} (h : published.byTag tag = some release) :
    release ∈ published.releases ∧ release.tagName = tag :=
  ⟨List.mem_of_find?_eq_some h, by simpa using List.find?_some h⟩

theorem unrefused_install (hcurrent : parseVersion currentVersion = .ok current)
    (hv : v.Readable) (hnewer : current < v) :
    Unrefused (install machine published v.text currentVersion) ↔ Ready machine published v := by
  have hrequested : parseRequestedVersion v.text = .ok v :=
    parseRequestedVersion_eq_ok.mpr ⟨rfl, hv⟩
  simp only [install, unrefused_require_bind, unrefused_refused_bind, unrefused_mapError_bind,
    unrefused_orError_bind, hcurrent, hrequested, Except.ok.injEq, exists_eq_left', not_le.mpr hnewer,
    not_false_eq_true, true_and, unrefused_bind (x := expectedDigest _ _ _), toOption_eq_some]
  refine and_congr_right fun _ => ⟨?_, ?_⟩
  · rintro ⟨kind, hkind, release, hrelease, hdraft, -, asset, hasset, _, hurl, hdigest, hdirectory⟩
    simp only [Bool.or_eq_true, not_or, Bool.not_eq_true] at hdraft
    have hsource := unrefused_expectedDigest.mp hdigest
    refine ⟨release, hrelease, hdraft.1, hdraft.2, ?_, ?_, ?_⟩
    · refine installable_iff.mpr ⟨kind, asset, toOption_eq_some.mpr hkind, hasset,
        isOk_iff.mpr ⟨_, hurl⟩, ?_⟩
      refine hsource.imp_right ?_
      rintro ⟨hnone, checksums, hfound, htrusted, -⟩
      exact ⟨hnone, checksums, hfound, htrusted⟩
    · intro kind' asset' checksums hkind' hasset' hnone hfound
      obtain rfl : kind = kind' := Except.ok.inj (hkind.symm.trans hkind')
      obtain rfl : asset = asset' := Except.ok.inj (hasset.symm.trans hasset')
      rcases hsource with ⟨digest, hsome, _⟩ | ⟨_, checksums', hfound', _, hread⟩
      · cases hnone.symm.trans hsome
      · obtain rfl : checksums = checksums' := Except.ok.inj (hfound.symm.trans hfound')
        exact hread
    · intro kind' asset' hkind' hasset' hknown
      obtain rfl : kind = kind' := Except.ok.inj (hkind.symm.trans hkind')
      obtain rfl : asset = asset' := Except.ok.inj (hasset.symm.trans hasset')
      obtain ⟨expected, hexpected⟩ := isOk_iff.mp hknown
      obtain ⟨directory, hmade, _⟩ := hdirectory expected hexpected
      exact isOk_iff.mpr ⟨directory, hmade⟩
  · rintro ⟨release, hrelease, h⟩
    obtain ⟨kind, asset, hkind, hasset, hurl, hsource⟩ := installable_iff.mp h.installable
    have hkind := toOption_eq_some.mp hkind
    obtain ⟨_, hurl⟩ := isOk_iff.mp hurl
    refine ⟨kind, hkind, release, hrelease, by simp [h.draft, h.prerelease], ?_, asset, hasset, _,
      hurl, ?_, ?_⟩
    · rw [(mem_of_byTag hrelease).2]
      exact parseVersion_tag hv
    · refine unrefused_expectedDigest.mpr (hsource.imp_right ?_)
      rintro ⟨hnone, checksums, hfound, htrusted⟩
      exact ⟨hnone, checksums, hfound, htrusted,
        h.delivered kind asset checksums hkind hasset hnone hfound⟩
    · intro expected hexpected
      obtain ⟨directory, hmade⟩ := isOk_iff.mp
        (h.directory kind asset hkind hasset (isOk_iff.mpr ⟨expected, hexpected⟩))
      exact ⟨directory, hmade, unrefused_ok _⟩

theorem install_ok {download : Download}
    (h : install machine published requestedVersion currentVersion = .ok download) :
    ∃ current, parseVersion currentVersion = .ok current ∧
      requestedVersion = download.version.text ∧ current < download.version ∧
      download.release ∈ published.releases ∧ download.release.draft = false ∧
      download.release.prerelease = false ∧
      parseVersion download.release.tagName = .ok download.version := by
  obtain ⟨_, _, h⟩ := bind_eq_ok.mp h
  obtain ⟨current, hcurrent, h⟩ := bind_eq_ok.mp h
  obtain ⟨requested, hrequested, h⟩ := bind_eq_ok.mp h
  obtain ⟨_, hnewer, h⟩ := bind_eq_ok.mp h
  obtain ⟨kind, _, h⟩ := bind_eq_ok.mp h
  obtain ⟨release, hrelease, h⟩ := bind_eq_ok.mp h
  obtain ⟨_, hdraft, h⟩ := bind_eq_ok.mp h
  obtain ⟨_, htag, h⟩ := bind_eq_ok.mp h
  obtain ⟨asset, _, h⟩ := bind_eq_ok.mp h
  obtain ⟨_, _, h⟩ := bind_eq_ok.mp h
  obtain ⟨expected, _, h⟩ := bind_eq_ok.mp h
  obtain ⟨directory, _, h⟩ := bind_eq_ok.mp h
  cases h
  rw [require_eq_ok] at hnewer hdraft htag
  simp only [Bool.or_eq_true, not_or, Bool.not_eq_true] at hdraft
  exact ⟨current, mapError_eq_ok.mp hcurrent,
    (parseRequestedVersion_eq_ok.mp (mapError_eq_ok.mp hrequested)).1, not_le.mp hnewer,
    (mem_of_byTag (orError_eq_ok.mp hrelease)).1, hdraft.1, hdraft.2, toOption_eq_some.mp htag⟩

structure OfferKept (machine : Machine) (published : Published) (currentVersion : Text) : Prop where
  /-- What `check` says can be installed is refused by no check of `install`. -/
  installs : ∀ status version, check machine published currentVersion = .ok status →
    status.canInstall = true → status.latestVersion = some version →
    Unrefused (install machine published version currentVersion)
  newer : ∀ status, check machine published currentVersion = .ok status →
    status.available = true → ∃ current v, parseVersion currentVersion = .ok current ∧
      status.latestVersion = some v.text ∧ current < v
  downloads : ∀ requestedVersion download,
    install machine published requestedVersion currentVersion = .ok download →
    ∃ current, parseVersion currentVersion = .ok current ∧
      requestedVersion = download.version.text ∧ current < download.version ∧
      download.release ∈ published.releases ∧ download.release.draft = false ∧
      download.release.prerelease = false ∧
      parseVersion download.release.tagName = .ok download.version

/-- The offer is kept exactly when installing the offered version finds a release of
its own, under the canonical tag. -/
theorem offerKept_iff : OfferKept machine published currentVersion ↔
    ∀ current latest v, parseVersion currentVersion = .ok current →
      published.latest = some latest → Offerable machine current latest v →
      Ready machine published v := by
  constructor
  · intro h current latest v hcurrent hlatest hoffer
    obtain ⟨status, hcheck, hcan, hversion⟩ := check_of_offerable hcurrent hlatest hoffer
    exact (unrefused_install hcurrent (readable_of_parseVersion hoffer.tag) hoffer.newer).mp
      (h.installs status v.text hcheck hcan hversion)
  · intro h
    refine ⟨fun status version hcheck hcan hversion => ?_, fun status hcheck havailable => ?_,
      fun requestedVersion download hinstall => install_ok hinstall⟩
    · obtain ⟨current, hcurrent, rfl | ⟨latest, v, hlatest, hdraft, hprerelease, htag, htext, _,
        hinstall⟩⟩ := check_ok hcheck
      · cases hcan
      · rw [hcan, eq_comm, Bool.and_eq_true, decide_eq_true_eq] at hinstall
        obtain rfl : v.text = version := Option.some.inj (htext.symm.trans hversion)
        exact (unrefused_install hcurrent (readable_of_parseVersion htag) hinstall.1).mpr
          (h current latest v hcurrent hlatest ⟨hdraft, hprerelease, htag, hinstall.1, hinstall.2⟩)
    · obtain ⟨current, hcurrent, rfl | ⟨latest, v, _, _, _, _, htext, hnewer, _⟩⟩ := check_ok hcheck
      · cases havailable
      · exact ⟨current, v, hcurrent, htext, of_decide_eq_true (hnewer.symm.trans havailable)⟩

def bareTagged : Release where
  tagName := "0.2.0".toList
  draft := false
  prerelease := false
  htmlUrl := none
  publishedAt := none
  body := none
  assets := [⟨"AioLM_0.2.0_x64-setup.exe".toList,
    "https://github.com/aiolm/AioLM/releases/download/0.2.0/AioLM_0.2.0_x64-setup.exe".toList,
    some (List.replicate 64 'a'), 0⟩]

/-- A Windows machine where nothing else is in the way; its address parser knows the
one address it is asked for. -/
def windowsMachine : Machine where
  parseUrl _ := .ok ⟨"https".toList, some "github.com".toList,
    "/aiolm/AioLM/releases/download/0.2.0/AioLM_0.2.0_x64-setup.exe".toList⟩
  installedKind := .ok .nsis
  installRunning := false
  updateDirectory := .ok "aiolm-update".toList
  download _ := .error "no connection".toList
  utf8Error _ := []

/-- Such a release is offered and then not found. -/
theorem not_offerKept_bareTagged : ¬ OfferKept windowsMachine
    ⟨[bareTagged], List.nodup_singleton _, some bareTagged, by simp⟩ "0.1.0".toList := by
  intro h
  refine h.installs ⟨"0.1.0".toList, some "0.2.0".toList, true, true, none, none, none⟩
    "0.2.0".toList (by decide +kernel) rfl rfl
    "release v0.2.0 is not published by aiolm/AioLM".toList (by decide +kernel)

end AioLM.AppUpdate
