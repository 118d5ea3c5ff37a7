import AioLM.Lists
import AioLM.RuntimeRegistry

/-!
What the stored registration is under any interleaving of the calls on its id, as long as
no refresh writes back a registration that was removed and no removal crosses a registrar
that holds the claim.
-/

set_option autoImplicit false

namespace AioLM.Registry

open Runs

def latest : List Event → Option (Nat × Registration)
  | [] => none
  | .published call r :: _ => some (call, r)
  | .deleted _ :: _ => none
  | _ :: log => latest log

def sinceRemoved : List Event → List Event
  | [] => []
  | .removed _ :: _ => []
  | event :: log => event :: sinceRemoved log

def deletedSince (call : Nat) : List Event → Bool
  | [] => false
  | .read reader :: log => if reader = call then false else deletedSince call log
  | .deleted _ :: _ => true
  | _ :: log => deletedSince call log

def RemovedBetween (log : List Event) (first second : Nat) : Prop :=
  ∃ newer between older r r', log =
    newer ++ .published second r' :: (between ++ .published first r :: older) ∧
      ∃ call, .deleted call ∈ between

/-- A record of the build that another one was published for: only the helper of an owned
manifest may be another one. -/
structure SameBuild (site : Site) (published r : Registration) : Prop where
  artifacts : r.artifactsSha256 = published.artifactsSha256
  manifest : (r.manifest = published.manifest ∧
      r.executableSha256 = published.executableSha256 ∧ r.probeSha256 = published.probeSha256) ∨
    (site.ownedContract published.manifest ∧
      ∃ helper, r.manifest = published.manifest.withHelper helper)

structure Kept (site : Site) (w : World) : Prop where
  build : ∀ r, w.folder.registration = some r → ∃ call published,
    latest w.log = some (call, published) ∧ SameBuild site published r
  removed : w.folder.registration.isSome → ∃ call r,
    .claimed call ∈ sinceRemoved w.log ∧ .published call r ∈ sinceRemoved w.log
  once : ∀ (i j : Nat) (m m' : RuntimeManifest), i ≠ j →
    w.calls[i]? = some (.registered (.ok m)) → w.calls[j]? = some (.registered (.ok m')) →
      RemovedBetween w.log i j ∨ RemovedBetween w.log j i

def Phase.holds : Phase → Bool
  | .checking _ | .publishing _ | .saving _ | .unclaiming _ => true
  | _ => false

def Phase.pending : Phase → Bool
  | .checking _ | .publishing _ | .saving _ => true
  | _ => false

def Phase.isRemoving : Phase → Bool
  | .removing => true
  | _ => false

/-- No refresh writes a registration that was removed since it was read, none is removed
while a registrar has the claim and has not written yet, and no registrar takes the claim
while a removal has still to return. -/
def allowed (w : World) : Action → Bool
  | .remove _ => w.folder.registration.isNone || !w.calls.any Phase.pending
  | .work call _ =>
    match w.calls[call]? with
    | some (.rewriting _ _) => !deletedSince call w.log
    | some (.claiming _) => !w.calls.any Phase.isRemoving
    | _ => true
  | _ => true

section SameBuild

variable {site : Site} {machine : Machine} {p q r : Registration}

@[simp] theorem withHelper_withHelper (m : RuntimeManifest) (a b : Text) :
    (m.withHelper a).withHelper b = m.withHelper b := rfl

theorem SameBuild.refl (site : Site) (r : Registration) : SameBuild site r r :=
  ⟨rfl, .inl ⟨rfl, rfl, rfl⟩⟩

theorem SameBuild.trans (hpq : SameBuild site p q) (hqr : SameBuild site q r) :
    SameBuild site p r := by
  refine ⟨hqr.artifacts.trans hpq.artifacts, ?_⟩
  rcases hpq.manifest with ⟨hm, he, hp⟩ | ⟨howned, a, hm⟩
  · rw [← hm, ← he, ← hp]
    exact hqr.manifest
  · refine .inr ⟨howned, ?_⟩
    rcases hqr.manifest with ⟨hm', -, -⟩ | ⟨-, b, hm'⟩
    · exact ⟨a, hm'.trans hm⟩
    · exact ⟨b, by rw [hm', hm, withHelper_withHelper]⟩

theorem trustHelper_same (h : trustHelper site machine r = .ok q) : SameBuild site r q := by
  rw [trustHelper] at h
  split at h
  · rename_i howned
    obtain ⟨-, -, h⟩ := Fallible.bind_eq_ok.mp h
    obtain ⟨-, -, h⟩ := Fallible.bind_eq_ok.mp h
    obtain ⟨helper, -, h⟩ := Fallible.bind_eq_ok.mp h
    obtain ⟨hash, -, h⟩ := Fallible.bind_eq_ok.mp h
    cases h
    rw [adoptHelper]
    split
    · exact ⟨rfl, .inr ⟨(Bool.and_eq_true_iff.mp howned).1, helper, rfl⟩⟩
    · exact .refl site _
  · cases h
    exact .refl site _

theorem settle_same (machine : Machine) (cfg : AppConfig) (r : Registration)
    (probe : Except Text Json) : SameBuild site r (settle machine cfg r probe).1 := by
  cases probe with
  | ok probe => exact ⟨rfl, .inl ⟨rfl, rfl, rfl⟩⟩
  | error error =>
    rw [settle]
    split <;> exact ⟨rfl, .inl ⟨rfl, rfl, rfl⟩⟩

theorem reprobe_same {cfg : AppConfig} {probe : Except Text (Except Text Json)}
    {result : Except Text Unit} (h : reprobe site machine cfg r probe = .ok (q, result)) :
    SameBuild site r q := by
  obtain ⟨trusted, htrusted, h⟩ := Fallible.bind_eq_ok.mp h
  obtain ⟨probe, -, h⟩ := Fallible.bind_eq_ok.mp h
  have hq : q = (settle machine cfg trusted probe).1 :=
    (congrArg Prod.fst (Except.ok.inj h)).symm
  rw [hq]
  exact (trustHelper_same htrusted).trans (settle_same machine cfg trusted probe)

end SameBuild

def Phase.ready : Phase → Bool
  | .publishing _ | .saving _ => true
  | _ => false

def Phase.draft : Phase → Option Registration
  | .refreshing r _ | .storing r _ | .rewriting r _ => some r
  | _ => none

def Phase.success : Phase → Option RuntimeManifest
  | .unclaiming (.ok m) | .registered (.ok m) => some m
  | _ => none

/-- A call goes on with the registration as it is, and gives at most its own claim back. -/
structure Quiet (site : Site) (w : World) (old : Option Phase) (folder : Folder)
    (phase : Phase) : Prop where
  registration : folder.registration = w.folder.registration
  registering : folder.registering = w.folder.registering ∨
    ((∃ was, old = some was ∧ was.holds) ∧ phase.holds = false)
  holds : phase.holds → ∃ was, old = some was ∧ was.holds
  pending : phase.pending → ∃ was, old = some was ∧ was.pending
  ready : phase.ready → (∃ was, old = some was ∧ was.ready) ∨ w.folder.registration = none
  draft : ∀ r, phase.draft = some r →
    ∃ was r₀, old = some was ∧ was.draft = some r₀ ∧ SameBuild site r₀ r
  removing : phase.isRemoving = false
  success : ∀ m, phase.success = some m → ∃ was, old = some was ∧ was.success = some m

/-- What a step of a call, or its beginning, does to the folder, the call and the log. -/
inductive Effect (site : Site) (w : World) (call : Nat) (old : Option Phase) :
    Folder → Phase → List Event → Prop
  | quiet (folder : Folder) (phase : Phase) : Quiet site w old folder phase →
      Effect site w call old folder phase []
  | read (r : Registration) (cfg : AppConfig) : w.folder.registration = some r → old = none →
      Effect site w call old w.folder (.refreshing r cfg) [.read call]
  | deleted : w.folder.registration.isSome → old = none →
      Effect site w call old { w.folder with registration := none } .removing [.deleted call]
  | claimed (r : Registration) : old = some (.claiming r) → w.folder.registering = false →
      Effect site w call old { w.folder with registering := true } (.checking r) [.claimed call]
  | published (r : Registration) : old = some (.saving r) →
      Effect site w call old { w.folder with registration := some r }
        (.unclaiming (.ok r.manifest)) [.published call r]
  | rewrote (r : Registration) (result : Except Text Unit) : old = some (.rewriting r result) →
      Effect site w call old { w.folder with registration := some r } (.refreshed result)
        [.rewrote call r]
  | removed (folder : Folder) : old = some .removing →
      folder.registration = w.folder.registration →
      folder.registering = w.folder.registering →
      Effect site w call old folder (.removed (.ok ())) [.removed call]

section Steps

variable {site : Site} {w w' : World}

theorem attempt_eq_ok {α : Type} {fault : Option Text} {result : Except Text α} {x : α}
    (h : attempt fault result = .ok x) : result = .ok x := by
  cases fault with
  | none => exact h
  | some error => cases h

theorem createDirAll_same {folder folder' : Folder} (h : createDirAll folder = .ok folder') :
    folder'.registration = folder.registration ∧ folder'.registering = folder.registering := by
  cases h
  exact ⟨rfl, rfl⟩

theorem createClaim_eq {folder folder' : Folder} (h : createClaim folder = .ok folder') :
    folder.registering = false ∧ folder' = { folder with registering := true } := by
  rw [createClaim] at h
  split at h
  · cases h
  · split at h
    · cases h
    · rename_i hfree
      cases h
      exact ⟨by simpa using hfree, rfl⟩

theorem atomicWrite_eq {r : Registration} {folder folder' : Folder}
    (h : atomicWrite r folder = .ok folder') : folder' = { folder with registration := some r } := by
  rw [atomicWrite] at h
  split at h
  · cases h
  · cases h
    rfl

theorem removeDir_same {folder folder' : Folder} {gone : Bool}
    (h : removeDir folder = .ok (folder', gone)) :
    folder'.registration = folder.registration ∧ folder'.registering = folder.registering := by
  rw [removeDir] at h
  split at h
  · cases h
  · split at h <;> cases h <;> exact ⟨rfl, rfl⟩

theorem readRegistration_eq {folder : Folder} {r : Registration}
    (h : readRegistration site folder = .ok r) : folder.registration = some r := by
  obtain ⟨-, -, h⟩ := Fallible.bind_eq_ok.mp h
  obtain ⟨r', hr', h⟩ := Fallible.bind_eq_ok.mp h
  obtain ⟨-, -, h⟩ := Fallible.bind_eq_ok.mp h
  obtain ⟨-, -, h⟩ := Fallible.bind_eq_ok.mp h
  cases h
  exact Fallible.orError_eq_ok.mp hr'

theorem removeRegistration_eq {folder folder' : Folder}
    (h : removeRegistration folder = .ok folder') :
    folder.registration.isSome ∧ folder' = { folder with registration := none } := by
  rw [removeRegistration] at h
  split at h
  · cases h
  · rename_i hsome
    cases h
    exact ⟨by simpa [Option.isSome_iff_ne_none] using hsome, rfl⟩

theorem Quiet.answer {old : Option Phase} {folder : Folder} {phase : Phase}
    (hregistration : folder.registration = w.folder.registration)
    (hregistering : folder.registering = w.folder.registering)
    (hphase : phase.holds = false) (hdraft : phase.draft = none)
    (hremoving : phase.isRemoving = false) (hsuccess : phase.success = none) :
    Quiet site w old folder phase where
  registration := hregistration
  registering := .inl hregistering
  holds h := by simp [hphase] at h
  pending h := by cases phase <;> simp_all [Phase.holds, Phase.pending]
  ready h := by cases phase <;> simp_all [Phase.holds, Phase.ready]
  draft r h := by simp [hdraft] at h
  removing := hremoving
  success m h := by simp [hsuccess] at h

theorem Quiet.goOn {was : Phase} {folder : Folder} {phase : Phase}
    (hregistration : folder.registration = w.folder.registration)
    (hregistering : folder.registering = w.folder.registering)
    (hholds : phase.holds = was.holds) (hpending : phase.pending = was.pending)
    (hready : phase.ready = was.ready ∨ w.folder.registration = none)
    (hdraft : ∀ r, phase.draft = some r → ∃ r₀, was.draft = some r₀ ∧ SameBuild site r₀ r)
    (hremoving : phase.isRemoving = false) (hsuccess : phase.success = none) :
    Quiet site w (some was) folder phase where
  registration := hregistration
  registering := .inl hregistering
  holds h := ⟨was, rfl, hholds ▸ h⟩
  pending h := ⟨was, rfl, hpending ▸ h⟩
  ready h := by
    rcases hready with heq | hnone
    · exact .inl ⟨was, rfl, heq ▸ h⟩
    · exact .inr hnone
  draft r h := by
    obtain ⟨r₀, hr₀, hsame⟩ := hdraft r h
    exact ⟨was, r₀, rfl, hr₀, hsame⟩
  removing := hremoving
  success m h := by simp [hsuccess] at h

theorem Quiet.giveUp {was : Phase} (hholds : was.holds) (error : Text) :
    Quiet site w (some was) w.folder (.unclaiming (.error error)) where
  registration := rfl
  registering := .inl rfl
  holds _ := ⟨was, rfl, hholds⟩
  pending h := by cases h
  ready h := by cases h
  draft r h := by cases h
  removing := rfl
  success m h := by cases h

theorem Quiet.unclaim {published : Except Text RuntimeManifest} {folder : Folder} {phase : Phase}
    (hregistration : folder.registration = w.folder.registration)
    (hphase : phase.holds = false) (hdraft : phase.draft = none)
    (hremoving : phase.isRemoving = false)
    (hsuccess : phase.success = (Phase.unclaiming published).success) :
    Quiet site w (some (.unclaiming published)) folder phase where
  registration := hregistration
  registering := .inr ⟨⟨_, rfl, rfl⟩, hphase⟩
  holds h := by simp [hphase] at h
  pending h := by cases phase <;> simp_all [Phase.holds, Phase.pending]
  ready h := by cases phase <;> simp_all [Phase.holds, Phase.ready]
  draft r h := by simp [hdraft] at h
  removing := hremoving
  success m h := ⟨_, rfl, hsuccess ▸ h⟩

theorem removeClaim_registration {fault : Option Text} {folder : Folder} :
    (((attempt fault (removeClaim folder)).toOption).getD folder).registration =
      folder.registration := by
  cases fault with
  | some error => rfl
  | none =>
    rw [attempt, removeClaim]
    split <;> rfl

theorem removeDir_registration {fault : Option Text} {folder : Folder} :
    (((attempt fault (removeDir folder)).toOption.map (·.1)).getD folder).registration =
        folder.registration ∧
      (((attempt fault (removeDir folder)).toOption.map (·.1)).getD folder).registering =
        folder.registering := by
  cases hremove : attempt fault (removeDir folder) with
  | error error => exact ⟨rfl, rfl⟩
  | ok removed => exact removeDir_same (attempt_eq_ok hremove)

theorem work_effect {call : Nat} {phase phase' : Phase} {outcome : Outcome} {folder' : Folder}
    {events : List Event}
    (h : work site call w.folder phase outcome = some (folder', phase', events)) :
    Effect site w call (some phase) folder' phase' events := by
  unfold work at h
  split at h
  · -- the registrar is done with its probe
    split at h
    · cases h
      exact .quiet _ _ (.answer rfl rfl rfl rfl rfl rfl)
    · cases h
      exact .quiet _ _ (.answer rfl rfl rfl rfl rfl rfl)
  · split at h
    · cases h
      exact .quiet _ _ (.answer rfl rfl rfl rfl rfl rfl)
    · rename_i hcreate
      cases h
      obtain ⟨hregistration, hregistering⟩ := createDirAll_same (attempt_eq_ok hcreate)
      exact .quiet _ _ (.answer hregistration hregistering rfl rfl rfl rfl)
  · split at h
    · cases h
      exact .quiet _ _ (.answer rfl rfl rfl rfl rfl rfl)
    · rename_i hclaim
      cases h
      obtain ⟨hfree, rfl⟩ := createClaim_eq (attempt_eq_ok hclaim)
      exact .claimed _ rfl hfree
  · split at h
    · cases h
      exact .quiet _ _ (.giveUp rfl _)
    · rename_i hnone
      cases h
      have hnone : w.folder.registration = none := by simpa using hnone
      exact .quiet _ _ (.goOn rfl rfl rfl rfl (.inr hnone) (fun r h => by cases h) rfl rfl)
  · split at h
    · cases h
      exact .quiet _ _ (.giveUp rfl _)
    · rename_i hcreate
      cases h
      obtain ⟨-, -, hcreate⟩ := Fallible.bind_eq_ok.mp hcreate
      obtain ⟨hregistration, hregistering⟩ := createDirAll_same (attempt_eq_ok hcreate)
      exact .quiet _ _ (.goOn hregistration hregistering rfl rfl (.inl rfl)
        (fun r h => by cases h) rfl rfl)
  · split at h
    · cases h
      exact .quiet _ _ (.giveUp rfl _)
    · rename_i hwrite
      cases h
      cases atomicWrite_eq (attempt_eq_ok hwrite)
      exact .published _ rfl
  · split at h
    · cases h
      exact .quiet _ _ (.unclaim removeClaim_registration rfl rfl rfl rfl)
    · cases h
      exact .quiet _ _ (.unclaim removeClaim_registration rfl rfl rfl rfl)
  · cases h
    exact .quiet _ _ (.answer removeDir_registration.1 removeDir_registration.2 rfl rfl rfl rfl)
  · -- the refresh is done with its probe
    split at h
    · cases h
      exact .quiet _ _ (.answer rfl rfl rfl rfl rfl rfl)
    · rename_i hreprobe
      cases h
      refine .quiet _ _ (.goOn rfl rfl rfl rfl (.inl rfl) (fun r h => ?_) rfl rfl)
      cases h
      exact ⟨_, rfl, reprobe_same hreprobe⟩
  · split at h
    · cases h
      exact .quiet _ _ (.answer rfl rfl rfl rfl rfl rfl)
    · rename_i hcreate
      cases h
      obtain ⟨-, -, hcreate⟩ := Fallible.bind_eq_ok.mp hcreate
      obtain ⟨hregistration, hregistering⟩ := createDirAll_same (attempt_eq_ok hcreate)
      exact .quiet _ _ (.goOn hregistration hregistering rfl rfl (.inl rfl)
        (fun r h => ⟨r, h, .refl site r⟩) rfl rfl)
  · split at h
    · cases h
      exact .quiet _ _ (.answer rfl rfl rfl rfl rfl rfl)
    · rename_i hwrite
      cases h
      cases atomicWrite_eq (attempt_eq_ok hwrite)
      exact .rewrote _ _ rfl
  · split at h
    · cases h
      exact .quiet _ _ (.answer rfl rfl rfl rfl rfl rfl)
    · rename_i hremove
      cases h
      obtain ⟨hregistration, hregistering⟩ := removeDir_same (attempt_eq_ok hremove)
      exact .removed _ rfl hregistration hregistering
  · cases h

theorem work_not_removing {call : Nat} {phase phase' : Phase} {outcome : Outcome}
    {folder' : Folder} {events : List Event}
    (h : work site call w.folder phase outcome = some (folder', phase', events)) :
    ¬ phase'.isRemoving := by
  intro hremoving
  cases work_effect h with
  | quiet _ _ hquiet => exact absurd hremoving (by simp [hquiet.removing])
  | deleted _ hnone => cases hnone
  | read | claimed | published | rewrote | removed => cases hremoving

/-- What an allowed step asks of the call it is a step of. -/
structure Orderly (w : World) (call : Nat) (phase : Phase) : Prop where
  rewriting : ∀ r result, w.calls[call]? = some (.rewriting r result) →
    deletedSince call w.log = false
  claiming : ∀ r, w.calls[call]? = some (.claiming r) → w.calls.any Phase.isRemoving = false
  removing : phase.isRemoving → w.folder.registration = none ∨ w.calls.any Phase.pending = false

theorem Orderly.new {call : Nat} {phase : Phase} (hnew : w.calls[call]? = none)
    (hremoving : phase.isRemoving → w.folder.registration = none ∨
      w.calls.any Phase.pending = false) : Orderly w call phase :=
  ⟨fun r result h => (by simp [hnew] at h), fun r h => (by simp [hnew] at h), hremoving⟩

theorem step_effect {a : Action} (hallowed : allowed w a) (h : step site w a = some w') :
    ∃ call phase events, Effect site w call w.calls[call]? w'.folder phase events ∧
      (∀ j, w'.calls[j]? = if j = call then some phase else w.calls[j]?) ∧
      w'.log = events ++ w.log ∧ Orderly w call phase := by
  have hbegin : ∀ (phase : Phase) (j : Nat), (w.calls ++ [phase])[j]? =
      if j = w.calls.length then some phase else w.calls[j]? := fun phase j => by
    rw [List.getElem?_append]
    split
    · rw [if_neg (by omega)]
    · split
      · rename_i heq
        rw [heq, Nat.sub_self]
        rfl
      · rw [List.getElem?_eq_none (by simp; omega), List.getElem?_eq_none (by omega)]
  have hnew : w.calls[w.calls.length]? = none := List.getElem?_eq_none le_rfl
  cases a with
  | register manifest =>
    simp only [step] at h
    split at h
    · cases h
      refine ⟨w.calls.length, _, [], ?_, hbegin _, rfl, .new hnew fun hremoving => ?_⟩
      · rw [beginRegister]
        split <;> exact .quiet _ _ (.answer rfl rfl rfl rfl rfl rfl)
      · rw [beginRegister] at hremoving
        split at hremoving <;> cases hremoving
    · cases h
  | refresh cfg fault =>
    simp only [step] at h
    split at h
    · cases h
      exact ⟨w.calls.length, _, [], .quiet _ _ (.answer rfl rfl rfl rfl rfl rfl), hbegin _, rfl,
        .new hnew fun hremoving => by cases hremoving⟩
    · rename_i r hread
      cases h
      exact ⟨w.calls.length, _, _, .read r cfg (readRegistration_eq (attempt_eq_ok hread)) hnew,
        hbegin _, rfl, .new hnew fun hremoving => by cases hremoving⟩
  | remove fault =>
    simp only [step] at h
    split at h
    · cases h
      exact ⟨w.calls.length, _, [], .quiet _ _ (.answer rfl rfl rfl rfl rfl rfl), hbegin _, rfl,
        .new hnew fun hremoving => by cases hremoving⟩
    · rename_i hremove
      cases h
      obtain ⟨-, -, hremove⟩ := Fallible.bind_eq_ok.mp hremove
      obtain ⟨hsome, rfl⟩ := removeRegistration_eq (attempt_eq_ok hremove)
      refine ⟨w.calls.length, _, _, .deleted hsome hnew, hbegin _, rfl, .new hnew fun _ => ?_⟩
      simpa [allowed] using hallowed
  | work call outcome =>
    obtain ⟨phase, hphase, h⟩ := Option.bind_eq_some_iff.mp h
    obtain ⟨⟨folder', phase', events⟩, hwork, rfl⟩ := Option.map_eq_some_iff.mp h
    refine ⟨call, phase', events, hphase ▸ work_effect hwork, fun j => ?_, rfl, ?_⟩
    · obtain ⟨hlt, -⟩ := List.getElem?_eq_some_iff.mp hphase
      rw [List.getElem?_set]
      by_cases hj : call = j
      · rw [if_pos hj, if_pos hj.symm, if_pos (hj ▸ hlt)]
      · rw [if_neg hj, if_neg (Ne.symm hj)]
    · refine ⟨fun r result hold => ?_, fun r hold => ?_, fun hremoving => ?_⟩
      · simpa [allowed, hold] using hallowed
      · simpa [allowed, hold] using hallowed
      · exact absurd hremoving (work_not_removing hwork)

end Steps

/-- The claim is there as long as a registrar has it, and only one has it. -/
structure Claims (w : World) : Prop where
  registering : ∀ (i : Nat) (phase : Phase), w.calls[i]? = some phase → phase.holds →
    w.folder.registering
  single : ∀ (i j : Nat) (p q : Phase), w.calls[i]? = some p → p.holds →
    w.calls[j]? = some q → q.holds → i = j

section Invariants

variable {site : Site} {w w' : World} {a : Action}

theorem Claims.same (h : Claims w)
    (hcalls : ∀ (i : Nat) (phase : Phase), w'.calls[i]? = some phase → phase.holds →
      ∃ was, w.calls[i]? = some was ∧ was.holds)
    (hregistering : w'.folder.registering = w.folder.registering ∨
      ∀ (i : Nat) (phase : Phase), w'.calls[i]? = some phase → phase.holds = false) :
    Claims w' := by
  refine ⟨fun i phase hphase hholds => ?_, fun i j p q hp hpholds hq hqholds => ?_⟩
  · rcases hregistering with heq | hnone
    · obtain ⟨was, hwas, hwasholds⟩ := hcalls i phase hphase hholds
      rw [heq]
      exact h.registering i was hwas hwasholds
    · rw [hnone i phase hphase] at hholds
      cases hholds
  · obtain ⟨was, hwas, hwasholds⟩ := hcalls i p hp hpholds
    obtain ⟨was', hwas', hwasholds'⟩ := hcalls j q hq hqholds
    exact h.single i j was was' hwas hwasholds hwas' hwasholds'

theorem Claims.next (h : Claims w) (hallowed : allowed w a) (hstep : step site w a = some w') :
    Claims w' := by
  obtain ⟨call, phase, events, heffect, hcalls, -, -⟩ := step_effect hallowed hstep
  -- a call that does not take the claim has it after the step only if it had it before
  have hkeep (hphase : phase.holds → ∃ was, w.calls[call]? = some was ∧ was.holds) (i : Nat)
      (p : Phase) (hp : w'.calls[i]? = some p) (hholds : p.holds) :
      ∃ was, w.calls[i]? = some was ∧ was.holds := by
    rw [hcalls] at hp
    split at hp
    · rename_i hi
      cases hp
      exact hi ▸ hphase hholds
    · exact ⟨p, hp, hholds⟩
  generalize hfolder : w'.folder = folder at heffect
  cases heffect with
  | quiet _ _ hquiet =>
    refine h.same (hkeep hquiet.holds) ?_
    rcases hquiet.registering with heq | ⟨⟨was, hwas, hwasholds⟩, hphase⟩
    · exact .inl (hfolder ▸ heq)
    · refine .inr fun i p hp => ?_
      rw [hcalls] at hp
      split at hp
      · cases hp
        exact hphase
      · rename_i hi
        by_contra hholds
        rw [Bool.not_eq_false] at hholds
        exact hi (h.single i call p was hp hholds hwas hwasholds)
  | claimed r hold hfree =>
    have hnone : ∀ (i : Nat) (p : Phase), w.calls[i]? = some p → p.holds = false := by
      intro i p hp
      by_contra hholds
      rw [Bool.not_eq_false] at hholds
      have := h.registering i p hp hholds
      rw [hfree] at this
      cases this
    have honly : ∀ (i : Nat) (p : Phase), w'.calls[i]? = some p → p.holds → i = call := by
      intro i p hp hholds
      rw [hcalls] at hp
      by_contra hi
      rw [if_neg hi] at hp
      rw [hnone i p hp] at hholds
      cases hholds
    refine ⟨fun i p _ _ => by rw [hfolder], fun i j p q hp hpholds hq hqholds => ?_⟩
    rw [honly i p hp hpholds, honly j q hq hqholds]
  | read => exact h.same (hkeep fun h => by cases h) (.inl (by rw [hfolder]))
  | deleted => exact h.same (hkeep fun h => by cases h) (.inl (by rw [hfolder]))
  | published r hold => exact h.same (hkeep fun _ => ⟨_, hold, rfl⟩) (.inl (by rw [hfolder]))
  | rewrote => exact h.same (hkeep fun h => by cases h) (.inl (by rw [hfolder]))
  | removed _ _ _ hregistering =>
    exact h.same (hkeep fun h => by cases h) (.inl (by rw [hfolder, hregistering]))

def PublishesOnce : List Event → Prop
  | [] => True
  | .published _ _ :: log => latest log = none ∧ PublishesOnce log
  | _ :: log => PublishesOnce log

/-- The registration is the one published last, by a registrar that took its claim after
every removal that returned. -/
def Agrees (site : Site) (registration : Option Registration) (log : List Event) : Prop :=
  (registration = none ∧ latest log = none) ∨
    ∃ r call published, registration = some r ∧ latest log = some (call, published) ∧
      SameBuild site published r ∧
      .claimed call ∈ sinceRemoved log ∧ .published call published ∈ sinceRemoved log

structure Stored (site : Site) (w : World) : Prop where
  agrees : Agrees site w.folder.registration w.log
  ready : ∀ (i : Nat) (p : Phase), w.calls[i]? = some p → p.ready → w.folder.registration = none
  pending : ∀ (i : Nat) (p : Phase), w.calls[i]? = some p → p.pending →
    .claimed i ∈ sinceRemoved w.log
  draft : ∀ (i : Nat) (p : Phase) (r : Registration), w.calls[i]? = some p → p.draft = some r →
    deletedSince i w.log = false →
      ∃ call published, latest w.log = some (call, published) ∧ SameBuild site published r
  removing : ∀ (i : Nat) (p : Phase), w.calls[i]? = some p → p.isRemoving →
    w.folder.registration = none ∧
      ∀ (j : Nat) (q : Phase), w.calls[j]? = some q → q.pending = false
  once : PublishesOnce w.log

theorem Agrees.none_of_none {log : List Event} (h : Agrees site none log) : latest log = none := by
  rcases h with ⟨-, hlatest⟩ | ⟨r, call, published, hr, -⟩
  · exact hlatest
  · cases hr

theorem Agrees.registration_isSome {registration : Option Registration} {log : List Event}
    {latestOne : Nat × Registration} (h : Agrees site registration log)
    (hlatest : latest log = some latestOne) : registration.isSome := by
  rcases h with ⟨-, hnone⟩ | ⟨r, call, published, hr, -⟩
  · rw [hnone] at hlatest
    cases hlatest
  · rw [hr]
    rfl

theorem Agrees.cons {registration : Option Registration} {log : List Event} {event : Event}
    (h : Agrees site registration log) (hlatest : latest (event :: log) = latest log)
    (hsince : sinceRemoved (event :: log) = event :: sinceRemoved log) :
    Agrees site registration (event :: log) := by
  rcases h with ⟨hnone, hno⟩ | ⟨r, call, published, hr, hlast, hsame, hclaimed, hpublished⟩
  · exact .inl ⟨hnone, hlatest.trans hno⟩
  · refine .inr ⟨r, call, published, hr, hlatest.trans hlast, hsame, ?_, ?_⟩
    · rw [hsince]
      exact List.mem_cons_of_mem _ hclaimed
    · rw [hsince]
      exact List.mem_cons_of_mem _ hpublished

/-- One call is new or has gone on, and the log has the events of that. -/
structure Goes (w w' : World) (call : Nat) (phase : Phase) (events : List Event) : Prop where
  calls : ∀ j, w'.calls[j]? = if j = call then some phase else w.calls[j]?
  log : w'.log = events ++ w.log

theorem Goes.after {call : Nat} {phase : Phase} {events : List Event}
    (h : Goes w w' call phase events) {i : Nat} {p : Phase} (hp : w'.calls[i]? = some p) :
    (i = call ∧ p = phase) ∨ (i ≠ call ∧ w.calls[i]? = some p) := by
  rw [h.calls] at hp
  split at hp
  · rename_i hi
    exact .inl ⟨hi, (Option.some.inj hp).symm⟩
  · rename_i hi
    exact .inr ⟨hi, hp⟩

section Events

variable {call : Nat} {phase : Phase}

theorem Stored.quiet (h : Stored site w) (hgoes : Goes w w' call phase [])
    (hquiet : Quiet site w w.calls[call]? w'.folder phase) : Stored site w' := by
  have hlog : w'.log = w.log := hgoes.log
  have hsame := hquiet.registration
  refine ⟨?_, fun i p hp hready => ?_, fun i p hp hpending => ?_, fun i p r hp hdraft hsince => ?_,
    fun i p hp hremoving => ?_, ?_⟩
  · rw [hsame, hlog]
    exact h.agrees
  · rw [hsame]
    rcases hgoes.after hp with ⟨rfl, rfl⟩ | ⟨-, hp⟩
    · rcases hquiet.ready hready with ⟨was, hwas, hwasready⟩ | hnone
      · exact h.ready i was hwas hwasready
      · exact hnone
    · exact h.ready i p hp hready
  · rw [hlog]
    rcases hgoes.after hp with ⟨rfl, rfl⟩ | ⟨-, hp⟩
    · obtain ⟨was, hwas, hwaspending⟩ := hquiet.pending hpending
      exact h.pending i was hwas hwaspending
    · exact h.pending i p hp hpending
  · rw [hlog] at hsince ⊢
    rcases hgoes.after hp with ⟨rfl, rfl⟩ | ⟨-, hp⟩
    · obtain ⟨was, r₀, hwas, hr₀, hbuild⟩ := hquiet.draft r hdraft
      obtain ⟨last, published, hlast, hsameBuild⟩ := h.draft i was r₀ hwas hr₀ hsince
      exact ⟨last, published, hlast, hsameBuild.trans hbuild⟩
    · exact h.draft i p r hp hdraft hsince
  · rcases hgoes.after hp with ⟨rfl, rfl⟩ | ⟨-, hp⟩
    · rw [hquiet.removing] at hremoving
      cases hremoving
    · obtain ⟨hnone, hpending⟩ := h.removing i p hp hremoving
      refine ⟨hsame.trans hnone, fun j q hq => ?_⟩
      rcases hgoes.after hq with ⟨rfl, rfl⟩ | ⟨-, hq⟩
      · by_contra hq
        rw [Bool.not_eq_false] at hq
        obtain ⟨was, hwas, hwaspending⟩ := hquiet.pending hq
        rw [hpending j was hwas] at hwaspending
        cases hwaspending
      · exact hpending j q hq
  · rw [hlog]
    exact h.once

theorem Stored.read (h : Stored site w) {r : Registration} {cfg : AppConfig}
    (hgoes : Goes w w' call (.refreshing r cfg) [.read call]) (hfolder : w'.folder = w.folder)
    (hr : w.folder.registration = some r) : Stored site w' := by
  have hlog : w'.log = .read call :: w.log := hgoes.log
  refine ⟨?_, fun i p hp hready => ?_, fun i p hp hpending => ?_, fun i p r' hp hdraft hsince => ?_,
    fun i p hp hremoving => ?_, ?_⟩
  · rw [hfolder, hlog]
    exact h.agrees.cons rfl rfl
  · rw [hfolder]
    rcases hgoes.after hp with ⟨rfl, rfl⟩ | ⟨-, hp⟩
    · cases hready
    · exact h.ready i p hp hready
  · rw [hlog]
    rcases hgoes.after hp with ⟨rfl, rfl⟩ | ⟨-, hp⟩
    · cases hpending
    · exact List.mem_cons_of_mem _ (h.pending i p hp hpending)
  · rw [hlog] at hsince ⊢
    rcases hgoes.after hp with ⟨rfl, rfl⟩ | ⟨hi, hp⟩
    · cases hdraft
      rcases h.agrees with ⟨hnone, -⟩ | ⟨s, last, published, hs, hlast, hbuild, -⟩
      · rw [hr] at hnone
        cases hnone
      · rw [hr] at hs
        cases hs
        exact ⟨last, published, hlast, hbuild⟩
    · rw [deletedSince, if_neg (Ne.symm hi)] at hsince
      exact h.draft i p r' hp hdraft hsince
  · rcases hgoes.after hp with ⟨rfl, rfl⟩ | ⟨-, hp⟩
    · cases hremoving
    · rw [(h.removing i p hp hremoving).1] at hr
      cases hr
  · rw [hlog]
    exact h.once

theorem Stored.deleted (h : Stored site w)
    (hgoes : Goes w w' call .removing [.deleted call])
    (hregistration : w'.folder.registration = none) (hsome : w.folder.registration.isSome)
    (horderly : Orderly w call .removing) : Stored site w' := by
  have hlog : w'.log = .deleted call :: w.log := hgoes.log
  refine ⟨?_, fun i p hp hready => hregistration, fun i p hp hpending => ?_,
    fun i p r hp hdraft hsince => ?_, fun i p hp hremoving => ⟨hregistration, fun j q hq => ?_⟩, ?_⟩
  · rw [hregistration, hlog]
    exact .inl ⟨rfl, rfl⟩
  · rw [hlog]
    rcases hgoes.after hp with ⟨rfl, rfl⟩ | ⟨-, hp⟩
    · cases hpending
    · exact List.mem_cons_of_mem _ (h.pending i p hp hpending)
  · rw [hlog, deletedSince] at hsince
    cases hsince
  · rcases hgoes.after hq with ⟨rfl, rfl⟩ | ⟨-, hq⟩
    · rfl
    · rcases horderly.removing rfl with hnone | hpending
      · rw [hnone] at hsome
        cases hsome
      · rw [List.any_eq_false] at hpending
        simpa using hpending q (List.mem_of_getElem? hq)
  · rw [hlog]
    exact h.once

theorem Stored.claimed (h : Stored site w) {r : Registration}
    (hgoes : Goes w w' call (.checking r) [.claimed call])
    (hregistration : w'.folder.registration = w.folder.registration)
    (hremoving : w.calls.any Phase.isRemoving = false) : Stored site w' := by
  have hlog : w'.log = .claimed call :: w.log := hgoes.log
  refine ⟨?_, fun i p hp hready => ?_, fun i p hp hpending => ?_, fun i p r' hp hdraft hsince => ?_,
    fun i p hp hphase => ?_, ?_⟩
  · rw [hregistration, hlog]
    exact h.agrees.cons rfl rfl
  · rw [hregistration]
    rcases hgoes.after hp with ⟨rfl, rfl⟩ | ⟨-, hp⟩
    · cases hready
    · exact h.ready i p hp hready
  · rw [hlog]
    rcases hgoes.after hp with ⟨rfl, rfl⟩ | ⟨-, hp⟩
    · exact List.mem_cons_self
    · exact List.mem_cons_of_mem _ (h.pending i p hp hpending)
  · rw [hlog] at hsince ⊢
    rcases hgoes.after hp with ⟨rfl, rfl⟩ | ⟨-, hp⟩
    · cases hdraft
    · exact h.draft i p r' hp hdraft hsince
  · rcases hgoes.after hp with ⟨rfl, rfl⟩ | ⟨-, hp⟩
    · cases hphase
    · rw [List.any_eq_false] at hremoving
      exact absurd hphase (hremoving p (List.mem_of_getElem? hp))
  · rw [hlog]
    exact h.once

theorem Stored.published (h : Stored site w) (hclaims : Claims w) {r : Registration}
    (hgoes : Goes w w' call (.unclaiming (.ok r.manifest)) [.published call r])
    (hregistration : w'.folder.registration = some r)
    (hold : w.calls[call]? = some (.saving r)) : Stored site w' := by
  have hlog : w'.log = .published call r :: w.log := hgoes.log
  have hnone : w.folder.registration = none := h.ready call _ hold rfl
  have hlatest : latest w.log = none := Agrees.none_of_none (hnone ▸ h.agrees)
  -- no other registrar has the claim
  have hother : ∀ {i : Nat} {p : Phase}, i ≠ call → w.calls[i]? = some p → p.holds = false := by
    intro i p hi hp
    by_contra hholds
    rw [Bool.not_eq_false] at hholds
    exact hi (hclaims.single i call p _ hp hholds hold rfl)
  refine ⟨?_, fun i p hp hready => ?_, fun i p hp hpending => ?_, fun i p r' hp hdraft hsince => ?_,
    fun i p hp hremoving => ?_, ?_⟩
  · rw [hregistration, hlog]
    exact .inr ⟨r, call, r, rfl, rfl, .refl site r,
      List.mem_cons_of_mem _ (h.pending call _ hold rfl), List.mem_cons_self⟩
  · rcases hgoes.after hp with ⟨rfl, rfl⟩ | ⟨hi, hp⟩
    · cases hready
    · have hholds := hother hi hp
      cases p <;> cases hready <;> cases hholds
  · rcases hgoes.after hp with ⟨rfl, rfl⟩ | ⟨hi, hp⟩
    · cases hpending
    · have hholds := hother hi hp
      cases p <;> cases hpending <;> cases hholds
  · rcases hgoes.after hp with ⟨rfl, rfl⟩ | ⟨-, hp⟩
    · cases hdraft
    · rw [hlog] at hsince
      obtain ⟨last, published, hlast, -⟩ := h.draft i p r' hp hdraft hsince
      rw [hlatest] at hlast
      cases hlast
  · rcases hgoes.after hp with ⟨rfl, rfl⟩ | ⟨-, hp⟩
    · cases hremoving
    · have hpending := (h.removing i p hp hremoving).2 call _ hold
      cases hpending
  · rw [hlog]
    exact ⟨hlatest, h.once⟩

theorem Stored.rewrote (h : Stored site w) {r : Registration} {result : Except Text Unit}
    (hgoes : Goes w w' call (.refreshed result) [.rewrote call r])
    (hregistration : w'.folder.registration = some r)
    (hold : w.calls[call]? = some (.rewriting r result))
    (hcurrent : deletedSince call w.log = false) : Stored site w' := by
  have hlog : w'.log = .rewrote call r :: w.log := hgoes.log
  obtain ⟨last, published, hlast, hbuild⟩ := h.draft call _ r hold rfl hcurrent
  have hsome : w.folder.registration ≠ none :=
    Option.isSome_iff_ne_none.mp (h.agrees.registration_isSome hlast)
  refine ⟨?_, fun i p hp hready => ?_, fun i p hp hpending => ?_, fun i p r' hp hdraft hsince => ?_,
    fun i p hp hremoving => ?_, ?_⟩
  · rw [hregistration, hlog]
    rcases h.agrees with ⟨hnone, -⟩ | ⟨s, last', published', -, hlast', -, hclaimed, hpublished⟩
    · exact absurd hnone hsome
    · obtain ⟨rfl, rfl⟩ := Prod.mk.inj (Option.some.inj (hlast.symm.trans hlast'))
      exact .inr ⟨r, last, published, rfl, hlast, hbuild, List.mem_cons_of_mem _ hclaimed,
        List.mem_cons_of_mem _ hpublished⟩
  · rcases hgoes.after hp with ⟨rfl, rfl⟩ | ⟨-, hp⟩
    · cases hready
    · exact absurd (h.ready i p hp hready) hsome
  · rw [hlog]
    rcases hgoes.after hp with ⟨rfl, rfl⟩ | ⟨-, hp⟩
    · cases hpending
    · exact List.mem_cons_of_mem _ (h.pending i p hp hpending)
  · rw [hlog] at hsince ⊢
    rcases hgoes.after hp with ⟨rfl, rfl⟩ | ⟨-, hp⟩
    · cases hdraft
    · exact h.draft i p r' hp hdraft hsince
  · rcases hgoes.after hp with ⟨rfl, rfl⟩ | ⟨-, hp⟩
    · cases hremoving
    · exact absurd (h.removing i p hp hremoving).1 hsome
  · rw [hlog]
    exact h.once

theorem Stored.removed (h : Stored site w)
    (hgoes : Goes w w' call (.removed (.ok ())) [.removed call])
    (hregistration : w'.folder.registration = w.folder.registration)
    (hold : w.calls[call]? = some .removing) : Stored site w' := by
  have hlog : w'.log = .removed call :: w.log := hgoes.log
  obtain ⟨hnone, hpendings⟩ := h.removing call _ hold rfl
  have hlatest : latest w.log = none := Agrees.none_of_none (hnone ▸ h.agrees)
  refine ⟨?_, fun i p hp hready => hregistration.trans hnone, fun i p hp hpending => ?_,
    fun i p r hp hdraft hsince => ?_,
    fun i p hp hremoving => ⟨hregistration.trans hnone, fun j q hq => ?_⟩, ?_⟩
  · rw [hregistration, hnone, hlog]
    exact .inl ⟨rfl, hlatest⟩
  · rcases hgoes.after hp with ⟨rfl, rfl⟩ | ⟨-, hp⟩
    · cases hpending
    · rw [hpendings i p hp] at hpending
      cases hpending
  · rw [hlog] at hsince ⊢
    rcases hgoes.after hp with ⟨rfl, rfl⟩ | ⟨-, hp⟩
    · cases hdraft
    · exact h.draft i p r hp hdraft hsince
  · rcases hgoes.after hq with ⟨rfl, rfl⟩ | ⟨-, hq⟩
    · rfl
    · exact hpendings j q hq
  · rw [hlog]
    exact h.once

end Events

theorem Stored.next (h : Stored site w) (hclaims : Claims w) (hallowed : allowed w a)
    (hstep : step site w a = some w') : Stored site w' := by
  obtain ⟨call, phase, events, heffect, hcalls, hlog, horderly⟩ := step_effect hallowed hstep
  have hgoes : Goes w w' call phase events := ⟨hcalls, hlog⟩
  generalize hfolder : w'.folder = folder at heffect
  cases heffect with
  | quiet _ _ hquiet => exact h.quiet hgoes (hfolder ▸ hquiet)
  | read r cfg hr => exact h.read hgoes hfolder hr
  | deleted hsome => exact h.deleted hgoes (by rw [hfolder]) hsome horderly
  | claimed r hold => exact h.claimed hgoes (by rw [hfolder]) (horderly.claiming r hold)
  | published r hold => exact h.published hclaims hgoes (by rw [hfolder]) hold
  | rewrote r result hold =>
    exact h.rewrote hgoes (by rw [hfolder]) hold (horderly.rewriting r result hold)
  | removed _ hold hregistration => exact h.removed hgoes (by rw [hfolder, hregistration]) hold

def Returned (w : World) : Prop :=
  ∀ (i : Nat) (p : Phase) (m : RuntimeManifest), w.calls[i]? = some p → p.success = some m →
    ∃ r, .published i r ∈ w.log

theorem Returned.next (h : Returned w) (hallowed : allowed w a)
    (hstep : step site w a = some w') : Returned w' := by
  obtain ⟨call, phase, events, heffect, hcalls, hlog, -⟩ := step_effect hallowed hstep
  have hgoes : Goes w w' call phase events := ⟨hcalls, hlog⟩
  generalize w'.folder = folder at heffect
  intro i p m hp hsuccess
  rw [hlog]
  rcases hgoes.after hp with ⟨rfl, rfl⟩ | ⟨-, hp⟩
  · cases heffect with
    | quiet _ _ hquiet =>
      obtain ⟨was, hwas, hwassuccess⟩ := hquiet.success m hsuccess
      exact h i was m hwas hwassuccess
    | published r => exact ⟨r, List.mem_cons_self⟩
    | read | deleted | claimed | rewrote | removed => cases hsuccess
  · obtain ⟨r, hr⟩ := h i p m hp hsuccess
    exact ⟨r, List.mem_append_right _ hr⟩

end Invariants

theorem removed_after {log : List Event} {i : Nat} {r : Registration} (hlatest : latest log = none)
    (hpublished : .published i r ∈ log) :
    ∃ between older, log = between ++ .published i r :: older ∧
      ∃ call, .deleted call ∈ between := by
  induction log with
  | nil => cases hpublished
  | cons event log ih =>
    cases event with
    | published => cases hlatest
    | deleted call =>
      obtain ⟨between, older, rfl⟩ := List.append_of_mem
        ((List.mem_cons.mp hpublished).resolve_left fun h => by cases h)
      exact ⟨.deleted call :: between, older, rfl, call, List.mem_cons_self⟩
    | claimed | read | rewrote | removed =>
      obtain ⟨between, older, rfl, call, hcall⟩ := ih hlatest
        ((List.mem_cons.mp hpublished).resolve_left fun h => by cases h)
      exact ⟨_ :: between, older, rfl, call, List.mem_cons_of_mem _ hcall⟩

theorem RemovedBetween.cons {log : List Event} {i j : Nat} (event : Event)
    (h : RemovedBetween log i j) : RemovedBetween (event :: log) i j := by
  obtain ⟨newer, between, older, r, r', rfl, hremoved⟩ := h
  exact ⟨event :: newer, between, older, r, r', rfl, hremoved⟩

theorem PublishesOnce.tail {event : Event} {log : List Event}
    (h : PublishesOnce (event :: log)) : PublishesOnce log := by
  cases event with
  | published => exact h.2
  | claimed | read | rewrote | deleted | removed => exact h

theorem PublishesOnce.removedBetween {log : List Event} {i j : Nat} {r r' : Registration}
    (h : PublishesOnce log) (hij : i ≠ j) (hi : .published i r ∈ log)
    (hj : .published j r' ∈ log) : RemovedBetween log i j ∨ RemovedBetween log j i := by
  induction log with
  | nil => cases hi
  | cons event log ih =>
    rcases List.mem_cons.mp hi with rfl | hi'
    · rcases List.mem_cons.mp hj with heq | hj'
      · exact absurd (Event.published.inj heq).1.symm hij
      · obtain ⟨between, older, rfl, hremoved⟩ := removed_after h.1 hj'
        exact .inr ⟨[], between, older, r', r, rfl, hremoved⟩
    · rcases List.mem_cons.mp hj with rfl | hj'
      · obtain ⟨between, older, rfl, hremoved⟩ := removed_after h.1 hi'
        exact .inl ⟨[], between, older, r, r', rfl, hremoved⟩
      · exact (ih h.tail hi' hj').imp (.cons event) (.cons event)

/-- The directory before anything was registered in it. -/
def start (present others : Bool) : World := { folder := { present := present, others := others } }

theorem registration_kept {site : Site} {present others : Bool} {w : World}
    (h : Reaches (step site) (fun w a => allowed w a = true) (start present others) w) :
    Kept site w := by
  have hstart : Claims (start present others) ∧ Stored site (start present others) ∧
      Returned (start present others) := by
    refine ⟨⟨?_, ?_⟩, ⟨.inl ⟨rfl, rfl⟩, ?_, ?_, ?_, ?_, trivial⟩, ?_⟩ <;> simp [start, Returned]
  have hkeep : ∀ w w' a, (Claims w ∧ Stored site w ∧ Returned w) → allowed w a = true →
      step site w a = some w' → Claims w' ∧ Stored site w' ∧ Returned w' :=
    fun w w' a ⟨hclaims, hstored, hreturned⟩ hallowed hstep =>
      ⟨hclaims.next hallowed hstep, hstored.next hclaims hallowed hstep,
        hreturned.next hallowed hstep⟩
  obtain ⟨-, hstored, hreturned⟩ := h.invariant hstart hkeep
  refine ⟨fun r hr => ?_, fun hsome => ?_, fun i j m m' hij hi hj => ?_⟩
  · rcases hstored.agrees with ⟨hnone, -⟩ | ⟨s, call, published, hs, hlast, hbuild, -⟩
    · rw [hnone] at hr
      cases hr
    · rw [hs] at hr
      cases hr
      exact ⟨call, published, hlast, hbuild⟩
  · rcases hstored.agrees with ⟨hnone, -⟩ | ⟨s, call, published, -, -, -, hclaimed, hpublished⟩
    · rw [hnone] at hsome
      cases hsome
    · exact ⟨call, published, hclaimed, hpublished⟩
  · obtain ⟨r, hr⟩ := hreturned i _ m hi rfl
    obtain ⟨r', hr'⟩ := hreturned j _ m' hj rfl
    exact hstored.once.removedBetween hij hr hr'

/-- A registry that accepts every manifest, on a machine where every file has one hash. -/
def sampleSite : Site where
  engine := "custom.llama".toList
  runtime := "gpu".toList
  path := .ok ()
  validateManifest _ := .ok ()
  ownedContract _ := false
  recordLength _ := .ok 0

def sampleMachine : Machine where
  digest _ := .ok "00".toList
  currentExe := .ok "/opt/aiolm".toList
  ownedSpec _ := false
  fingerprint _ := []
  launchFingerprint _ _ := []

def sampleManifest : RuntimeManifest :=
  ⟨"custom.llama".toList, "gpu".toList, "/opt/engine".toList, "/opt/probe".toList, [], .null⟩

/-- A registration and what follows it. -/
def sampleRun (rest : List Action) : List Action :=
  .register sampleManifest :: .work 0 (.probed sampleMachine (.ok .null) false) ::
    (List.replicate 6 (.work 0 (.io none)) ++ rest)

theorem registration_kept_refreshed : ∃ w,
    run (fun t a => if allowed t a then step sampleSite t a else none) (start false false)
      (sampleRun [.refresh ⟨[], .null⟩ none, .work 1 (.reprobed sampleMachine (.ok (.ok .null))),
        .work 1 (.io none), .work 1 (.io none), .remove none, .work 2 (.io none)]) = some w ∧
      Kept sampleSite w := by
  obtain ⟨w, hw⟩ := Option.isSome_iff_exists.mp
    (show (run (fun t a => if allowed t a then step sampleSite t a else none) (start false false)
      (sampleRun [.refresh ⟨[], .null⟩ none, .work 1 (.reprobed sampleMachine (.ok (.ok .null))),
        .work 1 (.io none), .work 1 (.io none), .remove none, .work 2 (.io none)])).isSome by
      decide +kernel)
  exact ⟨w, hw, registration_kept (.of_checked_run hw)⟩

/-- A refresh that read the registration before it was removed writes it back after the
removal returned. -/
theorem removed_build_written_back : ¬ ∀ w,
    Reaches (step sampleSite) (fun _ _ => True) (start false false) w → Kept sampleSite w := by
  intro hall
  obtain ⟨w, hw, hthere, hlatest⟩ : ∃ w, run (step sampleSite) (start false false)
      (sampleRun [.refresh ⟨[], .null⟩ none, .remove none, .work 2 (.io none),
        .work 1 (.reprobed sampleMachine (.ok (.ok .null))), .work 1 (.io none),
        .work 1 (.io none)]) = some w ∧ w.folder.registration.isSome ∧ latest w.log = none :=
    ⟨_, rfl, rfl, rfl⟩
  obtain ⟨r, hr⟩ := Option.isSome_iff_exists.mp hthere
  obtain ⟨call, published, hlast, -⟩ :=
    (hall w (.of_run _ (fun _ _ _ => trivial) hw)).build r hr
  rw [hlatest] at hlast
  cases hlast

end AioLM.Registry
