import Mathlib.Data.List.Count
import AioLM.Leases

/-!
The count of a ready session is the number of leases of its key plus the number
of activity phases its launch has counted, along every run in which no phase
ends on a launch that did not count it and the counter has room.
-/

set_option autoImplicit false

namespace AioLM.Routing

open AioLM.Runs

def Fits (s : Session) : Action → Prop
  | .lease _ _ => s.server.lifecycle = .ready → s.server.activeRequests.val < Counter.max
  | .uiStart _ => s.server.lifecycle = .ready → s.server.activeRequests.val < Counter.max
  | .uiEnd phase _ => s.server.lifecycle = .ready → phase = some s.launches
  | _ => True

structure Accounts (s : Session) : Prop where
  keys : [] ∉ s.issued
  leaseKeys : ∀ held ∈ s.leases, held.lease.key ∈ s.issued
  candidateKeys : ∀ c ∈ s.candidates, c.key ∈ s.issued
  serverKey : s.server.apiKey = [] ∨ s.server.apiKey ∈ s.issued
  flight : s.flight.isSome → s.server.lifecycle ≠ .ready ∧
    s.server.activeRequests.val = 0 ∧ s.leased = 0 ∧ s.phases = 0
  owner : ∀ held ∈ s.leases, held.lease.key = s.server.apiKey → held.launch = s.launches
  begun : ∀ n, some n ∈ s.ui → n ≤ s.launches
  count : s.server.lifecycle = .ready →
    s.server.activeRequests.val = s.leased + s.phases

namespace Accounts

theorem new : Accounts {} := by
  constructor <;> simp

variable {s : Session}

theorem leased_eq_zero (h : Accounts s) {server : ServerState}
    (hkey : server.apiKey ∉ s.issued) :
    s.leases.countP (fun held => held.lease.key = server.apiKey) = 0 := by
  rw [List.countP_eq_zero]
  intro held hheld heq
  simp only [decide_eq_true_eq] at heq
  exact hkey (heq ▸ h.leaseKeys held hheld)

/-- Leaving the ready state with the key or the count cleared or kept. -/
theorem quiet (h : Accounts s) {server : ServerState} {flight : Option Flight}
    (hq : ServerState.Quiets s.server server) (hf : flight.isSome → s.flight.isSome) :
    Accounts { s with server := server, flight := flight } where
  keys := h.keys
  leaseKeys := h.leaseKeys
  candidateKeys := h.candidateKeys
  serverKey := by
    rcases hq.key with hk | hk
    · exact .inl hk
    · rw [hk]
      exact h.serverKey
  flight := by
    intro hsome
    obtain ⟨-, hactive, hleased, hphases⟩ := h.flight (hf hsome)
    refine ⟨hq.lifecycle, ?_, ?_, hphases⟩
    · rcases hq.active with ha | ha
      · exact ha
      · rw [ha]
        exact hactive
    · rcases hq.key with hk | hk
      · exact h.leased_eq_zero (hk ▸ h.keys)
      · simpa [Session.leased, hk] using hleased
  owner := by
    intro held hheld heq
    rcases hq.key with hk | hk
    · rw [hk] at heq
      exact absurd (heq ▸ h.leaseKeys held hheld) h.keys
    · exact h.owner held hheld (heq.trans hk)
  begun := h.begun
  count := fun hready => absurd hready hq.lifecycle

theorem land (h : Accounts s) {server : ServerState} (generation : Nat)
    (hq : ServerState.Quiets s.server server) : Accounts (s.land server generation) := by
  refine h.quiet ?_ (by simp)
  rcases ServerState.dropGuard_cases server generation with heq | hg
  · rw [heq]
    exact hq
  · exact hq.trans hg

theorem landReady (h : Accounts s) (hflight : s.flight.isSome) {server : ServerState}
    (generation : Nat) (hkey : server.apiKey = s.server.apiKey)
    (hactive : server.activeRequests = s.server.activeRequests) :
    Accounts (s.land server generation) := by
  obtain ⟨-, hzero, hleased, hphases⟩ := h.flight hflight
  rcases ServerState.dropGuard_cases server generation with heq | hg
  · rw [Session.land, heq]
    refine ⟨h.keys, h.leaseKeys, h.candidateKeys, ?_, by simp, ?_, h.begun, ?_⟩
    · simpa [hkey] using h.serverKey
    · simpa [hkey] using h.owner
    · intro _
      have hl : ({ s with server := server, flight := none } : Session).leased = s.leased := by
        simp [Session.leased, hkey]
      have hp : ({ s with server := server, flight := none } : Session).phases = s.phases := rfl
      rw [hl, hp, hleased, hphases]
      simpa [hactive] using hzero
  · refine h.quiet ⟨hg.lifecycle, ?_, ?_⟩ (by simp)
    · rw [← hkey]
      exact hg.key
    · rw [← hactive]
      exact hg.active

theorem beginLaunch (h : Accounts s) {server : ServerState} {flight : Flight}
    (hstart : s.server.startOnTarget = .ok server) :
    Accounts { s with server := server, flight := some flight, launches := s.launches + 1 } := by
  obtain ⟨hstarting, hkey, hactive⟩ := ServerState.startOnTarget_ok hstart
  have hnokey : server.apiKey ∉ s.issued := hkey ▸ h.keys
  have hnophase : s.ui.count (some (s.launches + 1)) = 0 := by
    rw [List.count_eq_zero]
    intro hmem
    have := h.begun _ hmem
    omega
  refine ⟨h.keys, h.leaseKeys, h.candidateKeys, .inl hkey, ?_, ?_, ?_, ?_⟩
  · exact fun _ => ⟨by simp [hstarting], hactive, h.leased_eq_zero hnokey, hnophase⟩
  · exact fun held hheld heq => absurd (heq ▸ h.leaseKeys held hheld) hnokey
  · intro n hn
    have := h.begun n hn
    simp only
    omega
  · intro hready
    simp [hstarting] at hready

theorem attach (h : Accounts s) (hflight : s.flight.isSome) {p : Spawned} {flight : Flight}
    (hne : p.apiKey ≠ []) (hfresh : p.apiKey ∉ s.issued) (now : Nat) :
    Accounts { s with server := s.server.attachStarting p now, flight := some flight,
                      issued := p.apiKey :: s.issued } := by
  obtain ⟨-, -, -, hphases⟩ := h.flight hflight
  have hkey : (s.server.attachStarting p now).apiKey = p.apiKey := rfl
  refine ⟨?_, ?_, ?_, .inr (by simp [hkey]), ?_, ?_, h.begun, ?_⟩
  · simp [h.keys, hne.symm]
  · exact fun held hheld => List.mem_cons_of_mem _ (h.leaseKeys held hheld)
  · exact fun c hc => List.mem_cons_of_mem _ (h.candidateKeys c hc)
  · exact fun _ => ⟨by simp [ServerState.attachStarting], rfl,
      h.leased_eq_zero (by rwa [hkey]), hphases⟩
  · exact fun held hheld heq => absurd (heq.trans hkey ▸ h.leaseKeys held hheld) hfresh
  · intro hready
    simp [ServerState.attachStarting] at hready

theorem not_flight (h : Accounts s) (hready : s.server.lifecycle = .ready) :
    s.flight.isSome = false := by
  by_contra hsome
  exact (h.flight (Bool.eq_true_of_not_eq_false hsome)).1 hready

theorem reap (h : Accounts s) (probe : Probe) (tail : Text) :
    Accounts { s with server := s.server.reapIfExited probe tail } := by
  rcases ServerState.reapIfExited_cases s.server probe tail with heq | hq
  · rw [heq]
    exact h
  · exact h.quiet hq id

theorem observe (h : Accounts s) (probe : Probe) (tail : Text) :
    Accounts { s with server := (Tracked.mk s.server probe tail).observe } := by
  unfold Tracked.observe
  split
  · exact h.reap probe tail
  · exact h

theorem addCandidate (h : Accounts s) (sessionId : Text) :
    Accounts { s with
      candidates := (candidateOf sessionId s.server).toList ++ s.candidates } := by
  refine ⟨h.keys, h.leaseKeys, ?_, h.serverKey, h.flight, h.owner, h.begun, h.count⟩
  intro c hc
  rcases List.mem_append.mp hc with hc | hc
  · have hsome := Option.mem_toList.mp hc
    unfold candidateOf at hsome
    split at hsome
    · rename_i hcond
      cases hsome
      exact h.serverKey.resolve_left hcond.2.2
    · simp at hsome
  · exact h.candidateKeys c hc

theorem lease (h : Accounts s) {c : Candidate} (hc : c ∈ s.candidates) {now : Nat}
    {lease : Lease} {server : ServerState} (hbegin : Lease.begin c s.server now =
      some (lease, server)) (hroom : s.server.lifecycle = .ready →
      s.server.activeRequests.val < Counter.max) :
    Accounts { s with server := server, leases := ⟨lease, s.launches⟩ :: s.leases } := by
  unfold Lease.begin at hbegin
  split at hbegin
  · simp at hbegin
  · rename_i hcond
    simp only [not_or, ne_eq, not_not] at hcond
    obtain ⟨hready, hkey⟩ := hcond
    cases hbegin
    have hadd := Counter.saturatingAddOne_val (hroom hready)
    refine ⟨h.keys, ?_, h.candidateKeys, h.serverKey, ?_, ?_, h.begun, fun _ => ?_⟩
    · intro held hheld
      rcases List.mem_cons.mp hheld with rfl | hheld
      · exact h.candidateKeys c hc
      · exact h.leaseKeys held hheld
    · simp [h.not_flight hready]
    · intro held hheld heq
      rcases List.mem_cons.mp hheld with rfl | hheld
      · rfl
      · exact h.owner held hheld heq
    · have hcount := h.count hready
      simp only [Session.leased, Session.phases] at hcount ⊢
      simp only [ServerState.beginRequest, hadd, List.countP_cons, hkey, decide_true, if_true]
      rw [hkey] at hcount
      omega

theorem dropLease (h : Accounts s) {held : Held} (hheld : held ∈ s.leases) (now : Nat) :
    Accounts { s with server := held.lease.drop s.server now,
                      leases := s.leases.erase held } := by
  have hsub : ∀ other ∈ s.leases.erase held, other ∈ s.leases :=
    fun _ => List.mem_of_mem_erase
  have hkey : (held.lease.drop s.server now).apiKey = s.server.apiKey := by
    unfold Lease.drop
    split <;> rfl
  have hlife : (held.lease.drop s.server now).lifecycle = s.server.lifecycle := by
    unfold Lease.drop
    split <;> rfl
  have hactive : (held.lease.drop s.server now).activeRequests.val =
      s.server.activeRequests.val - if held.lease.key = s.server.apiKey then 1 else 0 := by
    unfold Lease.drop
    by_cases hk : s.server.apiKey = held.lease.key
    · simp [hk, ServerState.endRequest]
    · simp [hk, Ne.symm hk]
  have hcount : s.leased = (s.leases.erase held).countP
      (fun other => other.lease.key = s.server.apiKey) +
      if held.lease.key = s.server.apiKey then 1 else 0 := by
    rw [Session.leased, (List.perm_cons_erase hheld).countP_eq, List.countP_cons]
    simp
  refine ⟨h.keys, fun other ho => h.leaseKeys other (hsub other ho), h.candidateKeys, ?_, ?_,
    ?_, h.begun, ?_⟩
  · simpa [hkey] using h.serverKey
  · intro hsome
    obtain ⟨hnot, hzero, hleased, hphases⟩ := h.flight hsome
    refine ⟨by simpa [hlife] using hnot, by simp only [hactive]; omega, ?_, hphases⟩
    simp only [Session.leased, hkey]
    omega
  · exact fun other ho heq => h.owner other (hsub other ho) (heq.trans hkey)
  · intro hready
    have hbefore := h.count (hlife ▸ hready)
    have hl : ({ s with server := held.lease.drop s.server now,
                        leases := s.leases.erase held } : Session).leased =
        (s.leases.erase held).countP (fun other => other.lease.key = s.server.apiKey) := by
      simp [Session.leased, hkey]
    have hp : ({ s with server := held.lease.drop s.server now,
                        leases := s.leases.erase held } : Session).phases = s.phases := rfl
    rw [hl, hp]
    simp only [hactive]
    omega

theorem uiStart (h : Accounts s) (now : Nat) (hroom : s.server.lifecycle = .ready →
      s.server.activeRequests.val < Counter.max) :
    Accounts { s with server := s.onServer (s.server.serverActivity "start".toList now),
                      ui := s.countedOn :: s.ui } := by
  by_cases hready : s.server.lifecycle = .ready
  · have hadd := Counter.saturatingAddOne_val (hroom hready)
    have hserver : s.onServer (s.server.serverActivity "start".toList now) =
        s.server.beginRequest now := by
      simp [Session.onServer, ServerState.serverActivity, hready]
    have hphase : s.countedOn = some s.launches := by simp [Session.countedOn, hready]
    rw [hserver, hphase]
    refine ⟨h.keys, h.leaseKeys, h.candidateKeys, h.serverKey, ?_, h.owner, ?_, fun _ => ?_⟩
    · simp [h.not_flight hready]
    · intro n hn
      rcases List.mem_cons.mp hn with hn | hn
      · simp only [Option.some.injEq] at hn
        exact hn.le
      · exact h.begun n hn
    · change s.server.activeRequests.saturatingAddOne.val =
        s.leased + (some s.launches :: s.ui).count (some s.launches)
      rw [hadd, List.count_cons_self, h.count hready, Session.phases, Nat.add_assoc]
  · have hserver : s.onServer (s.server.serverActivity "start".toList now) = s.server := by
      simp [Session.onServer, ServerState.serverActivity, hready]
    have hphase : s.countedOn = none := by simp [Session.countedOn, hready]
    rw [hserver, hphase]
    have hphases : ({ s with ui := none :: s.ui } : Session).phases = s.phases := by
      simp [Session.phases]
    refine ⟨h.keys, h.leaseKeys, h.candidateKeys, h.serverKey, ?_, h.owner, ?_, ?_⟩
    · intro hsome
      rw [hphases]
      exact h.flight hsome
    · intro n hn
      exact h.begun n (by simpa using hn)
    · exact fun hr => absurd hr hready

theorem uiEnd (h : Accounts s) {phase : Option Nat} (hphase : phase ∈ s.ui) (now : Nat)
    (hown : s.server.lifecycle = .ready → phase = some s.launches) :
    Accounts { s with server := s.onServer (s.server.serverActivity "end".toList now),
                      ui := s.ui.erase phase } := by
  have hbegun : ∀ n, some n ∈ s.ui.erase phase → n ≤ s.launches :=
    fun n hn => h.begun n (List.mem_of_mem_erase hn)
  by_cases hready : s.server.lifecycle = .ready
  · have hserver : s.onServer (s.server.serverActivity "end".toList now) =
        s.server.endRequest now := by
      simp [Session.onServer, ServerState.serverActivity, hready]
    rw [hserver]
    obtain rfl := hown hready
    refine ⟨h.keys, h.leaseKeys, h.candidateKeys, h.serverKey, ?_, h.owner, hbegun,
      fun _ => ?_⟩
    · simp [h.not_flight hready]
    · have hcount := h.count hready
      have hpos : 0 < s.ui.count (some s.launches) := List.count_pos_iff.mpr hphase
      change s.server.activeRequests.val - 1 =
        s.leased + (s.ui.erase (some s.launches)).count (some s.launches)
      rw [List.count_erase_self]
      simp only [Session.phases] at hcount
      omega
  · have hserver : s.onServer (s.server.serverActivity "end".toList now) = s.server := by
      simp [Session.onServer, ServerState.serverActivity, hready]
    rw [hserver]
    refine ⟨h.keys, h.leaseKeys, h.candidateKeys, h.serverKey, ?_, h.owner, hbegun, ?_⟩
    · intro hsome
      obtain ⟨hnot, hzero, hleased, hphases⟩ := h.flight hsome
      refine ⟨hnot, hzero, hleased, ?_⟩
      exact Nat.le_zero.mp (hphases ▸ (List.erase_sublist).count_le _)
    · exact fun hr => absurd hr hready

theorem uiTouch (h : Accounts s) (now : Nat) :
    Accounts { s with
      server := s.onServer (s.server.serverActivity "touch".toList now) } := by
  by_cases hready : s.server.lifecycle = .ready
  · have hserver : s.onServer (s.server.serverActivity "touch".toList now) =
        s.server.touchActivity now := by
      simp [Session.onServer, ServerState.serverActivity, hready]
    rw [hserver]
    exact ⟨h.keys, h.leaseKeys, h.candidateKeys, h.serverKey, h.flight, h.owner, h.begun,
      h.count⟩
  · have hserver : s.onServer (s.server.serverActivity "touch".toList now) = s.server := by
      simp [Session.onServer, ServerState.serverActivity, hready]
    rw [hserver]
    exact h

theorem step {s' : Session} {a : Action} (h : Accounts s) (hfits : Fits s a)
    (hs : s.step a = some s') : Accounts s' := by
  have hquiet : s.flight.isSome → s.server.lifecycle ≠ .ready := fun hf => (h.flight hf).1
  cases a with
  | beginLaunch =>
    simp only [Session.step] at hs
    split at hs
    · simp at hs
    · split at hs
      · cases hs
        exact h
      · rename_i hstart
        cases hs
        exact h.beginLaunch hstart
  | attach withdrawn spawned now =>
    simp only [Session.step] at hs
    split at hs
    · rename_i generation hflight
      split at hs
      · simp at hs
      · rename_i hkey
        simp only [not_or] at hkey
        rcases ServerState.attachOnTarget_cases s.server generation withdrawn spawned now with
          ⟨after, heq, hq⟩ | heq
        · rw [heq] at hs
          cases hs
          exact h.land generation hq
        · rw [heq] at hs
          cases hs
          exact h.attach (by simp [hflight]) hkey.1 hkey.2 now
    · simp at hs
  | spawnFailed exiting error =>
    simp only [Session.step] at hs
    split at hs
    · rename_i generation hflight
      cases hs
      exact h.land generation
        (ServerState.spawnFailed_quiets (hquiet (by simp [hflight])) generation exiting error)
    · simp at hs
  | loseChild =>
    simp only [Session.step] at hs
    split at hs
    · rename_i hflight
      cases hs
      exact h.quiet ⟨hquiet (by simp [hflight]), .inr rfl, .inr rfl⟩ id
    · simp at hs
  | launchReady withdrawn saved now =>
    simp only [Session.step] at hs
    split at hs
    · rename_i generation hflight
      cases hs
      rcases ServerState.readyOnTarget_cases s.server generation withdrawn saved now with
        hq | ⟨hkey, hactive⟩
      · exact h.land generation hq
      · exact h.landReady (by simp [hflight]) generation hkey hactive
    · simp at hs
  | launchFailed exiting url error =>
    simp only [Session.step] at hs
    split at hs
    · rename_i generation hflight
      cases hs
      exact h.land generation (ServerState.failedOnTarget_quiets (hquiet (by simp [hflight]))
        generation exiting url error)
    · simp at hs
  | dropGuard =>
    simp only [Session.step] at hs
    split at hs
    · rename_i generation attached hflight
      cases hs
      exact h.land generation (.refl (hquiet (by simp [hflight])))
    · simp at hs
  | stopTarget now =>
    cases hs
    exact h.quiet (ServerState.stopTarget_quiets _ now) id
  | forget =>
    cases hs
    exact h.quiet (ServerState.forget_quiets _) id
  | shutdown =>
    cases hs
    exact h.quiet (ServerState.shutdown_quiets _) id
  | reap probe tail =>
    cases hs
    exact h.reap probe tail
  | snapshot sessionId probe tail =>
    cases hs
    exact (h.observe probe tail).addCandidate sessionId
  | lease c now =>
    simp only [Session.step] at hs
    split at hs
    · rename_i hc
      split at hs
      · rename_i hbegin
        cases hs
        exact h.lease hc hbegin hfits
      · cases hs
        exact h
    · simp at hs
  | dropLease held now =>
    simp only [Session.step] at hs
    split at hs
    · rename_i hheld
      cases hs
      exact h.dropLease hheld now
    · simp at hs
  | uiStart now =>
    cases hs
    exact h.uiStart now hfits
  | uiTouch now =>
    cases hs
    exact h.uiTouch now
  | uiEnd phase now =>
    simp only [Session.step] at hs
    split at hs
    · rename_i hphase
      cases hs
      exact h.uiEnd hphase now hfits
    · simp at hs

theorem of_reaches (h : Reaches Session.step Fits {} s) : Accounts s :=
  h.invariant new (fun _ _ _ hinv hok hs => hinv.step hok hs)

end Accounts

def Action.isPhase : Action → Bool
  | .uiStart _ | .uiTouch _ | .uiEnd _ _ => true
  | _ => false

/-- Steps of a session without activity phases, each lease with room to count it. -/
structure LeasesFit (s : Session) (a : Action) : Prop where
  noPhase : a.isPhase = false
  room : ∀ c now, a = .lease c now → s.leased < Counter.max

theorem step_ui {s s' : Session} {a : Action} (hphase : a.isPhase = false)
    (hs : s.step a = some s') : s'.ui = s.ui := by
  cases a <;> simp only [Session.step] at hs
  case uiStart => simp [Action.isPhase] at hphase
  case uiTouch => simp [Action.isPhase] at hphase
  case uiEnd => simp [Action.isPhase] at hphase
  all_goals grind [Session.land]

theorem reaches_leases {s : Session} (h : Reaches Session.step LeasesFit {} s) :
    Accounts s ∧ s.ui = [] := by
  induction h with
  | start => exact ⟨.new, rfl⟩
  | @next s s' a _ hfit hs ih =>
    obtain ⟨hinv, hui⟩ := ih
    refine ⟨hinv.step ?_ hs, (step_ui hfit.noPhase hs).trans hui⟩
    cases a with
    | lease c now =>
      intro hready
      rw [hinv.count hready]
      simpa [Session.phases, hui] using hfit.room c now rfl
    | uiStart now => simpa [Action.isPhase] using hfit.noPhase
    | uiEnd phase now => simpa [Action.isPhase] using hfit.noPhase
    | _ => trivial

/-- A session with an active lease refuses every operation that would stop it. -/
def Session.Kept (s : Session) : Prop :=
  (∀ now, s.server.unloadIdle now = none) ∧
  (∀ now, ∃ message, s.server.stopSession now = .error message) ∧
  (∃ message, s.server.startOnTarget = .error message) ∧
  ∀ targets id now, (id, s.server) ∈ targets →
    ∃ message, stopModelsForReplacement targets now = .error message

theorem Session.kept {s : Session} (hready : s.server.lifecycle = .ready)
    (hactive : 0 < s.server.activeRequests.val) : s.Kept := by
  have hbusy := ServerState.busy_of_ready hready hactive
  exact ⟨fun now => ServerState.unloadIdle_active hactive now,
    fun now => ServerState.stopSession_busy hbusy now, ServerState.startOnTarget_busy hbusy,
    fun targets id now hmem => stopModelsForReplacement_busy hmem hbusy now⟩

/-- Lease accounting while the counter has room. -/
theorem lease_accounting {s : Session} (h : Reaches Session.step LeasesFit {} s) :
    (s.server.lifecycle = .ready → s.server.activeRequests.val = s.leased) ∧
    (∀ held ∈ s.leases, held.launch ≠ s.launches →
      ∀ now, held.lease.drop s.server now = s.server) ∧
    (s.server.lifecycle = .ready → 0 < s.leased → s.Kept) := by
  obtain ⟨hinv, hui⟩ := reaches_leases h
  have hcount : s.server.lifecycle = .ready → s.server.activeRequests.val = s.leased := by
    intro hready
    simpa [Session.phases, hui] using hinv.count hready
  refine ⟨hcount, ?_, ?_⟩
  · intro held hheld hlaunch now
    unfold Lease.drop
    rw [if_neg fun hkey => hlaunch (hinv.owner held hheld hkey.symm)]
  · intro hready hleased
    exact Session.kept hready (by rw [hcount hready]; exact hleased)

def sampleSpawned (key : String) : Spawned :=
  ⟨1, "http://127.0.0.1:1/v1".toList, key.toList, "m.gguf".toList, [], []⟩

def sampleCandidate (key : String) : Candidate :=
  ⟨"default".toList, "m.gguf".toList, "m.gguf".toList, "http://127.0.0.1:1/v1".toList,
    key.toList⟩

def sampleLaunch (key : String) : List Action :=
  [.beginLaunch, .attach false (sampleSpawned key) 0, .launchReady false 60 0,
    .snapshot "default".toList .running []]

theorem lease_accounting_sample : ∃ s : Session,
    Reaches Session.step LeasesFit {} s ∧ s.server.lifecycle = .ready ∧ s.leased = 1 ∧
    (s.server.lifecycle = .ready → s.server.activeRequests.val = s.leased) ∧
    (∀ held ∈ s.leases, held.launch ≠ s.launches →
      ∀ now, held.lease.drop s.server now = s.server) ∧
    (s.server.lifecycle = .ready → 0 < s.leased → s.Kept) := by
  have hstep : ∀ (s : Session) (a : Action), a.isPhase = false → s.leased = 0 →
      LeasesFit s a := fun s a ha hs => ⟨ha, fun _ _ _ => by rw [hs]; decide⟩
  have h : Reaches Session.step LeasesFit {} _ :=
    ((((Reaches.start.next (a := .beginLaunch) (hstep _ _ rfl rfl) rfl).next
      (a := .attach false (sampleSpawned "lb-1") 0) (hstep _ _ rfl rfl) rfl).next
      (a := .launchReady false 60 0) (hstep _ _ rfl rfl) rfl).next
      (a := .snapshot "default".toList .running []) (hstep _ _ rfl rfl) rfl).next
      (a := .lease (sampleCandidate "lb-1") 0) (hstep _ _ rfl rfl) rfl
  exact ⟨_, h, rfl, rfl, lease_accounting h⟩

def NoPhase (_ : Session) (a : Action) : Prop := a.isPhase = false

theorem lease_repeatedly {s : Session} {c : Candidate} (hready : s.server.lifecycle = .ready)
    (hc : c ∈ s.candidates) (hkey : s.server.apiKey = c.key) (n : Nat) :
    ∃ s' : Session, Reaches Session.step NoPhase s s' ∧
      s'.server.lifecycle = .ready ∧ c ∈ s'.candidates ∧ s'.server.apiKey = c.key ∧
      s'.leased = s.leased + n ∧
      s'.server.activeRequests.val ≤ Counter.max := by
  induction n with
  | zero => exact ⟨s, .start, hready, hc, hkey, rfl, s.server.activeRequests.le_max⟩
  | succ n ih =>
    obtain ⟨t, ht, htready, htc, htkey, htleased, -⟩ := ih
    have hbegin : Lease.begin c t.server 0 =
        some (⟨c.url, c.key⟩, t.server.beginRequest 0) := by
      simp [Lease.begin, htready, htkey]
    have hstep : t.step (.lease c 0) = some { t with
        server := t.server.beginRequest 0
        leases := ⟨⟨c.url, c.key⟩, t.launches⟩ :: t.leases } := by
      simp [Session.step, htc, hbegin]
    refine ⟨_, ht.next (a := .lease c 0) rfl hstep, htready, htc, htkey, ?_,
      Counter.le_max _⟩
    change (_ :: t.leases).countP (fun held => held.lease.key = t.server.apiKey) = _
    rw [List.countP_cons, if_pos (by simp [htkey]), ← Nat.add_assoc, ← htleased]
    rfl

/-- More leases than `u32::MAX` are not all counted. -/
theorem full_counter_miscounts : ∃ s : Session,
    Reaches Session.step NoPhase {} s ∧
      s.server.lifecycle = .ready ∧ s.server.activeRequests.val ≠ s.leased := by
  have hrun : Runs.run Session.step {} (sampleLaunch "lb-1") = some _ := rfl
  have hlaunch : ∃ t : Session, Reaches Session.step NoPhase {} t ∧
      t.server.lifecycle = .ready ∧ sampleCandidate "lb-1" ∈ t.candidates ∧
      t.server.apiKey = (sampleCandidate "lb-1").key :=
    ⟨_, Reaches.of_run _ (by simp [sampleLaunch, NoPhase, Action.isPhase]) hrun, rfl,
      List.mem_singleton.mpr rfl, rfl⟩
  obtain ⟨t, ht, htready, htc, htkey⟩ := hlaunch
  obtain ⟨s, hs, hready, -, -, hleased, hmax⟩ := lease_repeatedly htready htc htkey (2 ^ 32)
  refine ⟨s, ht.trans hs, hready, ?_⟩
  rw [hleased]
  have : Counter.max < 2 ^ 32 := by decide
  omega

/-- While every phase ends on the launch that counted it, activity of the
desktop chat never hides a lease. -/
theorem activity_keeps_leases {s : Session} (h : Reaches Session.step Fits {} s)
    (hready : s.server.lifecycle = .ready) :
    s.leased ≤ s.server.activeRequests.val ∧ (0 < s.leased → s.Kept) := by
  have hcount := (Accounts.of_reaches h).count hready
  exact ⟨by omega, fun hleased => Session.kept hready (by omega)⟩

theorem activity_keeps_leases_sample : ∃ s : Session,
    Reaches Session.step Fits {} s ∧ s.server.lifecycle = .ready ∧ s.leased = 1 ∧
      s.leased ≤ s.server.activeRequests.val ∧ (0 < s.leased → s.Kept) := by
  have h : Reaches Session.step Fits {} _ :=
    ((((((Reaches.start.next (a := .beginLaunch) trivial rfl).next
      (a := .attach false (sampleSpawned "lb-1") 0) trivial rfl).next
      (a := .launchReady false 60 0) trivial rfl).next
      (a := .snapshot "default".toList .running []) trivial rfl).next
      (a := .uiStart 0) (fun _ => by decide) rfl).next
      (a := .lease (sampleCandidate "lb-1") 0) (fun _ => by decide) rfl).next
      (a := .uiEnd (some 1) 0) (fun _ => rfl) rfl
  exact ⟨_, h, rfl, rfl, activity_keeps_leases h rfl⟩

/-- A chat turn outlives a crash and a relaunch: its end takes the place of the
one lease on the new launch, and the session may be stopped. -/
theorem late_end_releases_lease : ∃ s : Session,
    Reaches Session.step (fun _ _ => True) {} s ∧ s.server.lifecycle = .ready ∧
      s.leased = 1 ∧ s.server.activeRequests.val = 0 ∧
      ∃ stopped, s.server.stopSession 0 = .ok stopped := by
  have h : Runs.run Session.step {}
      (sampleLaunch "lb-1" ++ [.uiStart 0, .reap (.exited none) []] ++ sampleLaunch "lb-2" ++
        [.lease (sampleCandidate "lb-2") 0, .uiEnd (some 1) 0]) = some _ := rfl
  exact ⟨_, Reaches.of_run _ (fun _ _ _ => trivial) h, rfl, rfl, rfl, _, rfl⟩

end AioLM.Routing
