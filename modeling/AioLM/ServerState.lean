import Mathlib.Data.Char
import Mathlib.Data.List.Lex
import AioLM.Json

/-!
The state of one model session and the operations that change it: the launch
sequence of `start_on_target`, teardown, crash detection and the request count.
-/

set_option autoImplicit false

namespace AioLM

/-- `u32` counters of in-flight work. -/
structure Counter where
  val : Nat
  le_max : val ≤ 2 ^ 32 - 1

namespace Counter

def max : Nat := 2 ^ 32 - 1

def zero : Counter := ⟨0, by decide⟩

def saturatingAddOne (c : Counter) : Counter := ⟨min (c.val + 1) max, Nat.min_le_right _ _⟩

def saturatingSubOne (c : Counter) : Counter :=
  ⟨c.val - 1, Nat.le_trans (Nat.sub_le _ _) c.le_max⟩

@[simp] theorem zero_val : zero.val = 0 := rfl

theorem saturatingAddOne_val {c : Counter} (h : c.val < max) :
    c.saturatingAddOne.val = c.val + 1 := by
  simp only [saturatingAddOne]
  omega

@[simp] theorem saturatingSubOne_val (c : Counter) : c.saturatingSubOne.val = c.val - 1 := rfl

end Counter

inductive Lifecycle where
  | stopped | starting | ready | stopping | failed | crashed
  deriving DecidableEq

def Lifecycle.blocksResourceChange : Lifecycle → Bool
  | .starting | .ready | .stopping => true
  | _ => false

/-- `execution` holds of the launch settings what is read here: the app idle
timeout in seconds. Instants are nanoseconds. -/
structure ServerState where
  child : Option Nat := none
  url : Text := []
  apiKey : Text := []
  redactionSecret : Text := []
  model : Text := []
  mmproj : Text := []
  draftModel : Text := []
  execution : Option Int := none
  lifecycle : Lifecycle := .stopped
  lastError : Option Text := none
  lastActivityAt : Nat := 0
  activeRequests : Counter := .zero
  retired : Bool := false
  launchGeneration : Nat := 0

/-- What `try_wait` says about the tracked process. -/
inductive Probe where
  | running
  | exited (code : Option Int)
  | failed (error : Text)

/-- The process and the settings `attach_starting` records. -/
structure Spawned where
  child : Nat
  url : Text
  apiKey : Text
  model : Text
  mmproj : Text
  draftModel : Text

namespace ServerState

def bumpGeneration (generation : Nat) : Nat := (generation + 1) % 2 ^ 64

def beginLaunch (s : ServerState) : ServerState :=
  { s with
    execution := none
    activeRequests := .zero
    launchGeneration := bumpGeneration s.launchGeneration
    lifecycle := .starting }

def cancelLaunch (s : ServerState) : ServerState :=
  { s with
    execution := none
    launchGeneration := bumpGeneration s.launchGeneration
    lifecycle := .stopped }

def isCurrentLaunch (s : ServerState) (generation : Nat) : Bool :=
  s.launchGeneration == generation

def attachStarting (s : ServerState) (p : Spawned) (now : Nat) : ServerState :=
  { s with
    child := some p.child
    url := p.url
    redactionSecret := p.apiKey
    apiKey := p.apiKey
    model := p.model
    mmproj := p.mmproj
    draftModel := p.draftModel
    lifecycle := .starting
    lastError := none
    lastActivityAt := now
    activeRequests := .zero }

def touchActivity (s : ServerState) (now : Nat) : ServerState := { s with lastActivityAt := now }

def beginRequest (s : ServerState) (now : Nat) : ServerState :=
  { s with activeRequests := s.activeRequests.saturatingAddOne, lastActivityAt := now }

def endRequest (s : ServerState) (now : Nat) : ServerState :=
  { s with activeRequests := s.activeRequests.saturatingSubOne, lastActivityAt := now }

def idleSeconds (s : ServerState) (now : Nat) : Nat := (now - s.lastActivityAt) / 10 ^ 9

def autoUnloadDue (s : ServerState) (idle : Int) (now : Nat) : Bool :=
  decide (0 < idle) && s.activeRequests.val == 0 && decide (idle.toNat ≤ s.idleSeconds now)

/-- The text fields every teardown empties. -/
def clearIdentity (s : ServerState) : ServerState :=
  { s with url := [], apiKey := [], redactionSecret := [], model := [], mmproj := [],
           draftModel := [] }

def killChild (s : ServerState) : ServerState := { s with child := none }

/-- `stop_target` -/
def stopTarget (s : ServerState) (now : Nat) : ServerState :=
  { (s.killChild.cancelLaunch.clearIdentity) with
    lastError := none
    activeRequests := .zero
    lastActivityAt := now }

/-- The state change of `SessionManager::forget`. -/
def forget (s : ServerState) : ServerState := { s.cancelLaunch.killChild with retired := true }

/-- The part of application exit that concerns one session. -/
def shutdown (s : ServerState) : ServerState :=
  { s.cancelLaunch.killChild with lifecycle := .stopped, apiKey := [], redactionSecret := [] }

def crash (s : ServerState) (message : Text) : ServerState :=
  { s with
    child := none
    apiKey := []
    redactionSecret := []
    mmproj := []
    lifecycle := .crashed
    activeRequests := .zero
    execution := none
    lastError := some message }

def withTail (message tail : Text) : Text :=
  if Text.trim tail = [] then message else message ++ ". ".toList ++ Text.trim tail

def exitMessage (code : Option Int) : Text :=
  "inference server exited unexpectedly (".toList ++
    ((code.map Json.intText).getD "signal".toList) ++ ")".toList

def reapIfExited (s : ServerState) (probe : Probe) (tail : Text) : ServerState :=
  if s.lifecycle = .ready then
    match s.child, probe with
    -- A session without a process counts as exited with the default status.
    | none, _ => s.crash (withTail (exitMessage (some 0)) tail)
    | some _, .running => s
    | some _, .exited code => s.crash (withTail (exitMessage code) tail)
    | some _, .failed error =>
        s.crash (withTail ("failed to inspect server process: ".toList ++ error) tail)
  else s

def busy (s : ServerState) : Bool :=
  s.lifecycle.blocksResourceChange && decide (0 < s.activeRequests.val)

/-- The first locked block of `start_on_target`. -/
def startOnTarget (s : ServerState) : Except Text ServerState :=
  if s.retired then .error "session was unloaded".toList
  else if s.busy then
    .error "finish or stop the active response before replacing this model".toList
  else .ok { s.beginLaunch.clearIdentity.killChild with lastError := none }

def dropGuard (s : ServerState) (generation : Nat) : ServerState :=
  if s.isCurrentLaunch generation && s.lifecycle == .starting then
    s.killChild.cancelLaunch.clearIdentity
  else s

def spawnFailed (s : ServerState) (generation : Nat) (exiting : Bool) (error : Text) :
    ServerState :=
  if s.isCurrentLaunch generation then
    { s with lifecycle := if exiting then .stopped else .failed, lastError := some error }
  else s

def attachOnTarget (s : ServerState) (generation : Nat) (withdrawn : Bool) (p : Spawned)
    (now : Nat) : ServerState × Bool :=
  if !s.isCurrentLaunch generation || withdrawn then
    ({ s.clearIdentity with lifecycle := .stopped }, false)
  else (s.attachStarting p now, true)

/-- The block after `wait_ready` succeeded. The model name stays on this
withdrawn branch, unlike on the one before. -/
def readyOnTarget (s : ServerState) (generation : Nat) (withdrawn : Bool) (saved : Int)
    (now : Nat) : ServerState :=
  if !s.isCurrentLaunch generation || withdrawn then
    { s with child := none, url := [], apiKey := [], redactionSecret := [], mmproj := [],
             draftModel := [], lifecycle := .stopped }
  else
    { s with lifecycle := .ready, execution := some saved, lastError := none,
             lastActivityAt := now }

/-- The block after `wait_ready` failed. -/
def failedOnTarget (s : ServerState) (generation : Nat) (exiting : Bool) (url error : Text) :
    ServerState :=
  if s.isCurrentLaunch generation then
    { s with child := none, url := if exiting then [] else url, apiKey := [], mmproj := [],
             draftModel := [], lifecycle := if exiting then .stopped else .failed,
             lastError := some error }
  else s

def ensureCanUnload (s : ServerState) : Except Text Unit :=
  if s.busy then
    .error "finish or stop the active response before unloading this model".toList
  else .ok ()

/-- `stop_session_by_id`, once the session is found. -/
def stopSession (s : ServerState) (now : Nat) : Except Text ServerState := do
  s.ensureCanUnload
  return s.stopTarget now

/-- `unload_idle_server` and the loop body of `unload_idle_named_sessions`:
nothing when the session stays loaded. -/
def unloadIdle (s : ServerState) (now : Nat) : Option ServerState :=
  if s.lifecycle = .ready ∧ s.execution.any (fun idle => s.autoUnloadDue idle now) then
    some (s.stopTarget now)
  else none

/-- `server_activity` -/
def serverActivity (s : ServerState) (phase : Text) (now : Nat) : Except Text ServerState :=
  if s.lifecycle ≠ .ready then .error "server is not ready for activity tracking".toList
  else if phase = "start".toList then .ok (s.beginRequest now)
  else if phase = "end".toList then .ok (s.endRequest now)
  else if phase = "touch".toList then .ok (s.touchActivity now)
  else .error "server activity phase must be start, end, or touch".toList

/-- `after` is not ready, and has lost or kept the key and the count. -/
structure Quiets (before after : ServerState) : Prop where
  lifecycle : after.lifecycle ≠ .ready
  key : after.apiKey = [] ∨ after.apiKey = before.apiKey
  active : after.activeRequests.val = 0 ∨ after.activeRequests = before.activeRequests

theorem Quiets.refl {s : ServerState} (h : s.lifecycle ≠ .ready) : Quiets s s :=
  ⟨h, .inr rfl, .inr rfl⟩

theorem Quiets.trans {a b c : ServerState} (hab : Quiets a b) (hbc : Quiets b c) :
    Quiets a c := by
  refine ⟨hbc.lifecycle, ?_, ?_⟩
  · rcases hbc.key with h | h
    · exact .inl h
    · rw [h]
      exact hab.key
  · rcases hbc.active with h | h
    · exact .inl h
    · rw [h]
      exact hab.active

theorem stopTarget_quiets (s : ServerState) (now : Nat) : Quiets s (s.stopTarget now) := by
  constructor <;> simp [stopTarget, cancelLaunch, clearIdentity, killChild]

theorem forget_quiets (s : ServerState) : Quiets s s.forget := by
  constructor <;> simp [forget, cancelLaunch, killChild]

theorem shutdown_quiets (s : ServerState) : Quiets s s.shutdown := by
  constructor <;> simp [shutdown, cancelLaunch, killChild]

theorem crash_quiets (s : ServerState) (message : Text) : Quiets s (s.crash message) := by
  constructor <;> simp [crash]

theorem reapIfExited_cases (s : ServerState) (probe : Probe) (tail : Text) :
    s.reapIfExited probe tail = s ∨ Quiets s (s.reapIfExited probe tail) := by
  unfold reapIfExited
  split
  · split
    · exact .inr (crash_quiets _ _)
    · exact .inl rfl
    · exact .inr (crash_quiets _ _)
    · exact .inr (crash_quiets _ _)
  · exact .inl rfl

theorem dropGuard_cases (s : ServerState) (generation : Nat) :
    s.dropGuard generation = s ∨ Quiets s (s.dropGuard generation) := by
  unfold dropGuard
  split
  · right
    constructor <;> simp [cancelLaunch, clearIdentity, killChild]
  · exact .inl rfl

theorem spawnFailed_quiets {s : ServerState} (h : s.lifecycle ≠ .ready) (generation : Nat)
    (exiting : Bool) (error : Text) : Quiets s (s.spawnFailed generation exiting error) := by
  unfold spawnFailed
  split
  · cases exiting <;> constructor <;> simp
  · exact .refl h

theorem failedOnTarget_quiets {s : ServerState} (h : s.lifecycle ≠ .ready) (generation : Nat)
    (exiting : Bool) (url error : Text) :
    Quiets s (s.failedOnTarget generation exiting url error) := by
  unfold failedOnTarget
  split
  · cases exiting <;> constructor <;> simp
  · exact .refl h

theorem attachOnTarget_cases (s : ServerState) (generation : Nat) (withdrawn : Bool)
    (p : Spawned) (now : Nat) :
    (∃ after, s.attachOnTarget generation withdrawn p now = (after, false) ∧
      Quiets s after) ∨
    s.attachOnTarget generation withdrawn p now = (s.attachStarting p now, true) := by
  unfold attachOnTarget
  split
  · exact .inl ⟨_, rfl, by constructor <;> simp [clearIdentity]⟩
  · exact .inr rfl

theorem readyOnTarget_cases (s : ServerState) (generation : Nat) (withdrawn : Bool)
    (saved : Int) (now : Nat) :
    Quiets s (s.readyOnTarget generation withdrawn saved now) ∨
    ((s.readyOnTarget generation withdrawn saved now).apiKey = s.apiKey ∧
      (s.readyOnTarget generation withdrawn saved now).activeRequests = s.activeRequests) := by
  unfold readyOnTarget
  split
  · left
    constructor <;> simp
  · exact .inr ⟨rfl, rfl⟩

theorem startOnTarget_ok {s after : ServerState} (h : s.startOnTarget = .ok after) :
    after.lifecycle = .starting ∧ after.apiKey = [] ∧ after.activeRequests.val = 0 := by
  unfold startOnTarget at h
  split at h
  · simp at h
  · split at h
    · simp at h
    · cases h
      simp [beginLaunch, clearIdentity, killChild]

theorem busy_of_ready {s : ServerState} (hready : s.lifecycle = .ready)
    (hactive : 0 < s.activeRequests.val) : s.busy = true := by
  simp [busy, hready, hactive, Lifecycle.blocksResourceChange]

theorem startOnTarget_busy {s : ServerState} (h : s.busy = true) :
    ∃ message, s.startOnTarget = .error message := by
  simp only [startOnTarget, h, if_true]
  split <;> exact ⟨_, rfl⟩

theorem stopSession_busy {s : ServerState} (h : s.busy = true) (now : Nat) :
    ∃ message, s.stopSession now = .error message := by
  simp only [stopSession, ensureCanUnload, h, if_true]
  exact ⟨_, rfl⟩

theorem unloadIdle_active {s : ServerState} (h : 0 < s.activeRequests.val) (now : Nat) :
    s.unloadIdle now = none := by
  have hcount : s.activeRequests.val ≠ 0 := by omega
  cases he : s.execution <;> simp [unloadIdle, he, autoUnloadDue, hcount]

end ServerState

def replacementTargets (targets : List (Text × ServerState)) : List (Text × ServerState) :=
  targets.mergeSort (fun left right => left.1 ≤ right.1)

/-- `stop_models_for_replacement`: every target is checked before any stops. -/
def stopModelsForReplacement (targets : List (Text × ServerState)) (now : Nat) :
    Except Text (List (Text × ServerState)) :=
  match (replacementTargets targets).find? (fun target => target.2.busy) with
  | some (id, _) => .error ("finish or stop the active response in session '".toList ++ id ++
      "' before loading a model".toList)
  | none => .ok ((replacementTargets targets).map
      (fun target => (target.1, target.2.stopTarget now)))

theorem stopModelsForReplacement_busy {targets : List (Text × ServerState)}
    {target : Text × ServerState} (hmem : target ∈ targets) (h : target.2.busy = true)
    (now : Nat) : ∃ message, stopModelsForReplacement targets now = .error message := by
  unfold stopModelsForReplacement
  split
  · exact ⟨_, rfl⟩
  · rename_i hnone
    have hsorted : target ∈ replacementTargets targets := List.mem_mergeSort.mpr hmem
    exact absurd h (List.find?_eq_none.mp hnone target hsorted)

end AioLM
