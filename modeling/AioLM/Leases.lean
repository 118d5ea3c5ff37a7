import AioLM.Routing
import AioLM.Runs

/-!
Request leases on one session. The session is shared by launch futures, stops,
crash detection, gateway leases taken on possibly stale snapshots, and the
activity phases of the desktop chat; this file accounts for all of them.
-/

set_option autoImplicit false

namespace AioLM.Routing

structure Lease where
  upstream : Text
  key : Text
  deriving DecidableEq

/-- `Lease::begin`: the lease and the session that counts it. -/
def Lease.begin (c : Candidate) (s : ServerState) (now : Nat) : Option (Lease × ServerState) :=
  if s.lifecycle ≠ .ready ∨ s.apiKey ≠ c.key then none
  else some (⟨c.url, c.key⟩, s.beginRequest now)

def Lease.drop (l : Lease) (s : ServerState) (now : Nat) : ServerState :=
  if s.apiKey = l.key then s.endRequest now else s

/-- A live lease and the number of the launch it was taken on. -/
structure Held where
  lease : Lease
  launch : Nat
  deriving DecidableEq

/-- A launch future past its first block. It holds the operation lock. -/
structure Flight where
  generation : Nat
  attached : Bool

/-- One session with everyone who may act on it. `launches` counts the launches
begun, `issued` the keys they were given, and `ui` holds the open activity
phases with the launch that counted them, if any did. -/
structure Session where
  server : ServerState := {}
  flight : Option Flight := none
  launches : Nat := 0
  issued : List Text := []
  candidates : List Candidate := []
  leases : List Held := []
  ui : List (Option Nat) := []

inductive Action where
  | beginLaunch
  | attach (withdrawn : Bool) (spawned : Spawned) (now : Nat)
  | spawnFailed (exiting : Bool) (error : Text)
  | loseChild
  | launchReady (withdrawn : Bool) (saved : Int) (now : Nat)
  | launchFailed (exiting : Bool) (url error : Text)
  | dropGuard
  | stopTarget (now : Nat)
  | forget
  | shutdown
  | reap (probe : Probe) (tail : Text)
  | snapshot (sessionId : Text) (probe : Probe) (tail : Text)
  | lease (c : Candidate) (now : Nat)
  | dropLease (held : Held) (now : Nat)
  | uiStart (now : Nat)
  | uiTouch (now : Nat)
  | uiEnd (phase : Option Nat) (now : Nat)

namespace Session

/-- A launch future ends: its guard is dropped and the operation lock is free. -/
def land (s : Session) (server : ServerState) (generation : Nat) : Session :=
  { s with server := server.dropGuard generation, flight := none }

def onServer (s : Session) (result : Except Text ServerState) : ServerState :=
  match result with
  | .ok server => server
  | .error _ => s.server

/-- The launch that counts a phase started now. -/
def countedOn (s : Session) : Option Nat :=
  if s.server.lifecycle = .ready then some s.launches else none

/-- One atomic step; `none` when the step cannot be taken in this state. A
refused request leaves the session as it is. -/
def step (s : Session) : Action → Option Session
  | .beginLaunch =>
    match s.flight with
    | some _ => none
    | none =>
      match s.server.startOnTarget with
      | .error _ => some s
      | .ok server => some { s with
          server := server
          flight := some ⟨server.launchGeneration, false⟩
          launches := s.launches + 1 }
  | .attach withdrawn spawned now =>
    match s.flight with
    | some ⟨generation, false⟩ =>
      if spawned.apiKey = [] ∨ spawned.apiKey ∈ s.issued then none
      else
        match s.server.attachOnTarget generation withdrawn spawned now with
        | (server, true) => some { s with
            server := server
            flight := some ⟨generation, true⟩
            issued := spawned.apiKey :: s.issued }
        | (server, false) => some (s.land server generation)
    | _ => none
  | .spawnFailed exiting error =>
    match s.flight with
    | some ⟨generation, false⟩ =>
        some (s.land (s.server.spawnFailed generation exiting error) generation)
    | _ => none
  | .loseChild =>
    match s.flight with
    | some ⟨_, true⟩ => some { s with server := s.server.killChild }
    | _ => none
  | .launchReady withdrawn saved now =>
    match s.flight with
    | some ⟨generation, true⟩ =>
        some (s.land (s.server.readyOnTarget generation withdrawn saved now) generation)
    | _ => none
  | .launchFailed exiting url error =>
    match s.flight with
    | some ⟨generation, true⟩ =>
        some (s.land (s.server.failedOnTarget generation exiting url error) generation)
    | _ => none
  | .dropGuard =>
    match s.flight with
    | some ⟨generation, _⟩ => some (s.land s.server generation)
    | none => none
  | .stopTarget now => some { s with server := s.server.stopTarget now }
  | .forget => some { s with server := s.server.forget }
  | .shutdown => some { s with server := s.server.shutdown }
  | .reap probe tail => some { s with server := s.server.reapIfExited probe tail }
  | .snapshot sessionId probe tail =>
      let server := (Tracked.mk s.server probe tail).observe
      some { s with
        server := server
        candidates := (candidateOf sessionId server).toList ++ s.candidates }
  | .lease c now =>
    if c ∈ s.candidates then
      match Lease.begin c s.server now with
      | some (lease, server) => some { s with
          server := server
          leases := ⟨lease, s.launches⟩ :: s.leases }
      | none => some s
    else none
  | .dropLease held now =>
    if held ∈ s.leases then
      some { s with server := held.lease.drop s.server now, leases := s.leases.erase held }
    else none
  | .uiStart now => some { s with
      server := s.onServer (s.server.serverActivity "start".toList now)
      ui := s.countedOn :: s.ui }
  | .uiTouch now => some { s with
      server := s.onServer (s.server.serverActivity "touch".toList now) }
  | .uiEnd phase now =>
    if phase ∈ s.ui then
      some { s with
        server := s.onServer (s.server.serverActivity "end".toList now)
        ui := s.ui.erase phase }
    else none

def leased (s : Session) : Nat := s.leases.countP (fun held => held.lease.key = s.server.apiKey)

/-- Open phases that the current launch has counted. -/
def phases (s : Session) : Nat := s.ui.count (some s.launches)

end Session

end AioLM.Routing
