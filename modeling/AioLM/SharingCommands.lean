import AioLM.Runs
import AioLM.SharingPermits

/-!
The sharing commands over one table of permits: each acquisition of its lock by a
command, a cancel or a measurement start is one step, in any order.
-/

set_option autoImplicit false

namespace AioLM.Sharing

open Runs

/-- The work of a command that takes the lock. -/
inductive Stage where
  | ensureGenerationLive
  | ensureLive
  | abortableRequest
  | settlePoll (sessionId : Text)
  | livePermit

inductive Command where
  | prepare
  | beginVerification
  | pollVerification (sessionId : Text)
  | submit
  | recoveryExport
  | recoveryCopy
  | openManagement

def Command.stages : Command → List Stage
  | .prepare => [.ensureGenerationLive, .ensureLive]
  | .beginVerification =>
    [.ensureGenerationLive, .ensureLive, .abortableRequest, .ensureLive, .ensureLive,
      .ensureGenerationLive]
  | .pollVerification sessionId =>
    [.ensureGenerationLive, .ensureLive, .abortableRequest, .ensureLive, .settlePoll sessionId]
  | .submit =>
    [.ensureGenerationLive, .ensureLive, .livePermit, .abortableRequest, .ensureLive]
  | .recoveryExport => [.ensureGenerationLive, .ensureLive, .ensureLive, .ensureGenerationLive]
  | .recoveryCopy => [.ensureGenerationLive, .ensureLive, .ensureGenerationLive]
  | .openManagement =>
    [.ensureGenerationLive, .ensureLive, .abortableRequest, .ensureLive, .ensureGenerationLive]

@[ext] structure LiveGuard where
  epoch : Nat
  generation : Nat
  deriving DecidableEq

/-- Where a command is: `snapshot_live` reads the epoch and then the generation, and so
does `ensure_generation_live`, which clears the permit when one of them has moved on. -/
inductive Phase where
  | begun
  | epochRead
  | running
  | epochAgrees
  | clearing
  | awaiting (id abort : Nat)
  | ended
  deriving DecidableEq

/-- What the service says about an upload session. -/
structure PollOutcome where
  status : Text
  permit : Option Text

/-- A sharing command. `provider` is the command whose poll obtained the permit that
`live_permit` returned to this one. -/
structure Thread where
  submission : Text
  rest : List Stage
  live : LiveGuard := ⟨0, 0⟩
  phase : Phase := .begun
  outcome : PollOutcome := ⟨[], none⟩
  permit : Option Text := none
  provider : Option Nat := none

namespace Thread

def hasEpoch (t : Thread) : Bool := t.phase != .begun

/-- The snapshot is taken. -/
def hasGeneration (t : Thread) : Bool := t.phase != .begun && t.phase != .epochRead

def request (t : Thread) : Option (Nat × Nat) :=
  match t.phase with
  | .awaiting id abort => some (id, abort)
  | _ => none

end Thread

/-- How a request ends: with an answer, with an error, or aborted. -/
inductive Outcome where
  | answered (outcome : PollOutcome)
  | failed
  | aborted

inductive Action where
  | call (command : Command) (submissionId : Text)
  | advance (thread : Nat) (measurementActive : Bool) (now : Nat)
  | finish (thread : Nat) (outcome : Outcome)
  | fail (thread : Nat)
  | cancel (submissionId : Text)
  | measure

/-- The table, the commands in the order they were called, the abort handles made and
those aborted. `providers` has, by submission, the command whose poll obtained the
permit in the table; `revocations` counts cancels and measurement starts. -/
structure World where
  shared : Ephemeral := {}
  threads : List Thread := []
  handles : Nat := 0
  aborted : List Nat := []
  providers : KeyMap Text Nat := .empty
  revocations : Nat := 0

namespace World

def put (w : World) (i : Nat) (t : Thread) : World := { w with threads := w.threads.set i t }

def expired : Text := "expired".toList

def verified : Text := "verified".toList

def granted (outcome : PollOutcome) : Option Text :=
  if outcome.status = verified then outcome.permit.filter Ephemeral.storable else none

/-- The request is registered, or its command goes on to clear the permit. -/
def register (w : World) (i : Nat) (t : Thread) (rest : List Stage) : World :=
  match w.shared.trackRequestIfLive t.submission t.live.epoch t.live.generation w.handles with
  | none => { w with handles := w.handles + 1 }.put i { t with phase := .clearing }
  | some (id, shared, aborted) =>
    { w with
      shared := shared
      handles := w.handles + 1
      aborted := aborted ++ w.aborted }.put i
        { t with phase := .awaiting id w.handles, rest := rest }

/-- What a poll does with the outcome of its request. -/
def settle (w : World) (i : Nat) (t : Thread) (sessionId : Text) (rest : List Stage)
    (now : Nat) : World :=
  let w := w.put i { t with rest := rest }
  if t.outcome.status = expired then { w with shared := w.shared.clearPermit t.submission }
  else
    match granted t.outcome with
    | none => w
    | some permit =>
      { w with
        shared := w.shared.storePermit t.submission sessionId permit now
        providers := w.providers.insert t.submission i }

/-- The permit a submission is sent with. -/
def take (w : World) (i : Nat) (t : Thread) (rest : List Stage) (now : Nat) : World :=
  let returned := w.shared.livePermit t.submission now
  { w with shared := returned.2 }.put i
    { t with
      rest := rest
      permit := returned.1.map Prod.fst
      provider := returned.1.bind fun _ => w.providers.get t.submission }

/-- `ensure_generation_live` and `ensure_live` past the epoch. -/
def compare (w : World) (t : Thread) (measurementActive : Bool) : Thread :=
  match t.rest with
  | .ensureLive :: rest =>
    if w.shared.generation t.submission ≠ t.live.generation ∨ measurementActive = true then
      { t with phase := .clearing }
    else { t with phase := .running, rest := rest }
  | rest =>
    if w.shared.generation t.submission ≠ t.live.generation then { t with phase := .clearing }
    else { t with phase := .running, rest := rest.tail }

/-- The next acquisition of the lock by a command. -/
def advance (w : World) (i : Nat) (t : Thread) (measurementActive : Bool) (now : Nat) :
    Option World :=
  match t.phase with
  | .begun =>
    some (w.put i { t with
      live := ⟨w.shared.epoch, t.live.generation⟩
      phase := .epochRead })
  | .epochRead =>
    some (w.put i { t with
      live := ⟨t.live.epoch, w.shared.generation t.submission⟩
      phase := .running })
  | .running =>
    match t.rest with
    | [] => some (w.put i { t with phase := .ended })
    | .abortableRequest :: rest => some (w.register i t rest)
    | .settlePoll sessionId :: rest => some (w.settle i t sessionId rest now)
    | .livePermit :: rest => some (w.take i t rest now)
    | _ =>
      some (w.put i { t with
        phase := if w.shared.epoch ≠ t.live.epoch then .clearing else .epochAgrees })
  | .epochAgrees => some (w.put i (w.compare t measurementActive))
  | .clearing =>
    some ({ w with shared := w.shared.clearPermit t.submission }.put i { t with phase := .ended })
  | .awaiting _ _ => none
  | .ended => none

/-- What a command is after its request came back. -/
def returned (w : World) (t : Thread) (abort : Nat) : Outcome → Option Thread
  | .answered outcome => some { t with phase := .running, outcome := outcome }
  | .failed => some { t with phase := .ended }
  | .aborted => if abort ∈ w.aborted then some { t with phase := .clearing } else none

end World

/-- One step; `none` when it cannot be taken. -/
def step (w : World) : Action → Option World
  | .call command submissionId =>
    some { w with threads := w.threads ++ [{ submission := submissionId, rest := command.stages }] }
  | .advance i measurementActive now =>
    w.threads[i]?.bind fun t => w.advance i t measurementActive now
  | .finish i outcome =>
    w.threads[i]?.bind fun t => t.request.bind fun request =>
      (w.returned t request.2 outcome).map fun t' =>
        { w with shared := w.shared.untrackRequest t.submission request.1 }.put i t'
  | .fail i =>
    w.threads[i]?.bind fun t =>
      if t.phase = .running then some (w.put i { t with phase := .ended }) else none
  | .cancel submissionId =>
    let cancelled := w.shared.cancelSubmission submissionId
    some { w with
      shared := cancelled.1
      aborted := cancelled.2 ++ w.aborted
      revocations := w.revocations + 1 }
  | .measure =>
    let noted := w.shared.noteMeasurementStart
    some { w with
      shared := noted.1
      aborted := noted.2 ++ w.aborted
      revocations := w.revocations + 1 }

end AioLM.Sharing
