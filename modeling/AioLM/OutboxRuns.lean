import AioLM.Outbox
import AioLM.Runs

/-!
The outbox under any interleaving of the windows that share it: what becomes of a
row, who may change its outcome, and when its acceptance is acknowledged.
-/

set_option autoImplicit false

namespace AioLM.Outbox

open Fallible Runs

structure Flight where
  id : Text
  destination : Text
  entry : QueuedBenchmark
  token : Text

/-- The shared store and what the windows are in the middle of: rows they read, claims
they got, failures to be written, callbacks running. `settled` are the tokens whose
settlement was committed, `resolved` the entries `onAccepted` was done for. -/
structure World where
  rows : KeyMap Text QueuedBenchmark
  cooldowns : KeyMap Text Time := .empty
  clock : Time := 0
  measuring : Bool := false
  tokens : List Text := []
  dispatching : List (Text × Text) := []
  flights : List Flight := []
  failures : List Failure := []
  settled : List Text := []
  copies : List QueuedBenchmark := []
  acknowledging : List QueuedBenchmark := []
  resolved : List QueuedBenchmark := []

/-- The next step of some window; what it goes on with is given by its place. -/
inductive Action where
  | measure (active : Bool)
  | enqueue (request : BenchmarkPublicationRequest) (options : PublicationEnqueueOptions)
      (now : Time)
  | retry (id : Text)
  | read (id : Text)
  | dispatch (id destination : Text) (aborted : Bool) (now : Time)
  | claim (place : Nat) (token : Text) (aborted : Bool) (reads : ClaimReads)
  | succeed (place : Nat) (receipt : BenchmarkReceipt)
  | fail (place : Nat) (error : Thrown) (random : Rat) (now : Time)
  | settleFailure (place : Nat)
  | acknowledge (place : Nat)
  | accepted (place : Nat)
  | commitAcknowledgement (place : Nat) (now : Time)
  | deferAcknowledgement (place : Nat) (now : Time)
  | prune (place : Nat)

def ClaimReads.After (reads : ClaimReads) (clock : Time) : Prop :=
  clock ≤ reads.due ∧ reads.due ≤ reads.lease ∧ reads.lease ≤ reads.untilAt ∧
    reads.untilAt ≤ reads.nextAt

instance (reads : ClaimReads) (clock : Time) : Decidable (reads.After clock) :=
  inferInstanceAs (Decidable (_ ∧ _))

section Step

variable (w : World)

def World.mutate (id : Text) (update : Option QueuedBenchmark → Option QueuedBenchmark) : World :=
  { w with rows := Outbox.mutate w.rows id update }

def cooling (destination : Text) (now : Time) : Bool :=
  decide (now < (w.cooldowns.get destination).getD 0)

def dispatchStep (id destination : Text) (aborted : Bool) (now : Time) : World :=
  if w.measuring || aborted || cooling w destination now then { w with clock := now }
  else { w with clock := now, dispatching := (id, destination) :: w.dispatching }

def claimStep (id destination token : Text) (aborted : Bool) (reads : ClaimReads) : World :=
  let rows := Outbox.mutate w.rows id (claimForDestination w.measuring aborted destination token reads)
  { w with
    rows := rows
    clock := reads.nextAt
    tokens := token :: w.tokens
    flights :=
      match rows.get id with
      | some entry =>
        if entry.leaseToken = some token then ⟨id, destination, entry, token⟩ :: w.flights
        else w.flights
      | none => w.flights }

/-- The committed row is what `acknowledge` is called with. -/
def succeedStep (flight : Flight) (receipt : BenchmarkReceipt) : World :=
  let rows := Outbox.mutate w.rows flight.id (settleSuccess flight.token receipt)
  { w with
    rows := rows
    settled := if holdsLease flight.token (w.rows.get flight.id) then flight.token :: w.settled
      else w.settled
    copies := if holdsLease flight.token (w.rows.get flight.id) then
        (rows.get flight.id).toList ++ w.copies
      else w.copies }

def failStep (flight : Flight) (error : Thrown) (random : Rat) (now : Time) : World :=
  let failure := failureOf flight.id flight.token flight.destination flight.entry.attempts error
    random now
  { w with
    clock := now
    failures := failure :: w.failures
    cooldowns :=
      if failure.cooling then
        w.cooldowns.alter failure.destination fun held => max (held.getD 0) failure.nextAttemptAt
      else w.cooldowns }

def settleFailureStep (failure : Failure) : World :=
  { w with
    rows := Outbox.mutate w.rows failure.id (Outbox.settleFailure failure)
    settled := if holdsLease failure.token (w.rows.get failure.id) then failure.token :: w.settled
      else w.settled }

end Step

/-- One step of one window. What was read may be stale when it is used. -/
def step (contracts : Contracts) (w : World) : Action → Option World
  | .measure active => some { w with measuring := active }
  | .enqueue request options now =>
    if w.clock ≤ now then
      match enqueuePublication contracts w.rows request options now with
      | .ok rows => some { w with rows := rows, clock := now }
      | .error _ => some { w with clock := now }
    else none
  | .retry id => some (w.mutate id Outbox.retry)
  | .read id => some { w with copies := (w.rows.get id).toList ++ w.copies }
  | .dispatch id destination aborted now =>
    if w.clock ≤ now then some (dispatchStep w id destination aborted now) else none
  | .claim place token aborted reads => do
    let (id, destination) ← w.dispatching[place]?
    if token ∉ w.tokens ∧ reads.After w.clock then
      some (claimStep w id destination token aborted reads)
    else none
  | .succeed place receipt => w.flights[place]?.map fun flight => succeedStep w flight receipt
  | .fail place error random now => do
    let flight ← w.flights[place]?
    if w.clock ≤ now then some (failStep w flight error random now) else none
  | .settleFailure place => w.failures[place]?.map (settleFailureStep w)
  | .acknowledge place => do
    let entry ← w.copies[place]?
    if needsAcknowledgement entry && !w.measuring then
      some { w with acknowledging := entry :: w.acknowledging }
    else none
  | .accepted place => w.acknowledging[place]?.map fun entry =>
      { w with resolved := entry :: w.resolved }
  | .commitAcknowledgement place now => do
    let entry ← w.resolved[place]?
    if w.clock ≤ now then
      some { w.mutate entry.id (Outbox.commitAcknowledgement entry now) with clock := now }
    else none
  | .deferAcknowledgement place now => do
    let entry ← w.acknowledging[place]?
    if w.clock ≤ now then
      some { w.mutate entry.id (Outbox.deferAcknowledgement entry now) with clock := now }
    else none
  | .prune place => do
    let candidate ← w.copies[place]?
    if w.measuring then none
    else some (w.mutate candidate.id (pruneAcknowledged candidate))

/-- The step writes the outcome of an attempt under the token. -/
def Settles (w : World) (a : Action) (id token : Text) : Prop :=
  (∃ place flight receipt, a = .succeed place receipt ∧ w.flights[place]? = some flight ∧
    flight.id = id ∧ flight.token = token) ∨
  ∃ place failure, a = .settleFailure place ∧ w.failures[place]? = some failure ∧
    failure.id = id ∧ failure.token = token

/-- Everything a step can do to one row. -/
inductive Update (contracts : Contracts) (w : World) (a : Action) (w' : World) (id : Text) :
    Option QueuedBenchmark → Option QueuedBenchmark → Prop
  | same (row : Option QueuedBenchmark) : Update contracts w a w' id row row
  | created (normalized : BenchmarkPublicationRequest) (body : Text)
      (options : PublicationEnqueueOptions) (now : Time) :
      Update contracts w a w' id none (some (enqueueNew id normalized body options now))
  | again {row row' : QueuedBenchmark} {body : Text} {options : PublicationEnqueueOptions} :
      enqueueAgain body options row = .ok row' → Update contracts w a w' id (some row) (some row')
  | legacy {row row' : QueuedBenchmark} {normalized : BenchmarkPublicationRequest} {body : Text}
      {options : PublicationEnqueueOptions} : row.requestBody = none →
      enqueueLegacy contracts normalized body options row = .ok row' →
      Update contracts w a w' id (some row) (some row')
  | retried {row : QueuedBenchmark} : a = .retry id → row.state = .rejected →
      isTerminalEntry row = false → Update contracts w a w' id (some row) (some (retriedRow row))
  | claimed {row : QueuedBenchmark} {destination token : Text} {aborted : Bool}
      {reads : ClaimReads} : mayClaim w.measuring aborted destination reads row = true →
      token ∉ w.tokens → token ∈ w'.tokens → reads.After w.clock → w'.clock = reads.nextAt →
      w'.flights = ⟨id, destination, claimed destination token reads row, token⟩ :: w.flights →
      Update contracts w a w' id (some row) (some (claimed destination token reads row))
  | succeeded {row : QueuedBenchmark} {token : Text} (receipt : BenchmarkReceipt) :
      row.leaseToken = some token → Settles w a id token → token ∈ w'.settled →
      Update contracts w a w' id (some row) (some (sentRow receipt row))
  | failed {row : QueuedBenchmark} {failure : Failure} : failure ∈ w.failures →
      row.leaseToken = some failure.token → Settles w a id failure.token →
      failure.token ∈ w'.settled →
      Update contracts w a w' id (some row) (some (failedRow failure row))
  | acknowledged {row entry : QueuedBenchmark} (now : Time) : entry ∈ w.resolved →
      sameAcceptance (some row) entry = true →
      Update contracts w a w' id (some row) (some (acknowledgedRow now row))
  | deferred {row entry : QueuedBenchmark} (now : Time) : sameAcceptance (some row) entry = true →
      Update contracts w a w' id (some row) (some (deferredRow now row))
  | pruned {row candidate : QueuedBenchmark} : prunable candidate row = true →
      Update contracts w a w' id (some row) none

section Steps

variable {contracts : Contracts} {w w' : World} {a : Action} {id : Text}

theorem holdsLease_eq_true {token : Text} {current : Option QueuedBenchmark} :
    holdsLease token current = true ↔ ∃ row, current = some row ∧ row.leaseToken = some token := by
  cases current <;> simp [holdsLease]

theorem sameAcceptance_isSome {current : Option QueuedBenchmark} {expected : QueuedBenchmark}
    (h : sameAcceptance current expected = true) : ∃ row, current = some row := by
  cases current with
  | none => cases h
  | some row => exact ⟨row, rfl⟩

theorem enqueuePublication_ok {rows rows' : KeyMap Text QueuedBenchmark}
    {request : BenchmarkPublicationRequest} {options : PublicationEnqueueOptions} {now : Time}
    (h : enqueuePublication contracts rows request options now = .ok rows') :
    ∃ normalized body row, contracts.normalizePublicationInput request = .ok normalized ∧
      enqueueRow contracts normalized body options now
        (rows.get (submissionId normalized.benchmark)) = .ok row ∧
      rows' = rows.insert (submissionId normalized.benchmark) row := by
  simp only [enqueuePublication, bind_eq_ok, pure, Except.pure, Except.ok.injEq] at h
  obtain ⟨normalized, hnormalized, body, -, -, -, row, hrow, hrows⟩ := h
  exact ⟨normalized, body, row, hnormalized, hrow, hrows.symm⟩

theorem update_enqueue {rows' : KeyMap Text QueuedBenchmark}
    {request : BenchmarkPublicationRequest} {options : PublicationEnqueueOptions} {now : Time}
    (h : enqueuePublication contracts w.rows request options now = .ok rows') (id : Text) :
    Update contracts w a w' id (w.rows.get id) (rows'.get id) := by
  obtain ⟨normalized, body, row, -, hrow, rfl⟩ := enqueuePublication_ok h
  rw [KeyMap.get_insert]
  by_cases hid : id = submissionId normalized.benchmark
  · rw [if_pos hid]
    subst hid
    cases hold : w.rows.get (submissionId normalized.benchmark) with
    | none =>
      simp only [enqueueRow, hold, Except.ok.injEq] at hrow
      rw [← hrow]
      exact .created normalized body options now
    | some old =>
      simp only [enqueueRow, hold] at hrow
      split at hrow
      · exact .again hrow
      · rename_i hnone
        exact .legacy (by simpa using hnone) hrow
  · rw [if_neg hid]
    exact .same _

theorem update_mutate {update : Option QueuedBenchmark → Option QueuedBenchmark} {k : Text}
    (hrows : w'.rows = mutate w.rows k update)
    (h : id = k → Update contracts w a w' id (w.rows.get id) (update (w.rows.get id))) :
    Update contracts w a w' id (w.rows.get id) (w'.rows.get id) := by
  rw [hrows, get_mutate]
  by_cases hid : id = k
  · rw [if_pos hid, ← hid]
    exact h hid
  · rw [if_neg hid]
    exact .same _

theorem update_claim {destination token : Text} {aborted : Bool}
    {reads : ClaimReads} (hfresh : token ∉ w.tokens) (hafter : reads.After w.clock) {k : Text} :
    Update contracts w a (claimStep w k destination token aborted reads) id (w.rows.get id)
      ((claimStep w k destination token aborted reads).rows.get id) := by
  refine update_mutate rfl fun hid => ?_
  subst hid
  cases hrow : w.rows.get id with
  | none => exact .same _
  | some row =>
    simp only [claimForDestination, Option.map_some]
    split
    · rename_i hmay
      refine .claimed hmay hfresh List.mem_cons_self hafter rfl ?_
      simp only [claimStep, get_mutate, if_true, hrow, claimForDestination, Option.map_some, if_pos hmay]
      exact if_pos rfl
    · exact .same _

theorem step_update (h : step contracts w a = some w') (id : Text) :
    Update contracts w a w' id (w.rows.get id) (w'.rows.get id) := by
  cases a with
  | measure active =>
    cases h
    exact .same _
  | enqueue request options now =>
    simp only [step] at h
    split at h
    · split at h
      · rename_i rows hrows
        cases h
        exact update_enqueue hrows id
      · cases h
        exact .same _
    · cases h
  | retry k =>
    cases h
    refine update_mutate rfl fun hid => ?_
    cases w.rows.get id with
    | none => exact .same _
    | some row =>
      simp only [retry, Option.map_some]
      split
      · exact .same _
      · rename_i hopen
        simp only [Bool.or_eq_true, bne_iff_ne, not_or, Decidable.not_not,
          Bool.not_eq_true] at hopen
        exact .retried (by rw [hid]) hopen.1 hopen.2
  | read k =>
    cases h
    exact .same _
  | dispatch k destination aborted now =>
    simp only [step] at h
    split at h
    · cases h
      unfold dispatchStep
      split <;> exact .same _
    · cases h
  | claim place token aborted reads =>
    simp only [step, Option.bind_eq_bind, Option.bind_eq_some_iff] at h
    obtain ⟨⟨k, destination⟩, -, h⟩ := h
    split at h
    · rename_i hguard
      cases h
      exact update_claim hguard.1 hguard.2
    · cases h
  | succeed place receipt =>
    obtain ⟨flight, hflight, rfl⟩ := Option.map_eq_some_iff.mp h
    refine update_mutate rfl fun hid => ?_
    unfold settleSuccess updateLeased
    split
    · rename_i hheld
      obtain ⟨row, hrow, htoken⟩ := holdsLease_eq_true.mp hheld
      rw [hrow]
      refine .succeeded receipt htoken (.inl ⟨place, flight, receipt, rfl, hflight, hid.symm, rfl⟩) ?_
      simp only [succeedStep, ← hid, hheld, if_true]
      exact List.mem_cons_self
    · exact .same _
  | fail place error random now =>
    simp only [step, Option.bind_eq_bind, Option.bind_eq_some_iff] at h
    obtain ⟨flight, -, h⟩ := h
    split at h
    · cases h
      exact .same _
    · cases h
  | settleFailure place =>
    obtain ⟨failure, hfailure, rfl⟩ := Option.map_eq_some_iff.mp h
    refine update_mutate rfl fun hid => ?_
    unfold Outbox.settleFailure updateLeased
    split
    · rename_i hheld
      obtain ⟨row, hrow, htoken⟩ := holdsLease_eq_true.mp hheld
      rw [hrow]
      refine .failed (List.mem_of_getElem? hfailure) htoken
        (.inr ⟨place, failure, rfl, hfailure, hid.symm, rfl⟩) ?_
      simp only [settleFailureStep, ← hid, hheld, if_true]
      exact List.mem_cons_self
    · exact .same _
  | acknowledge place =>
    simp only [step, Option.bind_eq_bind, Option.bind_eq_some_iff] at h
    obtain ⟨entry, -, h⟩ := h
    split at h
    · cases h
      exact .same _
    · cases h
  | accepted place =>
    obtain ⟨entry, -, rfl⟩ := Option.map_eq_some_iff.mp h
    exact .same _
  | commitAcknowledgement place now =>
    simp only [step, Option.bind_eq_bind, Option.bind_eq_some_iff] at h
    obtain ⟨entry, hentry, h⟩ := h
    split at h
    · cases h
      refine update_mutate rfl fun hid => ?_
      unfold commitAcknowledgement updateAcceptance
      split
      · rename_i hsame
        obtain ⟨row, hrow⟩ := sameAcceptance_isSome hsame
        rw [hrow] at hsame ⊢
        exact .acknowledged now (List.mem_of_getElem? hentry) hsame
      · exact .same _
    · cases h
  | deferAcknowledgement place now =>
    simp only [step, Option.bind_eq_bind, Option.bind_eq_some_iff] at h
    obtain ⟨entry, hentry, h⟩ := h
    split at h
    · cases h
      refine update_mutate rfl fun hid => ?_
      unfold deferAcknowledgement updateAcceptance
      split
      · rename_i hsame
        obtain ⟨row, hrow⟩ := sameAcceptance_isSome hsame
        rw [hrow] at hsame ⊢
        exact .deferred now hsame
      · exact .same _
    · cases h
  | prune place =>
    simp only [step, Option.bind_eq_bind, Option.bind_eq_some_iff] at h
    obtain ⟨candidate, hcandidate, h⟩ := h
    split at h
    · cases h
    · cases h
      refine update_mutate rfl fun hid => ?_
      cases w.rows.get id with
      | none => exact .same _
      | some row =>
        cases hprune : prunable candidate row with
        | true =>
          rw [pruneAcknowledged, Option.filter_some, hprune]
          exact .pruned hprune
        | false =>
          rw [pruneAcknowledged, Option.filter_some, hprune]
          exact .same _

end Steps

/-- What holds of a row between the steps. -/
structure Admissible (row : QueuedBenchmark) : Prop where
  leased : row.leaseToken.isSome → row.state = .sending
  terminal : isTerminalEntry row = true → row.state = .rejected
  reconcile : needsAcknowledgement row = true → row.localReconcileAt.isSome

/-- What a row never takes back. -/
structure Kept (row row' : QueuedBenchmark) : Prop where
  body : ∀ body, row.requestBody = some body →
    row'.requestBody = some body ∧ row'.payload = row.payload
  sent : row.state = .sent → row'.state = .sent ∧ row'.receipt = row.receipt
  terminal : isTerminalEntry row = true → isTerminalEntry row' = true

theorem Kept.refl (row : QueuedBenchmark) : Kept row row :=
  ⟨fun _ h => ⟨h, rfl⟩, fun h => ⟨h, rfl⟩, id⟩

theorem Kept.trans {row row' row'' : QueuedBenchmark} (h : Kept row row') (h' : Kept row' row'') :
    Kept row row'' where
  body body hbody := by
    obtain ⟨hsame, hpayload⟩ := h.body body hbody
    obtain ⟨hsame', hpayload'⟩ := h'.body body hsame
    exact ⟨hsame', hpayload'.trans hpayload⟩
  sent hsent := by
    obtain ⟨hsame, hreceipt⟩ := h.sent hsent
    obtain ⟨hsame', hreceipt'⟩ := h'.sent hsame
    exact ⟨hsame', hreceipt'.trans hreceipt⟩
  terminal hterminal := h'.terminal (h.terminal hterminal)

theorem Admissible.not_leased {row : QueuedBenchmark} (h : Admissible row)
    (hstate : row.state ≠ .sending) : row.leaseToken = none := by
  cases htoken : row.leaseToken with
  | none => rfl
  | some token => exact absurd (h.leased (by rw [htoken]; rfl)) hstate

/-- The fields of the attempt and its outcome are as they were. -/
structure Untouched (row row' : QueuedBenchmark) : Prop where
  state : row'.state = row.state
  receipt : row'.receipt = row.receipt
  error : row'.error = row.error
  leaseToken : row'.leaseToken = row.leaseToken
  leaseUntil : row'.leaseUntil = row.leaseUntil
  localAcknowledgedAt : row'.localAcknowledgedAt = row.localAcknowledgedAt

theorem isTerminalEntry_congr {row row' : QueuedBenchmark} (h : row'.error = row.error) :
    isTerminalEntry row' = isTerminalEntry row := by
  rw [isTerminalEntry, isTerminalEntry, h]

theorem Untouched.admissible {row row' : QueuedBenchmark} (h : Untouched row row')
    (hrow : Admissible row)
    (hreconcile : needsAcknowledgement row' = true → row'.localReconcileAt.isSome) :
    Admissible row' where
  leased htoken := by
    rw [h.leaseToken] at htoken
    rw [h.state, hrow.leased htoken]
  terminal hterminal := by
    rw [isTerminalEntry_congr h.error] at hterminal
    rw [h.state, hrow.terminal hterminal]
  reconcile := hreconcile

section Rows

variable {contracts : Contracts} {row row' : QueuedBenchmark} {body : Text}
  {options : PublicationEnqueueOptions}

theorem needsAcknowledgement_iff : needsAcknowledgement row = true ↔
    row.state = .sent ∧ row.source.isSome ∧ row.receipt.isSome ∧ row.localAcknowledgedAt = none := by
  simp [needsAcknowledgement, and_assoc]

/-- A second publication binds what is missing, and asks for the acknowledgement when it
links a row that was sent. -/
theorem enqueueAgain_ok (h : enqueueAgain body options row = .ok row') :
    Untouched row row' ∧ row'.requestBody = row.requestBody ∧ row'.payload = row.payload ∧
      (Admissible row → Admissible row') := by
  simp only [enqueueAgain, bind_eq_ok, require_eq_ok, pure, Except.pure, Except.ok.injEq] at h
  obtain ⟨-, -, -, -, -, -, -, -, -, -, hrow'⟩ := h
  have huntouched : Untouched row row' := by
    rw [← hrow']
    exact ⟨rfl, rfl, rfl, rfl, rfl, rfl⟩
  refine ⟨huntouched, by rw [← hrow'], by rw [← hrow'], fun hrow => ?_⟩
  refine huntouched.admissible hrow fun hneeds => ?_
  obtain ⟨hsent, hsource, hreceipt, hnone⟩ := needsAcknowledgement_iff.mp hneeds
  rw [huntouched.state] at hsent
  rw [huntouched.receipt] at hreceipt
  rw [huntouched.localAcknowledgedAt] at hnone
  rw [← hrow'] at hsource ⊢
  cases hold : row.source with
  | some source =>
    have hneeded := hrow.reconcile (needsAcknowledgement_iff.mpr
      ⟨hsent, by rw [hold]; rfl, hreceipt, hnone⟩)
    simpa [hold] using hneeded
  | none =>
    have hlinked : options.source.isSome = true := by simpa [hold] using hsource
    cases row.localReconcileAt <;> simp [hlinked, hsent, hreceipt, hnone]

theorem enqueueLegacy_ok {normalized : BenchmarkPublicationRequest}
    (h : enqueueLegacy contracts normalized body options row = .ok row') :
    Untouched row row' ∧ row.state ≠ .sending ∧ row.state ≠ .sent := by
  simp only [enqueueLegacy, bind_eq_ok, require_eq_ok, pure, Except.pure, Except.ok.injEq] at h
  obtain ⟨-, hfresh, -, -, -, -, rfl⟩ := h
  simp only [Bool.and_eq_true, bne_iff_ne, beq_iff_eq] at hfresh
  exact ⟨⟨rfl, rfl, rfl, rfl, rfl, rfl⟩, hfresh.1.2, hfresh.2⟩

theorem mayClaim_iff {measuring aborted : Bool} {destination : Text} {reads : ClaimReads}
    (h : mayClaim measuring aborted destination reads row = true) :
    measuring = false ∧ row.state ≠ .sent ∧ row.state ≠ .rejected ∧
      (row.state = .sending → row.leaseUntil.getD 0 ≤ reads.lease) := by
  simp only [mayClaim, Bool.and_eq_true, Bool.not_eq_true', bne_iff_ne, Bool.and_eq_false_iff,
    beq_eq_false_iff_ne, decide_eq_false_iff_not, not_lt] at h
  obtain ⟨⟨⟨⟨⟨⟨⟨hmeasuring, -⟩, hsent⟩, hrejected⟩, -⟩, hlease⟩, -⟩, -⟩ := h
  exact ⟨hmeasuring, hsent, hrejected, fun hsending => hlease.resolve_left fun hne => hne hsending⟩

theorem sameAcceptance_iff {entry : QueuedBenchmark} : sameAcceptance (some row) entry = true ↔
    needsAcknowledgement row = true ∧ row.source.map (·.runId) = entry.source.map (·.runId) ∧
      row.destination = entry.destination ∧ row.receipt.map (·.id) = entry.receipt.map (·.id) ∧
      row.receipt.map (·.submissionId) = entry.receipt.map (·.submissionId) := by
  simp [sameAcceptance, sameReceipt, and_assoc]

theorem prunable_sent {candidate : QueuedBenchmark} (h : prunable candidate row = true) :
    row.state = .sent ∧ row.localAcknowledgedAt.isSome := by
  simp only [prunable, Bool.and_eq_true, beq_iff_eq] at h
  exact ⟨h.1.1.1.1.1.1.1.1.2, h.1.1.1.1.1.2⟩

structure Failure.Sound (failure : Failure) : Prop where
  rejected : ∀ row, isTerminalEntry (failedRow failure row) = true → failure.state = .rejected
  unsent : failure.state ≠ .sent

theorem failureOf_sound (id token destination : Text) (attempts : Nat) (error : Thrown)
    (random : Rat) (now : Time) :
    (failureOf id token destination attempts error random now).Sound where
  rejected row h := by
    have hterminal : failureTerminal error = true := h
    simp only [failureOf, hterminal, if_true]
  unsent := by
    simp only [failureOf]
    split
    · exact nofun
    · split <;> exact nofun

end Rows

/-- The lease of a claim is unexpired and was not settled. -/
def Live (w : World) (flight : Flight) : Prop :=
  flight.token ∉ w.settled ∧ w.clock < flight.entry.leaseUntil.getD 0

/-- The row is leased to this claim. -/
def Holds (w : World) (flight : Flight) : Prop :=
  ∃ row, w.rows.get flight.id = some row ∧ row.leaseToken = some flight.token ∧
    row.leaseUntil = flight.entry.leaseUntil

structure Inv (w : World) : Prop where
  admissible : ∀ id row, w.rows.get id = some row → Admissible row
  drawn : ∀ id row token, w.rows.get id = some row → row.leaseToken = some token → token ∈ w.tokens
  failures : ∀ failure ∈ w.failures, failure.Sound
  tokens : ∀ flight ∈ w.flights, flight.token ∈ w.tokens
  distinct : (w.flights.map (·.token)).Nodup
  held : ∀ flight ∈ w.flights, Live w flight → Holds w flight

def Claims (w w' : World) (flight : Flight) : Prop := w'.flights = flight :: w.flights

structure Claimed (w w' : World) (flight : Flight) : Prop where
  fresh : flight.token ∉ w.tokens
  drawn : flight.token ∈ w'.tokens
  row : ∃ row aborted reads, w.rows.get flight.id = some row ∧
    mayClaim w.measuring aborted flight.destination reads row = true ∧
    reads.After w.clock ∧ w'.clock = reads.nextAt ∧
    flight.entry = claimed flight.destination flight.token reads row ∧
    w'.rows.get flight.id = some flight.entry

/-- What a step does beside the rows. -/
structure Frame (w w' : World) : Prop where
  clock : w.clock ≤ w'.clock
  tokens : ∀ token ∈ w.tokens, token ∈ w'.tokens
  settled : ∀ token ∈ w.settled, token ∈ w'.settled
  failures : ∀ failure ∈ w'.failures, failure ∈ w.failures ∨ failure.Sound
  flights : w'.flights = w.flights ∨ ∃ flight, Claims w w' flight ∧ Claimed w w' flight

section Steps

variable {contracts : Contracts} {w w' : World} {a : Action} {id : Text}

theorem Frame.of_eq (hclock : w.clock ≤ w'.clock) (htokens : w'.tokens = w.tokens)
    (hsettled : ∀ token ∈ w.settled, token ∈ w'.settled) (hfailures : w'.failures = w.failures)
    (hflights : w'.flights = w.flights) : Frame w w' :=
  ⟨hclock, fun _ h => htokens ▸ h, hsettled, fun _ h => .inl (hfailures ▸ h), .inl hflights⟩

theorem frame_claim (hinv : Inv w) {destination token : Text} {aborted : Bool}
    {reads : ClaimReads} (hfresh : token ∉ w.tokens) (hafter : reads.After w.clock) {k : Text} :
    Frame w (claimStep w k destination token aborted reads) where
  clock := by
    obtain ⟨hdue, hlease, huntil, hnext⟩ := hafter
    exact hdue.trans (hlease.trans (huntil.trans hnext))
  tokens _ h := List.mem_cons_of_mem _ h
  settled _ h := h
  failures _ h := .inl h
  flights := by
    cases hrow : w.rows.get k with
    | none =>
      refine .inl ?_
      simp only [claimStep, get_mutate, if_true, hrow, claimForDestination, Option.map_none]
    | some row =>
      have hnew : (claimStep w k destination token aborted reads).rows.get k =
          some (if mayClaim w.measuring aborted destination reads row then
            claimed destination token reads row else row) := by
        simp only [claimStep, get_mutate, if_true, hrow, claimForDestination, Option.map_some]
      have hflights : (claimStep w k destination token aborted reads).flights =
          if (if mayClaim w.measuring aborted destination reads row then
              claimed destination token reads row else row).leaseToken = some token then
            ⟨k, destination, if mayClaim w.measuring aborted destination reads row then
              claimed destination token reads row else row, token⟩ :: w.flights
          else w.flights := by
        simp only [claimStep, get_mutate, if_true, hrow, claimForDestination, Option.map_some]
      by_cases hmay : mayClaim w.measuring aborted destination reads row = true
      · simp only [if_pos hmay] at hnew hflights
        refine .inr ⟨_, hflights.trans (if_pos rfl), hfresh, List.mem_cons_self, ?_⟩
        exact ⟨row, aborted, reads, hrow, hmay, hafter, rfl, rfl, hnew⟩
      · -- a row left as it is cannot carry a token that is new
        simp only [if_neg hmay] at hflights
        refine .inl (hflights.trans (if_neg fun htoken => ?_))
        exact hfresh (hinv.drawn k row token hrow htoken)

theorem step_frame (hinv : Inv w) (h : step contracts w a = some w') : Frame w w' := by
  cases a with
  | measure active =>
    cases h
    exact .of_eq le_rfl rfl (fun _ h => h) rfl rfl
  | enqueue request options now =>
    simp only [step] at h
    split at h
    · rename_i hclock
      split at h <;> cases h <;> exact .of_eq hclock rfl (fun _ h => h) rfl rfl
    · cases h
  | retry k =>
    cases h
    exact .of_eq le_rfl rfl (fun _ h => h) rfl rfl
  | read k =>
    cases h
    exact .of_eq le_rfl rfl (fun _ h => h) rfl rfl
  | dispatch k destination aborted now =>
    simp only [step] at h
    split at h
    · rename_i hclock
      cases h
      unfold dispatchStep
      split <;> exact .of_eq hclock rfl (fun _ h => h) rfl rfl
    · cases h
  | claim place token aborted reads =>
    simp only [step, Option.bind_eq_bind, Option.bind_eq_some_iff] at h
    obtain ⟨⟨k, destination⟩, -, h⟩ := h
    split at h
    · rename_i hguard
      cases h
      exact frame_claim hinv hguard.1 hguard.2
    · cases h
  | succeed place receipt =>
    obtain ⟨flight, hflight, rfl⟩ := Option.map_eq_some_iff.mp h
    refine .of_eq le_rfl rfl (fun token htoken => ?_) rfl rfl
    simp only [succeedStep]
    split
    · exact List.mem_cons_of_mem _ htoken
    · exact htoken
  | fail place error random now =>
    simp only [step, Option.bind_eq_bind, Option.bind_eq_some_iff] at h
    obtain ⟨flight, -, h⟩ := h
    split at h
    · rename_i hclock
      cases h
      refine ⟨hclock, fun _ h => h, fun _ h => h, fun failure hfailure => ?_, .inl rfl⟩
      rcases List.mem_cons.mp hfailure with rfl | hold
      · exact .inr (failureOf_sound _ _ _ _ _ _ _)
      · exact .inl hold
    · cases h
  | settleFailure place =>
    obtain ⟨failure, hfailure, rfl⟩ := Option.map_eq_some_iff.mp h
    refine .of_eq le_rfl rfl (fun token htoken => ?_) rfl rfl
    simp only [settleFailureStep]
    split
    · exact List.mem_cons_of_mem _ htoken
    · exact htoken
  | acknowledge place =>
    simp only [step, Option.bind_eq_bind, Option.bind_eq_some_iff] at h
    obtain ⟨entry, -, h⟩ := h
    split at h
    · cases h
      exact .of_eq le_rfl rfl (fun _ h => h) rfl rfl
    · cases h
  | accepted place =>
    obtain ⟨entry, -, rfl⟩ := Option.map_eq_some_iff.mp h
    exact .of_eq le_rfl rfl (fun _ h => h) rfl rfl
  | commitAcknowledgement place now =>
    simp only [step, Option.bind_eq_bind, Option.bind_eq_some_iff] at h
    obtain ⟨entry, -, h⟩ := h
    split at h
    · rename_i hclock
      cases h
      exact .of_eq hclock rfl (fun _ h => h) rfl rfl
    · cases h
  | deferAcknowledgement place now =>
    simp only [step, Option.bind_eq_bind, Option.bind_eq_some_iff] at h
    obtain ⟨entry, -, h⟩ := h
    split at h
    · rename_i hclock
      cases h
      exact .of_eq hclock rfl (fun _ h => h) rfl rfl
    · cases h
  | prune place =>
    simp only [step, Option.bind_eq_bind, Option.bind_eq_some_iff] at h
    obtain ⟨candidate, -, h⟩ := h
    split at h
    · cases h
    · cases h
      exact .of_eq le_rfl rfl (fun _ h => h) rfl rfl

end Steps

namespace Update

variable {contracts : Contracts} {w w' : World} {a : Action} {id : Text}
  {row row' : QueuedBenchmark}

theorem kept (h : Update contracts w a w' id (some row) (some row')) (hrow : Admissible row) :
    Kept row row' := by
  cases h with
  | same => exact Kept.refl row
  | again hagain =>
    obtain ⟨hsame, hbody, hpayload, -⟩ := enqueueAgain_ok hagain
    refine ⟨fun body h => ⟨hbody.trans h, hpayload⟩, fun h => ⟨hsame.state.trans h, hsame.receipt⟩, ?_⟩
    rw [isTerminalEntry_congr hsame.error]
    exact fun h => h
  | legacy hnone hlegacy =>
    obtain ⟨hsame, -, hsent⟩ := enqueueLegacy_ok hlegacy
    refine ⟨fun body h => ?_, fun h => absurd h hsent, ?_⟩
    · rw [hnone] at h
      cases h
    · rw [isTerminalEntry_congr hsame.error]
      exact fun h => h
  | retried _ hstate hopen =>
    refine ⟨fun body h => ⟨h, rfl⟩, fun h => ?_, fun h => ?_⟩
    · rw [hstate] at h
      cases h
    · rw [hopen] at h
      cases h
  | claimed hmay _ _ _ _ _ =>
    exact ⟨fun body h => ⟨h, rfl⟩, fun h => absurd h (mayClaim_iff hmay).2.1, fun h => h⟩
  | succeeded receipt htoken _ _ =>
    have hsending := hrow.leased (by rw [htoken]; rfl)
    refine ⟨fun body h => ⟨h, rfl⟩, fun h => ?_, fun h => ?_⟩
    · rw [hsending] at h
      cases h
    · have hrejected := hrow.terminal h
      rw [hsending] at hrejected
      cases hrejected
  | failed _ htoken _ _ =>
    have hsending := hrow.leased (by rw [htoken]; rfl)
    refine ⟨fun body h => ⟨h, rfl⟩, fun h => ?_, fun h => ?_⟩
    · rw [hsending] at h
      cases h
    · have hrejected := hrow.terminal h
      rw [hsending] at hrejected
      cases hrejected
  | acknowledged now _ _ => exact ⟨fun body h => ⟨h, rfl⟩, fun h => ⟨h, rfl⟩, fun h => h⟩
  | deferred now _ => exact ⟨fun body h => ⟨h, rfl⟩, fun h => ⟨h, rfl⟩, fun h => h⟩

theorem admissible {old : Option QueuedBenchmark} (h : Update contracts w a w' id old (some row'))
    (hinv : Inv w) (hold : w.rows.get id = old) : Admissible row' := by
  have hrow {row : QueuedBenchmark} (hsome : old = some row) : Admissible row :=
    hinv.admissible id row (hold.trans hsome)
  cases h with
  | same => exact hrow rfl
  | created normalized body options now => exact ⟨nofun, nofun, nofun⟩
  | again hagain => exact (enqueueAgain_ok hagain).2.2.2 (hrow rfl)
  | legacy hnone hlegacy =>
    obtain ⟨hsame, -, hsent⟩ := enqueueLegacy_ok hlegacy
    refine hsame.admissible (hrow rfl) fun hneeds => ?_
    exact absurd (hsame.state.symm.trans (needsAcknowledgement_iff.mp hneeds).1) hsent
  | retried _ hstate hopen =>
    refine ⟨fun htoken => ?_, nofun, nofun⟩
    have hnone := (hrow rfl).not_leased (by rw [hstate]; exact nofun)
    rw [show (retriedRow _).leaseToken = none from hnone] at htoken
    cases htoken
  | claimed hmay _ _ _ _ _ =>
    refine ⟨fun _ => rfl, fun h => ?_, nofun⟩
    exact absurd ((hrow rfl).terminal h) (mayClaim_iff hmay).2.2.1
  | succeeded receipt htoken _ _ =>
    refine ⟨nofun, nofun, fun hneeds => ?_⟩
    obtain ⟨-, hsource, -, hnone⟩ := needsAcknowledgement_iff.mp hneeds
    simp only [sentRow] at hsource hnone ⊢
    rw [if_pos (by rw [hsource, hnone]; rfl)]
    rfl
  | failed hmem htoken _ _ =>
    have hsound := hinv.failures _ hmem
    refine ⟨nofun, fun h => hsound.rejected _ h, fun hneeds => ?_⟩
    exact absurd (needsAcknowledgement_iff.mp hneeds).1 hsound.unsent
  | acknowledged now _ _ =>
    have hadmissible := hrow rfl
    refine ⟨hadmissible.leased, hadmissible.terminal, fun hneeds => ?_⟩
    cases (needsAcknowledgement_iff.mp hneeds).2.2.2
  | deferred now _ =>
    have hadmissible := hrow rfl
    exact ⟨hadmissible.leased, hadmissible.terminal, fun _ => rfl⟩

theorem drawn {old : Option QueuedBenchmark} (h : Update contracts w a w' id old (some row'))
    (hinv : Inv w) (hframe : Frame w w') (hold : w.rows.get id = old) {token : Text}
    (htoken : row'.leaseToken = some token) : token ∈ w'.tokens := by
  have hrow {row : QueuedBenchmark} (hsome : old = some row) (h : row.leaseToken = some token) :
      token ∈ w'.tokens := hframe.tokens _ (hinv.drawn id row token (hold.trans hsome) h)
  cases h with
  | same => exact hrow rfl htoken
  | created normalized body options now => cases htoken
  | again hagain =>
    exact hrow rfl ((enqueueAgain_ok hagain).1.leaseToken.symm.trans htoken)
  | legacy hnone hlegacy =>
    exact hrow rfl ((enqueueLegacy_ok hlegacy).1.leaseToken.symm.trans htoken)
  | retried _ hstate hopen => exact hrow rfl htoken
  | claimed _ _ hdrawn _ _ _ =>
    cases htoken
    exact hdrawn
  | succeeded receipt _ _ _ => cases htoken
  | failed _ _ _ _ => cases htoken
  | acknowledged now _ _ => exact hrow rfl htoken
  | deferred now _ => exact hrow rfl htoken

theorem holds {flight : Flight} (h : Update contracts w a w' flight.id (some row) (w'.rows.get flight.id))
    (hrow : Admissible row) (htoken : row.leaseToken = some flight.token)
    (huntil : row.leaseUntil = flight.entry.leaseUntil) (hlive : Live w' flight) :
    Holds w' flight := by
  have hsending := hrow.leased (by rw [htoken]; rfl)
  generalize hnew : w'.rows.get flight.id = new at h
  cases h with
  | same => exact ⟨row, hnew, htoken, huntil⟩
  | again hagain =>
    obtain ⟨hsame, -⟩ := enqueueAgain_ok hagain
    exact ⟨_, hnew, hsame.leaseToken.trans htoken, hsame.leaseUntil.trans huntil⟩
  | legacy hnone hlegacy => exact absurd hsending (enqueueLegacy_ok hlegacy).2.1
  | retried _ hstate hopen =>
    rw [hstate] at hsending
    cases hsending
  | claimed hmay _ _ hafter hclock _ =>
    -- the new claim was got once this lease had run out
    have hexpired := (mayClaim_iff hmay).2.2.2 hsending
    have hnow := hlive.2
    rw [huntil] at hexpired
    rw [hclock] at hnow
    exact absurd (hexpired.trans (hafter.2.2.1.trans hafter.2.2.2)) (not_le.mpr hnow)
  | succeeded receipt hother _ hsettled =>
    rw [htoken] at hother
    cases hother
    exact absurd hsettled hlive.1
  | failed _ hother _ hsettled =>
    rw [htoken] at hother
    exact absurd (Option.some.inj hother ▸ hsettled) hlive.1
  | acknowledged now _ hsame =>
    rw [(needsAcknowledgement_iff.mp (sameAcceptance_iff.mp hsame).1).1] at hsending
    cases hsending
  | deferred now hsame =>
    rw [(needsAcknowledgement_iff.mp (sameAcceptance_iff.mp hsame).1).1] at hsending
    cases hsending
  | pruned hprune =>
    rw [(prunable_sent hprune).1] at hsending
    cases hsending

end Update

section Steps

variable {contracts : Contracts} {w w' : World} {a : Action} {id : Text}

theorem Inv.next (hinv : Inv w) (h : step contracts w a = some w') : Inv w' := by
  have hframe := step_frame hinv h
  have hupdate := step_update h
  have hold : ∀ flight ∈ w.flights, Live w' flight → Holds w' flight := by
    intro flight hflight hlive
    obtain ⟨row, hrow, htoken, huntil⟩ := hinv.held flight hflight
      ⟨fun hsettled => hlive.1 (hframe.settled _ hsettled), lt_of_le_of_lt hframe.clock hlive.2⟩
    have hchange := hupdate flight.id
    rw [hrow] at hchange
    exact hchange.holds (hinv.admissible _ _ hrow) htoken huntil hlive
  constructor
  · intro id row hrow
    have hchange := hupdate id
    rw [hrow] at hchange
    exact hchange.admissible hinv rfl
  · intro id row token hrow htoken
    have hchange := hupdate id
    rw [hrow] at hchange
    exact hchange.drawn hinv hframe rfl htoken
  · intro failure hfailure
    exact (hframe.failures failure hfailure).elim (hinv.failures failure) fun h => h
  · rcases hframe.flights with hsame | ⟨flight, hclaims, hclaimed⟩
    · rw [hsame]
      exact fun flight hflight => hframe.tokens _ (hinv.tokens flight hflight)
    · rw [show w'.flights = flight :: w.flights from hclaims]
      exact List.forall_mem_cons.mpr ⟨hclaimed.drawn,
        fun other hother => hframe.tokens _ (hinv.tokens other hother)⟩
  · rcases hframe.flights with hsame | ⟨flight, hclaims, hclaimed⟩
    · rw [hsame]
      exact hinv.distinct
    · rw [show w'.flights = flight :: w.flights from hclaims, List.map_cons, List.nodup_cons]
      refine ⟨fun hmem => ?_, hinv.distinct⟩
      obtain ⟨other, hother, hsame⟩ := List.mem_map.mp hmem
      exact hclaimed.fresh (hsame ▸ hinv.tokens other hother)
  · rcases hframe.flights with hsame | ⟨flight, hclaims, hclaimed⟩
    · rw [hsame]
      exact hold
    · rw [show w'.flights = flight :: w.flights from hclaims]
      refine List.forall_mem_cons.mpr ⟨fun _ => ?_, hold⟩
      obtain ⟨row, aborted, reads, -, -, -, -, hentry, hnew⟩ := hclaimed.row
      exact ⟨flight.entry, hnew, by rw [hentry]; rfl, rfl⟩

end Steps

/-- Rows as a store may be opened with, none at all or those of earlier versions, and the
tokens they are leased under. -/
structure Stored (rows : KeyMap Text QueuedBenchmark) (tokens : List Text) : Prop where
  admissible : ∀ id row, rows.get id = some row → Admissible row
  drawn : ∀ id row token, rows.get id = some row → row.leaseToken = some token → token ∈ tokens

theorem Stored.empty : Stored .empty [] := by
  constructor
  · intro id row h
    cases h
  · intro id row token h
    cases h

/-- What holds of the store whenever a window looks at it. -/
structure Consistent (w : World) : Prop where
  reconcile : ∀ id row, w.rows.get id = some row → row.state = .sent → row.source.isSome →
    row.receipt.isSome → row.localAcknowledgedAt = none → row.localReconcileAt.isSome
  exclusive : ∀ flight ∈ w.flights, ∀ other ∈ w.flights, flight.id = other.id →
    Live w flight → Live w other → flight = other
  holder : ∀ flight ∈ w.flights, Live w flight → Holds w flight

structure StepSafe (w : World) (a : Action) (w' : World) : Prop where
  outcome : ∀ id row row', w.rows.get id = some row → w'.rows.get id = some row' →
    row'.state ≠ row.state ∨ row'.error ≠ row.error ∨ row'.receipt ≠ row.receipt →
      (∃ token, row.leaseToken = some token ∧ Settles w a id token) ∨
      (∃ flight, Claims w w' flight ∧ flight.id = id ∧ row'.state = .sending ∧
        row'.error = row.error ∧ row'.receipt = row.receipt) ∨
      (a = .retry id ∧ row.state = .rejected ∧ row.leaseToken = none ∧
        row'.state = .pending ∧ row'.receipt = row.receipt)
  claim : ∀ flight, Claims w w' flight → w.measuring = false ∧ ∃ row,
    w.rows.get flight.id = some row ∧ row.state ≠ .sent ∧ isTerminalEntry row = false ∧
      (row.leaseToken.isSome → row.leaseUntil.getD 0 ≤ w'.clock)
  acknowledged : ∀ id row row', w.rows.get id = some row → w'.rows.get id = some row' →
    row.localAcknowledgedAt ≠ row'.localAcknowledgedAt → row.localAcknowledgedAt = none ∧
      ∃ entry ∈ w.resolved, row'.source.map (·.runId) = entry.source.map (·.runId) ∧
        row'.destination = entry.destination ∧
        row'.receipt.map (·.id) = entry.receipt.map (·.id) ∧
        row'.receipt.map (·.submissionId) = entry.receipt.map (·.submissionId)
  removed : ∀ id row, w.rows.get id = some row → w'.rows.get id = none →
    row.state = .sent ∧ row.localAcknowledgedAt.isSome

def Stays (contracts : Contracts) (id : Text) (w : World) (a : Action) : Prop :=
  ∀ w', step contracts w a = some w' → (w'.rows.get id).isSome

section Runs

variable {contracts : Contracts} {w w' : World} {a : Action}

theorem Inv.start {rows : KeyMap Text QueuedBenchmark} {tokens : List Text}
    (h : Stored rows tokens) (clock : Time) :
    Inv { rows := rows, tokens := tokens, clock := clock } where
  admissible := h.admissible
  drawn := h.drawn
  failures _ hfailure := by cases hfailure
  tokens _ hflight := by cases hflight
  distinct := .nil
  held _ hflight := by cases hflight

theorem Inv.reached {rows : KeyMap Text QueuedBenchmark} {tokens : List Text} {clock : Time}
    (h : Stored rows tokens) (hrun : Reaches (step contracts) (fun _ _ => True)
      { rows := rows, tokens := tokens, clock := clock } w) : Inv w :=
  hrun.invariant (Inv.start h clock) fun _ _ _ hinv _ hstep => hinv.next hstep

theorem Inv.consistent (h : Inv w) : Consistent w where
  reconcile id row hrow hsent hsource hreceipt hnone :=
    (h.admissible id row hrow).reconcile
      (needsAcknowledgement_iff.mpr ⟨hsent, hsource, hreceipt, hnone⟩)
  exclusive flight hflight other hother hid hlive hlive' := by
    obtain ⟨row, hrow, htoken, -⟩ := h.held flight hflight hlive
    obtain ⟨row', hrow', htoken', -⟩ := h.held other hother hlive'
    rw [← hid, hrow] at hrow'
    cases hrow'
    rw [htoken] at htoken'
    exact List.inj_on_of_nodup_map h.distinct hflight hother (Option.some.inj htoken')
  holder := h.held

theorem Inv.claim (hinv : Inv w) (h : step contracts w a = some w') {flight : Flight}
    (hclaims : Claims w w' flight) : w.measuring = false ∧ ∃ row,
      w.rows.get flight.id = some row ∧ row.state ≠ .sent ∧ isTerminalEntry row = false ∧
        (row.leaseToken.isSome → row.leaseUntil.getD 0 ≤ w'.clock) := by
  rcases (step_frame hinv h).flights with hsame | ⟨other, hclaims', hclaimed⟩
  · have hlength := congrArg List.length (hsame.symm.trans hclaims)
    simp at hlength
  · obtain rfl : flight = other := (List.cons.inj (hclaims.symm.trans hclaims')).1
    obtain ⟨row, aborted, reads, hrow, hmay, hafter, hclock, -⟩ := hclaimed.row
    obtain ⟨hmeasuring, hsent, hrejected, hlease⟩ := mayClaim_iff hmay
    have hadmissible := hinv.admissible _ _ hrow
    refine ⟨hmeasuring, row, hrow, hsent, ?_, fun htoken => ?_⟩
    · cases hterminal : isTerminalEntry row with
      | true => exact absurd (hadmissible.terminal hterminal) hrejected
      | false => rfl
    · rw [hclock]
      exact (hlease (hadmissible.leased htoken)).trans (hafter.2.2.1.trans hafter.2.2.2)

theorem Inv.stepSafe (hinv : Inv w) (h : step contracts w a = some w') : StepSafe w a w' where
  outcome id row row' hrow hrow' hchanged := by
    have hchange := step_update h id
    rw [hrow, hrow'] at hchange
    cases hchange with
    | same => simp at hchanged
    | again hagain =>
      obtain ⟨hsame, -⟩ := enqueueAgain_ok hagain
      simp [hsame.state, hsame.error, hsame.receipt] at hchanged
    | legacy hnone hlegacy =>
      obtain ⟨hsame, -⟩ := enqueueLegacy_ok hlegacy
      simp [hsame.state, hsame.error, hsame.receipt] at hchanged
    | retried ha hstate hopen =>
      have hnone := (hinv.admissible id row hrow).not_leased (by rw [hstate]; exact nofun)
      exact .inr (.inr ⟨ha, hstate, hnone, rfl, rfl⟩)
    | claimed _ _ _ _ _ hflights => exact .inr (.inl ⟨_, hflights, rfl, rfl, rfl, rfl⟩)
    | succeeded receipt htoken hsettles _ => exact .inl ⟨_, htoken, hsettles⟩
    | failed _ htoken hsettles _ => exact .inl ⟨_, htoken, hsettles⟩
    | acknowledged now _ _ => simp [acknowledgedRow] at hchanged
    | deferred now _ => simp [deferredRow] at hchanged
  claim _ hclaims := hinv.claim h hclaims
  acknowledged id row row' hrow hrow' hchanged := by
    have hchange := step_update h id
    rw [hrow, hrow'] at hchange
    cases hchange with
    | same => exact absurd rfl hchanged
    | again hagain => exact absurd (enqueueAgain_ok hagain).1.localAcknowledgedAt.symm hchanged
    | legacy hnone hlegacy =>
      exact absurd (enqueueLegacy_ok hlegacy).1.localAcknowledgedAt.symm hchanged
    | retried _ _ _ => exact absurd rfl hchanged
    | claimed _ _ _ _ _ _ => exact absurd rfl hchanged
    | succeeded receipt _ _ _ => exact absurd rfl hchanged
    | failed _ _ _ _ => exact absurd rfl hchanged
    | acknowledged now hmem hsame =>
      obtain ⟨hneeds, hrun, hdestination, hreceipt, hsubmission⟩ := sameAcceptance_iff.mp hsame
      exact ⟨(needsAcknowledgement_iff.mp hneeds).2.2.2, _, hmem, hrun, hdestination, hreceipt,
        hsubmission⟩
    | deferred now _ => exact absurd rfl hchanged
  removed id row hrow hnone := by
    have hchange := step_update h id
    rw [hrow, hnone] at hchange
    cases hchange with
    | pruned hprune => exact prunable_sent hprune

theorem Inv.kept (hinv : Inv w) {id : Text} {row : QueuedBenchmark} (hrow : w.rows.get id = some row)
    (hrun : Reaches (step contracts) (Stays contracts id) w w') :
    Inv w' ∧ ∃ row', w'.rows.get id = some row' ∧ Kept row row' := by
  have hkeep : ∀ u u' b, (Inv u ∧ ∃ row', u.rows.get id = some row' ∧ Kept row row') →
      Stays contracts id u b → step contracts u b = some u' →
      Inv u' ∧ ∃ row', u'.rows.get id = some row' ∧ Kept row row' := by
    intro u u' b ⟨hu, row', hrow', hkept⟩ hstays hstep
    obtain ⟨row'', hrow''⟩ := Option.isSome_iff_exists.mp (hstays u' hstep)
    have hchange := step_update hstep id
    rw [hrow', hrow''] at hchange
    exact ⟨hu.next hstep, row'', hrow'', hkept.trans (hchange.kept (hu.admissible id row' hrow'))⟩
  exact hrun.invariant ⟨hinv, row, hrow, Kept.refl row⟩ hkeep

/-- Whatever the windows do: every state is consistent, every step is safe, and what a
row was it stays, a row that is sent or rejected for good being claimed no more. -/
theorem outbox_safe {rows : KeyMap Text QueuedBenchmark} {tokens : List Text} {clock : Time}
    (hstored : Stored rows tokens) (hrun : Reaches (step contracts) (fun _ _ => True)
      { rows := rows, tokens := tokens, clock := clock } w) :
    Consistent w ∧ (∀ a w', step contracts w a = some w' → StepSafe w a w') ∧
      ∀ id row w' row', w.rows.get id = some row →
        Reaches (step contracts) (Stays contracts id) w w' → w'.rows.get id = some row' →
          Kept row row' ∧ (row.state = .sent ∨ isTerminalEntry row = true →
            ∀ a w'' flight, step contracts w' a = some w'' → Claims w' w'' flight →
              flight.id ≠ id) := by
  have hinv := Inv.reached hstored hrun
  refine ⟨hinv.consistent, fun a w' hstep => hinv.stepSafe hstep, ?_⟩
  intro id row w' row' hrow hafter hrow'
  obtain ⟨hinv', found, hfound, hkept⟩ := hinv.kept hrow hafter
  obtain rfl : found = row' := Option.some.inj (hfound.symm.trans hrow')
  refine ⟨hkept, fun hdone a w'' flight hstep hclaims hid => ?_⟩
  obtain ⟨-, current, hcurrent, hsent, hopen, -⟩ := hinv'.claim hstep hclaims
  rw [hid, hrow'] at hcurrent
  cases hcurrent
  rcases hdone with hdone | hdone
  · exact hsent (hkept.sent hdone).1
  · rw [hkept.terminal hdone] at hopen
    cases hopen

end Runs

def sampleContracts : Contracts := ⟨.ok, fun _ => .ok "{}".toList, fun _ => []⟩

def sampleRequest : BenchmarkPublicationRequest :=
  ⟨.object [("submission_id".toList, .text "s")], []⟩

def samplePublication : List Action :=
  [.enqueue sampleRequest { source := some ⟨"run".toList⟩ } 1,
    .dispatch "s".toList "d".toList false 1, .claim 0 "t".toList false ⟨1, 1, 1, 1⟩,
    .succeed 0 ⟨"s".toList, "r".toList, none⟩]

theorem outbox_safe_published : ∃ w row,
    run (step sampleContracts) { rows := .empty } samplePublication = some w ∧
      w.rows.get "s".toList = some row ∧ row.state = .sent ∧ row.localReconcileAt.isSome := by
  obtain ⟨w, hw⟩ : ∃ w, run (step sampleContracts) { rows := .empty } samplePublication = some w :=
    Option.isSome_iff_exists.mp (by decide +kernel)
  have hrow : ((run (step sampleContracts) { rows := .empty } samplePublication).bind
      fun w => w.rows.get "s".toList).any (fun row => row.state == .sent && row.source.isSome &&
        row.receipt.isSome && row.localAcknowledgedAt.isNone) = true := by
    decide +kernel
  rw [hw, Option.bind_some] at hrow
  obtain ⟨row, hget, hfields⟩ := (Option.any_eq_true _ _).mp hrow
  simp only [Bool.and_eq_true, beq_iff_eq, Option.isNone_iff_eq_none] at hfields
  obtain ⟨⟨⟨hsent, hsource⟩, hreceipt⟩, hnone⟩ := hfields
  have hsafe := outbox_safe Stored.empty (.of_run samplePublication (fun _ _ _ => trivial) hw)
  exact ⟨w, row, hw, hget, hsent, hsafe.1.reconcile _ row hget hsent hsource hreceipt hnone⟩

end AioLM.Outbox
