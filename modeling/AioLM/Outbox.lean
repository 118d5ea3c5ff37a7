import Mathlib.Algebra.Order.Ring.Rat
import AioLM.Fallible
import AioLM.JsonFields
import AioLM.KeyMap
import AioLM.TextBytes

/-!
The benchmark outbox: the rows the app windows share, and every update one of
them makes to a row in a single transaction.
-/

set_option autoImplicit false

namespace AioLM.Outbox

open Fallible

/-- Milliseconds. -/
abbrev Time := Rat

def leaseDuration : Time := 120000

inductive EntryState where
  | pending | sending | sent | rejected
  deriving DecidableEq

structure EntryError where
  code : Text
  status : Option Rat
  deriving DecidableEq

structure BenchmarkReceipt where
  submissionId : Text
  id : Text
  url : Option Text
  deriving DecidableEq

structure BenchmarkLocalSource where
  runId : Text
  deriving DecidableEq

inductive LocalCachePolicy where
  | acknowledgedV1
  deriving DecidableEq

structure QueuedBenchmark where
  id : Text
  payload : Json
  state : EntryState
  createdAt : Time
  attempts : Nat
  nextAttemptAt : Time
  destination : Option Text := none
  leaseToken : Option Text := none
  leaseUntil : Option Time := none
  error : Option EntryError := none
  receipt : Option BenchmarkReceipt := none
  source : Option BenchmarkLocalSource := none
  localAcknowledgedAt : Option Time := none
  localReconcileAt : Option Time := none
  localCachePolicy : Option LocalCachePolicy := none
  requestBody : Option Text := none
  bodySha256 : Option Text := none
  descriptionMd : Option Text := none
  credentialRef : Option Text := none
  origin : Option Text := none

structure BenchmarkPublicationRequest where
  benchmark : Json
  descriptionMd : Text

structure PublicationEnqueueOptions where
  source : Option BenchmarkLocalSource := none
  credentialRef : Option Text := none
  origin : Option Text := none
  bodySha256 : Option Text := none

/-- The contracts package: the checks on a publication, its exact text, and how a
number that is no integer is printed. -/
structure Contracts where
  normalizePublicationInput : BenchmarkPublicationRequest → Except Text BenchmarkPublicationRequest
  serializePublicationRequest : BenchmarkPublicationRequest → Except Text Text
  floatText : Float → Text

/-- An object lists its fields in key order, so the sorted text is the compact one. -/
def canonicalJson (contracts : Contracts) (value : Json) : Text :=
  Json.compact contracts.floatText value

def recoverableServiceErrors : List Text :=
  ["verification_required".toList, "ownership_missing".toList]

def terminalServiceErrors : List Text := ["submission_deleted".toList]

def isRecoverableServiceCode (code : Text) : Bool := recoverableServiceErrors.contains code

def isTerminalServiceCode (code : Text) : Bool := terminalServiceErrors.contains code

def submissionDeleted : Text := "submission_deleted".toList

structure HttpError where
  code : Text
  retryable : Bool := false
  status : Option Rat := none
  retryAfterMs : Option Rat := none

/-- What a transport threw, by the fields that are read: texts and finite numbers, and
the failure itself when it is one of the HTTP layer. -/
structure Thrown where
  failure : Option HttpError := none
  serviceCode : Option Text := none
  code : Option Text := none
  status : Option Rat := none
  retryAfterMs : Option Rat := none

def serviceCodeOf (error : Thrown) : Option Text :=
  match error.serviceCode with
  | some code => some code
  | none => error.code.filter fun code =>
      isRecoverableServiceCode code || isTerminalServiceCode code || code == submissionDeleted

/-- Terminal record state; a retry must not reopen it. -/
def isTerminalEntry (entry : QueuedBenchmark) : Bool :=
  entry.error.any fun error =>
    isTerminalServiceCode error.code || error.code == submissionDeleted ||
      error.status == some 410

def toHttpFailure (error : Thrown) : HttpError :=
  match error.failure with
  | some failure => failure
  | none =>
    { code := "network".toList
      retryable := true
      status := error.status.filter fun n => n.isInt && decide (100 ≤ n ∧ n ≤ 599)
      retryAfterMs := (error.retryAfterMs.filter fun n => decide (0 ≤ n)).map (min · 3600000) }

def stripSuffix (suffix t : Text) : Option Text :=
  (Text.stripPrefix suffix.reverse t.reverse).map List.reverse

def originOfDestination (destination : Text) : Option Text :=
  ((stripSuffix "/v1/benchmark-runs".toList destination).or
    (stripSuffix "/v1/benchmark-runs/".toList destination)).filter fun origin => !origin.isEmpty

def truthy (t : Option Text) : Option Text := t.filter fun t => !t.isEmpty

def needsAcknowledgement (entry : QueuedBenchmark) : Bool :=
  entry.state == .sent && entry.source.isSome && entry.receipt.isSome &&
    entry.localAcknowledgedAt.isNone

def sameReceipt (a b : QueuedBenchmark) : Bool :=
  a.receipt.map (·.id) == b.receipt.map (·.id) &&
    a.receipt.map (·.submissionId) == b.receipt.map (·.submissionId)

def sameAcceptance (current : Option QueuedBenchmark) (expected : QueuedBenchmark) : Bool :=
  match current with
  | some current =>
    needsAcknowledgement current &&
      current.source.map (·.runId) == expected.source.map (·.runId) &&
      current.destination == expected.destination && sameReceipt current expected
  | none => false

def updateAcceptance (expected : QueuedBenchmark) (update : QueuedBenchmark → QueuedBenchmark)
    (current : Option QueuedBenchmark) : Option QueuedBenchmark :=
  if sameAcceptance current expected then current.map update else current

def acknowledgedRow (now : Time) (row : QueuedBenchmark) : QueuedBenchmark :=
  { row with localAcknowledgedAt := some now, localReconcileAt := none }

def deferredRow (now : Time) (row : QueuedBenchmark) : QueuedBenchmark :=
  { row with localReconcileAt := some (now + 1000) }

def commitAcknowledgement (expected : QueuedBenchmark) (now : Time) :
    Option QueuedBenchmark → Option QueuedBenchmark :=
  updateAcceptance expected (acknowledgedRow now)

def deferAcknowledgement (expected : QueuedBenchmark) (now : Time) :
    Option QueuedBenchmark → Option QueuedBenchmark :=
  updateAcceptance expected (deferredRow now)

/-- The row is still the acknowledged submission that was listed. -/
def prunable (candidate current : QueuedBenchmark) : Bool :=
  current.localCachePolicy == some .acknowledgedV1 && current.state == .sent &&
    current.source.isSome && current.receipt.isSome && current.localAcknowledgedAt.isSome &&
    current.localAcknowledgedAt == candidate.localAcknowledgedAt &&
    current.createdAt == candidate.createdAt &&
    current.source.map (·.runId) == candidate.source.map (·.runId) &&
    current.destination == candidate.destination && sameReceipt current candidate

def pruneAcknowledged (candidate : QueuedBenchmark) (current : Option QueuedBenchmark) :
    Option QueuedBenchmark :=
  current.filter fun row => !prunable candidate row

/-- The clock as one claim reads it, a comparison or a stamp after the other. -/
structure ClaimReads where
  due : Time
  lease : Time
  untilAt : Time
  nextAt : Time

/-- A claim is refused while a measurement runs, for a row that is done or not due, under
a lease that has not run out, and for another destination or origin. -/
def mayClaim (measuring aborted : Bool) (destination : Text) (reads : ClaimReads)
    (entry : QueuedBenchmark) : Bool :=
  !measuring && !aborted && entry.state != .sent && entry.state != .rejected &&
    decide (entry.nextAttemptAt ≤ reads.due) &&
    !(entry.state == .sending && decide (reads.lease < entry.leaseUntil.getD 0)) &&
    (truthy entry.destination).all (· == destination) &&
    ((truthy entry.destination).isSome || entry.origin.all fun origin =>
      (originOfDestination destination).all (· == origin))

def claimed (destination token : Text) (reads : ClaimReads) (entry : QueuedBenchmark) :
    QueuedBenchmark :=
  { entry with
    state := .sending
    destination := some destination
    leaseToken := some token
    leaseUntil := some (reads.untilAt + leaseDuration)
    nextAttemptAt := reads.nextAt + leaseDuration
    attempts := entry.attempts + 1
    origin := entry.origin.or (originOfDestination destination) }

def claimForDestination (measuring aborted : Bool) (destination token : Text)
    (reads : ClaimReads) (current : Option QueuedBenchmark) : Option QueuedBenchmark :=
  current.map fun entry =>
    if mayClaim measuring aborted destination reads entry then
      claimed destination token reads entry
    else entry

def holdsLease (token : Text) (current : Option QueuedBenchmark) : Bool :=
  current.any fun entry => entry.leaseToken == some token

def updateLeased (token : Text) (update : QueuedBenchmark → QueuedBenchmark)
    (current : Option QueuedBenchmark) : Option QueuedBenchmark :=
  if holdsLease token current then current.map update else current

def sentRow (receipt : BenchmarkReceipt) (entry : QueuedBenchmark) : QueuedBenchmark :=
  { entry with
    state := .sent
    receipt := some receipt
    error := none
    leaseToken := none
    leaseUntil := none
    localReconcileAt :=
      if entry.source.isSome && entry.localAcknowledgedAt.isNone then some 0
      else entry.localReconcileAt }

def settleSuccess (token : Text) (receipt : BenchmarkReceipt) :
    Option QueuedBenchmark → Option QueuedBenchmark :=
  updateLeased token (sentRow receipt)

/-- What a failed attempt comes to, worked out before the row is written. -/
structure Failure where
  id : Text
  token : Text
  destination : Text
  state : EntryState
  nextAttemptAt : Time
  error : EntryError
  cooling : Bool

def failureCode (error : Thrown) : Text := (serviceCodeOf error).getD (toHttpFailure error).code

def failureTerminal (error : Thrown) : Bool :=
  isTerminalServiceCode (failureCode error) || failureCode error == submissionDeleted ||
    (toHttpFailure error).status == some 410

def backoff (attempts : Nat) (random : Rat) : Time :=
  min 300000 (1000 * 2 ^ min (attempts - 1) 8) * (3 / 4 + random / 2)

def failureOf (id token destination : Text) (attempts : Nat) (error : Thrown) (random : Rat)
    (now : Time) : Failure :=
  let failure := toHttpFailure error
  let recoverableBlock := isRecoverableServiceCode (failureCode error)
  let terminal := failureTerminal error
  let interrupted := failure.code == "aborted".toList
  { id := id
    token := token
    destination := destination
    state :=
      if terminal then .rejected
      else if interrupted || failure.retryable || recoverableBlock then .pending
      else .rejected
    nextAttemptAt :=
      if recoverableBlock && !terminal then now
      else now + (if interrupted then 1000
        else max (backoff attempts random) (failure.retryAfterMs.getD 0))
    error := ⟨failureCode error, failure.status⟩
    cooling := failure.retryable && !recoverableBlock && !terminal }

def failedRow (failure : Failure) (entry : QueuedBenchmark) : QueuedBenchmark :=
  { entry with
    state := failure.state
    nextAttemptAt := failure.nextAttemptAt
    error := some failure.error
    leaseToken := none
    leaseUntil := none }

def settleFailure (failure : Failure) : Option QueuedBenchmark → Option QueuedBenchmark :=
  updateLeased failure.token (failedRow failure)

def retriedRow (entry : QueuedBenchmark) : QueuedBenchmark :=
  { entry with state := .pending, nextAttemptAt := 0, error := none }

def retry (current : Option QueuedBenchmark) : Option QueuedBenchmark :=
  current.map fun entry =>
    if entry.state != .rejected || isTerminalEntry entry then entry else retriedRow entry

def utf16Len (t : Text) : Nat := (t.map fun c => if c.toNat < 0x10000 then 1 else 2).sum

def checkOptions (options : PublicationEnqueueOptions) : Except Text Unit := do
  require (options.source.all fun source =>
      !source.runId.isEmpty && decide (source.runId.utf8Len ≤ 128))
    "Invalid local benchmark source.".toList
  require (options.credentialRef.all fun reference =>
      !reference.isEmpty && decide (utf16Len reference ≤ 256))
    "Invalid publication credential reference.".toList

/-- Two bindings that are both there and differ. -/
def clash {α : Type} [DecidableEq α] (a b : Option α) : Bool := a.isSome && b.isSome && a != b

def enqueueAgain (body : Text) (options : PublicationEnqueueOptions) (current : QueuedBenchmark) :
    Except Text QueuedBenchmark := do
  require (current.requestBody == some body)
    "This submission ID already belongs to a different reviewed payload.".toList
  require (!clash options.credentialRef current.credentialRef)
    "This submission is already bound to a different credential.".toList
  require (!clash options.origin current.origin)
    "This submission is already bound to a different destination.".toList
  require (!clash options.bodySha256 current.bodySha256)
    "This submission is already bound to a different body hash.".toList
  require (!clash options.source current.source)
    "This submission ID already belongs to a different local benchmark.".toList
  let links := options.source.isSome && current.source.isNone
  return { current with
    credentialRef := current.credentialRef.or options.credentialRef
    origin := current.origin.or options.origin
    bodySha256 := current.bodySha256.or options.bodySha256
    source := current.source.or options.source
    localCachePolicy :=
      if links then current.localCachePolicy.or (some .acknowledgedV1)
      else current.localCachePolicy
    localReconcileAt :=
      if links && current.state == .sent && current.receipt.isSome &&
          current.localAcknowledgedAt.isNone then current.localReconcileAt.or (some 0)
      else current.localReconcileAt }

/-- A row without frozen bytes takes them, unless it was attempted. -/
def enqueueLegacy (contracts : Contracts) (normalized : BenchmarkPublicationRequest) (body : Text)
    (options : PublicationEnqueueOptions) (current : QueuedBenchmark) :
    Except Text QueuedBenchmark := do
  require (current.attempts == 0 && current.state != .sending && current.state != .sent)
    ("This submission was already attempted as a legacy request and cannot be rewrapped " ++
      "automatically.").toList
  require (canonicalJson contracts current.payload == canonicalJson contracts normalized.benchmark)
    "This submission ID already belongs to a different reviewed payload.".toList
  require (!clash options.source current.source)
    "This submission ID already belongs to a different local benchmark.".toList
  let links := options.source.isSome && current.source.isNone
  return { current with
    payload := normalized.benchmark
    requestBody := some body
    bodySha256 := (truthy options.bodySha256).or current.bodySha256
    descriptionMd := (truthy (some normalized.descriptionMd)).or current.descriptionMd
    credentialRef := (truthy options.credentialRef).or current.credentialRef
    origin := (truthy options.origin).or current.origin
    source := current.source.or options.source
    localCachePolicy := if links then some .acknowledgedV1 else current.localCachePolicy }

def enqueueNew (id : Text) (normalized : BenchmarkPublicationRequest) (body : Text)
    (options : PublicationEnqueueOptions) (now : Time) : QueuedBenchmark where
  id := id
  payload := normalized.benchmark
  state := .pending
  createdAt := now
  attempts := 0
  nextAttemptAt := 0
  requestBody := some body
  bodySha256 := truthy options.bodySha256
  descriptionMd := truthy (some normalized.descriptionMd)
  credentialRef := truthy options.credentialRef
  origin := truthy options.origin
  source := options.source
  localCachePolicy := if options.source.isSome then some .acknowledgedV1 else none

def submissionId (benchmark : Json) : Text :=
  ((benchmark.get "submission_id").bind Json.asStr).getD []

def enqueueRow (contracts : Contracts) (normalized : BenchmarkPublicationRequest) (body : Text)
    (options : PublicationEnqueueOptions) (now : Time) (current : Option QueuedBenchmark) :
    Except Text QueuedBenchmark :=
  match current with
  | some current =>
    if current.requestBody.isSome then enqueueAgain body options current
    else enqueueLegacy contracts normalized body options current
  | none => .ok (enqueueNew (submissionId normalized.benchmark) normalized body options now)

/-- `store.mutate`: the row becomes what the update makes of it, nothing removing it. -/
def mutate (rows : KeyMap Text QueuedBenchmark) (id : Text)
    (update : Option QueuedBenchmark → Option QueuedBenchmark) : KeyMap Text QueuedBenchmark :=
  match update (rows.get id) with
  | some row => rows.insert id row
  | none => rows.erase id

theorem get_mutate (rows : KeyMap Text QueuedBenchmark) (id k : Text)
    (update : Option QueuedBenchmark → Option QueuedBenchmark) :
    (mutate rows id update).get k = if k = id then update (rows.get id) else rows.get k := by
  unfold mutate
  cases update (rows.get id) with
  | some row =>
    rw [KeyMap.get_insert]
    by_cases hk : k = id <;> simp [hk]
  | none =>
    rw [KeyMap.get_erase]
    by_cases hk : k = id <;> simp [hk]

def enqueuePublication (contracts : Contracts) (rows : KeyMap Text QueuedBenchmark)
    (request : BenchmarkPublicationRequest) (options : PublicationEnqueueOptions) (now : Time) :
    Except Text (KeyMap Text QueuedBenchmark) := do
  let normalized ← contracts.normalizePublicationInput request
  let body ← contracts.serializePublicationRequest normalized
  checkOptions options
  let id := submissionId normalized.benchmark
  let row ← enqueueRow contracts normalized body options now (rows.get id)
  return rows.insert id row

end AioLM.Outbox
