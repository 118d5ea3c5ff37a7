import AioLM.OutboxRuns

/-!
What a publication is bound to: its destination, the origin of the service, the
credential and the hash of the body, over all runs of the outbox.
-/

set_option autoImplicit false

namespace AioLM.Outbox

open Fallible Runs

def OriginFits (row : QueuedBenchmark) : Prop :=
  ∀ origin destination, row.origin = some origin → row.destination = some destination →
    originOfDestination destination = some origin

/-- Bindings once set are there as they were. -/
structure KeptBindings (row row' : QueuedBenchmark) : Prop where
  destination : ∀ d, row.destination = some d → row'.destination = some d
  origin : ∀ o, row.origin = some o → row'.origin = some o
  credentialRef : ∀ c, row.credentialRef = some c → row'.credentialRef = some c
  bodySha256 : ∀ b, row.bodySha256 = some b → row'.bodySha256 = some b

/-- A row as a store may hold it: a legacy row that was never attempted is bound to
nothing. -/
structure Bindings (row : QueuedBenchmark) : Prop where
  origin : OriginFits row
  legacy : row.requestBody = none → row.attempts = 0 → row.destination = none ∧
    row.origin = none ∧ row.credentialRef = none ∧ row.bodySha256 = none

/-- A claim that would be got attaches a destination of a service where an origin is
bound and leaves an empty one as it is; an origin is added to a row with a destination
only when it is the service part of it. -/
def KeepsService (contracts : Contracts) (w : World) : Action → Prop
  | .claim place _ aborted reads =>
    ∀ id destination row, w.dispatching[place]? = some (id, destination) →
      w.rows.get id = some row → mayClaim w.measuring aborted destination reads row = true →
        (row.origin.isSome → (originOfDestination destination).isSome) ∧
          (row.destination = some [] → destination = [])
  | .enqueue request options now =>
    ∀ normalized rows row, contracts.normalizePublicationInput request = .ok normalized →
      enqueuePublication contracts w.rows request options now = .ok rows →
      w.rows.get (submissionId normalized.benchmark) = some row → row.requestBody.isSome →
        row.origin = none → ∀ origin destination, options.origin = some origin →
          row.destination = some destination → originOfDestination destination = some origin
  | _ => True

section Rows

variable {row row' : QueuedBenchmark}

theorem KeptBindings.refl (row : QueuedBenchmark) : KeptBindings row row :=
  ⟨fun _ h => h, fun _ h => h, fun _ h => h, fun _ h => h⟩

/-- Nothing a row is bound to has changed. -/
structure SameBindings (row row' : QueuedBenchmark) : Prop where
  destination : row'.destination = row.destination
  origin : row'.origin = row.origin
  credentialRef : row'.credentialRef = row.credentialRef
  bodySha256 : row'.bodySha256 = row.bodySha256
  requestBody : row'.requestBody = row.requestBody
  attempts : row'.attempts = row.attempts

theorem SameBindings.refl (row : QueuedBenchmark) : SameBindings row row :=
  ⟨rfl, rfl, rfl, rfl, rfl, rfl⟩

theorem SameBindings.kept (h : SameBindings row row') : KeptBindings row row' where
  destination _ hd := h.destination.trans hd
  origin _ ho := h.origin.trans ho
  credentialRef _ hc := h.credentialRef.trans hc
  bodySha256 _ hb := h.bodySha256.trans hb

theorem SameBindings.bindings (h : SameBindings row row') (hrow : Bindings row) :
    Bindings row' where
  origin o d ho hd := hrow.origin o d (h.origin ▸ ho) (h.destination ▸ hd)
  legacy hbody hattempts := by
    rw [h.destination, h.origin, h.credentialRef, h.bodySha256]
    exact hrow.legacy (h.requestBody ▸ hbody) (h.attempts ▸ hattempts)

/-- What a step makes of one row, when there is one after it. -/
def Follows (before after : Option QueuedBenchmark) : Prop :=
  ∀ row', after = some row' → (∀ row, before = some row → Bindings row) →
    Bindings row' ∧ ∀ row, before = some row → KeptBindings row row'

theorem Follows.refl (row : Option QueuedBenchmark) : Follows row row := by
  intro row' hrow' hbindings
  refine ⟨hbindings row' hrow', fun row hrow => ?_⟩
  obtain rfl : row = row' := Option.some.inj (hrow.symm.trans hrow')
  exact .refl row

theorem SameBindings.follows (h : SameBindings row row') : Follows (some row) (some row') := by
  rintro _ ⟨⟩ hbindings
  refine ⟨h.bindings (hbindings row rfl), ?_⟩
  rintro _ ⟨⟩
  exact h.kept

theorem Follows.none (row : Option QueuedBenchmark) : Follows row none := by
  rintro _ ⟨⟩

theorem follows_retry (current : Option QueuedBenchmark) : Follows current (retry current) := by
  cases current with
  | none => exact .none _
  | some row =>
    rw [retry, Option.map_some]
    split
    · exact .refl _
    · exact SameBindings.follows ⟨rfl, rfl, rfl, rfl, rfl, rfl⟩

theorem follows_updateLeased {token : Text} {update : QueuedBenchmark → QueuedBenchmark}
    (h : ∀ row, SameBindings row (update row)) (current : Option QueuedBenchmark) :
    Follows current (updateLeased token update current) := by
  rw [updateLeased]
  split
  · cases current with
    | none => exact .none _
    | some row => exact (h row).follows
  · exact .refl _

theorem follows_updateAcceptance {expected : QueuedBenchmark}
    {update : QueuedBenchmark → QueuedBenchmark} (h : ∀ row, SameBindings row (update row))
    (current : Option QueuedBenchmark) :
    Follows current (updateAcceptance expected update current) := by
  rw [updateAcceptance]
  split
  · cases current with
    | none => exact .none _
    | some row => exact (h row).follows
  · exact .refl _

theorem follows_pruneAcknowledged (candidate : QueuedBenchmark)
    (current : Option QueuedBenchmark) :
    Follows current (pruneAcknowledged candidate current) := by
  intro row' hrow'
  exact Follows.refl current row' (Option.filter_eq_some_iff.mp hrow').1

theorem originOfDestination_of_mayClaim {measuring aborted : Bool} {destination : Text}
    {reads : ClaimReads} (hmay : mayClaim measuring aborted destination reads row = true)
    (hrow : Bindings row)
    (hservice : row.origin.isSome → (originOfDestination destination).isSome) {origin : Text}
    (horigin : row.origin = some origin) : originOfDestination destination = some origin := by
  simp only [mayClaim, Bool.and_eq_true, Bool.or_eq_true] at hmay
  obtain ⟨⟨-, hsame⟩, hagrees⟩ := hmay
  cases hdestination : truthy row.destination with
  | some d =>
    have hd : row.destination = some d := (Option.filter_eq_some_iff.mp hdestination).1
    obtain rfl : d = destination := by simpa [hdestination] using hsame
    exact hrow.origin origin d horigin hd
  | none =>
    obtain ⟨derived, hderived⟩ := Option.isSome_iff_exists.mp (hservice (by rw [horigin]; rfl))
    rw [hdestination, horigin, hderived] at hagrees
    rw [hderived]
    simpa using hagrees

theorem follows_claimed {measuring aborted : Bool} {destination token : Text}
    {reads : ClaimReads} (hmay : mayClaim measuring aborted destination reads row = true)
    (hservice : row.origin.isSome → (originOfDestination destination).isSome)
    (hempty : row.destination = some [] → destination = []) :
    Follows (some row) (some (claimed destination token reads row)) := by
  rintro _ ⟨⟩ hbindings
  have hrow := hbindings row rfl
  refine ⟨⟨fun o d ho hd => ?_, fun _ hattempts => ?_⟩, ?_⟩
  · obtain rfl : destination = d := Option.some.inj hd
    cases horigin : row.origin with
    | some origin =>
      have hsame : some origin = some o := by simpa [claimed, horigin] using ho
      rw [← hsame]
      exact originOfDestination_of_mayClaim hmay hrow hservice horigin
    | none => simpa [claimed, horigin] using ho
  · cases hattempts
  · rintro _ ⟨⟩
    refine ⟨fun d hd => ?_, fun o ho => ?_, fun _ hc => hc, fun _ hb => hb⟩
    · cases d with
      | nil => rw [hempty hd]; rfl
      | cons c d =>
        simp only [mayClaim, Bool.and_eq_true] at hmay
        have hsame : c :: d = destination := by simpa [truthy, hd] using hmay.1.2
        rw [hsame]
        rfl
    · simp only [claimed, ho, Option.some_or]

theorem or_of_isSome {α : Type} {x y : Option α} {a : α} (h : x = some a) : x.or y = some a := by
  rw [h, Option.some_or]

theorem follows_enqueueAgain {body : Text} {options : PublicationEnqueueOptions}
    (h : enqueueAgain body options row = .ok row') (hbody : row.requestBody.isSome)
    (horigin : row.origin = none → ∀ origin destination, options.origin = some origin →
      row.destination = some destination → originOfDestination destination = some origin) :
    Follows (some row) (some row') := by
  simp only [enqueueAgain, bind_eq_ok, require_eq_ok, pure, Except.pure, Except.ok.injEq] at h
  obtain ⟨-, -, -, -, -, -, -, -, -, -, rfl⟩ := h
  rintro _ ⟨⟩ hbindings
  have hrow := hbindings row rfl
  refine ⟨⟨fun o d ho hd => ?_, fun hnone _ => ?_⟩, ?_⟩
  · cases hold : row.origin with
    | some origin =>
      rw [or_of_isSome hold] at ho
      rw [← ho]
      exact hrow.origin origin d hold hd
    | none =>
      rw [hold, Option.none_or] at ho
      exact horigin hold o d ho hd
  · rw [show row.requestBody = none from hnone] at hbody
    cases hbody
  · rintro _ ⟨⟩
    exact ⟨fun _ hd => hd, fun _ ho => or_of_isSome ho, fun _ hc => or_of_isSome hc,
      fun _ hb => or_of_isSome hb⟩

theorem follows_enqueueLegacy {contracts : Contracts} {normalized : BenchmarkPublicationRequest}
    {body : Text} {options : PublicationEnqueueOptions} (hnone : row.requestBody = none)
    (h : enqueueLegacy contracts normalized body options row = .ok row') :
    Follows (some row) (some row') := by
  simp only [enqueueLegacy, bind_eq_ok, require_eq_ok, pure, Except.pure, Except.ok.injEq] at h
  obtain ⟨-, hfresh, -, -, -, -, rfl⟩ := h
  simp only [Bool.and_eq_true, beq_iff_eq] at hfresh
  rintro _ ⟨⟩ hbindings
  obtain ⟨hdestination, horigin, hcredential, hsha⟩ := (hbindings row rfl).legacy hnone hfresh.1.1
  refine ⟨⟨fun o d _ hd => ?_, fun hbody _ => ?_⟩, ?_⟩
  · rw [show row.destination = some d from hd] at hdestination
    cases hdestination
  · cases hbody
  · rintro _ ⟨⟩
    refine ⟨fun d hd => ?_, fun o ho => ?_, fun c hc => ?_, fun b hb => ?_⟩
    · rw [hdestination] at hd
      cases hd
    · rw [horigin] at ho
      cases ho
    · rw [hcredential] at hc
      cases hc
    · rw [hsha] at hb
      cases hb

theorem follows_enqueueNew (id : Text) (normalized : BenchmarkPublicationRequest) (body : Text)
    (options : PublicationEnqueueOptions) (now : Time) :
    Follows none (some (enqueueNew id normalized body options now)) := by
  rintro _ ⟨⟩ -
  refine ⟨⟨fun _ _ _ hd => ?_, fun hbody _ => ?_⟩, fun _ hrow => ?_⟩
  · cases hd
  · cases hbody
  · cases hrow

end Rows

section Steps

variable {contracts : Contracts} {w w' : World} {a : Action}

theorem follows_mutate {k : Text} {update : Option QueuedBenchmark → Option QueuedBenchmark}
    (hrows : w'.rows = mutate w.rows k update)
    (h : Follows (w.rows.get k) (update (w.rows.get k))) (id : Text) :
    Follows (w.rows.get id) (w'.rows.get id) := by
  rw [hrows, get_mutate]
  by_cases hid : id = k
  · rw [if_pos hid, hid]
    exact h
  · rw [if_neg hid]
    exact .refl _

theorem follows_enqueue {request : BenchmarkPublicationRequest}
    {options : PublicationEnqueueOptions} {now : Time} {rows : KeyMap Text QueuedBenchmark}
    (hrows : enqueuePublication contracts w.rows request options now = .ok rows)
    (hok : KeepsService contracts w (.enqueue request options now)) (id : Text) :
    Follows (w.rows.get id) (rows.get id) := by
  obtain ⟨normalized, body, row', hnormalized, hrow', rfl⟩ := enqueuePublication_ok hrows
  rw [KeyMap.get_insert]
  by_cases hid : id = submissionId normalized.benchmark
  · rw [if_pos hid]
    subst hid
    cases hold : w.rows.get (submissionId normalized.benchmark) with
    | none =>
      simp only [enqueueRow, hold] at hrow'
      cases hrow'
      exact follows_enqueueNew _ _ _ _ _
    | some row =>
      simp only [enqueueRow, hold] at hrow'
      split at hrow'
      · rename_i hbody
        exact follows_enqueueAgain hrow' hbody (hok _ _ row hnormalized hrows hold hbody)
      · rename_i hbody
        exact follows_enqueueLegacy (by simpa using hbody) hrow'
  · rw [if_neg hid]
    exact .refl _

theorem follows_claim {id destination : Text} {token : Text} {aborted : Bool}
    {reads : ClaimReads} (k : Text)
    (hok : ∀ row, w.rows.get id = some row →
      mayClaim w.measuring aborted destination reads row = true →
        (row.origin.isSome → (originOfDestination destination).isSome) ∧
          (row.destination = some [] → destination = [])) :
    Follows (w.rows.get k) ((claimStep w id destination token aborted reads).rows.get k) := by
  refine follows_mutate rfl ?_ k
  cases hrow : w.rows.get id with
  | none => exact .none _
  | some row =>
    rw [claimForDestination, Option.map_some]
    split
    · rename_i hmay
      obtain ⟨hservice, hempty⟩ := hok row hrow hmay
      exact follows_claimed hmay hservice hempty
    · exact .refl _

theorem step_follows (h : step contracts w a = some w') (hok : KeepsService contracts w a)
    (id : Text) : Follows (w.rows.get id) (w'.rows.get id) := by
  cases a with
  | measure active =>
    cases h
    exact .refl _
  | enqueue request options now =>
    simp only [step] at h
    split at h
    · split at h
      · rename_i rows hrows
        cases h
        exact follows_enqueue hrows hok id
      · cases h
        exact .refl _
    · cases h
  | retry k =>
    cases h
    exact follows_mutate rfl (follows_retry _) id
  | read k =>
    cases h
    exact .refl _
  | dispatch k destination aborted now =>
    simp only [step] at h
    split at h
    · cases h
      unfold dispatchStep
      split <;> exact .refl _
    · cases h
  | claim place token aborted reads =>
    simp only [step, Option.bind_eq_bind, Option.bind_eq_some_iff] at h
    obtain ⟨⟨k, destination⟩, hplace, h⟩ := h
    split at h
    · cases h
      exact follows_claim id fun row hrow hmay => hok k destination row hplace hrow hmay
    · cases h
  | succeed place receipt =>
    obtain ⟨flight, -, rfl⟩ := Option.map_eq_some_iff.mp h
    have hsame : ∀ row, SameBindings row (sentRow receipt row) :=
      fun _ => ⟨rfl, rfl, rfl, rfl, rfl, rfl⟩
    exact follows_mutate rfl (follows_updateLeased hsame _) id
  | fail place error random now =>
    simp only [step, Option.bind_eq_bind, Option.bind_eq_some_iff] at h
    obtain ⟨flight, -, h⟩ := h
    split at h
    · cases h
      exact .refl _
    · cases h
  | settleFailure place =>
    obtain ⟨failure, -, rfl⟩ := Option.map_eq_some_iff.mp h
    have hsame : ∀ row, SameBindings row (failedRow failure row) :=
      fun _ => ⟨rfl, rfl, rfl, rfl, rfl, rfl⟩
    exact follows_mutate rfl (follows_updateLeased hsame _) id
  | acknowledge place =>
    simp only [step, Option.bind_eq_bind, Option.bind_eq_some_iff] at h
    obtain ⟨entry, -, h⟩ := h
    split at h
    · cases h
      exact .refl _
    · cases h
  | accepted place =>
    obtain ⟨entry, -, rfl⟩ := Option.map_eq_some_iff.mp h
    exact .refl _
  | commitAcknowledgement place now =>
    simp only [step, Option.bind_eq_bind, Option.bind_eq_some_iff] at h
    obtain ⟨entry, -, h⟩ := h
    split at h
    · cases h
      have hsame : ∀ row, SameBindings row (acknowledgedRow now row) :=
        fun _ => ⟨rfl, rfl, rfl, rfl, rfl, rfl⟩
      exact follows_mutate rfl (follows_updateAcceptance hsame _) id
    · cases h
  | deferAcknowledgement place now =>
    simp only [step, Option.bind_eq_bind, Option.bind_eq_some_iff] at h
    obtain ⟨entry, -, h⟩ := h
    split at h
    · cases h
      have hsame : ∀ row, SameBindings row (deferredRow now row) :=
        fun _ => ⟨rfl, rfl, rfl, rfl, rfl, rfl⟩
      exact follows_mutate rfl (follows_updateAcceptance hsame _) id
    · cases h
  | prune place =>
    simp only [step, Option.bind_eq_bind, Option.bind_eq_some_iff] at h
    obtain ⟨candidate, -, h⟩ := h
    split at h
    · cases h
    · cases h
      exact follows_mutate rfl (follows_pruneAcknowledged candidate _) id

end Steps

/-- A claim hands the row to a transport of the origin it is bound to. -/
structure BoundFlight (flight : Flight) : Prop where
  destination : flight.entry.destination = some flight.destination
  origin : OriginFits flight.entry

section Runs

variable {contracts : Contracts} {w w' : World} {a : Action}

theorem step_bindings (hbound : ∀ id row, w.rows.get id = some row → Bindings row)
    (h : step contracts w a = some w') (hok : KeepsService contracts w a) :
    ∀ id row, w'.rows.get id = some row → Bindings row :=
  fun id row hrow => (step_follows h hok id row hrow (hbound id)).1

theorem step_flights (hinv : Inv w) (hbound : ∀ id row, w.rows.get id = some row → Bindings row)
    (hflights : ∀ flight ∈ w.flights, BoundFlight flight) (h : step contracts w a = some w')
    (hok : KeepsService contracts w a) : ∀ flight ∈ w'.flights, BoundFlight flight := by
  rcases (step_frame hinv h).flights with hsame | ⟨flight, hclaims, hclaimed⟩
  · rwa [hsame]
  · rw [show w'.flights = flight :: w.flights from hclaims]
    refine List.forall_mem_cons.mpr ⟨?_, hflights⟩
    obtain ⟨row, aborted, reads, -, -, -, -, hentry, hnew⟩ := hclaimed.row
    exact ⟨by rw [hentry]; rfl, (step_bindings hbound h hok _ _ hnew).origin⟩

/-- While no claim attaches a destination that is none of the service, and no origin is
added beside one, every row and every claim stays with the service it was bound to. -/
theorem publication_keeps_service {rows : KeyMap Text QueuedBenchmark} {tokens : List Text}
    {clock : Time} (hstored : Stored rows tokens)
    (hbound : ∀ id row, rows.get id = some row → Bindings row)
    (hrun : Reaches (step contracts) (KeepsService contracts)
      { rows := rows, tokens := tokens, clock := clock } w) :
    (∀ id row, w.rows.get id = some row → OriginFits row) ∧
      (∀ flight ∈ w.flights, BoundFlight flight) ∧
      ∀ a w', KeepsService contracts w a → step contracts w a = some w' →
        ∀ id row row', w.rows.get id = some row → w'.rows.get id = some row' →
          KeptBindings row row' := by
  have hkeep : ∀ u u' b, (Inv u ∧ (∀ id row, u.rows.get id = some row → Bindings row) ∧
      ∀ flight ∈ u.flights, BoundFlight flight) → KeepsService contracts u b →
      step contracts u b = some u' →
      Inv u' ∧ (∀ id row, u'.rows.get id = some row → Bindings row) ∧
        ∀ flight ∈ u'.flights, BoundFlight flight := by
    intro u u' b ⟨hinv, hrows, hflights⟩ hok hstep
    exact ⟨hinv.next hstep, step_bindings hrows hstep hok,
      step_flights hinv hrows hflights hstep hok⟩
  obtain ⟨-, hrows, hflights⟩ := hrun.invariant
    ⟨Inv.start hstored clock, hbound, fun _ hflight => by cases hflight⟩ hkeep
  refine ⟨fun id row hrow => (hrows id row hrow).origin, hflights, ?_⟩
  intro a w' hok hstep id row row' hrow hrow'
  exact (step_follows hstep hok id row' hrow' (hrows id)).2 row hrow

end Runs

/-- A publication of the origin `https://a.test`, claimed for a destination. -/
def boundPublication (destination : Text) : List Action :=
  [.enqueue sampleRequest { origin := some "https://a.test".toList } 1,
    .dispatch "s".toList destination false 1, .claim 0 "t".toList false ⟨1, 1, 1, 1⟩]

def reached (actions : List Action) : Option World :=
  run (step sampleContracts) { rows := .empty } actions

def ownService : Text := "https://a.test/v1/benchmark-runs".toList

theorem publication_keeps_service_claimed : ∃ w flight,
    reached (boundPublication ownService) = some w ∧ flight ∈ w.flights ∧ BoundFlight flight := by
  obtain ⟨flight, hflight⟩ : ∃ flight, ((reached (boundPublication ownService)).bind
      fun w => w.flights.head?) = some flight := Option.isSome_iff_exists.mp (by decide +kernel)
  obtain ⟨w, hw, hhead⟩ := Option.bind_eq_some_iff.mp hflight
  have hmem : flight ∈ w.flights := List.mem_of_mem_head? hhead
  have hplace : ((reached ((boundPublication ownService).take 2)).bind fun u => u.dispatching[0]?) =
      some ("s".toList, ownService) := by decide +kernel
  have hfresh : ((reached ((boundPublication ownService).take 2)).bind fun u =>
      (u.rows.get "s".toList).map (·.destination)) = some none := by decide +kernel
  refine ⟨w, flight, hw, hmem, (publication_keeps_service Stored.empty
    (fun _ _ hrow => by cases hrow) (.of_run_passed (fun before b after hsplit u hu => ?_) hw)).2.1
      flight hmem⟩
  match before with
  | [] =>
    obtain ⟨rfl, -⟩ := List.cons.inj hsplit
    cases hu
    intro _ _ row _ _ hrow
    cases hrow
  | [_] =>
    obtain ⟨-, hsplit⟩ := List.cons.inj hsplit
    obtain ⟨rfl, -⟩ := List.cons.inj hsplit
    trivial
  | [_, _] =>
    obtain ⟨hfirst, hsplit⟩ := List.cons.inj hsplit
    obtain ⟨hsecond, hsplit⟩ := List.cons.inj hsplit
    obtain ⟨rfl, -⟩ := List.cons.inj hsplit
    intro id destination row hdispatching hrow _
    have hu : reached ((boundPublication ownService).take 2) = some u := by
      rw [← hfirst, ← hsecond] at hu
      exact hu
    rw [hu, Option.bind_some, hdispatching] at hplace
    obtain ⟨rfl, rfl⟩ : id = "s".toList ∧ destination = ownService := by simpa using hplace
    rw [hu, Option.bind_some, hrow, Option.map_some, Option.some.injEq] at hfresh
    refine ⟨fun _ => by decide, fun hempty => ?_⟩
    rw [hfresh] at hempty
    cases hempty
  | _ :: _ :: _ :: _ =>
    have hlength := congrArg List.length hsplit
    simp only [boundPublication, List.length_append, List.length_cons, List.length_nil] at hlength
    omega

def otherService : Text := "https://b.test/upload".toList

/-- A destination of no known shape is attached beside the origin of another service. -/
theorem other_service_claimed : ¬ ∀ w,
    Reaches (step sampleContracts) (fun _ _ => True) { rows := .empty } w →
      (∀ id row, w.rows.get id = some row → OriginFits row) ∧
        ∀ flight ∈ w.flights, BoundFlight flight := by
  intro hall
  obtain ⟨row, hrow⟩ : ∃ row, ((reached (boundPublication otherService)).bind
      fun w => w.rows.get "s".toList) = some row := Option.isSome_iff_exists.mp (by decide +kernel)
  have hbound : ((reached (boundPublication otherService)).bind fun w =>
      (w.rows.get "s".toList).map fun row => (row.origin, row.destination)) =
        some (some "https://a.test".toList, some otherService) := by decide +kernel
  obtain ⟨w, hw, hget⟩ := Option.bind_eq_some_iff.mp hrow
  rw [hw, Option.bind_some, hget, Option.map_some, Option.some.injEq, Prod.mk.injEq] at hbound
  have hfits := (hall w (.of_run _ (fun _ _ _ => trivial) hw)).1 _ row hget _ _ hbound.1 hbound.2
  exact absurd hfits (by decide)

end AioLM.Outbox
