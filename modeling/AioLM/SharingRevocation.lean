import Mathlib.Data.List.Perm.Subperm
import AioLM.Lists
import AioLM.SharingCommands

/-!
What a cancel or a measurement start ends: the requests in flight, the snapshots
taken before it, and the permits obtained under them.
-/

set_option autoImplicit false

namespace AioLM.Sharing

open Runs

/-- The counter is a number of revocations from `least` to `most` past a value read. -/
def Behind (least most read counter : Nat) : Prop :=
  ∃ k, least ≤ k ∧ k ≤ most ∧ counter = (read + k) % 2 ^ 64

theorem Behind.refl {n : Nat} (h : n < 2 ^ 64) (most : Nat) : Behind 0 most n n :=
  ⟨0, le_refl 0, Nat.zero_le most, (Nat.mod_eq_of_lt h).symm⟩

theorem Behind.mono {least most most' read counter : Nat} (h : Behind least most read counter)
    (hle : most ≤ most') : Behind least most' read counter := by
  obtain ⟨k, hleast, hmost, hcounter⟩ := h
  exact ⟨k, hleast, hmost.trans hle, hcounter⟩

theorem Behind.succ {least most read counter : Nat} (h : Behind least most read counter) :
    Behind (least + 1) (most + 1) read (wrappingSucc counter) := by
  obtain ⟨k, hleast, hmost, hcounter⟩ := h
  refine ⟨k + 1, by omega, by omega, ?_⟩
  rw [wrappingSucc, hcounter]
  omega

theorem Behind.weaken {least most read counter : Nat} (h : Behind (least + 1) most read counter) :
    Behind least most read counter := by
  obtain ⟨k, hleast, hmost, hcounter⟩ := h
  exact ⟨k, by omega, hmost, hcounter⟩

/-- With fewer revocations than the counter has values, one that moved on is not back. -/
theorem Behind.ne {most read counter : Nat} (h : Behind 1 most read counter)
    (hfew : most < 2 ^ 64) : counter ≠ read := by
  obtain ⟨k, hleast, hmost, hcounter⟩ := h
  omega

theorem wrappingSucc_lt (n : Nat) : wrappingSucc n < 2 ^ 64 := Nat.mod_lt _ (by decide)

/-- What a step leaves of a command and its snapshot. -/
structure Continues (t t' : Thread) : Prop where
  submission : t'.submission = t.submission
  epoch : t.hasEpoch → t'.hasEpoch ∧ t'.live.epoch = t.live.epoch
  generation : t.hasGeneration → t'.hasGeneration ∧ t'.live.generation = t.live.generation

theorem Continues.refl (t : Thread) : Continues t t := ⟨rfl, fun h => ⟨h, rfl⟩, fun h => ⟨h, rfl⟩⟩

theorem Continues.trans {t u v : Thread} (h : Continues t u) (h' : Continues u v) :
    Continues t v where
  submission := h'.submission.trans h.submission
  epoch ht := ⟨(h'.epoch (h.epoch ht).1).1, (h'.epoch (h.epoch ht).1).2.trans (h.epoch ht).2⟩
  generation ht :=
    ⟨(h'.generation (h.generation ht).1).1,
      (h'.generation (h.generation ht).1).2.trans (h.generation ht).2⟩

/-- The parts of the snapshot that were not there before are read off the table. -/
structure Reads (e : Ephemeral) (t t' : Thread) : Prop where
  epoch : t'.hasEpoch → t.hasEpoch ∨ t'.live.epoch = e.epoch
  generation : t'.hasGeneration → t.hasGeneration ∨
    t'.live.generation = e.generation t'.submission

/-- Nothing but the permits of the table has changed, and of them there are no more. -/
structure Quiet (e e' : Ephemeral) : Prop where
  epoch : e'.epoch = e.epoch
  generations : e'.generations = e.generations
  requests : e'.requests = e.requests
  order : e'.order = e.order
  nextRequestId : e'.nextRequestId = e.nextRequestId
  permits : ∀ s stored, e'.permits.get s = some stored → e.permits.get s = some stored

theorem Quiet.refl (e : Ephemeral) : Quiet e e := ⟨rfl, rfl, rfl, rfl, rfl, fun _ _ h => h⟩

theorem Quiet.clearPermit (e : Ephemeral) (s : Text) : Quiet e (e.clearPermit s) := by
  refine ⟨rfl, rfl, rfl, rfl, rfl, fun k stored h => ?_⟩
  rw [Ephemeral.clearPermit, KeyMap.get_erase] at h
  split at h
  · cases h
  · exact h

theorem Quiet.livePermit (e : Ephemeral) (s : Text) (now : Nat) :
    Quiet e (e.livePermit s now).2 := by
  simp only [Ephemeral.livePermit]
  split
  · exact .clearPermit e s
  · exact .refl e

theorem isSome_of_livePermit {e : Ephemeral} {s : Text} {now : Nat} {taken : Text × Text}
    (h : (e.livePermit s now).1 = some taken) : (e.permits.get s).isSome := by
  simp only [Ephemeral.livePermit] at h
  split at h
  · cases h
  · obtain ⟨stored, hstored, -⟩ := Option.map_eq_some_iff.mp h
    rw [hstored]
    rfl

/-- What one step of a command does. -/
inductive Effect (w : World) (i : Nat) (t : Thread) : Action → World → Prop
  | quiet (a : Action) (t' : Thread) (shared : Ephemeral) (handles : Nat) :
      t.request = none → t'.request = none → Continues t t' → Reads w.shared t t' →
      (∀ j, t'.provider = some j → t.provider = some j ∨
        ((w.shared.permits.get t.submission).isSome ∧
          w.providers.get t.submission = some j)) →
      Quiet w.shared shared → w.handles ≤ handles →
      Effect w i t a ({ w with shared := shared, handles := handles }.put i t')
  | store (active : Bool) (sessionId permit : Text) (rest : List Stage) (now : Nat) :
      t.phase = .running → t.rest = .settlePoll sessionId :: rest →
      World.granted t.outcome = some permit →
      Effect w i t (.advance i active now)
        ({ w with
          shared := w.shared.storePermit t.submission sessionId permit now
          providers := w.providers.insert t.submission i }.put i { t with rest := rest })
  | register (active : Bool) (now : Nat) (rest : List Stage) (id : Nat) (shared : Ephemeral) (aborted : List Nat) :
      t.phase = .running → t.rest = .abortableRequest :: rest →
      w.shared.trackRequestIfLive t.submission t.live.epoch t.live.generation w.handles =
        some (id, shared, aborted) →
      Effect w i t (.advance i active now)
        ({ w with
          shared := shared
          handles := w.handles + 1
          aborted := aborted ++ w.aborted }.put i
            { t with phase := .awaiting id w.handles, rest := rest })
  | finish (a : Action) (id abort : Nat) (t' : Thread) :
      t.phase = .awaiting id abort → t'.request = none → Continues t t' →
      t'.provider = t.provider →
      Effect w i t a ({ w with shared := w.shared.untrackRequest t.submission id }.put i t')

theorem Reads.of_hasGeneration {e : Ephemeral} {t t' : Thread} (h : t.hasGeneration) :
    Reads e t t' := by
  have hepoch : t.hasEpoch := by
    simp only [Thread.hasGeneration, Bool.and_eq_true] at h
    exact h.1
  exact ⟨fun _ => .inl hepoch, fun _ => .inl h⟩

theorem compare_eq (w : World) (t : Thread) (active : Bool) :
    ∃ phase rest, w.compare t active = { t with phase := phase, rest := rest } ∧
      (phase = .clearing ∨ phase = .running) := by
  rw [World.compare]
  split
  · split
    · exact ⟨_, _, rfl, .inl rfl⟩
    · exact ⟨_, _, rfl, .inr rfl⟩
  · split
    · exact ⟨_, _, rfl, .inl rfl⟩
    · exact ⟨_, _, rfl, .inr rfl⟩

theorem Effect.after_snapshot {w : World} {a : Action} {i : Nat} {t : Thread} (phase : Phase)
    (rest : List Stage) {shared : Ephemeral} {handles : Nat} (h : t.hasGeneration)
    (hrequest : t.request = none)
    (hphase : phase = .running ∨ phase = .epochAgrees ∨ phase = .clearing ∨ phase = .ended)
    (hshared : Quiet w.shared shared) (hhandles : w.handles ≤ handles) :
    Effect w i t a ({ w with shared := shared, handles := handles }.put i
      { t with phase := phase, rest := rest }) := by
  refine .quiet a _ shared handles hrequest ?_ ⟨rfl, ?_, ?_⟩ (.of_hasGeneration h) (fun _ => .inl) hshared
    hhandles
  all_goals obtain rfl | rfl | rfl | rfl := hphase
  all_goals first | rfl | exact fun _ => ⟨rfl, rfl⟩

theorem advance_effect {w w' : World} {i : Nat} {t : Thread} {active : Bool} {now : Nat}
    (h : w.advance i t active now = some w') : Effect w i t (.advance i active now) w' := by
  rw [World.advance] at h
  cases hphase : t.phase with
  | begun =>
    simp only [hphase, Option.some.injEq] at h
    subst h
    refine .quiet _ _ w.shared w.handles (by simp [Thread.request, hphase]) rfl ⟨rfl, ?_, ?_⟩
      ⟨fun _ => .inr rfl, ?_⟩ (fun _ => .inl) (.refl _) (le_refl _)
    · intro hepoch
      simp [Thread.hasEpoch, hphase] at hepoch
    · intro hgeneration
      simp [Thread.hasGeneration, hphase] at hgeneration
    · intro hgeneration
      simp [Thread.hasGeneration] at hgeneration
  | epochRead =>
    simp only [hphase, Option.some.injEq] at h
    subst h
    refine .quiet _ _ w.shared w.handles (by simp [Thread.request, hphase]) rfl
      ⟨rfl, fun _ => ⟨rfl, rfl⟩, ?_⟩ ⟨fun _ => .inl ?_, fun _ => .inr rfl⟩ (fun _ => .inl) (.refl _)
      (le_refl _)
    · intro hgeneration
      simp [Thread.hasGeneration, hphase] at hgeneration
    · simp [Thread.hasEpoch, hphase]
  | running =>
    have hsnapshot : t.hasGeneration := by simp [Thread.hasGeneration, hphase]
    have hrequest : t.request = none := by simp [Thread.request, hphase]
    simp only [hphase] at h
    split at h
    · cases h
      exact .after_snapshot .ended t.rest hsnapshot hrequest (by simp) (.refl _) (le_refl _)
    · rename_i rest hrest
      cases h
      rw [World.register]
      cases htrack : w.shared.trackRequestIfLive t.submission t.live.epoch t.live.generation
          w.handles with
      | none =>
        exact .after_snapshot .clearing t.rest hsnapshot hrequest (by simp) (.refl _)
          (Nat.le_succ _)
      | some registered =>
        obtain ⟨id, shared, aborted⟩ := registered
        exact .register active now rest id shared aborted hphase hrest htrack
    · rename_i sessionId rest hrest
      cases h
      rw [World.settle]
      split
      · have heffect := Effect.after_snapshot (w := w) (i := i)
          (a := .advance i active now) t.phase rest hsnapshot hrequest
          (.inl hphase) (.clearPermit w.shared t.submission) (le_refl w.handles)
        exact heffect
      · cases hgranted : World.granted t.outcome with
        | none =>
          have heffect := Effect.after_snapshot (w := w) (i := i)
            (a := .advance i active now) t.phase rest hsnapshot hrequest
            (.inl hphase) (.refl w.shared) (le_refl w.handles)
          exact heffect
        | some permit => exact .store active sessionId permit rest now hphase hrest hgranted
    · rename_i rest hrest
      cases h
      rw [World.take]
      refine .quiet _ _ _ w.handles hrequest (by simpa [Thread.request] using hrequest)
        ⟨rfl, fun h => ⟨h, rfl⟩, fun h => ⟨h, rfl⟩⟩ (.of_hasGeneration hsnapshot) ?_
        (.livePermit _ _ _) (le_refl _)
      intro j hprovider
      obtain ⟨taken, htaken, hprovider⟩ := Option.bind_eq_some_iff.mp hprovider
      exact .inr ⟨isSome_of_livePermit htaken, hprovider⟩
    · cases h
      refine .after_snapshot _ t.rest hsnapshot hrequest ?_ (.refl _) (le_refl _)
      split
      · exact .inr (.inr (.inl rfl))
      · exact .inr (.inl rfl)
  | epochAgrees =>
    have hsnapshot : t.hasGeneration := by simp [Thread.hasGeneration, hphase]
    have hrequest : t.request = none := by simp [Thread.request, hphase]
    simp only [hphase, Option.some.injEq] at h
    subst h
    obtain ⟨phase, rest, hcompare, hnext⟩ := compare_eq w t active
    rw [hcompare]
    refine .after_snapshot phase rest hsnapshot hrequest ?_ (.refl _) (le_refl _)
    rcases hnext with rfl | rfl
    · exact .inr (.inr (.inl rfl))
    · exact .inl rfl
  | clearing =>
    have hsnapshot : t.hasGeneration := by simp [Thread.hasGeneration, hphase]
    have hrequest : t.request = none := by simp [Thread.request, hphase]
    simp only [hphase, Option.some.injEq] at h
    subst h
    exact .after_snapshot .ended t.rest hsnapshot hrequest (by simp) (.clearPermit _ _) (le_refl _)
  | awaiting id abort =>
    simp only [hphase] at h
    cases h
  | ended =>
    simp only [hphase] at h
    cases h

theorem returned_continues {w : World} {t t' : Thread} {abort : Nat} {outcome : Outcome}
    (h : w.returned t abort outcome = some t') :
    t'.request = none ∧ Continues t t' ∧ t'.provider = t.provider := by
  have hcontinues : ∀ (phase : Phase) (outcome : PollOutcome),
      phase = .running ∨ phase = .clearing ∨ phase = .ended →
        Continues t { t with phase := phase, outcome := outcome } := by
    rintro phase outcome (rfl | rfl | rfl) <;>
      exact ⟨rfl, fun _ => ⟨rfl, rfl⟩, fun _ => ⟨rfl, rfl⟩⟩
  cases outcome with
  | answered outcome =>
    cases h
    exact ⟨rfl, hcontinues .running outcome (by simp), rfl⟩
  | failed =>
    cases h
    exact ⟨rfl, hcontinues .ended t.outcome (by simp), rfl⟩
  | aborted =>
    simp only [World.returned] at h
    split at h
    · cases h
      exact ⟨rfl, hcontinues .clearing t.outcome (by simp), rfl⟩
    · cases h

theorem step_cases {w w' : World} {a : Action} (h : step w a = some w') :
    (∃ t : Thread, t.phase = .begun ∧ t.provider = none ∧
      w' = { w with threads := w.threads ++ [t] }) ∨
    (∃ i t, w.threads[i]? = some t ∧ Effect w i t a w') ∨
    (∃ s, a = .cancel s ∧ w' = { w with
      shared := (w.shared.cancelSubmission s).1
      aborted := (w.shared.cancelSubmission s).2 ++ w.aborted
      revocations := w.revocations + 1 }) ∨
    (a = .measure ∧ w' = { w with
      shared := w.shared.noteMeasurementStart.1
      aborted := w.shared.noteMeasurementStart.2 ++ w.aborted
      revocations := w.revocations + 1 }) := by
  cases a with
  | call command submissionId =>
    cases h
    exact .inl ⟨_, rfl, rfl, rfl⟩
  | advance i active now =>
    obtain ⟨t, ht, h⟩ := Option.bind_eq_some_iff.mp h
    exact .inr (.inl ⟨i, t, ht, advance_effect h⟩)
  | finish i outcome =>
    obtain ⟨t, ht, h⟩ := Option.bind_eq_some_iff.mp h
    obtain ⟨⟨id, abort⟩, hrequest, h⟩ := Option.bind_eq_some_iff.mp h
    obtain ⟨t', ht', rfl⟩ := Option.map_eq_some_iff.mp h
    have hphase : t.phase = .awaiting id abort := by
      rw [Thread.request] at hrequest
      split at hrequest
      · rename_i hphase
        rw [hphase]
        cases hrequest
        rfl
      · cases hrequest
    obtain ⟨hdone, hcontinues, hprovider⟩ := returned_continues ht'
    exact .inr (.inl ⟨i, t, ht, .finish _ id abort t' hphase hdone hcontinues hprovider⟩)
  | fail i =>
    obtain ⟨t, ht, h⟩ := Option.bind_eq_some_iff.mp h
    split at h
    · rename_i hphase
      cases h
      have hsnapshot : t.hasGeneration := by simp [Thread.hasGeneration, hphase]
      have hrequest : t.request = none := by simp [Thread.request, hphase]
      exact .inr (.inl ⟨i, t, ht, .after_snapshot .ended t.rest hsnapshot hrequest (by simp)
        (.refl _) (le_refl _)⟩)
    · cases h
  | cancel s =>
    cases h
    exact .inr (.inr (.inl ⟨s, rfl, rfl⟩))
  | measure =>
    cases h
    exact .inr (.inr (.inr ⟨rfl, rfl⟩))

section Snapshots

variable {w w' : World} {i : Nat} {t : Thread} {a : Action}

theorem Effect.counters (h : Effect w i t a w') :
    w'.shared.epoch = w.shared.epoch ∧ w'.shared.generations = w.shared.generations ∧
      w'.revocations = w.revocations := by
  cases h with
  | quiet _ t' shared handles _ _ _ _ _ hquiet _ => exact ⟨hquiet.epoch, hquiet.generations, rfl⟩
  | store active sessionId permit rest now =>
    unfold World.put Ephemeral.storePermit
    split <;> exact ⟨rfl, rfl, rfl⟩
  | register active now rest id shared aborted _ _ htrack =>
    rw [Ephemeral.trackRequestIfLive] at htrack
    split at htrack
    · cases htrack
    · cases htrack
      exact ⟨rfl, rfl, rfl⟩
  | finish _ id abort t' =>
    unfold World.put Ephemeral.untrackRequest
    split <;> exact ⟨rfl, rfl, rfl⟩

theorem Effect.thread (h : Effect w i t a w') : ∃ t', w'.threads = w.threads.set i t' ∧
    Continues t t' ∧ Reads w.shared t t' := by
  cases h with
  | quiet _ t' shared handles _ _ hcontinues hreads => exact ⟨t', rfl, hcontinues, hreads⟩
  | store active sessionId permit rest now =>
    exact ⟨_, rfl, ⟨rfl, fun h => ⟨h, rfl⟩, fun h => ⟨h, rfl⟩⟩, fun h => .inl h, fun h => .inl h⟩
  | register active now rest id shared aborted hphase =>
    refine ⟨_, rfl, ⟨rfl, fun _ => ⟨rfl, rfl⟩, fun _ => ⟨rfl, rfl⟩⟩, .of_hasGeneration ?_⟩
    simp [Thread.hasGeneration, hphase]
  | finish _ id abort t' hphase _ hcontinues =>
    refine ⟨t', rfl, hcontinues, .of_hasGeneration ?_⟩
    simp [Thread.hasGeneration, hphase]

theorem step_continues (h : step w a = some w') (hi : w.threads[i]? = some t) :
    ∃ t', w'.threads[i]? = some t' ∧ Continues t t' := by
  rcases step_cases h with ⟨u, -, -, rfl⟩ | ⟨j, u, hu, heffect⟩ | ⟨s, -, rfl⟩ | ⟨-, rfl⟩
  · exact ⟨t, Lists.getElem?_concat_of_some hi, .refl t⟩
  · obtain ⟨u', hthreads, hcontinues, -⟩ := heffect.thread
    rw [hthreads]
    by_cases hij : i = j
    · subst hij
      obtain rfl : t = u := Option.some.inj (hi.symm.trans hu)
      exact ⟨u', (Lists.getElem?_set_eq_some hu).mpr (.inl ⟨rfl, rfl⟩), hcontinues⟩
    · exact ⟨t, (Lists.getElem?_set_eq_some hu).mpr (.inr ⟨hij, hi⟩), .refl t⟩
  · exact ⟨t, hi, .refl t⟩
  · exact ⟨t, hi, .refl t⟩

def Counts (w w' : World) (counter counter' : Nat) : Prop :=
  (counter' = counter ∧ w.revocations ≤ w'.revocations) ∨
    (counter' = wrappingSucc counter ∧ w'.revocations = w.revocations + 1)

theorem Behind.counts {least read counter counter' : Nat}
    (h : Behind least w.revocations read counter) (hcounts : Counts w w' counter counter') :
    Behind least w'.revocations read counter' := by
  rcases hcounts with ⟨rfl, hle⟩ | ⟨rfl, hrevocations⟩
  · exact h.mono hle
  · rw [hrevocations]
    exact h.succ.weaken

theorem step_counts (h : step w a = some w') : Counts w w' w.shared.epoch w'.shared.epoch ∧
    ∀ s, Counts w w' (w.shared.generation s) (w'.shared.generation s) := by
  rcases step_cases h with ⟨u, -, -, rfl⟩ | ⟨j, u, -, heffect⟩ | ⟨s, -, rfl⟩ | ⟨-, rfl⟩
  · exact ⟨.inl ⟨rfl, le_refl _⟩, fun _ => .inl ⟨rfl, le_refl _⟩⟩
  · obtain ⟨hepoch, hgenerations, hrevocations⟩ := heffect.counters
    refine ⟨.inl ⟨hepoch, hrevocations.ge⟩, fun s => .inl ⟨?_, hrevocations.ge⟩⟩
    rw [Ephemeral.generation, hgenerations, Ephemeral.generation]
  · refine ⟨.inl ⟨rfl, Nat.le_succ _⟩, fun k => ?_⟩
    rw [Ephemeral.generation_cancelSubmission]
    split
    · rename_i hk
      rw [hk]
      exact .inr ⟨rfl, rfl⟩
    · exact .inl ⟨rfl, Nat.le_succ _⟩
  · exact ⟨.inr ⟨rfl, rfl⟩, fun _ => .inl ⟨rfl, Nat.le_succ _⟩⟩

structure Snapshots (w : World) : Prop where
  epoch_lt : w.shared.epoch < 2 ^ 64
  generation_lt : ∀ s, w.shared.generation s < 2 ^ 64
  epoch : ∀ (i : Nat) (t : Thread), w.threads[i]? = some t → t.hasEpoch →
    Behind 0 w.revocations t.live.epoch w.shared.epoch
  generation : ∀ (i : Nat) (t : Thread), w.threads[i]? = some t → t.hasGeneration →
    Behind 0 w.revocations t.live.generation (w.shared.generation t.submission)

theorem Counts.lt {counter counter' : Nat} (h : Counts w w' counter counter')
    (hlt : counter < 2 ^ 64) : counter' < 2 ^ 64 := by
  rcases h with ⟨rfl, -⟩ | ⟨rfl, -⟩
  · exact hlt
  · exact wrappingSucc_lt counter

theorem step_reads (h : step w a = some w') {t' : Thread} (hi : w'.threads[i]? = some t') :
    t'.phase = .begun ∨ ∃ t, w.threads[i]? = some t ∧ Continues t t' ∧ Reads w'.shared t t' := by
  rcases step_cases h with ⟨u, hbegun, -, rfl⟩ | ⟨j, u, hu, heffect⟩ | ⟨s, -, rfl⟩ | ⟨-, rfl⟩
  · rcases Lists.getElem?_concat hi with hi | ⟨-, rfl⟩
    · exact .inr ⟨t', hi, .refl t', fun h => .inl h, fun h => .inl h⟩
    · exact .inl hbegun
  · obtain ⟨u', hthreads, hcontinues, hreads⟩ := heffect.thread
    obtain ⟨hepoch, hgenerations, -⟩ := heffect.counters
    rw [hthreads] at hi
    rcases (Lists.getElem?_set_eq_some hu).mp hi with ⟨rfl, rfl⟩ | ⟨-, hi⟩
    · refine .inr ⟨u, hu, hcontinues, ⟨fun h => ?_, fun h => ?_⟩⟩
      · rw [hepoch]
        exact hreads.epoch h
      · rw [Ephemeral.generation, hgenerations]
        exact hreads.generation h
    · exact .inr ⟨t', hi, .refl t', fun h => .inl h, fun h => .inl h⟩
  · exact .inr ⟨t', hi, .refl t', fun h => .inl h, fun h => .inl h⟩
  · exact .inr ⟨t', hi, .refl t', fun h => .inl h, fun h => .inl h⟩

theorem Snapshots.next (hsnapshots : Snapshots w) (h : step w a = some w') : Snapshots w' := by
  obtain ⟨hepoch, hgeneration⟩ := step_counts h
  refine ⟨hepoch.lt hsnapshots.epoch_lt, fun s => (hgeneration s).lt (hsnapshots.generation_lt s),
    fun i t' hi hhas => ?_, fun i t' hi hhas => ?_⟩
  · rcases step_reads h hi with hbegun | ⟨t, ht, hcontinues, hreads⟩
    · simp [Thread.hasEpoch, hbegun] at hhas
    · rcases hreads.epoch hhas with hold | hnew
      · rw [(hcontinues.epoch hold).2]
        exact (hsnapshots.epoch i t ht hold).counts hepoch
      · rw [hnew]
        exact .refl (hepoch.lt hsnapshots.epoch_lt) _
  · rcases step_reads h hi with hbegun | ⟨t, ht, hcontinues, hreads⟩
    · simp [Thread.hasGeneration, hbegun] at hhas
    · rcases hreads.generation hhas with hold | hnew
      · rw [(hcontinues.generation hold).2, hcontinues.submission]
        exact (hsnapshots.generation i t ht hold).counts (hgeneration _)
      · rw [hnew]
        exact .refl ((hgeneration _).lt (hsnapshots.generation_lt _)) _

end Snapshots

/-- A command waits for a request of its submission. -/
def World.Awaits (w : World) (i : Nat) (s : Text) (id abort : Nat) : Prop :=
  ∃ t, w.threads[i]? = some t ∧ t.submission = s ∧ t.request = some (id, abort)

/-- The snapshot of a command is the state of the table. -/
def World.Live (w : World) (t : Thread) : Prop :=
  t.live = ⟨w.shared.epoch, w.shared.generation t.submission⟩

/-- One more request has an id of its own, and when the queue is full its oldest entry is
of a request that is done, or the requests in flight are as many. -/
structure Room (w : World) : Prop where
  fresh : w.shared.FreshId
  unused : ∀ i s abort, ¬ w.Awaits i s w.shared.nextRequestId abort
  oldest : ∀ s id rest, w.shared.order = (s, id) :: rest → w.shared.order.length = 1024 →
    (∃ request ∈ w.shared.tracked s, request.id = id) → 1024 ≤ w.shared.trackedCount

/-- A poll stores its permit while its snapshot is live, and a request is registered when
there is room for it. -/
def KeepsLive (w : World) : Action → Prop
  | .advance i _ _ => ∀ t, w.threads[i]? = some t → t.phase = .running →
    (∀ sessionId rest, t.rest = .settlePoll sessionId :: rest →
      (World.granted t.outcome).isSome → w.Live t) ∧
    (∀ rest, t.rest = .abortableRequest :: rest → w.Live t → Room w)
  | _ => True

/-- The table and the commands that wait agree: what is tracked is waited for and not
aborted, and what is waited for is tracked or aborted. -/
structure Tracking (w : World) : Prop where
  order : w.shared.order.length ≤ 1024
  handle_lt : ∀ i s id abort, w.Awaits i s id abort → abort < w.handles
  aborted_lt : ∀ abort ∈ w.aborted, abort < w.handles
  id_inj : ∀ i j s s' id abort abort', w.Awaits i s id abort → w.Awaits j s' id abort' → i = j
  handle_inj : ∀ i j s s' id id' abort, w.Awaits i s id abort → w.Awaits j s' id' abort → i = j
  known : ∀ i s id abort, w.Awaits i s id abort →
    ⟨id, abort⟩ ∈ w.shared.tracked s ∨ abort ∈ w.aborted
  pending : ∀ s, ∀ request ∈ w.shared.tracked s,
    request.abort ∉ w.aborted ∧ ∃ i, w.Awaits i s request.id request.abort
  nodup : ∀ s, ((w.shared.tracked s).map (·.abort)).Nodup

section Tracking

variable {w w' : World} {i : Nat} {t t' : Thread} {a : Action}

theorem World.Awaits.unique {s s' : Text} {id id' abort abort' : Nat}
    (h : w.Awaits i s id abort) (h' : w.Awaits i s' id' abort') :
    s = s' ∧ id = id' ∧ abort = abort' := by
  obtain ⟨t, ht, rfl, hrequest⟩ := h
  obtain ⟨t', ht', rfl, hrequest'⟩ := h'
  obtain rfl : t = t' := Option.some.inj (ht.symm.trans ht')
  rw [hrequest] at hrequest'
  cases hrequest'
  exact ⟨rfl, rfl, rfl⟩

theorem awaits_set {j : Nat} {s : Text} {id abort : Nat} (ht : w.threads[i]? = some t)
    (hthreads : w'.threads = w.threads.set i t') :
    w'.Awaits j s id abort ↔
      (j = i ∧ t'.submission = s ∧ t'.request = some (id, abort)) ∨
        (j ≠ i ∧ w.Awaits j s id abort) := by
  simp only [World.Awaits, hthreads, Lists.getElem?_set_eq_some ht]
  constructor
  · rintro ⟨u, ⟨rfl, rfl⟩ | ⟨hj, hu⟩, hs, hrequest⟩
    · exact .inl ⟨rfl, hs, hrequest⟩
    · exact .inr ⟨hj, u, hu, hs, hrequest⟩
  · rintro (⟨rfl, hs, hrequest⟩ | ⟨hj, u, hu, hs, hrequest⟩)
    · exact ⟨t', .inl ⟨rfl, rfl⟩, hs, hrequest⟩
    · exact ⟨u, .inr ⟨hj, hu⟩, hs, hrequest⟩

theorem awaits_quiet {j : Nat} {s : Text} {id abort : Nat} (ht : w.threads[i]? = some t)
    (hthreads : w'.threads = w.threads.set i t') (hbefore : t.request = none)
    (hafter : t'.request = none) : w'.Awaits j s id abort ↔ w.Awaits j s id abort := by
  rw [awaits_set ht hthreads]
  constructor
  · rintro (⟨-, -, hrequest⟩ | ⟨-, hawaits⟩)
    · rw [hafter] at hrequest
      cases hrequest
    · exact hawaits
  · intro hawaits
    refine .inr ⟨?_, hawaits⟩
    rintro rfl
    obtain ⟨u, hu, -, hrequest⟩ := hawaits
    rw [ht] at hu
    cases hu
    rw [hbefore] at hrequest
    cases hrequest

theorem awaits_append {u : Thread} {j : Nat} {s : Text} {id abort : Nat} (hu : u.request = none) :
    ({ w with threads := w.threads ++ [u] } : World).Awaits j s id abort ↔
      w.Awaits j s id abort := by
  constructor
  · rintro ⟨t, ht, hs, hrequest⟩
    rcases Lists.getElem?_concat ht with ht | ⟨-, rfl⟩
    · exact ⟨t, ht, hs, hrequest⟩
    · rw [hu] at hrequest
      cases hrequest
  · rintro ⟨t, ht, hs, hrequest⟩
    exact ⟨t, Lists.getElem?_concat_of_some ht, hs, hrequest⟩

theorem Tracking.same (h : Tracking w)
    (hawaits : ∀ j s id abort, w'.Awaits j s id abort ↔ w.Awaits j s id abort)
    (hrequests : w'.shared.requests = w.shared.requests) (horder : w'.shared.order = w.shared.order)
    (haborted : w'.aborted = w.aborted) (hhandles : w.handles ≤ w'.handles) : Tracking w' := by
  have htracked : ∀ s, w'.shared.tracked s = w.shared.tracked s := fun s => by
    rw [Ephemeral.tracked, hrequests, Ephemeral.tracked]
  refine ⟨horder ▸ h.order, fun j s id abort hj => ?_, fun abort habort => ?_, ?_, ?_, ?_, ?_, ?_⟩
  · exact (h.handle_lt j s id abort ((hawaits _ _ _ _).mp hj)).trans_le hhandles
  · exact (h.aborted_lt abort (haborted ▸ habort)).trans_le hhandles
  · intro j k s s' id abort abort' hj hk
    exact h.id_inj j k s s' id abort abort' ((hawaits _ _ _ _).mp hj) ((hawaits _ _ _ _).mp hk)
  · intro j k s s' id id' abort hj hk
    exact h.handle_inj j k s s' id id' abort ((hawaits _ _ _ _).mp hj) ((hawaits _ _ _ _).mp hk)
  · intro j s id abort hj
    rw [htracked, haborted]
    exact h.known j s id abort ((hawaits _ _ _ _).mp hj)
  · intro s request hrequest
    rw [htracked] at hrequest
    obtain ⟨hpending, j, hj⟩ := h.pending s request hrequest
    exact ⟨haborted ▸ hpending, j, (hawaits _ _ _ _).mpr hj⟩
  · intro s
    rw [htracked]
    exact h.nodup s

theorem Tracking.revoked (h : Tracking w) (gone : List Nat)
    (hthreads : w'.threads = w.threads) (hhandles : w'.handles = w.handles)
    (horder : w'.shared.order.length ≤ 1024) (haborted : w'.aborted = gone ++ w.aborted)
    (htracked : ∀ s, w'.shared.tracked s = w.shared.tracked s ∨ w'.shared.tracked s = [])
    (hgone : ∀ abort, abort ∈ gone ↔ ∃ s, w'.shared.tracked s = [] ∧
      ∃ request ∈ w.shared.tracked s, request.abort = abort) : Tracking w' := by
  have hawaits : ∀ j s id abort, w'.Awaits j s id abort ↔ w.Awaits j s id abort := fun _ _ _ _ => by
    rw [World.Awaits, hthreads, World.Awaits]
  refine ⟨horder, fun j s id abort hj => ?_, fun abort habort => ?_, ?_, ?_, ?_, ?_, ?_⟩
  · rw [hhandles]
    exact h.handle_lt j s id abort ((hawaits _ _ _ _).mp hj)
  · rw [hhandles]
    rw [haborted, List.mem_append] at habort
    rcases habort with habort | habort
    · obtain ⟨s, -, request, hrequest, rfl⟩ := (hgone abort).mp habort
      obtain ⟨-, j, hj⟩ := h.pending s request hrequest
      exact h.handle_lt _ _ _ _ hj
    · exact h.aborted_lt abort habort
  · intro j k s s' id abort abort' hj hk
    exact h.id_inj j k s s' id abort abort' ((hawaits _ _ _ _).mp hj) ((hawaits _ _ _ _).mp hk)
  · intro j k s s' id id' abort hj hk
    exact h.handle_inj j k s s' id id' abort ((hawaits _ _ _ _).mp hj) ((hawaits _ _ _ _).mp hk)
  · intro j s id abort hj
    rw [haborted, List.mem_append]
    rcases h.known j s id abort ((hawaits _ _ _ _).mp hj) with hrequest | habort
    · rcases htracked s with hsame | hnone
      · exact .inl (hsame ▸ hrequest)
      · exact .inr (.inl ((hgone abort).mpr ⟨s, hnone, _, hrequest, rfl⟩))
    · exact .inr (.inr habort)
  · intro s request hrequest
    have hsame : w'.shared.tracked s = w.shared.tracked s := by
      rcases htracked s with hsame | hnone
      · exact hsame
      · rw [hnone] at hrequest
        cases hrequest
    obtain ⟨hpending, j, hj⟩ := h.pending s request (hsame ▸ hrequest)
    refine ⟨fun habort => ?_, j, (hawaits _ _ _ _).mpr hj⟩
    rw [haborted, List.mem_append] at habort
    rcases habort with habort | habort
    · obtain ⟨s', hnone, request', hrequest', heq⟩ := (hgone _).mp habort
      obtain ⟨-, k, hk⟩ := h.pending s' request' hrequest'
      rw [heq] at hk
      obtain rfl : j = k := h.handle_inj _ _ _ _ _ _ _ hj hk
      obtain ⟨rfl, -, -⟩ := hj.unique hk
      rw [hnone] at hrequest
      cases hrequest
    · exact hpending habort
  · intro s
    rcases htracked s with hsame | hnone
    · rw [hsame]
      exact h.nodup s
    · rw [hnone]
      exact List.nodup_nil

theorem mem_incoming {tracked : List TrackedRequest} {request new : TrackedRequest} {s k : Text}
    (h : request ∈ tracked ++ if s = k then [new] else []) :
    request ∈ tracked ∨ (s = k ∧ request = new) := by
  rcases List.mem_append.mp h with h | h
  · exact .inl h
  · split at h
    · rename_i hs
      exact .inr ⟨hs, List.mem_singleton.mp h⟩
    · cases h

theorem Tracking.nodup_incoming (h : Tracking w) (s k : Text) (id : Nat) :
    ((w.shared.tracked s ++ if s = k then [(⟨id, w.handles⟩ : TrackedRequest)] else []).map
      (·.abort)).Nodup := by
  split
  · rw [List.map_append, List.nodup_append]
    refine ⟨h.nodup s, List.nodup_singleton _, ?_⟩
    intro abort habort abort' habort' heq
    obtain ⟨request, hrequest, rfl⟩ := List.mem_map.mp habort
    obtain ⟨-, j, hj⟩ := h.pending s request hrequest
    rw [List.map_cons, List.map_nil, List.mem_singleton] at habort'
    exact absurd (h.handle_lt _ _ _ _ hj) (by rw [heq, habort']; exact lt_irrefl _)
  · rw [List.append_nil]
    exact h.nodup s

theorem Tracking.registered (h : Tracking w) (hroom : Room w) (ht : w.threads[i]? = some t)
    (hbefore : t.request = none) {id : Nat} {gone : List Nat}
    (hthreads : w'.threads = w.threads.set i t') (hs : t'.submission = t.submission)
    (hrequest : t'.request = some (id, w.handles)) (hhandles : w'.handles = w.handles + 1)
    (haborted : w'.aborted = gone ++ w.aborted)
    (hregisters : Ephemeral.Registers w.shared t.submission w.handles id w'.shared gone) :
    Tracking w' := by
  have hold : ∀ s abort, ¬ w.Awaits i s id abort := fun s abort => by
    rw [hregisters.id_eq]
    exact hroom.unused i s abort
  have hawaits : ∀ j s id' abort, w'.Awaits j s id' abort ↔
      (j = i ∧ t.submission = s ∧ id = id' ∧ w.handles = abort) ∨ w.Awaits j s id' abort := by
    intro j s id' abort
    rw [awaits_set ht hthreads, hrequest, hs, Option.some.injEq, Prod.mk.injEq]
    constructor
    · rintro (⟨hj, hs, hid, habort⟩ | ⟨-, hj⟩)
      · exact .inl ⟨hj, hs, hid, habort⟩
      · exact .inr hj
    · rintro (⟨hj, hs, hid, habort⟩ | hj)
      · exact .inl ⟨hj, hs, hid, habort⟩
      · refine .inr ⟨?_, hj⟩
        rintro rfl
        obtain ⟨u, hu, -, hrequest⟩ := hj
        rw [ht] at hu
        cases hu
        rw [hbefore] at hrequest
        cases hrequest
  have hgone : ∀ abort ∈ gone, abort < w.handles := by
    intro abort habort
    obtain ⟨k, request, hrequest, rfl, -⟩ := hregisters.aborted abort habort
    obtain ⟨-, j, hj⟩ := h.pending k request hrequest
    exact h.handle_lt _ _ _ _ hj
  refine ⟨hregisters.order, fun j s id' abort hj => ?_, fun abort habort => ?_, ?_, ?_, ?_, ?_, ?_⟩
  · rw [hhandles]
    rcases (hawaits _ _ _ _).mp hj with ⟨-, -, -, rfl⟩ | hj
    · exact Nat.lt_succ_self _
    · exact (h.handle_lt _ _ _ _ hj).trans (Nat.lt_succ_self _)
  · rw [hhandles]
    rw [haborted, List.mem_append] at habort
    rcases habort with habort | habort
    · exact (hgone abort habort).trans (Nat.lt_succ_self _)
    · exact (h.aborted_lt abort habort).trans (Nat.lt_succ_self _)
  · intro j k s s' id' abort abort' hj hk
    rcases (hawaits _ _ _ _).mp hj with ⟨rfl, -, rfl, -⟩ | hj
    · rcases (hawaits _ _ _ _).mp hk with ⟨rfl, -⟩ | hk
      · rfl
      · exact absurd hk (hregisters.id_eq ▸ hroom.unused k s' abort')
    · rcases (hawaits _ _ _ _).mp hk with ⟨rfl, -, rfl, -⟩ | hk
      · exact absurd hj (hregisters.id_eq ▸ hroom.unused j s abort)
      · exact h.id_inj _ _ _ _ _ _ _ hj hk
  · intro j k s s' id' id'' abort hj hk
    rcases (hawaits _ _ _ _).mp hj with ⟨rfl, -, -, rfl⟩ | hj
    · rcases (hawaits _ _ _ _).mp hk with ⟨rfl, -⟩ | hk
      · rfl
      · exact absurd (h.handle_lt _ _ _ _ hk) (lt_irrefl _)
    · rcases (hawaits _ _ _ _).mp hk with ⟨rfl, -, -, rfl⟩ | hk
      · exact absurd (h.handle_lt _ _ _ _ hj) (lt_irrefl _)
      · exact h.handle_inj _ _ _ _ _ _ _ hj hk
  · intro j s id' abort hj
    rw [haborted, List.mem_append, ← or_assoc]
    rcases (hawaits _ _ _ _).mp hj with ⟨-, rfl, rfl, rfl⟩ | hj
    · exact .inl (hregisters.kept _ ⟨id, w.handles⟩ (by simp))
    · rcases h.known _ _ _ _ hj with hmem | habort
      · exact .inl (hregisters.kept _ _ (List.mem_append_left _ hmem))
      · exact .inr habort
  · intro s request hmem
    rcases mem_incoming ((hregisters.sublist s).subset hmem) with hrequest | ⟨rfl, rfl⟩
    · obtain ⟨hpending, j, hj⟩ := h.pending s request hrequest
      refine ⟨fun habort => ?_, j, (hawaits _ _ _ _).mpr (.inr hj)⟩
      rw [haborted, List.mem_append] at habort
      rcases habort with habort | habort
      · obtain ⟨k, request', hrequest', heq, hdropped, -⟩ := hregisters.aborted _ habort
        obtain ⟨-, j', hj'⟩ := h.pending k request' hrequest'
        rw [heq] at hj'
        obtain rfl : j = j' := h.handle_inj _ _ _ _ _ _ _ hj hj'
        obtain ⟨rfl, hid, -⟩ := hj.unique hj'
        have hsame : request = request' := by
          cases request
          cases request'
          simp_all
        exact hdropped (hsame ▸ hmem)
      · exact hpending habort
    · refine ⟨fun habort => ?_, i, (hawaits _ _ _ _).mpr (.inl ⟨rfl, rfl, rfl, rfl⟩)⟩
      rw [haborted, List.mem_append] at habort
      rcases habort with habort | habort
      · exact absurd (hgone _ habort) (lt_irrefl _)
      · exact absurd (h.aborted_lt _ habort) (lt_irrefl _)
  · intro s
    exact ((hregisters.sublist s).map _).nodup (h.nodup_incoming s t.submission id)

theorem Tracking.finished (h : Tracking w) (ht : w.threads[i]? = some t) {id abort : Nat}
    (hrequest : t.request = some (id, abort)) (hthreads : w'.threads = w.threads.set i t')
    (hafter : t'.request = none) (hhandles : w'.handles = w.handles)
    (haborted : w'.aborted = w.aborted)
    (hshared : w'.shared = w.shared.untrackRequest t.submission id) : Tracking w' := by
  have hawaits : ∀ j s id' abort', w'.Awaits j s id' abort' ↔ j ≠ i ∧ w.Awaits j s id' abort' := by
    intro j s id' abort'
    rw [awaits_set ht hthreads, hafter]
    simp
  have htracked : ∀ s request, request ∈ w'.shared.tracked s ↔
      request ∈ w.shared.tracked s ∧ (s = t.submission → request.id ≠ id) := by
    intro s request
    rw [hshared, Ephemeral.tracked_untrackRequest]
    split
    · rename_i hs
      subst hs
      simp
    · rename_i hs
      simp [hs]
  have horder : w'.shared.order = w.shared.order := by
    rw [hshared]
    unfold Ephemeral.untrackRequest
    split <;> rfl
  have hhere : w.Awaits i t.submission id abort := ⟨t, ht, rfl, hrequest⟩
  refine ⟨horder ▸ h.order, fun j s id' abort' hj => ?_, fun abort' habort => ?_, ?_, ?_, ?_, ?_, ?_⟩
  · rw [hhandles]
    exact h.handle_lt _ _ _ _ ((hawaits _ _ _ _).mp hj).2
  · rw [hhandles]
    exact h.aborted_lt _ (haborted ▸ habort)
  · intro j k s s' id' abort' abort'' hj hk
    exact h.id_inj _ _ _ _ _ _ _ ((hawaits _ _ _ _).mp hj).2 ((hawaits _ _ _ _).mp hk).2
  · intro j k s s' id' id'' abort' hj hk
    exact h.handle_inj _ _ _ _ _ _ _ ((hawaits _ _ _ _).mp hj).2 ((hawaits _ _ _ _).mp hk).2
  · intro j s id' abort' hj
    obtain ⟨hne, hj⟩ := (hawaits _ _ _ _).mp hj
    rw [haborted]
    refine (h.known _ _ _ _ hj).imp_left fun hmem => (htracked _ _).mpr ⟨hmem, ?_⟩
    rintro - rfl
    exact hne (h.id_inj _ _ _ _ _ _ _ hj hhere)
  · intro s request hmem
    obtain ⟨hmem, hother⟩ := (htracked _ _).mp hmem
    obtain ⟨hpending, j, hj⟩ := h.pending s request hmem
    refine ⟨haborted ▸ hpending, j, (hawaits _ _ _ _).mpr ⟨?_, hj⟩⟩
    rintro rfl
    obtain ⟨hs, hid, -⟩ := hj.unique hhere
    exact hother hs hid
  · intro s
    have hsublist : (w'.shared.tracked s).Sublist (w.shared.tracked s) := by
      rw [hshared, Ephemeral.tracked_untrackRequest]
      split
      · rename_i hs
        rw [hs]
        exact List.filter_sublist
      · exact List.Sublist.refl _
    exact (hsublist.map _).nodup (h.nodup s)

theorem Tracking.registers (h : Tracking w) (hok : KeepsLive w a) (ht : w.threads[i]? = some t)
    {active : Bool} {now id : Nat} {rest : List Stage} {shared : Ephemeral} {aborted : List Nat}
    (ha : a = .advance i active now) (hphase : t.phase = .running)
    (hrest : t.rest = .abortableRequest :: rest)
    (htrack : w.shared.trackRequestIfLive t.submission t.live.epoch t.live.generation w.handles =
      some (id, shared, aborted)) :
    Room w ∧ Ephemeral.Registers w.shared t.submission w.handles id shared aborted := by
  subst ha
  obtain ⟨hepoch, hgeneration⟩ := Ephemeral.trackRequestIfLive_live htrack
  have hroom : Room w := (hok t ht hphase).2 rest hrest (by rw [World.Live, hepoch, hgeneration])
  have hnodup (s : Text) : (w.shared.tracked s ++ if s = t.submission then
      [(⟨w.shared.nextRequestId, w.handles⟩ : TrackedRequest)] else []).Nodup :=
    (h.nodup_incoming s t.submission w.shared.nextRequestId).of_map _
  exact ⟨hroom, Ephemeral.trackRequestIfLive_registers h.order hroom.fresh hnodup htrack⟩

theorem Effect.tracking (h : Tracking w) (hok : KeepsLive w a) (ht : w.threads[i]? = some t)
    (heffect : Effect w i t a w') : Tracking w' := by
  cases heffect with
  | quiet _ t' shared handles hbefore hafter _ _ _ hquiet hhandles =>
    exact h.same (fun _ _ _ _ => awaits_quiet ht rfl hbefore hafter) hquiet.requests hquiet.order
      rfl hhandles
  | store active sessionId permit rest now hphase =>
    have hbefore : t.request = none := by simp [Thread.request, hphase]
    refine h.same (fun _ _ _ _ => awaits_quiet ht rfl hbefore ?_) ?_ ?_ rfl (le_refl _)
    · simpa [Thread.request] using hbefore
    all_goals
      unfold World.put Ephemeral.storePermit
      split <;> rfl
  | register active now rest id shared aborted hphase hrest htrack =>
    have hbefore : t.request = none := by simp [Thread.request, hphase]
    obtain ⟨hroom, hregisters⟩ := h.registers hok ht rfl hphase hrest htrack
    exact h.registered hroom ht hbefore rfl rfl rfl rfl rfl hregisters
  | finish _ id abort t' hphase hafter =>
    have hrequest : t.request = some (id, abort) := by simp [Thread.request, hphase]
    exact h.finished ht hrequest rfl hafter rfl rfl rfl

theorem Tracking.next (h : Tracking w) (hok : KeepsLive w a) (hstep : step w a = some w') :
    Tracking w' := by
  rcases step_cases hstep with ⟨u, hbegun, -, rfl⟩ | ⟨i, t, ht, heffect⟩ | ⟨s, -, rfl⟩ | ⟨-, rfl⟩
  · have hrequest : u.request = none := by simp [Thread.request, hbegun]
    exact h.same (fun _ _ _ _ => awaits_append hrequest) rfl rfl rfl (le_refl _)
  · exact heffect.tracking h hok ht
  · refine h.revoked (w.shared.cancelSubmission s).2 rfl rfl h.order rfl
      (fun k => ?_) fun abort => ?_
    · rw [Ephemeral.tracked_cancelSubmission]
      split
      · exact .inr rfl
      · exact .inl rfl
    · simp only [Ephemeral.tracked_cancelSubmission]
      constructor
      · intro habort
        obtain ⟨request, hrequest, rfl⟩ := List.mem_map.mp habort
        exact ⟨s, if_pos rfl, request, hrequest, rfl⟩
      · rintro ⟨k, hnone, request, hrequest, rfl⟩
        refine List.mem_map_of_mem ?_
        split at hnone
        · rename_i hk
          exact hk ▸ hrequest
        · rw [hnone] at hrequest
          cases hrequest
  · refine h.revoked w.shared.noteMeasurementStart.2 rfl rfl (Nat.zero_le _) rfl
      (fun _ => .inr rfl) fun abort => ?_
    rw [Ephemeral.mem_aborted_noteMeasurementStart]
    exact exists_congr fun s => ⟨fun h => ⟨rfl, h⟩, fun h => h.2⟩

end Tracking

/-- The command whose poll obtained the permit of a submission is not revoked. -/
def World.Provided (w : World) (s : Text) : Prop :=
  ∃ i t, w.providers.get s = some i ∧ w.threads[i]? = some t ∧ t.submission = s ∧
    t.hasGeneration ∧ w.Live t

def Permits (w : World) : Prop :=
  ∀ s, (w.shared.permits.get s).isSome → w.Provided s

section Permits

variable {w w' : World} {i : Nat} {t : Thread} {a : Action} {s : Text}

theorem World.Provided.next (h : w.Provided s) (hstep : step w a = some w')
    (hproviders : w'.providers.get s = w.providers.get s)
    (hepoch : w'.shared.epoch = w.shared.epoch)
    (hgeneration : w'.shared.generation s = w.shared.generation s) : w'.Provided s := by
  obtain ⟨i, t, hi, ht, rfl, hhas, hlive⟩ := h
  obtain ⟨t', ht', hcontinues⟩ := step_continues hstep ht
  have hepoch' := hcontinues.epoch (by
    simp only [Thread.hasGeneration, Bool.and_eq_true] at hhas
    exact hhas.1)
  obtain ⟨hhas', hgeneration'⟩ := hcontinues.generation hhas
  refine ⟨i, t', hproviders.trans hi, ht', hcontinues.submission, hhas', ?_⟩
  rw [World.Live, hcontinues.submission, hepoch, hgeneration, ← hlive]
  exact LiveGuard.ext hepoch'.2 hgeneration'

theorem Effect.permits (hpermits : Permits w) (hok : KeepsLive w a)
    (ht : w.threads[i]? = some t) (heffect : Effect w i t a w') (hstep : step w a = some w') :
    Permits w' := by
  obtain ⟨hepoch, hgenerations, -⟩ := heffect.counters
  have hgeneration (s : Text) : w'.shared.generation s = w.shared.generation s := by
    rw [Ephemeral.generation, hgenerations, Ephemeral.generation]
  have hkept (hsame : ∀ s, (w'.shared.permits.get s).isSome → (w.shared.permits.get s).isSome)
      (hproviders : w'.providers = w.providers) : Permits w' := fun s hs =>
    (hpermits s (hsame s hs)).next hstep (by rw [hproviders]) hepoch (hgeneration s)
  cases heffect with
  | quiet _ t' shared handles _ _ _ _ _ hquiet =>
    refine hkept (fun s hs => ?_) rfl
    obtain ⟨stored, hstored⟩ := Option.isSome_iff_exists.mp hs
    rw [hquiet.permits s stored hstored]
    rfl
  | store active sessionId permit rest now hphase hrest hgranted =>
    intro s hs
    by_cases hsubmission : s = t.submission
    · subst hsubmission
      have hlive : w.Live t := (hok t ht hphase).1 sessionId rest hrest (by rw [hgranted]; rfl)
      refine ⟨i, { t with rest := rest }, ?_, (Lists.getElem?_set_eq_some ht).mpr (.inl ⟨rfl, rfl⟩), rfl, ?_, ?_⟩
      · simp only [World.put]
        rw [KeyMap.get_insert, if_pos rfl]
      · simp [Thread.hasGeneration, hphase]
      · rw [World.Live, hepoch, hgeneration]
        exact hlive
    · refine (hpermits s ?_).next hstep ?_ hepoch (hgeneration s)
      · unfold World.put Ephemeral.storePermit at hs
        split at hs
        · simpa only [KeyMap.get_insert, if_neg hsubmission] using hs
        · exact hs
      · simp only [World.put]
        rw [KeyMap.get_insert, if_neg hsubmission]
  | register active now rest id shared aborted _ _ htrack =>
    refine hkept (fun s hs => ?_) rfl
    rw [Ephemeral.trackRequestIfLive] at htrack
    split at htrack
    · cases htrack
    · cases htrack
      exact hs
  | finish _ id abort t' =>
    refine hkept (fun s hs => ?_) rfl
    unfold World.put Ephemeral.untrackRequest at hs
    split at hs <;> exact hs

theorem Permits.next (hpermits : Permits w) (hok : KeepsLive w a) (hstep : step w a = some w') :
    Permits w' := by
  rcases step_cases hstep with ⟨u, -, -, rfl⟩ | ⟨i, t, ht, heffect⟩ | ⟨s, -, rfl⟩ | ⟨-, rfl⟩
  · exact fun s hs => (hpermits s hs).next hstep rfl rfl rfl
  · exact heffect.permits hpermits hok ht hstep
  · intro k hk
    simp only [Ephemeral.cancelSubmission, KeyMap.get_erase] at hk
    by_cases hs : k = s
    · simp [hs] at hk
    · rw [if_neg hs] at hk
      refine (hpermits k hk).next hstep rfl rfl ?_
      rw [Ephemeral.generation_cancelSubmission, if_neg hs]
  · intro k hk
    cases hk

end Permits

def World.inFlight (w : World) : List (Text × Nat) :=
  w.threads.filterMap fun t =>
    (t.request.filter fun request => !w.aborted.contains request.2).map fun request =>
      (t.submission, request.2)

/-- One more request of a submission is in flight after a step. -/
def Joins (w w' : World) (s : Text) : Prop :=
  ∃ i id abort, w'.Awaits i s id abort ∧ ¬ w.Awaits i s id abort

section Aborts

variable {w w' : World} {a : Action} {s : Text} {abort : Nat}

theorem mem_inFlight {i id : Nat} (hawaits : w.Awaits i s id abort) (habort : abort ∉ w.aborted) :
    (s, abort) ∈ w.inFlight := by
  obtain ⟨t, ht, rfl, hrequest⟩ := hawaits
  refine List.mem_filterMap.mpr ⟨t, List.mem_of_getElem? ht, ?_⟩
  rw [hrequest, Option.filter_some, if_pos (by simpa using habort), Option.map_some]

theorem Tracking.tracked_inFlight (h : Tracking w) {request : TrackedRequest}
    (hrequest : request ∈ w.shared.tracked s) : (s, request.abort) ∈ w.inFlight := by
  obtain ⟨hpending, i, hi⟩ := h.pending s request hrequest
  exact mem_inFlight hi hpending

theorem Tracking.nodup_pairs (h : Tracking w) (s : Text) :
    ((w.shared.tracked s).map fun request => (s, request.abort)).Nodup := by
  have hpairs : ((w.shared.tracked s).map (·.abort)).map (fun abort => (s, abort)) =
      (w.shared.tracked s).map fun request => (s, request.abort) := List.map_map
  rw [← hpairs]
  exact (h.nodup s).map fun _ _ heq => (Prod.mk.inj heq).2

theorem Tracking.tracked_le (h : Tracking w) (s : Text) :
    (w.shared.tracked s).length ≤ (w.inFlight.filter fun entry => entry.1 = s).length := by
  rw [← List.length_map fun request : TrackedRequest => (s, request.abort)]
  refine ((h.nodup_pairs s).subperm fun entry hentry => ?_).length_le
  obtain ⟨request, hrequest, rfl⟩ := List.mem_map.mp hentry
  exact List.mem_filter.mpr ⟨h.tracked_inFlight hrequest, by simp⟩

theorem Tracking.trackedCount_le (h : Tracking w) :
    w.shared.trackedCount ≤ w.inFlight.length := by
  have htracked : ∀ entry ∈ w.shared.requests.entries, entry.2 = w.shared.tracked entry.1 :=
    fun entry hentry => (Ephemeral.tracked_of_get (KeyMap.get_eq_some.mpr hentry)).symm
  have hcount : w.shared.trackedCount = (w.shared.requests.entries.flatMap fun entry =>
      entry.2.map fun request => (entry.1, request.abort)).length := by
    simp [Ephemeral.trackedCount, List.length_flatMap]
  rw [hcount]
  refine (List.Nodup.subperm (List.nodup_flatMap.mpr ⟨fun entry hentry => ?_, ?_⟩)
    fun pair hpair => ?_).length_le
  · rw [htracked entry hentry]
    exact h.nodup_pairs entry.1
  · refine w.shared.requests.sorted.imp fun {entry entry'} hlt pair hpair hpair' => ?_
    obtain ⟨_, -, rfl⟩ := List.mem_map.mp hpair
    obtain ⟨_, -, heq⟩ := List.mem_map.mp hpair'
    exact hlt.ne (Prod.mk.inj heq).1.symm
  · obtain ⟨entry, hentry, hpair⟩ := List.mem_flatMap.mp hpair
    rw [htracked entry hentry] at hpair
    obtain ⟨request, hrequest, rfl⟩ := List.mem_map.mp hpair
    exact h.tracked_inFlight hrequest

theorem Tracking.joins (h : Tracking w) {i id : Nat} {t t' : Thread} (ht : w.threads[i]? = some t)
    (hthreads : w'.threads = w.threads.set i t') (hs : t'.submission = s)
    (hrequest : t'.request = some (id, w.handles)) : Joins w w' s := by
  refine ⟨i, id, w.handles, (awaits_set ht hthreads).mpr (.inl ⟨rfl, hs, hrequest⟩), ?_⟩
  exact fun hawaits => absurd (h.handle_lt _ _ _ _ hawaits) (lt_irrefl _)

/-- A handle is aborted by a revocation of its request, or by one more request when eight
of its submission are in flight, or 1024 in all. -/
theorem Tracking.aborted_step (h : Tracking w) (hok : KeepsLive w a) (hstep : step w a = some w')
    (hnew : abort ∈ w'.aborted) (hold : abort ∉ w.aborted) :
    ∃ i s id, w.Awaits i s id abort ∧ (a = .cancel s ∨ a = .measure ∨
      (Joins w w' s ∧ 8 < (w.inFlight.filter fun entry => entry.1 = s).length + 1) ∨
      ((∃ k, Joins w w' k) ∧ 1024 < w.inFlight.length + 1)) := by
  rcases step_cases hstep with ⟨u, -, -, rfl⟩ | ⟨i, t, ht, heffect⟩ | ⟨s, rfl, rfl⟩ | ⟨rfl, rfl⟩
  · exact absurd hnew hold
  · cases heffect with
    | quiet => exact absurd hnew hold
    | store => exact absurd hnew hold
    | register active now rest id shared aborted hphase hrest htrack =>
      obtain ⟨hroom, hregisters⟩ := h.registers hok ht rfl hphase hrest htrack
      rcases List.mem_append.mp hnew with hnew | hnew
      · obtain ⟨s, request, hrequest, rfl, -, hcause⟩ := hregisters.aborted abort hnew
        obtain ⟨-, j, hj⟩ := h.pending s request hrequest
        refine ⟨j, s, request.id, hj, .inr (.inr ?_)⟩
        rcases hcause with ⟨rfl, hmany⟩ | ⟨queue, hqueue, hfull⟩
        · exact .inl ⟨h.joins ht rfl rfl rfl, Nat.lt_succ_of_le (hmany.trans (h.tracked_le _))⟩
        · have hcount := hroom.oldest s request.id queue hqueue hfull ⟨request, hrequest, rfl⟩
          exact .inr ⟨⟨_, h.joins ht rfl rfl rfl⟩, Nat.lt_succ_of_le (hcount.trans h.trackedCount_le)⟩
      · exact absurd hnew hold
    | finish => exact absurd hnew hold
  · rcases List.mem_append.mp hnew with hnew | hnew
    · obtain ⟨request, hrequest, rfl⟩ := List.mem_map.mp hnew
      obtain ⟨-, i, hi⟩ := h.pending s request hrequest
      exact ⟨i, s, request.id, hi, .inl rfl⟩
    · exact absurd hnew hold
  · rcases List.mem_append.mp hnew with hnew | hnew
    · obtain ⟨s, request, hrequest, rfl⟩ := Ephemeral.mem_aborted_noteMeasurementStart.mp hnew
      obtain ⟨-, i, hi⟩ := h.pending s request hrequest
      exact ⟨i, s, request.id, hi, .inr (.inl rfl)⟩
    · exact absurd hnew hold

end Aborts

/-- A cancel of a submission, or a measurement start. -/
def Covers (a : Action) (s : Text) : Prop := a = .cancel s ∨ a = .measure

/-- The command has a snapshot from before the revocation. -/
def Earlier (a : Action) (t : Thread) : Prop :=
  (a = .cancel t.submission ∧ t.hasGeneration) ∨ (a = .measure ∧ t.hasEpoch)

/-- The snapshot of a command is one of a value that the counters have left. -/
def World.Revoked (w : World) (a : Action) (t : Thread) : Prop :=
  (a = .cancel t.submission ∧ t.hasGeneration ∧
      Behind 1 w.revocations t.live.generation (w.shared.generation t.submission)) ∨
    (a = .measure ∧ t.hasEpoch ∧ Behind 1 w.revocations t.live.epoch w.shared.epoch)

section Runs

variable {w w' w₁ w₂ w₃ : World} {a b : Action} {t t' : Thread} {i j : Nat}

theorem World.Revoked.not_live (h : w.Revoked a t) (hfew : w.revocations < 2 ^ 64) :
    ¬ w.Live t := by
  intro hlive
  rcases h with ⟨-, -, hbehind⟩ | ⟨-, -, hbehind⟩
  · exact hbehind.ne hfew (by rw [hlive])
  · exact hbehind.ne hfew (by rw [hlive])

theorem World.Revoked.next (h : w.Revoked a t) (hcontinues : Continues t t')
    (hstep : step w b = some w') : w'.Revoked a t' := by
  obtain ⟨hepoch, hgeneration⟩ := step_counts hstep
  rcases h with ⟨rfl, hhas, hbehind⟩ | ⟨rfl, hhas, hbehind⟩
  · obtain ⟨hhas', hsame⟩ := hcontinues.generation hhas
    refine .inl ⟨by rw [hcontinues.submission], hhas', ?_⟩
    rw [hsame, hcontinues.submission]
    exact hbehind.counts (hgeneration _)
  · obtain ⟨hhas', hsame⟩ := hcontinues.epoch hhas
    refine .inr ⟨rfl, hhas', ?_⟩
    rw [hsame]
    exact hbehind.counts hepoch

theorem Snapshots.revoked (h : Snapshots w) (hstep : step w a = some w₁)
    (ht : w.threads[i]? = some t) (hearlier : Earlier a t) :
    w₁.threads[i]? = some t ∧ w₁.Revoked a t := by
  rcases hearlier with ⟨rfl, hhas⟩ | ⟨rfl, hhas⟩
  · cases hstep
    refine ⟨ht, .inl ⟨rfl, hhas, ?_⟩⟩
    rw [Ephemeral.generation_cancelSubmission, if_pos rfl]
    exact (h.generation i t ht hhas).succ
  · cases hstep
    exact ⟨ht, .inr ⟨rfl, hhas, (h.epoch i t ht hhas).succ⟩⟩

/-- Only a command with a live snapshot gets a request registered. -/
theorem live_of_joins (hstep : step w b = some w') (ht : w.threads[i]? = some t) {s : Text}
    {id abort : Nat} (h : w'.Awaits i s id abort) : w.Awaits i s id abort ∨ w.Live t := by
  rcases step_cases hstep with ⟨u, hbegun, -, rfl⟩ | ⟨j, u, hu, heffect⟩ | ⟨k, -, rfl⟩ | ⟨-, rfl⟩
  · exact .inl ((awaits_append (by simp [Thread.request, hbegun])).mp h)
  · cases heffect with
    | quiet _ t' shared handles hbefore hafter =>
      exact .inl ((awaits_quiet hu rfl hbefore hafter).mp h)
    | store active sessionId permit rest now hphase =>
      refine .inl ((awaits_quiet hu rfl ?_ ?_).mp h) <;> simp [Thread.request, hphase]
    | register active now rest id shared aborted hphase hrest htrack =>
      rcases (awaits_set hu rfl).mp h with ⟨rfl, -⟩ | ⟨-, h⟩
      · obtain rfl : t = u := Option.some.inj (ht.symm.trans hu)
        obtain ⟨hepoch, hgeneration⟩ := Ephemeral.trackRequestIfLive_live htrack
        exact .inr (by rw [World.Live, hepoch, hgeneration])
      · exact .inl h
    | finish _ id abort t' hphase hafter =>
      rcases (awaits_set hu rfl).mp h with ⟨-, -, hrequest⟩ | ⟨-, h⟩
      · rw [hafter] at hrequest
        cases hrequest
      · exact .inl h
  · exact .inl h
  · exact .inl h

theorem live_of_provided (hpermits : Permits w) (hstep : step w b = some w')
    (ht' : w'.threads[j]? = some t') (hprovider : t'.provider = some i) :
    (∃ t, w.threads[j]? = some t ∧ t.provider = some i) ∨
      ∃ t, w.threads[i]? = some t ∧ w.Live t := by
  rcases step_cases hstep with ⟨u, -, hnone, rfl⟩ | ⟨k, u, hu, heffect⟩ | ⟨k, -, rfl⟩ | ⟨-, rfl⟩
  · rcases Lists.getElem?_concat ht' with ht' | ⟨-, rfl⟩
    · exact .inl ⟨t', ht', hprovider⟩
    · rw [hnone] at hprovider
      cases hprovider
  · cases heffect with
    | quiet _ u' shared handles _ _ _ _ hreturned =>
      rcases (Lists.getElem?_set_eq_some hu).mp ht' with ⟨rfl, rfl⟩ | ⟨-, ht'⟩
      · rcases hreturned i hprovider with hold | ⟨hsome, hproviders⟩
        · exact .inl ⟨u, hu, hold⟩
        · obtain ⟨i', t, hi', ht, -, -, hlive⟩ := hpermits _ hsome
          obtain rfl : i' = i := Option.some.inj (hi'.symm.trans hproviders)
          exact .inr ⟨t, ht, hlive⟩
      · exact .inl ⟨t', ht', hprovider⟩
    | store =>
      rcases (Lists.getElem?_set_eq_some hu).mp ht' with ⟨rfl, rfl⟩ | ⟨-, ht'⟩
      · exact .inl ⟨u, hu, hprovider⟩
      · exact .inl ⟨t', ht', hprovider⟩
    | register =>
      rcases (Lists.getElem?_set_eq_some hu).mp ht' with ⟨rfl, rfl⟩ | ⟨-, ht'⟩
      · exact .inl ⟨u, hu, hprovider⟩
      · exact .inl ⟨t', ht', hprovider⟩
    | finish _ id abort u' _ _ _ hsame =>
      rcases (Lists.getElem?_set_eq_some hu).mp ht' with ⟨rfl, rfl⟩ | ⟨-, ht'⟩
      · exact .inl ⟨u, hu, hsame ▸ hprovider⟩
      · exact .inl ⟨t', ht', hprovider⟩
  · exact .inl ⟨t', ht', hprovider⟩
  · exact .inl ⟨t', ht', hprovider⟩

theorem Tracking.covered (h : Tracking w) {s : Text} (hcovers : Covers a s)
    (hstep : step w a = some w₁) {id abort : Nat} (hawaits : w.Awaits i s id abort) :
    abort ∈ w₁.aborted := by
  rcases h.known i s id abort hawaits with hmem | habort
  · rcases hcovers with rfl | rfl
    · cases hstep
      exact List.mem_append_left _ (List.mem_map.mpr ⟨_, hmem, rfl⟩)
    · cases hstep
      exact List.mem_append_left _
        (Ephemeral.mem_aborted_noteMeasurementStart.mpr ⟨s, _, hmem, rfl⟩)
  · rcases hcovers with rfl | rfl
    · cases hstep
      exact List.mem_append_right _ habort
    · cases hstep
      exact List.mem_append_right _ habort

structure Inv (w : World) : Prop where
  snapshots : Snapshots w
  tracking : Tracking w
  permits : Permits w

theorem Inv.start : Inv {} := by
  refine ⟨⟨Nat.two_pow_pos 64, fun s => Nat.two_pow_pos 64, fun i t ht => ?_, fun i t ht => ?_⟩,
    ⟨Nat.zero_le _, ?_, ?_, ?_, ?_, ?_, ?_, ?_⟩, fun s hs => by cases hs⟩
  · cases ht
  · cases ht
  · rintro i s id abort ⟨t, ht, -⟩
    cases ht
  · intro abort habort
    cases habort
  · rintro i j s s' id abort abort' ⟨t, ht, -⟩
    cases ht
  · rintro i j s s' id id' abort ⟨t, ht, -⟩
    cases ht
  · rintro i s id abort ⟨t, ht, -⟩
    cases ht
  · intro s request hrequest
    cases hrequest
  · exact fun s => List.nodup_nil

theorem Inv.next (h : Inv w) (hok : KeepsLive w a) (hstep : step w a = some w') : Inv w' :=
  ⟨h.snapshots.next hstep, h.tracking.next hok hstep, h.permits.next hok hstep⟩

/-- While polls store permits under live snapshots and there is room for the requests
registered: a request is aborted by a revocation of it or by overflow alone, a revocation
aborts every request it covers, and no command with a snapshot from before it registers a
request or has its permit returned. -/
theorem sharing_revoked (hrun : Reaches step KeepsLive {} w) :
    (∀ a w', KeepsLive w a → step w a = some w' → ∀ abort ∈ w'.aborted, abort ∉ w.aborted →
      ∃ i s id, w.Awaits i s id abort ∧ (Covers a s ∨
        (Joins w w' s ∧ 8 < (w.inFlight.filter fun entry => entry.1 = s).length + 1) ∨
        ((∃ k, Joins w w' k) ∧ 1024 < w.inFlight.length + 1))) ∧
    ∀ a w₁, step w a = some w₁ →
      (∀ i s id abort, Covers a s → w.Awaits i s id abort → abort ∈ w₁.aborted) ∧
      ∀ w₂, Reaches step KeepsLive w₁ w₂ → w₂.revocations < 2 ^ 64 →
        ∀ i t, w.threads[i]? = some t → Earlier a t → ∀ b w₃, step w₂ b = some w₃ →
          (∀ s id abort, w₃.Awaits i s id abort → w₂.Awaits i s id abort) ∧
          ∀ (j : Nat) (t' : Thread), w₃.threads[j]? = some t' → t'.provider = some i →
            ∃ u : Thread, w₂.threads[j]? = some u ∧ u.provider = some i := by
  have hkeep : ∀ u u' c, Inv u → KeepsLive u c → step u c = some u' → Inv u' :=
    fun _ _ _ hinv hok hstep => hinv.next hok hstep
  have hinv : Inv w := hrun.invariant .start hkeep
  refine ⟨fun a w' hok hstep abort hnew hold => ?_, fun a w₁ hstep => ⟨?_, ?_⟩⟩
  · obtain ⟨i, s, id, hawaits, hcause⟩ := hinv.tracking.aborted_step hok hstep hnew hold
    exact ⟨i, s, id, hawaits, or_assoc.mpr hcause⟩
  · exact fun i s id abort hcovers hawaits => hinv.tracking.covered hcovers hstep hawaits
  · intro w₂ hrest hfew i t ht hearlier b w₃ hnext
    obtain ⟨ht₁, hrevoked₁⟩ := hinv.snapshots.revoked hstep ht hearlier
    have hok : KeepsLive w a := by
      rcases hearlier with ⟨rfl, -⟩ | ⟨rfl, -⟩ <;> trivial
    have hkeep' : ∀ u u' c, (Inv u ∧ ∃ t, u.threads[i]? = some t ∧ u.Revoked a t) →
        KeepsLive u c → step u c = some u' →
        Inv u' ∧ ∃ t, u'.threads[i]? = some t ∧ u'.Revoked a t := by
      rintro u u' c ⟨hinv, t, ht, hrevoked⟩ hok hstep
      obtain ⟨t', ht', hcontinues⟩ := step_continues hstep ht
      exact ⟨hinv.next hok hstep, t', ht', hrevoked.next hcontinues hstep⟩
    obtain ⟨hinv₂, u, hu, hrevoked⟩ :=
      hrest.invariant ⟨hinv.next hok hstep, t, ht₁, hrevoked₁⟩ hkeep'
    have hstale := hrevoked.not_live hfew
    refine ⟨fun s id abort hawaits => ?_, fun j t' ht' hprovider => ?_⟩
    · exact (live_of_joins hnext hu hawaits).resolve_right hstale
    · rcases live_of_provided hinv₂.permits hnext ht' hprovider with hsame | ⟨v, hv, hlive⟩
      · exact hsame
      · obtain rfl : u = v := Option.some.inj (hu.symm.trans hv)
        exact absurd hlive hstale

/-- The begin of a verification whose checks went through and whose next step registers its
request. -/
def aboutToRegister : World :=
  { threads := [{
      submission := "s".toList
      rest := [.abortableRequest, .ensureLive, .ensureLive, .ensureGenerationLive]
      phase := .running }] }

theorem reaches_aboutToRegister : Reaches step KeepsLive {} aboutToRegister := by
  have hnext : ∀ {w w' : World}, Reaches step KeepsLive {} w →
      (∀ t, w.threads[0]? = some t → t.phase = .running →
        (∀ sessionId rest, t.rest ≠ .settlePoll sessionId :: rest) ∧
          ∀ rest, t.rest ≠ .abortableRequest :: rest) →
      step w (.advance 0 false 0) = some w' → Reaches step KeepsLive {} w' := by
    intro w w' hrun hother hstep
    refine .next hrun (a := .advance 0 false 0) ?_ hstep
    refine fun t ht hphase => ⟨fun _ _ hrest => ?_, fun _ hrest => ?_⟩
    · exact absurd hrest ((hother t ht hphase).1 _ _)
    · exact absurd hrest ((hother t ht hphase).2 _)
  have hcalled : Reaches step KeepsLive {}
      { threads := [{ submission := "s".toList, rest := Command.beginVerification.stages }] } :=
    .next .start (a := .call .beginVerification "s".toList) trivial rfl
  -- two steps take the snapshot, and each of the two checks takes two
  refine hnext (hnext (hnext (hnext (hnext (hnext hcalled ?_ rfl) ?_ rfl) ?_ rfl) ?_ rfl) ?_ rfl)
    ?_ rfl
  all_goals
    intro t ht _
    cases ht
    exact ⟨fun _ _ h => (by cases h), fun _ h => (by cases h)⟩

/-- A submission cancelled when its command is about to register a request: the step that
registers it otherwise does not. -/
theorem sharing_revoked_cancelled : ∃ w₀ w₁ w₂,
    step aboutToRegister (.advance 0 false 0) = some w₀ ∧ w₀.Awaits 0 "s".toList 1 0 ∧
      step aboutToRegister (.cancel "s".toList) = some w₁ ∧
      step w₁ (.advance 0 false 0) = some w₂ ∧ ∀ s id abort, ¬ w₂.Awaits 0 s id abort := by
  obtain ⟨w₂, hrun⟩ := Option.isSome_iff_exists.mp
    (show ((step aboutToRegister (.cancel "s".toList)).bind fun w₁ =>
      step w₁ (.advance 0 false 0)).isSome by decide +kernel)
  obtain ⟨w₁, hcancel, hstep⟩ := Option.bind_eq_some_iff.mp hrun
  refine ⟨_, w₁, w₂, rfl, ⟨_, rfl, rfl, rfl⟩, hcancel, hstep, fun s id abort hawaits => ?_⟩
  have hrevoked := (sharing_revoked reaches_aboutToRegister).2 _ w₁ hcancel
  cases hcancel
  have hkept := (hrevoked.2 _ .start (by decide) 0 _ rfl (.inl ⟨rfl, rfl⟩) _ w₂ hstep).1 s id abort
  obtain ⟨t, ht, -, hrequest⟩ := hkept hawaits
  cases ht
  cases hrequest

def reached (actions : List Action) : Option World := run step {} actions

def checkedPoll : List Action :=
  ([.call (.pollVerification "p".toList) "s".toList] : List Action) ++
    List.replicate 7 (Action.advance 0 false 0) ++
    ([.finish 0 (.answered ⟨"verified".toList, some "permit".toList⟩)] : List Action) ++
    List.replicate 2 (Action.advance 0 false 0)

/-- The store of the poll, and a submission up to its `live_permit`. -/
def laterSubmit : List Action :=
  ([.advance 0 false 0, .call .submit "s".toList] : List Action) ++
    List.replicate 6 (Action.advance 1 false 0)

/-- A cancel between the check of a poll and its store: the permit is returned later. -/
theorem cancelled_permit_returned : ¬ ∀ w a w₁ w₂,
    Reaches step (fun _ _ => True) {} w → step w a = some w₁ →
    Reaches step (fun _ _ => True) w₁ w₂ → w₂.revocations < 2 ^ 64 →
    ∀ (i : Nat) (t : Thread), w.threads[i]? = some t → Earlier a t → ∀ b w₃,
      step w₂ b = some w₃ → ∀ (j : Nat) (t' : Thread), w₃.threads[j]? = some t' →
        t'.provider = some i → ∃ u : Thread, w₂.threads[j]? = some u ∧ u.provider = some i := by
  intro hall
  have hrun : ((reached checkedPoll).bind fun w => (step w (.cancel "s".toList)).bind fun w₁ =>
      (run step w₁ laterSubmit).bind fun w₂ => (step w₂ (.advance 1 false 0)).map fun w₃ =>
        (w.threads[0]?.map fun t => (t.submission, t.hasGeneration), w₂.revocations,
          w₂.threads[1]?.map (·.provider), w₃.threads[1]?.map (·.provider))) =
      some (some ("s".toList, true), 1, some none, some (some 0)) := by decide +kernel
  obtain ⟨w, hw, hrun⟩ := Option.bind_eq_some_iff.mp hrun
  obtain ⟨w₁, hw₁, hrun⟩ := Option.bind_eq_some_iff.mp hrun
  obtain ⟨w₂, hw₂, hrun⟩ := Option.bind_eq_some_iff.mp hrun
  obtain ⟨w₃, hw₃, hrun⟩ := Option.map_eq_some_iff.mp hrun
  simp only [Prod.mk.injEq] at hrun
  obtain ⟨hpoll, hfew, hbefore, hafter⟩ := hrun
  obtain ⟨t, ht, hpoll⟩ := Option.map_eq_some_iff.mp hpoll
  obtain ⟨t', ht', hprovider⟩ := Option.map_eq_some_iff.mp hafter
  rw [Prod.mk.injEq] at hpoll
  obtain ⟨u, hu, hu'⟩ := hall w (.cancel "s".toList) w₁ w₂ (.of_run _ (fun _ _ _ => trivial) hw) hw₁
    (.of_run _ (fun _ _ _ => trivial) hw₂) (by rw [hfew]; decide) 0 t ht
    (.inl ⟨by rw [hpoll.1], hpoll.2⟩) _ w₃ hw₃ 1 t' ht' hprovider
  rw [hu, Option.map_some, hu'] at hbefore
  cases hbefore

end Runs

end AioLM.Sharing
