import Mathlib.Data.Char
import Mathlib.Data.List.Lex
import AioLM.KeyMap
import AioLM.TextBytes

/-!
The table of upload permits, sharing generations and tracked requests: what each
function does under one acquisition of its lock. The handles it aborts are handed
back with the table.
-/

set_option autoImplicit false

namespace AioLM.Sharing

def permitTtl : Nat := 300000000000

def maxPermitLen : Nat := 4096

def maxTrackedPerSubmission : Nat := 8

def maxTrackedSubmissions : Nat := 128

/-- One more in a 64 bit counter. -/
def wrappingSucc (n : Nat) : Nat := (n + 1) % 2 ^ 64

structure StoredPermit where
  permit : Text
  sessionId : Text
  receivedAt : Nat
  deriving DecidableEq

structure TrackedRequest where
  id : Nat
  abort : Nat
  deriving DecidableEq

structure Ephemeral where
  permits : KeyMap Text StoredPermit := .empty
  generations : KeyMap Text Nat := .empty
  requests : KeyMap Text (List TrackedRequest) := .empty
  order : List (Text × Nat) := []
  nextRequestId : Nat := 1
  epoch : Nat := 0

namespace Ephemeral

def generation (e : Ephemeral) (submissionId : Text) : Nat :=
  (e.generations.get submissionId).getD 0

def tracked (e : Ephemeral) (submissionId : Text) : List TrackedRequest :=
  (e.requests.get submissionId).getD []

def trackedCount (e : Ephemeral) : Nat := (e.requests.entries.map fun entry => entry.2.length).sum

def noteMeasurementStart (e : Ephemeral) : Ephemeral × List Nat :=
  ({ e with
      epoch := wrappingSucc e.epoch
      permits := .empty
      requests := .empty
      order := [] },
    e.requests.entries.flatMap fun entry => entry.2.map (·.abort))

def storable (permit : Text) : Bool := !permit.isEmpty && decide (permit.utf8Len ≤ maxPermitLen)

def storePermit (e : Ephemeral) (submissionId sessionId permit : Text) (now : Nat) : Ephemeral :=
  if storable permit then
    { e with permits := e.permits.insert submissionId ⟨permit, sessionId, now⟩ }
  else e

def clearPermit (e : Ephemeral) (submissionId : Text) : Ephemeral :=
  { e with permits := e.permits.erase submissionId }

def livePermit (e : Ephemeral) (submissionId : Text) (now : Nat) :
    Option (Text × Text) × Ephemeral :=
  let stored := e.permits.get submissionId
  if stored.any fun stored => decide (permitTtl < now - stored.receivedAt) then
    (none, e.clearPermit submissionId)
  else (stored.map fun stored => (stored.permit, stored.sessionId), e)

def cancelSubmission (e : Ephemeral) (submissionId : Text) : Ephemeral × List Nat :=
  ({ e with
      permits := e.permits.erase submissionId
      requests := e.requests.erase submissionId
      generations := e.generations.alter submissionId fun generation =>
        (generation.map wrappingSucc).getD 1 },
    (e.tracked submissionId).map (·.abort))

def trim : List TrackedRequest → List TrackedRequest × List Nat
  | [] => ([], [])
  | request :: rest =>
    if maxTrackedPerSubmission < (request :: rest).length then
      ((trim rest).1, request.abort :: (trim rest).2)
    else (request :: rest, [])

def evictOne (requests : KeyMap Text (List TrackedRequest)) (entry : Text × Nat) :
    KeyMap Text (List TrackedRequest) × List Nat :=
  match requests.get entry.1 with
  | none => (requests, [])
  | some tracked =>
    match tracked.find? fun request => request.id == entry.2 with
    | none => (requests, [])
    | some request =>
      (requests.insert entry.1 (tracked.eraseP fun request => request.id == entry.2),
        [request.abort])

def evict : List (Text × Nat) → KeyMap Text (List TrackedRequest) →
    List (Text × Nat) × KeyMap Text (List TrackedRequest) × List Nat
  | [], requests => ([], requests, [])
  | entry :: order, requests =>
    if maxTrackedSubmissions * maxTrackedPerSubmission < (entry :: order).length then
      let one := evictOne requests entry
      let rest := evict order one.1
      (rest.1, rest.2.1, one.2 ++ rest.2.2)
    else (entry :: order, requests, [])

/-- The id of a new request, the table with it and the handles aborted for it; `none`
when the snapshot is no longer live. -/
def trackRequestIfLive (e : Ephemeral) (submissionId : Text) (epoch generation abort : Nat) :
    Option (Nat × Ephemeral × List Nat) :=
  if e.epoch ≠ epoch ∨ e.generation submissionId ≠ generation then none
  else
    let id := e.nextRequestId
    let kept := trim (e.tracked submissionId ++ [⟨id, abort⟩])
    let evicted := evict (e.order ++ [(submissionId, id)]) (e.requests.insert submissionId kept.1)
    some (id,
      { e with
        nextRequestId := max (wrappingSucc id) 1
        requests := evicted.2.1
        order := evicted.1 },
      kept.2 ++ evicted.2.2)

def untrackRequest (e : Ephemeral) (submissionId : Text) (id : Nat) : Ephemeral :=
  match e.requests.get submissionId with
  | none => e
  | some tracked =>
    let kept := tracked.filter fun request => request.id != id
    { e with
      requests :=
        if kept.isEmpty then e.requests.erase submissionId
        else e.requests.insert submissionId kept }

theorem tracked_of_get {e : Ephemeral} {s : Text} {tracked : List TrackedRequest}
    (h : e.requests.get s = some tracked) : e.tracked s = tracked := by
  rw [Ephemeral.tracked, h, Option.getD_some]

theorem generation_cancelSubmission (e : Ephemeral) (s k : Text) :
    (e.cancelSubmission s).1.generation k =
      if k = s then wrappingSucc (e.generation s) else e.generation k := by
  simp only [cancelSubmission, generation, KeyMap.get_alter]
  split
  · cases e.generations.get s <;> rfl
  · rfl

theorem tracked_cancelSubmission (e : Ephemeral) (s k : Text) :
    (e.cancelSubmission s).1.tracked k = if k = s then [] else e.tracked k := by
  simp only [cancelSubmission, tracked, KeyMap.get_erase]
  split <;> rfl

theorem mem_aborted_noteMeasurementStart {e : Ephemeral} {h : Nat} :
    h ∈ e.noteMeasurementStart.2 ↔ ∃ s, ∃ request ∈ e.tracked s, request.abort = h := by
  simp only [noteMeasurementStart, List.mem_flatMap, List.mem_map]
  constructor
  · rintro ⟨⟨s, tracked⟩, hentry, request, hrequest, rfl⟩
    rw [← KeyMap.get_eq_some] at hentry
    exact ⟨s, request, tracked_of_get hentry ▸ hrequest, rfl⟩
  · rintro ⟨s, request, hrequest, rfl⟩
    cases hget : e.requests.get s with
    | none => simp [tracked, hget] at hrequest
    | some tracked =>
      rw [tracked_of_get hget] at hrequest
      exact ⟨(s, tracked), KeyMap.get_eq_some.mp hget, request, hrequest, rfl⟩

theorem tracked_untrackRequest (e : Ephemeral) (s k : Text) (id : Nat) :
    (e.untrackRequest s id).tracked k =
      if k = s then (e.tracked s).filter fun request => request.id != id else e.tracked k := by
  cases hget : e.requests.get s with
  | none =>
    simp only [untrackRequest, hget, tracked]
    split
    · rename_i hk
      rw [hk, hget]
      rfl
    · rfl
  | some tracked =>
    simp only [untrackRequest, hget, Ephemeral.tracked, Option.getD_some]
    by_cases hempty : (tracked.filter fun request => request.id != id).isEmpty
    · rw [if_pos hempty, KeyMap.get_erase]
      split
      · exact (List.isEmpty_iff.mp hempty).symm
      · rfl
    · rw [if_neg hempty, KeyMap.get_insert]
      split <;> rfl

theorem trim_eq (requests : List TrackedRequest) :
    trim requests = (requests.drop (requests.length - maxTrackedPerSubmission),
      (requests.take (requests.length - maxTrackedPerSubmission)).map (·.abort)) := by
  induction requests with
  | nil => rfl
  | cons request rest ih =>
    rw [trim]
    split
    · rename_i hover
      rw [List.length_cons] at hover ⊢
      have hlength : rest.length + 1 - maxTrackedPerSubmission =
          rest.length - maxTrackedPerSubmission + 1 := by omega
      rw [ih, hlength, List.drop_succ_cons, List.take_succ_cons, List.map_cons]
    · rename_i hwithin
      have hlength : (request :: rest).length - maxTrackedPerSubmission = 0 := by omega
      rw [hlength]
      rfl

theorem evict_of_le {order : List (Text × Nat)} (requests : KeyMap Text (List TrackedRequest))
    (h : order.length ≤ 1024) : evict order requests = (order, requests, []) := by
  cases order with
  | nil => rfl
  | cons entry order =>
    have hwithin : ¬ maxTrackedSubmissions * maxTrackedPerSubmission < (entry :: order).length := by
      simp only [maxTrackedSubmissions, maxTrackedPerSubmission]
      omega
    rw [evict, if_neg hwithin]

theorem evict_over {entry : Text × Nat} {order : List (Text × Nat)}
    (requests : KeyMap Text (List TrackedRequest)) (h : order.length = 1024) :
    evict (entry :: order) requests =
      (order, (evictOne requests entry).1, (evictOne requests entry).2) := by
  have hover : maxTrackedSubmissions * maxTrackedPerSubmission < (entry :: order).length := by
    simp only [maxTrackedSubmissions, maxTrackedPerSubmission, List.length_cons]
    omega
  rw [evict, if_pos hover]
  simp only [evict_of_le _ h.le, List.append_nil]

theorem get_evictOne (requests : KeyMap Text (List TrackedRequest)) (entry : Text × Nat)
    (k : Text) :
    (((evictOne requests entry).1.get k).getD []) =
      if k = entry.1 then ((requests.get k).getD []).eraseP fun request => request.id == entry.2
      else (requests.get k).getD [] := by
  rw [evictOne]
  by_cases hk : k = entry.1
  · subst hk
    cases hget : requests.get entry.1 with
    | none => simp [hget]
    | some tracked =>
      rw [if_pos rfl]
      simp only [Option.getD_some]
      split
      · rename_i hfind
        rw [hget, Option.getD_some, List.eraseP_of_forall_not]
        intro request hrequest
        exact List.find?_eq_none.mp hfind request hrequest
      · rw [KeyMap.get_insert, if_pos rfl, Option.getD_some]
  · rw [if_neg hk]
    split
    · rfl
    · split
      · rfl
      · rw [KeyMap.get_insert, if_neg hk]

theorem mem_evictOne {requests : KeyMap Text (List TrackedRequest)} {entry : Text × Nat}
    {h : Nat} :
    h ∈ (evictOne requests entry).2 ↔
      (((requests.get entry.1).getD []).find? fun request => request.id == entry.2).map (·.abort) =
        some h := by
  rw [evictOne]
  cases requests.get entry.1 with
  | none => simp
  | some tracked =>
    rw [Option.getD_some]
    cases hfind : tracked.find? fun request => request.id == entry.2 <;> simp [hfind, eq_comm]

/-- No entry of the queue has the id the next request gets. -/
def FreshId (e : Ephemeral) : Prop := ∀ entry ∈ e.order, entry.2 ≠ e.nextRequestId

variable {e e' : Ephemeral} {s : Text} {epoch generation abort id : Nat} {aborted : List Nat}

theorem trackRequestIfLive_live
    (h : e.trackRequestIfLive s epoch generation abort = some (id, e', aborted)) :
    e.epoch = epoch ∧ e.generation s = generation := by
  rw [trackRequestIfLive] at h
  split at h
  · cases h
  · rename_i hlive
    rwa [not_or, not_not, not_not] at hlive

/-- What a registration does to the parts of the table. -/
structure Registers (e : Ephemeral) (s : Text) (abort id : Nat) (e' : Ephemeral)
    (aborted : List Nat) : Prop where
  id_eq : id = e.nextRequestId
  epoch : e'.epoch = e.epoch
  generations : e'.generations = e.generations
  permits : e'.permits = e.permits
  order : e'.order.length ≤ 1024
  sublist : ∀ k, (e'.tracked k).Sublist (e.tracked k ++ if k = s then [⟨id, abort⟩] else [])
  kept : ∀ k, ∀ request ∈ e.tracked k ++ (if k = s then [⟨id, abort⟩] else []),
    request ∈ e'.tracked k ∨ request.abort ∈ aborted
  aborted : ∀ h ∈ aborted, ∃ k, ∃ request ∈ e.tracked k, request.abort = h ∧
    request ∉ e'.tracked k ∧
      ((k = s ∧ 8 ≤ (e.tracked s).length) ∨
        ∃ rest, e.order = (k, request.id) :: rest ∧ e.order.length = 1024)

def trimmed (e : Ephemeral) (s : Text) (id abort : Nat) (k : Text) : List TrackedRequest :=
  if k = s then (trim (e.tracked s ++ [⟨id, abort⟩])).1 else e.tracked k

theorem get_insert_trimmed (k : Text) :
    ((e.requests.insert s (trim (e.tracked s ++ [⟨id, abort⟩])).1).get k).getD [] =
      e.trimmed s id abort k := by
  rw [KeyMap.get_insert, trimmed]
  split <;> rfl

theorem trimmed_sublist (k : Text) :
    (e.trimmed s id abort k).Sublist (e.tracked k ++ if k = s then [⟨id, abort⟩] else []) := by
  rw [trimmed]
  split
  · rename_i hk
    rw [hk, trim_eq]
    exact List.drop_sublist _ _
  · rw [List.append_nil]

theorem mem_trimmed {k : Text} {request : TrackedRequest}
    (h : request ∈ e.tracked k ++ if k = s then [⟨id, abort⟩] else []) :
    request ∈ e.trimmed s id abort k ∨
      request.abort ∈ (trim (e.tracked s ++ [⟨id, abort⟩])).2 := by
  rw [trimmed]
  split at h
  · rename_i hk
    rw [if_pos hk, trim_eq]
    subst hk
    have hsplit := List.take_append_drop
      ((e.tracked k ++ [(⟨id, abort⟩ : TrackedRequest)]).length - maxTrackedPerSubmission)
      (e.tracked k ++ [⟨id, abort⟩])
    rw [← hsplit, List.mem_append] at h
    rcases h with h | h
    · exact .inr (List.mem_map_of_mem h)
    · exact .inl h
  · rename_i hk
    rw [if_neg hk]
    exact .inl (by simpa using h)

theorem mem_trim_aborted {h : Nat} (hnodup : (e.tracked s ++ [(⟨id, abort⟩ : TrackedRequest)]).Nodup)
    (hh : h ∈ (trim (e.tracked s ++ [⟨id, abort⟩])).2) :
    ∃ request ∈ e.tracked s, request.abort = h ∧ request ∉ e.trimmed s id abort s ∧
      8 ≤ (e.tracked s).length := by
  rw [trim_eq] at hh
  obtain ⟨request, hrequest, rfl⟩ := List.mem_map.mp hh
  have hgone : request ∉ e.trimmed s id abort s := by
    rw [trimmed, if_pos rfl, trim_eq]
    exact List.disjoint_take_drop hnodup (le_refl _) hrequest
  rw [List.length_append, List.length_singleton, maxTrackedPerSubmission,
    List.take_append_of_le_length (by omega)] at hrequest
  refine ⟨request, List.mem_of_mem_take hrequest, rfl, hgone, ?_⟩
  by_contra hfew
  have hnone : (e.tracked s).length + 1 - 8 = 0 := by omega
  rw [hnone, List.take_zero] at hrequest
  cases hrequest

theorem not_mem_eraseP {requests : List TrackedRequest} {request : TrackedRequest} {n : Nat}
    (hnodup : requests.Nodup)
    (h : (requests.find? fun request => request.id == n) = some request) :
    request ∉ requests.eraseP fun request => request.id == n := by
  induction requests with
  | nil => cases h
  | cons first rest ih =>
    obtain ⟨hfirst, hrest⟩ := List.nodup_cons.mp hnodup
    rw [List.find?_cons] at h
    rw [List.eraseP_cons]
    cases hid : first.id == n with
    | true =>
      simp only [hid, Option.some.injEq] at h
      subst h
      exact hfirst
    | false =>
      simp only [hid] at h
      have hne : request ≠ first := by
        rintro rfl
        exact absurd (List.find?_some h) (by simp [hid])
      exact fun hmem => (List.mem_cons.mp hmem).elim hne (ih hrest h)

theorem mem_eraseP_or {requests : List TrackedRequest} {request : TrackedRequest} {n : Nat}
    (h : request ∈ requests) :
    request ∈ requests.eraseP (fun request => request.id == n) ∨
      (requests.find? fun request => request.id == n) = some request := by
  induction requests with
  | nil => cases h
  | cons first rest ih =>
    rw [List.eraseP_cons, List.find?_cons]
    cases hfirst : first.id == n with
    | true =>
      rcases List.mem_cons.mp h with rfl | h
      · exact .inr rfl
      · exact .inl h
    | false =>
      rcases List.mem_cons.mp h with rfl | h
      · exact .inl List.mem_cons_self
      · exact (ih h).imp (List.mem_cons_of_mem _) fun hfind => hfind

theorem trackRequestIfLive_registers (horder : e.order.length ≤ 1024) (hfresh : e.FreshId)
    (hnodup : ∀ k, (e.tracked k ++
      if k = s then [(⟨e.nextRequestId, abort⟩ : TrackedRequest)] else []).Nodup)
    (h : e.trackRequestIfLive s epoch generation abort = some (id, e', aborted)) :
    Registers e s abort id e' aborted := by
  rw [trackRequestIfLive] at h
  split at h
  · cases h
  · simp only [Option.some.injEq, Prod.mk.injEq] at h
    obtain ⟨rfl, rfl, rfl⟩ := h
    have hhere : (e.tracked s ++ [(⟨e.nextRequestId, abort⟩ : TrackedRequest)]).Nodup := by
      simpa only [if_true] using hnodup s
    rcases Nat.lt_or_eq_of_le horder with hroom | hfull
    · have hlength : (e.order ++ [(s, e.nextRequestId)]).length ≤ 1024 := by
        rw [List.length_append, List.length_singleton]
        exact hroom
      refine ⟨rfl, rfl, rfl, rfl, ?_, fun k => ?_, fun k request hrequest => ?_, fun k hk => ?_⟩
      · rw [evict_of_le _ hlength]
        exact hlength
      · rw [evict_of_le _ hlength, tracked, get_insert_trimmed]
        exact trimmed_sublist k
      · rw [evict_of_le _ hlength, tracked, get_insert_trimmed, List.append_nil]
        exact mem_trimmed hrequest
      · rw [evict_of_le _ hlength, List.append_nil] at hk
        obtain ⟨request, hrequest, rfl, hgone, hmany⟩ := mem_trim_aborted hhere hk
        refine ⟨s, request, hrequest, rfl, ?_, .inl ⟨rfl, hmany⟩⟩
        rw [evict_of_le _ hlength, tracked, get_insert_trimmed]
        exact hgone
    · cases hqueue : e.order with
      | nil =>
        rw [hqueue] at hfull
        cases hfull
      | cons entry rest =>
        have hlength : (rest ++ [(s, e.nextRequestId)]).length = 1024 := by
          rw [hqueue, List.length_cons] at hfull
          rw [List.length_append, List.length_singleton]
          exact hfull
        have hold : entry.2 ≠ e.nextRequestId := hfresh entry (hqueue ▸ List.mem_cons_self)
        rw [List.cons_append]
        refine ⟨rfl, rfl, rfl, rfl, ?_, fun k => ?_, fun k request hrequest => ?_, fun k hk => ?_⟩
        · rw [evict_over _ hlength]
          exact hlength.le
        · rw [evict_over _ hlength, tracked, get_evictOne, get_insert_trimmed]
          split
          · exact List.eraseP_sublist.trans (trimmed_sublist k)
          · exact trimmed_sublist k
        · rw [evict_over _ hlength, tracked, get_evictOne, get_insert_trimmed]
          rcases mem_trimmed hrequest with hkept | hgone
          · split
            · rename_i hk
              subst hk
              refine (mem_eraseP_or hkept).imp_right fun hfind => List.mem_append_right _ ?_
              rw [mem_evictOne, get_insert_trimmed, hfind, Option.map_some]
            · exact .inl hkept
          · exact .inr (List.mem_append_left _ hgone)
        · rw [evict_over _ hlength] at hk
          rcases List.mem_append.mp hk with hk | hk
          · obtain ⟨request, hrequest, rfl, hgone, hmany⟩ := mem_trim_aborted hhere hk
            refine ⟨s, request, hrequest, rfl, ?_, .inl ⟨rfl, hmany⟩⟩
            rw [evict_over _ hlength, tracked, get_evictOne, get_insert_trimmed]
            split
            · exact fun hmem => hgone (List.eraseP_sublist.subset hmem)
            · exact hgone
          · rw [mem_evictOne, get_insert_trimmed] at hk
            obtain ⟨request, hfind, rfl⟩ := Option.map_eq_some_iff.mp hk
            have hid : request.id = entry.2 := by simpa using List.find?_some hfind
            have hmem := (trimmed_sublist _).subset (List.mem_of_find?_eq_some hfind)
            have hrequest : request ∈ e.tracked entry.1 := by
              rcases List.mem_append.mp hmem with hmem | hmem
              · exact hmem
              · split at hmem
                · rw [List.mem_singleton.mp hmem] at hid
                  exact absurd hid.symm hold
                · cases hmem
            refine ⟨entry.1, request, hrequest, rfl, ?_, .inr ⟨rest, ?_, hqueue ▸ hfull⟩⟩
            · rw [evict_over _ hlength, tracked, get_evictOne, get_insert_trimmed, if_pos rfl]
              exact not_mem_eraseP ((trimmed_sublist _).nodup (hnodup _)) hfind
            · rw [hid, hqueue]

end Ephemeral

end AioLM.Sharing
