import Mathlib.Data.List.Dedup
import AioLM.Lists
import AioLM.ToolCalls

/-!
What holds of tool calls under any interleaving: a call is sent once, after its own
approval and not after its cancel; a slot belongs to one call; a cancel that came first
stops the next call of its id.
-/

set_option autoImplicit false

namespace AioLM.Mcp

open Runs
open McpConfig (validId)

/-- The check that follows the approval is still to come. -/
def Phase.beforeCheck (phase : Phase) : Bool :=
  [Phase.registered, .loading, .spawning, .listing, .approving, .checking].contains phase

def Phase.hasServer (phase : Phase) : Bool :=
  [Phase.spawning, .listing, .approving, .checking].contains phase

structure Same (call call' : Call) : Prop where
  serverId : call'.serverId = call.serverId
  name : call'.name = call.name
  arguments : call'.arguments = call.arguments
  callId : call'.callId = call.callId
  signal : call'.signal = call.signal

/-- What one step of a call does: it neither approves nor sends, it is approved, or it
passes the check and sends. -/
inductive Moves (floatText : Float → Text) (i : Nat) (call : Call) : Call → List Event → Prop
  | quiet (call' : Call) : Same call call' → call'.live →
      (call'.phase.beforeCheck → call.phase.beforeCheck) →
      (call'.phase = .checking → call.phase = .checking ∧ call'.server = call.server) →
      (call'.phase.hasServer → call'.server.id = call.serverId ∨
        (call.phase.hasServer ∧ call'.server = call.server)) →
      (call'.phase = .sending ∨ call'.phase = .reading →
        call.phase = .sending ∨ call.phase = .reading) →
      Moves floatText i call call' []
  | accepted : call.phase = .approving →
      Moves floatText i call { call with phase := .checking }
        [.accepted i (toolApprovalDescription call.server call.name
          (Json.compact floatText call.arguments))]
  | sent : call.phase = .checking → call.signal = false →
      Moves floatText i call { call with phase := .sending } [.sent i call.name call.arguments]

variable {floatText : Float → Text} {i : Nat} {call call' : Call} {events : List Event}

theorem Moves.leave (phase : Phase) (polling : Bool) (result : Except Text Json)
    (h : phase = .closing ∨ phase = .returning) :
    Moves floatText i call { call with phase := phase, polling := polling, result := result } [] := by
  refine .quiet _ ⟨rfl, rfl, rfl, rfl, rfl⟩ ?_ ?_ ?_ ?_ ?_
  · obtain rfl | rfl := h <;> rfl
  all_goals
    obtain rfl | rfl := h
    all_goals
      intro hphase
      simp [Phase.beforeCheck, Phase.hasServer] at hphase

theorem Moves.stay (polling : Bool) (h : call.live) :
    Moves floatText i call { call with polling := polling } [] :=
  .quiet _ ⟨rfl, rfl, rfl, rfl, rfl⟩ h id (fun h => ⟨h, rfl⟩) (fun h => .inr ⟨h, rfl⟩) id

theorem Moves.fail (error : Text) : Moves floatText i call (call.fail error) [] :=
  .leave .returning false (.error error) (by simp)

theorem Moves.close (result : Except Text Json) : Moves floatText i call (call.close result) [] :=
  .leave .closing false result (by simp)

theorem work_moves {outcome : Outcome}
    (h : call.work floatText i outcome = some (call', events)) :
    Moves floatText i call call' events := by
  cases outcome with
  | loaded servers =>
    simp only [Call.work] at h
    split at h
    · cases h
    · rename_i hphase
      rw [not_not] at hphase
      split at h
      · cases h
        exact .fail _
      · split at h
        · cases h
          exact .fail _
        · rename_i server hfind
          cases h
          have hserver : server.id = call.serverId := by simpa using List.find?_some hfind
          refine .quiet _ ⟨rfl, rfl, rfl, rfl, rfl⟩ rfl (fun _ => by rw [hphase]; rfl) (fun h => ?_)
            (fun _ => .inl hserver) fun h => ?_
          · cases h
          · simp at h
  | spawned session =>
    simp only [Call.work] at h
    split at h
    · cases h
    · rename_i hphase
      rw [not_not] at hphase
      split at h
      · cases h
        exact .fail _
      · cases h
        refine .quiet _ ⟨rfl, rfl, rfl, rfl, rfl⟩ rfl (fun _ => by rw [hphase]; rfl) (fun h => ?_)
          (fun _ => .inr ⟨by rw [hphase]; rfl, rfl⟩) fun h => ?_
        · cases h
        · simp at h
  | listed toolList =>
    simp only [Call.work] at h
    split at h
    · cases h
    · rename_i hphase
      rw [not_not] at hphase
      split at h
      · cases h
        exact .close _
      · cases h
        refine .quiet _ ⟨rfl, rfl, rfl, rfl, rfl⟩ rfl (fun _ => by rw [hphase]; rfl) (fun h => ?_)
          (fun _ => .inr ⟨by rw [hphase]; rfl, rfl⟩) fun h => ?_
        · cases h
        · simp at h
  | answered approval =>
    simp only [Call.work] at h
    split at h
    · cases h
    · rename_i hphase
      rw [not_not] at hphase
      cases approval with
      | rejected error =>
        cases h
        exact .close _
      | timedOut =>
        cases h
        exact .close _
      | accepted =>
        cases h
        exact .accepted hphase
  | checked =>
    simp only [Call.work] at h
    split at h
    · cases h
    · rename_i hphase
      rw [not_not] at hphase
      split at h
      · cases h
        exact .close _
      · rename_i hsignal
        cases h
        exact .sent hphase (by simpa using hsignal)
  | written result =>
    simp only [Call.work] at h
    split at h
    · cases h
    · rename_i hphase
      rw [not_not] at hphase
      split at h
      · cases h
        exact .close _
      · cases h
        refine .quiet _ ⟨rfl, rfl, rfl, rfl, rfl⟩ rfl (fun h => ?_) (fun h => ?_) (fun h => ?_)
          fun _ => .inl hphase
        · simp [Phase.beforeCheck] at h
        · cases h
        · simp [Phase.hasServer] at h
  | read response =>
    simp only [Call.work] at h
    split at h
    · cases h
    · cases h
      exact .close _

theorem Moves.live (h : Moves floatText i call call' events) : call'.live := by
  cases h with
  | quiet call' _ hlive => exact hlive
  | accepted => rfl
  | sent => rfl

section Steps

variable {w w' : World} {a : Action}

inductive Effect (floatText : Float → Text) (w : World) : Action → World → Prop
  | nothing (a : Action) : Effect floatText w a w
  | refused (serverId name callId : Text) (arguments : Json) (now : Nat) (error : Text)
      (table : Calls) : w.clock ≤ now →
      admitCall w.table callId w.calls.length now = (.error error, table) →
      Effect floatText w (.call serverId name arguments callId now)
        { w with table := table, clock := now, log := .called callId (.error error) :: w.log }
  | admitted (serverId name callId : Text) (arguments : Json) (now : Nat) (table : Calls) :
      w.clock ≤ now → validId callId → admitCall w.table callId w.calls.length now = (.ok (), table) →
      Effect floatText w (.call serverId name arguments callId now)
        { w with
          table := table
          calls := w.calls ++ [{
            serverId := serverId, name := name, arguments := arguments, callId := callId }]
          clock := now
          log := .called callId (.ok ()) :: w.log }
  | moves (a : Action) (i : Nat) (call call' : Call) (events : List Event) :
      w.calls[i]? = some call → call.live → Moves floatText i call call' events →
      Effect floatText w a ({ w with log := events ++ w.log }.put i call')
  | release (i : Nat) (call : Call) : w.calls[i]? = some call → call.phase = .returning →
      Effect floatText w (.release i)
        ({ w with table := dropRegistration w.table call.callId }.put i
          { call with phase := .ended })
  | cancel (callId : Text) (pruneAt now : Nat) : w.clock ≤ pruneAt → pruneAt ≤ now →
      validId callId →
      Effect floatText w (.cancel callId pruneAt now)
        { w with
          table := (recordCancel w.table callId pruneAt now).1
          calls := w.signal (recordCancel w.table callId pruneAt now).2.toList
          clock := now
          log := .cancelled callId :: w.log }
  | cancelAll : Effect floatText w .cancelAll { w with calls := w.signal (cancelActiveCalls w.table) }

theorem Effect.of_moves {i : Nat} {call call' : Call} (hcall : w.calls[i]? = some call)
    (hlive : call.live) (hmoves : Moves floatText i call call' []) :
    Effect floatText w a (w.put i call') :=
  .moves a i call call' [] hcall hlive hmoves

theorem stop_moves : Moves floatText i call call.stop [] := by
  rw [Call.stop]
  split
  · exact .fail _
  · exact .close _

theorem live_of_guarded (h : call.guarded) : call.live := by
  rw [Call.live, bne_iff_ne]
  intro hphase
  rw [Call.guarded, hphase] at h
  cases h

theorem step_effect (h : step floatText w a = some w') : Effect floatText w a w' := by
  cases a with
  | call serverId name arguments callId now =>
    simp only [step] at h
    split at h
    · cases h
    · rename_i hclock
      split at h
      · cases h
        exact .nothing _
      · rename_i hid
        split at h
        · rename_i error table hadmission
          cases h
          exact .refused _ _ _ _ _ _ _ (Nat.le_of_not_lt hclock) hadmission
        · rename_i table hadmission
          cases h
          exact .admitted _ _ _ _ _ _ (Nat.le_of_not_lt hclock) (by simpa using hid) hadmission
  | validate i =>
    obtain ⟨call, hcall, h⟩ := Option.bind_eq_some_iff.mp h
    split at h
    · cases h
    · rename_i hphase
      rw [not_not] at hphase
      have hlive : call.live := by rw [Call.live, hphase]; rfl
      split at h
      · cases h
        exact .of_moves hcall hlive (.fail _)
      · cases h
        refine .of_moves hcall hlive (.quiet _ ⟨rfl, rfl, rfl, rfl, rfl⟩ rfl
          (fun _ => by rw [hphase]; rfl) (fun h => ?_) (fun h => ?_) fun h => ?_)
        · cases h
        · cases h
        · simp at h
  | poll i =>
    obtain ⟨call, hcall, h⟩ := Option.bind_eq_some_iff.mp h
    split at h
    · rename_i hguarded
      have hlive : call.live := live_of_guarded (Bool.and_eq_true_iff.mp hguarded).1
      cases h
      split
      · exact .of_moves hcall hlive stop_moves
      · exact .of_moves hcall hlive (.stay true hlive)
    · cases h
  | work i outcome =>
    obtain ⟨call, hcall, h⟩ := Option.bind_eq_some_iff.mp h
    split at h
    · rename_i hguarded
      have hlive : call.live := live_of_guarded (Bool.and_eq_true_iff.mp hguarded).1
      obtain ⟨⟨call', events⟩, hwork, rfl⟩ := Option.map_eq_some_iff.mp h
      exact .moves _ i call call' events hcall hlive (work_moves hwork)
    · cases h
  | pend i =>
    obtain ⟨call, hcall, h⟩ := Option.bind_eq_some_iff.mp h
    split at h
    · rename_i hguarded
      simp only [Bool.and_eq_true] at hguarded
      have hlive : call.live := live_of_guarded hguarded.1.1
      cases h
      exact .of_moves hcall hlive (.stay false hlive)
    · cases h
  | closed i =>
    obtain ⟨call, hcall, h⟩ := Option.bind_eq_some_iff.mp h
    split at h
    · rename_i hphase
      cases h
      have hlive : call.live := by rw [Call.live, hphase]; rfl
      exact .of_moves hcall hlive (.leave .returning call.polling call.result (by simp))
    · cases h
  | abandon i =>
    obtain ⟨call, hcall, h⟩ := Option.bind_eq_some_iff.mp h
    split at h
    · rename_i hawait
      cases h
      have hlive : call.live := by
        simp only [Bool.and_eq_true, Bool.or_eq_true, beq_iff_eq] at hawait
        rcases hawait.2 with hguarded | hphase
        · exact live_of_guarded hguarded
        · rw [Call.live, hphase]
          rfl
      exact .of_moves hcall hlive (.leave .returning call.polling call.result (by simp))
    · cases h
  | release i =>
    obtain ⟨call, hcall, h⟩ := Option.bind_eq_some_iff.mp h
    split at h
    · rename_i hphase
      cases h
      exact .release i call hcall hphase
    · cases h
  | cancel callId pruneAt now =>
    simp only [step] at h
    split at h
    · cases h
    · rename_i hclock
      rw [not_or, Nat.not_lt, Nat.not_lt] at hclock
      split at h
      · cases h
        exact .nothing _
      · rename_i hid
        cases h
        exact .cancel callId pruneAt now hclock.1 hclock.2 (by simpa using hid)
  | cancelAll =>
    cases h
    exact .cancelAll

end Steps

/-- Every registered call has a slot of its own, and no slot is of another call. -/
structure Slots (w : World) : Prop where
  bounded : Bounded w.table
  live : ∀ (i : Nat) (call : Call), w.calls[i]? = some call → call.live →
    w.table.get call.callId = some (.active i)
  owner : ∀ k i, w.table.get k = some (.active i) →
    ∃ call : Call, w.calls[i]? = some call ∧ call.live ∧ call.callId = k
  valid : ∀ (i : Nat) (call : Call), w.calls[i]? = some call → validId call.callId

section Slots

variable {w w' : World} {a : Action}

theorem getElem?_signal {senders : List Nat} {j : Nat} {call' : Call} :
    (w.signal senders)[j]? = some call' ↔ ∃ call, w.calls[j]? = some call ∧
      call' = if j ∈ senders then { call with signal := true } else call := by
  rw [World.signal, List.getElem?_mapIdx, Option.map_eq_some_iff]
  exact exists_congr fun call => and_congr_right fun _ => eq_comm

theorem Slots.same (h : Slots w) (hbounded : Bounded w'.table)
    (hslots : ∀ k i, w'.table.get k = some (.active i) ↔ w.table.get k = some (.active i))
    (hafter : ∀ (i : Nat) (call' : Call), w'.calls[i]? = some call' → ∃ call : Call,
      w.calls[i]? = some call ∧ call.callId = call'.callId ∧ (call'.live → call.live))
    (hbefore : ∀ (i : Nat) (call : Call), w.calls[i]? = some call → ∃ call' : Call,
      w'.calls[i]? = some call' ∧ call'.callId = call.callId ∧ (call.live → call'.live)) :
    Slots w' := by
  refine ⟨hbounded, fun i call' hcall' hlive' => ?_, fun k i hslot => ?_, fun i call' hcall' => ?_⟩
  · obtain ⟨call, hcall, hid, hlive⟩ := hafter i call' hcall'
    rw [hslots, ← hid]
    exact h.live i call hcall (hlive hlive')
  · obtain ⟨call, hcall, hlive, rfl⟩ := h.owner k i ((hslots k i).mp hslot)
    obtain ⟨call', hcall', hid, hlive'⟩ := hbefore i call hcall
    exact ⟨call', hcall', hlive' hlive, hid⟩
  · obtain ⟨call, hcall, hid, -⟩ := hafter i call' hcall'
    rw [← hid]
    exact h.valid i call hcall

theorem Slots.signalled (h : Slots w) {senders : List Nat} (hcalls : w'.calls = w.signal senders)
    (hbounded : Bounded w'.table)
    (hslots : ∀ k i, w'.table.get k = some (.active i) ↔ w.table.get k = some (.active i)) :
    Slots w' := by
  refine h.same hbounded hslots (fun i call' hcall' => ?_) fun i call hcall => ?_
  · rw [hcalls, getElem?_signal] at hcall'
    obtain ⟨call, hcall, rfl⟩ := hcall'
    refine ⟨call, hcall, ?_⟩
    split <;> exact ⟨rfl, id⟩
  · rw [hcalls]
    refine ⟨_, getElem?_signal.mpr ⟨call, hcall, rfl⟩, ?_⟩
    split <;> exact ⟨rfl, id⟩

theorem Slots.next (h : Slots w) (hstep : step floatText w a = some w') : Slots w' := by
  cases step_effect hstep with
  | nothing => exact h
  | refused serverId name callId arguments now error table _ hadmission =>
    have hbounded := h.bounded.admitCall callId w.calls.length now
    rw [hadmission] at hbounded
    exact h.same hbounded (fun k i => get_of_refused hadmission)
      (fun i call hcall => ⟨call, hcall, rfl, id⟩) fun i call hcall => ⟨call, hcall, rfl, id⟩
  | admitted serverId name callId arguments now table _ hid hadmission =>
    have hbounded := h.bounded.admitCall callId w.calls.length now
    rw [hadmission] at hbounded
    refine ⟨hbounded, fun i call hcall hlive => ?_, fun k i hslot => ?_, fun i call hcall => ?_⟩
    · rw [get_of_admitted hadmission]
      rcases Lists.getElem?_concat hcall with hcall | ⟨rfl, rfl⟩
      · have hslot := h.live i call hcall hlive
        exact .inr ⟨fun hid => not_active_of_admitted hadmission (hid ▸ hslot), hslot⟩
      · exact .inl ⟨rfl, rfl⟩
    · rcases (get_of_admitted hadmission).mp hslot with ⟨rfl, rfl⟩ | ⟨-, hslot⟩
      · exact ⟨_, List.getElem?_concat_length, rfl, rfl⟩
      · obtain ⟨call, hcall, hlive, hid⟩ := h.owner k i hslot
        exact ⟨call, Lists.getElem?_concat_of_some hcall, hlive, hid⟩
    · rcases Lists.getElem?_concat hcall with hcall | ⟨-, rfl⟩
      · exact h.valid i call hcall
      · exact hid
  | moves _ i call call' events hcall hlive hmoves =>
    have hid : call'.callId = call.callId := by
      cases hmoves with
      | quiet _ hsame => exact hsame.callId
      | accepted => rfl
      | sent => rfl
    refine h.same h.bounded (fun _ _ => Iff.rfl) (fun j u hu => ?_) fun j u hu => ?_
    · rcases (Lists.getElem?_set_eq_some hcall).mp hu with ⟨rfl, rfl⟩ | ⟨-, hu⟩
      · exact ⟨call, hcall, hid.symm, fun _ => hlive⟩
      · exact ⟨u, hu, rfl, id⟩
    · by_cases hj : j = i
      · subst hj
        obtain rfl : call = u := Option.some.inj (hcall.symm.trans hu)
        exact ⟨call', (Lists.getElem?_set_eq_some hcall).mpr (.inl ⟨rfl, rfl⟩), hid,
          fun _ => hmoves.live⟩
      · exact ⟨u, (Lists.getElem?_set_eq_some hcall).mpr (.inr ⟨hj, hu⟩), rfl, id⟩
  | release i call hcall hphase =>
    have hlive : call.live := by rw [Call.live, hphase]; rfl
    have hslot := h.live i call hcall hlive
    refine ⟨h.bounded.dropRegistration call.callId, fun j u hu hlive' => ?_, fun k j hj => ?_,
      fun j u hu => ?_⟩
    · rcases (Lists.getElem?_set_eq_some hcall).mp hu with ⟨-, rfl⟩ | ⟨hj, hu⟩
      · cases hlive'
      · have hother := h.live j u hu hlive'
        have hne : u.callId ≠ call.callId := fun hid => by
          rw [hid, hslot] at hother
          cases hother
          exact hj rfl
        rw [World.put, get_dropRegistration hslot, if_neg hne]
        exact hother
    · rw [World.put, get_dropRegistration hslot] at hj
      split at hj
      · cases hj
      · rename_i hk
        obtain ⟨u, hu, hlive', rfl⟩ := h.owner k j hj
        refine ⟨u, (Lists.getElem?_set_eq_some hcall).mpr (.inr ⟨?_, hu⟩), hlive', rfl⟩
        rintro rfl
        obtain rfl : call = u := Option.some.inj (hcall.symm.trans hu)
        exact hk rfl
    · rcases (Lists.getElem?_set_eq_some hcall).mp hu with ⟨-, rfl⟩ | ⟨-, hu⟩
      · exact h.valid i call hcall
      · exact h.valid j u hu
  | cancel callId pruneAt now =>
    exact h.signalled rfl (h.bounded.recordCancel callId pruneAt now) fun _ _ =>
      get_recordCancel_active
  | cancelAll => exact h.signalled rfl h.bounded fun _ _ => Iff.rfl

end Slots

def Event.isSent (i : Nat) : Event → Bool
  | .sent j _ _ => j == i
  | _ => false

/-- The log agrees with where the calls are, and with what they were called with. -/
structure Recorded (floatText : Float → Text) (w : World) : Prop where
  unsent : ∀ (i : Nat) (call : Call), w.calls[i]? = some call → call.phase.beforeCheck →
    ∀ event ∈ w.log, event.isSent i = false
  known : ∀ event ∈ w.log, ∀ i : Nat, event.isSent i → i < w.calls.length
  server : ∀ (i : Nat) (call : Call), w.calls[i]? = some call → call.phase.hasServer →
    call.server.id = call.serverId
  approved : ∀ (i : Nat) (call : Call), w.calls[i]? = some call → call.phase = .checking →
    .accepted i (toolApprovalDescription call.server call.name
      (Json.compact floatText call.arguments)) ∈ w.log
  once : ∀ i, w.log.countP (Event.isSent i) ≤ 1
  sent : ∀ (later : List Event) (i : Nat) (name : Text) (arguments : Json) (earlier : List Event),
    w.log = later ++ .sent i name arguments :: earlier →
    ∃ call : Call, w.calls[i]? = some call ∧ call.name = name ∧ call.arguments = arguments ∧
      ∃ server : McpServer, server.id = call.serverId ∧
        .accepted i (toolApprovalDescription server name (Json.compact floatText arguments)) ∈
          earlier

section Recorded

variable {w w' : World} {a : Action}

/-- A call goes on without an approval and without a send. -/
structure Calm (call call' : Call) : Prop where
  serverId : call'.serverId = call.serverId
  name : call'.name = call.name
  arguments : call'.arguments = call.arguments
  before : call'.phase.beforeCheck → call.phase.beforeCheck
  checking : call'.phase = .checking → call.phase = .checking ∧ call'.server = call.server
  server : call'.phase.hasServer → call'.server.id = call.serverId ∨
    (call.phase.hasServer ∧ call'.server = call.server)

theorem Calm.refl (call : Call) : Calm call call :=
  ⟨rfl, rfl, rfl, id, fun h => ⟨h, rfl⟩, fun h => .inr ⟨h, rfl⟩⟩

theorem Calm.signal {senders : List Nat} {j : Nat} (call : Call) :
    Calm call (if j ∈ senders then { call with signal := true } else call) := by
  split <;> exact ⟨rfl, rfl, rfl, id, fun h => ⟨h, rfl⟩, fun h => .inr ⟨h, rfl⟩⟩

theorem Recorded.quiet (h : Recorded floatText w) (events : List Event)
    (hevents : ∀ event ∈ events, ∀ i, event.isSent i = false) (hlog : w'.log = events ++ w.log)
    (hafter : ∀ (i : Nat) (call' : Call), w'.calls[i]? = some call' →
      (i = w.calls.length ∧ call'.phase = .registered) ∨
        ∃ call : Call, w.calls[i]? = some call ∧ Calm call call')
    (hbefore : ∀ (i : Nat) (call : Call), w.calls[i]? = some call →
      ∃ call' : Call, w'.calls[i]? = some call' ∧ Calm call call') : Recorded floatText w' := by
  have hold : ∀ i, w'.log.countP (Event.isSent i) = w.log.countP (Event.isSent i) := fun i => by
    rw [hlog, List.countP_append, List.countP_eq_zero.mpr, Nat.zero_add]
    intro event hevent hsent
    rw [hevents event hevent i] at hsent
    cases hsent
  have hmem : ∀ event ∈ w'.log, ∀ i, event.isSent i → event ∈ w.log := by
    intro event hevent i hsent
    rw [hlog] at hevent
    rcases List.mem_append.mp hevent with hnew | hevent
    · rw [hevents event hnew i] at hsent
      cases hsent
    · exact hevent
  refine ⟨fun i call' hcall' hbefore' event hevent => ?_, fun event hevent i hsent => ?_,
    fun i call' hcall' hserver => ?_, fun i call' hcall' hphase => ?_,
    fun i => (hold i).le.trans (h.once i), fun later i name arguments earlier hsplit => ?_⟩
  · rw [← Bool.not_eq_true]
    intro hsent
    have hevent := hmem event hevent i hsent
    rcases hafter i call' hcall' with ⟨rfl, -⟩ | ⟨call, hcall, hcalm⟩
    · exact absurd (h.known event hevent _ hsent) (lt_irrefl _)
    · rw [h.unsent i call hcall (hcalm.before hbefore') event hevent] at hsent
      cases hsent
  · have hlt := h.known event (hmem event hevent i hsent) i hsent
    obtain ⟨call', hcall', -⟩ := hbefore i w.calls[i] (List.getElem?_eq_getElem hlt)
    exact (List.getElem?_eq_some_iff.mp hcall').1
  · rcases hafter i call' hcall' with ⟨-, hphase⟩ | ⟨call, hcall, hcalm⟩
    · rw [hphase] at hserver
      cases hserver
    · rw [hcalm.serverId]
      rcases hcalm.server hserver with hnew | ⟨hhas, hsame⟩
      · exact hnew
      · rw [hsame]
        exact h.server i call hcall hhas
  · rcases hafter i call' hcall' with ⟨-, hregistered⟩ | ⟨call, hcall, hcalm⟩
    · rw [hphase] at hregistered
      cases hregistered
    · obtain ⟨hchecking, hserver⟩ := hcalm.checking hphase
      rw [hlog, hserver, hcalm.name, hcalm.arguments]
      exact List.mem_append_right _ (h.approved i call hcall hchecking)
  · obtain ⟨later', hsplit'⟩ : ∃ later', w.log = later' ++ .sent i name arguments :: earlier := by
      rw [hlog] at hsplit
      rcases List.append_eq_append_iff.mp hsplit with ⟨rest, -, hrest⟩ | ⟨rest, hrest, hrest'⟩
      · exact ⟨rest, hrest⟩
      · cases rest with
        | nil => exact ⟨[], hrest'.symm⟩
        | cons event rest =>
          obtain ⟨rfl, -⟩ := List.cons.inj hrest'
          have hfalse := hevents _ (hrest ▸ List.mem_append_right _ List.mem_cons_self) i
          simp [Event.isSent] at hfalse
    obtain ⟨call, hcall, rfl, rfl, server, hserver, haccepted⟩ := h.sent _ _ _ _ _ hsplit'
    obtain ⟨call', hcall', hcalm⟩ := hbefore i call hcall
    exact ⟨call', hcall', hcalm.name, hcalm.arguments, server, hcalm.serverId ▸ hserver, haccepted⟩

theorem Recorded.accepted (h : Recorded floatText w) {i : Nat} {call : Call}
    (hcall : w.calls[i]? = some call) (hphase : call.phase = .approving) :
    Recorded floatText ({ w with
      log := .accepted i (toolApprovalDescription call.server call.name
        (Json.compact floatText call.arguments)) :: w.log }.put i
          { call with phase := .checking }) := by
  have hbefore : call.phase.beforeCheck := by rw [hphase]; rfl
  refine ⟨fun j u hu hu' event hevent => ?_, fun event hevent j hsent => ?_, fun j u hu hhas => ?_,
    fun j u hu hchecking => ?_, fun j => ?_, fun later j name arguments earlier hsplit => ?_⟩
  · rcases List.mem_cons.mp hevent with rfl | hold
    · rfl
    · rcases (Lists.getElem?_set_eq_some hcall).mp hu with ⟨rfl, -⟩ | ⟨-, hu⟩
      · exact h.unsent _ call hcall hbefore event hold
      · exact h.unsent j u hu hu' event hold
  · rcases List.mem_cons.mp hevent with rfl | hevent
    · cases hsent
    · rw [World.put, List.length_set]
      exact h.known event hevent j hsent
  · rcases (Lists.getElem?_set_eq_some hcall).mp hu with ⟨-, rfl⟩ | ⟨-, hu⟩
    · exact h.server i call hcall (by rw [hphase]; rfl)
    · exact h.server j u hu hhas
  · rcases (Lists.getElem?_set_eq_some hcall).mp hu with ⟨rfl, rfl⟩ | ⟨-, hu⟩
    · exact List.mem_cons_self
    · exact List.mem_cons_of_mem _ (h.approved j u hu hchecking)
  · exact (List.countP_cons_of_neg (by simp [Event.isSent])).le.trans (h.once j)
  · cases later with
    | nil => cases hsplit
    | cons event later =>
      obtain ⟨-, hsplit⟩ := List.cons.inj hsplit
      obtain ⟨u, hu, hname, harguments, hrest⟩ := h.sent later j name arguments earlier hsplit
      by_cases hj : j = i
      · subst hj
        obtain rfl : call = u := Option.some.inj (hcall.symm.trans hu)
        exact ⟨_, (Lists.getElem?_set_eq_some hcall).mpr (.inl ⟨rfl, rfl⟩), hname, harguments, hrest⟩
      · exact ⟨u, (Lists.getElem?_set_eq_some hcall).mpr (.inr ⟨hj, hu⟩), hname, harguments, hrest⟩

theorem Recorded.sends (h : Recorded floatText w) {i : Nat} {call : Call}
    (hcall : w.calls[i]? = some call) (hphase : call.phase = .checking) :
    Recorded floatText ({ w with log := .sent i call.name call.arguments :: w.log }.put i
      { call with phase := .sending }) := by
  have hbefore : call.phase.beforeCheck := by rw [hphase]; rfl
  obtain ⟨hlt, -⟩ := List.getElem?_eq_some_iff.mp hcall
  refine ⟨fun j u hu hu' event hevent => ?_, fun event hevent j hsent => ?_, fun j u hu hhas => ?_,
    fun j u hu hchecking => ?_, fun j => ?_, fun later j name arguments earlier hsplit => ?_⟩
  · rcases (Lists.getElem?_set_eq_some hcall).mp hu with ⟨-, rfl⟩ | ⟨hj, hu⟩
    · cases hu'
    · rcases List.mem_cons.mp hevent with rfl | hevent
      · simpa [Event.isSent] using Ne.symm hj
      · exact h.unsent j u hu hu' event hevent
  · rw [World.put, List.length_set]
    rcases List.mem_cons.mp hevent with rfl | hevent
    · obtain rfl : i = j := by simpa [Event.isSent] using hsent
      exact hlt
    · exact h.known event hevent j hsent
  · rcases (Lists.getElem?_set_eq_some hcall).mp hu with ⟨-, rfl⟩ | ⟨-, hu⟩
    · cases hhas
    · exact h.server j u hu hhas
  · rcases (Lists.getElem?_set_eq_some hcall).mp hu with ⟨-, rfl⟩ | ⟨-, hu⟩
    · cases hchecking
    · exact List.mem_cons_of_mem _ (h.approved j u hu hchecking)
  · by_cases hj : i = j
    · subst hj
      have hnone : w.log.countP (Event.isSent i) = 0 := List.countP_eq_zero.mpr fun event hevent => by
        rw [h.unsent i call hcall hbefore event hevent]
        exact Bool.false_ne_true
      exact (List.countP_cons_of_pos (by simp [Event.isSent])).le.trans (by rw [hnone])
    · exact (List.countP_cons_of_neg (by simpa [Event.isSent] using hj)).le.trans (h.once j)
  · cases later with
    | nil =>
      cases hsplit
      exact ⟨_, (Lists.getElem?_set_eq_some hcall).mpr (.inl ⟨rfl, rfl⟩), rfl, rfl, call.server,
        h.server i call hcall (by rw [hphase]; rfl), h.approved i call hcall hphase⟩
    | cons event later =>
      obtain ⟨-, hsplit⟩ := List.cons.inj hsplit
      obtain ⟨u, hu, hname, harguments, hrest⟩ := h.sent later j name arguments earlier hsplit
      by_cases hj : j = i
      · subst hj
        obtain rfl : call = u := Option.some.inj (hcall.symm.trans hu)
        exact ⟨_, (Lists.getElem?_set_eq_some hcall).mpr (.inl ⟨rfl, rfl⟩), hname, harguments, hrest⟩
      · exact ⟨u, (Lists.getElem?_set_eq_some hcall).mpr (.inr ⟨hj, hu⟩), hname, harguments, hrest⟩

theorem Recorded.set (h : Recorded floatText w) {i : Nat} {call call' : Call}
    (hcall : w.calls[i]? = some call) (hcalm : Calm call call') (hlog : w'.log = w.log)
    (hcalls : w'.calls = w.calls.set i call') : Recorded floatText w' := by
  refine h.quiet [] (fun event hevent => by cases hevent) hlog (fun j u hu => ?_)
    fun j u hu => ?_
  · rw [hcalls] at hu
    rcases (Lists.getElem?_set_eq_some hcall).mp hu with ⟨rfl, rfl⟩ | ⟨-, hu⟩
    · exact .inr ⟨call, hcall, hcalm⟩
    · exact .inr ⟨u, hu, .refl u⟩
  · rw [hcalls]
    by_cases hj : j = i
    · subst hj
      obtain rfl : call = u := Option.some.inj (hcall.symm.trans hu)
      exact ⟨call', (Lists.getElem?_set_eq_some hcall).mpr (.inl ⟨rfl, rfl⟩), hcalm⟩
    · exact ⟨u, (Lists.getElem?_set_eq_some hcall).mpr (.inr ⟨hj, hu⟩), .refl u⟩

theorem Recorded.signalled (h : Recorded floatText w) {senders : List Nat} (events : List Event)
    (hevents : ∀ event ∈ events, ∀ i, event.isSent i = false) (hlog : w'.log = events ++ w.log)
    (hcalls : w'.calls = w.signal senders) : Recorded floatText w' := by
  refine h.quiet events hevents hlog (fun j u hu => ?_) fun j u hu => ?_
  · rw [hcalls, getElem?_signal] at hu
    obtain ⟨call, hcall, rfl⟩ := hu
    exact .inr ⟨call, hcall, .signal call⟩
  · rw [hcalls]
    exact ⟨_, getElem?_signal.mpr ⟨u, hu, rfl⟩, .signal u⟩

theorem Recorded.next (h : Recorded floatText w) (hstep : step floatText w a = some w') :
    Recorded floatText w' := by
  cases step_effect hstep with
  | nothing => exact h
  | refused serverId name callId arguments now error =>
    refine h.quiet [.called callId (.error error)] ?_ rfl
      (fun i call hcall => .inr ⟨call, hcall, .refl call⟩) fun i call hcall => ⟨call, hcall, .refl call⟩
    intro event hevent i
    rw [List.mem_singleton.mp hevent]
    rfl
  | admitted serverId name callId arguments now table =>
    refine h.quiet [.called callId (.ok ())] ?_ rfl (fun i call hcall => ?_)
      fun i call hcall => ⟨call, Lists.getElem?_concat_of_some hcall, .refl call⟩
    · intro event hevent i
      rw [List.mem_singleton.mp hevent]
      rfl
    · rcases Lists.getElem?_concat hcall with hcall | ⟨rfl, rfl⟩
      · exact .inr ⟨call, hcall, .refl call⟩
      · exact .inl ⟨rfl, rfl⟩
  | moves _ i call call' events hcall hlive hmoves =>
    cases hmoves with
    | quiet _ hsame _ hbefore hchecking hserver =>
      exact h.set hcall ⟨hsame.serverId, hsame.name, hsame.arguments, hbefore, hchecking, hserver⟩
        rfl rfl
    | accepted hphase => exact h.accepted hcall hphase
    | sent hphase => exact h.sends hcall hphase
  | release i call hcall hphase =>
    have hcalm : Calm call { call with phase := .ended } := by
      refine ⟨rfl, rfl, rfl, fun h => ?_, fun h => ?_, fun h => ?_⟩ <;> cases h
    exact h.set hcall hcalm rfl rfl
  | cancel callId pruneAt now =>
    refine h.signalled [.cancelled callId] ?_ rfl rfl
    intro event hevent i
    rw [List.mem_singleton.mp hevent]
    rfl
  | cancelAll =>
    exact h.signalled [] (fun event hevent => by cases hevent) rfl rfl

end Recorded

def Cancels (a : Action) (callId : Text) : Prop :=
  (∃ pruneAt now, a = .cancel callId pruneAt now) ∨ a = .cancelAll

def Call.Stopped (call : Call) : Prop :=
  (call.phase.beforeCheck → call.signal) ∧ ¬ (call.phase = .sending ∨ call.phase = .reading)

section Cancelled

variable {w w' : World} {a : Action}

theorem step_call (hstep : step floatText w a = some w') {i : Nat} {call : Call}
    (hcall : w.calls[i]? = some call) : ∃ call' : Call, w'.calls[i]? = some call' ∧
      (call' = call ∨ call' = { call with signal := true } ∨
        (call.phase = .returning ∧ a = .release i ∧ call' = { call with phase := .ended }) ∨
          ∃ events, Moves floatText i call call' events ∧ w'.log = events ++ w.log) := by
  have hsignal : ∀ senders, ∃ call' : Call, (w.signal senders)[i]? = some call' ∧
      (call' = call ∨ call' = { call with signal := true }) := fun senders => by
    refine ⟨_, getElem?_signal.mpr ⟨call, hcall, rfl⟩, ?_⟩
    split
    · exact .inr rfl
    · exact .inl rfl
  cases step_effect hstep with
  | nothing => exact ⟨call, hcall, .inl rfl⟩
  | refused => exact ⟨call, hcall, .inl rfl⟩
  | admitted => exact ⟨call, Lists.getElem?_concat_of_some hcall, .inl rfl⟩
  | moves _ j u u' events hu _ hmoves =>
    by_cases hj : i = j
    · subst hj
      obtain rfl : call = u := Option.some.inj (hcall.symm.trans hu)
      exact ⟨u', (Lists.getElem?_set_eq_some hu).mpr (.inl ⟨rfl, rfl⟩),
        .inr (.inr (.inr ⟨events, hmoves, rfl⟩))⟩
    · exact ⟨call, (Lists.getElem?_set_eq_some hu).mpr (.inr ⟨hj, hcall⟩), .inl rfl⟩
  | release j u hu hphase =>
    by_cases hj : i = j
    · subst hj
      obtain rfl : call = u := Option.some.inj (hcall.symm.trans hu)
      exact ⟨_, (Lists.getElem?_set_eq_some hu).mpr (.inl ⟨rfl, rfl⟩),
        .inr (.inr (.inl ⟨hphase, rfl, rfl⟩))⟩
    · exact ⟨call, (Lists.getElem?_set_eq_some hu).mpr (.inr ⟨hj, hcall⟩), .inl rfl⟩
  | cancel callId pruneAt now =>
    obtain ⟨call', hcall', hkind⟩ := hsignal (recordCancel w.table callId pruneAt now).2.toList
    exact ⟨call', hcall', hkind.imp_right .inl⟩
  | cancelAll =>
    obtain ⟨call', hcall', hkind⟩ := hsignal (cancelActiveCalls w.table)
    exact ⟨call', hcall', hkind.imp_right .inl⟩

theorem step_log (hstep : step floatText w a = some w') {i : Nat}
    (hnone : ∀ event ∈ w.log, event.isSent i = false) :
    (∀ event ∈ w'.log, event.isSent i = false) ∨
      ∃ call : Call, w.calls[i]? = some call ∧ call.phase = .checking ∧ call.signal = false := by
  cases step_effect hstep with
  | nothing => exact .inl hnone
  | refused => exact .inl (List.forall_mem_cons.mpr ⟨rfl, hnone⟩)
  | admitted => exact .inl (List.forall_mem_cons.mpr ⟨rfl, hnone⟩)
  | moves _ j u u' events hu _ hmoves =>
    cases hmoves with
    | quiet => exact .inl hnone
    | accepted => exact .inl (List.forall_mem_cons.mpr ⟨rfl, hnone⟩)
    | sent hphase hsignal =>
      by_cases hj : j = i
      · exact .inr ⟨u, hj ▸ hu, hphase, hsignal⟩
      · exact .inl (List.forall_mem_cons.mpr ⟨by simpa [Event.isSent] using hj, hnone⟩)
  | release => exact .inl hnone
  | cancel => exact .inl (List.forall_mem_cons.mpr ⟨rfl, hnone⟩)
  | cancelAll => exact .inl hnone

theorem stopped_next {i : Nat} (hstep : step floatText w a = some w')
    (h : ∃ call : Call, w.calls[i]? = some call ∧ call.Stopped)
    (hnone : ∀ event ∈ w.log, event.isSent i = false) :
    (∃ call : Call, w'.calls[i]? = some call ∧ call.Stopped) ∧
      ∀ event ∈ w'.log, event.isSent i = false := by
  obtain ⟨call, hcall, hbefore, hpast⟩ := h
  refine ⟨?_, (step_log hstep hnone).resolve_right ?_⟩
  · obtain ⟨call', hcall', hkind⟩ := step_call hstep hcall
    refine ⟨call', hcall', ?_⟩
    rcases hkind with rfl | rfl | ⟨-, -, rfl⟩ | ⟨events, hmoves, -⟩
    · exact ⟨hbefore, hpast⟩
    · exact ⟨fun _ => rfl, hpast⟩
    · refine ⟨fun h => ?_, fun h => ?_⟩
      · cases h
      · simp at h
    · cases hmoves with
      | quiet _ hsame _ hbefore' _ _ hpast' =>
        exact ⟨fun h => hsame.signal ▸ hbefore (hbefore' h), fun h => hpast (hpast' h)⟩
      | accepted hphase =>
        exact ⟨fun _ => hbefore (by rw [hphase]; rfl), fun h => by simp at h⟩
      | sent hphase hsignal =>
        have := hbefore (by rw [hphase]; rfl)
        rw [hsignal] at this
        cases this
  · rintro ⟨u, hu, hphase, hsignal⟩
    obtain rfl : call = u := Option.some.inj (hcall.symm.trans hu)
    have := hbefore (by rw [hphase]; rfl)
    rw [hsignal] at this
    cases this

theorem cancels_log {callId : Text} {i : Nat} (hcancels : Cancels a callId)
    (hstep : step floatText w a = some w') (hnone : ∀ event ∈ w.log, event.isSent i = false) :
    ∀ event ∈ w'.log, event.isSent i = false := by
  rcases hcancels with ⟨pruneAt, now, rfl⟩ | rfl
  · simp only [step] at hstep
    split at hstep
    · cases hstep
    · split at hstep
      · cases hstep
        exact hnone
      · cases hstep
        exact List.forall_mem_cons.mpr ⟨rfl, hnone⟩
  · cases hstep
    exact hnone

theorem Slots.signals (h : Slots w) {i : Nat} {call : Call} (hcall : w.calls[i]? = some call)
    (hlive : call.live) (hcancels : Cancels a call.callId)
    (hstep : step floatText w a = some w') :
    w'.calls[i]? = some { call with signal := true } := by
  have hslot := h.live i call hcall hlive
  rcases hcancels with ⟨pruneAt, now, rfl⟩ | rfl
  · have hvalid := h.valid i call hcall
    simp only [step, hvalid, recordCancel_signal hslot] at hstep
    split at hstep
    · cases hstep
    · cases hstep
      exact getElem?_signal.mpr ⟨call, hcall, by simp⟩
  · cases hstep
    refine getElem?_signal.mpr ⟨call, hcall, ?_⟩
    rw [if_pos (mem_cancelActiveCalls.mpr ⟨_, hslot⟩)]

end Cancelled

def Event.cancelledId : Event → Option Text
  | .cancelled callId => some callId
  | _ => none

def otherIds (callId : Text) (log : List Event) : List Text :=
  ((log.filterMap Event.cancelledId).filter fun k => k ≠ callId).dedup

def Event.calls (callId : Text) : Event → Bool
  | .called k _ => k == callId
  | _ => false

/-- No cancel of the id waits, and none came at the same instant that sorts after it. -/
def Newest (w : World) (callId : Text) (now : Nat) : Prop :=
  ∀ k since, w.table.get k = some (.cancelled since) →
    k ≠ callId ∧ Before (since, k) (now, callId)

/-- The call of the id is still to come, and its cancel is not lost by then. -/
structure Pending (callId : Text) (since : Nat) (between : List Event) (clock : Nat) : Prop where
  uncalled : ∀ event ∈ between, event.calls callId = false
  few : (otherIds callId between).length < maxCancelledCalls
  recent : clock - since < cancelledCallRetention

structure Waits (start : List Event) (callId : Text) (since : Nat) (w : World)
    (between : List Event) : Prop where
  log : w.log = between ++ start
  later : ∀ k instant, k ≠ callId → w.table.get k = some (.cancelled instant) →
    Before (since, callId) (instant, k) → k ∈ otherIds callId between
  slot : Pending callId since between w.clock → w.table.get callId = some (.cancelled since)

section Tombstones

variable {w w' : World} {a : Action} {start between : List Event} {callId : Text}
  {since clock clock' : Nat}

theorem mem_otherIds {k : Text} {log : List Event} :
    k ∈ otherIds callId log ↔ .cancelled k ∈ log ∧ k ≠ callId := by
  rw [otherIds, List.mem_dedup, List.mem_filter, List.mem_filterMap, decide_eq_true_iff]
  refine and_congr_left fun _ => ⟨?_, fun h => ⟨_, h, rfl⟩⟩
  rintro ⟨event, hevent, hid⟩
  cases event with
  | cancelled callId =>
    cases hid
    exact hevent
  | called => cases hid
  | accepted => cases hid
  | sent => cases hid

theorem otherIds_subset (events log : List Event) :
    otherIds callId log ⊆ otherIds callId (events ++ log) := by
  intro k hk
  rw [mem_otherIds] at hk ⊢
  exact ⟨List.mem_append_right _ hk.1, hk.2⟩

theorem Pending.before (events : List Event) (h : Pending callId since (events ++ between) clock')
    (hclock : clock ≤ clock') : Pending callId since between clock := by
  refine ⟨fun event hevent => h.uncalled event (List.mem_append_right _ hevent), ?_, ?_⟩
  · refine lt_of_le_of_lt ?_ h.few
    exact ((List.nodup_dedup _).subperm (otherIds_subset events between)).length_le
  · have := h.recent
    omega

theorem Waits.length_later (h : Waits start callId since w between) (later : List (Nat × Text))
    (hnodup : later.Nodup)
    (hlater : ∀ u ∈ later, Before (since, callId) u ∧ u.2 ≠ callId ∧
      w.table.get u.2 = some (.cancelled u.1)) :
    (later.map Prod.snd).Nodup ∧ later.map Prod.snd ⊆ otherIds callId between := by
  refine ⟨(List.nodup_map_iff_inj_on hnodup).mpr fun u hu v hv heq => ?_, fun k hk => ?_⟩
  · have hget := (hlater u hu).2.2
    rw [heq, (hlater v hv).2.2] at hget
    have hinstant : v.1 = u.1 := by simpa using hget
    exact Prod.ext hinstant.symm heq
  · obtain ⟨u, hu, rfl⟩ := List.mem_map.mp hk
    obtain ⟨hbefore, hne, hget⟩ := hlater u hu
    exact h.later u.2 u.1 hne hget hbefore

theorem Waits.same (h : Waits start callId since w between) (events : List Event)
    (hlog : w'.log = events ++ w.log)
    (hclock : w.clock ≤ w'.clock)
    (htable : ∀ k instant, w'.table.get k = some (.cancelled instant) →
      w.table.get k = some (.cancelled instant))
    (hslot : w.table.get callId = some (.cancelled since) →
      Pending callId since (events ++ between) w'.clock →
      w'.table.get callId = some (.cancelled since)) :
    Waits start callId since w' (events ++ between) := by
  refine ⟨by rw [hlog, h.log, List.append_assoc], fun k instant hne hget hbefore => ?_,
    fun hpending => hslot (h.slot (hpending.before events hclock)) hpending⟩
  exact otherIds_subset events between (h.later k instant hne (htable k instant hget) hbefore)

theorem Waits.kept (h : Waits start callId since w between) {now : Nat}
    (hslot : w.table.get callId = some (.cancelled since))
    (hpending : Pending callId since between now) :
    (pruneCancelledCalls w.table maxCancelledCalls now).get callId = some (.cancelled since) := by
  refine get_prune_cancelled hslot hpending.recent fun later hnodup hlater => ?_
  obtain ⟨hkeys, hsubset⟩ := h.length_later later hnodup hlater
  rw [← List.length_map Prod.snd]
  exact (hkeys.subperm hsubset).length_le.trans_lt hpending.few

theorem Waits.next (h : Waits start callId since w between)
    (hstep : step floatText w a = some w') : ∃ between', Waits start callId since w' between' := by
  cases step_effect hstep with
  | nothing => exact ⟨between, h⟩
  | refused serverId name k arguments now error table hclock hadmission =>
    refine ⟨_, h.same [.called k (.error error)] rfl hclock (fun k instant hget => ?_)
      fun hslot hpending => ?_⟩
    · exact get_admitCall_cancelled hadmission hget
    · have hother : callId ≠ k := fun hk => by
        have := hpending.uncalled _ List.mem_cons_self
        simp [Event.calls, hk] at this
      have hbefore : Pending callId since between now :=
        hpending.before [.called k (.error error)] (Nat.le_refl now)
      rw [get_admitCall hadmission hother, h.kept hslot hbefore]
  | admitted serverId name k arguments now table hclock _ hadmission =>
    refine ⟨_, h.same [.called k (.ok ())] rfl hclock (fun k instant hget => ?_)
      fun hslot hpending => ?_⟩
    · exact get_admitCall_cancelled hadmission hget
    · have hother : callId ≠ k := fun hk => by
        have := hpending.uncalled _ List.mem_cons_self
        simp [Event.calls, hk] at this
      have hbefore : Pending callId since between now :=
        hpending.before [.called k (.ok ())] (Nat.le_refl now)
      rw [get_admitCall hadmission hother, h.kept hslot hbefore]
  | moves _ i call call' events =>
    exact ⟨_, h.same events rfl (le_refl _) (fun _ _ hget => hget) fun hslot _ => hslot⟩
  | release i call =>
    exact ⟨_, h.same [] rfl (le_refl _)
      (fun _ _ hget => get_dropRegistration_cancelled.mp hget)
      fun hslot _ => get_dropRegistration_cancelled.mpr hslot⟩
  | cancel k pruneAt now hclock hreads =>
    refine ⟨.cancelled k :: between, by rw [h.log, List.cons_append],
      fun k' instant hne hget hbefore => ?_, fun hpending => ?_⟩
    · rcases get_recordCancel_cancelled hget with ⟨rfl, -⟩ | hget
      · exact mem_otherIds.mpr ⟨List.mem_cons_self, hne⟩
      · exact otherIds_subset [.cancelled k] between (h.later k' instant hne hget hbefore)
    · have hslot := h.slot (hpending.before [.cancelled k] (hclock.trans hreads))
      simp only [recordCancel]
      split
      · exact hslot
      · exact hslot
      · rename_i hnone
        have hother : callId ≠ k := fun hk => by
          rw [← hk, hslot] at hnone
          cases hnone
        rw [KeyMap.get_insert, if_neg hother]
        refine get_prune_cancelled hslot ?_ fun later hnodup hlater => ?_
        · have := hpending.recent
          exact (Nat.sub_le_sub_right hreads since).trans_lt this
        · -- the id cancelled now is one more of those that came after
          obtain ⟨hkeys, hsubset⟩ := h.length_later later hnodup hlater
          have hnew : k ∉ later.map Prod.snd := fun hk => by
            obtain ⟨u, hu, rfl⟩ := List.mem_map.mp hk
            rw [(hlater u hu).2.2] at hnone
            cases hnone
          have hall : k :: later.map Prod.snd ⊆ otherIds callId (.cancelled k :: between) := by
            intro k' hk'
            rcases List.mem_cons.mp hk' with rfl | hk'
            · exact mem_otherIds.mpr ⟨List.mem_cons_self, hother.symm⟩
            · exact otherIds_subset [.cancelled k] between (hsubset hk')
          have hcount := ((List.nodup_cons.mpr ⟨hnew, hkeys⟩).subperm hall).length_le
          have hfew := hpending.few
          rw [List.length_cons, List.length_map] at hcount
          omega
  | cancelAll =>
    exact ⟨_, h.same [] rfl (le_refl _) (fun _ _ hget => hget) fun hslot _ => hslot⟩

theorem Waits.of_cancel (pruneAt : Nat) {now : Nat} (hinactive : ∀ i, w.table.get callId ≠ some (.active i))
    (hnewest : Newest w callId now)
    (htable : w'.table = (recordCancel w.table callId pruneAt now).1) :
    Waits w'.log callId now w' [] := by
  have hnone : w.table.get callId = none := by
    cases hget : w.table.get callId with
    | none => rfl
    | some slot =>
      cases slot with
      | active i => exact absurd hget (hinactive i)
      | cancelled since => exact absurd rfl (hnewest _ _ hget).1
  refine ⟨rfl, fun k instant hne hget hbefore => ?_, fun _ => ?_⟩
  · rw [htable] at hget
    rcases get_recordCancel_cancelled hget with ⟨rfl, -⟩ | hget
    · exact absurd rfl hne
    · have heq := (hnewest k instant hget).2.antisymm hbefore
      exact absurd (Prod.mk.inj heq).2 hne
  · simp only [htable, recordCancel, hnone]
    rw [KeyMap.get_insert, if_pos rfl]

end Tombstones

section Runs

variable {w w' w₁ w₂ w₃ : World} {a : Action}

theorem Slots.keeps (h : Slots w) (hstep : step floatText w a = some w') {i : Nat} {call : Call}
    (hcall : w.calls[i]? = some call) (hlive : call.live) (hother : a ≠ .release i) :
    ∃ call' : Call, w'.calls[i]? = some call' ∧ call'.live ∧ call'.callId = call.callId ∧
      w'.table.get call.callId = some (.active i) ∧
        (call'.signal = call.signal ∨ Cancels a call.callId) := by
  obtain ⟨call', hcall', hkind⟩ := step_call hstep hcall
  obtain ⟨hlive', hid⟩ : call'.live ∧ call'.callId = call.callId := by
    rcases hkind with rfl | rfl | ⟨-, hrelease, -⟩ | ⟨events, hmoves, -⟩
    · exact ⟨hlive, rfl⟩
    · exact ⟨hlive, rfl⟩
    · exact absurd hrelease hother
    · refine ⟨hmoves.live, ?_⟩
      cases hmoves with
      | quiet _ hsame => exact hsame.callId
      | accepted => rfl
      | sent => rfl
  refine ⟨call', hcall', hlive', hid, hid ▸ (h.next hstep).live i call' hcall' hlive', ?_⟩
  cases step_effect hstep with
  | nothing =>
    rw [hcall] at hcall'
    cases hcall'
    exact .inl rfl
  | refused =>
    rw [show w.calls[i]? = some call' from hcall'] at hcall
    cases hcall
    exact .inl rfl
  | admitted =>
    rw [Lists.getElem?_concat_of_some hcall] at hcall'
    cases hcall'
    exact .inl rfl
  | moves _ j u u' events hu _ hmoves =>
    rcases (Lists.getElem?_set_eq_some hu).mp hcall' with ⟨rfl, rfl⟩ | ⟨-, hsame⟩
    · obtain rfl : call = u := Option.some.inj (hcall.symm.trans hu)
      cases hmoves with
      | quiet _ hsame => exact .inl hsame.signal
      | accepted => exact .inl rfl
      | sent => exact .inl rfl
    · rw [hcall] at hsame
      cases hsame
      exact .inl rfl
  | release j u hu =>
    rcases (Lists.getElem?_set_eq_some hu).mp hcall' with ⟨rfl, -⟩ | ⟨-, hsame⟩
    · exact absurd rfl hother
    · rw [hcall] at hsame
      cases hsame
      exact .inl rfl
  | cancel callId pruneAt now =>
    obtain ⟨u, hu, rfl⟩ := getElem?_signal.mp hcall'
    obtain rfl : call = u := Option.some.inj (hcall.symm.trans hu)
    split
    · rename_i hmem
      rw [Option.mem_toList, mem_recordCancel_signal] at hmem
      obtain ⟨owner, howner, -, rfl⟩ := h.owner _ _ hmem
      obtain rfl : call = owner := Option.some.inj (hcall.symm.trans howner)
      exact .inr (.inl ⟨pruneAt, now, rfl⟩)
    · exact .inl rfl
  | cancelAll => exact .inr (.inr rfl)

structure Inv (floatText : Float → Text) (w : World) : Prop where
  slots : Slots w
  recorded : Recorded floatText w

theorem Inv.start : Inv floatText {} := by
  refine ⟨⟨.empty, ?_, ?_, ?_⟩, ⟨?_, ?_, ?_, ?_, fun _ => Nat.zero_le _, ?_⟩⟩
  · intro i call hcall
    cases hcall
  · intro k i hslot
    cases hslot
  · intro i call hcall
    cases hcall
  · intro i call hcall
    cases hcall
  · intro event hevent
    cases hevent
  · intro i call hcall
    cases hcall
  · intro i call hcall
    cases hcall
  · intro later i name arguments earlier hsplit
    simp at hsplit

theorem Waits.refused {start between : List Event} {callId : Text} {since : Nat}
    (h : Waits start callId since w between) {serverId name : Text} {arguments : Json} {now : Nat}
    (hpending : Pending callId since between now) (hvalid : validId callId)
    (hstep : step floatText w (.call serverId name arguments callId now) = some w') :
    w'.calls = w.calls ∧ w'.log = .called callId (.error toolCallCancelled) :: w.log := by
  simp only [step, hvalid] at hstep
  split at hstep
  · cases hstep
  · rename_i hclock
    have hslot := h.slot ⟨hpending.uncalled, hpending.few,
      (Nat.sub_le_sub_right (Nat.le_of_not_lt hclock) since).trans_lt hpending.recent⟩
    have hrefused := admitCall_of_cancelled w.calls.length (h.kept hslot hpending)
    rw [if_neg (by simp)] at hstep
    split at hstep
    · rename_i error table hadmission
      rw [hadmission] at hrefused
      cases hrefused
      cases hstep
      exact ⟨rfl, rfl⟩
    · rename_i table hadmission
      rw [hadmission] at hrefused
      cases hrefused

/-- A call is sent once at most, after the acceptance of the prompt for its own server,
name and arguments, and never once it was cancelled before its check; a cancel that finds
no cancel of its id waiting stops the next call of the id; and every registered call has
a slot of its own that other calls leave alone, within the bounds of the table. -/
theorem tool_calls_safe (hrun : Reaches (step floatText) (fun _ _ => True) {} w) :
    (∀ i, w.log.countP (Event.isSent i) ≤ 1) ∧
    (∀ later i name arguments earlier, w.log = later ++ .sent i name arguments :: earlier →
      ∃ call : Call, w.calls[i]? = some call ∧ call.name = name ∧ call.arguments = arguments ∧
        ∃ server : McpServer, server.id = call.serverId ∧
          .accepted i (toolApprovalDescription server name (Json.compact floatText arguments)) ∈
            earlier) ∧
    (∀ (i : Nat) (call : Call), w.calls[i]? = some call → call.phase.beforeCheck →
      ∀ a w₁, Cancels a call.callId → step floatText w a = some w₁ →
        ∀ w₂, Reaches (step floatText) (fun _ _ => True) w₁ w₂ →
          ∀ event ∈ w₂.log, event.isSent i = false) ∧
    (∀ callId pruneAt now w₁, (∀ i, w.table.get callId ≠ some (.active i)) →
      Newest w callId now → validId callId →
      step floatText w (.cancel callId pruneAt now) = some w₁ →
        ∀ w₂ between, Reaches (step floatText) (fun _ _ => True) w₁ w₂ →
          w₂.log = between ++ w₁.log → (∀ event ∈ between, event.calls callId = false) →
          (otherIds callId between).length < 256 →
          ∀ serverId name arguments later w₃, later - now < cancelledCallRetention →
            step floatText w₂ (.call serverId name arguments callId later) = some w₃ →
              w₃.calls = w₂.calls ∧
                w₃.log = .called callId (.error toolCallCancelled) :: w₂.log) ∧
    (actives w.table).entries.length ≤ 32 ∧ (tombstones w.table).entries.length ≤ 256 ∧
    (∀ (i j : Nat) (c d : Call), w.calls[i]? = some c → w.calls[j]? = some d → c.live → d.live →
      c.callId = d.callId → i = j) ∧
    ∀ a w', step floatText w a = some w' → ∀ (i : Nat) (call : Call), w.calls[i]? = some call →
      call.live → a ≠ .release i → ∃ call' : Call, w'.calls[i]? = some call' ∧ call'.live ∧
        call'.callId = call.callId ∧ w'.table.get call.callId = some (.active i) ∧
          (call'.signal = call.signal ∨ Cancels a call.callId) := by
  have hkeep : ∀ u u' b, Inv floatText u → True → step floatText u b = some u' →
      Inv floatText u' := fun _ _ _ hinv _ hstep =>
    ⟨hinv.slots.next hstep, hinv.recorded.next hstep⟩
  obtain ⟨hslots, hrecorded⟩ := hrun.invariant .start hkeep
  refine ⟨hrecorded.once, hrecorded.sent, ?_, ?_, hslots.bounded.actives, hslots.bounded.tombstones,
    ?_, fun a w' hstep i call hcall hlive hother => hslots.keeps hstep hcall hlive hother⟩
  · intro i call hcall hbefore a w₁ hcancels hstep w₂ hrest
    have hlive : call.live := by
      rw [Call.live, bne_iff_ne]
      intro hphase
      rw [hphase] at hbefore
      cases hbefore
    have hsignalled := hslots.signals hcall hlive hcancels hstep
    have hstopped : (∃ call : Call, w₁.calls[i]? = some call ∧ call.Stopped) ∧
        ∀ event ∈ w₁.log, event.isSent i = false := by
      refine ⟨⟨_, hsignalled, fun _ => rfl, fun hpast => ?_⟩, cancels_log hcancels hstep
        (hrecorded.unsent i call hcall hbefore)⟩
      rcases hpast with hphase | hphase <;>
      · rw [show call.phase = _ from hphase] at hbefore
        cases hbefore
    have hstays : ∀ u u' b, ((∃ call : Call, u.calls[i]? = some call ∧ call.Stopped) ∧
        ∀ event ∈ u.log, event.isSent i = false) → True → step floatText u b = some u' →
        (∃ call : Call, u'.calls[i]? = some call ∧ call.Stopped) ∧
          ∀ event ∈ u'.log, event.isSent i = false :=
      fun _ _ _ h _ hstep => stopped_next hstep h.1 h.2
    exact (hrest.invariant hstopped hstays).2
  · intro callId pruneAt now w₁ hinactive hnewest hvalid hstep w₂ between hrest hlog huncalled hfew
      serverId name arguments later w₃ hrecent hnext
    have hwaits : Waits w₁.log callId now w₁ [] := by
      refine .of_cancel pruneAt hinactive hnewest ?_
      simp only [step, hvalid] at hstep
      split at hstep
      · cases hstep
      · cases hstep
        rfl
    have hstays : ∀ u u' b, (∃ between', Waits w₁.log callId now u between') → True →
        step floatText u b = some u' → ∃ between', Waits w₁.log callId now u' between' :=
      fun _ _ _ h _ hstep => h.elim fun _ h => h.next hstep
    obtain ⟨between', hwaits'⟩ := hrest.invariant ⟨[], hwaits⟩ hstays
    obtain rfl : between = between' := List.append_cancel_right (hlog.symm.trans hwaits'.log)
    exact hwaits'.refused ⟨huncalled, hfew, hrecent⟩ hvalid hnext
  · intro i j c d hc hd hlive hlive' hid
    have hslot := hslots.live i c hc hlive
    rw [hid, hslots.live j d hd hlive'] at hslot
    cases hslot
    rfl

def noFloats : Float → Text := fun _ => []

/-- A cancel just before its call stops the call. -/
theorem tool_calls_safe_cancelled_first : ∃ w₁ w₂,
    step noFloats {} (.cancel "c".toList 0 0) = some w₁ ∧
      step noFloats w₁ (.call "s".toList "t".toList (.object []) "c".toList 1) = some w₂ ∧
        w₂.calls = [] := by
  obtain ⟨w₂, hrun⟩ := Option.isSome_iff_exists.mp
    (show ((step noFloats {} (.cancel "c".toList 0 0)).bind fun w₁ =>
      step noFloats w₁ (.call "s".toList "t".toList (.object []) "c".toList 1)).isSome by
      decide +kernel)
  obtain ⟨w₁, hcancel, hcall⟩ := Option.bind_eq_some_iff.mp hrun
  refine ⟨w₁, w₂, hcancel, hcall, ?_⟩
  have hnewest : Newest {} "c".toList 0 := fun k since hget => by cases hget
  have hinactive : ∀ i, ({} : World).table.get "c".toList ≠ some (.active i) :=
    fun i hget => by cases hget
  have hempty : Reaches (step noFloats) (fun _ _ => True) {} {} := .start
  have hsafe := (tool_calls_safe hempty).2.2.2.1 "c".toList 0 0 w₁ hinactive hnewest (by decide)
    hcancel w₁ [] .start rfl (fun event hevent => by cases hevent) (by decide)
    "s".toList "t".toList (.object []) 1 w₂ (by decide) hcall
  have hcalls : w₁.calls = [] := by
    cases hcancel
    rfl
  exact hsafe.1.trans hcalls

/-- A cancel that finds an expired one of its id is lost: the call is admitted one second
after it. -/
theorem second_cancel_lost : ¬ ∀ w callId pruneAt now w₁,
    Reaches (step noFloats) (fun _ _ => True) {} w →
    (∀ i, w.table.get callId ≠ some (.active i)) → validId callId →
    step noFloats w (.cancel callId pruneAt now) = some w₁ →
      ∀ serverId name arguments later w₂, later - now < cancelledCallRetention →
        step noFloats w₁ (.call serverId name arguments callId later) = some w₂ →
          w₂.calls = w₁.calls := by
  intro hall
  have hrun : ((step noFloats {} (.cancel "c".toList 0 0)).bind fun w =>
      (step noFloats w (.cancel "c".toList 70000000000 70000000000)).bind fun w₁ =>
        (step noFloats w₁ (.call "s".toList "t".toList (.object []) "c".toList 71000000000)).map
          fun w₂ => (w.table.get "c".toList, w₁.calls.length, w₂.calls.length)) =
      some (some (.cancelled 0), 0, 1) := by decide +kernel
  obtain ⟨w, hw, hrun⟩ := Option.bind_eq_some_iff.mp hrun
  obtain ⟨w₁, hw₁, hrun⟩ := Option.bind_eq_some_iff.mp hrun
  obtain ⟨w₂, hw₂, hrun⟩ := Option.map_eq_some_iff.mp hrun
  simp only [Prod.mk.injEq] at hrun
  obtain ⟨hslot, hbefore, hafter⟩ := hrun
  have hinactive : ∀ i, w.table.get "c".toList ≠ some (.active i) := fun i hget => by
    rw [hslot] at hget
    cases hget
  have hsame := hall w _ _ _ w₁ (.next .start trivial hw) hinactive (by decide) hw₁ _ _ _ _ w₂
    (by decide) hw₂
  rw [hsame, hbefore] at hafter
  cases hafter

end Runs

end AioLM.Mcp
