import AioLM.ResponsesApi
import AioLM.Runs

/-!
Replay over whole runs. Beside the store runs the list of finished turns, which
nothing deletes; what goes upstream for a request is read off that list.
-/

set_option autoImplicit false

namespace AioLM.Gateway

open Runs

structure Turn where
  id : Text
  previous : Option Text
  input : List Json
  assistant : Json

def Turn.messages (turn : Turn) : List Json := turn.input ++ [turn.assistant]

/-- The turns from the root of an answer's chain to the answer. The list has the
newest turn first. -/
def chain : List Turn → Text → List Turn
  | [], _ => []
  | turn :: earlier, id =>
    if turn.id = id then ((turn.previous.map (chain earlier)).getD []) ++ [turn]
    else chain earlier id

def conversation (turns : List Turn) (id : Text) : List Json :=
  (chain turns id).flatMap Turn.messages

def Recorded (turns : List Turn) (id : Text) : Prop := ∃ turn ∈ turns, turn.id = id

theorem chain_cons_of_ne {turn : Turn} {turns : List Turn} {id : Text} (h : turn.id ≠ id) :
    chain (turn :: turns) id = chain turns id := by
  rw [chain, if_neg h]

theorem conversation_cons_of_ne {turn : Turn} {turns : List Turn} {id : Text} (h : turn.id ≠ id) :
    conversation (turn :: turns) id = conversation turns id := by
  rw [conversation, chain_cons_of_ne h]
  rfl

theorem conversation_cons (turn : Turn) (turns : List Turn) :
    conversation (turn :: turns) turn.id =
      (turn.previous.map (conversation turns)).getD [] ++ turn.messages := by
  rw [conversation, chain, if_pos rfl, List.flatMap_append, List.flatMap_singleton]
  cases turn.previous <;> rfl

/-- What happens to the store, one step at a time. The iteration order of the
map and the time and ids of an answer are whatever they are at that step. -/
inductive Action (Lease : Type) where
  | post (id : Text) (body : Json) (lease : Except ApiError Lease)
  | answer (id : Text) (value : Json) (stamp : Stamp) (order : IterationOrder)
  | stream (id : Text) (chunks : List Bytes) (stamp : Stamp) (order : IterationOrder)
  | fail (id : Text)
  | delete (id : Text)
  | cancel (id : Text)

structure Observed where
  responses : Responses
  flights : List Flight
  turns : List Turn

def Observed.initial : Observed := ⟨.empty, [], []⟩

def Observed.flight (s : Observed) (id : Text) : Option Flight := s.flights.find? (·.id = id)

def Observed.land (s : Observed) (id : Text) : Observed :=
  { s with flights := s.flights.filter (·.id ≠ id) }

def Flight.finish (flight : Flight) (assistant : Json) : Turn :=
  ⟨flight.id, previousId flight.body, flight.turn, assistant⟩

def Observed.remember (s : Observed) (order : IterationOrder) (flight : Flight)
    (result : StoredResponse × Json) : Observed :=
  { s.land flight.id with
    responses := rememberResponse order s.responses flight.id result.1
    turns := flight.finish result.2 :: s.turns }

section

variable {Lease : Type} (adapt : Lease → Json → Except ApiError Json)
  (decode : Text → Option Json)

def step (s : Observed) : Action Lease → Option Observed
  | .post id body lease =>
    match postResponse adapt s.responses id body lease with
    | .error _ => some s
    | .ok (_, flight) => some { s with flights := flight :: s.flights }
  | .answer id value stamp order =>
    match (s.flight id).filter fun flight => !flight.streamed with
    | none => none
    | some flight => some (s.remember order flight (answerResponse stamp flight value))
  | .stream id chunks stamp order =>
    match (s.flight id).filter Flight.streamed with
    | none => none
    | some flight =>
      match streamedResponse decode stamp flight chunks with
      | none => some (s.land id)
      | some result => some (s.remember order flight result)
  | .fail id => some (s.land id)
  | .delete id | .cancel id => some { s with responses := s.responses.erase id }

/-- Ids of answers are generated and never given out twice. -/
def Fresh (s : Observed) : Action Lease → Prop
  | .post id _ _ => ¬ Recorded s.turns id ∧ ∀ flight ∈ s.flights, flight.id ≠ id
  | _ => True

end

def Agrees (turns : List Turn) (id : Text) (history : HistoryNode) : Prop :=
  Recorded turns id ∧ history.flatten = conversation turns id

theorem Agrees.cons {turns : List Turn} {id : Text} {history : HistoryNode} {turn : Turn}
    (h : Agrees turns id history) (hne : turn.id ≠ id) : Agrees (turn :: turns) id history := by
  obtain ⟨⟨found, hmem, hid⟩, hflatten⟩ := h
  exact ⟨⟨found, List.mem_cons_of_mem _ hmem, hid⟩, by rw [conversation_cons_of_ne hne, hflatten]⟩

def Flight.Continues (turns : List Turn) (flight : Flight) : Prop :=
  match previousId flight.body with
  | none => flight.parent = none
  | some id => ∃ history, flight.parent = some history ∧ Agrees turns id history

theorem Flight.Continues.flatten {turns : List Turn} {flight : Flight}
    (h : flight.Continues turns) : (flight.parent.map HistoryNode.flatten).getD [] =
      ((previousId flight.body).map (conversation turns)).getD [] := by
  unfold Continues at h
  split at h
  · rename_i hprevious
    rw [h, hprevious]
    rfl
  · rename_i id hprevious
    obtain ⟨history, hparent, -, hflatten⟩ := h
    rw [hparent, hprevious]
    exact hflatten

theorem Flight.Continues.cons {turns : List Turn} {flight : Flight} {turn : Turn}
    (h : flight.Continues turns) (hnew : ¬ Recorded turns turn.id) :
    flight.Continues (turn :: turns) := by
  unfold Continues at h ⊢
  split at h
  · exact h
  · obtain ⟨history, hparent, hagrees⟩ := h
    refine ⟨history, hparent, hagrees.cons ?_⟩
    intro hid
    exact hnew (hid ▸ hagrees.1)

structure Observed.Inv (s : Observed) : Prop where
  stored : ∀ id stored, s.responses.get id = some stored → Agrees s.turns id stored.history
  flying : ∀ flight ∈ s.flights, flight.Continues s.turns ∧ ¬ Recorded s.turns flight.id
  distinct : s.flights.Pairwise fun a b => a.id ≠ b.id

namespace Observed

variable {s : Observed}

theorem Inv.land (h : s.Inv) (id : Text) : (s.land id).Inv where
  stored := h.stored
  flying flight hflight := h.flying flight (List.mem_of_mem_filter hflight)
  distinct := h.distinct.filter _

theorem Inv.erase (h : s.Inv) (id : Text) :
    Inv { s with responses := s.responses.erase id } where
  stored other stored hget := by
    simp only [KeyMap.get_erase] at hget
    split at hget
    · cases hget
    · exact h.stored other stored hget
  flying := h.flying
  distinct := h.distinct

/-- Storing the answer of a flight with its history keeps the invariant. -/
theorem Inv.remember (h : s.Inv) {flight : Flight} (hflight : flight ∈ s.flights)
    (order : IterationOrder) (response assistant : Json) :
    (s.remember order flight
      (⟨response, .append flight.parent flight.turn assistant⟩, assistant)).Inv := by
  obtain ⟨hcontinues, hnew⟩ := h.flying flight hflight
  have hagrees : Agrees (flight.finish assistant :: s.turns) flight.id
      (.append flight.parent flight.turn assistant) := by
    refine ⟨⟨_, List.mem_cons_self, rfl⟩, ?_⟩
    have hconversation := conversation_cons (flight.finish assistant) s.turns
    rw [HistoryNode.flatten_append, hcontinues.flatten, List.append_assoc]
    exact hconversation.symm
  refine ⟨?_, ?_, h.distinct.filter _⟩
  · intro id stored hget
    have hinserted := (evict_spec order _).2 id stored hget
    rw [KeyMap.get_insert] at hinserted
    split at hinserted
    · rename_i hid
      cases hinserted
      rw [hid]
      exact hagrees
    · rename_i hid
      exact (h.stored id stored hinserted).cons (Ne.symm hid)
  · intro other hother
    obtain ⟨hmem, hne⟩ := List.mem_filter.mp hother
    obtain ⟨hcontinues', hnew'⟩ := h.flying other hmem
    refine ⟨hcontinues'.cons hnew, ?_⟩
    intro hrecorded
    obtain ⟨turn, hturn, hid⟩ := hrecorded
    obtain rfl | hturn := List.mem_cons.mp hturn
    · exact absurd hid.symm (of_decide_eq_true hne)
    · exact hnew' ⟨turn, hturn, hid⟩

end Observed

theorem parentHistory_continues {responses : Responses} {turns : List Turn} {id : Text}
    {body : Json} {parent : Option HistoryNode} {turn : List Json}
    (hstored : ∀ id stored, responses.get id = some stored → Agrees turns id stored.history)
    (h : parentHistory responses body = .ok parent) :
    Flight.Continues turns ⟨id, body, parent, turn⟩ := by
  unfold parentHistory at h
  unfold Flight.Continues
  cases hprevious : previousId body with
  | none =>
    simp only [hprevious, Except.ok.injEq] at h ⊢
    exact h.symm
  | some p =>
    simp only [hprevious] at h ⊢
    cases hget : responses.get p with
    | none =>
      rw [hget] at h
      cases h
    | some stored =>
      simp only [hget, Except.ok.injEq] at h
      exact ⟨stored.history, h.symm, hstored p stored hget⟩

section

variable {Lease : Type} {adapt : Lease → Json → Except ApiError Json}
  {decode : Text → Option Json} {s s' : Observed}

theorem postResponse_ok {responses : Responses} {id : Text} {body sent : Json}
    {lease : Except ApiError Lease} {flight : Flight}
    (h : postResponse adapt responses id body lease = .ok (sent, flight)) :
    ∃ parent turn l, parentHistory responses body = .ok parent ∧
      responsesInputToOpenai body = .ok turn ∧ lease = .ok l ∧ flight = ⟨id, body, parent, turn⟩ ∧
      adapt l (responsesToOpenai body ((parent.map HistoryNode.flatten).getD [] ++ turn)) =
        .ok sent := by
  simp only [postResponse, Fallible.bind_eq_ok, pure, Except.pure, Except.ok.injEq,
    Prod.mk.injEq] at h
  obtain ⟨parent, hparent, turn, hturn, l, hl, sent', hsent, rfl, rfl⟩ := h
  refine ⟨parent, turn, l, hparent, ?_, hl, rfl, hsent⟩
  cases hinput : responsesInputToOpenai body with
  | error message =>
    rw [hinput] at hturn
    cases hturn
  | ok input =>
    rw [hinput] at hturn
    cases hturn
    rfl

theorem flight_mem {id : Text} {p : Flight → Bool} {flight : Flight}
    (h : (s.flight id).filter p = some flight) : flight ∈ s.flights :=
  List.mem_of_find?_eq_some (Option.filter_eq_some_iff.mp h).1

theorem step_inv (h : s.Inv) {action : Action Lease} (hfresh : Fresh s action)
    (hstep : step adapt decode s action = some s') : s'.Inv := by
  cases action with
  | post id body lease =>
    simp only [step] at hstep
    split at hstep
    · cases hstep
      exact h
    · rename_i sent flight hpost
      cases hstep
      obtain ⟨parent, turn, l, hparent, -, -, rfl, -⟩ := postResponse_ok hpost
      refine ⟨h.stored, List.forall_mem_cons.mpr ⟨⟨?_, hfresh.1⟩, h.flying⟩, ?_⟩
      · exact parentHistory_continues h.stored hparent
      · exact List.pairwise_cons.mpr ⟨fun other hother => (hfresh.2 other hother).symm, h.distinct⟩
  | answer id value stamp order =>
    simp only [step] at hstep
    split at hstep
    · cases hstep
    · rename_i flight hflight
      cases hstep
      exact h.remember (flight_mem hflight) order _ _
  | stream id chunks stamp order =>
    simp only [step] at hstep
    split at hstep
    · cases hstep
    · rename_i flight hflight
      split at hstep
      · cases hstep
        exact h.land id
      · rename_i result hresult
        cases hstep
        unfold streamedResponse at hresult
        simp only at hresult
        split at hresult
        · cases hresult
        · cases hresult
          exact h.remember (flight_mem hflight) order _ _
  | fail id =>
    cases hstep
    exact h.land id
  | delete id =>
    cases hstep
    exact h.erase id
  | cancel id =>
    cases hstep
    exact h.erase id

theorem initial_inv : Observed.initial.Inv where
  stored _ _ hget := nomatch hget
  flying _ hflight := nomatch hflight
  distinct := .nil

theorem reachable_inv (h : Reaches (step adapt decode) Fresh Observed.initial s) : s.Inv :=
  h.invariant initial_inv fun _ _ _ hinv hok hstep => step_inv hinv hok hstep

end

theorem get_messages (request : Json) (messages : List Json) :
    (responsesToOpenai request messages).get "messages" = some (.array messages) := by
  have hpassed : ∀ field ∈ passedFields, field.2.toList ≠ "messages".toList := by decide
  simp only [responsesToOpenai, Json.get, lookup_entries]
  change KeyMap.get _ _ = _
  have hplain (body : KeyMap Text Json) (value stream : Json) :
      (((body.insert "model".toList value).insert "messages".toList (.array messages)).insert
        "stream".toList stream).get "messages".toList = some (.array messages) := by
    rw [KeyMap.get_insert, if_neg (by decide), KeyMap.get_insert, if_pos rfl]
  split
  · rw [KeyMap.get_insert, if_neg (by decide), get_passFields hpassed,
      get_streamOptions (by decide), hplain]
  · rw [get_passFields hpassed, get_streamOptions (by decide), hplain]

theorem postResponse_continues {Lease : Type} {adapt : Lease → Json → Except ApiError Json}
    {s : Observed} (hinv : s.Inv) {id : Text} {body sent : Json} {lease : Except ApiError Lease}
    {flight : Flight} (hpost : postResponse adapt s.responses id body lease = .ok (sent, flight)) :
    ∃ input l, responsesInputToOpenai body = .ok input ∧ lease = .ok l ∧
      adapt l (responsesToOpenai body
        (((previousId body).map (conversation s.turns)).getD [] ++ input)) = .ok sent ∧
      ∀ p, previousId body = some p → Recorded s.turns p := by
  obtain ⟨parent, turn, l, hparent, hturn, hlease, -, hsent⟩ := postResponse_ok hpost
  have hcontinues : Flight.Continues s.turns ⟨id, body, parent, turn⟩ :=
    parentHistory_continues hinv.stored hparent
  have hflatten := hcontinues.flatten
  simp only at hflatten
  rw [hflatten] at hsent
  refine ⟨turn, l, hturn, hlease, hsent, fun p hprevious => ?_⟩
  unfold Flight.Continues at hcontinues
  simp only [hprevious] at hcontinues
  obtain ⟨history, -, hrecorded, -⟩ := hcontinues
  exact hrecorded

/-- In every state a run reaches, a request that is sent carries exactly the
messages of the answer it continues, from the root of its chain on, and then its
own, whatever was deleted, cancelled or evicted before. -/
theorem conversation_replay {Lease : Type} {adapt : Lease → Json → Except ApiError Json}
    {decode : Text → Option Json} {s : Observed}
    (hreach : Reaches (step adapt decode) Fresh Observed.initial s) {id : Text} {body sent : Json}
    {lease : Except ApiError Lease} {flight : Flight}
    (hpost : postResponse adapt s.responses id body lease = .ok (sent, flight)) :
    ∃ input l request, responsesInputToOpenai body = .ok input ∧ lease = .ok l ∧
      adapt l request = .ok sent ∧
      request = responsesToOpenai body
        (((previousId body).map (conversation s.turns)).getD [] ++ input) ∧
      request.get "messages" = some (.array
        (((previousId body).map (conversation s.turns)).getD [] ++ input)) ∧
      ∀ p, previousId body = some p → Recorded s.turns p := by
  obtain ⟨input, l, hinput, hlease, hsent, hrecorded⟩ :=
    postResponse_continues (reachable_inv hreach) hpost
  exact ⟨input, l, _, hinput, hlease, hsent, rfl, get_messages _ _, hrecorded⟩

def helloBody : Json := .object [("input".toList, .text "hello")]

def moreBody : Json :=
  .object [("input".toList, .text "more"), ("previous_response_id".toList, .text "resp_a")]

def asIs (_ : Unit) (body : Json) : Except ApiError Json := .ok body

def helloFlight : Flight :=
  ⟨"resp_a".toList, helloBody, none, [roleMessage "user".toList (.text "hello")]⟩

def answered : Observed :=
  Observed.remember ⟨.empty, [helloFlight], []⟩ (yieldsFirst "resp_a".toList) helloFlight
    (answerResponse ⟨[], [], 0⟩ helloFlight .null)

theorem answered_reached :
    Reaches (step asIs fun _ => none) Fresh Observed.initial answered := by
  have hposted : Reaches (step asIs fun _ => none) Fresh Observed.initial
      ⟨.empty, [helloFlight], []⟩ :=
    .next .start (a := .post "resp_a".toList helloBody (.ok ()))
      ⟨fun ⟨_, hmem, _⟩ => (nomatch hmem), fun _ hmem => (nomatch hmem)⟩ rfl
  exact .next hposted
    (a := .answer "resp_a".toList .null ⟨[], [], 0⟩ (yieldsFirst "resp_a".toList)) trivial rfl

theorem conversation_replay_answered : ∃ sent flight,
    postResponse asIs answered.responses "resp_b".toList moreBody (.ok ()) = .ok (sent, flight) ∧
      sent.get "messages" = some (.array [roleMessage "user".toList (.text "hello"),
        roleMessage "assistant".toList (.text ""), roleMessage "user".toList (.text "more")]) := by
  have hok : (postResponse asIs answered.responses "resp_b".toList moreBody (.ok ())).isOk := by
    decide +kernel
  cases hpost : postResponse asIs answered.responses "resp_b".toList moreBody (.ok ()) with
  | error error =>
    rw [hpost] at hok
    cases hok
  | ok result =>
    obtain ⟨input, l, request, hinput, -, hsent, -, hmessages, -⟩ :=
      conversation_replay answered_reached hpost
    cases hsent
    cases hinput
    exact ⟨result.1, result.2, rfl, hmessages⟩

end AioLM.Gateway
