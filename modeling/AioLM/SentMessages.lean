import AioLM.ConversationReplay
import AioLM.PartSpellings

/-!
The messages of a conversation as the engine gets them: what the adaptation of a request
leaves of its messages, and over whole runs of the Responses API what is sent for an answer
that continues another.
-/

set_option autoImplicit false

namespace AioLM.Protocol

open Fallible
open Json (lookup insertField lookup_insertField lookup_removeField Sorted Ordered)

def contentParts (m : Json) : Option (List Json) := (m.get "content").bind Json.asArray

section Messages

variable {ownedFileSize : Text → Option Nat} {numerals : Numerals} {info : EngineInfo}
  {provider : ProviderId} {modalities : Modalities} {endpoint : Text}
  {defaults : RequestDefaultsPolicy} {body sent m m' v w : Json} {parts ms : List Json}
  {fields fields' : List (Text × Json)} {key : String}

/-- A message and what is sent of it: its parts in the spelling of the engine, and all else
as it is. -/
structure SameMessage (ownedFileSize : Text → Option Nat) (info : EngineInfo) (m m' : Json) :
    Prop where
  whole : contentParts m = none → m' = m
  fields : ∀ key, key.toList ≠ "content".toList → m'.get key = m.get key
  parts : ∀ ps, contentParts m = some ps → ∃ qs, contentParts m' = some qs ∧
    List.Forall₂ (fun p q => normalizePart info.provider p = .ok q ∧
      Respelled ownedFileSize info.provider info.modalities p q) ps qs

/-- A field that is passed through a function: a list at the key becomes what the function
makes of it, and without one the value stays. -/
theorem modifyField_cases {f : List Json → Except AdaptError (List Json)}
    (h : modifyField key f v = .ok w) :
    ((v.get key).bind Json.asArray = none ∧ w = v) ∨
      ∃ fields items out, v = .object fields ∧ lookup key.toList fields = some (.array items) ∧
        f items = .ok out ∧ w = .object (insertField key (.array out) fields) := by
  cases v with
  | object fields =>
    cases hitems : (lookup key.toList fields).bind Json.asArray with
    | none =>
      simp only [modifyField, hitems, Except.ok.injEq] at h
      exact .inl ⟨hitems, h.symm⟩
    | some items =>
      simp only [modifyField, hitems, bind_eq_ok, Except.ok.injEq] at h
      obtain ⟨out, hout, rfl⟩ := h
      obtain ⟨value, hvalue, harray⟩ := Option.bind_eq_some_iff.mp hitems
      exact .inr ⟨fields, items, out, rfl, Json.asArray_eq_some harray ▸ hvalue, hout, rfl⟩
  | _ =>
    cases h
    exact .inl ⟨rfl, rfl⟩

theorem checkContentParts_parts {count bytes : Nat}
    (h : checkContentParts ownedFileSize provider modalities count bytes parts = .ok ()) :
    ∀ p ∈ parts, ∃ size, checkPart ownedFileSize provider modalities p = .ok size := by
  induction parts generalizing count bytes with
  | nil => exact fun p hp => nomatch hp
  | cons part parts ih =>
    rw [checkContentParts, bind_eq_ok] at h
    obtain ⟨size, hsize, h⟩ := h
    refine List.forall_mem_cons.mpr ⟨⟨size, hsize⟩, ?_⟩
    cases size with
    | none => exact ih h
    | some size =>
      obtain ⟨-, -, h⟩ := bind_eq_ok.mp h
      exact ih h

theorem normalizeMessage_same (hordered : Ordered m)
    (hchecked : ∀ ps, contentParts m = some ps → ∀ p ∈ ps, ∃ size,
      checkPart ownedFileSize info.provider info.modalities p = .ok size)
    (h : normalizeMessage info.provider m = .ok m') : SameMessage ownedFileSize info m m' := by
  rcases modifyField_cases h with ⟨hnone, rfl⟩ | ⟨fields, ps, qs, rfl, hps, hqs, rfl⟩
  · exact ⟨fun _ => rfl, fun _ _ => rfl, fun ps hps => absurd (hnone.symm.trans hps) nofun⟩
  · have hparts : contentParts (.object fields) = some ps := by
      rw [contentParts, Json.get, hps]
      rfl
    refine ⟨fun hnone => absurd (hnone.symm.trans hparts) nofun, fun key hkey => ?_, ?_⟩
    · rw [Json.get, lookup_insertField hordered.sorted, if_neg hkey]
      rfl
    · rintro ps' hps'
      obtain rfl : ps = ps' := Option.some.inj (hparts.symm.trans hps')
      refine ⟨qs, ?_, ?_⟩
      · rw [contentParts, Json.get, lookup_insertField hordered.sorted, if_pos rfl]
        rfl
      · have hitems : Ordered (.array ps) := hordered.lookup hps
        have hall : ∀ p ∈ ps, Ordered p ∧ ∃ size,
            checkPart ownedFileSize info.provider info.modalities p = .ok size :=
          fun p hp => ⟨hitems.item hp, hchecked ps hparts p hp⟩
        refine ((List.forall₂_and_left _ _).mpr ⟨hall, mapM_eq_ok.mp hqs⟩).imp ?_
        rintro p q ⟨⟨hp, size, hsize⟩, hq⟩
        exact ⟨hq, normalizePart_respelled hp hsize hq⟩

def Sent (ownedFileSize : Text → Option Nat) (info : EngineInfo) (ms : List Json) (sent : Json) :
    Prop :=
  ∃ ms', messagesOf sent = some ms' ∧ List.Forall₂ (fun m m' =>
    normalizeMessage info.provider m = .ok m' ∧ SameMessage ownedFileSize info m m') ms ms'

/-- The fields of a request whose messages are the value. -/
structure HasMessages (v : Json) (fields : List (Text × Json)) : Prop where
  sorted : Sorted fields
  messages : lookup "messages".toList fields = some v

theorem adaptMessages_sent (hhas : HasMessages (.array ms) fields) (hordered : ∀ m ∈ ms, Ordered m)
    (h : adaptMessages ownedFileSize info (.object fields) = .ok sent) :
    Sent ownedFileSize info ms sent := by
  have hmessages : messagesOf (.object fields) = some ms := by
    rw [messagesOf, Json.get, hhas.messages]
    rfl
  obtain ⟨⟨⟩, hcheck, h⟩ := bind_eq_ok.mp h
  rw [hmessages, Option.elim_some, checkParts, forM_eq_ok] at hcheck
  rcases modifyField_cases h with ⟨hnone, -⟩ | ⟨fields', items, out, hfields, hitems, hout, rfl⟩
  · cases hnone.symm.trans hmessages
  · cases hfields
    obtain rfl : ms = items := by
      rw [hhas.messages] at hitems
      cases hitems
      rfl
    refine ⟨out, ?_, ?_⟩
    · rw [messagesOf, Json.get, lookup_insertField hhas.sorted, if_pos rfl]
      rfl
    · have hall : ∀ m ∈ ms, Ordered m ∧ ∀ ps, contentParts m = some ps → ∀ p ∈ ps, ∃ size,
          checkPart ownedFileSize info.provider info.modalities p = .ok size := by
        refine fun m hm => ⟨hordered m hm, fun ps hps => ?_⟩
        have hone := hcheck m hm
        rw [contentParts] at hps
        simp only [hps] at hone
        exact checkContentParts_parts hone
      refine ((List.forall₂_and_left _ _).mpr ⟨hall, mapM_eq_ok.mp hout⟩).imp ?_
      rintro m m' ⟨⟨hm, hchecked⟩, hm'⟩
      exact ⟨hm', normalizeMessage_same hm hchecked hm'⟩

theorem HasMessages.insertField (h : HasMessages v fields) (value : Json)
    (hkey : "messages".toList ≠ key.toList) : HasMessages v (insertField key value fields) :=
  ⟨h.sorted.insertField, by rw [lookup_insertField h.sorted, if_neg hkey, h.messages]⟩

theorem HasMessages.removeField (h : HasMessages v fields)
    (hkey : "messages".toList ≠ key.toList) : HasMessages v (Json.removeField key fields) :=
  ⟨h.sorted.removeField, by rw [lookup_removeField, if_neg hkey, h.messages]⟩

theorem HasMessages.orInsert (h : HasMessages v fields) (field : Text × Json) :
    HasMessages v (orInsert fields field) := by
  unfold Protocol.orInsert
  split
  · exact h
  · rename_i hnone
    refine ⟨KeyMap.sorted_alterEntries h.sorted, ?_⟩
    rw [← Json.find_eq_lookup, KeyMap.find_alterEntries h.sorted, Json.find_eq_lookup, if_neg,
      h.messages]
    intro hkey
    rw [← hkey, h.messages] at hnone
    cases hnone

theorem forbiddenFields_ne : ∀ key ∈ forbiddenFields provider, "messages".toList ≠ key.toList := by
  unfold forbiddenFields
  split <;> decide

/-- The fields that are taken out, put in and defaulted leave the messages. -/
theorem completeFields_messages (h : HasMessages v fields)
    (hok : completeFields info endpoint defaults fields = .ok fields') :
    HasMessages v fields' := by
  simp only [completeFields, bind_eq_ok, Except.ok.injEq] at hok
  obtain ⟨-, -, model, -, -, -, rfl⟩ := hok
  have hremoved : HasMessages v ((forbiddenFields info.provider).foldl
      (fun fields key => Json.removeField key fields) fields) :=
    List.foldlRecOn _ _ h fun _ hfields key hkey =>
      hfields.removeField (forbiddenFields_ne key hkey)
  have hmodel := hremoved.insertField (.string model) (by decide : _ ≠ "model".toList)
  split
  · exact List.foldlRecOn _ _ hmodel fun _ hfields field _ => hfields.orInsert field
  · exact hmodel

theorem adaptRequest_sent (hhas : HasMessages (.array ms) fields) (hordered : ∀ m ∈ ms, Ordered m)
    (haudio : endpoint ≠ "audio/transcriptions".toList ∧ endpoint ≠ "audio/translations".toList)
    (hembeddings : endpoint ≠ embeddings)
    (h : adaptRequest ownedFileSize numerals info endpoint defaults (.object fields) = .ok sent) :
    Sent ownedFileSize info ms sent := by
  rw [adaptRequest, if_neg (not_or.mpr haudio)] at h
  obtain ⟨-, -, h⟩ := bind_eq_ok.mp h
  obtain ⟨-, -, h⟩ := bind_eq_ok.mp h
  dsimp only at h
  rw [if_neg hembeddings] at h
  split at h
  · obtain ⟨-, -, h⟩ := bind_eq_ok.mp h
    exact adaptMessages_sent hhas hordered h
  · obtain ⟨object, hobject, h⟩ := bind_eq_ok.mp h
    cases orError_eq_ok.mp hobject
    obtain ⟨fields', hfields', h⟩ := bind_eq_ok.mp h
    exact adaptMessages_sent (completeFields_messages hhas hfields') hordered h

/-- A text or an image under the name every engine reads it by. -/
def PlainPart (part : Json) : Prop :=
  partKind part = some .text ∨ partKind part = some .imageUrl

def PlainMessage (m : Json) : Prop := ∀ ps, contentParts m = some ps → ∀ p ∈ ps, PlainPart p

theorem normalizePart_plain {part : Json} (h : PlainPart part) :
    normalizePart provider part = .ok part := by
  rcases h with h | h
  · exact normalizePart_self h (by decide) fun _ => by decide
  · exact normalizePart_self h (by decide) fun _ => by decide

theorem normalizeMessage_plain (hordered : Ordered m) (hplain : PlainMessage m) :
    normalizeMessage provider m = .ok m := by
  cases m with
  | object fields =>
    cases hps : (lookup "content".toList fields).bind Json.asArray with
    | none => simp only [normalizeMessage, modifyField, hps]
    | some ps =>
      have hsame : ps.mapM (normalizePart provider) = .ok ps :=
        mapM_eq_ok.mpr (List.forall₂_same.mpr fun p hp => normalizePart_plain (hplain ps hps p hp))
      obtain ⟨value, hvalue, harray⟩ := Option.bind_eq_some_iff.mp hps
      have hkept : insertField "content" (.array ps) fields = fields :=
        hordered.sorted.alter_self (Json.asArray_eq_some harray ▸ hvalue)
      simp only [normalizeMessage, modifyField, hps, hsame, bind, Except.bind, hkept]
  | _ => rfl

theorem Sent.plain (h : Sent ownedFileSize info ms sent)
    (hplain : ∀ m ∈ ms, Ordered m ∧ PlainMessage m) : messagesOf sent = some ms := by
  obtain ⟨ms', hms', hall⟩ := h
  have hsame : List.Forall₂ Eq ms ms' := by
    refine ((List.forall₂_and_left _ _).mpr ⟨hplain, hall⟩).imp ?_
    rintro m m' ⟨⟨hm, hplain⟩, hm', -⟩
    exact Except.ok.inj ((normalizeMessage_plain hm hplain).symm.trans hm')
  rw [hms', List.forall₂_eq_eq_eq.le _ _ hsame]

end Messages

end AioLM.Protocol

namespace AioLM.Gateway

open Fallible Protocol Runs
open Json (Ordered)

/-- `Lease::adapt`. A lease has the engine its session runs, when that is known. -/
def adaptLease (ownedFileSize : Text → Option Nat) (numerals : Numerals) (endpoint : Text)
    (engine : Option EngineInfo) (body : Json) : Except ApiError Json :=
  match engine with
  | some info =>
    (adaptRequest ownedFileSize numerals info endpoint .apply body).mapError fun e =>
      .new 400 e.code e.message
  | none =>
    if "audio/".toList.isPrefixOf endpoint then
      .error (.new 400 "unsupported_task".toList
        "this session has no verified audio transcription capability".toList)
    else .ok body

def adaptChat (ownedFileSize : Text → Option Nat) (numerals : Numerals) :
    Option EngineInfo → Json → Except ApiError Json :=
  adaptLease ownedFileSize numerals "chat/completions".toList

def SentBy (ownedFileSize : Text → Option Nat) (engine : Option EngineInfo) (ms : List Json)
    (sent : Json) : Prop :=
  match engine with
  | some info => Sent ownedFileSize info ms sent
  | none => messagesOf sent = some ms

section Sending

variable {ownedFileSize : Text → Option Nat} {numerals : Numerals} {engine : Option EngineInfo}
  {body sent : Json} {ms : List Json}

theorem adaptChat_sent (hordered : ∀ m ∈ ms, Ordered m)
    (h : adaptChat ownedFileSize numerals engine (responsesToOpenai body ms) = .ok sent) :
    SentBy ownedFileSize engine ms sent := by
  obtain ⟨fields, hfields, hsorted⟩ : ∃ fields, responsesToOpenai body ms = .object fields ∧
      Json.Sorted fields := ⟨_, rfl, KeyMap.sorted _⟩
  have hmessages := get_messages body ms
  rw [hfields, Json.get] at hmessages
  rw [hfields] at h
  cases engine with
  | none =>
    cases h
    rw [SentBy, messagesOf, Json.get, hmessages]
    rfl
  | some info =>
    cases hadapt : adaptRequest ownedFileSize numerals info "chat/completions".toList .apply
        (.object fields) with
    | error e => simp only [adaptChat, adaptLease, hadapt, Except.mapError, reduceCtorEq] at h
    | ok adapted =>
      simp only [adaptChat, adaptLease, hadapt, Except.mapError, Except.ok.injEq] at h
      subst h
      exact adaptRequest_sent ⟨hsorted, hmessages⟩ hordered ⟨by decide, by decide⟩ (by decide) hadapt

end Sending

/-- A property of the messages of the finished turns and of the requests in flight. -/
structure Carried (P : Json → Prop) (s : Observed) : Prop where
  turns : ∀ turn ∈ s.turns, ∀ m ∈ turn.messages, P m
  flights : ∀ flight ∈ s.flights, ∀ m ∈ flight.turn, P m

/-- What a step brings in from outside has the property. -/
def Gives {Lease : Type} (P : Json → Prop) : Action Lease → Prop
  | .post _ body _ => ∀ ms, responsesInputToOpenai body = .ok ms → ∀ m ∈ ms, P m
  | .answer _ value _ _ => P (openaiAssistantMessage value)
  | _ => True

section Carry

variable {Lease : Type} {adapt : Lease → Json → Except ApiError Json}
  {decode : Text → Option Json} {P : Json → Prop} {s s' : Observed}

theorem Carried.land (h : Carried P s) (id : Text) : Carried P (s.land id) :=
  ⟨h.turns, fun flight hflight => h.flights flight (List.mem_of_mem_filter hflight)⟩

theorem Carried.remember (h : Carried P s) {flight : Flight} (hflight : flight ∈ s.flights)
    (order : IterationOrder) {result : StoredResponse × Json} (hassistant : P result.2) :
    Carried P (s.remember order flight result) := by
  refine ⟨List.forall_mem_cons.mpr ⟨fun m hm => ?_, h.turns⟩, (h.land flight.id).flights⟩
  rcases List.mem_append.mp hm with hm | hm
  · exact h.flights flight hflight m hm
  · exact List.mem_singleton.mp hm ▸ hassistant

theorem Carried.step
    (hstreamed : ∀ text reasoning : Text, P (.object
      [("content".toList, .string text), ("reasoning_content".toList, .string reasoning),
        ("role".toList, .text "assistant")]))
    (h : Carried P s) {a : Action Lease} (hgives : Gives P a)
    (hstep : step adapt decode s a = some s') : Carried P s' := by
  cases a with
  | post id body lease =>
    simp only [Gateway.step] at hstep
    split at hstep
    · cases hstep
      exact h
    · rename_i sent flight hpost
      cases hstep
      obtain ⟨parent, turn, l, -, hturn, -, rfl, -⟩ := postResponse_ok hpost
      exact ⟨h.turns, List.forall_mem_cons.mpr ⟨hgives turn hturn, h.flights⟩⟩
  | answer id value stamp order =>
    simp only [Gateway.step] at hstep
    split at hstep
    · cases hstep
    · rename_i flight hflight
      cases hstep
      exact h.remember (flight_mem hflight) order hgives
  | stream id chunks stamp order =>
    simp only [Gateway.step] at hstep
    split at hstep
    · cases hstep
    · rename_i flight hflight
      split at hstep
      · cases hstep
        exact h.land id
      · rename_i result hresult
        cases hstep
        refine h.remember (flight_mem hflight) order ?_
        simp only [streamedResponse] at hresult
        split at hresult
        · cases hresult
        · cases hresult
          exact hstreamed _ _
  | fail id =>
    cases hstep
    exact h.land id
  | delete id =>
    cases hstep
    exact ⟨h.turns, h.flights⟩
  | cancel id =>
    cases hstep
    exact ⟨h.turns, h.flights⟩

theorem mem_of_mem_chain {turns : List Turn} {id : Text} {turn : Turn}
    (h : turn ∈ chain turns id) : turn ∈ turns := by
  induction turns generalizing id with
  | nil => cases h
  | cons first earlier ih =>
    rw [chain] at h
    split at h
    · rcases List.mem_append.mp h with h | h
      · cases hprevious : first.previous with
        | none =>
          rw [hprevious] at h
          cases h
        | some parent =>
          rw [hprevious] at h
          exact List.mem_cons_of_mem _ (ih h)
      · exact List.mem_singleton.mp h ▸ List.mem_cons_self
    · exact List.mem_cons_of_mem _ (ih h)

theorem Carried.conversation (h : Carried P s) (body : Json) :
    ∀ m ∈ ((previousId body).map (Gateway.conversation s.turns)).getD [], P m := by
  cases previousId body with
  | none => exact fun m hm => nomatch hm
  | some id =>
    intro m hm
    obtain ⟨turn, hturn, hm⟩ := List.mem_flatMap.mp hm
    exact h.turns turn (mem_of_mem_chain hturn) m hm

end Carry

/-- In a run whose messages all have a property, what is sent for a request is made of the
messages of the conversation and its own, and they have it too. -/
theorem messages_sent {ownedFileSize : Text → Option Nat} {numerals : Numerals}
    {decode : Text → Option Json} {P : Json → Prop}
    (hordered : ∀ m, P m → Ordered m)
    (hstreamed : ∀ text reasoning : Text, P (.object
      [("content".toList, .string text), ("reasoning_content".toList, .string reasoning),
        ("role".toList, .text "assistant")])) {s : Observed}
    (hreach : Reaches (step (adaptChat ownedFileSize numerals) decode)
      (fun s a => Fresh s a ∧ Gives P a) Observed.initial s)
    {id : Text} {body sent : Json} {lease : Except ApiError (Option EngineInfo)} {flight : Flight}
    (hbody : ∀ ms, responsesInputToOpenai body = .ok ms → ∀ m ∈ ms, P m)
    (hpost : postResponse (adaptChat ownedFileSize numerals) s.responses id body lease =
      .ok (sent, flight)) :
    ∃ ms engine, responsesInputToOpenai body = .ok ms ∧ lease = .ok engine ∧
      (∀ m ∈ ((previousId body).map (conversation s.turns)).getD [] ++ ms, P m) ∧
      SentBy ownedFileSize engine (((previousId body).map (conversation s.turns)).getD [] ++ ms)
        sent := by
  have hinv := reachable_inv (hreach.mono fun _ _ h => h.1)
  have hcarried : Carried P s :=
    hreach.invariant ⟨fun _ h => (nomatch h), fun _ h => (nomatch h)⟩
      fun _ _ _ h hok hstep => h.step hstreamed hok.2 hstep
  obtain ⟨ms, engine, hms, hlease, hsent, -⟩ := postResponse_continues hinv hpost
  have hall : ∀ m ∈ ((previousId body).map (conversation s.turns)).getD [] ++ ms, P m :=
    List.forall_mem_append.mpr ⟨hcarried.conversation body, hbody ms hms⟩
  exact ⟨ms, engine, hms, hlease, hall, adaptChat_sent (fun m hm => hordered m (hall m hm)) hsent⟩

/-- The contents a request gives its messages. -/
inductive ContentOf (body : Json) : Json → Prop
  | text (t : Text) : ContentOf body (.string t)
  | instructions {value : Json} : body.get "instructions" = some value → ContentOf body value
  | item {items : List Json} {item value : Json} {field : String} :
      body.get "input" = some (.array items) → item ∈ items → field ∈ ["content", "output"] →
      item.get field = some value → ContentOf body value

def TextContent (value : Json) : Prop :=
  ∀ blocks, value.asArray = some blocks → ∀ block ∈ blocks, ∀ field ∈ ["text", "output"],
    (block.get field).bind Json.asArray = none

section Input

variable {body block part value content m : Json} {ms : List Json}

theorem mem_input (h : responsesInputToOpenai body = .ok ms) (hm : m ∈ ms) :
    ∃ role value content, ContentOf body value ∧ responseContentToOpenai value = .ok content ∧
      m = roleMessage role content := by
  obtain ⟨instructions, hinstructions, h⟩ := bind_eq_ok.mp h
  have hfirst : ∀ m ∈ instructions, ∃ role value content, ContentOf body value ∧
      responseContentToOpenai value = .ok content ∧ m = roleMessage role content := by
    intro m hm
    unfold instructionMessages at hinstructions
    split at hinstructions
    · cases hinstructions
      cases hm
    · cases hinstructions
      cases hm
    · rename_i value _ hvalue
      obtain ⟨content, hcontent, heq⟩ := bind_eq_ok.mp hinstructions
      cases heq
      exact ⟨_, value, content, .instructions hvalue, hcontent, List.mem_singleton.mp hm⟩
  split at h
  · cases h
  · cases h
    rcases List.mem_append.mp hm with hm | hm
    · exact hfirst m hm
    · exact ⟨_, _, _, .text _, rfl, List.mem_singleton.mp hm⟩
  · rename_i items hitems
    obtain ⟨turned, hturned, heq⟩ := bind_eq_ok.mp h
    cases heq
    rcases List.mem_append.mp hm with hm | hm
    · exact hfirst m hm
    · obtain ⟨item, hitem, hone⟩ := mem_of_mapM hturned hm
      unfold responseItemToOpenai at hone
      split at hone
      · cases hone
        exact ⟨_, _, _, .text _, rfl, rfl⟩
      · obtain ⟨content, hcontent, heq⟩ := bind_eq_ok.mp hone
        cases heq
        refine ⟨_, _, content, ?_, hcontent, rfl⟩
        cases hgiven : item.get "content" with
        | some value => exact .item hitems hitem (by decide) hgiven
        | none =>
          cases houtput : item.get "output" with
          | some value => exact .item hitems hitem (by decide) houtput
          | none => exact .text []
  · cases h

theorem ordered_get {key : String} (h : Ordered m) (hv : m.get key = some value) :
    Ordered value := by
  cases m with
  | object fields => exact h.lookup hv
  | _ => cases hv

theorem ContentOf.ordered (h : ContentOf body value) (hbody : Ordered body) : Ordered value := by
  cases h with
  | text t => trivial
  | instructions hvalue => exact ordered_get hbody hvalue
  | item hitems hitem _ hvalue => exact ordered_get ((ordered_get hbody hitems).item hitem) hvalue

theorem sorted_pair {a b : String} (v w : Json) (h : a.toList < b.toList) :
    Json.Sorted [(a.toList, v), (b.toList, w)] :=
  List.pairwise_pair.mpr h

theorem ordered_roleMessage (role : Text) (h : Ordered content) :
    Ordered (roleMessage role content) :=
  ⟨sorted_pair content _ (by decide), h, trivial, trivial⟩

theorem responseBlock_cases (h : responseBlockToOpenai block = .ok part) :
    (∃ field ∈ ["text", "output"], part = textPart ((block.get field).getD (.text ""))) ∨
      ∃ url, part = imagePart url := by
  unfold responseBlockToOpenai at h
  dsimp only at h
  split_ifs at h
  · cases h
    exact .inl ⟨"text", by decide, rfl⟩
  · obtain ⟨url, -, heq⟩ := bind_eq_ok.mp h
    cases heq
    exact .inr ⟨url, rfl⟩
  · cases h
    exact .inl ⟨"output", by decide, rfl⟩

theorem unwrapText_cases (parts : List Json) : unwrapText parts = .array parts ∨
    ∃ part ∈ parts, (part.get "type").bind Json.asStr = some "text".toList ∧
      unwrapText parts = (part.get "text").getD (.text "") := by
  unfold unwrapText
  split
  · rename_i part
    split_ifs with htext
    · exact .inr ⟨part, List.mem_singleton_self part, htext, rfl⟩
    · exact .inl rfl
  · exact .inl rfl

theorem ordered_block (h : responseBlockToOpenai block = .ok part) (hordered : Ordered block) :
    Ordered part := by
  rcases responseBlock_cases h with ⟨field, -, rfl⟩ | ⟨url, rfl⟩
  · have htext : Ordered ((block.get field).getD (.text "")) := by
      cases hfield : block.get field with
      | none => trivial
      | some text => exact ordered_get hordered hfield
    exact ⟨sorted_pair _ _ (by decide), htext, trivial, trivial⟩
  · exact ⟨sorted_pair _ _ (by decide), ⟨List.pairwise_singleton .., trivial, trivial⟩,
      trivial, trivial⟩

theorem ordered_content (h : responseContentToOpenai value = .ok content)
    (hordered : Ordered value) : Ordered content := by
  unfold responseContentToOpenai at h
  split at h
  · rename_i blocks
    obtain ⟨parts, hparts, heq⟩ := bind_eq_ok.mp h
    cases heq
    have hall : ∀ part ∈ parts, Ordered part := by
      intro part hpart
      obtain ⟨block, hblock, hone⟩ := mem_of_mapM hparts hpart
      exact ordered_block hone (hordered.item hblock)
    rcases unwrapText_cases parts with heq | ⟨part, hpart, -, heq⟩
    · rw [heq]
      exact Json.OrderedItems.of_forall hall
    · rw [heq]
      cases htext : part.get "text" with
      | none => trivial
      | some text => exact ordered_get (hall part hpart) htext
  · cases h
    exact hordered

theorem plain_content (h : responseContentToOpenai value = .ok content)
    (htexts : TextContent value) :
    ∀ parts, content.asArray = some parts → ∀ part ∈ parts, PlainPart part := by
  unfold responseContentToOpenai at h
  split at h
  · rename_i blocks
    obtain ⟨parts, hparts, heq⟩ := bind_eq_ok.mp h
    cases heq
    rcases unwrapText_cases parts with heq | ⟨part, hpart, htext, heq⟩
    · rw [heq]
      rintro _ ⟨⟩ part hpart
      obtain ⟨block, -, hone⟩ := mem_of_mapM hparts hpart
      rcases responseBlock_cases hone with ⟨field, -, rfl⟩ | ⟨url, rfl⟩
      · exact .inl rfl
      · exact .inr rfl
    · obtain ⟨block, hblock, hone⟩ := mem_of_mapM hparts hpart
      rcases responseBlock_cases hone with ⟨field, hfield, rfl⟩ | ⟨url, rfl⟩
      · have hnone := htexts blocks rfl block hblock field hfield
        have hcontent : unwrapText parts = (block.get field).getD (.text "") := heq
        intro list hlist
        rw [hcontent] at hlist
        cases hgiven : block.get field with
        | none =>
          rw [hgiven] at hlist
          cases hlist
        | some text =>
          rw [hgiven] at hlist hnone
          exact absurd (hnone.symm.trans hlist) nofun
      · have himage : "image_url".toList = "text".toList := Option.some.inj htext
        exact absurd himage (by decide)
  · rename_i hother
    cases h
    intro parts hparts
    exact absurd (Json.asArray_eq_some hparts) (hother parts)

end Input

def PlainOrdered (m : Json) : Prop := Ordered m ∧ PlainMessage m

theorem plain_input {body : Json} {ms : List Json} (hbody : Ordered body)
    (htexts : ∀ value, ContentOf body value → TextContent value)
    (h : responsesInputToOpenai body = .ok ms) : ∀ m ∈ ms, PlainOrdered m := by
  intro m hm
  obtain ⟨role, value, content, hvalue, hcontent, rfl⟩ := mem_input h hm
  exact ⟨ordered_roleMessage role (ordered_content hcontent (hvalue.ordered hbody)),
    plain_content hcontent (htexts value hvalue)⟩

def Texts {Lease : Type} : Action Lease → Prop
  | .post _ body _ => Ordered body ∧ ∀ value, ContentOf body value → TextContent value
  | .answer _ value _ _ => PlainOrdered (openaiAssistantMessage value)
  | _ => True

theorem Texts.gives {Lease : Type} {a : Action Lease} (h : Texts a) : Gives PlainOrdered a := by
  cases a with
  | post id body lease => exact fun ms hms => plain_input h.1 h.2 hms
  | answer id value stamp order => exact h
  | _ => trivial

/-- Whatever the engine, what it gets for a request is the conversation the request continues,
from its first turn on, and the messages of the request. -/
theorem conversation_sent {ownedFileSize : Text → Option Nat} {numerals : Numerals}
    {decode : Text → Option Json} {s : Observed}
    (hreach : Reaches (step (adaptChat ownedFileSize numerals) decode)
      (fun s a => Fresh s a ∧ Texts a) Observed.initial s)
    {id : Text} {body sent : Json} {lease : Except ApiError (Option EngineInfo)} {flight : Flight}
    (hbody : Ordered body) (htexts : ∀ value, ContentOf body value → TextContent value)
    (hpost : postResponse (adaptChat ownedFileSize numerals) s.responses id body lease =
      .ok (sent, flight)) :
    ∃ ms, responsesInputToOpenai body = .ok ms ∧
      messagesOf sent = some (((previousId body).map (conversation s.turns)).getD [] ++ ms) := by
  have hstreamed : ∀ text reasoning : Text, PlainOrdered (.object
      [("content".toList, .string text), ("reasoning_content".toList, .string reasoning),
        ("role".toList, .text "assistant")]) := by
    refine fun text reasoning => ⟨⟨?_, trivial, trivial, trivial, trivial⟩, nofun⟩
    refine List.pairwise_cons.mpr ⟨fun e he => ?_, sorted_pair _ _ (by decide)⟩
    rcases List.mem_cons.mp he with rfl | he
    · exact (by decide : "content".toList < "reasoning_content".toList)
    · cases List.mem_singleton.mp he
      exact (by decide : "content".toList < "role".toList)
  obtain ⟨ms, engine, hms, -, hall, hsent⟩ := messages_sent (fun _ h => h.1) hstreamed
    (hreach.mono fun _ _ h => ⟨h.1, h.2.gives⟩) (fun _ => plain_input hbody htexts) hpost
  refine ⟨ms, hms, ?_⟩
  cases engine with
  | none => exact hsent
  | some info => exact hsent.plain hall

end AioLM.Gateway
