import AioLM.Http
import AioLM.ResponseStore
import AioLM.SseRelay

/-!
The Responses API: a request names the answer it continues, its messages go
upstream behind the history of that answer, and the finished turn is stored.
-/

set_option autoImplicit false

namespace AioLM.Gateway

open Fallible

def textPart (text : Json) : Json :=
  .object [("text".toList, text), ("type".toList, .text "text")]

def imagePart (url : Text) : Json :=
  .object [("image_url".toList, .object [("url".toList, .string url)]),
    ("type".toList, .text "image_url")]

def blockKind (block : Json) (default : String) : Text :=
  ((block.get "type").bind Json.asStr).getD default.toList

def responseImageUrl (block : Json) : Option Text :=
  let image := ((block.get "image_url").or (block.get "url")).getD .null
  image.asStr.or (((block.get "image_url").bind (Json.get "url")).bind Json.asStr)

def responseBlockToOpenai (block : Json) : Except Text Json :=
  let kind := blockKind block "input_text"
  let empty := Json.text ""
  if kind ∈ ["input_text", "output_text", "text"].map String.toList then
    .ok (textPart ((block.get "text").getD empty))
  else if kind ∈ ["input_image", "image"].map String.toList then do
    let url ← orError (responseImageUrl block)
      "Responses image input requires an image URL or data URI".toList
    return imagePart url
  else if kind = "function_call_output".toList then
    .ok (textPart ((block.get "output").getD empty))
  else
    .error ("Responses input type ".toList ++ kind ++
      (" cannot be represented by this adapter; use /v1/chat/completions for supported audio and " ++
        "video input").toList)

def unwrapText (output : List Json) : Json :=
  match output with
  | [part] =>
    if (part.get "type").bind Json.asStr = some "text".toList then
      (part.get "text").getD (.text "")
    else .array output
  | _ => .array output

def responseContentToOpenai (value : Json) : Except Text Json :=
  match value with
  | .array blocks => do return unwrapText (← blocks.mapM responseBlockToOpenai)
  | value => .ok value

def roleMessage (role : Text) (content : Json) : Json :=
  .object [("content".toList, content), ("role".toList, .string role)]

def responseItemToOpenai (item : Json) : Except Text Json :=
  match item with
  | .string text => .ok (roleMessage "user".toList (.string text))
  | item => do
    let role := ((item.get "role").bind Json.asStr).getD "user".toList
    let content := ((item.get "content").or (item.get "output")).getD (.text "")
    return roleMessage role (← responseContentToOpenai content)

def instructionMessages (request : Json) : Except Text (List Json) :=
  match request.get "instructions" with
  | none | some .null => .ok []
  | some instructions => do
    return [roleMessage "system".toList (← responseContentToOpenai instructions)]

/-- The messages of one turn. -/
def responsesInputToOpenai (request : Json) : Except Text (List Json) := do
  let instructions ← instructionMessages request
  match request.get "input" with
  | none => .error "input is required for a Responses request".toList
  | some (.string text) => .ok (instructions ++ [roleMessage "user".toList (.string text)])
  | some (.array items) => do return instructions ++ (← items.mapM responseItemToOpenai)
  | some _ => .error "input must be a string or array".toList

/-- Request fields that keep their value under another name or the same. -/
def passedFields : List (String × String) :=
  [("temperature", "temperature"), ("top_p", "top_p"), ("max_output_tokens", "max_tokens"),
    ("stop", "stop"), ("tools", "tools"), ("tool_choice", "tool_choice"),
    ("response_format", "response_format")]

def passField (request : Json) (body : KeyMap Text Json) (field : String × String) :
    KeyMap Text Json :=
  match request.get field.1 with
  | some value => body.insert field.2.toList value
  | none => body

def streamRequested (request : Json) : Option Bool := (request.get "stream").bind Json.asBool

def responsesToOpenai (request : Json) (messages : List Json) : Json :=
  let body : KeyMap Text Json := KeyMap.empty
  let body := body.insert "model".toList ((request.get "model").getD (.text "local-model"))
  let body := body.insert "messages".toList (.array messages)
  let body := body.insert "stream".toList ((request.get "stream").getD (.bool false))
  let body :=
    if streamRequested request = some true then
      body.insert "stream_options".toList (.object [("include_usage".toList, .bool true)])
    else body
  let body := passedFields.foldl (passField request) body
  let body :=
    match request.get "reasoning" with
    | some reasoning =>
      body.insert "reasoning_effort".toList ((reasoning.get "effort").getD (.text "default"))
    | none => body
  .object body.entries

theorem lookup_entries (key : Text) (entries : List (Text × Json)) :
    Json.lookup key entries = KeyMap.find key entries := by
  induction entries with
  | nil => rfl
  | cons e entries ih =>
    rw [Json.lookup, KeyMap.find, ih]
    congr

theorem get_passFields {request : Json} {fields : List (String × String)} {key : Text}
    (h : ∀ field ∈ fields, field.2.toList ≠ key) (body : KeyMap Text Json) :
    (fields.foldl (passField request) body).get key = body.get key := by
  induction fields generalizing body with
  | nil => rfl
  | cons field fields ih =>
    obtain ⟨hne, hmore⟩ := List.forall_mem_cons.mp h
    rw [List.foldl_cons, ih hmore]
    unfold passField
    split
    · rw [KeyMap.get_insert, if_neg (Ne.symm hne)]
    · rfl

theorem get_streamOptions {request : Json} {key : Text} (h : key ≠ "stream_options".toList)
    (body : KeyMap Text Json) :
    (if streamRequested request = some true then
      body.insert "stream_options".toList (.object [("include_usage".toList, .bool true)])
    else body).get key = body.get key := by
  split
  · rw [KeyMap.get_insert, if_neg h]
  · rfl

def openaiAssistantMessage (value : Json) : Json :=
  (((((value.get "choices").bind Json.asArray).bind List.head?).bind (Json.get "message"))).getD
    (roleMessage "assistant".toList (.text ""))

/-- What an answer is stamped with: the ids of its items and the time. -/
structure Stamp where
  reasoningId : Text
  messageId : Text
  createdAt : Nat

def responseValue (stamp : Stamp) (id model text reasoning : Text) (usage : Json)
    (status : String) : Json :=
  let summary : List Json :=
    if reasoning = [] then []
    else [.object
      [("id".toList, .string ("rs_".toList ++ stamp.reasoningId)),
        ("status".toList, .text "completed"),
        ("summary".toList, .array [.object
          [("text".toList, .string reasoning), ("type".toList, .text "summary_text")]]),
        ("type".toList, .text "reasoning")]]
  let message : Json := .object
    [("content".toList, .array [.object
        [("annotations".toList, .array []), ("text".toList, .string text),
          ("type".toList, .text "output_text")]]),
      ("id".toList, .string ("msg_".toList ++ stamp.messageId)),
      ("role".toList, .text "assistant"), ("status".toList, .text "completed"),
      ("type".toList, .text "message")]
  .object
    [("created_at".toList, .int stamp.createdAt), ("id".toList, .string id),
      ("model".toList, .string model), ("object".toList, .text "response"),
      ("output".toList, .array (summary ++ [message])), ("output_text".toList, .string text),
      ("status".toList, .text status), ("usage".toList, usage)]

def requestModel (request : Json) : Text :=
  ((request.get "model").bind Json.asStr).getD "local-model".toList

def openaiToResponses (stamp : Stamp) (value request : Json) (id : Text) : Json :=
  let message := openaiAssistantMessage value
  let text := ((message.get "content").bind Json.asStr).getD []
  let reasoning :=
    (((message.get "reasoning_content").or (message.get "reasoning")).bind Json.asStr).getD []
  responseValue stamp id (requestModel request) text reasoning (responseUsage value) "completed"

/-- A request that was sent upstream and is not answered yet. -/
structure Flight where
  id : Text
  body : Json
  parent : Option HistoryNode
  turn : List Json

def previousId (body : Json) : Option Text := (body.get "previous_response_id").bind Json.asStr

def Flight.streamed (flight : Flight) : Bool := (streamRequested flight.body).getD false

def notFound (message : Text) : ApiError := .new 404 "not_found".toList message

def parentHistory (responses : Responses) (body : Json) : Except ApiError (Option HistoryNode) :=
  match previousId body with
  | none => .ok none
  | some id =>
    match responses.get id with
    | none =>
      .error (notFound ("previous_response_id ".toList ++ id ++ " was not found".toList))
    | some stored => .ok (some stored.history)

section

variable {Lease : Type} (adapt : Lease → Json → Except ApiError Json)

/-- A request up to what goes upstream. The lease is what the router answers,
and `adapt` is the rewriting by the adapter of the leased session. -/
def postResponse (responses : Responses) (id : Text) (body : Json)
    (lease : Except ApiError Lease) : Except ApiError (Json × Flight) := do
  let parent ← parentHistory responses body
  let turn ← (responsesInputToOpenai body).mapError fun message =>
    ApiError.new 400 "invalid_request".toList message
  let messages := (parent.map HistoryNode.flatten).getD [] ++ turn
  let lease ← lease
  let sent ← adapt lease (responsesToOpenai body messages)
  return (sent, ⟨id, body, parent, turn⟩)

end

def answerResponse (stamp : Stamp) (flight : Flight) (value : Json) : StoredResponse × Json :=
  let assistant := openaiAssistantMessage value
  (⟨openaiToResponses stamp value flight.body flight.id,
    .append flight.parent flight.turn assistant⟩, assistant)

def streamedResponse (decode : Text → Option Json) (stamp : Stamp) (flight : Flight)
    (chunks : List Bytes) : Option (StoredResponse × Json) :=
  let relayed := streamResponses decode chunks
  if relayed.error.isSome then none
  else
    let state := (ResponseStreamState.applyAll {} relayed.applied).1
    let assistant : Json := .object
      [("content".toList, .string state.text),
        ("reasoning_content".toList, .string state.reasoning), ("role".toList, .text "assistant")]
    some (⟨responseValue stamp flight.id (requestModel flight.body) state.text state.reasoning
        (state.usage.getD (.object [])) "completed",
      .append flight.parent flight.turn assistant⟩, assistant)

end AioLM.Gateway
