import AioLM.ResponsesApi

/-!
The Messages API of Anthropic on the way in. One message becomes the tool
messages of its tool results, and then one message with the blocks that remain
and the tool calls.
-/

set_option autoImplicit false

namespace AioLM.Gateway

open Fallible

/-- The parts of a content under construction, its text joined apart. -/
structure Content where
  output : List Json := []
  text : Text := []

def isToolResult (block : Json) : Bool := blockKind block "" = "tool_result".toList
def isToolUse (block : Json) : Bool := blockKind block "" = "tool_use".toList

def blockText (block : Json) : Option Text :=
  (block.get (if blockKind block "" = "thinking".toList then "thinking" else "text")).bind Json.asStr

def blockSource (block : Json) (key : String) : Option Text :=
  ((block.get "source").bind (Json.get key)).bind Json.asStr

def blockImageUrl (block : Json) : Option Text :=
  ((blockSource block "data").map fun data =>
    "data:".toList ++ (blockSource block "media_type").getD "image/png".toList ++
      ";base64,".toList ++ data).or (blockSource block "url")

def blockImagePart (block : Json) : Json :=
  .object
    [("image_url".toList, .object [("url".toList, (blockImageUrl block).elim .null .string)]),
      ("type".toList, .text "image_url")]

def Content.push (content : Content) (block : Json) : Except Text Content :=
  let kind := blockKind block ""
  if kind ∈ ["text", "thinking"].map String.toList then
    match blockText block with
    | some value => .ok { content with text := content.text ++ value }
    | none => .ok content
  else if kind = "image".toList then
    .ok { content with output := content.output ++ [blockImagePart block] }
  -- Tool blocks become messages of their own, so their own content is not visited here.
  else if kind ∈ ["tool_use", "tool_result"].map String.toList then .ok content
  else
    .error ("Anthropic input type ".toList ++ kind ++
      (" cannot be represented by this adapter; use /v1/chat/completions for supported audio and " ++
        "video input").toList)

def Content.finish (content : Content) : Json :=
  if content.output = [] then .string content.text
  else if content.text = [] then .array content.output
  else .array (textPart (.string content.text) :: content.output)

def contentBlocksToOpenai (value : Json) : Except Text Json :=
  match value with
  | .array blocks => do return (← blocks.foldlM Content.push {}).finish
  | value => .ok value

def resultContent (block : Json) : Json := (block.get "content").getD (.text "")

def toolResultMessage (block : Json) : Except Text Json := do
  let content ← contentBlocksToOpenai (resultContent block)
  return .object
    [("content".toList, content), ("role".toList, .text "tool"),
      ("tool_call_id".toList, (block.get "tool_use_id").getD .null)]

section

variable (floatText : Float → Text)

def toolCall (block : Json) (id : Text) : Json :=
  .object
    [("function".toList, .object
        [("arguments".toList,
            .string (((block.get "input").getD (.object [])).compact floatText)),
          ("name".toList, (block.get "name").getD (.text "tool"))]),
      ("id".toList, (block.get "id").getD (.string ("call_".toList ++ id))),
      ("type".toList, .text "function")]

/-- Ids drawn at random, by the place of the message and of the call in it. -/
def toolCalls (newId : Nat → Text) (blocks : List Json) : List Json :=
  (blocks.filter isToolUse).mapIdx fun i block => toolCall floatText block (newId i)

end

def remainingMessages (role : Text) (hadToolResult : Bool) (calls : List Json) (remaining : Json) :
    List Json :=
  if calls ≠ [] then
    [.object [("content".toList, remaining), ("role".toList, .text "assistant"),
      ("tool_calls".toList, .array calls)]]
  else if !hadToolResult || remaining.asStr.all (fun text => !text.isEmpty) then
    [roleMessage role remaining]
  else []

def messageContent (message : Json) : Json := (message.get "content").getD (.text "")

section

variable (floatText : Float → Text) (newId : Nat → Nat → Text)

def messageToOpenai (message : Json) (i : Nat) : Except Text (List Json) := do
  let role ← orError ((message.get "role").bind Json.asStr) "message role is required".toList
  let content := messageContent message
  match content with
  | .array blocks => do
    let results ← (blocks.filter isToolResult).mapM toolResultMessage
    let remaining ← contentBlocksToOpenai content
    return results ++ remainingMessages role (!results.isEmpty)
      (toolCalls floatText (newId i) blocks) remaining
  | content => do return [roleMessage role (← contentBlocksToOpenai content)]

def systemMessages (request : Json) : Except Text (List Json) :=
  match request.get "system" with
  | none => .ok []
  | some system => do return [roleMessage "system".toList (← contentBlocksToOpenai system)]

def anthropicPassedFields : List (String × String) :=
  [("temperature", "temperature"), ("top_p", "top_p"), ("stop", "stop"),
    ("max_tokens", "max_tokens")]

def anthropicTool (tool : Json) : Json :=
  .object
    [("function".toList, .object
        [("description".toList, (tool.get "description").getD .null),
          ("name".toList, (tool.get "name").getD .null),
          ("parameters".toList, (tool.get "input_schema").getD .null)]),
      ("type".toList, .text "function")]

def anthropicBody (request : Json) (converted : List Json) : KeyMap Text Json :=
  let body : KeyMap Text Json := KeyMap.empty
  let body := body.insert "model".toList ((request.get "model").getD (.text "local-model"))
  let body := body.insert "messages".toList (.array converted)
  let body := body.insert "stream".toList ((request.get "stream").getD (.bool false))
  let body :=
    if streamRequested request = some true then
      body.insert "stream_options".toList (.object [("include_usage".toList, .bool true)])
    else body
  let body := anthropicPassedFields.foldl (passField request) body
  match (request.get "tools").bind Json.asArray with
  | some tools => body.insert "tools".toList (.array (tools.map anthropicTool))
  | none => body

def anthropicToOpenai (request : Json) : Except Text Json := do
  let messages ← orError ((request.get "messages").bind Json.asArray)
    "messages must be an array".toList
  let system ← systemMessages request
  let parts ← messages.zipIdx.mapM fun (message, i) => messageToOpenai floatText newId message i
  return .object (anthropicBody request (system ++ parts.flatten)).entries

end

end AioLM.Gateway
