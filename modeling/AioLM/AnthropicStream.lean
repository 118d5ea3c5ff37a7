import AioLM.Json

/-!
The two translators from upstream OpenAI answers to the Anthropic format:
`OpenAiStream`, which turns stream chunks into block events, and
`openai_to_anthropic`, which turns a complete answer into one message.
-/

set_option autoImplicit false

namespace AioLM.Gateway

inductive ContentBlock where
  | thinking (thinking : Text)
  | text (text : Text)
  | toolUse (id name input : Json)

inductive BlockDelta where
  | thinking (thinking : Text)
  | text (text : Text)

/-- The events `write_event` sends, by their `type`. -/
inductive Event where
  | contentBlockStart (index : Nat) (block : ContentBlock)
  | contentBlockDelta (index : Nat) (delta : BlockDelta)
  | contentBlockStop (index : Nat)
  | messageDelta (stopReason : String) (inputTokens outputTokens : Nat)
  | messageStop
  | error (message : String)

structure OpenAiStream where
  thinkingIndex : Option Nat := none
  textIndex : Option Nat := none
  finishReason : Option Text := none
  usage : Option Json := none

/-- `value["choices"][0]`, when there is one. -/
def firstChoice (value : Json) : Option Json :=
  ((value.get "choices").bind Json.asArray).bind List.head?

def finishReason (choice : Json) : Option Text :=
  (choice.get "finish_reason").bind Json.asStr

/-- The non-empty reasoning text of a delta or a message. A null
`reasoning_content` hides `reasoning`, as `or_else` does. -/
def reasoningText (delta : Json) : Option Text :=
  (((delta.get "reasoning_content").or (delta.get "reasoning")).bind Json.asStr).filter
    (fun text => !text.isEmpty)

def contentText (delta : Json) : Option Text :=
  ((delta.get "content").bind Json.asStr).filter (fun text => !text.isEmpty)

namespace OpenAiStream

def noteUsage (self : OpenAiStream) (value : Json) : OpenAiStream :=
  match (value.get "usage").filter Json.isObject with
  | some usage => { self with usage := some usage }
  | none => self

def noteFinish (self : OpenAiStream) (choice : Json) : OpenAiStream :=
  match Gateway.finishReason choice with
  | some reason => { self with finishReason := some reason }
  | none => self

def applyReasoning (self : OpenAiStream) (delta : Json) : OpenAiStream × List Event :=
  match reasoningText delta with
  | none => (self, [])
  | some text =>
    match self.thinkingIndex with
    | some index => (self, [.contentBlockDelta index (.thinking text)])
    | none =>
        -- The index is 0 whether or not a text block was started before.
        let index := 0
        ({ self with thinkingIndex := some index },
          [.contentBlockStart index (.thinking []),
            .contentBlockDelta index (.thinking text)])

def applyContent (self : OpenAiStream) (delta : Json) : OpenAiStream × List Event :=
  match contentText delta with
  | none => (self, [])
  | some text =>
    match self.textIndex with
    | some index => (self, [.contentBlockDelta index (.text text)])
    | none =>
        let index := if self.thinkingIndex.isSome then 1 else 0
        ({ self with textIndex := some index },
          [.contentBlockStart index (.text []), .contentBlockDelta index (.text text)])

/-- `OpenAiStream::apply`, with the events it writes. -/
def apply (self : OpenAiStream) (value : Json) : OpenAiStream × List Event :=
  let self := self.noteUsage value
  match firstChoice value with
  | none => (self, [])
  | some choice =>
    let self := self.noteFinish choice
    match choice.get "delta" with
    | none => (self, [])
    | some delta =>
      let reasoned := self.applyReasoning delta
      let answered := reasoned.1.applyContent delta
      (answered.1, reasoned.2 ++ answered.2)

def stopReason (reason : Option Text) : String :=
  if reason = some "length".toList then "max_tokens"
  else if reason = some "tool_calls".toList then "tool_use"
  else if reason = some "content_filter".toList then "refusal"
  else "end_turn"

def tokens (self : OpenAiStream) (field : String) : Option Nat :=
  (self.usage.bind (fun usage => usage.get field)).bind Json.asU64

/-- How an answer ends: a missing usage report becomes an error event. -/
def closing (self : OpenAiStream) : List Event :=
  match self.tokens "prompt_tokens", self.tokens "completion_tokens" with
  | some inputTokens, some outputTokens =>
      [.messageDelta (stopReason self.finishReason) inputTokens outputTokens, .messageStop]
  | _, _ =>
      [.error "The inference engine did not report token usage for this streamed response."]

/-- `OpenAiStream::finish`, with the events it writes. -/
def finish (self : OpenAiStream) : List Event :=
  (self.thinkingIndex.map Event.contentBlockStop).toList ++
    (self.textIndex.map Event.contentBlockStop).toList ++ self.closing

/-- `apply` on every chunk in turn. -/
def applyAll (self : OpenAiStream) : List Json → OpenAiStream × List Event
  | [] => (self, [])
  | value :: rest =>
      let first := self.apply value
      let others := first.1.applyAll rest
      (others.1, first.2 ++ others.2)

end OpenAiStream

def streamEvents (values : List Json) : List Event :=
  (OpenAiStream.applyAll {} values).2 ++ (OpenAiStream.applyAll {} values).1.finish

def chunkReasoning (value : Json) : Option Text :=
  (((firstChoice value).bind (·.get "delta"))).bind reasoningText

def chunkContent (value : Json) : Option Text :=
  (((firstChoice value).bind (·.get "delta"))).bind contentText

end AioLM.Gateway
