import AioLM.BlockLegality

/-!
`openai_to_anthropic` translates a complete upstream answer. A client reads the
blocks of the streamed form of the same answer by their indexes; this file says
for which answers and chunks it sees the same content and stop reason.
-/

set_option autoImplicit false

namespace AioLM.Gateway

structure AnthropicMessage where
  id : Json
  model : Json
  content : List ContentBlock
  stopReason : String
  inputTokens : Nat
  outputTokens : Nat

/-- `choices[0].message`, or null. -/
def answerMessage (value : Json) : Json :=
  (((firstChoice value).getD .null).get "message").getD .null

def answerToolCalls (value : Json) : List Json :=
  (((answerMessage value).get "tool_calls").bind Json.asArray).getD []

def answerFinish (value : Json) : Option Text :=
  finishReason ((firstChoice value).getD .null)

section
variable (fromStr : Text → Option Json)

/-- One tool call as a `tool_use` block. `fromStr` is the JSON parser. -/
def toolUseBlock (call : Json) : ContentBlock :=
  let function := (call.get "function").getD .null
  let input := (((function.get "arguments").bind Json.asStr).bind fromStr).getD (.object [])
  .toolUse ((call.get "id").getD .null) ((function.get "name").getD .null) input

def messageStopReason (reason : Option Text) : String :=
  if reason = some "tool_calls".toList then "tool_use"
  else if reason = some "length".toList then "max_tokens"
  else "end_turn"

def usageTokens (value : Json) (field : String) : Nat :=
  (((value.get "usage").bind (fun usage => usage.get field)).bind Json.asU64).getD 0

/-- `openai_to_anthropic`; `newId` is the message id generated for an answer
without one. -/
def openaiToAnthropic (newId : Text) (value : Json) : AnthropicMessage :=
  let message := answerMessage value
  { id := (value.get "id").getD (.string newId)
    model := (value.get "model").getD (.text "local-model")
    content :=
      ((reasoningText message).map ContentBlock.thinking).toList ++
      (((message.get "content").bind Json.asStr).map ContentBlock.text).toList ++
      (answerToolCalls value).map (toolUseBlock fromStr)
    stopReason := messageStopReason (answerFinish value)
    inputTokens := usageTokens value "prompt_tokens"
    outputTokens := usageTokens value "completion_tokens" }

end

def ContentBlock.thinkingPart : ContentBlock → Text
  | .thinking t => t
  | _ => []

def ContentBlock.textPart : ContentBlock → Text
  | .text t => t
  | _ => []

def ContentBlock.toolPart : ContentBlock → Option (Json × Json × Json)
  | .toolUse id name input => some (id, name, input)
  | _ => none

def Event.stopPart : Event → Option String
  | .messageDelta stopReason _ _ => some stopReason
  | _ => none

def ContentBlock.extend : ContentBlock → BlockDelta → ContentBlock
  | .thinking t, .thinking more => .thinking (t ++ more)
  | .text t, .text more => .text (t ++ more)
  | block, _ => block

def readBlock (blocks : List ContentBlock) : Event → List ContentBlock
  | .contentBlockStart index block => blocks.take index ++ block :: blocks.drop (index + 1)
  | .contentBlockDelta index delta => blocks.modify index (·.extend delta)
  | _ => blocks

/-- The joined content of one answer, however it was delivered. -/
structure Joined where
  thinking : Text
  text : Text
  toolUses : List (Json × Json × Json)
  stopReason : Option String

def joinBlocks (blocks : List ContentBlock) (stopReason : Option String) : Joined where
  thinking := blocks.flatMap ContentBlock.thinkingPart
  text := blocks.flatMap ContentBlock.textPart
  toolUses := blocks.filterMap ContentBlock.toolPart
  stopReason := stopReason

def joinEvents (events : List Event) : Joined :=
  joinBlocks (events.foldl readBlock []) (events.filterMap Event.stopPart).getLast?

def AnthropicMessage.join (m : AnthropicMessage) : Joined :=
  joinBlocks m.content (some m.stopReason)

/-- A tool call as far as a `tool_use` block depends on it. -/
structure ToolCall where
  id : Option Json
  name : Option Json
  arguments : Text

def ToolCall.ofJson (call : Json) : ToolCall where
  id := call.get "id"
  name := (call.get "function").bind (fun function => function.get "name")
  arguments := (((call.get "function").bind (fun function => function.get "arguments")).bind
    Json.asStr).getD []

def mergeFragment (calls : List (Nat × ToolCall)) (fragment : Json) : List (Nat × ToolCall) :=
  let index := ((fragment.get "index").bind Json.asU64).getD 0
  let part := ToolCall.ofJson fragment
  if calls.any (fun call => call.1 == index) then
    calls.map (fun call => if call.1 = index then
      (index, ⟨call.2.id.or part.id, call.2.name.or part.name,
        call.2.arguments ++ part.arguments⟩) else call)
  else calls ++ [(index, part)]

def chunkToolFragments (value : Json) : List Json :=
  ((((firstChoice value).bind (fun choice => choice.get "delta")).bind
    (fun delta => delta.get "tool_calls")).bind Json.asArray).getD []

def joinToolCalls (values : List Json) : List ToolCall :=
  ((values.flatMap chunkToolFragments).foldl mergeFragment []).map Prod.snd

/-- `chunks` deliver `answer` as a stream: its texts, its tool calls and its
finish reason in any pieces, with a complete usage report. -/
structure StreamedAs (answer : Json) (chunks : List Json) : Prop where
  reasoning : chunks.flatMap (fun value => (chunkReasoning value).getD []) =
    (reasoningText (answerMessage answer)).getD []
  content : chunks.flatMap (fun value => (chunkContent value).getD []) =
    (contentText (answerMessage answer)).getD []
  toolCalls : joinToolCalls chunks = (answerToolCalls answer).map ToolCall.ofJson
  finish : (chunks.filterMap (fun value => (firstChoice value).bind finishReason)).getLast? =
    answerFinish answer
  usage : ∃ usage, (chunks.filterMap (fun value => (value.get "usage").filter
      Json.isObject)).getLast? = some usage ∧
    ((usage.get "prompt_tokens").bind Json.asU64).isSome ∧
    ((usage.get "completion_tokens").bind Json.asU64).isSome

def Phase.content (t c : Text) : Phase → List ContentBlock
  | .neither => []
  | .thinking => [.thinking t]
  | .text => [.text c]
  | .both => [.thinking t, .text c]
  | .shared => [.thinking t]

/-- Nothing has come yet for a block that has not started. -/
def Phase.Fresh (t c : Text) : Phase → Prop
  | .neither => t = [] ∧ c = []
  | .thinking => c = []
  | .text => t = []
  | .both | .shared => True

namespace OpenAiStream

variable {self : OpenAiStream} {p : Phase} {t c : Text}

theorem applyReasoning_content (h : self.InPhase p) (hfresh : p.Fresh t c) (delta : Json) :
    let q := if (reasoningText delta).isSome then p.reason else p
    let t' := t ++ (reasoningText delta).getD []
    q.Fresh t' c ∧ (self.applyReasoning delta).2.foldl readBlock (p.content t c) =
      q.content t' c := by
  obtain ⟨thinkingIndex, textIndex, finish, usage⟩ := self
  cases hr : reasoningText delta with
  | none => simpa [applyReasoning, hr] using hfresh
  | some text =>
    cases p <;> simp only [InPhase, Phase.indexes, Prod.mk.injEq] at h <;>
      obtain ⟨rfl, rfl⟩ := h <;> simp only [Phase.Fresh] at hfresh <;>
      simp [applyReasoning, hr, Phase.reason, Phase.Fresh, Phase.content, readBlock,
        ContentBlock.extend, hfresh]

theorem applyContent_content (h : self.InPhase p) (hfresh : p.Fresh t c) (delta : Json) :
    let q := if (contentText delta).isSome then p.answer else p
    let c' := c ++ (contentText delta).getD []
    q.Fresh t c' ∧ (self.applyContent delta).2.foldl readBlock (p.content t c) =
      q.content t c' := by
  obtain ⟨thinkingIndex, textIndex, finish, usage⟩ := self
  cases hc : contentText delta with
  | none => simpa [applyContent, hc] using hfresh
  | some text =>
    cases p <;> simp only [InPhase, Phase.indexes, Prod.mk.injEq] at h <;>
      obtain ⟨rfl, rfl⟩ := h <;> simp only [Phase.Fresh] at hfresh <;>
      simp [applyContent, hc, Phase.answer, Phase.Fresh, Phase.content, readBlock,
        ContentBlock.extend, hfresh]

/-- A chunk adds its own texts to the blocks of the phase, and never a tool call. -/
theorem apply_content (h : self.InPhase p) (hfresh : p.Fresh t c) (value : Json) :
    let t' := t ++ (chunkReasoning value).getD []
    let c' := c ++ (chunkContent value).getD []
    (p.next value).Fresh t' c' ∧
      (self.apply value).2.foldl readBlock (p.content t c) = (p.next value).content t' c' := by
  have hu := noteUsage_inPhase h value
  cases hc : firstChoice value with
  | none => simpa [apply, hc, Phase.next, chunkReasoning, chunkContent] using hfresh
  | some choice =>
    have hf := noteFinish_inPhase hu choice
    cases hd : choice.get "delta" with
    | none => simpa [apply, hc, hd, Phase.next, chunkReasoning, chunkContent] using hfresh
    | some delta =>
      obtain ⟨hrp, -⟩ := applyReasoning_phase hf delta
      obtain ⟨hrf, hr⟩ := applyReasoning_content hf hfresh delta
      obtain ⟨haf, ha⟩ := applyContent_content hrp hrf delta
      simp only [apply, hc, hd, Phase.next, chunkReasoning, chunkContent, Option.bind_some,
        List.foldl_append]
      exact ⟨haf, by rw [hr, ha]⟩

theorem applyAll_content (h : self.InPhase p) (hfresh : p.Fresh t c) (values : List Json) :
    let t' := t ++ values.flatMap (fun value => (chunkReasoning value).getD [])
    let c' := c ++ values.flatMap (fun value => (chunkContent value).getD [])
    (p.after values).Fresh t' c' ∧
      (self.applyAll values).2.foldl readBlock (p.content t c) = (p.after values).content t' c' := by
  induction values generalizing self p t c with
  | nil => simpa [applyAll, Phase.after] using hfresh
  | cons value rest ih =>
    obtain ⟨hp, -⟩ := apply_phase h value
    obtain ⟨hf, hb⟩ := apply_content h hfresh value
    obtain ⟨hfs, hbs⟩ := ih hp hf
    simp only [List.append_assoc] at hfs hbs
    refine ⟨hfs, ?_⟩
    rw [applyAll, List.foldl_append, hb, hbs]
    rfl

theorem applyAll_stop (self : OpenAiStream) (values : List Json) :
    (self.applyAll values).2.filterMap Event.stopPart = [] := by
  induction values generalizing self with
  | nil => rfl
  | cons value rest ih =>
    have hreasoning : ∀ (self : OpenAiStream) (delta : Json),
        (self.applyReasoning delta).2.filterMap Event.stopPart = [] := by
      intro self delta
      unfold applyReasoning
      split
      · rfl
      · split <;> simp [Event.stopPart]
    have hcontent : ∀ (self : OpenAiStream) (delta : Json),
        (self.applyContent delta).2.filterMap Event.stopPart = [] := by
      intro self delta
      unfold applyContent
      split
      · rfl
      · split <;> simp [Event.stopPart]
    have happly : (self.apply value).2.filterMap Event.stopPart = [] := by
      cases hc : firstChoice value with
      | none => simp [apply, hc]
      | some choice =>
        cases hd : choice.get "delta" with
        | none => simp [apply, hc, hd]
        | some delta => simp [apply, hc, hd, hreasoning, hcontent]
    rw [applyAll, List.filterMap_append, happly, ih, List.nil_append]

theorem applyReasoning_keeps (self : OpenAiStream) (delta : Json) :
    (self.applyReasoning delta).1.finishReason = self.finishReason ∧
      (self.applyReasoning delta).1.usage = self.usage := by
  unfold applyReasoning
  split
  · simp
  · split <;> simp

theorem applyContent_keeps (self : OpenAiStream) (delta : Json) :
    (self.applyContent delta).1.finishReason = self.finishReason ∧
      (self.applyContent delta).1.usage = self.usage := by
  unfold applyContent
  split
  · simp
  · split <;> simp

theorem noteUsage_report (self : OpenAiStream) (value : Json) :
    (self.noteUsage value).finishReason = self.finishReason ∧
      (self.noteUsage value).usage =
        ((value.get "usage").filter Json.isObject).or self.usage := by
  unfold noteUsage
  split <;> rename_i h <;> simp [h]

theorem noteFinish_report (self : OpenAiStream) (choice : Json) :
    (self.noteFinish choice).finishReason =
        (Gateway.finishReason choice).or self.finishReason ∧
      (self.noteFinish choice).usage = self.usage := by
  unfold noteFinish
  split <;> rename_i h <;> simp [h]

theorem apply_report (self : OpenAiStream) (value : Json) :
    (self.apply value).1.finishReason =
        ((firstChoice value).bind Gateway.finishReason).or self.finishReason ∧
      (self.apply value).1.usage =
        ((value.get "usage").filter Json.isObject).or self.usage := by
  have hu := noteUsage_report self value
  cases hc : firstChoice value with
  | none => simp [apply, hc, hu]
  | some choice =>
    have hf := noteFinish_report (self.noteUsage value) choice
    cases hd : choice.get "delta" with
    | none => simp [apply, hc, hd, hu, hf]
    | some delta => simp [apply, hc, hd, hu, hf, applyReasoning_keeps, applyContent_keeps]

theorem applyAll_report (self : OpenAiStream) (values : List Json) :
    (self.applyAll values).1.finishReason =
        (values.filterMap (fun value =>
          (firstChoice value).bind Gateway.finishReason)).getLast?.or self.finishReason ∧
      (self.applyAll values).1.usage =
        (values.filterMap (fun value =>
          (value.get "usage").filter Json.isObject)).getLast?.or self.usage := by
  induction values generalizing self with
  | nil => simp [applyAll]
  | cons value rest ih =>
    obtain ⟨hf, hu⟩ := ih (self.apply value).1
    obtain ⟨hf', hu'⟩ := apply_report self value
    constructor
    · rw [applyAll, hf, hf', List.filterMap_cons]
      cases (firstChoice value).bind Gateway.finishReason <;> simp [List.getLast?_cons]
    · rw [applyAll, hu, hu', List.filterMap_cons]
      cases (value.get "usage").filter Json.isObject <;> simp [List.getLast?_cons]

theorem finish_content (self : OpenAiStream) (blocks : List ContentBlock) :
    self.finish.foldl readBlock blocks = blocks := by
  unfold finish closing
  cases self.thinkingIndex <;> cases self.textIndex <;> split <;> rfl

theorem finish_stop (self : OpenAiStream) (hin : (self.tokens "prompt_tokens").isSome)
    (hout : (self.tokens "completion_tokens").isSome) :
    self.finish.filterMap Event.stopPart = [stopReason self.finishReason] := by
  obtain ⟨i, hi⟩ := Option.isSome_iff_exists.mp hin
  obtain ⟨o, ho⟩ := Option.isSome_iff_exists.mp hout
  cases ht : self.thinkingIndex <;> cases hx : self.textIndex <;>
    simp [finish, closing, hi, ho, ht, hx, Event.stopPart, List.filterMap_cons]

end OpenAiStream

theorem Phase.join_content {p : Phase} {t c : Text} (hfresh : p.Fresh t c) (stop : Option String) :
    joinBlocks (p.content t c) stop = ⟨t, if p = .shared then [] else c, [], stop⟩ := by
  cases p <;> simp only [Phase.Fresh] at hfresh <;>
    simp [joinBlocks, Phase.content, ContentBlock.thinkingPart, ContentBlock.textPart,
      ContentBlock.toolPart, List.filterMap_cons, hfresh]

theorem joinEvents_streamEvents {answer : Json} {chunks : List Json}
    (h : StreamedAs answer chunks) :
    joinEvents (streamEvents chunks) =
      { thinking := (reasoningText (answerMessage answer)).getD []
        text := if Phase.after .neither chunks = .shared then []
          else (contentText (answerMessage answer)).getD []
        toolUses := []
        stopReason := some (OpenAiStream.stopReason (answerFinish answer)) } := by
  have hstart : OpenAiStream.InPhase {} .neither := rfl
  obtain ⟨hfresh, hcontent⟩ := OpenAiStream.applyAll_content (t := []) (c := []) hstart ⟨rfl, rfl⟩
    chunks
  rw [List.nil_append, List.nil_append, h.reasoning, h.content] at hfresh hcontent
  obtain ⟨hfinish, husage⟩ := OpenAiStream.applyAll_report {} chunks
  obtain ⟨usage, hlast, hin, hout⟩ := h.usage
  rw [hlast, Option.some_or] at husage
  have hfs := OpenAiStream.finish_stop (OpenAiStream.applyAll {} chunks).1
    (by simpa [OpenAiStream.tokens, husage] using hin)
    (by simpa [OpenAiStream.tokens, husage] using hout)
  rw [hfinish, h.finish, Option.or_none] at hfs
  rw [joinEvents, streamEvents, List.foldl_append, List.filterMap_append,
    OpenAiStream.applyAll_stop, hfs, OpenAiStream.finish_content]
  change joinBlocks ((OpenAiStream.applyAll {} chunks).2.foldl readBlock
    (Phase.content [] [] .neither)) _ = _
  rw [hcontent, Phase.join_content hfresh]
  rfl

theorem join_openaiToAnthropic (fromStr : Text → Option Json) (newId : Text) (answer : Json) :
    (openaiToAnthropic fromStr newId answer).join =
      { thinking := (reasoningText (answerMessage answer)).getD []
        text := (contentText (answerMessage answer)).getD []
        toolUses := (answerToolCalls answer).filterMap
          (fun call => (toolUseBlock fromStr call).toolPart)
        stopReason := some (messageStopReason (answerFinish answer)) } := by
  have hthink : ∀ calls : List Json,
      (calls.map (toolUseBlock fromStr)).flatMap ContentBlock.thinkingPart = [] := by
    intro calls
    simp [List.flatMap_eq_nil_iff, toolUseBlock, ContentBlock.thinkingPart]
  have htext : ∀ calls : List Json,
      (calls.map (toolUseBlock fromStr)).flatMap ContentBlock.textPart = [] := by
    intro calls
    simp [List.flatMap_eq_nil_iff, toolUseBlock, ContentBlock.textPart]
  have hcontent : (contentText (answerMessage answer)).getD [] =
      (((answerMessage answer).get "content").bind Json.asStr).getD [] := by
    unfold contentText
    cases ((answerMessage answer).get "content").bind Json.asStr with
    | none => rfl
    | some t => cases t <;> rfl
  rw [hcontent]
  simp only [AnthropicMessage.join, joinBlocks, openaiToAnthropic, List.flatMap_append, hthink, htext,
    List.filterMap_append, List.filterMap_map]
  cases reasoningText (answerMessage answer) <;>
    cases ((answerMessage answer).get "content").bind Json.asStr <;>
    simp [ContentBlock.thinkingPart, ContentBlock.textPart, ContentBlock.toolPart,
      Function.comp_def, List.filterMap_cons]

theorem stopReason_eq_iff (reason : Option Text) :
    OpenAiStream.stopReason reason = messageStopReason reason ↔
      reason ≠ some "content_filter".toList := by
  unfold OpenAiStream.stopReason messageStopReason
  by_cases hl : reason = some "length".toList
  · subst hl; simp
  · by_cases ht : reason = some "tool_calls".toList
    · subst ht; simp
    · by_cases hc : reason = some "content_filter".toList
      · simp [hc]
      · simp only [hl, ht, hc, if_false, ne_eq, not_false_eq_true]

theorem content_ne_nil_of_lateReasoning {chunks : List Json} (h : LateReasoning chunks) :
    chunks.flatMap (fun value => (chunkContent value).getD []) ≠ [] := by
  obtain ⟨before, late, after, rfl, -, -, value, hvalue, hsome⟩ := h
  obtain ⟨text, htext⟩ := Option.isSome_iff_exists.mp hsome
  obtain ⟨delta, -, hdelta⟩ := Option.bind_eq_some_iff.mp htext
  have hne : text ≠ [] := by simpa using (Option.filter_eq_some_iff.mp hdelta).2
  intro hnil
  have hempty := List.flatMap_eq_nil_iff.mp hnil value (List.mem_append_left _ hvalue)
  rw [htext] at hempty
  exact hne hempty

/-- A streamed answer, its blocks read by index, joins to what the unstreamed answer gives exactly
when it calls no tool, was not ended by a content filter and began with its reasoning, if any. -/
theorem streamed_join_iff (fromStr : Text → Option Json) (newId : Text) (answer : Json)
    (chunks : List Json) (h : StreamedAs answer chunks) :
    joinEvents (streamEvents chunks) = (openaiToAnthropic fromStr newId answer).join ↔
      answerToolCalls answer = [] ∧
        answerFinish answer ≠ some "content_filter".toList ∧ ¬ LateReasoning chunks := by
  rw [joinEvents_streamEvents h, join_openaiToAnthropic]
  have htools : ([] = (answerToolCalls answer).filterMap
      (fun call => (toolUseBlock fromStr call).toolPart)) ↔ answerToolCalls answer = [] := by
    cases answerToolCalls answer with
    | nil => simp
    | cons call rest => simp [toolUseBlock, ContentBlock.toolPart]
  have hlost : LateReasoning chunks → (contentText (answerMessage answer)).getD [] ≠ [] :=
    fun hlate => h.content ▸ content_ne_nil_of_lateReasoning hlate
  by_cases hlate : LateReasoning chunks
  · simp [hlate, (after_eq_shared_iff chunks).mpr hlate, (hlost hlate).symm]
  · simp [hlate, mt (after_eq_shared_iff chunks).mp hlate, htools, stopReason_eq_iff]

def sampleUsage : Json := .object
  [("completion_tokens".toList, .int 2), ("prompt_tokens".toList, .int 5)]

def sampleAnswer (message : List (Text × Json)) (finish : String) : Json := .object
  [("choices".toList, .array [.object
      [("finish_reason".toList, .text finish), ("message".toList, .object message)]]),
    ("usage".toList, sampleUsage)]

def sampleChunk (delta : List (Text × Json)) (finish : String) : Json := .object
  [("choices".toList, .array [.object
      [("delta".toList, .object delta), ("finish_reason".toList, .text finish)]]),
    ("usage".toList, sampleUsage)]

def helloAnswer : Json := sampleAnswer [("content".toList, .text "Hello"),
  ("reasoning_content".toList, .text "Hm")] "stop"

def helloChunks : List Json := [deltaChunk "reasoning_content" "Hm", deltaChunk "content" "Hel",
  sampleChunk [("content".toList, .text "lo")] "stop"]

/-- Reasoning first, then the text in two pieces. -/
theorem streamed_join_iff_plain : StreamedAs helloAnswer helloChunks ∧
    joinEvents (streamEvents helloChunks) =
      (openaiToAnthropic (fun _ => none) "msg_1".toList helloAnswer).join := by
  have h : StreamedAs helloAnswer helloChunks := ⟨rfl, rfl, rfl, rfl, sampleUsage, rfl, rfl, rfl⟩
  refine ⟨h, (streamed_join_iff _ _ _ _ h).mpr ⟨rfl, by decide, ?_⟩⟩
  rw [← streamEvents_legal_iff]
  decide

def sampleCall : Json := .object
  [("function".toList, .object
      [("arguments".toList, .text "{}"), ("name".toList, .text "look")]),
    ("id".toList, .text "call_1"), ("index".toList, .int 0)]

/-- The one tool call of this answer is in no event of its stream. -/
theorem tool_call_lost_in_stream :
    StreamedAs (sampleAnswer [("tool_calls".toList, .array [sampleCall])] "tool_calls")
        [sampleChunk [("tool_calls".toList, .array [sampleCall])] "tool_calls"] ∧
      joinEvents (streamEvents
          [sampleChunk [("tool_calls".toList, .array [sampleCall])] "tool_calls"]) ≠
        (openaiToAnthropic (fun _ => some (.object [])) "msg_1".toList
          (sampleAnswer [("tool_calls".toList, .array [sampleCall])] "tool_calls")).join := by
  refine ⟨⟨rfl, rfl, rfl, rfl, sampleUsage, rfl, rfl, rfl⟩, fun h => ?_⟩
  have hlen := congrArg (fun joined => joined.toolUses.length) h
  exact absurd hlen (by decide)

end AioLM.Gateway
