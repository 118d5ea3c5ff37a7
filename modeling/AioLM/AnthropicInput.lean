import AioLM.AnthropicRequest
import Mathlib.Algebra.Order.BigOperators.Group.List
import Mathlib.Algebra.Order.Group.Nat

/-!
What the translation of a Messages request keeps: each text, image, tool call
and tool result, at any depth, has its place in the messages that go upstream
exactly when no block hides in a place the translation does not look at.
-/

set_option autoImplicit false

namespace AioLM.Gateway

open Fallible

def items (content : Json) : List Json := content.asArray.getD []

mutual

def blocksWithin : Json → List Json
  | .array blocks => blocksOfAll blocks
  | _ => []

def blocksOfAll : List Json → List Json
  | [] => []
  | block :: rest => block :: (blocksNested block ++ blocksOfAll rest)

def blocksNested : Json → List Json
  | .object fields =>
    if isToolResult (.object fields) then blocksOfContent fields else []
  | _ => []

def blocksOfContent : List (Text × Json) → List Json
  | [] => []
  | (key, value) :: rest =>
    if key = "content".toList then blocksWithin value else blocksOfContent rest

end

theorem blocksOfContent_eq (fields : List (Text × Json)) :
    blocksOfContent fields = blocksWithin (resultContent (.object fields)) := by
  induction fields with
  | nil => rfl
  | cons field fields ih =>
    obtain ⟨key, value⟩ := field
    simp only [blocksOfContent, resultContent, Json.get, Json.lookup] at ih ⊢
    split
    · rfl
    · exact ih

theorem blocksNested_eq (block : Json) :
    blocksNested block = if isToolResult block then blocksWithin (resultContent block) else [] := by
  cases block with
  | object fields => rw [blocksNested, blocksOfContent_eq]
  | _ => rfl

theorem blocksOfAll_eq (blocks : List Json) :
    blocksOfAll blocks = blocks.flatMap fun block => block :: blocksNested block := by
  induction blocks with
  | nil => rfl
  | cons block blocks ih => rw [blocksOfAll, ih, List.flatMap_cons, List.cons_append]

theorem blocksWithin_eq (content : Json) :
    blocksWithin content = (items content).flatMap fun block => block :: blocksNested block := by
  cases content with
  | array blocks => exact blocksOfAll_eq blocks
  | _ => rfl

theorem mem_blocksWithin {content block : Json} (h : block ∈ items content) :
    block ∈ blocksWithin content := by
  rw [blocksWithin_eq]
  exact List.mem_flatMap.mpr ⟨block, h, List.mem_cons_self⟩

theorem mem_blocksWithin_nested {content block inner : Json} (h : block ∈ items content)
    (hresult : isToolResult block = true) (hinner : inner ∈ items (resultContent block)) :
    inner ∈ blocksWithin content := by
  rw [blocksWithin_eq]
  refine List.mem_flatMap.mpr ⟨block, h, List.mem_cons_of_mem _ ?_⟩
  rw [blocksNested_eq, if_pos hresult]
  exact mem_blocksWithin hinner

def isTextual (block : Json) : Bool := blockKind block "" ∈ ["text", "thinking"].map String.toList
def isImage (block : Json) : Bool := blockKind block "" = "image".toList
def isTool (block : Json) : Bool := isToolUse block || isToolResult block

def BlockWhole (block : Json) : Prop :=
  (isTextual block ∧ (blockText block).isSome) ∨ (isImage block ∧ (blockImageUrl block).isSome) ∨
    isTool block

instance (block : Json) : Decidable (BlockWhole block) :=
  inferInstanceAs (Decidable (_ ∨ _ ∨ _))

def ownText (blocks : List Json) : Text :=
  (blocks.filter isTextual).flatMap fun block => (blockText block).getD []

def ownImages (blocks : List Json) : List Json :=
  ((blocks.filter isImage).filterMap blockImageUrl).map Json.string

def partText (part : Json) : Text :=
  if blockKind part "" = "text".toList then ((part.get "text").bind Json.asStr).getD [] else []

def outText : Json → Text
  | .string text => text
  | .array parts => parts.flatMap partText
  | _ => []

def partImage (part : Json) : Option Json := (part.get "image_url").bind (Json.get "url")

def outImages : Json → List Json
  | .array parts => parts.filterMap partImage
  | _ => []

/-- The texts and images directly in a content, each once; a content that is not
a list of blocks as it is. -/
def Conveys (content : Json) (outs : List Json) : Prop :=
  match content with
  | .array blocks =>
    outs.flatMap outText = ownText blocks ∧ outs.flatMap outImages = ownImages blocks
  | content => outs = [content]

def isToolMessage (message : Json) : Bool := (message.get "tool_call_id").isSome

def messageCalls (message : Json) : List Json :=
  ((message.get "tool_calls").bind Json.asArray).getD []

def KeepsField (block : Json) (field : String) (kept : Option Json) : Prop :=
  ∀ value, block.get field = some value → kept = some value

structure CarriesResult (block message : Json) : Prop where
  id : KeepsField block "tool_use_id" (message.get "tool_call_id")
  content : Conveys (resultContent block) [messageContent message]

section

variable (floatText : Float → Text)

structure CarriesUse (block call : Json) : Prop where
  id : KeepsField block "id" (call.get "id")
  name : KeepsField block "name" ((call.get "function").bind (Json.get "name"))
  input : ∀ value, block.get "input" = some value →
    (call.get "function").bind (Json.get "arguments") = some (.string (value.compact floatText))

/-- The messages made of one content: a message for each tool result and a call
for each tool use at any depth, and the texts and images around them. -/
structure Carries (content : Json) (part : List Json) : Prop where
  whole : ∀ block ∈ blocksWithin content, BlockWhole block
  results : List.Forall₂ CarriesResult ((blocksWithin content).filter isToolResult)
    (part.filter isToolMessage)
  uses : List.Forall₂ (CarriesUse floatText) ((blocksWithin content).filter isToolUse)
    (part.flatMap messageCalls)
  own : Conveys content ((part.filter fun message => !isToolMessage message).map messageContent)

def requestMessages (request : Json) : List Json :=
  ((request.get "messages").bind Json.asArray).getD []

def requestContents (request : Json) : List Json :=
  (request.get "system").toList ++ (requestMessages request).map messageContent

def Lossless (request out : Json) : Prop :=
  ∃ parts : List (List Json), out.get "messages" = some (.array parts.flatten) ∧
    List.Forall₂ (Carries floatText) (requestContents request) parts

end

/-- Nothing the translation would pass over in a content without tool blocks. -/
def Plain (content : Json) : Prop := ∀ block ∈ items content, BlockWhole block ∧ isTool block = false

def Complete (content : Json) : Prop :=
  ∀ block ∈ items content, BlockWhole block ∧ (isToolResult block → Plain (resultContent block))

/-- Every text and image has its data, and no tool block stands in the content of
a tool result or in the system prompt. -/
structure Representable (request : Json) : Prop where
  system : ∀ system, request.get "system" = some system → Plain system
  messages : ∀ message ∈ requestMessages request, Complete (messageContent message)

instance (content : Json) : Decidable (Plain content) :=
  inferInstanceAs (Decidable (∀ _ ∈ _, _))

instance (content : Json) : Decidable (Complete content) :=
  inferInstanceAs (Decidable (∀ _ ∈ _, _))

instance (request : Json) : Decidable (Representable request) :=
  decidable_of_iff ((∀ system ∈ request.get "system", Plain system) ∧
      ∀ message ∈ requestMessages request, Complete (messageContent message))
    ⟨fun ⟨hsystem, hmessages⟩ => ⟨hsystem, hmessages⟩, fun h => ⟨h.system, h.messages⟩⟩

theorem isImage_of_textual {block : Json} (h : isTextual block = true) : isImage block = false := by
  simp only [isTextual, decide_eq_true_eq, List.map_cons, List.map_nil, List.mem_cons,
    List.not_mem_nil, or_false] at h
  obtain h | h := h <;> simp only [isImage, h] <;> decide

theorem not_textual_image_of_tool {block : Json} (h : isTool block = true) :
    isTextual block = false ∧ isImage block = false := by
  simp only [isTool, isToolUse, isToolResult, Bool.or_eq_true, decide_eq_true_eq] at h
  obtain h | h := h <;> simp only [isTextual, isImage, h] <;> decide

theorem isToolUse_of_result {block : Json} (h : isToolResult block = true) :
    isToolUse block = false := by
  simp only [isToolResult, decide_eq_true_eq] at h
  simp only [isToolUse, h]
  decide

theorem push_spec {content content' : Content} {block : Json}
    (h : content.push block = .ok content') :
    content'.text = content.text ++ ownText [block] ∧
      content'.output = content.output ++ ([block].filter isImage).map blockImagePart ∧
      (isTextual block ∨ isImage block ∨ isTool block) := by
  unfold Content.push at h
  simp only at h
  split at h
  · rename_i htext
    have htextual : isTextual block = true := decide_eq_true htext
    have himage := isImage_of_textual htextual
    cases hblock : blockText block with
    | some value =>
      rw [hblock] at h
      cases h
      simp [ownText, htextual, himage, hblock]
    | none =>
      rw [hblock] at h
      cases h
      simp [ownText, htextual, himage, hblock]
  · rename_i htext
    have htextual : isTextual block = false := decide_eq_false htext
    split at h
    · rename_i himage
      have himage : isImage block = true := decide_eq_true himage
      cases h
      simp [ownText, htextual, himage]
    · rename_i himage
      have himage : isImage block = false := decide_eq_false himage
      split at h
      · rename_i htool
        cases h
        refine ⟨by simp [ownText, htextual], by simp [himage], .inr (.inr ?_)⟩
        simp only [isTool, isToolUse, isToolResult, Bool.or_eq_true, decide_eq_true_eq]
        simpa only [List.map_cons, List.map_nil, List.mem_cons, List.not_mem_nil, or_false]
          using htool
      · cases h

theorem ownText_append (as bs : List Json) : ownText (as ++ bs) = ownText as ++ ownText bs := by
  simp [ownText]

theorem pushAll_spec {blocks : List Json} {content content' : Content}
    (h : blocks.foldlM Content.push content = .ok content') :
    content'.text = content.text ++ ownText blocks ∧
      content'.output = content.output ++ (blocks.filter isImage).map blockImagePart := by
  induction blocks generalizing content with
  | nil =>
    cases h
    simp [ownText]
  | cons block blocks ih =>
    rw [List.foldlM_cons] at h
    obtain ⟨content₁, hpush, hmore⟩ := bind_eq_ok.mp h
    obtain ⟨htext, houtput, -⟩ := push_spec hpush
    obtain ⟨htexts, houtputs⟩ := ih hmore
    rw [← List.singleton_append, ownText_append, List.filter_append, List.map_append]
    rw [htexts, houtputs, htext, houtput, List.append_assoc, List.append_assoc]
    exact ⟨rfl, rfl⟩

theorem imageUrl_of_whole {block : Json} (hw : BlockWhole block) (himage : isImage block = true) :
    (blockImageUrl block).isSome := by
  obtain ⟨htext, -⟩ | ⟨-, hurl⟩ | htool := hw
  · rw [isImage_of_textual htext] at himage
    cases himage
  · exact hurl
  · rw [(not_textual_image_of_tool htool).2] at himage
    cases himage

theorem partImages_eq {blocks : List Json} (hw : ∀ block ∈ blocks, BlockWhole block) :
    ((blocks.filter isImage).map blockImagePart).filterMap partImage = ownImages blocks := by
  induction blocks with
  | nil => rfl
  | cons block blocks ih =>
    obtain ⟨hblock, hblocks⟩ := List.forall_mem_cons.mp hw
    cases himage : isImage block with
    | false => simpa [ownImages, himage] using ih hblocks
    | true =>
      obtain ⟨url, hurl⟩ := Option.isSome_iff_exists.mp (imageUrl_of_whole hblock himage)
      have hpart : partImage (blockImagePart block) = some (.string url) := by
        unfold blockImagePart
        rw [hurl]
        rfl
      simpa [ownImages, himage, hurl, hpart] using ih hblocks

theorem partText_images (blocks : List Json) :
    (blocks.map blockImagePart).flatMap partText = [] := by
  rw [List.flatMap_map, List.flatMap_eq_nil_iff]
  intro block _
  have hkind : blockKind (blockImagePart block) "" = "image_url".toList := rfl
  exact if_neg (by rw [hkind]; decide)

theorem contentBlocks_conveys {content out : Json} (h : contentBlocksToOpenai content = .ok out)
    (hw : ∀ block ∈ items content, BlockWhole block) : Conveys content [out] := by
  cases content with
  | array blocks =>
    obtain ⟨built, hbuilt, hfinish⟩ := bind_eq_ok.mp h
    cases hfinish
    obtain ⟨htext, houtput⟩ := pushAll_spec hbuilt
    simp only [List.nil_append] at htext houtput
    have himages : _ = ownImages blocks := partImages_eq hw
    rw [← houtput] at himages
    have hnotext : built.output.flatMap partText = [] := by
      rw [houtput]
      exact partText_images _
    simp only [Conveys, List.flatMap_cons, List.flatMap_nil, List.append_nil, ← htext, ← himages]
    unfold Content.finish
    split
    · rename_i hempty
      rw [hempty]
      exact ⟨rfl, rfl⟩
    · split
      · rename_i hempty
        rw [hempty]
        exact ⟨hnotext, rfl⟩
      · refine ⟨?_, rfl⟩
        change built.text ++ built.output.flatMap partText = built.text
        rw [hnotext, List.append_nil]
  | _ =>
    cases h
    rfl

theorem toolResultMessage_eq {block message : Json} (h : toolResultMessage block = .ok message) :
    ∃ content, contentBlocksToOpenai (resultContent block) = .ok content ∧
      message = .object [("content".toList, content), ("role".toList, .text "tool"),
        ("tool_call_id".toList, (block.get "tool_use_id").getD .null)] := by
  obtain ⟨content, hcontent, hmessage⟩ := bind_eq_ok.mp h
  cases hmessage
  exact ⟨content, hcontent, rfl⟩

theorem keepsField_getD (block : Json) (field : String) (default : Json) :
    KeepsField block field (some ((block.get field).getD default)) := by
  intro value hvalue
  rw [hvalue]
  rfl

theorem toolResultMessage_carries {block message : Json}
    (h : toolResultMessage block = .ok message)
    (hw : ∀ inner ∈ items (resultContent block), BlockWhole inner) : CarriesResult block message := by
  obtain ⟨content, hcontent, rfl⟩ := toolResultMessage_eq h
  exact ⟨keepsField_getD block "tool_use_id" .null, contentBlocks_conveys hcontent hw⟩

theorem toolResults_shape {blocks messages : List Json}
    (h : List.Forall₂ (fun block message => toolResultMessage block = .ok message) blocks messages) :
    messages.filter isToolMessage = messages ∧ messages.flatMap messageCalls = [] := by
  induction h with
  | nil => exact ⟨rfl, rfl⟩
  | @cons block message blocks messages hmessage _ ih =>
    obtain ⟨content, -, rfl⟩ := toolResultMessage_eq hmessage
    refine ⟨?_, ih.2⟩
    exact (List.filter_cons_of_pos rfl).trans (congrArg _ ih.1)

section

variable {floatText : Float → Text} {newId : Nat → Nat → Text}

theorem toolCall_carries (block : Json) (id : Text) :
    CarriesUse floatText block (toolCall floatText block id) where
  id := keepsField_getD block "id" _
  name := keepsField_getD block "name" _
  input value hvalue := by
    unfold toolCall
    rw [hvalue]
    rfl

theorem toolCalls_carry (ids : Nat → Text) (blocks : List Json) :
    List.Forall₂ (CarriesUse floatText) (blocks.filter isToolUse)
      (toolCalls floatText ids blocks) := by
  rw [List.forall₂_iff_get]
  refine ⟨by simp [toolCalls], fun i _ _ => ?_⟩
  simpa [toolCalls] using toolCall_carries _ _

theorem remainingMessages_spec (role : Text) (hadToolResult : Bool) (calls : List Json)
    (remaining : Json) :
    let rest := remainingMessages role hadToolResult calls remaining
    rest.filter isToolMessage = [] ∧ rest.flatMap messageCalls = calls ∧
      (rest.map messageContent = [remaining] ∨
        rest = [] ∧ remaining = .string [] ∧ hadToolResult = true) := by
  intro rest
  simp only [rest]
  unfold remainingMessages
  split
  · exact ⟨rfl, List.append_nil calls, .inl rfl⟩
  · rename_i hcalls
    rw [Classical.not_not] at hcalls
    rw [hcalls]
    split
    · exact ⟨rfl, rfl, .inl rfl⟩
    · rename_i hempty
      refine ⟨rfl, rfl, .inr ⟨rfl, ?_⟩⟩
      cases remaining <;> simp_all [Json.asStr]

/-- A message in the upstream format: the tool messages, and then the rest. -/
structure Converted (floatText : Float → Text) (ids : Nat → Text) (content : Json)
    (part : List Json) (results rest : List Json) (remaining : Json) : Prop where
  part_eq : part = results ++ rest
  results : List.Forall₂ (fun block message => toolResultMessage block = .ok message)
    ((items content).filter isToolResult) results
  converts : contentBlocksToOpenai content = .ok remaining
  plain : rest.filter isToolMessage = []
  calls : rest.flatMap messageCalls = toolCalls floatText ids (items content)
  own : rest.map messageContent = [remaining] ∨
    rest = [] ∧ remaining = .string [] ∧ content.isArray

theorem messageToOpenai_converted {message : Json} {i : Nat} {part : List Json}
    (h : messageToOpenai floatText newId message i = .ok part) :
    ∃ results rest remaining,
      Converted floatText (newId i) (messageContent message) part results rest remaining := by
  obtain ⟨role, -, hmessage⟩ := bind_eq_ok.mp h
  generalize messageContent message = content at hmessage ⊢
  cases content with
  | array blocks =>
    obtain ⟨results, hresults, hrest⟩ := bind_eq_ok.mp hmessage
    obtain ⟨remaining, hremaining, hpart⟩ := bind_eq_ok.mp hrest
    cases hpart
    obtain ⟨hplain, hcalls, hown⟩ := remainingMessages_spec role (!results.isEmpty)
      (toolCalls floatText (newId i) blocks) remaining
    refine ⟨results, _, remaining, rfl, mapM_eq_ok.mp hresults, hremaining, hplain, hcalls, ?_⟩
    exact hown.imp_right fun ⟨hrest, hremaining, _⟩ => ⟨hrest, hremaining, rfl⟩
  | _ =>
    obtain ⟨remaining, hremaining, hpart⟩ := bind_eq_ok.mp hmessage
    cases hpart
    exact ⟨[], _, remaining, rfl, .nil, hremaining, rfl, rfl, .inl rfl⟩

theorem blocksNested_plain {block : Json}
    (hplain : isToolResult block → Plain (resultContent block)) :
    ∀ inner ∈ blocksNested block, BlockWhole inner ∧ isTool inner = false := by
  intro inner hinner
  rw [blocksNested_eq] at hinner
  split at hinner
  · rename_i hresult
    have hitems := hplain hresult
    rw [blocksWithin_eq, List.mem_flatMap] at hinner
    obtain ⟨outer, houter, hmem⟩ := hinner
    have htool := (hitems outer houter).2
    rw [isTool, Bool.or_eq_false_iff] at htool
    have hnone : blocksNested outer = [] := by
      rw [blocksNested_eq, if_neg (by simp [htool.2])]
    rw [hnone, List.mem_singleton] at hmem
    rw [hmem]
    exact hitems outer houter
  · cases hinner

theorem filter_blocksWithin {content : Json} {p : Json → Bool}
    (hp : ∀ block, p block = true → isTool block = true) (hcomplete : Complete content) :
    (blocksWithin content).filter p = (items content).filter p := by
  rw [blocksWithin_eq]
  have hnested (block : Json) (hblock : block ∈ items content) :
      (blocksNested block).filter p = [] := by
    rw [List.filter_eq_nil_iff]
    intro inner hinner hpos
    have htool := (blocksNested_plain (hcomplete block hblock).2 inner hinner).2
    rw [hp inner hpos] at htool
    cases htool
  revert hnested
  generalize items content = blocks
  intro hnested
  induction blocks with
  | nil => rfl
  | cons block blocks ih =>
    obtain ⟨hblock, hblocks⟩ := List.forall_mem_cons.mp hnested
    rw [List.flatMap_cons, List.cons_append, List.filter_cons, List.filter_cons,
      List.filter_append, hblock, List.nil_append, ih hblocks]

theorem whole_blocksWithin {content : Json} (hcomplete : Complete content) :
    ∀ block ∈ blocksWithin content, BlockWhole block := by
  intro block hblock
  rw [blocksWithin_eq, List.mem_flatMap] at hblock
  obtain ⟨outer, houter, hmem⟩ := hblock
  obtain rfl | hnested := List.mem_cons.mp hmem
  · exact (hcomplete block houter).1
  · exact (blocksNested_plain (hcomplete outer houter).2 block hnested).1

theorem carries_of_converted {ids : Nat → Text} {content : Json}
    {part results rest : List Json} {remaining : Json}
    (h : Converted floatText ids content part results rest remaining)
    (hcomplete : Complete content) : Carries floatText content part := by
  obtain ⟨hresults, hcalls⟩ := toolResults_shape h.results
  have hown := contentBlocks_conveys h.converts fun block hblock => (hcomplete block hblock).1
  refine ⟨whole_blocksWithin hcomplete, ?_, ?_, ?_⟩
  · rw [filter_blocksWithin (by simp +contextual [isTool]) hcomplete, h.part_eq, List.filter_append, hresults,
      h.plain, List.append_nil]
    have hplain (block : Json) (hblock : block ∈ (items content).filter isToolResult) :
        Plain (resultContent block) := by
      obtain ⟨hmem, hresult⟩ := List.mem_filter.mp hblock
      exact (hcomplete block hmem).2 hresult
    refine ((List.forall₂_and_left _ _).mpr ⟨hplain, h.results⟩).imp ?_
    intro block message ⟨hblock, hmessage⟩
    exact toolResultMessage_carries hmessage fun inner hinner => (hblock inner hinner).1
  · rw [filter_blocksWithin (by simp +contextual [isTool]) hcomplete, h.part_eq,
      List.flatMap_append, hcalls, h.calls]
    exact toolCalls_carry ids _
  · have hown' : (part.filter fun message => !isToolMessage message) = rest := by
      rw [h.part_eq, List.filter_append, List.filter_eq_nil_iff.mpr, List.nil_append,
        List.filter_eq_self]
      · intro message hmessage
        simpa using List.filter_eq_nil_iff.mp h.plain message hmessage
      · intro message hmessage
        simpa using List.filter_eq_self.mp hresults message hmessage
    rw [hown']
    obtain hrest | ⟨hrest, hremaining, harray⟩ := h.own
    · rw [hrest]
      exact hown
    · obtain ⟨blocks, hblocks⟩ := Option.isSome_iff_exists.mp harray
      cases Json.asArray_eq_some hblocks
      rw [hremaining] at hown
      rw [hrest]
      exact hown

def toolCount (messages : List Json) : Nat :=
  (messages.filter isToolMessage).length + (messages.flatMap messageCalls).length

theorem toolCount_append (as bs : List Json) :
    toolCount (as ++ bs) = toolCount as + toolCount bs := by
  simp only [toolCount, List.filter_append, List.flatMap_append, List.length_append]
  omega

theorem toolCount_flatten (parts : List (List Json)) :
    toolCount parts.flatten = (parts.map toolCount).sum := by
  induction parts with
  | nil => rfl
  | cons part parts ih => rw [List.flatten_cons, toolCount_append, ih, List.map_cons, List.sum_cons]

theorem countP_isTool (blocks : List Json) :
    (blocks.filter isToolResult).length + (blocks.filter isToolUse).length =
      blocks.countP isTool := by
  induction blocks with
  | nil => rfl
  | cons block blocks ih =>
    cases hresult : isToolResult block with
    | true =>
      have huse := isToolUse_of_result hresult
      simp only [List.filter_cons, List.countP_cons, isTool, hresult, huse] at ih ⊢
      simp
      omega
    | false =>
      cases huse : isToolUse block <;>
        simp only [List.filter_cons, List.countP_cons, isTool, hresult, huse] at ih ⊢ <;>
        simp <;> omega

theorem toolCount_converted {ids : Nat → Text} {content : Json}
    {part results rest : List Json} {remaining : Json}
    (h : Converted floatText ids content part results rest remaining) :
    toolCount part = (items content).countP isTool := by
  obtain ⟨hresults, hcalls⟩ := toolResults_shape h.results
  rw [← countP_isTool, toolCount, h.part_eq, List.filter_append, hresults, h.plain,
    List.append_nil, List.flatMap_append, hcalls, h.calls, List.nil_append, h.results.length_eq]
  simp [toolCalls]

theorem toolCount_carries {content : Json} {part : List Json}
    (h : Carries floatText content part) :
    toolCount part = (blocksWithin content).countP isTool := by
  rw [← countP_isTool, toolCount, h.results.length_eq, h.uses.length_eq]

theorem countP_blocksWithin (content : Json) :
    (blocksWithin content).countP isTool =
      (items content).countP isTool +
        ((items content).map fun block => (blocksNested block).countP isTool).sum := by
  rw [blocksWithin_eq]
  generalize items content = blocks
  induction blocks with
  | nil => rfl
  | cons block blocks ih =>
    simp only [List.flatMap_cons, List.cons_append, List.countP_cons, List.countP_append,
      List.map_cons, List.sum_cons, ih]
    omega

end

theorem anthropicBody_messages (request : Json) (converted : List Json) :
    (anthropicBody request converted).get "messages".toList = some (.array converted) := by
  have hpassed : ∀ field ∈ anthropicPassedFields, field.2.toList ≠ "messages".toList := by decide
  have hplain (body : KeyMap Text Json) (value stream : Json) :
      (((body.insert "model".toList value).insert "messages".toList (.array converted)).insert
        "stream".toList stream).get "messages".toList = some (.array converted) := by
    rw [KeyMap.get_insert, if_neg (by decide), KeyMap.get_insert, if_pos rfl]
  simp only [anthropicBody]
  split
  · rw [KeyMap.get_insert, if_neg (by decide), get_passFields hpassed,
      get_streamOptions (by decide), hplain]
  · rw [get_passFields hpassed, get_streamOptions (by decide), hplain]

theorem systemMessages_count {request : Json} {system : List Json}
    (h : systemMessages request = .ok system) : toolCount system = 0 := by
  unfold systemMessages at h
  split at h
  · cases h
    rfl
  · obtain ⟨converted, -, hsystem⟩ := bind_eq_ok.mp h
    cases hsystem
    rfl

theorem Plain.complete {content : Json} (h : Plain content) : Complete content := by
  intro block hblock
  refine ⟨(h block hblock).1, fun hresult => ?_⟩
  have htool := (h block hblock).2
  rw [isTool, hresult, Bool.or_true] at htool
  cases htool

theorem Plain.filter_blocksWithin {content : Json} {p : Json → Bool} (h : Plain content)
    (hp : ∀ block, p block = true → isTool block = true) : (blocksWithin content).filter p = [] := by
  rw [Gateway.filter_blocksWithin hp h.complete, List.filter_eq_nil_iff]
  intro block hblock hpos
  have htool := (h block hblock).2
  rw [hp block hpos] at htool
  cases htool

section

variable {floatText : Float → Text} {newId : Nat → Nat → Text}

theorem systemMessages_carries {request : Json} {system : List Json}
    (h : systemMessages request = .ok system)
    (hplain : ∀ content, request.get "system" = some content → Plain content) :
    ∃ parts, system = parts.flatten ∧
      List.Forall₂ (Carries floatText) (request.get "system").toList parts := by
  unfold systemMessages at h
  split at h
  · rename_i hnone
    cases h
    rw [hnone]
    exact ⟨[], rfl, .nil⟩
  · rename_i content hcontent
    obtain ⟨converted, hconverted, hsystem⟩ := bind_eq_ok.mp h
    cases hsystem
    refine ⟨[[_]], rfl, ?_⟩
    rw [hcontent]
    have hitems := hplain content hcontent
    refine .cons ⟨whole_blocksWithin hitems.complete, ?_, ?_, ?_⟩ .nil
    · rw [hitems.filter_blocksWithin (by simp +contextual [isTool])]
      exact .nil
    · rw [hitems.filter_blocksWithin (by simp +contextual [isTool])]
      exact .nil
    · exact contentBlocks_conveys hconverted fun block hblock => (hitems block hblock).1

theorem anthropicToOpenai_parts {request out : Json}
    (h : anthropicToOpenai floatText newId request = .ok out) :
    ∃ system parts, systemMessages request = .ok system ∧
      out.get "messages" = some (.array (system ++ parts.flatten)) ∧
      List.Forall₂ (fun content part => ∃ ids results rest remaining,
          Converted floatText ids content part results rest remaining)
        ((requestMessages request).map messageContent) parts := by
  obtain ⟨messages, hmessages, hrest⟩ := bind_eq_ok.mp h
  obtain ⟨system, hsystem, hrest⟩ := bind_eq_ok.mp hrest
  obtain ⟨parts, hparts, hout⟩ := bind_eq_ok.mp hrest
  cases hout
  rw [orError_eq_ok] at hmessages
  refine ⟨system, parts, hsystem, ?_, ?_⟩
  · rw [Json.get, lookup_entries]
    exact anthropicBody_messages _ _
  · rw [requestMessages, hmessages, Option.getD_some, List.forall₂_map_left_iff]
    rw [mapM_eq_ok] at hparts
    have hindexed := hparts.imp fun _ _ hpart => messageToOpenai_converted hpart
    rw [← List.zipIdx_map_fst 0 messages, List.forall₂_map_left_iff]
    exact hindexed.imp fun entry part ⟨results, rest, remaining, hconverted⟩ =>
      ⟨_, results, rest, remaining, hconverted⟩

theorem lossless_of_representable {request out : Json}
    (h : anthropicToOpenai floatText newId request = .ok out)
    (hrepresentable : Representable request) : Lossless floatText request out := by
  obtain ⟨system, parts, hsystem, hmessages, hparts⟩ := anthropicToOpenai_parts h
  obtain ⟨first, rfl, hfirst⟩ := systemMessages_carries hsystem hrepresentable.system
  refine ⟨first ++ parts, by rw [List.flatten_append]; exact hmessages, ?_⟩
  refine List.rel_append hfirst ?_
  have hcomplete : ∀ content ∈ (requestMessages request).map messageContent, Complete content :=
    List.forall_mem_map.mpr hrepresentable.messages
  refine ((List.forall₂_and_left _ _).mpr ⟨hcomplete, hparts⟩).imp ?_
  intro content part ⟨hcontent, ids, results, rest, remaining, hconverted⟩
  exact carries_of_converted hconverted hcontent

theorem sum_toolCount_eq {contents : List Json} {parts : List (List Json)} {count : Json → Nat}
    (h : List.Forall₂ (fun content part => toolCount part = count content) contents parts) :
    toolCount parts.flatten = (contents.map count).sum := by
  rw [toolCount_flatten]
  induction h with
  | nil => rfl
  | cons hpart _ ih => rw [List.map_cons, List.map_cons, List.sum_cons, List.sum_cons, hpart, ih]

/-- Every tool block at any depth is counted upstream, and only the direct blocks
of the messages are sent: so there are no others. -/
theorem toolCounts_of_lossless {request out : Json}
    (h : anthropicToOpenai floatText newId request = .ok out)
    (hlossless : Lossless floatText request out) :
    (∀ content, request.get "system" = some content →
        (blocksWithin content).countP isTool = 0) ∧
      ∀ content ∈ (requestMessages request).map messageContent,
        (blocksWithin content).countP isTool = (items content).countP isTool := by
  obtain ⟨system, parts, hsystem, hmessages, hparts⟩ := anthropicToOpenai_parts h
  obtain ⟨carried, hcarried, hcarries⟩ := hlossless
  have hflatten : system ++ parts.flatten = carried.flatten := by
    rw [hmessages, Option.some_inj, Json.array.injEq] at hcarried
    exact hcarried
  have hsent := sum_toolCount_eq (hparts.imp fun _ _ ⟨_, _, _, _, hconverted⟩ =>
    toolCount_converted hconverted)
  have hwithin := sum_toolCount_eq (hcarries.imp fun _ _ hcarried => toolCount_carries hcarried)
  rw [← hflatten, toolCount_append, systemMessages_count hsystem, hsent, requestContents,
    List.map_append, List.sum_append, Nat.zero_add] at hwithin
  generalize (requestMessages request).map messageContent = contents at hwithin ⊢
  have hle (content : Json) (_ : content ∈ contents) :
      (items content).countP isTool ≤ (blocksWithin content).countP isTool := by
    rw [countP_blocksWithin]
    exact Nat.le_add_right _ _
  have hsum := List.sum_le_sum hle
  constructor
  · intro content hcontent
    rw [hcontent] at hwithin
    simp only [Option.toList_some, List.map_cons, List.map_nil, List.sum_singleton] at hwithin
    omega
  · intro content hmem
    refine Nat.le_antisymm (Nat.not_lt.mp fun hlt => ?_) (hle content hmem)
    have hstrict := List.sum_lt_sum _ _ hle ⟨content, hmem, hlt⟩
    omega

theorem isTool_of_countP {blocks : List Json} (h : blocks.countP isTool = 0) :
    ∀ block ∈ blocks, isTool block = false := by
  intro block hblock
  simpa using List.countP_eq_zero.mp h block hblock

theorem representable_of_lossless {request out : Json}
    (h : anthropicToOpenai floatText newId request = .ok out)
    (hlossless : Lossless floatText request out) : Representable request := by
  obtain ⟨hsystem, hmessages⟩ := toolCounts_of_lossless h hlossless
  obtain ⟨carried, -, hcarries⟩ := hlossless
  have hwhole : ∀ content ∈ requestContents request, ∀ block ∈ blocksWithin content, BlockWhole block := by
    have hboth : List.Forall₂ (fun content part => (∀ block ∈ blocksWithin content, BlockWhole block) ∧
        Carries floatText content part) (requestContents request) carried :=
      hcarries.imp fun _ _ hcarried => ⟨hcarried.whole, hcarried⟩
    exact ((List.forall₂_and_left _ _).mp hboth).1
  constructor
  · intro content hcontent block hblock
    have hmem := mem_blocksWithin hblock
    have hcontents : content ∈ requestContents request :=
      List.mem_append_left _ (by rw [hcontent]; exact List.mem_singleton_self _)
    exact ⟨hwhole content hcontents block hmem,
      isTool_of_countP (hsystem content hcontent) block hmem⟩
  · intro message hmessage block hblock
    have hcontent := List.mem_map_of_mem (f := messageContent) hmessage
    have hcontents := List.mem_append_right (request.get "system").toList hcontent
    refine ⟨hwhole _ hcontents block (mem_blocksWithin hblock), fun hresult inner hinner => ?_⟩
    refine ⟨hwhole _ hcontents inner (mem_blocksWithin_nested hblock hresult hinner), ?_⟩
    have hcount := hmessages _ hcontent
    rw [countP_blocksWithin, Nat.add_eq_left, List.sum_eq_zero_iff_forall_eq_nat] at hcount
    have hnested := hcount _ (List.mem_map_of_mem hblock)
    refine isTool_of_countP hnested inner ?_
    rw [blocksNested_eq, if_pos hresult]
    exact mem_blocksWithin hinner

end

section

variable (floatText : Float → Text) (newId : Nat → Nat → Text)

/-- An accepted request keeps everything exactly when no block lacks its data and
no tool block stands where the translation does not look. -/
theorem anthropicToOpenai_lossless_iff (request out : Json)
    (h : anthropicToOpenai floatText newId request = .ok out) :
    Lossless floatText request out ↔ Representable request := by
  constructor
  · exact representable_of_lossless h
  · exact lossless_of_representable h

end

def oneMessage (role : String) (blocks : List Json) : Json :=
  .object [("messages".toList, .array [.object
    [("content".toList, .array blocks), ("role".toList, .text role)]])]

def messageText (text : String) : Json :=
  .object [("text".toList, .text text), ("type".toList, .text "text")]

def messageUse (id : String) : Json :=
  .object [("id".toList, .text id), ("input".toList, .object []), ("name".toList, .text "read"),
    ("type".toList, .text "tool_use")]

def messageResult (id : String) (blocks : List Json) : Json :=
  .object [("content".toList, .array blocks), ("tool_use_id".toList, .text id),
    ("type".toList, .text "tool_result")]

/-- A result and a question about it, in one message. -/
def answeredRequest : Json :=
  oneMessage "user" [messageResult "t1" [messageText "4"], messageText "and twice that?"]

theorem anthropicToOpenai_lossless_iff_answered :
    ∃ out, anthropicToOpenai (fun _ => []) (fun _ _ => []) answeredRequest = .ok out ∧
      Lossless (fun _ => []) answeredRequest out := by
  obtain ⟨out, hout⟩ := exists_of_isOk (show
    (anthropicToOpenai (fun _ => []) (fun _ _ => []) answeredRequest).isOk = true by
      decide +kernel)
  refine ⟨out, hout, (anthropicToOpenai_lossless_iff _ _ _ out hout).mpr ?_⟩
  decide +kernel

def fileImageRequest : Json :=
  oneMessage "user" [.object
    [("source".toList, .object [("file_id".toList, .text "f1"), ("type".toList, .text "file")]),
      ("type".toList, .text "image")]]

/-- A tool call inside the content of a tool result. -/
def nestedUseRequest : Json :=
  oneMessage "user" [messageResult "t1" [messageUse "t2"]]

theorem accepted_not_lossless :
    (∃ out, anthropicToOpenai (fun _ => []) (fun _ _ => []) fileImageRequest = .ok out ∧
      ¬ Lossless (fun _ => []) fileImageRequest out) ∧
    ∃ out, anthropicToOpenai (fun _ => []) (fun _ _ => []) nestedUseRequest = .ok out ∧
      ¬ Lossless (fun _ => []) nestedUseRequest out := by
  have hlost {request : Json}
      (hok : (anthropicToOpenai (fun _ => []) (fun _ _ => []) request).isOk = true)
      (hbroken : ¬ Representable request) :
      ∃ out, anthropicToOpenai (fun _ => []) (fun _ _ => []) request = .ok out ∧
        ¬ Lossless (fun _ => []) request out := by
    obtain ⟨out, hout⟩ := exists_of_isOk hok
    exact ⟨out, hout, fun hlossless => hbroken (representable_of_lossless hout hlossless)⟩
  constructor
  · exact hlost (by decide +kernel) (by decide +kernel)
  · exact hlost (by decide +kernel) (by decide +kernel)

end AioLM.Gateway
