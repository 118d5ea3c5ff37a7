import AioLM.AnthropicStream
import Mathlib.Data.List.Induction

/-!
When the block events of one streamed answer form a legal sequence, read as a
client reads them: blocks are numbered from 0 in the order they start, a delta
names a block of its own type, and every block is stopped once.
-/

set_option autoImplicit false

namespace AioLM.Gateway

inductive BlockKind where
  | thinking | text | toolUse
  deriving DecidableEq, Repr

def ContentBlock.kind : ContentBlock → BlockKind
  | .thinking _ => .thinking
  | .text _ => .text
  | .toolUse _ _ _ => .toolUse

def BlockDelta.kind : BlockDelta → BlockKind
  | .thinking _ => .thinking
  | .text _ => .text

/-- The kinds of the blocks started so far, in order of index, and the indexes
of the blocks stopped so far. -/
structure Blocks where
  started : List BlockKind
  stopped : List Nat
  deriving DecidableEq, Repr

/-- One event read by a client; `none` when it breaks the block rules. -/
def Blocks.read (blocks : Blocks) : Event → Option Blocks
  | .contentBlockStart index block =>
      if index = blocks.started.length then
        some { blocks with started := blocks.started ++ [block.kind] }
      else none
  | .contentBlockDelta index delta =>
      if blocks.started[index]? = some delta.kind ∧ index ∉ blocks.stopped then some blocks
      else none
  | .contentBlockStop index =>
      if index < blocks.started.length ∧ index ∉ blocks.stopped then
        some { blocks with stopped := index :: blocks.stopped }
      else none
  | .messageDelta _ _ _ | .messageStop | .error _ => some blocks

def Blocks.readAll (blocks : Blocks) : List Event → Option Blocks
  | [] => some blocks
  | event :: rest => (blocks.read event).bind (fun next => next.readAll rest)

def legalBlocks (events : List Event) : Bool :=
  match Blocks.readAll ⟨[], []⟩ events with
  | none => false
  | some blocks => (List.range blocks.started.length).all (· ∈ blocks.stopped)

theorem Blocks.readAll_append (blocks : Blocks) (xs ys : List Event) :
    blocks.readAll (xs ++ ys) = (blocks.readAll xs).bind (fun next => next.readAll ys) := by
  induction xs generalizing blocks with
  | nil => rfl
  | cons x xs ih =>
    cases hx : blocks.read x with
    | none => simp [readAll, hx]
    | some next => simp [readAll, hx, ih]

def Reasoned (values : List Json) : Prop := ∃ v ∈ values, (chunkReasoning v).isSome
def Answered (values : List Json) : Prop := ∃ v ∈ values, (chunkContent v).isSome

/-- The first reasoning text arrives after content text has arrived. -/
def LateReasoning (values : List Json) : Prop :=
  ∃ before value after, values = before ++ value :: after ∧
    (chunkReasoning value).isSome ∧ ¬ Reasoned before ∧ Answered before

/-- Which blocks a stream has started. `shared` is the case of a thinking block
started under the index 0 that a text block already has. -/
inductive Phase where
  | neither | thinking | text | both | shared
  deriving DecidableEq, Repr

namespace Phase

def indexes : Phase → Option Nat × Option Nat
  | .neither => (none, none)
  | .thinking => (some 0, none)
  | .text => (none, some 0)
  | .both => (some 0, some 1)
  | .shared => (some 0, some 0)

/-- What a client has read in this phase, when every event so far was legal. -/
def blocks : Phase → Option Blocks
  | .neither => some ⟨[], []⟩
  | .thinking => some ⟨[.thinking], []⟩
  | .text => some ⟨[.text], []⟩
  | .both => some ⟨[.thinking, .text], []⟩
  | .shared => none

def reason : Phase → Phase
  | .neither => .thinking
  | .text => .shared
  | p => p

def answer : Phase → Phase
  | .neither => .text
  | .thinking => .both
  | p => p

def next (p : Phase) (value : Json) : Phase :=
  let reasoned := if (chunkReasoning value).isSome then p.reason else p
  if (chunkContent value).isSome then reasoned.answer else reasoned

def after (p : Phase) (values : List Json) : Phase := values.foldl next p

end Phase

namespace OpenAiStream

def InPhase (self : OpenAiStream) (p : Phase) : Prop :=
  (self.thinkingIndex, self.textIndex) = p.indexes

theorem noteUsage_inPhase {self : OpenAiStream} {p : Phase} (h : self.InPhase p)
    (value : Json) : (self.noteUsage value).InPhase p := by
  unfold noteUsage
  split <;> exact h

theorem noteFinish_inPhase {self : OpenAiStream} {p : Phase} (h : self.InPhase p)
    (choice : Json) : (self.noteFinish choice).InPhase p := by
  unfold noteFinish
  split <;> exact h

theorem applyReasoning_phase {self : OpenAiStream} {p : Phase} (h : self.InPhase p)
    (delta : Json) :
    let q := if (reasoningText delta).isSome then p.reason else p
    (self.applyReasoning delta).1.InPhase q ∧
      p.blocks.bind (fun b => b.readAll (self.applyReasoning delta).2) = q.blocks := by
  obtain ⟨thinkingIndex, textIndex, finish, usage⟩ := self
  cases hr : reasoningText delta with
  | none => simpa [applyReasoning, hr, Blocks.readAll] using h
  | some text =>
    cases p <;> simp only [InPhase, Phase.indexes, Prod.mk.injEq] at h <;>
      obtain ⟨rfl, rfl⟩ := h <;>
      simp [applyReasoning, hr, InPhase, Phase.reason, Phase.indexes, Phase.blocks,
        Blocks.readAll, Blocks.read, ContentBlock.kind, BlockDelta.kind]

theorem applyContent_phase {self : OpenAiStream} {p : Phase} (h : self.InPhase p)
    (delta : Json) :
    let q := if (contentText delta).isSome then p.answer else p
    (self.applyContent delta).1.InPhase q ∧
      p.blocks.bind (fun b => b.readAll (self.applyContent delta).2) = q.blocks := by
  obtain ⟨thinkingIndex, textIndex, finish, usage⟩ := self
  cases hc : contentText delta with
  | none => simpa [applyContent, hc, Blocks.readAll] using h
  | some text =>
    cases p <;> simp only [InPhase, Phase.indexes, Prod.mk.injEq] at h <;>
      obtain ⟨rfl, rfl⟩ := h <;>
      simp [applyContent, hc, InPhase, Phase.answer, Phase.indexes, Phase.blocks,
        Blocks.readAll, Blocks.read, ContentBlock.kind, BlockDelta.kind]

/-- One chunk moves the stream to the next phase, and a client that has read
the blocks of one phase reads those of the next. -/
theorem apply_phase {self : OpenAiStream} {p : Phase} (h : self.InPhase p)
    (value : Json) :
    (self.apply value).1.InPhase (p.next value) ∧
      p.blocks.bind (fun b => b.readAll (self.apply value).2) = (p.next value).blocks := by
  have hu := noteUsage_inPhase h value
  cases hc : firstChoice value with
  | none =>
    simpa [apply, hc, Phase.next, chunkReasoning, chunkContent, Blocks.readAll] using hu
  | some choice =>
    have hf := noteFinish_inPhase hu choice
    cases hd : choice.get "delta" with
    | none =>
      simpa [apply, hc, hd, Phase.next, chunkReasoning, chunkContent, Blocks.readAll] using hf
    | some delta =>
      obtain ⟨hrp, hrb⟩ := applyReasoning_phase hf delta
      obtain ⟨hap, hab⟩ := applyContent_phase hrp delta
      refine ⟨?_, ?_⟩
      · simpa [apply, hc, hd, Phase.next, chunkReasoning, chunkContent] using hap
      · simp only [apply, hc, hd, Phase.next, chunkReasoning, chunkContent, Option.bind_some,
          Blocks.readAll_append]
        rw [← Option.bind_assoc, hrb, hab]

theorem applyAll_phase {self : OpenAiStream} {p : Phase} (h : self.InPhase p)
    (values : List Json) :
    (self.applyAll values).1.InPhase (p.after values) ∧
      p.blocks.bind (fun b => b.readAll (self.applyAll values).2) =
        (p.after values).blocks := by
  induction values generalizing self p with
  | nil => simpa [applyAll, Phase.after, Blocks.readAll] using h
  | cons value rest ih =>
    obtain ⟨hp, hb⟩ := apply_phase h value
    obtain ⟨hps, hbs⟩ := ih hp
    refine ⟨hps, ?_⟩
    simp only [applyAll, Blocks.readAll_append]
    rw [← Option.bind_assoc, hb, hbs]
    rfl

theorem readAll_closing (self : OpenAiStream) (blocks : Blocks) :
    blocks.readAll self.closing = some blocks := by
  unfold closing
  split <;> rfl

theorem finish_legal {self : OpenAiStream} {p : Phase} (h : self.InPhase p)
    {events : List Event} (hread : Blocks.readAll ⟨[], []⟩ events = p.blocks) :
    legalBlocks (events ++ self.finish) = true ↔ p ≠ .shared := by
  obtain ⟨thinkingIndex, textIndex, finish, usage⟩ := self
  cases p <;> simp only [InPhase, Phase.indexes, Prod.mk.injEq] at h <;>
    obtain ⟨rfl, rfl⟩ := h <;>
    simp [legalBlocks, Blocks.readAll_append, hread, Phase.blocks, OpenAiStream.finish,
      Blocks.readAll, Blocks.read, readAll_closing, List.range_succ]

end OpenAiStream

def Phase.Carried (values : List Json) : Phase → Prop
  | .neither => ¬ Reasoned values ∧ ¬ Answered values
  | .text => ¬ Reasoned values ∧ Answered values
  | .thinking | .both => Reasoned values ∧ ¬ LateReasoning values
  | .shared => LateReasoning values

theorem reasoned_concat (values : List Json) (value : Json) :
    Reasoned (values ++ [value]) ↔ Reasoned values ∨ (chunkReasoning value).isSome := by
  simp [Reasoned, or_and_right, exists_or]

theorem answered_concat (values : List Json) (value : Json) :
    Answered (values ++ [value]) ↔ Answered values ∨ (chunkContent value).isSome := by
  simp [Answered, or_and_right, exists_or]

theorem lateReasoning_concat (values : List Json) (value : Json) :
    LateReasoning (values ++ [value]) ↔ LateReasoning values ∨
      ((chunkReasoning value).isSome ∧ ¬ Reasoned values ∧ Answered values) := by
  constructor
  · rintro ⟨before, late, after, heq, hlate, hnone, hcontent⟩
    rcases List.eq_nil_or_concat after with rfl | ⟨init, last, rfl⟩
    · obtain ⟨rfl, hlast⟩ := List.append_inj' heq rfl
      obtain rfl : value = late := by simpa using hlast
      exact .inr ⟨hlate, hnone, hcontent⟩
    · have hsplit : values ++ [value] = (before ++ late :: init) ++ [last] := by
        simpa using heq
      obtain ⟨rfl, -⟩ := List.append_inj' hsplit rfl
      exact .inl ⟨before, late, init, rfl, hlate, hnone, hcontent⟩
  · rintro (⟨before, late, after, rfl, hlate, hnone, hcontent⟩ | ⟨hlate, hnone, hcontent⟩)
    · exact ⟨before, late, after ++ [value], by simp, hlate, hnone, hcontent⟩
    · exact ⟨values, value, [], rfl, hlate, hnone, hcontent⟩

theorem lateReasoning_reasoned {values : List Json} (h : LateReasoning values) :
    Reasoned values := by
  obtain ⟨before, late, after, rfl, hlate, -, -⟩ := h
  exact ⟨late, by simp, hlate⟩

theorem phase_carried (values : List Json) :
    (Phase.after .neither values).Carried values := by
  induction values using List.reverseRecOn with
  | nil => simp [Phase.after, Phase.Carried, Reasoned, Answered]
  | append_singleton values value ih =>
    have hlate := @lateReasoning_reasoned values
    have hnext : Phase.after .neither (values ++ [value]) =
        (Phase.after .neither values).next value := by simp [Phase.after]
    rw [hnext]
    -- Both sides only see whether the chunk carries reasoning and content.
    cases hp : Phase.after .neither values <;> rw [hp] at ih <;>
      by_cases hr : (chunkReasoning value).isSome <;>
      by_cases hc : (chunkContent value).isSome <;>
      simp only [Phase.next, hr, hc, if_true, if_false, Bool.false_eq_true, Phase.reason,
        Phase.answer, Phase.Carried, reasoned_concat, answered_concat,
        lateReasoning_concat] at ih ⊢ <;> tauto

theorem after_eq_shared_iff (values : List Json) :
    Phase.after .neither values = .shared ↔ LateReasoning values := by
  have hcarried := phase_carried values
  have hlate := @lateReasoning_reasoned values
  cases hp : Phase.after .neither values <;> rw [hp] at hcarried <;>
    simp only [Phase.Carried] at hcarried <;> simp <;> tauto

/-- The events of a stream form a legal block stream exactly when reasoning,
if any, starts no later than the content. -/
theorem streamEvents_legal_iff (values : List Json) :
    legalBlocks (streamEvents values) = true ↔ ¬ LateReasoning values := by
  have hstart : OpenAiStream.InPhase {} .neither := rfl
  obtain ⟨hphase, hread⟩ := OpenAiStream.applyAll_phase hstart values
  unfold streamEvents
  rw [OpenAiStream.finish_legal hphase (by simpa [Phase.blocks] using hread), Ne,
    after_eq_shared_iff]

def deltaChunk (field : String) (text : String) : Json :=
  .object [("choices".toList, .array [.object
    [("delta".toList, .object [(field.toList, .text text)])]])]

/-- Content before reasoning: both blocks get index 0. -/
theorem content_before_reasoning_illegal :
    legalBlocks (streamEvents
      [deltaChunk "content" "Hi", deltaChunk "reasoning_content" "Hm"]) = false := by
  decide

end AioLM.Gateway
