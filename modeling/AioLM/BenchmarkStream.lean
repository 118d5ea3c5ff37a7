import AioLM.BenchmarkRecords
import AioLM.Durations
import AioLM.SseFramer

/-!
The measurement of one streamed completion: the server's events update what is
observed of the output and of the usage, and only a stream that was ended by the
server is measured.
-/

set_option autoImplicit false

namespace AioLM.Benchmark

open Fallible Json Durations

def MAX_RESPONSE_BYTES : Nat := 8 * 1024 * 1024

/-- A reading of the monotonic clock, in nanoseconds since its origin. -/
abbrev Instant := Fin durations

/-- `Instant::duration_since` is zero for a later instant. -/
def Instant.durationSince (at' earlier : Instant) : Nat := at'.val - earlier.val

theorem Instant.durationSince_lt (at' earlier : Instant) :
    at'.durationSince earlier < durations :=
  lt_of_le_of_lt (Nat.sub_le _ _) at'.isLt

theorem Instant.durationSince_mono {a b : Instant} (h : a ≤ b) (earlier : Instant) :
    a.durationSince earlier ≤ b.durationSince earlier :=
  Nat.sub_le_sub_right h _

structure Measurement where
  contentBytes : Nat
  reasoningBytes : Nat
  firstOutputMs : Option Float
  firstContentMs : Option Float
  firstReasoningMs : Option Float
  reportedPromptTokens : Option Nat
  reportedCompletionTokens : Option Nat
  reportedCachedTokens : Option Nat
  usageStatus : Text
  finishReason : Text
  finished : Instant

inductive Usage where
  | missing
  | invalid
  | counters (prompt completion cached : Option Nat)
  deriving DecidableEq

namespace Usage

def counter : Option Json → Except Unit (Option Nat)
  | none => .ok none
  | some v => (orError (v.asU64.filter (· ≤ maxSafeInteger)) ()).map some

def cachedTokens (v : Json) : Except Unit (Option Nat) :=
  match (v.get "prompt_tokens_details").filter (!·.isNull) with
  | none => .ok none
  | some details => do
    require (details.isObject = true) ()
    counter (details.get "cached_tokens")

def totalFits (total prompt completion : Option Nat) : Prop :=
  ∀ t ∈ total, (∀ p ∈ prompt, p ≤ t) ∧ (∀ c ∈ completion, c ≤ t) ∧
    ∀ p ∈ prompt, ∀ c ∈ completion, p + c = t

instance (total prompt completion : Option Nat) : Decidable (totalFits total prompt completion) := by
  unfold totalFits
  infer_instance

def parse (v : Json) : Except Unit Usage := do
  require (v.isObject = true) ()
  let prompt ← counter (v.get "prompt_tokens")
  let completion ← counter (v.get "completion_tokens")
  let total ← counter (v.get "total_tokens")
  let cached ← cachedTokens v
  require (∀ c ∈ cached, ∀ p ∈ prompt, c ≤ p) ()
  require (totalFits total prompt completion) ()
  return .counters prompt completion cached

def snapshot (v : Json) : Usage := (parse v).toOption.getD .invalid

def fields : Usage → Option Nat × Option Nat × Option Nat × Text
  | .missing => (none, none, none, "missing".toList)
  | .invalid => (none, none, none, "invalid".toList)
  | .counters prompt completion cached =>
    (prompt, completion, cached,
      if prompt.isSome ∧ completion.isSome ∧ cached.isSome then "complete".toList
      else if prompt.isSome ∨ completion.isSome ∨ cached.isSome then "partial".toList
      else "missing".toList)

end Usage

structure Observed where
  contentBytes : Nat := 0
  reasoningBytes : Nat := 0
  firstContent : Option Instant := none
  firstReasoning : Option Instant := none
  usage : Usage := .missing
  finishReason : Option Text := none
  finished : Option Instant := none
  deriving DecidableEq

def channel (value : Option Json) (now : Instant) (bytes : Nat) (first : Option Instant) :
    Except Text (Nat × Option Instant) :=
  match value.filter (!·.isNull) with
  | none => .ok (bytes, first)
  | some value => do
    let text ← orError value.asStr "benchmark stream returned non-text output".toList
    return (bytes + text.utf8Len, if text = [] then first else some (first.getD now))

def finishReasonOf (reason : Json) : Text :=
  match reason.asStr with
  | some t =>
    if t ∈ ["stop".toList, "length".toList, "content_filter".toList, "tool_calls".toList] then t
    else "other".toList
  | none => "other".toList

namespace Observed

def delta (delta : Json) (now : Instant) (observed : Observed) : Except Text Observed := do
  require (delta.isObject = true) "benchmark stream returned an invalid delta".toList
  let (contentBytes, firstContent) ←
    channel (delta.get "content") now observed.contentBytes observed.firstContent
  let (reasoningBytes, firstReasoning) ←
    channel ((delta.get "reasoning_content").orElse fun _ => delta.get "reasoning") now
      observed.reasoningBytes observed.firstReasoning
  return { observed with contentBytes, reasoningBytes, firstContent, firstReasoning }

def choice (choice : Json) (now : Instant) (observed : Observed) : Except Text Observed := do
  require (choice.isObject = true) "benchmark stream returned an invalid choice".toList
  require (∀ index ∈ choice.get "index", index.asU64 = some 0)
    "benchmark stream returned an unexpected choice index".toList
  let observed :=
    match (choice.get "finish_reason").filter (!·.isNull) with
    | some reason => { observed with finishReason := some (finishReasonOf reason) }
    | none => observed
  match (choice.get "delta").filter (!·.isNull) with
  | some delta => observed.delta delta now
  | none => return observed

def choices (choices : Json) (now : Instant) (observed : Observed) : Except Text Observed := do
  let items ← orError choices.asArray
    "benchmark SSE data has invalid completion choices".toList
  require (items.length ≤ 1) "benchmark stream returned multiple completion choices".toList
  match items with
  | [] => return observed
  | item :: _ => observed.choice item now

section Stream

-- `serde_json::from_str`
variable (parse : Text → Except Text Json)

def event (data : Text) (eventType : Option Text) (now : Instant) (observed : Observed) :
    Except Text (Observed × Bool) := do
  require (eventType ≠ some "error".toList) "runtime returned an SSE error event".toList
  if data = "[DONE]".toList then
    return ({ observed with finished := some now }, true)
  let value ← (parse data).mapError ("invalid benchmark SSE JSON: ".toList ++ ·)
  require (value.isObject = true) "benchmark SSE data is not an object".toList
  require (∀ error ∈ value.get "error", error.isNull = true)
    "runtime returned a completion error".toList
  -- A snapshot replaces the entire preceding one.
  let observed :=
    match (value.get "usage").filter (!·.isNull) with
    | some usage => { observed with usage := Usage.snapshot usage }
    | none => observed
  match value.get "choices" with
  | none => return (observed, false)
  | some choices => return (← observed.choices choices now, false)

def events (now : Instant) : List Sse.Emitted → Observed → Except Text (Observed × Bool)
  | [], observed => .ok (observed, false)
  | (data, eventType) :: rest, observed => do
    let (observed, stop) ← observed.event parse data eventType now
    if stop then return (observed, true) else events now rest observed

def firstOutput (observed : Observed) : Option Instant :=
  match observed.firstContent, observed.firstReasoning with
  | some content, some reasoning => some (min content reasoning)
  | content, reasoning => content.or reasoning

def measurement (started : Instant) (observed : Observed) : Except Text Measurement := do
  let finished ← orError observed.finished "benchmark stream ended before [DONE]".toList
  let latency : Option Instant → Option Float :=
    Option.map fun at' => millis (at'.durationSince started)
  let (prompt, completion, cached, status) := observed.usage.fields
  return {
    contentBytes := observed.contentBytes
    reasoningBytes := observed.reasoningBytes
    firstOutputMs := latency observed.firstOutput
    firstContentMs := latency observed.firstContent
    firstReasoningMs := latency observed.firstReasoning
    reportedPromptTokens := prompt
    reportedCompletionTokens := completion
    reportedCachedTokens := cached
    usageStatus := status
    finishReason := observed.finishReason.getD "not_reported".toList
    finished }

end Stream

end Observed

structure CompletionStream where
  framing : Sse.Framer := {}
  observed : Observed := {}

namespace CompletionStream

variable (parse : Text → Except Text Json)

def push (bytes : Bytes) (now : Instant) (stream : CompletionStream) :
    Except Text (CompletionStream × Bool) :=
  let emit (emitted : List Sse.Emitted) : Except Text Bool :=
    (stream.observed.events parse now emitted).map (·.2)
  match Sse.Session.push emit MAX_RESPONSE_BYTES bytes ⟨stream.framing, []⟩ with
  | (_, .error message) => .error message
  | (session, .ok stop) =>
    (stream.observed.events parse now session.emitted).map fun r => (⟨session.framer, r.1⟩, stop)

def feed : List (Bytes × Instant) → CompletionStream → Except Text CompletionStream
  | [], stream => .ok stream
  | (bytes, now) :: chunks, stream => do
    let (stream, stop) ← stream.push parse bytes now
    if stop then return stream else feed chunks stream

/-- Only a terminator that was seen makes a request complete. -/
def complete (started : Instant) (stream : CompletionStream) : Except Text Measurement :=
  stream.observed.measurement started

end CompletionStream

def Usage.Sound : Usage → Prop
  | .counters prompt _ cached => ∀ c ∈ cached, ∀ p ∈ prompt, c ≤ p
  | _ => True

structure Observed.Sound (observed : Observed) : Prop where
  usage : observed.usage.Sound
  content : observed.firstContent.isSome → observed.contentBytes ≠ 0
  reasoning : observed.firstReasoning.isSome → observed.reasoningBytes ≠ 0
  reason : ∀ r ∈ observed.finishReason, r ∈ PerformanceBenchRow.finishReasonNames

theorem sound_fresh : ({} : Observed).Sound :=
  ⟨trivial, fun h => absurd h (by decide), fun h => absurd h (by decide), fun _ h => by cases h⟩

theorem Usage.sound_snapshot (v : Json) : (Usage.snapshot v).Sound := by
  unfold Usage.snapshot
  cases hparsed : Usage.parse v with
  | error _ => trivial
  | ok usage =>
    unfold Usage.parse at hparsed
    obtain ⟨_, -, h⟩ := bind_eq_ok.mp hparsed
    obtain ⟨prompt, -, h⟩ := bind_eq_ok.mp h
    obtain ⟨completion, -, h⟩ := bind_eq_ok.mp h
    obtain ⟨total, -, h⟩ := bind_eq_ok.mp h
    obtain ⟨cached, -, h⟩ := bind_eq_ok.mp h
    obtain ⟨_, hcached, h⟩ := bind_eq_ok.mp h
    obtain ⟨_, -, h⟩ := bind_eq_ok.mp h
    cases h
    have hle := require_eq_ok.mp hcached
    exact hle

theorem channel_sound {value : Option Json} {now : Instant} {bytes bytes' : Nat}
    {first first' : Option Instant} (h : channel value now bytes first = .ok (bytes', first'))
    (hfirst : first.isSome → bytes ≠ 0) : first'.isSome → bytes' ≠ 0 := by
  unfold channel at h
  split at h
  · cases h
    exact hfirst
  · obtain ⟨text, -, h⟩ := bind_eq_ok.mp h
    cases h
    intro hsome
    by_cases hempty : text = []
    · rw [if_pos hempty] at hsome
      have := hfirst hsome
      omega
    · obtain ⟨c, rest, rfl⟩ := List.exists_cons_of_ne_nil hempty
      have hpos := c.utf8Size_pos
      rw [Text.utf8Len_cons]
      omega

theorem finishReasonOf_mem (v : Json) : finishReasonOf v ∈ PerformanceBenchRow.finishReasonNames := by
  unfold finishReasonOf PerformanceBenchRow.finishReasonNames
  split
  · split_ifs with hmem
    · exact List.mem_append_left ["other".toList, "not_reported".toList] hmem
    · decide
  · decide

namespace Observed

variable {parse : Text → Except Text Json} {observed observed' : Observed} {now : Instant}

theorem Sound.delta {v : Json} (h : observed.Sound) (hdelta : observed.delta v now = .ok observed') :
    observed'.Sound := by
  unfold Observed.delta at hdelta
  obtain ⟨_, -, hdelta⟩ := bind_eq_ok.mp hdelta
  obtain ⟨⟨contentBytes, firstContent⟩, hcontent, hdelta⟩ := bind_eq_ok.mp hdelta
  obtain ⟨⟨reasoningBytes, firstReasoning⟩, hreasoning, hdelta⟩ := bind_eq_ok.mp hdelta
  cases hdelta
  exact ⟨h.usage, channel_sound hcontent h.content, channel_sound hreasoning h.reasoning, h.reason⟩

theorem Sound.choice {v : Json} (h : observed.Sound)
    (hchoice : observed.choice v now = .ok observed') : observed'.Sound := by
  unfold Observed.choice at hchoice
  obtain ⟨_, -, hchoice⟩ := bind_eq_ok.mp hchoice
  obtain ⟨_, -, hchoice⟩ := bind_eq_ok.mp hchoice
  generalize hnext : (match (v.get "finish_reason").filter (!·.isNull) with
    | some reason => { observed with finishReason := some (finishReasonOf reason) }
    | none => observed) = next at hchoice
  have hsound : next.Sound := by
    subst hnext
    split
    · refine ⟨h.usage, h.content, h.reasoning, fun r hr => ?_⟩
      cases hr
      exact finishReasonOf_mem _
    · exact h
  split at hchoice
  · exact hsound.delta hchoice
  · cases hchoice
    exact hsound

theorem Sound.choices {v : Json} (h : observed.Sound)
    (hchoices : observed.choices v now = .ok observed') : observed'.Sound := by
  unfold Observed.choices at hchoices
  obtain ⟨items, -, hchoices⟩ := bind_eq_ok.mp hchoices
  obtain ⟨_, -, hchoices⟩ := bind_eq_ok.mp hchoices
  split at hchoices
  · cases hchoices
    exact h
  · exact h.choice hchoices

theorem Sound.event {data : Text} {eventType : Option Text} {stop : Bool} (h : observed.Sound)
    (hevent : observed.event parse data eventType now = .ok (observed', stop)) :
    observed'.Sound := by
  unfold Observed.event at hevent
  obtain ⟨_, -, hevent⟩ := bind_eq_ok.mp hevent
  split at hevent
  · cases hevent
    exact ⟨h.usage, h.content, h.reasoning, h.reason⟩
  obtain ⟨value, -, hevent⟩ := bind_eq_ok.mp hevent
  obtain ⟨_, -, hevent⟩ := bind_eq_ok.mp hevent
  obtain ⟨_, -, hevent⟩ := bind_eq_ok.mp hevent
  generalize hnext : (match (value.get "usage").filter (!·.isNull) with
    | some usage => { observed with usage := Usage.snapshot usage }
    | none => observed) = next at hevent
  have hsound : next.Sound := by
    subst hnext
    split
    · exact ⟨Usage.sound_snapshot _, h.content, h.reasoning, h.reason⟩
    · exact h
  split at hevent
  · cases hevent
    exact hsound
  · obtain ⟨last, hchoices, hevent⟩ := bind_eq_ok.mp hevent
    cases hevent
    exact hsound.choices hchoices

theorem Sound.events {emitted : List Sse.Emitted} {stop : Bool} (h : observed.Sound)
    (hevents : observed.events parse now emitted = .ok (observed', stop)) : observed'.Sound := by
  induction emitted generalizing observed with
  | nil =>
    cases hevents
    exact h
  | cons e rest ih =>
    obtain ⟨data, eventType⟩ := e
    unfold Observed.events at hevents
    obtain ⟨⟨next, stop'⟩, hevent, hevents⟩ := bind_eq_ok.mp hevents
    have hnext := h.event hevent
    cases stop' with
    | true =>
      cases hevents
      exact hnext
    | false => exact ih hnext hevents

end Observed

namespace CompletionStream

variable {parse : Text → Except Text Json} {stream stream' : CompletionStream}

theorem push_sound {bytes : Bytes} {now : Instant} {stop : Bool} (h : stream.observed.Sound)
    (hpush : stream.push parse bytes now = .ok (stream', stop)) : stream'.observed.Sound := by
  unfold push at hpush
  dsimp only at hpush
  split at hpush
  · cases hpush
  · rename_i session _ _
    cases hevents : stream.observed.events parse now session.emitted with
    | error message =>
      rw [hevents] at hpush
      cases hpush
    | ok r =>
      rw [hevents] at hpush
      cases hpush
      exact h.events hevents

theorem feed_sound {chunks : List (Bytes × Instant)} (h : stream.observed.Sound)
    (hfeed : stream.feed parse chunks = .ok stream') : stream'.observed.Sound := by
  induction chunks generalizing stream with
  | nil =>
    cases hfeed
    exact h
  | cons c chunks ih =>
    obtain ⟨bytes, now⟩ := c
    unfold feed at hfeed
    obtain ⟨⟨next, stop⟩, hpush, hfeed⟩ := bind_eq_ok.mp hfeed
    have hnext := push_sound h hpush
    cases stop with
    | true =>
      cases hfeed
      exact hnext
    | false => exact ih hnext hfeed

end CompletionStream

def measured (parse : Text → Except Text Json) (started : Instant)
    (chunks : List (Bytes × Instant)) : Except Text Measurement := do
  let stream ← CompletionStream.feed parse chunks {}
  stream.complete started

/-- The status says which counters are known. -/
inductive Measurement.UsageSound : Measurement → Prop where
  | invalid {m : Measurement} (h : m.usageStatus = "invalid".toList) : m.UsageSound
  | complete {m : Measurement} (h : m.usageStatus = "complete".toList)
      (hprompt : m.reportedPromptTokens.isSome) (hcompletion : m.reportedCompletionTokens.isSome)
      (hcached : m.reportedCachedTokens.isSome) : m.UsageSound
  | partly {m : Measurement} (h : m.usageStatus = "partial".toList)
      (hnone : m.reportedPromptTokens = none ∨ m.reportedCompletionTokens = none ∨
        m.reportedCachedTokens = none) : m.UsageSound
  | missing {m : Measurement} (h : m.usageStatus = "missing".toList)
      (hprompt : m.reportedPromptTokens = none) (hcompletion : m.reportedCompletionTokens = none)
      (hcached : m.reportedCachedTokens = none) : m.UsageSound

structure Measurement.Sound (m : Measurement) : Prop where
  usage : m.UsageSound
  cached : ∀ c ∈ m.reportedCachedTokens, ∀ p ∈ m.reportedPromptTokens, c ≤ p
  content : m.firstContentMs.isSome → m.contentBytes ≠ 0
  reasoning : m.firstReasoningMs.isSome → m.reasoningBytes ≠ 0
  output : m.firstOutputMs.isSome → m.firstContentMs.isSome ∨ m.firstReasoningMs.isSome
  times : ∀ t, m.firstOutputMs = some t ∨ m.firstContentMs = some t ∨
    m.firstReasoningMs = some t → 0 ≤ t
  ordered : ∀ t, m.firstContentMs = some t ∨ m.firstReasoningMs = some t →
    ∃ first, m.firstOutputMs = some first ∧ first ≤ t
  reason : m.finishReason ∈ PerformanceBenchRow.finishReasonNames

theorem usageSound_of_fields {usage : Usage} {m : Measurement}
    (h : usage.fields = (m.reportedPromptTokens, m.reportedCompletionTokens,
      m.reportedCachedTokens, m.usageStatus)) : m.UsageSound := by
  cases usage with
  | missing =>
    simp only [Usage.fields, Prod.mk.injEq] at h
    exact .missing h.2.2.2.symm h.1.symm h.2.1.symm h.2.2.1.symm
  | invalid =>
    simp only [Usage.fields, Prod.mk.injEq] at h
    exact .invalid h.2.2.2.symm
  | counters prompt completion cached =>
    simp only [Usage.fields, Prod.mk.injEq] at h
    obtain ⟨rfl, rfl, rfl, hstatus⟩ := h
    split_ifs at hstatus with hall hany
    · exact .complete hstatus.symm hall.1 hall.2.1 hall.2.2
    · refine .partly hstatus.symm ?_
      simp only [Option.isSome_iff_ne_none] at hall
      tauto
    · simp only [not_or, Option.not_isSome_iff_eq_none] at hany
      exact .missing hstatus.symm hany.1 hany.2.1 hany.2.2

section Measured

variable {observed : Observed} {started : Instant} {m : Measurement}

theorem Observed.firstOutput_le {at' : Instant}
    (h : observed.firstContent = some at' ∨ observed.firstReasoning = some at') :
    ∃ first, observed.firstOutput = some first ∧ first ≤ at' := by
  unfold Observed.firstOutput
  rcases h with h | h <;> rw [h]
  · cases observed.firstReasoning with
    | none => exact ⟨at', rfl, le_refl _⟩
    | some other => exact ⟨_, rfl, min_le_left _ _⟩
  · cases observed.firstContent with
    | none => exact ⟨at', rfl, le_refl _⟩
    | some other => exact ⟨_, rfl, min_le_right _ _⟩

theorem Observed.some_of_firstOutput (h : observed.firstOutput.isSome) :
    observed.firstContent.isSome ∨ observed.firstReasoning.isSome := by
  unfold Observed.firstOutput at h
  cases hcontent : observed.firstContent with
  | some _ => exact .inl rfl
  | none =>
    cases hreasoning : observed.firstReasoning with
    | some _ => exact .inr rfl
    | none =>
      rw [hcontent, hreasoning] at h
      exact absurd h (by decide)

theorem Observed.Sound.measurement (h : observed.Sound)
    (hm : observed.measurement started = .ok m) : m.Sound := by
  unfold Observed.measurement at hm
  obtain ⟨finished, -, hm⟩ := bind_eq_ok.mp hm
  rcases hfields : observed.usage.fields with ⟨prompt, completion, cached, status⟩
  rw [hfields] at hm
  cases hm
  have hlatency {at' : Option Instant} {t : Float}
      (ht : at'.map (fun x => millis (x.durationSince started)) = some t) :
      ∃ x, at' = some x ∧ millis (x.durationSince started) = t := Option.map_eq_some_iff.mp ht
  refine ⟨usageSound_of_fields hfields, ?_, ?_, ?_, ?_, ?_, ?_, ?_⟩
  · have husage := h.usage
    cases hu : observed.usage with
    | missing =>
      rw [hu] at hfields
      cases hfields
      exact fun _ h => by cases h
    | invalid =>
      rw [hu] at hfields
      cases hfields
      exact fun _ h => by cases h
    | counters p c k =>
      rw [hu] at hfields husage
      cases hfields
      exact husage
  · intro hsome
    exact h.content (by simpa using hsome)
  · intro hsome
    exact h.reasoning (by simpa using hsome)
  · intro hsome
    simpa using observed.some_of_firstOutput (by simpa using hsome)
  · intro t ht
    rcases ht with ht | ht | ht <;> obtain ⟨x, -, rfl⟩ := hlatency ht <;>
      exact zero_le_millis (x.durationSince_lt started)
  · intro t ht
    have hat : ∃ x, (observed.firstContent = some x ∨ observed.firstReasoning = some x) ∧
        millis (x.durationSince started) = t := by
      rcases ht with ht | ht
      · obtain ⟨x, hx, heq⟩ := hlatency ht
        exact ⟨x, .inl hx, heq⟩
      · obtain ⟨x, hx, heq⟩ := hlatency ht
        exact ⟨x, .inr hx, heq⟩
    obtain ⟨x, hx, rfl⟩ := hat
    obtain ⟨first, hfirst, hle⟩ := observed.firstOutput_le hx
    refine ⟨millis (first.durationSince started), by rw [hfirst]; rfl, ?_⟩
    exact millis_mono (Instant.durationSince_mono hle started) (x.durationSince_lt started)
  · cases hreason : observed.finishReason with
    | none =>
      have hmem : "not_reported".toList ∈ PerformanceBenchRow.finishReasonNames := by decide
      exact hmem
    | some r => exact h.reason r hreason

theorem measured_sound {parse : Text → Except Text Json} {chunks : List (Bytes × Instant)}
    (h : measured parse started chunks = .ok m) : m.Sound := by
  obtain ⟨stream, hfeed, hcomplete⟩ := bind_eq_ok.mp h
  exact (CompletionStream.feed_sound sound_fresh hfeed).measurement hcomplete

end Measured

end AioLM.Benchmark
