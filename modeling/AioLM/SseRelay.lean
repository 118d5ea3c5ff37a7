import AioLM.AnthropicStream
import AioLM.Utf8Cuts

/-!
The loops of `stream_response` and `stream_responses` over the chunks of an
upstream answer, up to the JSON values they apply, and what those values are in
terms of the whole text received.
-/

set_option autoImplicit false

namespace AioLM.Gateway

open Framing

def maxStreamPendingBytes : Nat := 4 * 1024 * 1024

/-- `take_sse_line`, with a cursor that counts characters. -/
def takeSseLine (pending : Text) (cursor : Nat) : Option (Text × Nat) :=
  let unread := pending.drop cursor
  if '\n' ∈ unread then
    let line := unread.takeWhile (fun c => c ≠ '\n')
    some (Text.trimEndMatches (fun c => c = '\r') line, cursor + line.length + 1)
  else none

theorem takeSseLine_advances {pending : Text} {cursor : Nat} {line : Text} {next : Nat}
    (h : takeSseLine pending cursor = some (line, next)) :
    cursor < next ∧ cursor < pending.length := by
  simp only [takeSseLine] at h
  split at h
  · rename_i hmem
    simp only [Option.some.injEq, Prod.mk.injEq] at h
    refine ⟨by omega, ?_⟩
    by_contra hlen
    rw [List.drop_eq_nil_of_le (by omega)] at hmem
    simp at hmem
  · simp at h

inductive LineOutcome where
  | other
  | done
  | value (v : Json)

section
variable (decode : Text → Option Json)

/-- What a loop body makes of one line. `decode` is the JSON parser. -/
def readLine (line : Text) : LineOutcome :=
  match Text.stripPrefix "data:".toList line with
  | none => .other
  | some data =>
    if Text.trim data = "[DONE]".toList then .done
    else
      match decode (Text.trim data) with
      | some v => .value v
      | none => .other

/-- The inner loop: the values applied and the cursor it leaves. `stops` tells
whether `[DONE]` breaks the loop or continues it. -/
def drainLines (stops : Bool) (pending : Text) (cursor : Nat) : List Json × Nat :=
  match _h : takeSseLine pending cursor with
  | none => ([], cursor)
  | some (line, next) =>
    match readLine decode line with
    | .done => if stops then ([], next) else drainLines stops pending next
    | .other => drainLines stops pending next
    | .value v =>
        (v :: (drainLines stops pending next).1, (drainLines stops pending next).2)
termination_by pending.length - cursor
decreasing_by
  all_goals
    have := takeSseLine_advances _h
    omega

/-- The unterminated last line, unless `skips` knows it. -/
def tailValues (skips : Text → Bool) (pending : Text) : List Json :=
  if Text.trim pending = [] ∨ skips (Text.trim pending) then []
  else
    match Text.stripPrefix "data:".toList (Text.trim pending) with
    | none => []
    | some data => (decode (Text.trim data)).toList

structure Relayed where
  applied : List Json
  error : Option Text

def relayFrom (stops : Bool) (skips : Text → Bool) (pending : Text) :
    List (List UInt8) → Relayed
  | [] => ⟨tailValues decode skips pending, none⟩
  | chunk :: chunks =>
    let pending := pending ++ Utf8.lossy chunk
    if maxStreamPendingBytes < Text.utf8Len pending then
      ⟨[], some "upstream SSE line exceeded the 4 MiB limit".toList⟩
    else
      let drained := drainLines decode stops pending 0
      let later := relayFrom stops skips (pending.drop drained.2) chunks
      ⟨drained.1 ++ later.applied, later.error⟩

def streamResponse (chunks : List (List UInt8)) : Relayed :=
  relayFrom decode true (fun tail => tail = "data: [DONE]".toList) [] chunks

def streamResponses (chunks : List (List UInt8)) : Relayed :=
  relayFrom decode false (fun _ => false) [] chunks

end

structure ResponseStreamState where
  text : Text := []
  reasoning : Text := []
  usage : Option Json := none

inductive ResponseDelta where
  | reasoning (delta : Text)
  | output (delta : Text)

def responseUsage (value : Json) : Json :=
  let count (field : String) : Json :=
    .int (((value.get "usage").bind (fun usage => usage.get field)).bind Json.asU64 |>.getD 0)
  .object [("input_tokens".toList, count "prompt_tokens"),
    ("output_tokens".toList, count "completion_tokens"),
    ("total_tokens".toList, count "total_tokens")]

/-- `ResponseStreamState::apply`, with the deltas it writes. -/
def ResponseStreamState.apply (self : ResponseStreamState) (value : Json) :
    ResponseStreamState × List ResponseDelta :=
  let reasoning := (chunkReasoning value).getD []
  let text := (chunkContent value).getD []
  ({ text := self.text ++ text
     reasoning := self.reasoning ++ reasoning
     usage := if (value.get "usage").any Json.isObject then some (responseUsage value)
              else self.usage },
    (if reasoning = [] then [] else [.reasoning reasoning]) ++
      if text = [] then [] else [.output text])

def ResponseStreamState.applyAll (self : ResponseStreamState) :
    List Json → ResponseStreamState × List ResponseDelta
  | [] => (self, [])
  | value :: rest =>
      ((self.apply value).1.applyAll rest |>.1,
        (self.apply value).2 ++ ((self.apply value).1.applyAll rest).2)

/-- The block events of `stream_response`. -/
def messageEvents (relayed : Relayed) : List Event := streamEvents relayed.applied

def responseDeltas (relayed : Relayed) : List ResponseDelta :=
  (ResponseStreamState.applyAll {} relayed.applied).2

section
variable (decode : Text → Option Json)

def lineValue (line : Text) : Option Json :=
  match readLine decode (Text.trimEndMatches (fun c => c = '\r') line) with
  | .value v => some v
  | _ => none

def textValues (skips : Text → Bool) (t : Text) : List Json :=
  (lines '\n' t).filterMap (lineValue decode) ++ tailValues decode skips (rest '\n' t)

end

def IsDone (line : Text) : Prop :=
  ∃ data, Text.stripPrefix "data:".toList
      (Text.trimEndMatches (fun c => c = '\r') line) = some data ∧
    Text.trim data = "[DONE]".toList

instance : DecidablePred IsDone := fun line =>
  decidable_of_iff (((Text.stripPrefix "data:".toList
      (Text.trimEndMatches (fun c => c = '\r') line)).any fun data =>
    Text.trim data = "[DONE]".toList) = true) (by
      rw [Option.any_eq_true]
      simp only [decide_eq_true_eq]
      exact Iff.rfl)

variable {decode : Text → Option Json}

theorem readLine_done {line : Text}
    (h : readLine decode (Text.trimEndMatches (fun c => c = '\r') line) = .done) :
    IsDone line := by
  unfold readLine at h
  split at h
  · simp at h
  · rename_i data hdata
    split at h
    · exact ⟨data, hdata, by assumption⟩
    · split at h <;> simp at h

theorem textValues_append {skips : Text → Bool} {consumed : Text} (h : rest '\n' consumed = [])
    (t : Text) : textValues decode skips (consumed ++ t) =
      (lines '\n' consumed).filterMap (lineValue decode) ++ textValues decode skips t := by
  obtain ⟨hlines, hrest⟩ := frames_append '\n' consumed t
  simp [textValues, hlines, hrest, h]

/-- How the inner loop leaves the unread text: without a complete line, or
right after a line that ended the answer. -/
structure Drained (decode : Text → Option Json) (stops : Bool) (unread consumed left : Text)
    (values : List Json) : Prop where
  split : unread = consumed ++ left
  whole : rest '\n' consumed = []
  values_eq : values = (lines '\n' consumed).filterMap (lineValue decode)
  ended : '\n' ∉ left ∨ (stops = true ∧ ∃ before line, consumed = before ++ line ++ ['\n'] ∧
    rest '\n' before = [] ∧ '\n' ∉ line ∧ IsDone line)

theorem takeSseLine_line {pending line after : Text} {cursor : Nat}
    (hunread : pending.drop cursor = line ++ '\n' :: after) (hline : '\n' ∉ line) :
    takeSseLine pending cursor =
        some (Text.trimEndMatches (fun c => c = '\r') line, cursor + line.length + 1) ∧
      pending.drop (cursor + line.length + 1) = after := by
  have hne : ∀ c ∈ line, decide (c ≠ '\n') = true := by
    intro c hc
    simp only [ne_eq, decide_not, Bool.not_eq_true', decide_eq_false_iff_not]
    exact fun heq => hline (heq ▸ hc)
  have htake : (line ++ '\n' :: after).takeWhile (fun c => c ≠ '\n') = line := by
    rw [List.takeWhile_append_of_pos hne]
    simp
  have hmem : '\n' ∈ line ++ '\n' :: after := by simp
  refine ⟨by simp only [takeSseLine, hunread, hmem, if_true, htake], ?_⟩
  rw [Nat.add_assoc, ← List.drop_drop, hunread, ← List.drop_drop, List.drop_left']
  · simp
  · rfl

theorem Drained.line {stops : Bool} {line consumed left : Text} {values : List Json}
    (hline : '\n' ∉ line) {unread : Text} (h : Drained decode stops unread consumed left values) :
    Drained decode stops (line ++ '\n' :: unread) (line ++ '\n' :: consumed) left
      ((lineValue decode line).toList ++ values) where
  split := by simp [h.split]
  whole := by rw [rest_line hline, h.whole]
  values_eq := by
    rw [lines_line hline, List.filterMap_cons, h.values_eq]
    cases lineValue decode line <;> rfl
  ended := by
    rcases h.ended with hleft | ⟨hstops, before, last, rfl, hbefore, hlast, hdone⟩
    · exact .inl hleft
    · exact .inr ⟨hstops, line ++ '\n' :: before, last, by simp,
        by rw [rest_line hline, hbefore], hlast, hdone⟩

theorem drainLines_drained (decode : Text → Option Json) (stops : Bool)
    (pending unread : Text) :
    ∀ cursor, pending.drop cursor = unread → ∃ consumed,
      Drained decode stops unread consumed
        (pending.drop (drainLines decode stops pending cursor).2)
        (drainLines decode stops pending cursor).1 := by
  induction unread using frames_induction '\n' with
  | hrest unread h =>
    intro cursor hunread
    have htake : takeSseLine pending cursor = none := by simp [takeSseLine, hunread, h]
    have hdrain : drainLines decode stops pending cursor = ([], cursor) := by
      rw [drainLines]
      split
      · rfl
      · rename_i hsome
        simp [htake] at hsome
    rw [hdrain]
    refine ⟨[], ?_, rfl, rfl, .inl ?_⟩
    · simp [hunread]
    · rwa [hunread]
  | hline line unread hline ih =>
    intro cursor hunread
    obtain ⟨htake, hnext⟩ := takeSseLine_line hunread hline
    obtain ⟨consumed, hdrained⟩ := ih _ hnext
    rw [drainLines]
    split
    · rename_i hnone
      simp [htake] at hnone
    · rename_i read next hsome
      rw [htake] at hsome
      obtain ⟨rfl, rfl⟩ : Text.trimEndMatches (fun c => c = '\r') line = read ∧
        cursor + line.length + 1 = next := by simpa using hsome
      have hlater := hdrained.line hline
      have hvalue : lineValue decode line =
          match readLine decode (Text.trimEndMatches (fun c => c = '\r') line) with
          | .value v => some v
          | _ => none := rfl
      split
      · rename_i hread
        rw [hread] at hvalue
        split
        · rename_i hstops
          refine ⟨line ++ ['\n'], by simp [hnext], ?_, ?_, .inr ⟨hstops, [], line, by simp, rfl,
            hline, readLine_done hread⟩⟩
          · rw [rest_line hline]
            rfl
          · rw [lines_line hline]
            simp [lines, frames, hvalue]
        · exact ⟨_, by simpa [hvalue] using hlater⟩
      · rename_i hread
        rw [hread] at hvalue
        exact ⟨_, by simpa [hvalue] using hlater⟩
      · rename_i v hread
        rw [hread] at hvalue
        exact ⟨_, by simpa [hvalue] using hlater⟩

def dataWord : Text := "data:".toList

theorem dataWord_trimCr {line : Text} :
    dataWord <+: Text.trimEndMatches (fun c => c = '\r') line ↔ dataWord <+: line :=
  Text.isPrefix_trimEndMatches_iff (x := ':') (by decide) "data".toList

theorem lineValue_of_not_data {line : Text} (h : ¬ dataWord <+: line) :
    lineValue decode line = none := by
  have hnone : Text.stripPrefix "data:".toList
      (Text.trimEndMatches (fun c => c = '\r') line) = none :=
    Text.stripPrefix_eq_none.mpr (mt dataWord_trimCr.mp h)
  simp only [lineValue, readLine, hnone]

theorem tailValues_of_not_data {skips : Text → Bool} {t : Text}
    (h : ¬ dataWord <+: Text.trim t) : tailValues decode skips t = [] := by
  have hnone : Text.stripPrefix "data:".toList (Text.trim t) = none :=
    Text.stripPrefix_eq_none.mpr h
  simp only [tailValues, hnone, ite_self]

/-- Text without any data: blanks, and what is left of cut blanks. -/
def Harmless (t : Text) : Prop := ∀ c ∈ t, Text.isWhitespace c = true ∨ c = Utf8.replacement

theorem Harmless.no_data {t : Text} (h : Harmless t) : ¬ dataWord <+: t := by
  intro hdata
  have hd : 'd' ∈ t := hdata.subset (by decide)
  rcases h 'd' hd with hblank | heq
  · exact absurd hblank (by decide)
  · exact absurd heq (by decide)

theorem mem_of_mem_lines {t line : Text} {c : Char} (hline : line ∈ lines '\n' t)
    (hc : c ∈ line) : c ∈ t := by
  induction t using frames_induction '\n' with
  | hrest t h => simp [lines_of_not_mem h] at hline
  | hline first t h ih =>
    rw [lines_line h] at hline
    rcases List.mem_cons.mp hline with rfl | hline
    · exact List.mem_append_left _ hc
    · exact List.mem_append_right _ (List.mem_cons_of_mem _ (ih hline))

theorem mem_of_mem_rest {t : Text} {c : Char} (hc : c ∈ rest '\n' t) : c ∈ t := by
  induction t using frames_induction '\n' with
  | hrest t h => rwa [rest_of_not_mem h] at hc
  | hline first t h ih =>
    rw [rest_line h] at hc
    exact List.mem_append_right _ (List.mem_cons_of_mem _ (ih hc))

theorem Harmless.trim {t : Text} (h : Harmless t) : Harmless (Text.trim t) := by
  obtain ⟨before, after, hsplit, -, -⟩ := Text.trim_split t
  intro c hc
  refine h c ?_
  rw [hsplit]
  simp [hc]

theorem Harmless.tailValues {t : Text} (h : Harmless t) (skips : Text → Bool) :
    Gateway.tailValues decode skips t = [] :=
  tailValues_of_not_data h.trim.no_data

theorem Harmless.textValues {t : Text} (h : Harmless t) (skips : Text → Bool) :
    Gateway.textValues decode skips t = [] := by
  have hrest : Harmless (rest '\n' t) := fun c hc => h c (mem_of_mem_rest hc)
  rw [Gateway.textValues, hrest.tailValues, List.append_nil, List.filterMap_eq_nil_iff]
  intro line hline
  have hharmless : Harmless line := fun c hc => h c (mem_of_mem_lines hline hc)
  exact lineValue_of_not_data hharmless.no_data

/-- After a line that ends the answer nothing but blanks follows. -/
def QuietAfterDone (t : Text) : Prop :=
  ∀ before line after, t = before ++ line ++ '\n' :: after → rest '\n' before = [] →
    '\n' ∉ line → IsDone line → Harmless after

theorem QuietAfterDone.suffix {consumed t : Text} (h : QuietAfterDone (consumed ++ t))
    (hwhole : rest '\n' consumed = []) : QuietAfterDone t := by
  intro before line after ht hbefore hline hdone
  refine h (consumed ++ before) line after (by simp [ht]) ?_ hline hdone
  rw [(frames_append '\n' consumed before).2, hwhole, List.nil_append, hbefore]

/-- A loop that runs to its end has applied the values of the whole text, however
it arrived, unless it stopped at a line with data behind it. -/
theorem relayFrom_applied {stops : Bool} {skips : Text → Bool} (chunks : List (List UInt8))
    (pending : Text) (hok : (relayFrom decode stops skips pending chunks).error = none)
    (hpending : '\n' ∉ pending ∨ Harmless (pending ++ chunks.flatMap Utf8.lossy))
    (hquiet : stops = true → QuietAfterDone (pending ++ chunks.flatMap Utf8.lossy)) :
    (relayFrom decode stops skips pending chunks).applied =
      textValues decode skips (pending ++ chunks.flatMap Utf8.lossy) := by
  induction chunks generalizing pending with
  | nil =>
    simp only [relayFrom, List.flatMap_nil, List.append_nil] at hpending ⊢
    rcases hpending with hline | hharmless
    · simp [textValues, lines_of_not_mem hline, rest_of_not_mem hline]
    · rw [hharmless.tailValues, hharmless.textValues]
  | cons chunk chunks ih =>
    simp only [relayFrom] at hok ⊢
    split at hok
    · simp at hok
    · rename_i hfits
      obtain ⟨consumed, hdrained⟩ :=
        drainLines_drained decode stops (pending ++ Utf8.lossy chunk) _ 0 rfl
      rw [List.drop_zero] at hdrained
      generalize hleft : (pending ++ Utf8.lossy chunk).drop
        (drainLines decode stops (pending ++ Utf8.lossy chunk) 0).2 = left at hdrained hok ⊢
      have hall : pending ++ (chunk :: chunks).flatMap Utf8.lossy =
          consumed ++ (left ++ chunks.flatMap Utf8.lossy) := by
        rw [List.flatMap_cons, ← List.append_assoc, hdrained.split, List.append_assoc]
      rw [hall] at hquiet ⊢
      rw [if_neg hfits, textValues_append hdrained.whole, ← hdrained.values_eq]
      refine congrArg (_ ++ ·) (ih left hok ?_
        (fun hstops => (hquiet hstops).suffix hdrained.whole))
      rcases hdrained.ended with hline | ⟨hstops, before, line, rfl, hbefore, hline, hdone⟩
      · exact .inl hline
      · exact .inr (hquiet hstops before line _ (by simp) hbefore hline hdone)

end AioLM.Gateway
