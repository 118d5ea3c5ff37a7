import AioLM.BenchmarkRecords
import AioLM.Effects
import AioLM.JsonText
import AioLM.LogLines

/-!
The benchmark store: one append-only journal a run, receipts of accepted uploads and
tombstones of deleted runs beside them.
-/

set_option autoImplicit false

namespace AioLM.Benchmark

open Fallible Json

variable {π : Type} (pkg : Packages π)

def newline : UInt8 := 10

def JournalOrigin.json : JournalOrigin → Json
  | .native => .text "native"
  | .legacy => .text "legacy"

/-- The tag first, then the fields as they are declared. -/
def Entry.json : Entry → Json
  | .start record origin => .object ([("kind".toList, .text "start"), ("record".toList, record)] ++
      (origin.map fun source => ("origin".toList, source.json)).toList)
  | .metadata result => .object [("kind".toList, .text "metadata"), ("result".toList, result)]
  | .trial row => .object [("kind".toList, .text "trial"), ("row".toList, row)]
  | .finish result => .object [("kind".toList, .text "finish"), ("result".toList, result)]

def Entry.line (entry : Entry) : Bytes := toVec pkg entry.json

def encoded (entry : Entry) : Bytes := entry.line pkg ++ [newline]

structure PerformanceBenchResult (π : Type) where
  runId : Text
  rows : List PerformanceBenchRow
  status : Text
  message : Option Text
  args : List Text
  provenance : Option π

def optionalJson {α : Type} (f : α → Json) (x : Option α) : Json := (x.map f).getD .null

/-- A number that is not finite is stored as null. -/
def floatJson (x : Float) : Json := if pkg.finite x then .number (.float x) else .null

def natJson (n : Nat) : Json := Json.int n

def PerformanceBenchRow.json (row : PerformanceBenchRow) : Json :=
  .object [
    ("concurrency".toList, natJson row.concurrency),
    ("content_bytes".toList, natJson row.contentBytes),
    ("e2e_ms".toList, floatJson pkg row.e2eMs),
    ("error".toList, optionalJson .string row.error),
    ("failed".toList, .bool row.failed),
    ("finish_reasons".toList, .array (row.finishReasons.map .string)),
    ("first_content_ms".toList, optionalJson (floatJson pkg) row.firstContentMs),
    ("first_output_ms".toList, optionalJson (floatJson pkg) row.firstOutputMs),
    ("first_reasoning_ms".toList, optionalJson (floatJson pkg) row.firstReasoningMs),
    ("id".toList, .string row.id),
    ("input_bytes".toList, natJson row.inputBytes),
    ("max_output_tokens".toList, natJson row.maxOutputTokens),
    ("output_bytes".toList, natJson row.outputBytes),
    ("peak_memory_bytes".toList, optionalJson natJson row.peakMemoryBytes),
    ("reasoning_bytes".toList, natJson row.reasoningBytes),
    ("repetition".toList, natJson row.repetition),
    ("reported_cached_tokens".toList, optionalJson natJson row.reportedCachedTokens),
    ("reported_completion_tokens".toList, optionalJson natJson row.reportedCompletionTokens),
    ("reported_prompt_tokens".toList, optionalJson natJson row.reportedPromptTokens),
    ("timing_source".toList, .string row.timingSource),
    ("usage_status".toList, .string row.usageStatus)]

def metadataFields (result : PerformanceBenchResult π) : List (Text × Json) :=
  [("args".toList, .array (result.args.map .string)),
    ("message".toList, optionalJson .string result.message)] ++
  (result.provenance.map fun p => ("provenance".toList, pkg.provenanceJson p)).toList ++
  [("run_id".toList, .string result.runId), ("status".toList, .string result.status)]

def metadata (result : PerformanceBenchResult π) : Json := .object (metadataFields pkg result)

structure Replay where
  record : Option Json := none
  origin : Option JournalOrigin := none
  finished : Bool := false

structure ReplayedRun where
  record : Json
  origin : Option JournalOrigin
  finalized : Bool

def mapResult (f : List (Text × Json) → List (Text × Json)) : Json → Option Json
  | .object fields =>
    match lookup "result".toList fields with
    | some (.object result) => some (.object (insertField "result" (.object (f result)) fields))
    | _ => none
  | _ => none

def mergeFields (result target : List (Text × Json)) : List (Text × Json) :=
  result.foldl
    (fun t e => if e.1 = "rows".toList then t else KeyMap.alterEntries e.1 (fun _ => e.2) t) target

def updateResult (record : Option Json) (result : Json) : Except Text Json := do
  let target ← orError (record.bind fun record => (mapResult id record).map fun _ => record)
    "benchmark metadata is missing its start event".toList
  let fields ← orError result.asObject "benchmark metadata must be an object".toList
  orError (mapResult (mergeFields fields) target)
    "benchmark metadata is missing its start event".toList

def pushRow (row record : Json) : Option Json :=
  ((record.pointer "result" "rows").bind asArray).bind fun rows =>
    mapResult (insertField "rows" (.array (rows ++ [row]))) record

def replayEntry (state : Replay) : Entry → Except Text Replay
  | .start initial source => do
    require (state.record.isNone = true)
      "benchmark journal contains duplicate start events".toList
    validateRecord pkg initial
    return { state with record := some initial, origin := source }
  | .trial row => do
    let serving := (state.record.bind (get "schemaVersion")).bind asU64 = some 2
    require ((if serving then validServingRow pkg row else validRow pkg row) = true)
      "benchmark journal contains an invalid trial".toList
    let record ← orError (state.record.bind (pushRow row))
      "benchmark trial is missing its start event".toList
    return { state with record := some record, finished := false }
  | .metadata result => do
    let record ← updateResult state.record result
    return { state with record := some record, finished := false }
  | .finish result => do
    let record ← updateResult state.record result
    return { state with record := some record, finished := true }

def replayLine (state : Replay) (line : Bytes) : Except Text Replay := do
  let entry ← (pkg.readEntry (line ++ [newline])).mapError
    ("benchmark journal contains a corrupt event: ".toList ++ ·)
  replayEntry pkg state entry

def interruption : Text :=
  "benchmark was interrupted before finalization; persisted measurements were recovered".toList

def hasRows (record : Json) : Bool :=
  ((record.pointer "result" "rows").bind asArray).any fun rows => !rows.isEmpty

/-- A run that never finished keeps its measurements under another status. -/
def interrupted (record : Json) : Json :=
  (mapResult (fun result => insertField "message" (.string interruption)
    (insertField "status" (.text (if hasRows record then "partial" else "failed")) result))
    record).getD record

def replayRun (bytes : Bytes) : Except Text ReplayedRun := do
  require (bytes.length ≤ maxJournalBytes)
    "benchmark journal exceeds the storage size limit".toList
  let state ← (Framing.lines newline bytes).foldlM (replayLine pkg) {}
  let record ← orError state.record "benchmark journal has no complete start event".toList
  let shown := if state.finished then record else interrupted record
  validateRecord pkg shown
  return {
    record := shown
    origin := state.origin
    finalized := state.finished && (Framing.rest newline bytes).isEmpty }

section Journals

variable {pkg}

/-- What the readers of the package are relied on for: they give back what was written. -/
def Readable (pkg : Packages π) (entry : Entry) : Prop :=
  pkg.readEntry (encoded pkg entry) = .ok entry

theorem newline_line (hfloat : ∀ x, '\n' ∉ pkg.floatText x) (entry : Entry) :
    newline ∉ entry.line pkg :=
  TextBytes.newline_encode (newline_compact hfloat _)

theorem flatMap_encoded (events : List Entry) :
    events.flatMap (encoded pkg) = Framing.joinLines newline (events.map (Entry.line pkg)) := by
  rw [Framing.joinLines, List.flatMap_map]
  rfl

theorem foldlM_replayLine {events : List Entry} (hread : ∀ entry ∈ events, Readable pkg entry)
    (state : Replay) :
    (events.map (Entry.line pkg)).foldlM (replayLine pkg) state =
      events.foldlM (replayEntry pkg) state := by
  induction events generalizing state with
  | nil => rfl
  | cons entry events ih =>
    obtain ⟨hentry, hevents⟩ := List.forall_mem_cons.mp hread
    rw [List.map_cons, List.foldlM_cons, List.foldlM_cons]
    have hline : replayLine pkg state (entry.line pkg) = replayEntry pkg state entry := by
      rw [replayLine]
      have hback : pkg.readEntry (entry.line pkg ++ [newline]) = .ok entry := hentry
      rw [hback]
      rfl
    rw [hline]
    exact bind_congr fun state' => ih hevents state'

theorem replayRun_joinLines (hfloat : ∀ x, '\n' ∉ pkg.floatText x) {events : List Entry}
    (hread : ∀ entry ∈ events, Readable pkg entry) {tail : Bytes} (htail : newline ∉ tail)
    (hfits : (events.flatMap (encoded pkg) ++ tail).length ≤ maxJournalBytes) {state : Replay}
    (hstate : events.foldlM (replayEntry pkg) {} = .ok state) {record : Json}
    (hrecord : state.record = some record) {shown : Json}
    (hshown : shown = if state.finished then record else interrupted record)
    (hvalid : validateRecord pkg shown = .ok ()) :
    replayRun pkg (events.flatMap (encoded pkg) ++ tail) = .ok {
      record := shown
      origin := state.origin
      finalized := state.finished && tail.isEmpty } := by
  have hframes := Framing.frames_joinLines newline
    (events.map (Entry.line pkg)) tail
    (fun line hline => by
      obtain ⟨entry, -, rfl⟩ := List.mem_map.mp hline
      exact newline_line hfloat entry) htail
  rw [replayRun, require, if_pos hfits, flatMap_encoded, hframes.1, hframes.2,
    foldlM_replayLine hread, hstate]
  simp only [bind, Except.bind, hrecord, orError_some, ← hshown, hvalid]
  rfl

theorem replayRun_too_long {bytes : Bytes} (h : maxJournalBytes < bytes.length) :
    replayRun pkg bytes = .error "benchmark journal exceeds the storage size limit".toList := by
  rw [replayRun, require, if_neg (by omega)]
  rfl

end Journals

section Fields

variable {f : List (Text × Json) → List (Text × Json)} {fields result target : List (Text × Json)}
  {record : Json}

theorem mapResult_object (h : lookup "result".toList fields = some (.object result)) :
    mapResult f (.object fields) =
      some (.object (insertField "result" (.object (f result)) fields)) := by
  simp only [mapResult, h]

theorem mergeFields_self (hsorted : Sorted target)
    (h : ∀ e ∈ result, e.1 ≠ "rows".toList → lookup e.1 target = some e.2) :
    mergeFields result target = target := by
  induction result with
  | nil => rfl
  | cons e result ih =>
    obtain ⟨he, hresult⟩ := List.forall_mem_cons.mp h
    rw [mergeFields, List.foldl_cons]
    split
    · exact ih hresult
    · rename_i hrows
      rw [hsorted.alter_self (he hrows)]
      exact ih hresult

end Fields

end AioLM.Benchmark
