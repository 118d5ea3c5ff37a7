import Mathlib.Data.Char
import Mathlib.Data.List.Lex
import Mathlib.Data.List.Sort
import AioLM.Fallible
import AioLM.JsonFields
import AioLM.JsonStructs
import AioLM.TextBytes

/-!
What a benchmark record must satisfy: the serving records of today and the legacy
records that are only read.
-/

set_option autoImplicit false

namespace AioLM.Benchmark

open Fallible Json

def maxJournalBytes : Nat := 16 * 1024 * 1024

def maxRecordBytes : Nat := 4 * 1024 * 1024

def maxSafeInteger : Nat := 9007199254740991

def unwrapNone : Text := "called `Option::unwrap()` on a `None` value".toList

/-- What a provenance says about the workload it was captured for. -/
structure ServingWorkload where
  inputs : List Nat
  maxOutputTokens : Nat
  concurrencies : List Nat
  repetitions : Nat
  warmup : Bool
  requestUsage : Bool
  deriving DecidableEq

inductive JournalOrigin where
  | native | legacy
  deriving DecidableEq

inductive Entry where
  | start (record : Json) (origin : Option JournalOrigin)
  | metadata (result : Json)
  | trial (row : Json)
  | finish (result : Json)

/-- What the packages and the other modules compute: the text of a float, whether it is
finite and not negative, the hexadecimal SHA-256, the reader of one line of a journal, the
reader's message for a value it refuses, and the provenances `π` with their readers and
validators. -/
structure Packages (π : Type) where
  floatText : Float → Text
  finite : Float → Bool
  nonnegative : Float → Bool
  sha256 : Bytes → Text
  readEntry : Bytes → Except Text Entry
  refusal : Json → Text
  readProvenance : Json → Except Text π
  provenanceJson : π → Json
  validateProvenance : π → Text → Except Text Unit
  workload : π → ServingWorkload
  memoryUnavailable : π → Bool
  legacyProvenance : Json → Except Text (Text → Except Text Unit)

variable {π : Type} (pkg : Packages π)

/-- `serde_json::to_vec` -/
def toVec (v : Json) : Bytes := TextBytes.encode (v.compact pkg.floatText)

def time (x : Float) : Bool := pkg.finite x && pkg.nonnegative x

def measure (v : Json) : Bool := v.asF64.any (time pkg)

def positive (v : Json) : Bool := v.asU64.any (0 < ·)

/-- The legacy trial -/
def validRow (row : Json) : Bool :=
  (((row.get "id").bind asStr).any fun id => id ≠ []) &&
  (["prompt_tokens", "generation_length", "concurrency", "repetition"].all fun name =>
    (row.get name).any positive) &&
  (["completion_tokens", "cached_tokens", "e2e_ms"].all fun name =>
    (row.get name).any (measure pkg)) &&
  (["ttft_ms", "tpot_ms", "pp_tps", "tg_tps", "total_tps", "peak_memory_bytes"].all fun name =>
    (row.get name).any fun v => v.isNull || measure pkg v) &&
  (((row.get "timing_source").bind asStr).any fun t =>
    ["client".toList, "server".toList].contains t) &&
  ((row.get "error").all fun v => v.isNull || v.isString)

structure PerformanceBenchRow where
  id : Text
  inputBytes : Nat
  maxOutputTokens : Nat
  concurrency : Nat
  repetition : Nat
  firstOutputMs : Option Float
  firstContentMs : Option Float
  firstReasoningMs : Option Float
  e2eMs : Float
  contentBytes : Nat
  reasoningBytes : Nat
  outputBytes : Nat
  reportedPromptTokens : Option Nat
  reportedCompletionTokens : Option Nat
  reportedCachedTokens : Option Nat
  usageStatus : Text
  finishReasons : List Text
  peakMemoryBytes : Option Nat
  timingSource : Text
  failed : Bool
  error : Option Text

namespace PerformanceBenchRow

def names : List String :=
  ["id", "input_bytes", "max_output_tokens", "concurrency", "repetition", "first_output_ms",
    "first_content_ms", "first_reasoning_ms", "e2e_ms", "content_bytes", "reasoning_bytes",
    "output_bytes", "reported_prompt_tokens", "reported_completion_tokens",
    "reported_cached_tokens", "usage_status", "finish_reasons", "peak_memory_bytes",
    "timing_source", "failed", "error"]

def ofJson (v : Json) : Option PerformanceBenchRow := do
  let field ← structFields true names v
  return {
    id := ← (field "id").bind asStr
    inputBytes := ← (field "input_bytes").bind asU32
    maxOutputTokens := ← (field "max_output_tokens").bind asU32
    concurrency := ← (field "concurrency").bind asU32
    repetition := ← (field "repetition").bind asU32
    firstOutputMs := ← asOptional asF64 (field "first_output_ms")
    firstContentMs := ← asOptional asF64 (field "first_content_ms")
    firstReasoningMs := ← asOptional asF64 (field "first_reasoning_ms")
    e2eMs := ← (field "e2e_ms").bind asF64
    contentBytes := ← (field "content_bytes").bind asU64
    reasoningBytes := ← (field "reasoning_bytes").bind asU64
    outputBytes := ← (field "output_bytes").bind asU64
    reportedPromptTokens := ← asOptional asU64 (field "reported_prompt_tokens")
    reportedCompletionTokens := ← asOptional asU64 (field "reported_completion_tokens")
    reportedCachedTokens := ← asOptional asU64 (field "reported_cached_tokens")
    usageStatus := ← (field "usage_status").bind asStr
    finishReasons := ← (field "finish_reasons").bind (asList asStr)
    peakMemoryBytes := ← asOptional asU64 (field "peak_memory_bytes")
    timingSource := ← (field "timing_source").bind asStr
    failed := ← (field "failed").bind asBool
    error := ← asOptional asStr (field "error") }

variable (row : PerformanceBenchRow)

def reported : List (Option Nat) :=
  [row.reportedPromptTokens, row.reportedCompletionTokens, row.reportedCachedTokens]

def finishReasonNames : List Text :=
  ["stop".toList, "length".toList, "content_filter".toList, "tool_calls".toList, "other".toList,
    "not_reported".toList]

/-- How much of the usage was reported is what the status says. -/
def usageFits : Bool :=
  if row.usageStatus = "complete".toList then row.reported.all Option.isSome
  else if row.usageStatus = "partial".toList then row.reported.any Option.isNone
  else if row.usageStatus = "missing".toList ∨ row.usageStatus = "invalid".toList then
    row.reported.all Option.isNone
  else false

def counter (n : Option Nat) : Bool := n.all (· ≤ maxSafeInteger)

def validate : Bool :=
  row.id ≠ [] && row.id.utf8Len ≤ 256 &&
  (256 ≤ row.inputBytes && row.inputBytes ≤ 1048576) &&
  (1 ≤ row.maxOutputTokens && row.maxOutputTokens ≤ 65536) &&
  (1 ≤ row.concurrency && row.concurrency ≤ 64) &&
  (1 ≤ row.repetition && row.repetition ≤ 100) &&
  time pkg row.e2eMs &&
  ([row.firstOutputMs, row.firstContentMs, row.firstReasoningMs].all fun v => v.all (time pkg)) &&
  row.contentBytes ≤ maxSafeInteger && row.reasoningBytes ≤ maxSafeInteger &&
  row.contentBytes + row.reasoningBytes = row.outputBytes &&
  row.outputBytes ≤ maxSafeInteger &&
  (row.contentBytes ≠ 0 || row.firstContentMs.isNone) &&
  (row.reasoningBytes ≠ 0 || row.firstReasoningMs.isNone) &&
  (row.outputBytes ≠ 0 || row.firstOutputMs.isNone) &&
  counter row.reportedPromptTokens && counter row.reportedCompletionTokens &&
  counter row.reportedCachedTokens &&
  (row.reportedCachedTokens.all fun cached => row.reportedPromptTokens.all (cached ≤ ·)) &&
  row.usageFits &&
  row.finishReasons.length = row.concurrency &&
  (row.finishReasons.all fun v => finishReasonNames.contains v) &&
  counter row.peakMemoryBytes &&
  row.timingSource = "client".toList && !row.failed && row.error.isNone

end PerformanceBenchRow

def validServingRow (row : Json) : Bool :=
  (PerformanceBenchRow.ofJson row).any (PerformanceBenchRow.validate pkg)

def contextProfiles : List Text :=
  ["code_python".toList, "code_mixed".toList, "novel_ko".toList, "novel_en".toList,
    "novel_ja".toList]

structure LegacyRequest where
  runId : Text
  promptLengths : List Nat
  generationLength : Nat
  batchSizes : List Nat
  repetitions : Nat
  contextProfile : Text
  warmup : Bool

namespace LegacyRequest

def names : List String :=
  ["run_id", "prompt_lengths", "generation_length", "batch_sizes", "repetitions",
    "context_profile", "warmup"]

def ofJson (v : Json) : Option LegacyRequest := do
  let field ← structFields false names v
  return {
    runId := ← (field "run_id").bind asStr
    promptLengths := ← (field "prompt_lengths").bind (asList asU32)
    generationLength := ← (field "generation_length").bind asU32
    batchSizes := ← asDefaulted [] (asList asU32) (field "batch_sizes")
    repetitions := ← (field "repetitions").bind asU32
    contextProfile := ← (field "context_profile").bind asStr
    warmup := ← (field "warmup").bind asBool }

def validate (request : LegacyRequest) : Except Text Unit := do
  require (request.runId ≠ [] ∧ request.runId.utf8Len ≤ 128)
    "benchmark run_id must contain 1 to 128 bytes".toList
  require (request.promptLengths ≠ [] ∧ request.promptLengths.length ≤ 16 ∧
      ∀ n ∈ request.promptLengths, 1 ≤ n ∧ n ≤ 200000)
    "select 1 to 16 prompt lengths between 1 and 200000 tokens".toList
  require ((1 ≤ request.generationLength ∧ request.generationLength ≤ 4096) ∧
      1 ≤ request.repetitions ∧ request.repetitions ≤ 10)
    "generation length must be 1 to 4096 and repetitions 1 to 10".toList
  require (request.batchSizes.length ≤ 3 ∧ ∀ n ∈ request.batchSizes, n ∈ [2, 4, 8])
    "batch sizes must be selected from 2, 4 and 8".toList
  require (request.contextProfile ∈ contextProfiles) "unknown benchmark context profile".toList

end LegacyRequest

structure ServingMethod where
  id : Text
  version : Nat

def ServingMethod.ofJson (v : Json) : Option ServingMethod := do
  let field ← structFields true ["id", "version"] v
  return {
    id := ← (field "id").bind asStr
    version := ← (field "version").bind asU32 }

structure PerformanceBenchRequest where
  runId : Text
  method : ServingMethod
  contextProfile : Text
  promptBytes : List Nat
  maxOutputTokens : Nat
  concurrencies : List Nat
  repetitions : Nat
  warmup : Bool
  requestUsage : Bool

namespace PerformanceBenchRequest

def names : List String :=
  ["run_id", "method", "context_profile", "prompt_bytes", "max_output_tokens", "concurrencies",
    "repetitions", "warmup", "request_usage"]

def ofJson (v : Json) : Option PerformanceBenchRequest := do
  let field ← structFields true names v
  return {
    runId := ← (field "run_id").bind asStr
    method := ← (field "method").bind ServingMethod.ofJson
    contextProfile := ← (field "context_profile").bind asStr
    promptBytes := ← (field "prompt_bytes").bind (asList asU32)
    maxOutputTokens := ← (field "max_output_tokens").bind asU32
    concurrencies := ← (field "concurrencies").bind (asList asU32)
    repetitions := ← (field "repetitions").bind asU32
    warmup := ← (field "warmup").bind asBool
    requestUsage := ← (field "request_usage").bind asBool }

end PerformanceBenchRequest

def validateRequest (request : PerformanceBenchRequest) : Except Text PerformanceBenchRequest := do
  require (request.runId ≠ [] ∧ request.runId.utf8Len ≤ 128)
    "benchmark run_id must contain 1 to 128 bytes".toList
  require (request.method.id = "openai-chat-serving".toList ∧ request.method.version = 1)
    "unsupported benchmark method".toList
  require (request.contextProfile ∈ contextProfiles) "unknown benchmark context profile".toList
  require (request.promptBytes ≠ [] ∧ request.promptBytes.length ≤ 64 ∧
      ∀ n ∈ request.promptBytes, 256 ≤ n ∧ n ≤ 1048576)
    "select 1 to 64 input sizes between 256 and 1048576 UTF-8 bytes".toList
  require (request.concurrencies ≠ [] ∧ request.concurrencies.length ≤ 64 ∧
      ∀ n ∈ request.concurrencies, 1 ≤ n ∧ n ≤ 64)
    "select 1 to 64 concurrencies between 1 and 64".toList
  require ((1 ≤ request.maxOutputTokens ∧ request.maxOutputTokens ≤ 65536) ∧
      1 ≤ request.repetitions ∧ request.repetitions ≤ 100)
    "maximum output tokens must be 1 to 65536 and repetitions 1 to 100".toList
  let sorted := { request with
    promptBytes := request.promptBytes.insertionSort (· ≤ ·)
    concurrencies := request.concurrencies.insertionSort (· ≤ ·) }
  -- A repeated point is rejected rather than dropped from the workload.
  require ((∀ p ∈ sorted.promptBytes.zip sorted.promptBytes.tail, p.1 ≠ p.2) ∧
      (∀ p ∈ sorted.concurrencies.zip sorted.concurrencies.tail, p.1 ≠ p.2) ∧
      sorted.promptBytes.length * sorted.concurrencies.length ≤ 64)
    "select at most 64 unique input/concurrency operating points".toList
  return sorted

def servingEnvelope (record : Json) : Except Text Text := do
  let id ← orError ((record.get "id").bind asStr) "benchmark record is missing its id".toList
  require (id ≠ [] ∧ id.utf8Len ≤ 128 ∧
      ((record.get "createdAt").bind asU64).any (· ≤ 8640000000000000) = true ∧
      (record.get "model").any isString = true)
    "invalid benchmark record envelope".toList
  return id

def statuses : List Text :=
  ["complete".toList, "partial".toList, "failed".toList, "cancelled".toList]

def resultStatus (record : Json) : Option Text := (record.pointer "result" "status").bind asStr

/-- The result's own fields, whatever the request. -/
def resultFits (record : Json) (id : Text) : Prop :=
  (record.pointer "result" "run_id").bind asStr = some id ∧
  ((record.pointer "result" "args").bind asArray).any (fun args => args.all isString) = true ∧
  (record.pointer "result" "message").all (fun v => v.isNull || v.isString) = true ∧
  (resultStatus record).any (statuses.contains ·) = true

instance (record : Json) (id : Text) : Decidable (resultFits record id) := by
  unfold resultFits
  infer_instance

abbrev Point := Nat × Nat × Nat × Nat

/-- `row["name"].as_u64().unwrap()` -/
def cell (row : Json) (name : String) : Except Text Nat :=
  orError ((row.get name).bind asU64) unwrapNone

def point (row : Json) : Except Text Point := do
  let input ← cell row "input_bytes"
  let concurrency ← cell row "concurrency"
  let cap ← cell row "max_output_tokens"
  let repetition ← cell row "repetition"
  return (input, concurrency, cap, repetition)

def inGrid (request : PerformanceBenchRequest) : Point → Prop
  | (input, concurrency, cap, repetition) =>
    input ∈ request.promptBytes ∧ concurrency ∈ request.concurrencies ∧
      cap = request.maxOutputTokens ∧ repetition ≤ request.repetitions

instance (request : PerformanceBenchRequest) : DecidablePred (inGrid request) := by
  intro p
  unfold inGrid
  infer_instance

def points (request : PerformanceBenchRequest) : List Point → List Json → Except Text (List Point)
  | seen, [] => .ok seen
  | seen, row :: rows => do
    let p ← point row
    require (inGrid request p ∧ p ∉ seen)
      "serving trial is outside the requested grid or duplicated".toList
    points request (seen ++ [p]) rows

def PerformanceBenchRequest.workload (request : PerformanceBenchRequest) : ServingWorkload where
  inputs := request.promptBytes
  maxOutputTokens := request.maxOutputTokens
  concurrencies := request.concurrencies
  repetitions := request.repetitions
  warmup := request.warmup
  requestUsage := request.requestUsage

def checkProvenance (request : PerformanceBenchRequest) (rows : List Json) :
    Option Json → Except Text Unit
  | some value => do
    let provenance ← (pkg.readProvenance value).mapError
      ("invalid benchmark provenance: ".toList ++ ·)
    pkg.validateProvenance provenance request.contextProfile
    require (pkg.workload provenance = request.workload)
      "serving provenance does not match the requested workload".toList
    require (pkg.memoryUnavailable provenance = true → ∀ row ∈ rows,
        ((row.get "peak_memory_bytes").getD .null).isNull = true)
      "serving memory measurement has no owned scope".toList
  | none => require (rows = []) "serving measurements require frozen provenance".toList

def gridSize (request : PerformanceBenchRequest) : Nat :=
  request.promptBytes.length * request.concurrencies.length * request.repetitions

def storageLimit : Text := "benchmark record exceeds the storage size limit".toList

def validateServingRecord (record : Json) : Except Text Unit := do
  let id ← servingEnvelope record
  let rawRequest ← orError (record.get "request") "benchmark request is missing".toList
  let parsed ← orError (PerformanceBenchRequest.ofJson rawRequest) (pkg.refusal rawRequest)
  let request ← validateRequest parsed
  let rows ← orError ((record.pointer "result" "rows").bind asArray)
    "benchmark rows are missing".toList
  require (id = request.runId ∧ rows.length ≤ 10000 ∧ rows.all (validServingRow pkg) = true ∧
      resultFits record id)
    "benchmark record and request do not match".toList
  let seen ← points request [] rows
  checkProvenance pkg request rows (record.pointer "result" "provenance")
  require (resultStatus record = some "complete".toList → seen.length = gridSize request)
    "complete serving benchmark is missing requested trials".toList
  -- A complete grid may be too large to publish and still fit its journal.
  require ((toVec pkg record).length ≤ maxJournalBytes) storageLimit

/-- `char::is_control` -/
def isControl (c : Char) : Bool := c.toNat < 0x20 || (0x7f ≤ c.toNat && c.toNat < 0xa0)

def labelFits (v : Json) : Bool :=
  v.isNull || v.asStr.any fun t : Text => t ≠ [] && t.utf8Len ≤ 256 && !t.any isControl

def checkLabels (record : Json) : Except Text Unit :=
  ["runtime_variant", "runtime_plugin_version"].forM fun name =>
    require ((record.pointer "result" name).all labelFits = true)
      ("invalid benchmark ".toList ++ name.toList)

def checkLegacyProvenance (record : Json) (profile : Text) : Except Text Unit :=
  match record.pointer "result" "provenance" with
  | some value => do
    let validate ← (pkg.legacyProvenance value).mapError ("invalid benchmark provenance: ".toList ++ ·)
    validate profile
  | none => .ok ()

def validateRecord (record : Json) : Except Text Unit :=
  if (record.get "schemaVersion").bind asU64 = some 2 then validateServingRecord pkg record
  else do
    let id ← orError ((record.get "id").bind asStr) "benchmark record is missing its id".toList
    require (id ≠ [] ∧ id.utf8Len ≤ 128 ∧ (record.get "schemaVersion").bind asU64 = some 1 ∧
        ((record.get "createdAt").bind asU64).any (· ≤ 8640000000000000) = true ∧
        ["model", "backend", "build"].all (fun name => (record.get name).any isString) = true)
      "invalid benchmark record envelope".toList
    let rawRequest ← orError (record.get "request") "benchmark request is missing".toList
    let request ← orError (LegacyRequest.ofJson rawRequest) (pkg.refusal rawRequest)
    request.validate
    checkLegacyProvenance pkg record request.contextProfile
    checkLabels record
    require (request.runId = id ∧
        ((record.pointer "result" "rows").bind asArray).any
          (fun rows => rows.length ≤ 640 && rows.all (validRow pkg)) = true ∧
        (record.pointer "result" "runtime_version").any isString = true ∧
        ["context_size", "parallel"].all
          (fun name => ((record.pointer "result" name).bind asU64).isSome) = true ∧
        resultFits record id)
      "benchmark record and request do not match".toList
    require ((toVec pkg record).length ≤ maxRecordBytes) storageLimit

section Accepted

variable {pkg} {record : Json}

theorem get_eq_some {key : String} {v w : Json} (h : v.get key = some w) :
    ∃ fields, v = .object fields ∧ lookup key.toList fields = some w := by
  cases v with
  | object fields => exact ⟨fields, rfl, h⟩
  | _ => cases h

theorem pointer_eq_some {outer inner : String} {v : Json}
    (h : record.pointer outer inner = some v) :
    ∃ fields result, record = .object fields ∧ lookup outer.toList fields = some (.object result) ∧
      lookup inner.toList result = some v := by
  obtain ⟨w, hw, hv⟩ := Option.bind_eq_some_iff.mp h
  obtain ⟨fields, rfl, hfields⟩ := get_eq_some hw
  obtain ⟨result, rfl, hresult⟩ := get_eq_some hv
  exact ⟨fields, result, rfl, hfields, hresult⟩

theorem asArray_pointer {outer inner : String} {rows : List Json}
    (h : (record.pointer outer inner).bind asArray = some rows) :
    record.pointer outer inner = some (.array rows) := by
  obtain ⟨v, hv, hrows⟩ := Option.bind_eq_some_iff.mp h
  rw [hv, asArray_eq_some hrows]

theorem validateRecord_rows (h : validateRecord pkg record = .ok ()) :
    ∃ rows, record.pointer "result" "rows" = some (.array rows) := by
  rw [validateRecord] at h
  split at h
  · simp only [validateServingRecord, bind_eq_ok, orError_eq_ok] at h
    obtain ⟨_, _, _, _, _, _, _, _, rows, hrows, _⟩ := h
    exact ⟨rows, asArray_pointer hrows⟩
  · simp only [bind_eq_ok, orError_eq_ok, require_eq_ok, exists_and_left, exists_const] at h
    obtain ⟨_, _, _, _, _, _, _, _, _, _, _, _, _, hmatch, _⟩ := h
    obtain ⟨rows, hrows, _⟩ := (Option.any_eq_true _ _).mp hmatch.2.1
    exact ⟨rows, asArray_pointer hrows⟩

end Accepted

end AioLM.Benchmark
