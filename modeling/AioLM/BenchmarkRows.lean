import AioLM.BenchmarkImport
import AioLM.BenchmarkStream
import AioLM.PaddedNumbers

/-!
The row of an operating point, made from the measurements of its concurrent
requests.
-/

set_option autoImplicit false

namespace AioLM.Benchmark

open Fallible Durations Binary64

/-- The packages with the checks of the machine's floats: `is_finite` and `>= 0.0`. -/
def Packages.onFloats {π : Type} (pkg : Packages π) : Packages π :=
  { pkg with
    finite := Float.isFinite
    nonnegative := fun x => decide (0 ≤ x) }

def channelMean (measurements : List Measurement) (field : Measurement → Option Float) :
    Option Float := do
  let sum ← measurements.foldlM (fun sum m => (field m).map (sum + ·)) (0 : Float)
  if measurements = [] then none
  else (some (sum / (UInt64.ofNat measurements.length).toFloat)).filter Float.isFinite

/-- Even the known subset is checked: a missing request must not hide an overflow. -/
def addCounter : Nat × Bool → Option Nat → Except Unit (Nat × Bool)
  | (total, known), some value =>
    if total + value ≤ maxSafeInteger then .ok (total + value, known) else .error ()
  | (total, _), none => .ok (total, false)

def sumCounters (counters : List (Option Nat)) : Except Unit (Option Nat) := do
  let (total, known) ← counters.foldlM addCounter (0, true)
  return if known then some total else none

/-- The usage of the batch is not known, whatever some requests reported. -/
def invalidUsage (measurements : List Measurement) : Bool :=
  measurements.any (·.usageStatus = "invalid".toList) ||
    !(sumCounters (measurements.map (·.reportedPromptTokens))).isOk ||
    !(sumCounters (measurements.map (·.reportedCompletionTokens))).isOk ||
    !(sumCounters (measurements.map (·.reportedCachedTokens))).isOk

def reportedSum (measurements : List Measurement) (field : Measurement → Option Nat) : Option Nat :=
  if invalidUsage measurements then none
  else (sumCounters (measurements.map field)).toOption.join

def usageStatus (measurements : List Measurement) : Text :=
  if invalidUsage measurements then "invalid".toList
  else if measurements.all (·.usageStatus = "complete".toList) then "complete".toList
  else if measurements.all (·.usageStatus = "missing".toList) then "missing".toList
  else "partial".toList

def rowId (request : PerformanceBenchRequest) (inputBytes concurrency repetition : Nat) : Text :=
  request.runId ++ "-b".toList ++ Nat.toDigits 10 inputBytes ++ "-o".toList ++
    Nat.toDigits 10 request.maxOutputTokens ++ "-c".toList ++ Nat.toDigits 10 concurrency ++
    "-r".toList ++ Nat.toDigits 10 repetition

def aggregate (request : PerformanceBenchRequest) (inputBytes concurrency repetition : Nat)
    (started : Instant) (measurements : List Measurement) (peakMemoryBytes : Option Nat) :
    PerformanceBenchRow :=
  let contentBytes := (measurements.map (·.contentBytes)).sum
  let reasoningBytes := (measurements.map (·.reasoningBytes)).sum
  let finished := (measurements.map (·.finished)).max?.getD started
  { id := rowId request inputBytes concurrency repetition
    inputBytes
    maxOutputTokens := request.maxOutputTokens
    concurrency
    repetition
    firstOutputMs := channelMean measurements (·.firstOutputMs)
    firstContentMs := channelMean measurements (·.firstContentMs)
    firstReasoningMs := channelMean measurements (·.firstReasoningMs)
    e2eMs := millis (finished.durationSince started)
    contentBytes
    reasoningBytes
    outputBytes := contentBytes + reasoningBytes
    reportedPromptTokens := reportedSum measurements (·.reportedPromptTokens)
    reportedCompletionTokens := reportedSum measurements (·.reportedCompletionTokens)
    reportedCachedTokens := reportedSum measurements (·.reportedCachedTokens)
    usageStatus := usageStatus measurements
    finishReasons := measurements.map (·.finishReason)
    peakMemoryBytes := peakMemoryBytes.filter (· ≤ maxSafeInteger)
    timingSource := "client".toList
    failed := false
    error := none }

section Counters

variable {counters : List (Option Nat)} {total total' : Nat} {known known' : Bool}

theorem foldlM_addCounter (h : counters.foldlM addCounter (total, known) = .ok (total', known')) :
    total' = total + (counters.map (·.getD 0)).sum ∧
      (known' = true ↔ known = true ∧ ∀ c ∈ counters, c.isSome) ∧
      (total ≤ maxSafeInteger → total' ≤ maxSafeInteger) := by
  induction counters generalizing total known with
  | nil =>
    cases h
    simp
  | cons c counters ih =>
    rw [List.foldlM_cons] at h
    obtain ⟨⟨t, k⟩, hadd, h⟩ := bind_eq_ok.mp h
    obtain ⟨hsum, hknown, hle⟩ := ih h
    cases c with
    | none =>
      cases hadd
      exact ⟨by simpa using hsum, by simp [hknown], hle⟩
    | some value =>
      simp only [addCounter] at hadd
      split_ifs at hadd with hfits
      cases hadd
      refine ⟨?_, by simp [hknown], fun _ => hle hfits⟩
      rw [hsum, List.map_cons, List.sum_cons, Nat.add_assoc]
      rfl

theorem sumCounters_eq_ok {sum : Option Nat} (h : sumCounters counters = .ok sum) :
    ∃ t, t = (counters.map (·.getD 0)).sum ∧ t ≤ maxSafeInteger ∧
      (sum = some t ∧ (∀ c ∈ counters, c.isSome) ∨ sum = none ∧ none ∈ counters) := by
  obtain ⟨⟨t, k⟩, hfold, h⟩ := bind_eq_ok.mp h
  obtain ⟨hsum, hknown, hle⟩ := foldlM_addCounter hfold
  refine ⟨t, by simpa using hsum, hle (Nat.zero_le _), ?_⟩
  cases h
  cases k with
  | true => exact .inl ⟨rfl, (hknown.mp rfl).2⟩
  | false =>
    refine .inr ⟨rfl, ?_⟩
    by_contra hnone
    refine absurd (hknown.mpr ⟨rfl, fun c hc => ?_⟩) (by decide)
    rw [Option.isSome_iff_ne_none]
    rintro rfl
    exact hnone hc

end Counters

section Latencies

variable {measurements : List Measurement} {field field' : Measurement → Option Float}

theorem foldlM_nonneg {a sum : Float} (ha : IsNonneg a)
    (htimes : ∀ m ∈ measurements, ∀ t ∈ field m, IsNonneg t)
    (h : measurements.foldlM (fun sum m => (field m).map (sum + ·)) a = some sum) :
    IsNonneg sum ∧ ∀ m ∈ measurements, (field m).isSome := by
  induction measurements generalizing a with
  | nil =>
    cases h
    exact ⟨ha, fun _ hm => by cases hm⟩
  | cons m measurements ih =>
    rw [List.foldlM_cons] at h
    obtain ⟨b, hb, h⟩ := Option.bind_eq_some_iff.mp h
    obtain ⟨t, ht, rfl⟩ := Option.map_eq_some_iff.mp hb
    have hnonneg := (add_spec ha (htimes m (by simp) t ht)).1
    obtain ⟨hsum, hall⟩ := ih hnonneg (fun m' hm' => htimes m' (by simp [hm'])) h
    refine ⟨hsum, fun m' hm' => ?_⟩
    rcases List.mem_cons.mp hm' with rfl | hmem
    · rw [ht]
      rfl
    · exact hall m' hmem

theorem foldlM_le {a a' sum : Float} (ha : IsNonneg a) (ha' : IsNonneg a')
    (hle : value a' ≤ value a) (htimes : ∀ m ∈ measurements, ∀ t ∈ field m, IsNonneg t)
    (hfield : ∀ m ∈ measurements, ∀ t ∈ field m, ∃ first ∈ field' m, IsNonneg first ∧
      value first ≤ value t)
    (h : measurements.foldlM (fun sum m => (field m).map (sum + ·)) a = some sum) :
    ∃ sum', measurements.foldlM (fun sum m => (field' m).map (sum + ·)) a' = some sum' ∧
      IsNonneg sum' ∧ value sum' ≤ value sum := by
  induction measurements generalizing a a' with
  | nil =>
    cases h
    exact ⟨a', rfl, ha', hle⟩
  | cons m measurements ih =>
    rw [List.foldlM_cons] at h
    obtain ⟨b, hb, h⟩ := Option.bind_eq_some_iff.mp h
    obtain ⟨t, ht, rfl⟩ := Option.map_eq_some_iff.mp hb
    obtain ⟨first, hfirst, hnonneg, hbelow⟩ := hfield m (by simp) t ht
    have htime := htimes m (by simp) t ht
    have hsum := value_add_le ha' hnonneg ha htime hle hbelow
    obtain ⟨sum', hsum', hrest⟩ := ih (add_spec ha htime).1 (add_spec ha' hnonneg).1 hsum
      (fun m' hm' => htimes m' (by simp [hm'])) (fun m' hm' => hfield m' (by simp [hm'])) h
    refine ⟨sum', ?_, hrest⟩
    rw [List.foldlM_cons, Option.mem_def.mp hfirst]
    exact hsum'

theorem stands_length {n : Nat} (hpos : 0 < n) (hle : n ≤ 64) :
    Stands (UInt64.ofNat n).toFloat n := by
  obtain ⟨hnonneg, hvalue⟩ := toFloat_ofNat (n := n) (by omega)
  rw [shown_natCast (by omega)] at hvalue
  exact stands_of_value hnonneg hvalue (by exact_mod_cast hpos)

theorem isNonneg_zero : IsNonneg (0 : Float) := zero_le_iff.mp (by decide)

def meanOf (times : List (Option Float)) : Option Float :=
  if !times.isEmpty && times.all Option.isSome then
    (some (times.reduceOption.foldl (· + ·) 0 /
      (UInt64.ofNat times.length).toFloat)).filter Float.isFinite
  else none

theorem foldlM_eq_foldl (measurements : List Measurement) (field : Measurement → Option Float)
    (start : Float) : measurements.foldlM (fun sum m => (field m).map (sum + ·)) start =
      if (measurements.map field).all Option.isSome then
        some ((measurements.map field).reduceOption.foldl (· + ·) start)
      else none := by
  induction measurements generalizing start with
  | nil => rfl
  | cons m rest ih =>
    rw [List.foldlM_cons, List.map_cons]
    cases hfield : field m with
    | none => simp
    | some time =>
      rw [List.reduceOption_cons_of_some, List.foldl_cons]
      simpa using ih (start + time)

theorem channelMean_eq (measurements : List Measurement) (field : Measurement → Option Float) :
    channelMean measurements field = meanOf (measurements.map field) := by
  rw [channelMean, meanOf, foldlM_eq_foldl, List.length_map, List.isEmpty_map]
  cases hall : (measurements.map field).all Option.isSome with
  | false =>
    rw [Bool.and_false]
    rfl
  | true =>
    cases measurements with
    | nil => rfl
    | cons m rest => rfl

theorem channelMean_eq_some {mean : Float} (h : channelMean measurements field = some mean) :
    ∃ sum, measurements.foldlM (fun sum m => (field m).map (sum + ·)) (0 : Float) = some sum ∧
      measurements ≠ [] ∧ sum / (UInt64.ofNat measurements.length).toFloat = mean ∧
      mean.isFinite = true := by
  obtain ⟨sum, hsum, h⟩ := Option.bind_eq_some_iff.mp h
  split_ifs at h with hempty
  obtain ⟨hmean, hfinite⟩ := Option.filter_eq_some_iff.mp h
  cases hmean
  exact ⟨sum, hsum, hempty, rfl, hfinite⟩

variable (hlength : measurements.length ≤ 64)
  (htimes : ∀ m ∈ measurements, ∀ t ∈ field m, IsNonneg t)

include hlength htimes

theorem channelMean_spec {mean : Float} (h : channelMean measurements field = some mean) :
    IsNonneg mean ∧ mean.isFinite = true ∧ measurements ≠ [] ∧
      ∀ m ∈ measurements, (field m).isSome := by
  obtain ⟨sum, hsum, hempty, rfl, hfinite⟩ := channelMean_eq_some h
  obtain ⟨hnonneg, hall⟩ := foldlM_nonneg isNonneg_zero htimes hsum
  have hpos : 0 < measurements.length := List.length_pos_iff.mpr hempty
  exact ⟨(div_spec hnonneg (stands_length hpos hlength)).1, hfinite, hempty, hall⟩

theorem channelMean_le {mean : Float}
    (hfield : ∀ m ∈ measurements, ∀ t ∈ field m, ∃ first ∈ field' m, IsNonneg first ∧
      value first ≤ value t)
    (h : channelMean measurements field = some mean) :
    ∃ first, channelMean measurements field' = some first ∧ first ≤ mean := by
  obtain ⟨hmean, -, -, -⟩ := channelMean_spec hlength htimes h
  obtain ⟨sum, hsum, hempty, rfl, hfinite⟩ := channelMean_eq_some h
  obtain ⟨hnonneg, -⟩ := foldlM_nonneg isNonneg_zero htimes hsum
  obtain ⟨sum', hsum', hnonneg', hle⟩ :=
    foldlM_le isNonneg_zero isNonneg_zero (le_refl _) htimes hfield hsum
  have hpos : 0 < measurements.length := List.length_pos_iff.mpr hempty
  have hlen := stands_length hpos hlength
  have hdiv := value_div_le hnonneg' hnonneg hlen hle
  have hfirst := (div_spec hnonneg' hlen).1
  have hfinite' : (sum' / (UInt64.ofNat measurements.length).toFloat).isFinite = true := by
    rw [isFinite_iff_value hfirst]
    exact ne_top_of_le_ne_top ((isFinite_iff_value hmean).mp hfinite) hdiv
  refine ⟨_, ?_, (le_iff_value hfirst hmean).mpr hdiv⟩
  rw [channelMean, hsum']
  change (if measurements = [] then none else _) = _
  rw [if_neg hempty, Option.filter_some, if_pos hfinite']

end Latencies

/-- What an accepted request is good for. -/
structure PerformanceBenchRequest.Valid (request : PerformanceBenchRequest) : Prop where
  runId : request.runId ≠ [] ∧ request.runId.utf8Len ≤ 128
  promptBytes : ∀ n ∈ request.promptBytes, 256 ≤ n ∧ n ≤ 1048576
  concurrencies : ∀ n ∈ request.concurrencies, 1 ≤ n ∧ n ≤ 64
  maxOutputTokens : 1 ≤ request.maxOutputTokens ∧ request.maxOutputTokens ≤ 65536
  repetitions : 1 ≤ request.repetitions ∧ request.repetitions ≤ 100

theorem validateRequest_ok {asked request : PerformanceBenchRequest}
    (h : validateRequest asked = .ok request) : request.Valid := by
  unfold validateRequest at h
  obtain ⟨_, hrunId, h⟩ := bind_eq_ok.mp h
  obtain ⟨_, -, h⟩ := bind_eq_ok.mp h
  obtain ⟨_, -, h⟩ := bind_eq_ok.mp h
  obtain ⟨_, hprompts, h⟩ := bind_eq_ok.mp h
  obtain ⟨_, hconcurrencies, h⟩ := bind_eq_ok.mp h
  obtain ⟨_, htokens, h⟩ := bind_eq_ok.mp h
  obtain ⟨_, -, h⟩ := bind_eq_ok.mp h
  cases h
  rw [require_eq_ok] at hrunId hprompts hconcurrencies htokens
  exact ⟨hrunId, fun n hn => hprompts.2.2 n ((List.mem_insertionSort _).mp hn),
    fun n hn => hconcurrencies.2.2 n ((List.mem_insertionSort _).mp hn), htokens.1, htokens.2⟩

theorem utf8Len_rowId {request : PerformanceBenchRequest} (h : request.Valid)
    {inputBytes concurrency repetition : Nat} (hinput : inputBytes ≤ 1048576)
    (hconcurrency : concurrency ≤ 64) (hrepetition : repetition ≤ 100) :
    (rowId request inputBytes concurrency repetition).utf8Len ≤ 256 := by
  have hinput' : Text.utf8Len (Nat.toDigits 10 inputBytes) ≤ 7 :=
    Padded.utf8Len_toDigits_le (by decide) (by omega)
  have htokens : Text.utf8Len (Nat.toDigits 10 request.maxOutputTokens) ≤ 5 :=
    Padded.utf8Len_toDigits_le (by decide) (by have := h.maxOutputTokens.2; omega)
  have hconcurrency' : Text.utf8Len (Nat.toDigits 10 concurrency) ≤ 2 :=
    Padded.utf8Len_toDigits_le (by decide) (by omega)
  have hrepetition' : Text.utf8Len (Nat.toDigits 10 repetition) ≤ 3 :=
    Padded.utf8Len_toDigits_le (by decide) (by omega)
  have hmarks : Text.utf8Len "-b".toList = 2 ∧ Text.utf8Len "-o".toList = 2 ∧
      Text.utf8Len "-c".toList = 2 ∧ Text.utf8Len "-r".toList = 2 := by decide
  have hrunId := h.runId.2
  simp only [rowId, Text.utf8Len_append, hmarks]
  omega

section Aggregate

variable {request : PerformanceBenchRequest} {inputBytes concurrency repetition : Nat}
  {started : Instant} {measurements : List Measurement} {peakMemoryBytes : Option Nat}

theorem reportedSum_le {field : Measurement → Option Nat} {n : Nat}
    (h : reportedSum measurements field = some n) :
    n = (measurements.map fun m => (field m).getD 0).sum ∧ n ≤ maxSafeInteger ∧
      ∀ m ∈ measurements, (field m).isSome := by
  unfold reportedSum at h
  split_ifs at h
  cases hsum : sumCounters (measurements.map field) with
  | error _ =>
    rw [hsum] at h
    cases h
  | ok sum =>
    rw [hsum] at h
    obtain ⟨t, ht, hle, ⟨rfl, hall⟩ | ⟨rfl, -⟩⟩ := sumCounters_eq_ok hsum
    · cases h
      refine ⟨by simpa [Function.comp_def] using ht, hle, fun m hm => ?_⟩
      exact hall _ (List.mem_map_of_mem hm)
    · cases h

theorem reportedSum_eq_none {field : Measurement → Option Nat}
    (hvalid : invalidUsage measurements = false)
    (hok : (sumCounters (measurements.map field)).isOk = true)
    (h : reportedSum measurements field = none) : ∃ m ∈ measurements, field m = none := by
  rw [reportedSum, if_neg (by simp [hvalid])] at h
  obtain ⟨sum, hsum⟩ := exists_of_isOk hok
  rw [hsum] at h
  obtain ⟨t, -, -, ⟨rfl, -⟩ | ⟨rfl, hmem⟩⟩ := sumCounters_eq_ok hsum
  · cases h
  · obtain ⟨m, hm, hnone⟩ := List.mem_map.mp hmem
    exact ⟨m, hm, hnone⟩

theorem reportedSum_cached_le (hsound : ∀ m ∈ measurements, m.Sound) {cached prompt : Nat}
    (hcached : reportedSum measurements (·.reportedCachedTokens) = some cached)
    (hprompt : reportedSum measurements (·.reportedPromptTokens) = some prompt) :
    cached ≤ prompt := by
  obtain ⟨rfl, -, hall⟩ := reportedSum_le hcached
  obtain ⟨rfl, -, hall'⟩ := reportedSum_le hprompt
  refine List.sum_le_sum fun m hm => ?_
  obtain ⟨c, hc⟩ := Option.isSome_iff_exists.mp (hall m hm)
  obtain ⟨p, hp⟩ := Option.isSome_iff_exists.mp (hall' m hm)
  rw [hc, hp]
  exact (hsound m hm).cached c hc p hp

theorem isOk_of_valid (hvalid : invalidUsage measurements = false) :
    (∀ m ∈ measurements, m.usageStatus ≠ "invalid".toList) ∧
    (sumCounters (measurements.map (·.reportedPromptTokens))).isOk = true ∧
    (sumCounters (measurements.map (·.reportedCompletionTokens))).isOk = true ∧
    (sumCounters (measurements.map (·.reportedCachedTokens))).isOk = true := by
  simp only [invalidUsage, Bool.or_eq_false_iff, Bool.not_eq_false', List.any_eq_false,
    decide_eq_true_eq] at hvalid
  obtain ⟨⟨⟨hstatus, hprompt⟩, hcompletion⟩, hcached⟩ := hvalid
  exact ⟨hstatus, hprompt, hcompletion, hcached⟩

theorem isSome_reportedSum {field : Measurement → Option Nat}
    (hvalid : invalidUsage measurements = false)
    (hok : (sumCounters (measurements.map field)).isOk = true)
    (hall : ∀ m ∈ measurements, (field m).isSome) :
    (reportedSum measurements field).isSome = true := by
  rw [Option.isSome_iff_ne_none]
  intro hnone
  obtain ⟨m, hm, hno⟩ := reportedSum_eq_none hvalid hok hnone
  have := hall m hm
  rw [hno] at this
  cases this

theorem reportedSum_none {field : Measurement → Option Nat} {m : Measurement}
    (hm : m ∈ measurements) (hno : field m = none) : reportedSum measurements field = none := by
  by_contra hsome
  obtain ⟨n, hn⟩ := Option.ne_none_iff_exists'.mp hsome
  have := (reportedSum_le hn).2.2 m hm
  rw [hno] at this
  cases this

theorem PerformanceBenchRow.usageFits_iff (row : PerformanceBenchRow) {status : Text}
    (h : row.usageStatus = status) : row.usageFits =
      if status = "complete".toList then row.reported.all Option.isSome
      else if status = "partial".toList then row.reported.any Option.isNone
      else if status = "missing".toList ∨ status = "invalid".toList then
        row.reported.all Option.isNone
      else false := by
  subst h
  rfl

variable (request inputBytes concurrency repetition started peakMemoryBytes) in
/-- The status of the batch says which of its counters are known. -/
theorem usageFits_aggregate (hsound : ∀ m ∈ measurements, m.Sound) (hne : measurements ≠ []) :
    (aggregate request inputBytes concurrency repetition started measurements
      peakMemoryBytes).usageFits = true := by
  have hreported : (aggregate request inputBytes concurrency repetition started measurements
      peakMemoryBytes).reported =
      [reportedSum measurements (·.reportedPromptTokens),
        reportedSum measurements (·.reportedCompletionTokens),
        reportedSum measurements (·.reportedCachedTokens)] := rfl
  obtain ⟨first, hfirst⟩ := List.exists_mem_of_ne_nil _ hne
  by_cases hinvalid : invalidUsage measurements = true
  · have hnone (field : Measurement → Option Nat) : reportedSum measurements field = none :=
      if_pos hinvalid
    have hstatus : usageStatus measurements = "invalid".toList := if_pos hinvalid
    rw [PerformanceBenchRow.usageFits_iff _ hstatus, hreported, if_neg (by decide),
      if_neg (by decide), if_pos (.inr rfl)]
    simp [hnone]
  rw [Bool.not_eq_true] at hinvalid
  obtain ⟨hstatuses, hprompt, hcompletion, hcached⟩ := isOk_of_valid hinvalid
  have hcomplete {m : Measurement} (hm : m ∈ measurements)
      (h : m.usageStatus = "complete".toList) : m.reportedPromptTokens.isSome ∧
        m.reportedCompletionTokens.isSome ∧ m.reportedCachedTokens.isSome := by
    cases (hsound m hm).usage with
    | invalid h' => exact absurd (h.symm.trans h') (by decide)
    | complete _ h1 h2 h3 => exact ⟨h1, h2, h3⟩
    | partly h' _ => exact absurd (h.symm.trans h') (by decide)
    | missing h' _ _ _ => exact absurd (h.symm.trans h') (by decide)
  by_cases hall : measurements.all (·.usageStatus = "complete".toList) = true
  · have hstatus : usageStatus measurements = "complete".toList := by
      rw [usageStatus, if_neg (by simp [hinvalid]), if_pos hall]
    have heach {m : Measurement} (hm : m ∈ measurements) := hcomplete hm
      (of_decide_eq_true (List.all_eq_true.mp hall m hm))
    rw [PerformanceBenchRow.usageFits_iff _ hstatus, hreported, if_pos rfl]
    simp [isSome_reportedSum hinvalid hprompt fun m hm => (heach hm).1,
      isSome_reportedSum hinvalid hcompletion fun m hm => (heach hm).2.1,
      isSome_reportedSum hinvalid hcached fun m hm => (heach hm).2.2]
  by_cases hmissing : measurements.all (·.usageStatus = "missing".toList) = true
  · have hstatus : usageStatus measurements = "missing".toList := by
      rw [usageStatus, if_neg (by simp [hinvalid]), if_neg hall, if_pos hmissing]
    have hno : first.reportedPromptTokens = none ∧ first.reportedCompletionTokens = none ∧
        first.reportedCachedTokens = none := by
      have h : first.usageStatus = "missing".toList :=
        of_decide_eq_true (List.all_eq_true.mp hmissing first hfirst)
      cases (hsound first hfirst).usage with
      | invalid h' => exact absurd (h.symm.trans h') (by decide)
      | complete h' _ _ _ => exact absurd (h.symm.trans h') (by decide)
      | partly h' _ => exact absurd (h.symm.trans h') (by decide)
      | missing _ h1 h2 h3 => exact ⟨h1, h2, h3⟩
    rw [PerformanceBenchRow.usageFits_iff _ hstatus, hreported, if_neg (by decide),
      if_neg (by decide), if_pos (.inl rfl)]
    simp [reportedSum_none hfirst hno.1, reportedSum_none hfirst hno.2.1,
      reportedSum_none hfirst hno.2.2]
  · have hstatus : usageStatus measurements = "partial".toList := by
      rw [usageStatus, if_neg (by simp [hinvalid]), if_neg hall, if_neg hmissing]
    obtain ⟨m, hm, hother⟩ : ∃ m ∈ measurements, m.usageStatus ≠ "complete".toList := by
      by_contra hno
      refine hall (List.all_eq_true.mpr fun m hm => decide_eq_true ?_)
      by_contra hother
      exact hno ⟨m, hm, hother⟩
    have hno : m.reportedPromptTokens = none ∨ m.reportedCompletionTokens = none ∨
        m.reportedCachedTokens = none := by
      cases (hsound m hm).usage with
      | invalid h => exact absurd h (hstatuses m hm)
      | complete h _ _ _ => exact absurd h hother
      | partly _ h => exact h
      | missing _ h _ _ => exact .inl h
    rw [PerformanceBenchRow.usageFits_iff _ hstatus, hreported, if_neg (by decide), if_pos rfl]
    rcases hno with h | h | h <;> simp [reportedSum_none hm h]

/-- What the fields of a row say about each other. -/
structure PerformanceBenchRow.Consistent (row : PerformanceBenchRow) : Prop where
  output : row.outputBytes = row.contentBytes + row.reasoningBytes
  usage : row.usageFits = true
  cached : ∀ c ∈ row.reportedCachedTokens, ∀ p ∈ row.reportedPromptTokens, c ≤ p
  firstContent : row.firstContentMs.isSome → row.contentBytes ≠ 0
  firstReasoning : row.firstReasoningMs.isSome → row.reasoningBytes ≠ 0
  firstOutput : row.firstOutputMs.isSome → row.outputBytes ≠ 0
  ordered : ∀ t, row.firstContentMs = some t ∨ row.firstReasoningMs = some t →
    ∃ first, row.firstOutputMs = some first ∧ first ≤ t
  reasons : row.finishReasons.length = row.concurrency

structure PerformanceBenchRow.Measures (row : PerformanceBenchRow)
    (measurements : List Measurement) : Prop where
  contentBytes : row.contentBytes = (measurements.map (·.contentBytes)).sum
  reasoningBytes : row.reasoningBytes = (measurements.map (·.reasoningBytes)).sum
  firstOutputMs : row.firstOutputMs = meanOf (measurements.map (·.firstOutputMs))
  firstContentMs : row.firstContentMs = meanOf (measurements.map (·.firstContentMs))
  firstReasoningMs : row.firstReasoningMs = meanOf (measurements.map (·.firstReasoningMs))
  finishReasons : row.finishReasons = measurements.map (·.finishReason)

theorem aggregate_measures (request : PerformanceBenchRequest)
    (inputBytes concurrency repetition : Nat) (started : Instant) (measurements : List Measurement)
    (peakMemoryBytes : Option Nat) :
    (aggregate request inputBytes concurrency repetition started measurements
      peakMemoryBytes).Measures measurements :=
  ⟨rfl, rfl, channelMean_eq _ _, channelMean_eq _ _, channelMean_eq _ _, rfl⟩

theorem sum_ne_zero {field : Measurement → Nat} {m : Measurement} (hm : m ∈ measurements)
    (h : field m ≠ 0) : (measurements.map field).sum ≠ 0 := by
  have hle := List.single_le_sum (fun n _ => Nat.zero_le n) _ (List.mem_map_of_mem (f := field) hm)
  omega

section Valid

variable (hsound : ∀ m ∈ measurements, m.Sound)

include hsound

theorem times_nonneg : ∀ m ∈ measurements, ∀ t, m.firstOutputMs = some t ∨
    m.firstContentMs = some t ∨ m.firstReasoningMs = some t → IsNonneg t :=
  fun m hm t ht => zero_le_iff.mp ((hsound m hm).times t ht)

variable (request inputBytes repetition started peakMemoryBytes) in
theorem aggregate_consistent (hlength : measurements.length ≤ 64) (hne : measurements ≠ []) :
    (aggregate request inputBytes measurements.length repetition started measurements
      peakMemoryBytes).Consistent := by
  have htimes := times_nonneg hsound
  have hfirst {field : Measurement → Option Float} {mean : Float}
      (hfield : ∀ m ∈ measurements, ∀ t ∈ field m,
        m.firstContentMs = some t ∨ m.firstReasoningMs = some t)
      (hmean : channelMean measurements field = some mean) :
      ∃ first, channelMean measurements (·.firstOutputMs) = some first ∧ first ≤ mean := by
    refine channelMean_le hlength (fun m hm t ht => htimes m hm t (.inr (hfield m hm t ht)))
      (fun m hm t ht => ?_) hmean
    obtain ⟨first, hsome, hle⟩ := (hsound m hm).ordered t (hfield m hm t ht)
    have hnonneg := htimes m hm first (.inl hsome)
    have hnonneg' := htimes m hm t (.inr (hfield m hm t ht))
    exact ⟨first, hsome, hnonneg, (le_iff_value hnonneg hnonneg').mp hle⟩
  have hexists {field : Measurement → Option Float} (htime : ∀ m ∈ measurements, ∀ t ∈ field m,
      IsNonneg t) (hsome : (channelMean measurements field).isSome) :
      ∃ m ∈ measurements, (field m).isSome := by
    obtain ⟨mean, hmean⟩ := Option.isSome_iff_exists.mp hsome
    obtain ⟨-, -, -, hall⟩ := channelMean_spec hlength htime hmean
    obtain ⟨m, hm⟩ := List.exists_mem_of_ne_nil _ hne
    exact ⟨m, hm, hall m hm⟩
  refine ⟨rfl, usageFits_aggregate _ _ _ _ _ _ hsound hne, ?_, ?_, ?_, ?_, ?_, ?_⟩
  · exact fun c hc p hp => reportedSum_cached_le hsound hc hp
  · intro hsome
    obtain ⟨m, hm, h⟩ := hexists (fun m hm t ht => htimes m hm t (.inr (.inl ht))) hsome
    exact sum_ne_zero hm ((hsound m hm).content h)
  · intro hsome
    obtain ⟨m, hm, h⟩ := hexists (fun m hm t ht => htimes m hm t (.inr (.inr ht))) hsome
    exact sum_ne_zero hm ((hsound m hm).reasoning h)
  · intro hsome
    obtain ⟨m, hm, h⟩ := hexists (fun m hm t ht => htimes m hm t (.inl ht)) hsome
    change (measurements.map (·.contentBytes)).sum + (measurements.map (·.reasoningBytes)).sum ≠ 0
    rcases (hsound m hm).output h with hcontent | hreasoning
    · have hsum : (measurements.map (·.contentBytes)).sum ≠ 0 :=
        sum_ne_zero hm ((hsound m hm).content hcontent)
      omega
    · have hsum : (measurements.map (·.reasoningBytes)).sum ≠ 0 :=
        sum_ne_zero hm ((hsound m hm).reasoning hreasoning)
      omega
  · rintro t (ht | ht)
    · exact hfirst (fun m hm t ht => .inl ht) ht
    · exact hfirst (fun m hm t ht => .inr ht) ht
  · exact List.length_map _

theorem time_channelMean {π : Type} (pkg : Packages π) (hlength : measurements.length ≤ 64)
    {field : Measurement → Option Float}
    (hfield : ∀ m t, field m = some t →
      m.firstOutputMs = some t ∨ m.firstContentMs = some t ∨ m.firstReasoningMs = some t) :
    (channelMean measurements field).all (time pkg.onFloats) = true := by
  cases hmean : channelMean measurements field with
  | none => rfl
  | some mean =>
    obtain ⟨hnonneg, hfinite, -, -⟩ := channelMean_spec hlength
      (fun m hm t ht => times_nonneg hsound m hm t (hfield m t ht)) hmean
    change (mean.isFinite && decide (0 ≤ mean)) = true
    rw [hfinite, decide_eq_true (zero_le_iff.mpr hnonneg)]
    rfl

end Valid

theorem counter_reportedSum (field : Measurement → Option Nat) :
    PerformanceBenchRow.counter (reportedSum measurements field) = true := by
  cases h : reportedSum measurements field with
  | none => rfl
  | some n => exact decide_eq_true (reportedSum_le h).2.1

/-- What is measured from the events of any servers makes a row that is valid. -/
theorem aggregate_valid {π : Type} (pkg : Packages π) (parse : Text → Except Text Json)
    {asked : PerformanceBenchRequest} (hrequest : validateRequest asked = .ok request)
    (hinput : inputBytes ∈ request.promptBytes) (hconcurrency : concurrency ∈ request.concurrencies)
    (hrepetition : 1 ≤ repetition ∧ repetition ≤ request.repetitions) (started : Instant)
    (hlength : measurements.length = concurrency)
    (hmeasured : ∀ m ∈ measurements, ∃ begun chunks, measured parse begun chunks = .ok m)
    (hbytes : (measurements.map (·.contentBytes)).sum +
      (measurements.map (·.reasoningBytes)).sum ≤ maxSafeInteger)
    (peakMemoryBytes : Option Nat) :
    (aggregate request inputBytes concurrency repetition started measurements
      peakMemoryBytes).validate pkg.onFloats = true ∧
    (aggregate request inputBytes concurrency repetition started measurements
      peakMemoryBytes).Consistent ∧
    (aggregate request inputBytes concurrency repetition started measurements
      peakMemoryBytes).Measures measurements := by
  have hvalid := validateRequest_ok hrequest
  have hinput' := hvalid.promptBytes inputBytes hinput
  have hconcurrency' := hvalid.concurrencies concurrency hconcurrency
  have hrepetitions := hvalid.repetitions.2
  subst hlength
  have hsound : ∀ m ∈ measurements, m.Sound := fun m hm => by
    obtain ⟨begun, chunks, h⟩ := hmeasured m hm
    exact measured_sound h
  have hne : measurements ≠ [] := List.ne_nil_of_length_pos hconcurrency'.1
  have hconsistent := aggregate_consistent request inputBytes repetition started peakMemoryBytes
    hsound hconcurrency'.2 hne
  refine ⟨?_, hconsistent, aggregate_measures _ _ _ _ _ _ _⟩
  have hid : rowId request inputBytes measurements.length repetition ≠ [] := by
    simp [rowId, hvalid.runId.1]
  have hid' := utf8Len_rowId hvalid hinput'.2 hconcurrency'.2 (hrepetition.2.trans hrepetitions)
  have htime (x : Nat) (hx : x < durations) : time pkg.onFloats (millis x) = true := by
    change ((millis x).isFinite && decide (0 ≤ millis x)) = true
    rw [isFinite_millis hx, decide_eq_true (zero_le_millis hx)]
    rfl
  have htimes : ([channelMean measurements (·.firstOutputMs),
      channelMean measurements (·.firstContentMs), channelMean measurements (·.firstReasoningMs)].all
        fun v => v.all (time pkg.onFloats)) = true := by
    simp only [List.all_cons, List.all_nil, Bool.and_true, Bool.and_eq_true]
    exact ⟨time_channelMean hsound pkg hconcurrency'.2 (fun _ _ h => .inl h),
      time_channelMean hsound pkg hconcurrency'.2 (fun _ _ h => .inr (.inl h)),
      time_channelMean hsound pkg hconcurrency'.2 (fun _ _ h => .inr (.inr h))⟩
  have habsent {bytes : Nat} {first : Option Float} (h : first.isSome → bytes ≠ 0) :
      (decide (bytes ≠ 0) || first.isNone) = true := by
    cases first with
    | none => simp
    | some t => simpa using h rfl
  have hcached : ((reportedSum measurements (·.reportedCachedTokens)).all fun cached =>
      (reportedSum measurements (·.reportedPromptTokens)).all (cached ≤ ·)) = true := by
    rw [Option.all_eq_true]
    intro cached hcached
    rw [Option.all_eq_true]
    exact fun prompt hprompt => decide_eq_true (hconsistent.cached cached hcached prompt hprompt)
  have hreasons : ((measurements.map (·.finishReason)).all fun v =>
      PerformanceBenchRow.finishReasonNames.contains v) = true := by
    rw [List.all_map, List.all_eq_true]
    exact fun m hm => List.contains_iff_mem.mpr (hsound m hm).reason
  have hpeak : PerformanceBenchRow.counter (peakMemoryBytes.filter (· ≤ maxSafeInteger)) = true := by
    cases peakMemoryBytes with
    | none => rfl
    | some n =>
      by_cases hn : n ≤ maxSafeInteger <;> simp [PerformanceBenchRow.counter]
  have husage := hconsistent.usage
  have hcontent := habsent hconsistent.firstContent
  have hreasoning := habsent hconsistent.firstReasoning
  have houtput := habsent hconsistent.firstOutput
  have htokens := hvalid.maxOutputTokens
  rw [PerformanceBenchRow.validate, husage]
  simp only [Bool.and_eq_true, decide_eq_true_eq, hcontent, hreasoning, houtput]
  simp only [aggregate, ne_eq, hid, htimes, hreasons, hpeak, hcached, counter_reportedSum,
    htime _ (Instant.durationSince_lt _ _), and_true, true_and, List.length_map, Bool.not_false,
    Option.isNone_none, not_false_eq_true]
  omega

end Aggregate

def sampleEvent : String :=
  "\x7b\"choices\":[\x7b\"delta\":\x7b\"content\":\"hi\"\x7d\x7d]\x7d"

def sampleUsage : String := "\x7b\"usage\":\x7b\"prompt_tokens\":5\x7d\x7d"

def sampleParse (data : Text) : Except Text Json :=
  if data = sampleEvent.toList then
    .ok (.object [("choices".toList, .array [.object [("delta".toList,
      .object [("content".toList, Json.text "hi")])]])])
  else if data = sampleUsage.toList then
    .ok (.object [("usage".toList, .object [("prompt_tokens".toList, .int 5)])])
  else .error "expected value at line 1 column 1".toList

def sampleStart : Instant := ⟨0, by decide⟩

/-- A request with its usage that brings its text at an instant. -/
def sampleChunks (first : Instant) : List (Bytes × Instant) :=
  [(TextBytes.ascii ("data: " ++ sampleEvent ++ "\n\n"), first),
    (TextBytes.ascii ("data: " ++ sampleUsage ++ "\n\n"), ⟨150000000, by decide⟩),
    (TextBytes.ascii "data: [DONE]\n\n", ⟨200000000, by decide⟩)]

def sampleObserved (first : Instant) : Observed where
  contentBytes := 2
  firstContent := some first
  usage := .counters (some 5) none none
  finished := some ⟨200000000, by decide⟩

def sampleMeasurement (first : Float) : Measurement where
  contentBytes := 2
  reasoningBytes := 0
  firstOutputMs := some first
  firstContentMs := some first
  firstReasoningMs := none
  reportedPromptTokens := some 5
  reportedCompletionTokens := none
  reportedCachedTokens := none
  usageStatus := "partial".toList
  finishReason := "not_reported".toList
  finished := ⟨200000000, by decide⟩

theorem measured_of_observed {parse : Text → Except Text Json} {chunks : List (Bytes × Instant)}
    {observed : Observed} (started : Instant)
    (h : (CompletionStream.feed parse chunks {}).toOption.map (·.observed) = some observed) :
    measured parse started chunks = observed.measurement started := by
  cases hfeed : CompletionStream.feed parse chunks {} with
  | error message =>
    rw [hfeed] at h
    cases h
  | ok stream =>
    rw [hfeed] at h
    obtain rfl := Option.some.inj h
    rw [measured, hfeed]
    rfl

theorem measured_sample :
    measured sampleParse sampleStart (sampleChunks ⟨50000000, by decide⟩) =
        .ok (sampleMeasurement 50.0) ∧
      measured sampleParse sampleStart (sampleChunks ⟨100000000, by decide⟩) =
        .ok (sampleMeasurement 100.0) := by
  have hearly : (CompletionStream.feed sampleParse (sampleChunks ⟨50000000, by decide⟩)
      {}).toOption.map (·.observed) = some (sampleObserved ⟨50000000, by decide⟩) := by
    decide +kernel
  have hlate : (CompletionStream.feed sampleParse (sampleChunks ⟨100000000, by decide⟩)
      {}).toOption.map (·.observed) = some (sampleObserved ⟨100000000, by decide⟩) := by
    decide +kernel
  exact ⟨(measured_of_observed sampleStart hearly).trans rfl,
    (measured_of_observed sampleStart hlate).trans rfl⟩

def sampleRequest : PerformanceBenchRequest where
  runId := "run".toList
  method := ⟨"openai-chat-serving".toList, 1⟩
  contextProfile := "novel_en".toList
  promptBytes := [256]
  maxOutputTokens := 16
  concurrencies := [2]
  repetitions := 1
  warmup := false
  requestUsage := true

def sampleRow : PerformanceBenchRow :=
  aggregate sampleRequest 256 2 1 sampleStart [sampleMeasurement 50.0, sampleMeasurement 100.0] none

theorem aggregate_valid_sample :
    sampleRow.validate (samplePackages []).onFloats = true ∧ sampleRow.Consistent ∧
      sampleRow.Measures [sampleMeasurement 50.0, sampleMeasurement 100.0] ∧
      sampleRow.contentBytes = 4 ∧ sampleRow.reportedPromptTokens = some 10 := by
  have hrequest : validateRequest sampleRequest = .ok sampleRequest := rfl
  have hmeasured : ∀ m ∈ [sampleMeasurement 50.0, sampleMeasurement 100.0], ∃ begun chunks,
      measured sampleParse begun chunks = .ok m := by
    intro m hm
    rcases List.mem_pair.mp hm with rfl | rfl
    · exact ⟨_, _, measured_sample.1⟩
    · exact ⟨_, _, measured_sample.2⟩
  have hbytes : ([sampleMeasurement 50.0, sampleMeasurement 100.0].map (·.contentBytes)).sum +
      ([sampleMeasurement 50.0, sampleMeasurement 100.0].map (·.reasoningBytes)).sum ≤
        maxSafeInteger := by decide +kernel
  have hrow := aggregate_valid (samplePackages []) sampleParse hrequest
    (List.mem_singleton.mpr rfl) (List.mem_singleton.mpr rfl) ⟨le_refl 1, le_refl 1⟩ sampleStart
    rfl hmeasured hbytes none
  exact ⟨hrow.1, hrow.2.1, hrow.2.2, by decide +kernel, by decide +kernel⟩

end AioLM.Benchmark
