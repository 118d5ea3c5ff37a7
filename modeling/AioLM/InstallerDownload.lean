import AioLM.Saturating
import AioLM.Text
import AioLM.TextBytes

/-!
The download of an installer: what is written of its body, and which byte counts
are reported while it streams.
-/

set_option autoImplicit false

namespace AioLM.InstallerDownload

/-- `tokio::time::Instant`, in nanoseconds. -/
abbrev Instant := Nat

/-- A chunk of the body: no allocation is longer than `isize::MAX`. -/
structure Chunk where
  bytes : Bytes
  bounded : bytes.length < 2 ^ 63

/-- A chunk is read and written: when the task was polled while the read was pending,
what `write_all` said, and when it said so. -/
structure Arrival where
  polls : List Instant
  chunk : Chunk
  written : Except Text Unit
  now : Instant

/-- The read that gives no chunk: the end of the body or a failure. -/
structure Ending where
  polls : List Instant
  read : Except Text Unit

structure Response where
  arrivals : List Arrival
  ending : Ending

inductive Event where
  | progress (stage : Text) (downloaded : Nat) (total : Option UInt64)
  | confirmed (chunk : Bytes)
  deriving DecidableEq

structure Writer where
  received : Nat
  reported : Nat
  reportedAt : Instant
  trace : List Event

/-- `Math.min(100, Math.floor(downloaded / total * 100))` -/
def percent (total : Option UInt64) (bytes : Nat) : Option UInt64 :=
  (total.filter fun total => decide (0 < total)).map fun total =>
    (min ((UInt64.ofNat bytes).toFloat / total.toFloat * 100.0).floor 100.0).toUInt64

def report (total : Option UInt64) (now : Instant) (w : Writer) : Writer :=
  { w with
    reported := w.received
    reportedAt := now
    trace := w.trace ++ [.progress "downloading".toList w.received total] }

/-- The timer of a pending read, polled after the read itself. -/
def poll (total : Option UInt64) (interval : Nat) (w : Writer) (now : Instant) : Writer :=
  if w.received ≠ w.reported ∧ w.reportedAt + interval ≤ now then report total now w else w

/-- What is done once `write_all` has confirmed the chunk. -/
def confirm (total : Option UInt64) (interval : Nat) (w : Writer) (a : Arrival) (written : Nat) :
    Writer :=
  let w := { w with received := written, trace := w.trace ++ [.confirmed a.chunk.bytes] }
  if w.received ≠ w.reported ∧ (w.reported = 0 ∨
      percent total w.received ≠ percent total w.reported ∨ w.reportedAt + interval ≤ a.now) then
    report total a.now w
  else w

def arrive (total : Option UInt64) (limit : UInt64) (interval : Nat) (w : Writer) (a : Arrival) :
    Writer × Except Text Unit :=
  let w := a.polls.foldl (poll total interval) w
  let written := Saturating.add u64Max w.received a.chunk.bytes.length
  if limit.toNat < written then
    (w, .error "installer download is larger than the release declares".toList)
  else
    match a.written with
    | .error error => (w, .error ("could not write the downloaded installer: ".toList ++ error))
    | .ok () => (confirm total interval w a written, .ok ())

def stream (total : Option UInt64) (limit : UInt64) (interval : Nat) (ending : Ending) :
    Writer → List Arrival → Writer × Except Text Unit
  | w, [] =>
    (ending.polls.foldl (poll total interval) w,
      ending.read.mapError ("installer download failed: ".toList ++ ·))
  | w, a :: rest =>
    match arrive total limit interval w a with
    | (w, .error error) => (w, .error error)
    | (w, .ok ()) => stream total limit interval ending w rest

def reportRest (total : Option UInt64) (w : Writer) : Writer :=
  if w.received ≠ w.reported then
    { w with trace := w.trace ++ [.progress "downloading".toList w.received total] }
  else w

def writeInstaller (total : Option UInt64) (limit : UInt64) (interval : Nat) (started : Instant)
    (response : Response) (flush : Except Text Unit) : Writer × Except Text Nat :=
  match stream total limit interval response.ending ⟨0, 0, started, []⟩ response.arrivals with
  | (w, streamed) =>
    let w := reportRest total w
    (w, do
      streamed
      flush.mapError ("could not write the downloaded installer: ".toList ++ ·)
      return w.received)

def reports (trace : List Event) : List Nat :=
  trace.filterMap fun
    | .progress _ downloaded _ => some downloaded
    | .confirmed _ => none

def confirmedChunks (trace : List Event) : List Bytes :=
  trace.filterMap fun
    | .progress _ _ _ => none
    | .confirmed chunk => some chunk

def confirmedBytes (trace : List Event) : Bytes := (confirmedChunks trace).flatten

def Response.chunks (response : Response) : List Bytes := response.arrivals.map (·.chunk.bytes)

def Response.body (response : Response) : Bytes := response.chunks.flatten

section Traces

variable {trace before after : List Event} {stage : Text} {n : Nat} {total : Option UInt64}
  {chunk : Bytes}

@[simp] theorem reports_progress :
    reports (trace ++ [.progress stage n total]) = reports trace ++ [n] := by
  simp [reports]

@[simp] theorem reports_confirmed : reports (trace ++ [.confirmed chunk]) = reports trace := by
  simp [reports]

@[simp] theorem confirmedChunks_progress :
    confirmedChunks (trace ++ [.progress stage n total]) = confirmedChunks trace := by
  simp [confirmedChunks]

@[simp] theorem confirmedChunks_confirmed :
    confirmedChunks (trace ++ [.confirmed chunk]) = confirmedChunks trace ++ [chunk] := by
  simp [confirmedChunks]

/-- Every report counts bytes whose write was confirmed before it. -/
def Backed (trace : List Event) : Prop :=
  ∀ before stage n total after, trace = before ++ .progress stage n total :: after →
    n ≤ (confirmedBytes before).length

theorem backed_nil : Backed [] := by
  intro before stage n total after h
  simp at h

theorem Backed.concat (h : Backed trace) {event : Event}
    (hevent : ∀ stage n total, event = .progress stage n total →
      n ≤ (confirmedBytes trace).length) : Backed (trace ++ [event]) := by
  intro before stage n total after heq
  rcases List.eq_nil_or_concat after with rfl | ⟨rest, last, rfl⟩
  · obtain ⟨rfl, hlast⟩ := List.append_inj' heq rfl
    exact hevent stage n total (by simpa using hlast)
  · have heq' : trace ++ [event] = (before ++ .progress stage n total :: rest) ++ [last] := by
      simpa using heq
    exact h before stage n total rest (List.append_inj' heq' rfl).1

end Traces

/-- The chunks written so far, and the counters and reports that belong to them. -/
structure Holds (done : List Bytes) (w : Writer) : Prop where
  chunks : confirmedChunks w.trace = done
  received : w.received = done.flatten.length
  increasing : (reports w.trace).Pairwise (· < ·)
  reports : ∀ n ∈ reports w.trace, 0 < n ∧ n ≤ w.reported
  last : w.reported = (InstallerDownload.reports w.trace).getLast?.getD 0
  reported : w.reported ≤ w.received
  backed : Backed w.trace

section Steps

variable {done : List Bytes} {w w' : Writer} {total : Option UInt64} {limit : UInt64}
  {interval : Nat} {now : Instant} {a : Arrival} {result : Except Text Unit}

theorem holds_start (now : Instant) : Holds [] ⟨0, 0, now, []⟩ :=
  ⟨rfl, rfl, .nil, by simp [reports], rfl, le_rfl, backed_nil⟩

theorem Holds.confirmedBytes (h : Holds done w) : confirmedBytes w.trace = done.flatten := by
  rw [InstallerDownload.confirmedBytes, h.chunks]

theorem Holds.progress_backed (h : Holds done w) (stage : Text) :
    Backed (w.trace ++ [.progress stage w.received total]) := by
  refine h.backed.concat ?_
  intro stage' n total' heq
  obtain ⟨-, rfl, -⟩ : stage = stage' ∧ w.received = n ∧ total = total' := by simpa using heq
  rw [h.confirmedBytes, h.received]

theorem Holds.progress_increasing (h : Holds done w) (hne : w.received ≠ w.reported) (stage : Text) :
    (InstallerDownload.reports (w.trace ++ [.progress stage w.received total])).Pairwise (· < ·) := by
  rw [reports_progress, List.pairwise_append]
  refine ⟨h.increasing, List.pairwise_singleton _ _, ?_⟩
  intro n hn m hm
  obtain rfl := List.mem_singleton.mp hm
  exact lt_of_le_of_lt (h.reports n hn).2 (lt_of_le_of_ne h.reported (Ne.symm hne))

theorem Holds.report (h : Holds done w) (total : Option UInt64) (now : Instant)
    (hne : w.received ≠ w.reported) : Holds done (report total now w) where
  chunks := by simpa [InstallerDownload.report] using h.chunks
  received := h.received
  increasing := h.progress_increasing hne _
  reports := by
    intro n hn
    have hlt : w.reported < w.received := lt_of_le_of_ne h.reported (Ne.symm hne)
    have hcases : n ∈ InstallerDownload.reports w.trace ∨ n = w.received := by
      simpa [InstallerDownload.report] using hn
    rcases hcases with hn | rfl
    · exact ⟨(h.reports n hn).1, (h.reports n hn).2.trans hlt.le⟩
    · exact ⟨Nat.zero_lt_of_lt hlt, le_rfl⟩
  last := by simp [InstallerDownload.report]
  reported := le_rfl
  backed := h.progress_backed _

theorem Holds.poll (h : Holds done w) : Holds done (poll total interval w now) := by
  unfold InstallerDownload.poll
  split
  · rename_i hdue
    exact h.report _ _ hdue.1
  · exact h

theorem Holds.polls (h : Holds done w) (polls : List Instant) :
    Holds done (polls.foldl (InstallerDownload.poll total interval) w) := by
  induction polls generalizing w with
  | nil => exact h
  | cons now rest ih => exact ih h.poll

theorem poll_received : (poll total interval w now).received = w.received := by
  unfold poll
  split <;> rfl

theorem polls_received (total : Option UInt64) (interval : Nat) (w : Writer)
    (polls : List Instant) :
    (polls.foldl (poll total interval) w).received = w.received := by
  induction polls generalizing w with
  | nil => rfl
  | cons now rest ih => rw [List.foldl_cons, ih, poll_received]

theorem Holds.confirm (h : Holds done w) (total : Option UInt64) (interval : Nat) (a : Arrival) :
    Holds (done ++ [a.chunk.bytes])
      (confirm total interval w a (w.received + a.chunk.bytes.length)) := by
  have hwritten : Holds (done ++ [a.chunk.bytes])
      { w with
        received := w.received + a.chunk.bytes.length
        trace := w.trace ++ [.confirmed a.chunk.bytes] } := by
    refine ⟨by simp [h.chunks], by simp [h.received], by simpa using h.increasing,
      by simpa using h.reports, by simpa using h.last, Nat.le_add_right_of_le h.reported, ?_⟩
    exact h.backed.concat (by simp)
  unfold InstallerDownload.confirm
  dsimp only
  split
  · rename_i hdue
    exact hwritten.report _ _ hdue.1
  · exact hwritten

/-- The sum of the counter and of what is still to come is not clipped. -/
def Exact (limit : UInt64) (w : Writer) (arrivals : List Arrival) : Prop :=
  limit.toNat < u64Max ∨
    w.received + (arrivals.map (·.chunk.bytes)).flatten.length ≤ u64Max

theorem Exact.head {rest : List Arrival} (h : Exact limit w (a :: rest))
    (hlimit : Saturating.add u64Max w.received a.chunk.bytes.length ≤ limit.toNat) :
    Saturating.add u64Max w.received a.chunk.bytes.length =
      w.received + a.chunk.bytes.length := by
  unfold Saturating.add at hlimit ⊢
  rcases h with h | h
  · omega
  · simp only [List.map_cons, List.flatten_cons, List.length_append] at h
    omega

theorem confirm_received (written : Nat) :
    (confirm total interval w a written).received = written := by
  unfold confirm
  dsimp only
  split <;> rfl

theorem Exact.tail {rest : List Arrival} (h : Exact limit w (a :: rest))
    (hreceived : w'.received = w.received + a.chunk.bytes.length) : Exact limit w' rest := by
  unfold Exact at h ⊢
  rw [List.map_cons, List.flatten_cons, List.length_append] at h
  omega

theorem arrive_cases (total : Option UInt64) (limit : UInt64) (interval : Nat) (w : Writer)
    (a : Arrival) :
    (∃ error, arrive total limit interval w a =
      (a.polls.foldl (poll total interval) w, .error error)) ∨
    (a.written = .ok () ∧
      Saturating.add u64Max w.received a.chunk.bytes.length ≤ limit.toNat ∧
      arrive total limit interval w a =
        (confirm total interval (a.polls.foldl (poll total interval) w) a
          (Saturating.add u64Max w.received a.chunk.bytes.length), .ok ())) := by
  have hreceived := polls_received total interval w a.polls
  unfold arrive
  dsimp only
  rw [hreceived]
  split
  · exact .inl ⟨_, rfl⟩
  · rename_i hlimit
    cases hwritten : a.written with
    | error error => exact .inl ⟨_, rfl⟩
    | ok u => exact .inr ⟨rfl, not_lt.mp hlimit, rfl⟩

theorem Holds.stream (h : Holds done w) (hlimit : done.flatten.length ≤ limit.toNat)
    {ending : Ending} {arrivals : List Arrival} (hexact : Exact limit w arrivals)
    (hstream : stream total limit interval ending w arrivals = (w', result)) :
    ∃ more, more <+: arrivals.map (·.chunk.bytes) ∧ Holds (done ++ more) w' ∧
      (done ++ more).flatten.length ≤ limit.toNat ∧
      (result = .ok () → ending.read = .ok () ∧ more = arrivals.map (·.chunk.bytes)) := by
  induction arrivals generalizing done w with
  | nil =>
    obtain ⟨rfl, rfl⟩ := Prod.mk.inj hstream
    refine ⟨[], List.nil_prefix, by simpa using h.polls _, by simpa using hlimit, ?_⟩
    intro hok
    refine ⟨?_, rfl⟩
    cases hread : ending.read with
    | error error => simp [hread, Except.mapError] at hok
    | ok u => rfl
  | cons a rest ih =>
    rcases arrive_cases total limit interval w a with ⟨error, harrive⟩ | ⟨-, hle, harrive⟩
    · simp only [InstallerDownload.stream, harrive, Prod.mk.injEq] at hstream
      obtain ⟨rfl, rfl⟩ := hstream
      exact ⟨[], List.nil_prefix, by simpa using h.polls _, by simpa using hlimit, by simp⟩
    · have hpolled : Holds done (a.polls.foldl (InstallerDownload.poll total interval) w) :=
        h.polls a.polls
      simp only [InstallerDownload.stream, harrive] at hstream
      rw [hexact.head hle] at hstream hle
      have hstep : Holds (done ++ [a.chunk.bytes])
          (InstallerDownload.confirm total interval
            (a.polls.foldl (InstallerDownload.poll total interval) w) a
            (w.received + a.chunk.bytes.length)) := by
        have hconfirm := hpolled.confirm total interval a
        rwa [polls_received] at hconfirm
      have hlimit' : (done ++ [a.chunk.bytes]).flatten.length ≤ limit.toNat := by
        rw [List.flatten_append, List.length_append, ← h.received]
        simpa using hle
      obtain ⟨more, hprefix, hholds, hlength, hall⟩ :=
        ih hstep hlimit' (hexact.tail (confirm_received _)) hstream
      refine ⟨a.chunk.bytes :: more, ?_, by simpa using hholds, by simpa using hlength, ?_⟩
      · exact List.prefix_cons_inj _ |>.mpr hprefix
      · intro hok
        exact ⟨(hall hok).1, congrArg _ (hall hok).2⟩

end Steps

/-- The reports of a download count confirmed bytes, the confirmed bytes are whole chunks of the
body in its order, and a download that succeeds has written the whole body. -/
structure Truthful (limit : UInt64) (response : Response) (trace : List Event)
    (result : Except Text Nat) : Prop where
  increasing : (reports trace).Pairwise (· < ·)
  positive : ∀ n ∈ reports trace, 0 < n
  backed : Backed trace
  last : (reports trace).getLast? =
    if (confirmedBytes trace).length = 0 then none else some (confirmedBytes trace).length
  whole : confirmedChunks trace <+: response.chunks
  limited : (confirmedBytes trace).length ≤ limit.toNat
  complete : ∀ n, result = .ok n →
    response.ending.read = .ok () ∧ confirmedBytes trace = response.body ∧
      n = response.body.length

section Downloads

variable {done : List Bytes} {w : Writer} {total : Option UInt64} {limit : UInt64} {interval : Nat}

theorem reportRest_received : (reportRest total w).received = w.received := by
  unfold reportRest
  split <;> rfl

theorem Holds.rest_reports (h : Holds done w) (total : Option UInt64) :
    (InstallerDownload.reports (reportRest total w).trace).Pairwise (· < ·) ∧
      (∀ n ∈ InstallerDownload.reports (reportRest total w).trace, 0 < n) ∧
      Backed (reportRest total w).trace ∧
      confirmedChunks (reportRest total w).trace = done ∧
      (InstallerDownload.reports (reportRest total w).trace).getLast?.getD 0 = w.received := by
  unfold reportRest
  split
  · rename_i hne
    refine ⟨h.progress_increasing hne _, ?_, h.progress_backed _, by simp [h.chunks], by simp⟩
    intro n hn
    exact (h.report total 0 hne).reports n hn |>.1
  · rename_i heq
    refine ⟨h.increasing, fun n hn => (h.reports n hn).1, h.backed, h.chunks, ?_⟩
    rw [← h.last]
    exact (not_not.mp heq).symm

theorem getLast?_of_getD {counts : List Nat} {n : Nat} (hpositive : ∀ m ∈ counts, 0 < m)
    (hlast : counts.getLast?.getD 0 = n) : counts.getLast? = if n = 0 then none else some n := by
  cases hget : counts.getLast? with
  | none =>
    rw [hget] at hlast
    simp [← hlast]
  | some m =>
    rw [hget] at hlast
    obtain rfl : m = n := hlast
    have hm : 0 < m := hpositive m (List.mem_of_getLast? hget)
    rw [if_neg (by omega)]

theorem write_installer_truthful (total : Option UInt64) (limit : UInt64) (interval : Nat)
    (started : Instant) (response : Response) (flush : Except Text Unit)
    (hexact : limit.toNat < u64Max ∨ response.body.length ≤ u64Max) :
    Truthful limit response
      (writeInstaller total limit interval started response flush).1.trace
      (writeInstaller total limit interval started response flush).2 := by
  rcases hstream : stream total limit interval response.ending ⟨0, 0, started, []⟩
    response.arrivals with ⟨w, streamed⟩
  have hstart : Exact limit ⟨0, 0, started, []⟩ response.arrivals := by
    simpa [Exact, Response.body, Response.chunks] using hexact
  obtain ⟨done, hprefix, hholds, hlength, hall⟩ :=
    (holds_start started).stream (by simp) hstart hstream
  rw [List.nil_append] at hholds hlength
  obtain ⟨hincreasing, hpositive, hbacked, hchunks, hlast⟩ := hholds.rest_reports total
  have hbytes : confirmedBytes (reportRest total w).trace = done.flatten := by
    rw [confirmedBytes, hchunks]
  unfold writeInstaller
  simp only [hstream]
  refine ⟨hincreasing, hpositive, hbacked, ?_, by rw [hchunks]; exact hprefix,
    by rwa [hbytes], ?_⟩
  · rw [getLast?_of_getD hpositive hlast, hbytes, hholds.received]
  · intro n hn
    cases streamed with
    | error error => cases hn
    | ok u =>
      obtain ⟨hread, hmore⟩ := hall rfl
      cases flush with
      | error error => cases hn
      | ok u =>
        have hn' : (reportRest total w).received = n := Except.ok.inj hn
        refine ⟨hread, by rw [hbytes, hmore]; rfl, ?_⟩
        rw [← hn', reportRest_received, hholds.received, hmore]
        rfl

/-- A second chunk refused for the limit, after a report that the timer makes. -/
theorem write_installer_truthful_refused :
    let response : Response :=
      ⟨[⟨[], ⟨[1, 2], by decide⟩, .ok (), 5⟩, ⟨[], ⟨[3], by decide⟩, .ok (), 6⟩,
        ⟨[8, 20], ⟨[4, 5], by decide⟩, .ok (), 21⟩], ⟨[], .ok ()⟩⟩
    (writeInstaller none 4 10 0 response (.ok ())).1.trace =
        [.confirmed [1, 2], .progress "downloading".toList 2 none, .confirmed [3],
          .progress "downloading".toList 3 none] ∧
      Truthful 4 response (writeInstaller none 4 10 0 response (.ok ())).1.trace
        (writeInstaller none 4 10 0 response (.ok ())).2 :=
  ⟨by decide +kernel,
    write_installer_truthful none 4 10 0 _ (.ok ()) (.inl (by decide))⟩

/-- Without failures every chunk is taken when the limit is the greatest word. -/
theorem stream_unlimited (total : Option UInt64) (interval : Nat) (w : Writer)
    (arrivals : List Arrival) (hwritten : ∀ a ∈ arrivals, a.written = .ok ()) :
    (stream total 18446744073709551615 interval ⟨[], .ok ()⟩ w arrivals).2 = .ok () := by
  induction arrivals generalizing w with
  | nil => rfl
  | cons a rest ih =>
    have hle : Saturating.add u64Max
        (a.polls.foldl (poll total interval) w).received a.chunk.bytes.length ≤ u64Max :=
      min_le_right _ _
    have harrive : arrive total 18446744073709551615 interval w a =
        (confirm total interval (a.polls.foldl (poll total interval) w) a
          (Saturating.add u64Max (a.polls.foldl (poll total interval) w).received
            a.chunk.bytes.length), .ok ()) := by
      unfold arrive
      dsimp only
      rw [if_neg (not_lt.mpr (hle.trans (by decide))), hwritten a List.mem_cons_self]
    simp only [stream, harrive]
    exact ih _ (fun b hb => hwritten b (List.mem_cons_of_mem a hb))

theorem stream_received_le (total : Option UInt64) (limit : UInt64) (interval : Nat)
    (ending : Ending) (w : Writer) (arrivals : List Arrival) (h : w.received ≤ u64Max) :
    (stream total limit interval ending w arrivals).1.received ≤ u64Max := by
  induction arrivals generalizing w with
  | nil => exact polls_received total interval w ending.polls ▸ h
  | cons a rest ih =>
    rcases arrive_cases total limit interval w a with ⟨error, harrive⟩ | ⟨-, -, harrive⟩
    · simp only [stream, harrive]
      exact polls_received total interval w a.polls ▸ h
    · simp only [stream, harrive]
      exact ih _ (confirm_received _ ▸ min_le_right _ _)

theorem write_installer_unlimited (total : Option UInt64) (interval : Nat) (started : Instant)
    (arrivals : List Arrival) (hwritten : ∀ a ∈ arrivals, a.written = .ok ()) :
    ∃ n ≤ u64Max, (writeInstaller total 18446744073709551615 interval started
      ⟨arrivals, ⟨[], .ok ()⟩⟩ (.ok ())).2 = .ok n := by
  rcases hstream : stream total 18446744073709551615 interval ⟨[], .ok ()⟩ ⟨0, 0, started, []⟩
    arrivals with ⟨w, streamed⟩
  have hok := stream_unlimited total interval ⟨0, 0, started, []⟩ arrivals hwritten
  have hle := stream_received_le total 18446744073709551615 interval ⟨[], .ok ()⟩
    ⟨0, 0, started, []⟩ arrivals (Nat.zero_le _)
  rw [hstream] at hok hle
  obtain rfl : streamed = .ok () := hok
  refine ⟨w.received, hle, ?_⟩
  simp only [writeInstaller, hstream, reportRest_received]
  rfl

/-- Two chunks of the greatest length and one of two bytes: the counter stops one byte short. -/
theorem not_truthful_unlimited :
    let chunk : Chunk := ⟨List.replicate (2 ^ 63 - 1) 0, by rw [List.length_replicate]; decide⟩
    let response : Response :=
      ⟨[⟨[], chunk, .ok (), 0⟩, ⟨[], chunk, .ok (), 0⟩, ⟨[], ⟨[0, 0], by decide⟩, .ok (), 0⟩],
        ⟨[], .ok ()⟩⟩
    ¬ Truthful 18446744073709551615 response
      (writeInstaller none 18446744073709551615 0 0 response (.ok ())).1.trace
      (writeInstaller none 18446744073709551615 0 0 response (.ok ())).2 := by
  intro chunk response htruthful
  obtain ⟨n, hle, hn⟩ := write_installer_unlimited none 0 0 response.arrivals (by
    intro a ha
    simp only [response, List.mem_cons, List.not_mem_nil, or_false] at ha
    rcases ha with rfl | rfl | rfl <;> rfl)
  obtain ⟨-, -, hlength⟩ := htruthful.complete n hn
  have hbody : response.body.length = 2 ^ 64 := by
    simp only [Response.body, Response.chunks, response, chunk, List.map_cons, List.map_nil,
      List.flatten_cons, List.flatten_nil, List.length_append, List.length_replicate,
      List.length_cons, List.length_nil]
    omega
  rw [hlength, hbody] at hle
  exact absurd hle (by decide)

end Downloads

end AioLM.InstallerDownload
