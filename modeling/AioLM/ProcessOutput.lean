import Mathlib.Algebra.Order.Ring.Int
import Mathlib.Data.List.Induction

/-!
The bounded log of a process and the window of the whole stream that it shows. Every
subtraction and slice of the code is checked here: a push that would underflow or leave a
slice's range gives no buffer.
-/

set_option autoImplicit false

namespace AioLM.ProcessOutput

inductive Retain where
  | head
  | tail
  deriving DecidableEq

/-- The bytes are those of the deque from its front to its back. -/
structure OutputBuffer where
  bytes : List UInt8
  cap : Nat
  retain : Retain
  deriving DecidableEq

def checkedSub (a b : Nat) : Option Nat := if b ≤ a then some (a - b) else none

/-- `&bytes[..n]` -/
def sliceTo (bytes : List UInt8) (n : Nat) : Option (List UInt8) :=
  if n ≤ bytes.length then some (bytes.take n) else none

/-- `&bytes[n..]` -/
def sliceFrom (bytes : List UInt8) (n : Nat) : Option (List UInt8) :=
  if n ≤ bytes.length then some (bytes.drop n) else none

namespace OutputBuffer

def new (cap : Nat) (retain : Retain) : OutputBuffer := ⟨[], cap, retain⟩

def push (buffer : OutputBuffer) (chunk : List UInt8) : Option OutputBuffer :=
  match buffer.retain with
  | .head => do
    let room ← checkedSub buffer.cap buffer.bytes.length
    let kept ← sliceTo chunk (min room chunk.length)
    return { buffer with bytes := buffer.bytes ++ kept }
  | .tail =>
    if buffer.cap ≤ chunk.length then do
      let kept ← sliceFrom chunk (chunk.length - buffer.cap)
      return { buffer with bytes := kept }
    else do
      let room ← checkedSub buffer.cap chunk.length
      let excess := buffer.bytes.length - room
      -- the drained front has to be there
      let rest ← sliceFrom buffer.bytes excess
      return { buffer with bytes := rest ++ chunk }

/-- The deque shows its bytes as two slices, cut where its storage wraps. -/
def snapshot (buffer : OutputBuffer) (wrap : Nat) : List UInt8 :=
  let first := buffer.bytes.take wrap
  let second := buffer.bytes.drop wrap
  first ++ second

def clear (buffer : OutputBuffer) : OutputBuffer := { buffer with bytes := [] }

end OutputBuffer

inductive Call where
  | push (chunk : List UInt8)
  | clear

def OutputBuffer.call (buffer : OutputBuffer) : Call → Option OutputBuffer
  | .push chunk => buffer.push chunk
  | .clear => some buffer.clear

/-- What the pushes since the last clear brought. -/
def stream (calls : List Call) : List UInt8 :=
  calls.foldl (fun bytes call =>
    match call with
    | .push chunk => bytes ++ chunk
    | .clear => []) []

def window (cap : Nat) (retain : Retain) (bytes : List UInt8) : List UInt8 :=
  let kept := min cap bytes.length
  match retain with
  | .head => bytes.take kept
  | .tail => bytes.drop (bytes.length - kept)

variable {cap : Nat} {retain : Retain} {bytes chunk : List UInt8}

theorem window_head (cap : Nat) (bytes : List UInt8) :
    window cap .head bytes = bytes.take cap := by
  rw [window]
  exact List.take_eq_take_min.symm

theorem window_tail (cap : Nat) (bytes : List UInt8) :
    window cap .tail bytes = bytes.drop (bytes.length - cap) := by
  have hstart : bytes.length - min cap bytes.length = bytes.length - cap := by omega
  rw [window, hstart]

theorem length_window (cap : Nat) (retain : Retain) (bytes : List UInt8) :
    (window cap retain bytes).length = min cap bytes.length := by
  cases retain with
  | head => simp [window_head]
  | tail =>
    rw [window_tail, List.length_drop]
    omega

theorem window_append_head (cap : Nat) (bytes chunk : List UInt8) :
    window cap .head (bytes ++ chunk) =
      window cap .head bytes ++ chunk.take (cap - (window cap .head bytes).length) := by
  rw [length_window, window_head, window_head, List.take_append]
  congr 2
  omega

theorem window_append_tail (hfits : chunk.length < cap) (bytes : List UInt8) :
    window cap .tail (bytes ++ chunk) =
      (window cap .tail bytes).drop ((window cap .tail bytes).length - (cap - chunk.length)) ++
        chunk := by
  rw [length_window, window_tail, window_tail, List.length_append, List.drop_drop,
    List.drop_append_of_le_length (by omega)]
  congr 2
  omega

theorem window_append_long (hlong : cap ≤ chunk.length) (bytes : List UInt8) :
    window cap .tail (bytes ++ chunk) = chunk.drop (chunk.length - cap) := by
  have hstart : (bytes ++ chunk).length - cap = bytes.length + (chunk.length - cap) := by
    rw [List.length_append]
    omega
  rw [window_tail, hstart, ← List.drop_drop, List.drop_left]

structure OutputBuffer.Shows (buffer : OutputBuffer) (cap : Nat) (retain : Retain)
    (bytes : List UInt8) : Prop where
  cap_eq : buffer.cap = cap
  retain_eq : buffer.retain = retain
  bytes_eq : buffer.bytes = window cap retain bytes

theorem OutputBuffer.Shows.length_le {buffer : OutputBuffer}
    (h : buffer.Shows cap retain bytes) : buffer.bytes.length ≤ cap := by
  rw [h.bytes_eq, length_window]
  exact Nat.min_le_left _ _

theorem push_shows {buffer : OutputBuffer} (h : buffer.Shows cap retain bytes)
    (chunk : List UInt8) :
    ∃ buffer', buffer.push chunk = some buffer' ∧ buffer'.Shows cap retain (bytes ++ chunk) := by
  obtain ⟨held, cap, retain⟩ := buffer
  obtain ⟨rfl, rfl, hbytes⟩ := h
  replace hbytes : held = window cap retain bytes := hbytes
  have hlength : held.length = min cap bytes.length := by
    rw [hbytes, length_window]
  cases retain with
  | head =>
    have hroom : checkedSub cap held.length = some (cap - held.length) := if_pos (by omega)
    have hkept : sliceTo chunk (min (cap - held.length) chunk.length) =
        some (chunk.take (cap - held.length)) := by
      rw [sliceTo, if_pos (Nat.min_le_right _ _), ← List.take_eq_take_min]
    refine ⟨⟨held ++ chunk.take (cap - held.length), cap, .head⟩,
      by simp [OutputBuffer.push, hroom, hkept], rfl, rfl, ?_⟩
    rw [window_append_head, ← hbytes]
  | tail =>
    by_cases hlong : cap ≤ chunk.length
    · have hkept : sliceFrom chunk (chunk.length - cap) =
          some (chunk.drop (chunk.length - cap)) := if_pos (Nat.sub_le _ _)
      refine ⟨⟨chunk.drop (chunk.length - cap), cap, .tail⟩,
        by simp [OutputBuffer.push, hlong, hkept], rfl, rfl, ?_⟩
      rw [window_append_long hlong]
    · have hroom : checkedSub cap chunk.length = some (cap - chunk.length) := if_pos (by omega)
      have hrest : sliceFrom held (held.length - (cap - chunk.length)) =
          some (held.drop (held.length - (cap - chunk.length))) := if_pos (Nat.sub_le _ _)
      refine ⟨⟨held.drop (held.length - (cap - chunk.length)) ++ chunk, cap, .tail⟩,
        by simp [OutputBuffer.push, hlong, hroom, hrest], rfl, rfl, ?_⟩
      rw [window_append_tail (show chunk.length < cap by omega), ← hbytes]

theorem new_shows (cap : Nat) (retain : Retain) :
    (OutputBuffer.new cap retain).Shows cap retain [] := by
  refine ⟨rfl, rfl, ?_⟩
  cases retain <;> simp [OutputBuffer.new, window]

theorem clear_shows {buffer : OutputBuffer} (h : buffer.Shows cap retain bytes) :
    buffer.clear.Shows cap retain [] := by
  refine ⟨h.cap_eq, h.retain_eq, ?_⟩
  cases retain <;> simp [OutputBuffer.clear, window]

/-- Whatever is pushed and cleared, no push fails and the log shows the window of what was
pushed since the last clear, within its capacity. -/
theorem snapshot_window (cap : Nat) (retain : Retain) (calls : List Call) :
    ∃ buffer, calls.foldlM OutputBuffer.call (.new cap retain) = some buffer ∧
      buffer.bytes.length ≤ cap ∧
        ∀ wrap, buffer.snapshot wrap = window cap retain (stream calls) := by
  have hrun : ∃ buffer, calls.foldlM OutputBuffer.call (.new cap retain) = some buffer ∧
      buffer.Shows cap retain (stream calls) := by
    induction calls using List.reverseRecOn with
    | nil => exact ⟨_, rfl, new_shows cap retain⟩
    | append_singleton calls call ih =>
      obtain ⟨buffer, hbuffer, hshows⟩ := ih
      rw [List.foldlM_append, hbuffer]
      cases call with
      | push chunk =>
        obtain ⟨buffer', hpush, hshows'⟩ := push_shows hshows chunk
        refine ⟨buffer', by simp [OutputBuffer.call, hpush], ?_⟩
        simpa [stream] using hshows'
      | clear =>
        refine ⟨buffer.clear, rfl, ?_⟩
        simpa [stream] using clear_shows hshows
  obtain ⟨buffer, hbuffer, hshows⟩ := hrun
  refine ⟨buffer, hbuffer, hshows.length_le, fun wrap => ?_⟩
  rw [OutputBuffer.snapshot, List.take_append_drop, hshows.bytes_eq]

/-- A push that is longer than the log leaves its end. -/
example : (OutputBuffer.new 2 .tail).push [1, 2, 3] = some ⟨[2, 3], 2, .tail⟩ := by decide

end AioLM.ProcessOutput
