import Mathlib.Data.Bool.AllAny
import AioLM.ProcessOutput
import AioLM.Replace
import AioLM.Text
import AioLM.Utf8

/-!
The log of a server as the interface shows it: the ends of both output streams,
without terminal controls and without the key. Taking out controls can put the key
together again, so it is taken out a second time.
-/

set_option autoImplicit false

namespace AioLM.ServerLog

open ProcessOutput

def CAP : Nat := 4096

def redacted : Text := "[REDACTED]".toList

def redactText (text secret : Text) : Text :=
  if secret.isEmpty then text else Replace.replaceAll secret redacted text

def esc : Char := Char.ofNat 27
def bel : Char := Char.ofNat 7

/-- What the scan is in: plain text, a control sequence or an operating system command. -/
inductive Mode where
  | text
  | control
  | command
  deriving DecidableEq

def stripFrom : Mode → Text → Text
  | _, [] => []
  | .text, c :: rest =>
    if c = esc then
      match rest with
      | '[' :: rest => stripFrom .control rest
      | ']' :: rest => stripFrom .command rest
      -- the character after a lone escape stays
      | rest => stripFrom .text rest
    else c :: stripFrom .text rest
  | .control, c :: rest => if c.isAlpha then stripFrom .text rest else stripFrom .control rest
  | .command, c :: rest =>
    if c = bel then stripFrom .text rest
    else if c = esc then
      match rest with
      | '\\' :: rest => stripFrom .text rest
      | rest => stripFrom .command rest
    else stripFrom .command rest

def stripAnsi (text : Text) : Text := stripFrom .text text

structure ErrBuf where
  stderr : OutputBuffer := .new CAP .tail
  stdout : OutputBuffer := .new CAP .tail
  secret : Text := []

def streams (stderr stdout : List UInt8) : Text :=
  if stdout.isEmpty then Utf8.lossy stderr
  else if stderr.isEmpty then "[stdout]\n".toList ++ Utf8.lossy stdout
  else "[stdout]\n".toList ++ Utf8.lossy stdout ++ "\n[stderr]\n".toList ++ Utf8.lossy stderr

/-- The deques show their bytes wherever their storage wraps. -/
def ErrBuf.tail (buf : ErrBuf) (wrap wrapStdout : Nat) : Text :=
  let text := streams (buf.stderr.snapshot wrap) (buf.stdout.snapshot wrapStdout)
  let text := stripAnsi (redactText text buf.secret)
  redactText text (stripAnsi buf.secret)

inductive LogCall where
  | setSecret (secret : Text)
  | clearSecret
  | push (chunk : List UInt8)
  | pushStdout (chunk : List UInt8)
  | clear

def ErrBuf.call (buf : ErrBuf) : LogCall → Option ErrBuf
  | .setSecret secret => some { buf with secret := secret }
  | .clearSecret => some { buf with secret := [] }
  | .push chunk => (buf.stderr.push chunk).map fun stderr => { buf with stderr := stderr }
  | .pushStdout chunk => (buf.stdout.push chunk).map fun stdout => { buf with stdout := stdout }
  | .clear => some { buf with stderr := buf.stderr.clear, stdout := buf.stdout.clear }

def keyChar (c : Char) : Bool := c.isLower || c.isDigit || c == '-'

variable {secret text : Text}

theorem not_infix_redactText (hne : secret ≠ []) (hapart : ∀ c ∈ redacted, c ∉ secret) :
    ¬ secret <:+: redactText text secret := by
  rw [redactText, if_neg (by simpa using hne)]
  exact Replace.not_infix_replaceAll hne (by decide) hapart text

theorem stripFrom_text {c : Char} (h : c ≠ esc) (rest : Text) :
    stripFrom .text (c :: rest) = c :: stripFrom .text rest := by
  rw [stripFrom.eq_def]
  exact if_neg h

theorem stripAnsi_plain (h : esc ∉ text) : stripAnsi text = text := by
  unfold stripAnsi
  induction text with
  | nil => rfl
  | cons c text ih =>
    rw [List.mem_cons, not_or] at h
    rw [stripFrom_text (Ne.symm h.1), ih h.2]

theorem key_apart (h : ∀ c ∈ secret, keyChar c = true) :
    esc ∉ secret ∧ ∀ c ∈ redacted, c ∉ secret := by
  have hnone : ∀ c ∈ esc :: redacted, keyChar c = false :=
    List.all_iff_forall_prop.mp (by decide)
  have hapart : ∀ c ∈ esc :: redacted, c ∉ secret := fun c hc hmem => by
    have hkey := h c hmem
    rw [hnone c hc] at hkey
    cases hkey
  exact ⟨hapart esc List.mem_cons_self, fun c hc => hapart c (List.mem_cons_of_mem _ hc)⟩

/-- Both buffers show the ends of their streams. -/
structure ErrBuf.Shows (buf : ErrBuf) (sent received : List UInt8) : Prop where
  stderr : buf.stderr.Shows CAP .tail sent
  stdout : buf.stdout.Shows CAP .tail received

theorem ErrBuf.Shows.call {buf : ErrBuf} {sent received : List UInt8}
    (h : buf.Shows sent received) (call : LogCall) :
    ∃ buf' sent' received', buf.call call = some buf' ∧ buf'.Shows sent' received' := by
  cases call with
  | setSecret secret => exact ⟨_, sent, received, rfl, h.stderr, h.stdout⟩
  | clearSecret => exact ⟨_, sent, received, rfl, h.stderr, h.stdout⟩
  | push chunk =>
    obtain ⟨stderr, hpush, hshows⟩ := push_shows h.stderr chunk
    exact ⟨{ buf with stderr := stderr }, sent ++ chunk, received,
      by rw [ErrBuf.call, hpush, Option.map_some], hshows, h.stdout⟩
  | pushStdout chunk =>
    obtain ⟨stdout, hpush, hshows⟩ := push_shows h.stdout chunk
    exact ⟨{ buf with stdout := stdout }, sent, received ++ chunk,
      by rw [ErrBuf.call, hpush, Option.map_some], h.stderr, hshows⟩
  | clear => exact ⟨_, [], [], rfl, clear_shows h.stderr, clear_shows h.stdout⟩

theorem exists_run (calls : List LogCall) :
    ∃ buf, calls.foldlM ErrBuf.call {} = some buf := by
  have hrun : ∃ buf sent received, calls.foldlM ErrBuf.call {} = some buf ∧
      buf.Shows sent received := by
    induction calls using List.reverseRecOn with
    | nil => exact ⟨{}, [], [], rfl, new_shows CAP .tail, new_shows CAP .tail⟩
    | append_singleton calls call ih =>
      obtain ⟨buf, sent, received, hbuf, hshows⟩ := ih
      obtain ⟨buf', sent', received', hcall, hshows'⟩ := hshows.call call
      refine ⟨buf', sent', received', ?_, hshows'⟩
      rw [List.foldlM_append, hbuf]
      simp [hcall]
  obtain ⟨buf, -, -, hbuf, -⟩ := hrun
  exact ⟨buf, hbuf⟩

/-- Whatever is written to the streams and however it is cut, the log does not contain a
key of generated letters while it is set. -/
theorem tail_hides_secret (secret : Text) (hne : secret ≠ [])
    (hkey : ∀ c ∈ secret, keyChar c = true) (calls : List LogCall) :
    ∃ buf, calls.foldlM ErrBuf.call {} = some buf ∧
      (buf.secret = secret → ∀ wrap wrapStdout, ¬ secret <:+: buf.tail wrap wrapStdout) := by
  obtain ⟨buf, hbuf⟩ := exists_run calls
  refine ⟨buf, hbuf, ?_⟩
  rintro rfl wrap wrapStdout
  obtain ⟨hesc, hapart⟩ := key_apart hkey
  rw [ErrBuf.tail, stripAnsi_plain hesc]
  exact not_infix_redactText hne hapart

/-- A control sequence between the halves of the key. -/
theorem tail_hides_secret_split : ∃ buf,
    [LogCall.setSecret "ab-1".toList, .push [97, 98, 27, 91, 109, 45, 49]].foldlM ErrBuf.call {} =
      some buf ∧ ¬ "ab-1".toList <:+: buf.tail 0 0 := by
  obtain ⟨buf, hbuf, hhidden⟩ := tail_hides_secret "ab-1".toList (by decide)
    (List.all_iff_forall_prop.mp (by decide)) [.setSecret "ab-1".toList, .push [97, 98, 27, 91, 109, 45, 49]]
  refine ⟨buf, hbuf, hhidden ?_ 0 0⟩
  cases hbuf
  rfl

end AioLM.ServerLog
