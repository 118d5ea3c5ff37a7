import Mathlib.Data.Char
import Mathlib.Data.List.Lex
import AioLM.KeyMap
import AioLM.Text

/-!
Help discoveries of the settings owners: one publication slot an owner, tickets
with a cancellation flag, and the cache of complete reports.
-/

set_option autoImplicit false

namespace AioLM.Help

def parserVersion : Nat := 7

def cacheEntries : Nat := 16

def activeLimit : Nat := 128

structure Identity where
  fingerprint : Text
  parserVersion : Nat
  deriving DecidableEq

structure TextOutput where
  decodingLoss : Bool
  truncated : Bool
  readError : Option Text
  deriving DecidableEq

structure HelpReport where
  identity : Identity
  stdout : TextOutput
  stderr : TextOutput
  success : Bool
  cancelled : Bool
  timedOut : Bool
  error : Option Text
  deriving DecidableEq

def HelpReport.complete (report : HelpReport) : Bool :=
  report.identity.parserVersion == parserVersion && report.success && report.error.isNone &&
    !report.cancelled && !report.timedOut &&
    [report.stdout, report.stderr].all fun s =>
      !s.truncated && !s.decodingLoss && s.readError.isNone

structure DiscoveryTicket where
  id : Text
  owner : Text
  deriving DecidableEq

/-- `raised` holds the ids of the tickets whose shared flag is set: the flag is made
with the ticket and is the same cell in every clone of it. -/
structure HelpService where
  active : KeyMap Text DiscoveryTicket := .empty
  cache : KeyMap Text HelpReport := .empty
  raised : List Text := []

namespace HelpService

variable (s : HelpService)

def isCurrent (ticket : DiscoveryTicket) : Bool :=
  (s.active.get ticket.owner).any fun t => t.id == ticket.id

def raise (tickets : List DiscoveryTicket) : HelpService :=
  { s with raised := tickets.map (·.id) ++ s.raised }

/-- `id` is the identifier drawn for the new ticket. -/
def begin (owner : Text) (id : Text) : Except Text (DiscoveryTicket × HelpService) :=
  if owner = [] ∨ 512 < owner.utf8Len ∨ '\x00' ∈ owner then
    .error "invalid discovery owner".toList
  else if activeLimit ≤ s.active.entries.length ∧ (s.active.get owner).isNone then
    .error "too many active help discoveries".toList
  else
    let ticket := ⟨id, owner⟩
    let inserted := { s with active := s.active.insert owner ticket }
    match s.active.get owner with
    | some previous => .ok (ticket, inserted.raise [previous])
    | none => .ok (ticket, inserted)

def values : List DiscoveryTicket := s.active.entries.map (·.2)

def cancel (id : Text) : Bool × HelpService :=
  match s.values.find? fun t => t.id == id with
  | some ticket => (true, s.raise [ticket])
  | none => (false, s)

def cancelOwner (owner : Text) : Bool × HelpService :=
  match s.active.get owner with
  | some ticket => (true, s.raise [ticket])
  | none => (false, s)

def cancelAll : Nat × HelpService :=
  (s.values.length, s.raise s.values)

def remove (owner : Text) : HelpService := { s with active := s.active.erase owner }

/-- A full cache drops its first key to make room. -/
def evict : KeyMap Text HelpReport :=
  if cacheEntries ≤ s.cache.entries.length then
    match s.cache.entries with
    | (key, _) :: _ => s.cache.erase key
    | [] => s.cache
  else s.cache

def remember (report : HelpReport) : HelpService :=
  if report.complete then
    { s with cache := s.evict.insert report.identity.fingerprint report }
  else s

/-- What `publish` returns and leaves behind; `ran` tells whether the caller's
persistent write was made. -/
structure Publication where
  result : Except Text Unit
  service : HelpService
  ran : Bool

/-- The whole of it happens under the service's lock; `persist` is what the
caller's write would answer. -/
def publish (ticket : DiscoveryTicket) (report : HelpReport) (persist : Except Text Unit) :
    Publication :=
  if !s.isCurrent ticket then
    ⟨.error "help discovery superseded; late result discarded".toList, s, false⟩
  else if s.raised.contains ticket.id then
    ⟨.error "help discovery cancelled".toList, s.remove ticket.owner, false⟩
  else
    match persist with
    | .error error => ⟨.error error, s.remove ticket.owner, true⟩
    | .ok () => ⟨.ok (), (s.remove ticket.owner).remember report, true⟩

def failed (ticket : DiscoveryTicket) : HelpService :=
  if s.isCurrent ticket then s.remove ticket.owner else s

variable {s} {ticket : DiscoveryTicket}

theorem isCurrent_iff :
    s.isCurrent ticket = true ↔ ∃ t, s.active.get ticket.owner = some t ∧ t.id = ticket.id := by
  cases h : s.active.get ticket.owner <;> simp [isCurrent, h]

theorem mem_values : ticket ∈ s.values ↔ ∃ owner, s.active.get owner = some ticket := by
  simp [values, KeyMap.get_eq_some]

theorem get_remove (owner o : Text) :
    (s.remove owner).active.get o = if o = owner then none else s.active.get o := by
  simp [remove, KeyMap.get_erase]

@[simp] theorem raised_remove (owner : Text) : (s.remove owner).raised = s.raised := rfl

@[simp] theorem cache_remove (owner : Text) : (s.remove owner).cache = s.cache := rfl

@[simp] theorem active_remember (report : HelpReport) :
    (s.remember report).active = s.active := by
  unfold remember
  split <;> rfl

@[simp] theorem raised_remember (report : HelpReport) :
    (s.remember report).raised = s.raised := by
  unfold remember
  split <;> rfl

/-- Everything a successful `begin` does. -/
theorem begin_ok {owner id : Text} {ticket : DiscoveryTicket} {s' : HelpService}
    (h : s.begin owner id = .ok (ticket, s')) :
    ticket = ⟨id, owner⟩ ∧
      s' = raise { s with active := s.active.insert owner ⟨id, owner⟩ }
        (s.active.get owner).toList := by
  unfold begin at h
  split at h
  · cases h
  split at h
  · cases h
  cases hold : s.active.get owner with
  | none =>
    simp only [hold] at h
    cases h
    exact ⟨rfl, rfl⟩
  | some previous =>
    simp only [hold] at h
    cases h
    exact ⟨rfl, rfl⟩

theorem cancel_eq (id : Text) :
    (s.cancel id).2 = s.raise (s.values.find? fun t => t.id == id).toList := by
  unfold cancel
  cases s.values.find? (fun t => t.id == id) <;> rfl

theorem cancelOwner_eq (owner : Text) :
    (s.cancelOwner owner).2 = s.raise (s.active.get owner).toList := by
  unfold cancelOwner
  cases s.active.get owner <;> rfl

/-- The four ways through `publish`. -/
theorem publish_cases (s : HelpService) (ticket : DiscoveryTicket) (report : HelpReport)
    (persist : Except Text Unit) :
    (s.isCurrent ticket = false ∧ (s.publish ticket report persist).service = s ∧
      (s.publish ticket report persist).ran = false) ∨
    (s.isCurrent ticket = true ∧ ticket.id ∈ s.raised ∧
      (s.publish ticket report persist).service = s.remove ticket.owner ∧
      (s.publish ticket report persist).ran = false) ∨
    (s.isCurrent ticket = true ∧ ticket.id ∉ s.raised ∧ persist ≠ .ok () ∧
      (s.publish ticket report persist).service = s.remove ticket.owner ∧
      (s.publish ticket report persist).ran = true) ∨
    (s.isCurrent ticket = true ∧ ticket.id ∉ s.raised ∧ persist = .ok () ∧
      (s.publish ticket report persist).service = (s.remove ticket.owner).remember report ∧
      (s.publish ticket report persist).ran = true) := by
  unfold publish
  cases hcurrent : s.isCurrent ticket with
  | false => simp
  | true =>
    by_cases hraised : ticket.id ∈ s.raised
    · simp [hraised]
    · cases persist <;> simp [hraised]

theorem length_evict (h : s.cache.entries.length ≤ cacheEntries) :
    s.evict.entries.length < cacheEntries := by
  unfold evict
  split
  · cases hentries : s.cache.entries with
    | nil => simp [hentries, cacheEntries]
    | cons e rest =>
      have hthere : (s.cache.get e.1).isSome := by
        rw [KeyMap.get_eq_some.mpr (by rw [hentries]; exact List.mem_cons_self)]
        rfl
      have hlength := KeyMap.length_erase hthere
      simp only
      omega
  · omega

theorem get_evict {key : Text} {report : HelpReport} (h : s.evict.get key = some report) :
    s.cache.get key = some report := by
  unfold evict at h
  split at h
  · cases hentries : s.cache.entries with
    | nil => simpa [hentries] using h
    | cons e rest =>
      simp only [hentries, KeyMap.get_erase] at h
      split at h
      · cases h
      · exact h
  · exact h

theorem length_remember (report : HelpReport) (h : s.cache.entries.length ≤ cacheEntries) :
    (s.remember report).cache.entries.length ≤ cacheEntries := by
  unfold remember
  split
  · have hevict := length_evict h
    simp only [KeyMap.length_insert]
    split <;> omega
  · exact h

theorem get_remember {report : HelpReport} {key : Text} {held : HelpReport}
    (h : (s.remember report).cache.get key = some held) :
    (report.complete = true ∧ key = report.identity.fingerprint ∧ held = report) ∨
      s.cache.get key = some held := by
  unfold remember at h
  split at h
  · rename_i hcomplete
    simp only [KeyMap.get_insert] at h
    split at h
    · rename_i hkey
      cases h
      exact .inl ⟨hcomplete, hkey, rfl⟩
    · exact .inr (get_evict h)
  · exact .inr h

theorem get_remember_self {report : HelpReport} (h : report.complete = true) :
    (s.remember report).cache.get report.identity.fingerprint = some report := by
  simp [remember, h, KeyMap.get_insert]

end HelpService

end AioLM.Help
