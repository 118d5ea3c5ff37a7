import AioLM.HelpService
import AioLM.Runs

/-!
What the persistent writes, the slots and the cache of help discovery keep along
every interleaving of the service's operations.
-/

set_option autoImplicit false

namespace AioLM.Help

open AioLM.Runs

inductive Event where
  | begun (ticket : DiscoveryTicket)
  | persisted (ticket : DiscoveryTicket) (report : HelpReport) (answer : Except Text Unit)
  | failed (ticket : DiscoveryTicket)
  | reached (ticket : DiscoveryTicket)

namespace Event

def ticket : Event → DiscoveryTicket
  | begun ticket => ticket
  | persisted ticket _ _ => ticket
  | failed ticket => ticket
  | reached ticket => ticket

def begunBy (owner : Text) : Event → Option DiscoveryTicket
  | begun ticket => if ticket.owner = owner then some ticket else none
  | _ => none

def caches : Event → Option HelpReport
  | persisted _ report (.ok ()) => if report.complete then some report else none
  | _ => none

end Event

/-- The service with the history of its calls, the newest first. -/
structure Session where
  service : HelpService := {}
  log : List Event := []

inductive Action where
  | begin (owner id : Text)
  | publish (ticket : DiscoveryTicket) (report : HelpReport) (persist : Except Text Unit)
  | failed (ticket : DiscoveryTicket)
  | cancel (id : Text)
  | cancelOwner (owner : Text)
  | cancelAll

def latest (owner : Text) (log : List Event) : Option DiscoveryTicket :=
  log.findSome? (Event.begunBy owner)

def newestCached (log : List Event) : Option HelpReport := log.findSome? Event.caches

namespace Session

def next (s : Session) : Action → Session
  | .begin owner id =>
    match s.service.begin owner id with
    | .ok (ticket, service) => ⟨service, .begun ticket :: s.log⟩
    | .error _ => s
  | .publish ticket report persist =>
    let publication := s.service.publish ticket report persist
    ⟨publication.service,
      if publication.ran then .persisted ticket report persist :: s.log else s.log⟩
  | .failed ticket => ⟨s.service.failed ticket, .failed ticket :: s.log⟩
  | .cancel id =>
    ⟨(s.service.cancel id).2,
      (s.service.values.find? fun t => t.id == id).toList.map .reached ++ s.log⟩
  | .cancelOwner owner =>
    ⟨(s.service.cancelOwner owner).2, (s.service.active.get owner).toList.map .reached ++ s.log⟩
  | .cancelAll => ⟨s.service.cancelAll.2, s.service.values.map .reached ++ s.log⟩

def step (s : Session) (a : Action) : Option Session := some (s.next a)

/-- Identifiers are drawn fresh, and a caller has only the tickets `begin` gave out. -/
def Possible (s : Session) : Action → Prop
  | .begin _ id => ∀ t, .begun t ∈ s.log → t.id ≠ id
  | .publish ticket _ _ => .begun ticket ∈ s.log
  | .failed ticket => .begun ticket ∈ s.log
  | _ => True

end Session

namespace Action

def owner : Action → Option Text
  | begin owner _ => some owner
  | publish ticket _ _ => some ticket.owner
  | failed ticket => some ticket.owner
  | _ => none

def finishes : Action → Option DiscoveryTicket
  | publish ticket _ _ => some ticket
  | failed ticket => some ticket
  | _ => none

def Cancels : Action → DiscoveryTicket → Prop
  | begin owner _, t => t.owner = owner
  | cancel id, t => t.id = id
  | cancelOwner owner, t => t.owner = owner
  | cancelAll, _ => True
  | _, _ => False

end Action

/-- What must hold of the calls before a ticket's write. -/
structure Due (before : List Event) (ticket : DiscoveryTicket) : Prop where
  newest : latest ticket.owner before = some ticket
  once : ∀ report answer, .persisted ticket report answer ∉ before
  unreached : .reached ticket ∉ before
  kept : .failed ticket ∉ before

def Lawful (log : List Event) : Prop :=
  ∀ after ticket report answer before,
    log = after ++ .persisted ticket report answer :: before → Due before ticket

structure Caches (cache : KeyMap Text HelpReport) (log : List Event) : Prop where
  bound : cache.entries.length ≤ cacheEntries
  holds : ∀ key report, cache.get key = some report →
    report.complete = true ∧ key = report.identity.fingerprint ∧
      ∃ ticket, .persisted ticket report (.ok ()) ∈ log
  newest : ∀ report, newestCached log = some report →
    cache.get report.identity.fingerprint = some report

/-- What the writes and the cache keep along a run. -/
structure Law (s : Session) : Prop where
  lawful : Lawful s.log
  caches : Caches s.service.cache s.log

/-- What a step leaves alone. -/
structure Keeps (s : Session) (a : Action) (s' : Session) : Prop where
  stale : ∀ t, a.finishes = some t → latest t.owner s.log ≠ some t → s'.service = s.service
  slot : ∀ owner, a.owner ≠ some owner →
    s'.service.active.get owner = s.service.active.get owner
  flag : ∀ t, .begun t ∈ s.log → ¬ a.Cancels t →
    (t.id ∈ s'.service.raised ↔ t.id ∈ s.service.raised)

/-- What an occupied slot tells about its ticket. -/
structure Slot (service : HelpService) (log : List Event) (t : DiscoveryTicket) : Prop where
  newest : latest t.owner log = some t
  unpersisted : ∀ report answer, .persisted t report answer ∉ log
  kept : .failed t ∉ log
  flag : t.id ∈ service.raised ↔ .reached t ∈ log

structure Slots (service : HelpService) (log : List Event) : Prop where
  owner : ∀ o t, service.active.get o = some t → t.owner = o
  slot : ∀ o t, service.active.get o = some t → Slot service log t
  ids : ∀ t u, .begun t ∈ log → .begun u ∈ log → t.id = u.id → t = u
  raised : ∀ id ∈ service.raised, ∃ t, .begun t ∈ log ∧ t.id = id
  known : ∀ e ∈ log, .begun e.ticket ∈ log

theorem latest_begun {owner : Text} {log : List Event} {t : DiscoveryTicket}
    (h : latest owner log = some t) : .begun t ∈ log ∧ t.owner = owner := by
  obtain ⟨e, he, hby⟩ := List.exists_of_findSome?_eq_some h
  cases e with
  | begun u =>
    simp only [Event.begunBy] at hby
    split at hby
    · rename_i howner
      cases hby
      exact ⟨he, howner⟩
    · cases hby
  | persisted | failed | reached => cases hby

/-- Calls that begin nothing leave every owner's newest discovery as it was. -/
theorem latest_append {owner : Text} {events log : List Event}
    (h : ∀ e ∈ events, e.begunBy owner = none) :
    latest owner (events ++ log) = latest owner log := by
  rw [latest, latest, List.findSome?_append, List.findSome?_eq_none_iff.mpr h, Option.none_or]

namespace Slots

variable {service : HelpService} {log : List Event}

theorem begun (h : Slots service log) {o : Text} {t : DiscoveryTicket}
    (ht : service.active.get o = some t) : .begun t ∈ log :=
  (latest_begun (h.slot o t ht).newest).1

theorem current_iff (h : Slots service log) {t : DiscoveryTicket} (ht : .begun t ∈ log) :
    service.isCurrent t = true ↔ service.active.get t.owner = some t := by
  rw [HelpService.isCurrent_iff]
  constructor
  · intro ⟨u, hu, hid⟩
    rw [hu, h.ids u t (h.begun hu) ht hid]
  · exact fun hslot => ⟨t, hslot, rfl⟩

/-- Calls that end `t` while no slot holds it any more. -/
theorem ended (h : Slots service log) {service' : HelpService} {t : DiscoveryTicket}
    {events : List Event} (ht : .begun t ∈ log)
    (hslots : ∀ o u, service'.active.get o = some u → service.active.get o = some u ∧ u ≠ t)
    (hraised : service'.raised = service.raised)
    (hevents : ∀ e ∈ events, e.ticket = t ∧ ∀ owner, e.begunBy owner = none) :
    Slots service' (events ++ log) where
  owner o u hu := h.owner o u (hslots o u hu).1
  slot o u hu := by
    obtain ⟨hold, hne⟩ := hslots o u hu
    obtain ⟨hnewest, hunpersisted, hkept, hflag⟩ := h.slot o u hold
    have hother (e : Event) (he : e.ticket = u) : e ∉ events := by
      intro hmem
      exact hne (he.symm.trans (hevents e hmem).1)
    constructor
    · rw [latest_append fun e he => (hevents e he).2 _]
      exact hnewest
    · intro report answer
      simp [hother (.persisted u report answer) rfl, hunpersisted]
    · simp [hother (.failed u) rfl, hkept]
    · simp [hother (.reached u) rfl, hraised, hflag]
  ids u v hu hv := by
    have hbegun (w : DiscoveryTicket) (hw : .begun w ∈ events ++ log) : .begun w ∈ log := by
      rcases List.mem_append.mp hw with hw | hw
      · have hnone := (hevents _ hw).2 w.owner
        simp [Event.begunBy] at hnone
      · exact hw
    exact h.ids u v (hbegun u hu) (hbegun v hv)
  raised id hid := by
    rw [hraised] at hid
    obtain ⟨u, hu, heq⟩ := h.raised id hid
    exact ⟨u, List.mem_append_right _ hu, heq⟩
  known e he := by
    refine List.mem_append_right _ ?_
    rcases List.mem_append.mp he with he | he
    · rw [(hevents e he).1]
      exact ht
    · exact h.known e he

theorem raise (h : Slots service log) {targets : List DiscoveryTicket}
    (htargets : ∀ t ∈ targets, t ∈ service.values) :
    Slots (service.raise targets) (targets.map .reached ++ log) where
  owner := h.owner
  slot o u hu := by
    obtain ⟨hnewest, hunpersisted, hkept, hflag⟩ := h.slot o u hu
    constructor
    · rw [latest_append (by simp [Event.begunBy])]
      exact hnewest
    · simpa using hunpersisted
    · simpa using hkept
    · have hids : u.id ∈ targets.map (·.id) ↔ u ∈ targets := by
        constructor
        · intro hid
          obtain ⟨t, ht, heq⟩ := List.mem_map.mp hid
          obtain ⟨o', ho'⟩ := HelpService.mem_values.mp (htargets t ht)
          exact h.ids t u (h.begun ho') (h.begun hu) heq ▸ ht
        · exact List.mem_map_of_mem
      simp only [HelpService.raise, List.mem_append, hids, hflag]
      simp
  ids u v hu hv := h.ids u v (by simpa using hu) (by simpa using hv)
  raised id hid := by
    rcases List.mem_append.mp hid with hid | hid
    · obtain ⟨t, ht, heq⟩ := List.mem_map.mp hid
      obtain ⟨o, ho⟩ := HelpService.mem_values.mp (htargets t ht)
      exact ⟨t, List.mem_append_right _ (h.begun ho), heq⟩
    · obtain ⟨t, ht, heq⟩ := h.raised id hid
      exact ⟨t, List.mem_append_right _ ht, heq⟩
  known e he := by
    refine List.mem_append_right _ ?_
    rcases List.mem_append.mp he with he | he
    · obtain ⟨t, ht, heq⟩ := List.mem_map.mp he
      obtain ⟨o, ho⟩ := HelpService.mem_values.mp (htargets t ht)
      exact heq ▸ h.begun ho
    · exact h.known e he

theorem begin (h : Slots service log) {o id : Text} {t : DiscoveryTicket}
    {service' : HelpService} (hok : service.begin o id = .ok (t, service'))
    (hfresh : ∀ u, .begun u ∈ log → u.id ≠ id) : Slots service' (.begun t :: log) := by
  obtain ⟨rfl, rfl⟩ := HelpService.begin_ok hok
  have hnew {e : Event} (he : e.ticket = ⟨id, o⟩) : e ∉ log := by
    intro hmem
    exact hfresh _ (he ▸ h.known e hmem) rfl
  have hprevious {i : Text} (hi : i ∈ (service.active.get o).toList.map (·.id)) :
      ∃ t, service.active.get o = some t ∧ t.id = i := by simpa using hi
  have hslots {o' : Text} {u : DiscoveryTicket}
      (hu : (service.active.insert o ⟨id, o⟩).get o' = some u) :
      (o' = o ∧ u = ⟨id, o⟩) ∨ (o' ≠ o ∧ service.active.get o' = some u) := by
    rw [KeyMap.get_insert] at hu
    split at hu
    · rename_i ho
      cases hu
      exact .inl ⟨ho, rfl⟩
    · rename_i ho
      exact .inr ⟨ho, hu⟩
  refine ⟨?_, ?_, ?_, ?_, ?_⟩
  · intro o' u hu
    rcases hslots hu with ⟨ho, rfl⟩ | ⟨-, hu⟩
    · exact ho.symm
    · exact h.owner o' u hu
  · intro o' u hu
    rcases hslots hu with ⟨ho, rfl⟩ | ⟨ho, hu⟩
    · -- the identifier is fresh, so nothing in the log is about the new ticket
      refine ⟨by simp [latest, Event.begunBy], ?_, ?_, ?_⟩
      · intro report answer
        simp [hnew (e := .persisted ⟨id, o⟩ report answer) rfl]
      · simp [hnew (e := .failed ⟨id, o⟩) rfl]
      · have hunraised : id ∉ (service.active.get o).toList.map (·.id) ++ service.raised := by
          intro hid
          rcases List.mem_append.mp hid with hid | hid
          · obtain ⟨v, hv, heq⟩ := hprevious hid
            exact hfresh v (h.begun hv) heq
          · obtain ⟨v, hv, heq⟩ := h.raised id hid
            exact hfresh v hv heq
        simpa [HelpService.raise, hnew (e := .reached ⟨id, o⟩) rfl] using hunraised
    · obtain ⟨hnewest, hunpersisted, hkept, hflag⟩ := h.slot o' u hu
      have howner := h.owner o' u hu
      refine ⟨?_, by simpa using hunpersisted, by simpa using hkept, ?_⟩
      · have hother : o ≠ u.owner := fun heq => ho (howner.symm.trans heq.symm)
        simpa [latest, Event.begunBy, hother] using hnewest
      · have hunraised : u.id ∉ (service.active.get o).toList.map (·.id) := by
          intro hid
          obtain ⟨v, hv, heq⟩ := hprevious hid
          have hsame := h.ids v u (h.begun hv) (h.begun hu) heq
          exact ho (howner.symm.trans (hsame ▸ h.owner o v hv))
        simpa [HelpService.raise] using or_iff_right_of_imp (fun hid => absurd hid
          (by simpa using hunraised)) |>.trans hflag
  · intro u v hu hv hid
    rcases List.mem_cons.mp hu with hu | hu <;> rcases List.mem_cons.mp hv with hv | hv
    · exact (Event.begun.inj hu).trans (Event.begun.inj hv).symm
    · exact absurd (hid.symm.trans (congrArg (·.id) (Event.begun.inj hu))) (hfresh v hv)
    · exact absurd (hid.trans (congrArg (·.id) (Event.begun.inj hv))) (hfresh u hu)
    · exact h.ids u v hu hv hid
  · intro i hi
    rcases List.mem_append.mp hi with hi | hi
    · obtain ⟨v, hv, heq⟩ := hprevious hi
      exact ⟨v, List.mem_cons_of_mem _ (h.begun hv), heq⟩
    · obtain ⟨v, hv, heq⟩ := h.raised i hi
      exact ⟨v, List.mem_cons_of_mem _ hv, heq⟩
  · intro e he
    rcases List.mem_cons.mp he with rfl | he
    · exact List.mem_cons_self
    · exact List.mem_cons_of_mem _ (h.known e he)

/-- With the slot of `t` emptied, no slot holds it. -/
theorem get_removed (h : Slots service log) {t u : DiscoveryTicket} {o : Text}
    (hu : (service.remove t.owner).active.get o = some u) :
    service.active.get o = some u ∧ u ≠ t := by
  rw [HelpService.get_remove] at hu
  split at hu
  · cases hu
  · rename_i ho
    refine ⟨hu, fun heq => ho ?_⟩
    rw [← heq, h.owner o u hu]

theorem get_stale (h : Slots service log) {t u : DiscoveryTicket} {o : Text}
    (ht : .begun t ∈ log) (hstale : service.isCurrent t = false)
    (hu : service.active.get o = some u) : u ≠ t := by
  intro heq
  subst heq
  rw [← h.owner o u hu] at hu
  have hcurrent := (h.current_iff ht).mpr hu
  rw [hstale] at hcurrent
  cases hcurrent

theorem failed (h : Slots service log) {t : DiscoveryTicket} (ht : .begun t ∈ log) :
    Slots (service.failed t) (.failed t :: log) := by
  have hevents : ∀ e ∈ [Event.failed t], e.ticket = t ∧ ∀ owner, e.begunBy owner = none := by
    simp [Event.ticket, Event.begunBy]
  unfold HelpService.failed
  cases hcurrent : service.isCurrent t with
  | true => exact h.ended ht (fun o u hu => h.get_removed hu) rfl hevents
  | false => exact h.ended ht (fun o u hu => ⟨hu, h.get_stale ht hcurrent hu⟩) rfl hevents

theorem publish (h : Slots service log) {t : DiscoveryTicket} (ht : .begun t ∈ log)
    (report : HelpReport) (persist : Except Text Unit) :
    Slots (service.publish t report persist).service
      (if (service.publish t report persist).ran then .persisted t report persist :: log
        else log) := by
  have hquiet : ∀ e ∈ ([] : List Event), e.ticket = t ∧ ∀ owner, e.begunBy owner = none := by
    simp
  have hwritten : ∀ e ∈ [Event.persisted t report persist],
      e.ticket = t ∧ ∀ owner, e.begunBy owner = none := by simp [Event.ticket, Event.begunBy]
  rcases HelpService.publish_cases service t report persist with
    ⟨-, hs, hran⟩ | ⟨-, -, hs, hran⟩ | ⟨-, -, -, hs, hran⟩ | ⟨-, -, -, hs, hran⟩ <;>
    rw [hs, hran]
  · exact h
  · exact h.ended ht (fun o u hu => h.get_removed hu) rfl hquiet
  · exact h.ended ht (fun o u hu => h.get_removed hu) rfl hwritten
  · refine h.ended ht (fun o u hu => h.get_removed (t := t) (o := o) ?_) (by simp) hwritten
    simpa using hu

end Slots

theorem Slot.due {service : HelpService} {log : List Event} {t : DiscoveryTicket}
    (h : Slot service log t) (hraised : t.id ∉ service.raised) : Due log t :=
  ⟨h.newest, h.unpersisted, mt h.flag.mpr hraised, h.kept⟩

namespace Lawful

variable {log : List Event}

theorem cons (h : Lawful log) {e : Event}
    (he : ∀ t report answer, e = .persisted t report answer → Due log t) :
    Lawful (e :: log) := by
  intro after t report answer before hlog
  cases after with
  | nil =>
    simp only [List.nil_append, List.cons.injEq] at hlog
    obtain ⟨hevent, rfl⟩ := hlog
    exact he t report answer hevent
  | cons a after =>
    simp only [List.cons_append, List.cons.injEq] at hlog
    exact h after t report answer before hlog.2

theorem reached (h : Lawful log) (targets : List DiscoveryTicket) :
    Lawful (targets.map .reached ++ log) := by
  induction targets with
  | nil => exact h
  | cons t targets ih => exact ih.cons (by simp)

end Lawful

namespace Caches

variable {cache : KeyMap Text HelpReport} {log : List Event}

theorem append (h : Caches cache log) (events : List Event)
    (hevents : ∀ e ∈ events, e.caches = none) : Caches cache (events ++ log) where
  bound := h.bound
  holds key report hget := by
    obtain ⟨hcomplete, hkey, t, ht⟩ := h.holds key report hget
    exact ⟨hcomplete, hkey, t, List.mem_append_right _ ht⟩
  newest report hreport := by
    rw [newestCached, List.findSome?_append, List.findSome?_eq_none_iff.mpr hevents,
      Option.none_or] at hreport
    exact h.newest report hreport

theorem remember (service : HelpService) (h : Caches service.cache log) (t : DiscoveryTicket)
    (report : HelpReport) :
    Caches (service.remember report).cache (.persisted t report (.ok ()) :: log) where
  bound := HelpService.length_remember report h.bound
  holds key held hget := by
    rcases HelpService.get_remember hget with ⟨hcomplete, hkey, rfl⟩ | hold
    · exact ⟨hcomplete, hkey, t, List.mem_cons_self⟩
    · obtain ⟨hcomplete, hkey, u, hu⟩ := h.holds key held hold
      exact ⟨hcomplete, hkey, u, List.mem_cons_of_mem _ hu⟩
  newest held hheld := by
    simp only [newestCached, List.findSome?_cons, Event.caches] at hheld
    cases hcomplete : report.complete with
    | true =>
      simp only [hcomplete, ite_true, Option.some.injEq] at hheld
      subst hheld
      exact HelpService.get_remember_self hcomplete
    | false =>
      simp only [hcomplete, Bool.false_eq_true, ite_false] at hheld
      simpa [HelpService.remember, hcomplete] using h.newest held hheld

end Caches

structure Invariant (s : Session) : Prop where
  slots : Slots s.service s.log
  law : Law s

namespace Invariant

variable {s : Session}

theorem start : Invariant {} where
  slots := ⟨by simp, by simp, by simp, by simp, by simp⟩
  law := ⟨by simp [Lawful], by simp [KeyMap.empty], by simp, by simp [newestCached]⟩

theorem raise (h : Invariant s) {targets : List DiscoveryTicket}
    (htargets : ∀ t ∈ targets, t ∈ s.service.values) :
    Invariant ⟨s.service.raise targets, targets.map .reached ++ s.log⟩ where
  slots := h.slots.raise htargets
  law := ⟨h.law.lawful.reached targets, h.law.caches.append _ (by simp [Event.caches])⟩

theorem begin (h : Invariant s) {owner id : Text}
    (hfresh : ∀ t, .begun t ∈ s.log → t.id ≠ id) : Invariant (s.next (.begin owner id)) := by
  cases hbegin : s.service.begin owner id with
  | error e =>
    simp only [Session.next, hbegin]
    exact h
  | ok begun =>
    obtain ⟨t, service⟩ := begun
    have hcache : service.cache = s.service.cache := by
      rw [(HelpService.begin_ok hbegin).2]
      rfl
    simp only [Session.next, hbegin]
    refine ⟨h.slots.begin hbegin hfresh, h.law.lawful.cons (by simp), ?_⟩
    have hquiet := h.law.caches.append [Event.begun t] (by simp [Event.caches])
    rw [hcache]
    exact hquiet

theorem publish (h : Invariant s) {t : DiscoveryTicket} (ht : .begun t ∈ s.log)
    (report : HelpReport) (persist : Except Text Unit) :
    Invariant (s.next (.publish t report persist)) := by
  have hdue (hcurrent : s.service.isCurrent t = true) (hraised : t.id ∉ s.service.raised) :
      Due s.log t :=
    (h.slots.slot _ t ((h.slots.current_iff ht).mp hcurrent)).due hraised
  refine ⟨h.slots.publish ht report persist, ?_⟩
  unfold Session.next
  rcases HelpService.publish_cases s.service t report persist with
    ⟨-, hs, hran⟩ | ⟨-, -, hs, hran⟩ | ⟨hcurrent, hraised, hfail, hs, hran⟩ |
      ⟨hcurrent, hraised, rfl, hs, hran⟩ <;> simp only [hs, hran]
  · exact h.law
  · exact ⟨h.law.lawful, h.law.caches⟩
  · refine ⟨h.law.lawful.cons ?_, ?_⟩
    · intro u r a heq
      cases heq
      exact hdue hcurrent hraised
    · refine h.law.caches.append [.persisted t report persist] ?_
      cases persist with
      | error e => simp [Event.caches]
      | ok u => exact absurd rfl hfail
  · refine ⟨h.law.lawful.cons ?_, ?_⟩
    · intro u r a heq
      cases heq
      exact hdue hcurrent hraised
    · exact Caches.remember (s.service.remove t.owner) h.law.caches t report

theorem failed (h : Invariant s) {t : DiscoveryTicket} (ht : .begun t ∈ s.log) :
    Invariant (s.next (.failed t)) := by
  refine ⟨h.slots.failed ht, h.law.lawful.cons (by simp), ?_⟩
  have hcache : (s.service.failed t).cache = s.service.cache := by
    unfold HelpService.failed
    split <;> rfl
  have hquiet := h.law.caches.append [Event.failed t] (by simp [Event.caches])
  simp only [Session.next]
  rw [hcache]
  exact hquiet

theorem next (h : Invariant s) {a : Action} (ha : s.Possible a) : Invariant (s.next a) := by
  cases a with
  | begin owner id => exact h.begin ha
  | publish t report persist => exact h.publish ha report persist
  | failed t => exact h.failed ha
  | cancel id =>
    simp only [Session.next, HelpService.cancel_eq]
    refine h.raise fun t ht => ?_
    exact List.mem_of_find?_eq_some (Option.mem_toList.mp ht)
  | cancelOwner owner =>
    simp only [Session.next, HelpService.cancelOwner_eq]
    refine h.raise fun t ht => ?_
    exact HelpService.mem_values.mpr ⟨owner, Option.mem_toList.mp ht⟩
  | cancelAll => exact h.raise fun t ht => ht

theorem reached (h : Reaches Session.step Session.Possible {} s) : Invariant s := by
  refine h.invariant start fun s s' a hs ha hstep => ?_
  cases hstep
  exact hs.next ha

theorem stale (h : Invariant s) {t : DiscoveryTicket} (ht : .begun t ∈ s.log)
    (hold : latest t.owner s.log ≠ some t) : s.service.isCurrent t = false := by
  rw [← Bool.not_eq_true, h.slots.current_iff ht]
  exact fun hslot => hold (h.slots.slot _ t hslot).newest

theorem keeps (h : Invariant s) {a : Action} (ha : s.Possible a) : Keeps s a (s.next a) where
  stale t hfinish hold := by
    cases a with
    | publish u report persist =>
      cases hfinish
      simp [Session.next, HelpService.publish, h.stale ha hold]
    | failed u =>
      cases hfinish
      simp [Session.next, HelpService.failed, h.stale ha hold]
    | begin | cancel | cancelOwner | cancelAll => cases hfinish
  slot owner howner := by
    cases a with
    | begin o id =>
      have hne : owner ≠ o := fun heq => howner (by rw [heq]; rfl)
      cases hbegin : s.service.begin o id with
      | error e => simp [Session.next, hbegin]
      | ok begun =>
        obtain ⟨t, service⟩ := begun
        simp only [Session.next, hbegin, (HelpService.begin_ok hbegin).2]
        simp [HelpService.raise, KeyMap.get_insert, hne]
    | publish t report persist =>
      have hne : owner ≠ t.owner := fun heq => howner (by rw [heq]; rfl)
      simp only [Session.next]
      rcases HelpService.publish_cases s.service t report persist with
        ⟨-, hs, -⟩ | ⟨-, -, hs, -⟩ | ⟨-, -, -, hs, -⟩ | ⟨-, -, -, hs, -⟩ <;>
        simp [hs, HelpService.get_remove, hne]
    | failed t =>
      have hne : owner ≠ t.owner := fun heq => howner (by rw [heq]; rfl)
      simp only [Session.next, HelpService.failed]
      split <;> simp [HelpService.get_remove, hne]
    | cancel id => simp [Session.next, HelpService.cancel_eq, HelpService.raise]
    | cancelOwner o => simp [Session.next, HelpService.cancelOwner_eq, HelpService.raise]
    | cancelAll => rfl
  flag t ht hspared := by
    -- only the flags of the tickets an action is about are set
    have hraise (targets : List DiscoveryTicket)
        (htargets : ∀ u ∈ targets, u ∈ s.service.values ∧ a.Cancels u) :
        t.id ∈ targets.map (·.id) ++ s.service.raised ↔ t.id ∈ s.service.raised := by
      rw [List.mem_append, or_iff_right]
      intro hid
      obtain ⟨u, hu, heq⟩ := List.mem_map.mp hid
      obtain ⟨⟨o, ho⟩, hcancels⟩ := And.imp_left HelpService.mem_values.mp (htargets u hu)
      exact hspared (h.slots.ids u t (h.slots.begun ho) ht heq ▸ hcancels)
    cases a with
    | begin o id =>
      cases hbegin : s.service.begin o id with
      | error e => simp [Session.next, hbegin]
      | ok begun =>
        obtain ⟨new, service⟩ := begun
        simp only [Session.next, hbegin, (HelpService.begin_ok hbegin).2]
        refine hraise _ fun u hu => ?_
        have hslot := Option.mem_toList.mp hu
        exact ⟨HelpService.mem_values.mpr ⟨o, hslot⟩, h.slots.owner o u hslot⟩
    | publish u report persist =>
      simp only [Session.next]
      rcases HelpService.publish_cases s.service u report persist with
        ⟨-, hs, -⟩ | ⟨-, -, hs, -⟩ | ⟨-, -, -, hs, -⟩ | ⟨-, -, -, hs, -⟩ <;> simp [hs]
    | failed u =>
      simp only [Session.next, HelpService.failed]
      split <;> simp
    | cancel id =>
      simp only [Session.next, HelpService.cancel_eq]
      refine hraise _ fun u hu => ?_
      have hfind := Option.mem_toList.mp hu
      refine ⟨List.mem_of_find?_eq_some hfind, ?_⟩
      simpa [Action.Cancels] using List.find?_some hfind
    | cancelOwner o =>
      simp only [Session.next, HelpService.cancelOwner_eq]
      refine hraise _ fun u hu => ?_
      have hslot := Option.mem_toList.mp hu
      exact ⟨HelpService.mem_values.mpr ⟨o, hslot⟩, h.slots.owner o u hslot⟩
    | cancelAll => exact hraise _ fun u hu => ⟨hu, trivial⟩

end Invariant

theorem publishes_only_latest {s : Session}
    (h : Reaches Session.step Session.Possible {} s) :
    Law s ∧ ∀ a s', s.Possible a → s.step a = some s' → Keeps s a s' := by
  have hinvariant := Invariant.reached h
  refine ⟨hinvariant.law, fun a s' ha hstep => ?_⟩
  cases hstep
  exact hinvariant.keeps ha

def firstTicket : DiscoveryTicket := ⟨['1'], ['o']⟩

def secondTicket : DiscoveryTicket := ⟨['2'], ['o']⟩

def cleanReport : HelpReport :=
  ⟨⟨['f'], parserVersion⟩, ⟨false, false, none⟩, ⟨false, false, none⟩, true, false, false, none⟩

/-- A discovery begun and replaced, then both finish. -/
def superseded : Session :=
  ({} : Session) |>.next (.begin ['o'] ['1']) |>.next (.begin ['o'] ['2'])
    |>.next (.publish firstTicket cleanReport (.ok ()))
    |>.next (.publish secondTicket cleanReport (.ok ()))

theorem publishes_only_latest_superseded :
    superseded.service.cache.entries = [(['f'], cleanReport)] ∧ Law superseded := by
  refine ⟨by decide +kernel, ?_⟩
  refine (publishes_only_latest ?_).1
  have hone : Session.Possible {} (.begin ['o'] ['1']) := by simp [Session.Possible]
  have htwo : (({} : Session).next (.begin ['o'] ['1'])).Possible (.begin ['o'] ['2']) := by
    intro t ht
    have hbegun : Event.begun t ∈ [Event.begun firstTicket] := ht
    simp only [List.mem_singleton, Event.begun.injEq] at hbegun
    subst hbegun
    decide
  refine .next (.next (.next (.next .start hone rfl) htwo rfl) ?_ rfl) ?_ rfl
  · have hbegun : Event.begun firstTicket ∈ [.begun secondTicket, .begun firstTicket] := by simp
    exact hbegun
  · have hbegun : Event.begun secondTicket ∈ [.begun secondTicket, .begun firstTicket] := by simp
    exact hbegun

end AioLM.Help
