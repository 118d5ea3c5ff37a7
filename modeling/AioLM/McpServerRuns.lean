import AioLM.McpServers

/-!
What is left of the stored servers by every sequence of saves and removals, whichever operation
of the file system fails and wherever the process stops, as long as nothing happens between the
two renames that replace the file.
-/

set_option autoImplicit false

namespace AioLM.McpConfig

open Runs

variable {pkg : Packages} {s s' : State} {files : Folder} {servers : List McpServer}

def Event.Sound : Event → Prop
  | .loaded failed result view =>
    (failed = false → result = .ok view.before ∨ result = .ok view.after) ∧
      ∀ servers, result = .ok servers → servers = view.before ∨ servers = view.after
  | .returned _ _ => True

/-- The file is set aside: there is none under its name. -/
def State.exposed (s : State) : Bool :=
  match s.call.map Call.stage with
  | some (.activate _ true) => true
  | some (.inspectBackup _ _) => true
  | some (.restore _ _) => true
  | _ => false

/-- While the file is set aside the process goes on, nobody finds that it is missing, and bringing
it back does not fail. -/
def undisturbed (s : State) : Step → Bool
  | .begin _ => true
  | .go outcome =>
    match s.call.map Call.stage with
    | some (.inspectBackup _ _) => outcome = .done
    | some (.restore _ _) => outcome = .done
    | _ => true
  | .stop => !s.exposed
  | .look outcome => decide (outcome ≠ .done) || !s.exposed
  | .read outcome => decide (outcome ≠ .done) || !s.exposed

def Stored (files : Folder) (servers : List McpServer) : Prop :=
  (files .config = none ∧ servers = []) ∨ files .config = some (encode servers)

def Stage.Holds (s : State) (call : Call) : Stage → Prop
  | .look => Stored s.files s.view.before ∨ Stored s.files s.view.after
  | .read =>
    (Stored s.files s.view.before ∨ Stored s.files s.view.after) ∧ s.files .config ≠ none
  | .createDirectory => Stored s.files s.view.before ∧ call.servers = s.view.after
  | .stageFile => Stored s.files s.view.before ∧ call.servers = s.view.after
  | .inspect id =>
    Stored s.files s.view.before ∧ call.servers = s.view.after ∧
      s.files (.temp id) = some (encode s.view.after)
  | .setAside id =>
    s.files .config = some (encode s.view.before) ∧ call.servers = s.view.after ∧
      s.files (.temp id) = some (encode s.view.after)
  | .activate id hadExisting =>
    s.files .config = none ∧ call.servers = s.view.after ∧
      s.files (.temp id) = some (encode s.view.after) ∧
      if hadExisting then s.files (.backup id) = some (encode s.view.before)
      else s.view.before = []
  | .removeBackup _ => Stored s.files s.view.after ∧ call.servers = s.view.after
  | .inspectBackup id _ =>
    s.files .config = none ∧ s.files (.backup id) = some (encode s.view.before)
  | .restore id _ =>
    s.files .config = none ∧ s.files (.backup id) = some (encode s.view.before)
  | .removeTemp _ _ => Stored s.files s.view.before

structure Inv (s : State) : Prop where
  before : validateServers s.view.before = .ok ()
  after : validateServers s.view.after = .ok ()
  idle : s.call = none → Stored s.files s.view.before ∨ Stored s.files s.view.after
  call : ∀ call, s.call = some call → call.stage.Holds s call
  looked : s.looked ≠ 0 → s.exposed = false → s.files .config ≠ none
  log : ∀ event ∈ s.log, event.Sound

section Files

variable {name other source : Name} {content : Option Bytes}

@[simp] theorem write_self : files.write name content name = content := if_pos rfl

theorem write_other (h : other ≠ name) : files.write name content other = files other := if_neg h

@[simp] theorem write_temp_config (id : Nat) :
    files.write (.temp id) content .config = files .config :=
  write_other (by simp)

@[simp] theorem write_backup_config (id : Nat) :
    files.write (.backup id) content .config = files .config :=
  write_other (by simp)

theorem rename_spec (target : Name) {bytes : Bytes} (hsource : files source = some bytes) (hne : source ≠ target) :
    ∃ files', files.rename source target = some files' ∧ files' source = none ∧
      files' target = some bytes ∧
      ∀ name, name ≠ source → name ≠ target → files' name = files name := by
  refine ⟨(files.write source none).write target (some bytes), ?_, ?_, write_self, ?_⟩
  · rw [Folder.rename, hsource, Option.map_some]
  · rw [write_other hne, write_self]
  · intro name hs ht
    rw [write_other ht, write_other hs]

theorem Stored.congr {files' : Folder} (h : Stored files servers)
    (hconfig : files' .config = files .config) : Stored files' servers := by
  unfold Stored
  rwa [hconfig]

theorem Stored.of_some (h : files .config = some (encode servers)) : Stored files servers := .inr h

theorem Stored.present (h : Stored files servers) (hconfig : files .config ≠ none) :
    files .config = some (encode servers) := by
  rcases h with ⟨hnone, -⟩ | hsome
  · exact absurd hnone hconfig
  · exact hsome

theorem Stored.absent (h : Stored files servers) (hconfig : files .config = none) :
    servers = [] := by
  rcases h with ⟨-, hempty⟩ | hsome
  · exact hempty
  · rw [hconfig] at hsome
    cases hsome

theorem readConfig_ok (hread : pkg.ReadsBack) (hvalid : validateServers servers = .ok ())
    (h : files .config = some (encode servers)) : readConfig pkg files = .ok servers := by
  simp only [readConfig, h, hread servers, Except.mapError, hvalid, bind, Except.bind]
  rfl

end Files

section Steps

variable {call : Call} {failed : Bool} {result : Except Text (List McpServer)}
  {error : Text} {outcome : Outcome} {event : Event}

theorem Event.sound_error (error : Text) (view : View) :
    (Event.loaded true (.error error) view).Sound := by
  constructor
  · intro h
    cases h
  · intro servers h
    cases h

theorem sound_concat {log : List Event} (h : ∀ other ∈ log, other.Sound) (hevent : event.Sound) :
    ∀ other ∈ log ++ [event], other.Sound := by
  intro other hother
  rcases List.mem_append.mp hother with hlog | hlast
  · exact h other hlog
  · exact List.mem_singleton.mp hlast ▸ hevent

theorem Inv.note (h : Inv s) (hevent : event.Sound) : Inv (s.note event) where
  before := h.before
  after := h.after
  idle := h.idle
  call := by
    intro call hcall
    have hholds := h.call call hcall
    revert hholds
    cases call.stage <;> exact id
  looked := h.looked
  log := sound_concat h.log hevent

theorem inv_finish {change : Change} (hvalid : validateServers servers = .ok ())
    (hstored : Stored s.files servers) (hlooked : s.looked ≠ 0 → s.files .config ≠ none)
    (hlog : ∀ event ∈ s.log, event.Sound) : Inv (s.finish change ⟨servers, servers⟩ result) where
  before := hvalid
  after := hvalid
  idle _ := .inl hstored
  call := by
    intro call hcall
    cases hcall
  looked hne _ := hlooked hne
  log := sound_concat hlog trivial

theorem Inv.giveUp (h : Inv s) (hstored : Stored s.files s.view.before)
    (hlooked : s.looked ≠ 0 → s.files .config ≠ none) : Inv (s.giveUp call error) :=
  inv_finish h.before hstored hlooked h.log

theorem Inv.at (h : Inv s) {stage : Stage}
    (hholds : stage.Holds (s.at call stage) { call with stage := stage })
    (hlooked : s.looked ≠ 0 → (s.at call stage).exposed = false → s.files .config ≠ none) :
    Inv (s.at call stage) where
  before := h.before
  after := h.after
  idle := by
    intro hcall
    cases hcall
  call := by
    intro call hcall
    cases hcall
    exact hholds
  looked := hlooked
  log := h.log

theorem Inv.continue (h : Inv s) (hexposed : s.exposed = false)
    (hcurrent : Stored s.files s.view.before ∨ Stored s.files s.view.after)
    (hsound : (Event.loaded failed result s.view).Sound)
    (hresult : ∀ servers, result = .ok servers → Stored s.files servers) :
    Inv (s.continue call failed result) := by
  have hlog := sound_concat h.log hsound
  have hlooked (hne : s.looked ≠ 0) : s.files .config ≠ none := h.looked hne hexposed
  cases result with
  | error error =>
    refine ⟨h.before, h.after, fun _ => hcurrent, ?_, fun hne _ => hlooked hne,
      sound_concat hlog trivial⟩
    intro call hcall
    cases hcall
  | ok servers =>
    have hstored := hresult servers rfl
    have hvalid : validateServers servers = .ok () := by
      rcases hsound.2 servers rfl with rfl | rfl
      · exact h.before
      · exact h.after
    simp only [State.continue]
    split
    · exact inv_finish hvalid hstored hlooked hlog
    · rename_i hchecked
      have hafter : validateServers (call.change.apply servers) = .ok () := by
        cases hchange : call.change.validate with
        | error error => simp [hchange, bind, Except.bind] at hchecked
        | ok u => simpa [hchange, bind, Except.bind] using hchecked
      refine ⟨hvalid, hafter, ?_, ?_, fun hne _ => hlooked hne, hlog⟩
      · intro hcall
        cases hcall
      · intro call hcall
        cases hcall
        exact ⟨hstored, rfl⟩

theorem Inv.readConfig (h : Inv s) (hread : pkg.ReadsBack)
    (hcurrent : Stored s.files s.view.before ∨ Stored s.files s.view.after)
    (hconfig : s.files .config ≠ none) :
    (readConfig pkg s.files = .ok s.view.before ∧ Stored s.files s.view.before) ∨
      (readConfig pkg s.files = .ok s.view.after ∧ Stored s.files s.view.after) := by
  rcases hcurrent with hbefore | hafter
  · exact .inl ⟨readConfig_ok hread h.before (hbefore.present hconfig), hbefore⟩
  · exact .inr ⟨readConfig_ok hread h.after (hafter.present hconfig), hafter⟩

theorem sound_absent (hcurrent : Stored s.files s.view.before ∨ Stored s.files s.view.after)
    (hconfig : s.files .config = none) : (Event.loaded false (.ok []) s.view).Sound := by
  have hempty : s.view.before = [] ∨ s.view.after = [] := by
    rcases hcurrent with hbefore | hafter
    · exact .inl (hbefore.absent hconfig)
    · exact .inr (hafter.absent hconfig)
  constructor
  · intro _
    rcases hempty with h | h <;> simp [h]
  · intro servers hservers
    obtain rfl : [] = servers := Except.ok.inj hservers
    rcases hempty with h | h <;> simp [h]

theorem sound_present
    (h : (result = .ok s.view.before ∧ Stored s.files s.view.before) ∨
      (result = .ok s.view.after ∧ Stored s.files s.view.after)) :
    (Event.loaded false result s.view).Sound ∧
      ∀ servers, result = .ok servers → Stored s.files servers := by
  rcases h with ⟨rfl, hstored⟩ | ⟨rfl, hstored⟩
  · refine ⟨⟨fun _ => .inl rfl, ?_⟩, ?_⟩ <;> intro servers hservers <;> cases hservers
    · exact .inl rfl
    · exact hstored
  · refine ⟨⟨fun _ => .inr rfl, ?_⟩, ?_⟩ <;> intro servers hservers <;> cases hservers
    · exact .inr rfl
    · exact hstored

theorem Inv.loading (h : Inv s) (hread : pkg.ReadsBack) (outcome : Outcome)
    (hcall : s.call = some call) (hstage : call.stage = .look ∨ call.stage = .read) :
    (go pkg s call outcome = s.at call .read ∧ s.files .config ≠ none) ∨
      ∃ failed result, go pkg s call outcome = s.continue call failed result ∧
        (Event.loaded failed result s.view).Sound ∧
        ∀ servers, result = .ok servers → Stored s.files servers := by
  have hholds := h.call call hcall
  rcases hstage with hstage | hstage <;> rw [hstage] at hholds <;> cases outcome
  · simp only [go, hstage]
    split
    · rename_i hconfig
      refine .inr ⟨_, _, rfl, sound_absent hholds hconfig, ?_⟩
      intro servers hservers
      cases hservers
      exact .inl ⟨hconfig, rfl⟩
    · rename_i hconfig
      exact .inl ⟨rfl, hconfig⟩
  · simp only [go, hstage]
    refine .inr ⟨true, _, rfl, Event.sound_error _ _, ?_⟩
    intro servers hservers
    cases hservers
  · obtain ⟨hsound, hstored⟩ := sound_present (h.readConfig hread hholds.1 hholds.2)
    simp only [go, hstage]
    exact .inr ⟨false, _, rfl, hsound, hstored⟩
  · simp only [go, hstage]
    refine .inr ⟨true, _, rfl, Event.sound_error _ _, ?_⟩
    intro servers hservers
    cases hservers

theorem Inv.go_loading (h : Inv s) (hread : pkg.ReadsBack) (hcall : s.call = some call)
    (hstage : call.stage = .look ∨ call.stage = .read) : Inv (go pkg s call outcome) := by
  have hexposed : s.exposed = false := by
    rcases hstage with hstage | hstage <;> simp [State.exposed, hcall, hstage]
  have hcurrent : Stored s.files s.view.before ∨ Stored s.files s.view.after := by
    have hholds := h.call call hcall
    rcases hstage with hstage | hstage <;> rw [hstage] at hholds
    · exact hholds
    · exact hholds.1
  rcases h.loading hread outcome hcall hstage with ⟨hgo, hconfig⟩ | ⟨failed, result, hgo, hsound, hstored⟩
  · rw [hgo]
    exact h.at ⟨hcurrent, hconfig⟩ (fun hne _ => h.looked hne hexposed)
  · rw [hgo]
    exact h.continue hexposed hcurrent hsound hstored

theorem Inv.go_staging (h : Inv s) (hcall : s.call = some call)
    (hstage : call.stage = .createDirectory ∨ call.stage = .stageFile) :
    Inv (go pkg s call outcome) := by
  have hholds := h.call call hcall
  have hexposed : s.exposed = false := by
    rcases hstage with hstage | hstage <;> simp [State.exposed, hcall, hstage]
  have hlooked (hne : s.looked ≠ 0) : s.files .config ≠ none := h.looked hne hexposed
  rcases hstage with hstage | hstage <;> rw [hstage] at hholds <;>
    obtain ⟨hbefore, hservers⟩ := hholds <;> cases outcome
  · simp only [go, hstage]
    exact h.at ⟨hbefore, hservers⟩ (fun hne _ => hlooked hne)
  · simp only [go, hstage]
    exact h.giveUp hbefore hlooked
  · simp only [go, hstage]
    refine ⟨h.before, h.after, ?_, ?_, ?_, h.log⟩
    · intro hnone
      cases hnone
    · intro other hother
      cases hother
      have htemp : s.files.write (.temp s.fresh) (some (encode call.servers)) (.temp s.fresh) =
          some (encode s.view.after) := by rw [write_self, hservers]
      have hconfig : s.files.write (.temp s.fresh) (some (encode call.servers)) .config =
          s.files .config := write_temp_config _
      exact ⟨hbefore.congr hconfig, hservers, htemp⟩
    · intro hne _
      simpa [State.at] using hlooked hne
  · rename_i error left
    have hconfig : (if left = none then s.files else s.files.write (.temp s.fresh) left) .config =
        s.files .config := by
      split
      · rfl
      · exact write_temp_config _
    simp only [go, hstage]
    exact inv_finish h.before (hbefore.congr hconfig)
      (fun hne => hconfig.trans_ne (hlooked hne)) h.log

theorem Inv.go_inspect {id : Nat} (h : Inv s) (hcall : s.call = some call)
    (hstage : call.stage = .inspect id) : Inv (go pkg s call outcome) := by
  have hholds := h.call call hcall
  have hexposed : s.exposed = false := by simp [State.exposed, hcall, hstage]
  have hlooked (hne : s.looked ≠ 0) : s.files .config ≠ none := h.looked hne hexposed
  rw [hstage] at hholds
  obtain ⟨hbefore, hservers, htemp⟩ := hholds
  cases outcome
  · simp only [go, hstage]
    by_cases hconfig : s.files .config = none
    · rw [if_pos hconfig]
      refine h.at ⟨hconfig, hservers, htemp, ?_⟩ (fun hne _ => hlooked hne)
      exact hbefore.absent hconfig
    · rw [if_neg hconfig]
      exact h.at ⟨hbefore.present hconfig, hservers, htemp⟩ (fun hne _ => hlooked hne)
  · simp only [go, hstage]
    exact h.at hbefore (fun hne _ => hlooked hne)

theorem Inv.go_setAside {id : Nat} (h : Inv s) (hcall : s.call = some call)
    (hstage : call.stage = .setAside id) : Inv (go pkg s call outcome) := by
  have hholds := h.call call hcall
  have hexposed : s.exposed = false := by simp [State.exposed, hcall, hstage]
  rw [hstage] at hholds
  obtain ⟨hconfig, hservers, htemp⟩ := hholds
  cases outcome
  · obtain ⟨files, hrename, hsource, htarget, hother⟩ :=
      rename_spec (.backup id) hconfig (by simp)
    simp only [go, hstage, hrename]
    refine ⟨h.before, h.after, ?_, ?_, ?_, h.log⟩
    · intro hnone
      cases hnone
    · intro other hcall'
      cases hcall'
      refine ⟨hsource, hservers, ?_, ?_⟩
      · exact (hother (.temp id) (by simp) (by simp)).trans htemp
      · exact htarget
    · intro _ hshown
      simp [State.exposed, State.at] at hshown
  · simp only [go, hstage]
    exact h.at (.of_some hconfig) (fun hne _ => h.looked hne hexposed)

theorem Inv.go_activate {id : Nat} {hadExisting : Bool} (h : Inv s) (hcall : s.call = some call)
    (hstage : call.stage = .activate id hadExisting) : Inv (go pkg s call outcome) := by
  have hholds := h.call call hcall
  rw [hstage] at hholds
  obtain ⟨hconfig, hservers, htemp, hbackup⟩ := hholds
  cases outcome
  · obtain ⟨files, hrename, -, htarget, -⟩ := rename_spec .config htemp (by simp)
    have hpresent : files .config ≠ none := by
      rw [htarget]
      exact Option.some_ne_none _
    cases hadExisting
    · simp only [go, hstage, hrename, Bool.false_eq_true, if_false]
      rw [hservers]
      exact inv_finish h.after (.of_some htarget) (fun _ => hpresent) h.log
    · simp only [go, hstage, hrename, if_true]
      refine ⟨h.before, h.after, ?_, ?_, fun _ _ => hpresent, h.log⟩
      · intro hnone
        cases hnone
      · intro other hcall'
        cases hcall'
        exact ⟨.of_some htarget, hservers⟩
  · cases hadExisting
    · have hexposed : s.exposed = false := by simp [State.exposed, hcall, hstage]
      simp only [go, hstage, Bool.false_eq_true, if_false]
      exact h.at (.inl ⟨hconfig, hbackup⟩) (fun hne _ => h.looked hne hexposed)
    · simp only [go, hstage, if_true]
      refine h.at ⟨hconfig, hbackup⟩ ?_
      intro _ hshown
      simp [State.exposed, State.at] at hshown

theorem Inv.go_removeBackup {id : Nat} (h : Inv s) (hcall : s.call = some call)
    (hstage : call.stage = .removeBackup id) : Inv (go pkg s call outcome) := by
  have hholds := h.call call hcall
  have hexposed : s.exposed = false := by simp [State.exposed, hcall, hstage]
  rw [hstage] at hholds
  obtain ⟨hafter, hservers⟩ := hholds
  have hconfig : (if outcome = .done then s.files.write (.backup id) none else s.files) .config =
      s.files .config := by
    split
    · exact write_backup_config _
    · rfl
  simp only [go, hstage]
  rw [hservers]
  exact inv_finish h.after (hafter.congr hconfig)
    (fun hne => hconfig.trans_ne (h.looked hne hexposed)) h.log

theorem Inv.go_restoring {id : Nat} (h : Inv s) (hcall : s.call = some call)
    (hstage : call.stage = .inspectBackup id error ∨ call.stage = .restore id error) :
    Inv (go pkg s call .done) := by
  have hholds := h.call call hcall
  rcases hstage with hstage | hstage <;> rw [hstage] at hholds <;>
    obtain ⟨hconfig, hbackup⟩ := hholds
  · have hthere : s.files (.backup id) ≠ none := by
      rw [hbackup]
      exact Option.some_ne_none _
    simp only [go, hstage]
    rw [if_pos ⟨trivial, hthere⟩]
    refine h.at ⟨hconfig, hbackup⟩ ?_
    intro _ hshown
    simp [State.exposed, State.at] at hshown
  · obtain ⟨files, hrename, -, htarget, -⟩ := rename_spec .config hbackup (by simp)
    simp only [go, hstage, hrename, if_true, Option.getD_some]
    refine ⟨h.before, h.after, ?_, ?_, ?_, h.log⟩
    · intro hnone
      cases hnone
    · intro other hcall'
      cases hcall'
      exact .of_some htarget
    · intro _ _
      exact htarget.trans_ne (Option.some_ne_none _)

theorem Inv.go_removeTemp {id : Nat} (h : Inv s) (hcall : s.call = some call)
    (hstage : call.stage = .removeTemp id error) : Inv (go pkg s call outcome) := by
  have hholds := h.call call hcall
  have hexposed : s.exposed = false := by simp [State.exposed, hcall, hstage]
  rw [hstage] at hholds
  have hconfig : (if outcome = .done then s.files.write (.temp id) none else s.files) .config =
      s.files .config := by
    split
    · exact write_temp_config _
    · rfl
  rw [removeTemp_eq hstage]
  exact inv_finish h.before (Stored.congr hholds hconfig)
    (fun hne => hconfig.trans_ne (h.looked hne hexposed)) h.log

theorem inv_go (h : Inv s) (hread : pkg.ReadsBack) (hcall : s.call = some call)
    (hcalm : undisturbed s (.go outcome) = true) : Inv (go pkg s call outcome) := by
  cases hstage : call.stage with
  | look => exact h.go_loading hread hcall (.inl hstage)
  | read => exact h.go_loading hread hcall (.inr hstage)
  | createDirectory => exact h.go_staging hcall (.inl hstage)
  | stageFile => exact h.go_staging hcall (.inr hstage)
  | inspect id => exact h.go_inspect hcall hstage
  | setAside id => exact h.go_setAside hcall hstage
  | activate id hadExisting => exact h.go_activate hcall hstage
  | removeBackup id => exact h.go_removeBackup hcall hstage
  | inspectBackup id error =>
    obtain rfl : outcome = .done := by simpa [undisturbed, hcall, hstage] using hcalm
    exact h.go_restoring hcall (.inl hstage)
  | restore id error =>
    obtain rfl : outcome = .done := by simpa [undisturbed, hcall, hstage] using hcalm
    exact h.go_restoring hcall (.inr hstage)
  | removeTemp id error => exact h.go_removeTemp hcall hstage

end Steps

section Runs

variable {a : Step} {id : Text} {call : Call} {outcome : Outcome}

theorem inv_start (hstored : Stored files servers) (hvalid : validateServers servers = .ok ()) :
    Inv (State.start files servers) where
  before := hvalid
  after := hvalid
  idle _ := .inl hstored
  call := by
    intro call hcall
    cases hcall
  looked hne := absurd rfl hne
  log := by
    intro event hevent
    cases hevent

/-- Outside the two renames the file holds one of the two lists. -/
theorem Inv.current (h : Inv s) (hexposed : s.exposed = false) :
    Stored s.files s.view.before ∨ Stored s.files s.view.after := by
  cases hcall : s.call with
  | none => exact h.idle hcall
  | some call =>
    have hholds := h.call call hcall
    cases hstage : call.stage <;> rw [hstage] at hholds
    case look => exact hholds
    case read => exact hholds.1
    case createDirectory => exact .inl hholds.1
    case stageFile => exact .inl hholds.1
    case inspect => exact .inl hholds.1
    case setAside => exact .inl (.of_some hholds.1)
    case activate id hadExisting =>
      cases hadExisting
      · exact .inl (.inl ⟨hholds.1, hholds.2.2.2⟩)
      · simp [State.exposed, hcall, hstage] at hexposed
    case removeBackup => exact .inr hholds.1
    case inspectBackup => simp [State.exposed, hcall, hstage] at hexposed
    case restore => simp [State.exposed, hcall, hstage] at hexposed
    case removeTemp => exact .inl hholds

theorem Inv.start_call (h : Inv s) (hnone : s.call = none) (change : Change) :
    Inv { s with call := some ⟨change, [], .look⟩ } where
  before := h.before
  after := h.after
  idle := by
    intro hcall
    cases hcall
  call := by
    intro call hcall
    cases hcall
    exact h.idle hnone
  looked hne _ := h.looked hne (by simp [State.exposed, hnone])
  log := h.log

theorem Inv.reader (h : Inv s) (looked : Nat)
    (hlooked : looked ≠ 0 → s.exposed = false → s.files .config ≠ none) :
    Inv { s with looked := looked } where
  before := h.before
  after := h.after
  idle := h.idle
  call := by
    intro call hcall
    have hholds := h.call call hcall
    revert hholds
    cases call.stage <;> exact id
  looked := hlooked
  log := h.log

theorem step_inv (hread : pkg.ReadsBack) (h : Inv s) (hcalm : undisturbed s a = true)
    (hstep : step pkg s a = some s') : Inv s' := by
  cases a with
  | begin change =>
    cases change with
    | save server =>
      by_cases hnone : s.call = none
      · obtain rfl : _ = s' := by simpa [step, hnone] using hstep
        exact h.start_call hnone _
      · simp [step, hnone] at hstep
    | remove id =>
      by_cases hvalid : validId id = false
      · obtain rfl : _ = s' := by simpa [step, hvalid] using hstep
        exact h.note trivial
      · by_cases hnone : s.call = none
        · obtain rfl : _ = s' := by simpa [step, hvalid, hnone] using hstep
          exact h.start_call hnone _
        · simp [step, hvalid, hnone] at hstep
  | go outcome =>
    obtain ⟨call, hcall, rfl⟩ := Option.map_eq_some_iff.mp hstep
    exact inv_go h hread hcall hcalm
  | stop =>
    obtain rfl : _ = s' := Option.some.inj hstep
    have hexposed : s.exposed = false := by simpa [undisturbed] using hcalm
    refine ⟨h.before, h.after, fun _ => h.current hexposed, ?_, fun hne => absurd rfl hne, h.log⟩
    intro call hcall
    cases hcall
  | look outcome =>
    cases outcome with
    | failed error left =>
      obtain rfl : _ = s' := Option.some.inj hstep
      exact h.note (Event.sound_error _ _)
    | done =>
      have hexposed : s.exposed = false := by simpa [undisturbed] using hcalm
      by_cases hconfig : s.files .config = none
      · obtain rfl : _ = s' := by simpa [step, hconfig] using hstep
        exact h.note (sound_absent (h.current hexposed) hconfig)
      · obtain rfl : _ = s' := by simpa [step, hconfig] using hstep
        exact h.reader _ (fun _ _ => hconfig)
  | read outcome =>
    by_cases hzero : s.looked = 0
    · cases outcome <;> simp [step, hzero] at hstep
    · have hless := h.reader (s.looked - 1) (fun _ hshown => h.looked hzero hshown)
      cases outcome with
      | failed error left =>
        obtain rfl : _ = s' := by simpa [step, hzero] using hstep
        exact hless.note (Event.sound_error _ _)
      | done =>
        have hexposed : s.exposed = false := by simpa [undisturbed] using hcalm
        obtain rfl : _ = s' := by simpa [step, hzero] using hstep
        exact hless.note
          (sound_present (h.readConfig hread (h.current hexposed) (h.looked hzero hexposed))).1

def View.Lists (id : Text) (view : View) : Prop :=
  (∃ server ∈ view.before, server.id = id) ∧ ∃ server ∈ view.after, server.id = id

theorem put_lists (server : McpServer) (h : ∃ other ∈ servers, other.id = id) :
    ∃ other ∈ put server servers, other.id = id := by
  induction servers with
  | nil => simp at h
  | cons candidate rest ih =>
    rw [put]
    obtain ⟨other, hother, hid⟩ := h
    by_cases hsame : candidate.id = server.id
    · rw [if_pos hsame]
      rcases List.mem_cons.mp hother with rfl | hrest
      · exact ⟨server, List.mem_cons_self, hsame.symm.trans hid⟩
      · exact ⟨other, List.mem_cons_of_mem _ hrest, hid⟩
    · rw [if_neg hsame]
      rcases List.mem_cons.mp hother with rfl | hrest
      · exact ⟨other, List.mem_cons_self, hid⟩
      · obtain ⟨kept, hkept, hkid⟩ := ih ⟨other, hrest, hid⟩
        exact ⟨kept, List.mem_cons_of_mem _ hkept, hkid⟩

theorem apply_lists {change : Change} (hchange : change ≠ .remove id)
    (h : ∃ server ∈ servers, server.id = id) : ∃ server ∈ change.apply servers, server.id = id := by
  cases change with
  | save server => exact put_lists server h
  | remove other =>
    obtain ⟨server, hserver, hid⟩ := h
    have hne : other ≠ id := fun heq => hchange (by rw [heq])
    refine ⟨server, ?_, hid⟩
    simp only [Change.apply, List.mem_filter, decide_eq_true_eq]
    exact ⟨hserver, fun heq => hne (heq.symm.trans hid)⟩

theorem continue_lists {failed : Bool} {result : Except Text (List McpServer)}
    (hsound : (Event.loaded failed result s.view).Sound) (hchange : call.change ≠ .remove id)
    (h : s.view.Lists id) : (s.continue call failed result).view.Lists id := by
  cases result with
  | error error => exact h
  | ok servers =>
    have hservers : ∃ server ∈ servers, server.id = id := by
      rcases hsound.2 servers rfl with rfl | rfl
      · exact h.1
      · exact h.2
    simp only [State.continue]
    split
    · exact ⟨hservers, hservers⟩
    · exact ⟨hservers, apply_lists hchange hservers⟩

/-- Past the loading, a call leaves the lists as they are or settles for one of them. -/
theorem Inv.go_view (h : Inv s) (pkg : Packages) (outcome : Outcome) (hcall : s.call = some call)
    (hlook : call.stage ≠ .look) (hread : call.stage ≠ .read) :
    (go pkg s call outcome).view = s.view ∨
      (go pkg s call outcome).view = ⟨s.view.before, s.view.before⟩ ∨
      (go pkg s call outcome).view = ⟨s.view.after, s.view.after⟩ := by
  have hholds := h.call call hcall
  cases hstage : call.stage <;> rw [hstage] at hholds
  case look => exact absurd hstage hlook
  case read => exact absurd hstage hread
  case createDirectory =>
    cases outcome
    · exact .inl (by simp only [go, hstage]; rfl)
    · exact .inr (.inl (by simp only [go, hstage]; rfl))
  case stageFile =>
    cases outcome
    · exact .inl (by simp only [go, hstage]; rfl)
    · exact .inr (.inl (by simp only [go, hstage]; rfl))
  case inspect =>
    cases outcome <;> exact .inl (by simp only [go, hstage]; rfl)
  case setAside =>
    cases outcome
    · simp only [go, hstage]
      split <;> exact .inl rfl
    · exact .inl (by simp only [go, hstage]; rfl)
  case activate id hadExisting =>
    cases outcome
    · simp only [go, hstage]
      split
      · exact .inl rfl
      · split
        · exact .inl rfl
        · exact .inr (.inr (by rw [hholds.2.1]; rfl))
    · exact .inl (by simp only [go, hstage]; rfl)
  case removeBackup => exact .inr (.inr (by simp only [go, hstage]; rw [hholds.2]; rfl))
  case inspectBackup => exact .inl (by simp only [go, hstage]; rfl)
  case restore => exact .inl (by simp only [go, hstage]; rfl)
  case removeTemp => exact .inr (.inl (by simp only [go, hstage]; rfl))

theorem go_change (pkg : Packages) (s : State) (call : Call) (outcome : Outcome) :
    ∀ next, (go pkg s call outcome).call = some next → next.change = call.change := by
  have hcontinue (failed : Bool) (result : Except Text (List McpServer)) :
      ∀ next, (s.continue call failed result).call = some next → next.change = call.change := by
    intro next hnext
    cases result with
    | error error => cases hnext
    | ok servers =>
      simp only [State.continue] at hnext
      split at hnext <;> cases hnext
      rfl
  intro next hnext
  cases hstage : call.stage <;> cases outcome <;> simp only [go, hstage] at hnext <;>
    (try split at hnext) <;> (try split at hnext) <;>
    first
      | exact hcontinue _ _ next hnext
      | (cases hnext; rfl)
      | cases hnext

/-- No call in progress removes the server. -/
def State.Keeps (id : Text) (s : State) : Prop :=
  s.view.Lists id ∧ ∀ call, s.call = some call → call.change ≠ .remove id

theorem step_keeps (hread : pkg.ReadsBack) (h : Inv s) (hkeeps : s.Keeps id)
    (hcalm : undisturbed s a = true) (ha : a ≠ .begin (.remove id))
    (hstep : step pkg s a = some s') : s'.Keeps id := by
  cases a with
  | begin change =>
    have hbegin : s' = { s with call := some ⟨change, [], .look⟩ } ∨ ∃ event, s' = s.note event := by
      cases change with
      | save server =>
        by_cases hnone : s.call = none
        · exact .inl (by simpa [step, hnone] using hstep.symm)
        · simp [step, hnone] at hstep
      | remove other =>
        by_cases hvalid : validId other = false
        · exact .inr ⟨_, by simpa [step, hvalid] using hstep.symm⟩
        · by_cases hnone : s.call = none
          · exact .inl (by simpa [step, hvalid, hnone] using hstep.symm)
          · simp [step, hvalid, hnone] at hstep
    rcases hbegin with rfl | ⟨event, rfl⟩
    · refine ⟨hkeeps.1, ?_⟩
      intro call hcall
      cases hcall
      exact fun heq => ha (congrArg Step.begin heq)
    · exact hkeeps
  | go outcome =>
    obtain ⟨call, hcall, rfl⟩ := Option.map_eq_some_iff.mp hstep
    have hchange := hkeeps.2 call hcall
    refine ⟨?_, fun next hnext => (go_change pkg s call outcome next hnext).symm ▸ hchange⟩
    by_cases hstage : call.stage = .look ∨ call.stage = .read
    · rcases h.loading hread outcome hcall hstage with
        ⟨hgo, -⟩ | ⟨failed, result, hgo, hsound, -⟩
      · rw [hgo]
        exact hkeeps.1
      · rw [hgo]
        exact continue_lists hsound hchange hkeeps.1
    · obtain ⟨hlook, hread'⟩ := not_or.mp hstage
      rcases h.go_view pkg outcome hcall hlook hread' with hview | hview | hview
      · rw [hview]
        exact hkeeps.1
      · rw [hview]
        exact ⟨hkeeps.1.1, hkeeps.1.1⟩
      · rw [hview]
        exact ⟨hkeeps.1.2, hkeeps.1.2⟩
  | stop =>
    obtain rfl : _ = s' := Option.some.inj hstep
    refine ⟨hkeeps.1, ?_⟩
    intro call hcall
    cases hcall
  | look outcome =>
    cases outcome with
    | failed error left =>
      obtain rfl : _ = s' := Option.some.inj hstep
      exact hkeeps
    | done =>
      by_cases hconfig : s.files .config = none
      · obtain rfl : _ = s' := by simpa [step, hconfig] using hstep
        exact hkeeps
      · obtain rfl : _ = s' := by simpa [step, hconfig] using hstep
        exact hkeeps
  | read outcome =>
    by_cases hzero : s.looked = 0
    · cases outcome <;> simp [step, hzero] at hstep
    · cases outcome with
      | failed error left =>
        obtain rfl : _ = s' := by simpa [step, hzero] using hstep
        exact hkeeps
      | done =>
        obtain rfl : _ = s' := by simpa [step, hzero] using hstep
        exact hkeeps

/-- In every run that does not meet the file set aside, each loading answers the list before
or after the call in progress or last interrupted, and a server that both lists name is in both
until it is removed. -/
theorem servers_survive (hread : pkg.ReadsBack) (hstored : Stored files servers)
    (hvalid : validateServers servers = .ok ())
    (hrun : Reaches (step pkg) (fun t a => undisturbed t a = true) (State.start files servers) s) :
    (∀ event ∈ s.log, event.Sound) ∧
      ∀ id t, s.Keeps id →
        Reaches (step pkg) (fun t a => undisturbed t a = true ∧ a ≠ .begin (.remove id)) s t →
          t.view.Lists id := by
  have hinv : Inv s := hrun.invariant (inv_start hstored hvalid)
    (fun _ _ _ h hcalm hstep => step_inv hread h hcalm hstep)
  refine ⟨hinv.log, ?_⟩
  intro id t hkeeps hafter
  have hboth : Inv t ∧ t.Keeps id := by
    induction hafter with
    | start => exact ⟨hinv, hkeeps⟩
    | next _ hok hstep ih =>
      exact ⟨step_inv hread ih.1 hok.1 hstep, step_keeps hread ih.1 ih.2 hok.1 hok.2 hstep⟩
  exact hboth.2.1

def probe : McpServer := ⟨"probe".toList, "Probe".toList, "probe".toList, ["-v".toList], true⟩

def other : McpServer := ⟨"other".toList, "Other".toList, "other".toList, [], true⟩

def probeFiles : Folder := Folder.write (fun _ => none) .config (some (encode [probe]))

/-- A save up to the first of its two renames. -/
def untilSetAside : List Step := .begin (.save other) :: List.replicate 6 (.go .done)

def failedSave : List Step :=
  (.look .done :: untilSetAside.take 6 : List Step) ++
    ([.read .done, .go .done, .go (.failed [] none)] : List Step) ++
    List.replicate 3 (Step.go .done) ++ ([.look .done, .read .done] : List Step)

theorem servers_survive_failed_save : ∃ s,
    run (fun t a => if undisturbed t a then step strictPackages t a else none)
      (State.start probeFiles [probe]) failedSave = some s ∧
    s.log =
      [.loaded false (.ok [probe]) ⟨[probe], [probe]⟩,
        .loaded false (.ok [probe]) ⟨[probe], [probe, other]⟩,
        .returned (.save other) (.error "cannot activate MCP config: ".toList),
        .loaded false (.ok [probe]) ⟨[probe], [probe]⟩] ∧
    (∀ event ∈ s.log, event.Sound) ∧
      ∀ id t, s.Keeps id →
        Reaches (step strictPackages)
          (fun t a => undisturbed t a = true ∧ a ≠ .begin (.remove id)) s t → t.view.Lists id := by
  have hrun : ((run (fun t a => if undisturbed t a then step strictPackages t a else none)
      (State.start probeFiles [probe]) failedSave).map State.log) =
      some [.loaded false (.ok [probe]) ⟨[probe], [probe]⟩,
        .loaded false (.ok [probe]) ⟨[probe], [probe, other]⟩,
        .returned (.save other) (.error "cannot activate MCP config: ".toList),
        .loaded false (.ok [probe]) ⟨[probe], [probe]⟩] := by decide +kernel
  obtain ⟨s, hs, hlog⟩ := Option.map_eq_some_iff.mp hrun
  exact ⟨s, hs, hlog, servers_survive strictPackages_readsBack (.of_some rfl) (by decide +kernel)
    (Reaches.of_checked_run hs)⟩

def interruptedSave : List Step :=
  untilSetAside ++ ([.stop, .look .done, .begin (.save other)] : List Step) ++
    List.replicate 5 (Step.go .done)

theorem interrupted_save_drops : ∃ s,
    run (step strictPackages) (State.start probeFiles [probe]) interruptedSave = some s ∧
    .loaded false (.ok []) ⟨[probe], [probe, other]⟩ ∈ s.log ∧
    .returned (.save other) (.ok [other]) ∈ s.log ∧
    ¬ ∀ event ∈ s.log, event.Sound := by
  have hrun : ((run (step strictPackages) (State.start probeFiles [probe]) interruptedSave).map
      State.log) =
      some [.loaded false (.ok [probe]) ⟨[probe], [probe]⟩,
        .loaded false (.ok []) ⟨[probe], [probe, other]⟩,
        .loaded false (.ok []) ⟨[probe], [probe, other]⟩,
        .returned (.save other) (.ok [other])] := by decide +kernel
  obtain ⟨s, hs, hlog⟩ := Option.map_eq_some_iff.mp hrun
  have hempty : .loaded false (.ok []) ⟨[probe], [probe, other]⟩ ∈ s.log := by simp [hlog]
  refine ⟨s, hs, hempty, by simp [hlog], ?_⟩
  intro hsound
  have hanswer := (hsound _ hempty).2 [] rfl
  exact absurd hanswer (by simp)

end Runs

end AioLM.McpConfig
