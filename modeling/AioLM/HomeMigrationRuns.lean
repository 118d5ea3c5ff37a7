import AioLM.HomeMigration

/-!
What every number of moves leaves, one after the other or at the same time, whichever operation
fails and wherever a process stops.
-/

set_option autoImplicit false

namespace AioLM.Home

open Branding Runs

variable {d d' d'' : Disk} {w w' : World} {run : Run} {id : Nat}

/-- The home folder has the runtimes, with everything a copy takes of what is left elsewhere. -/
def Held (d : Disk) : Prop :=
  ∃ target, d.home .runtimes = some target ∧ present (some target) = true ∧
    ∀ source, d.previous .runtimes = some source →
      ∀ path leaf, (kept source).get path = some leaf → target.get path = some leaf

def Recovered (d : Disk) : Prop :=
  present (d.home .config) = true ∨ d.previous .config ≠ none ∨ d.backups.entries = []

def Settled (d : Disk) (run : Run) (item : Item) : Prop :=
  present (d.previous (run.sourceOf item)) = true → present (d.home item) = true

def AllSettled (d : Disk) : Prop := Recovered d ∧ ∀ run item, Settled d run item

def SettledBut (d : Disk) (run : Run) (rest : List Item) : Prop :=
  ∀ item, item ∉ rest → Settled d run item

/-- The servers of the replaced application are taken where there are no others. -/
def Chosen (d : Disk) (run : Run) : Prop :=
  if run.replaced then present (d.previous .replacedMcp) = true
  else present (d.previous .mcp) = true ∨ present (d.previous .replacedMcp) = false

structure Since (d : Disk) (run : Run) : Prop where
  others : ∀ place, place ≠ .config → place ≠ .runtimes → d.previous place = run.started place
  config : ∀ tree, run.started .config = some tree → d.previous .config = some tree
  runtimes : present (d.home .runtimes) = true ∨ d.previous .runtimes = run.started .runtimes

/-- Folders are trees; the earlier runtimes are one until they are taken apart. -/
structure Closed (d : Disk) : Prop where
  backups : ∀ name backup, d.backups.get name = some backup → closed backup.2 = true
  previous : ∀ place tree, place ≠ .runtimes ∨ present (d.home .runtimes) = false →
    d.previous place = some tree → closed tree = true

/-- A backup comes back only while there is still no configuration, a listing of backups is not
empty where there are some, and a failed look for the servers of the replaced application does
not miss them. -/
def quiet (d : Disk) : Point → Outcome → Bool
  | .listBackups, .listed entries => !entries.isEmpty || d.backups.entries.isEmpty
  | .recover _, .done => (d.previous .config).isNone && !present (d.home .config)
  | .lookReplaced, .failed =>
    present (d.previous .mcp) || !present (d.previous .replacedMcp)
  | _, _ => true

def undisturbed (w : World) : Act → Bool
  | .go id outcome =>
    match w.runs.get id with
    | some run => quiet w.disk run.point outcome
    | none => true
  | _ => true

/-- What is never taken back. -/
structure Grows (d d' : Disk) : Prop where
  home : ∀ item, present (d.home item) = true → d'.home item = d.home item
  others : ∀ place, place ≠ .config → place ≠ .runtimes → d'.previous place = d.previous place
  config : d'.previous .config = d.previous .config ∨
    d.previous .config = none ∧ present (d.home .config) = false ∧ d.backups.entries ≠ []
  runtimes : d'.previous .runtimes = d.previous .runtimes ∨
    ∃ target, d'.home .runtimes = some target ∧ present (some target) = true ∧
      ∀ source, d.previous .runtimes = some source →
        ∀ path leaf, (kept source).get path = some leaf → target.get path = some leaf
  backups : d.backups.entries = [] → d'.backups.entries = []

/-- What a run without the lock may change: a configuration may come back. -/
structure Calm (d d' : Disk) : Prop where
  home : d'.home = d.home
  stage : d'.stage = d.stage
  previous : ∀ place, place ≠ .config → d'.previous place = d.previous place

theorem Grows.refl (d : Disk) : Grows d d :=
  ⟨fun _ _ => rfl, fun _ _ _ => rfl, .inl rfl, .inl rfl, id⟩

theorem Grows.present (h : Grows d d') {item : Item} (hitem : present (d.home item) = true) :
    Home.present (d'.home item) = true := by
  rw [h.home item hitem, hitem]

theorem Grows.trans (h : Grows d d') (h' : Grows d' d'') : Grows d d'' where
  home item hitem := by rw [h'.home item (h.present hitem), h.home item hitem]
  others place hconfig hruntimes := by
    rw [h'.others place hconfig hruntimes, h.others place hconfig hruntimes]
  config := by
    rcases h.config with hsame | hnone
    · rcases h'.config with hsame' | ⟨hnone, hhome, hbackups⟩
      · exact .inl (hsame'.trans hsame)
      · refine .inr ⟨hsame ▸ hnone, ?_, mt h.backups hbackups⟩
        cases hpresent : Home.present (d.home .config) with
        | false => rfl
        | true => rw [h.present hpresent] at hhome; cases hhome
    · exact .inr hnone
  runtimes := by
    rcases h.runtimes with hsame | ⟨target, hhome, hpresent, hheld⟩
    · rw [← hsame]
      exact h'.runtimes
    · refine .inr ⟨target, ?_, hpresent, hheld⟩
      rw [h'.home .runtimes (by rw [hhome, hpresent]), hhome]
  backups hempty := h'.backups (h.backups hempty)

theorem Grows.runtimes_present (h : Grows d d') :
    Home.present (d'.home .runtimes) = true ∨ d'.previous .runtimes = d.previous .runtimes := by
  rcases h.runtimes with hsame | ⟨target, hhome, hpresent, -⟩
  · exact .inr hsame
  · exact .inl (by rw [hhome, hpresent])

theorem Recovered.config (h : Recovered d) (hg : Grows d d') :
    d'.previous .config = d.previous .config := by
  rcases hg.config with hsame | ⟨hnone, hhome, hbackups⟩
  · exact hsame
  · rcases h with hpresent | hsome | hempty
    · rw [hpresent] at hhome
      cases hhome
    · exact absurd hnone hsome
    · exact absurd hempty hbackups

theorem Recovered.grows (h : Recovered d) (hg : Grows d d') : Recovered d' := by
  have hconfig := h.config hg
  rcases h with hpresent | hsome | hempty
  · exact .inl (hg.present hpresent)
  · exact .inr (.inl (hconfig ▸ hsome))
  · exact .inr (.inr (hg.backups hempty))

theorem sourceOf_eq_runtimes {item : Item} (h : run.sourceOf item = .runtimes) :
    item = .runtimes := by
  cases item with
  | mcp =>
    simp only [Run.sourceOf] at h
    split at h <;> cases h
  | runtimes => rfl
  | config => cases h
  | verificationJson => cases h
  | verification => cases h
  | benchmarks => cases h

theorem sourceOf_eq_config {item : Item} (h : run.sourceOf item = .config) : item = .config := by
  cases item with
  | mcp =>
    simp only [Run.sourceOf] at h
    split at h <;> cases h
  | config => rfl
  | runtimes => cases h
  | verificationJson => cases h
  | verification => cases h
  | benchmarks => cases h

theorem Settled.grows {item : Item} (h : Settled d run item) (hrecovered : Recovered d)
    (hg : Grows d d') : Settled d' run item := by
  intro hsource
  by_cases hconfig : run.sourceOf item = .config
  · rw [hconfig, hrecovered.config hg, ← hconfig] at hsource
    exact hg.present (h hsource)
  · by_cases hruntimes : run.sourceOf item = .runtimes
    · obtain rfl := sourceOf_eq_runtimes hruntimes
      rcases hg.runtimes_present with hpresent | hsame
      · exact hpresent
      · exact hg.present (h (by rwa [hruntimes, ← hsame, ← hruntimes]))
    · rw [hg.others _ hconfig hruntimes] at hsource
      exact hg.present (h hsource)

theorem SettledBut.grows {rest : List Item} (h : SettledBut d run rest)
    (hrecovered : Recovered d) (hg : Grows d d') : SettledBut d' run rest :=
  fun item hitem => (h item hitem).grows hrecovered hg

theorem AllSettled.grows (h : AllSettled d) (hg : Grows d d') : AllSettled d' :=
  ⟨h.1.grows hg, fun run item => (h.2 run item).grows h.1 hg⟩

theorem Chosen.grows (h : Chosen d run) (hg : Grows d d') : Chosen d' run := by
  unfold Chosen at h ⊢
  rwa [hg.others .mcp (by decide) (by decide), hg.others .replacedMcp (by decide) (by decide)]

theorem Since.grows (h : Since d run) (hg : Grows d d') : Since d' run where
  others place hconfig hruntimes := by
    rw [hg.others place hconfig hruntimes, h.others place hconfig hruntimes]
  config tree htree := by
    have hsome := h.config tree htree
    rcases hg.config with hsame | ⟨hnone, -⟩
    · rw [hsame, hsome]
    · rw [hsome] at hnone
      cases hnone
  runtimes := by
    rcases hg.runtimes_present with hpresent | hsame
    · exact .inl hpresent
    · exact h.runtimes.imp hg.present fun hstarted => hsame.trans hstarted

theorem Calm.source (h : Calm d d') (hg : Grows d d') {place : Place} {tree : Tree}
    (hplace : d.previous place = some tree) : d'.previous place = some tree := by
  by_cases hconfig : place = .config
  · subst hconfig
    rcases hg.config with hsame | ⟨hnone, -⟩
    · rw [hsame, hplace]
    · rw [hplace] at hnone
      cases hnone
  · rw [h.previous place hconfig, hplace]

def isLink : Leaf → Bool
  | .link _ => true
  | _ => false

/-- A folder or a file, but no link. -/
def Rooted (tree : Tree) : Prop := ∃ leaf, tree.get [] = some leaf ∧ isLink leaf = false

/-- A run makes an item it found pending; no run does that once another has returned. -/
structure Working (d : Disk) (run : Run) (item : Item) (rest : List Item) : Prop where
  recovered : Recovered d
  chosen : Chosen d run
  settled : SettledBut d run (item :: rest)
  absent : present (d.home item) = false
  first : run.late = false

def Point.Holds (d : Disk) (run : Run) : Point → Prop
  | .lookTarget => True
  | .lookConfig => True
  | .listBackups => True
  | .recover _ => True
  | .lookMcp => Recovered d
  | .lookReplaced => Recovered d
  | .checkSource rest anyPending =>
    Recovered d ∧ Chosen d run ∧ (anyPending = false → SettledBut d run rest)
  | .checkTarget item rest anyPending =>
    Recovered d ∧ Chosen d run ∧ (anyPending = false → SettledBut d run (item :: rest))
  | .takeLock => Recovered d ∧ Chosen d run
  | .nextSource rest => Recovered d ∧ Chosen d run ∧ SettledBut d run rest
  | .nextTarget item rest =>
    Recovered d ∧ Chosen d run ∧ SettledBut d run (item :: rest) ∧
      ∃ tree, d.previous (run.sourceOf item) = some tree ∧ present (some tree) = true
  | .lookRuntimes rest => Working d run .runtimes rest
  | .move rest =>
    Working d run .runtimes rest ∧ ∃ tree, d.previous .runtimes = some tree ∧ Rooted tree
  | .lookStage item rest => Working d run item rest
  | .clearStage item rest => Working d run item rest
  | .lookSource item rest => Working d run item rest ∧ d.stage item = none
  | .copying item rest tasks =>
    Working d run item rest ∧ ∃ source, d.previous (run.sourceOf item) = some source ∧
      Rooted source ∧ Copying source ((d.stage item).getD KeyMap.empty) tasks
  | .removeSource rest =>
    Recovered d ∧ Chosen d run ∧ SettledBut d run rest ∧ Held d ∧ run.late = false

def locked : Point → Bool
  | .lookTarget => false
  | .lookConfig => false
  | .listBackups => false
  | .recover _ => false
  | .lookMcp => false
  | .lookReplaced => false
  | .checkSource _ _ => false
  | .checkTarget _ _ _ => false
  | .takeLock => false
  | _ => true

/-- A destination that was made is what a copy takes of its source, which is as it was when the
run started; only runtimes may be moved as they are, and a configuration may be a recovered one. -/
def Event.Holds (d : Disk) : Event → Prop
  | .created item target source started =>
    d.home item = some target ∧ present (some target) = true ∧
      ∃ tree, source = some tree ∧ (target = kept tree ∨ item = .runtimes ∧ target = tree) ∧
        (started = some tree ∨ item = .config ∧ started = none)
  | .returned started => ∀ item, present (started item) = true → present (d.home item) = true
  | .failed _ => True

structure RunHolds (d : Disk) (run : Run) : Prop where
  since : Since d run
  point : run.point.Holds d run

structure Inv (w : World) : Prop where
  lock : ∀ id run, w.runs.get id = some run → locked run.point = true → w.lock = some id
  closed : Closed w.disk
  runs : ∀ id run, w.runs.get id = some run → RunHolds w.disk run
  log : ∀ event ∈ w.log, event.Holds w.disk
  settled : w.log.any Event.isReturned = true → AllSettled w.disk
  late : ∀ id run, w.runs.get id = some run → run.late = true →
    w.log.any Event.isReturned = true

theorem Working.grows {item : Item} {rest : List Item} (h : Working d run item rest)
    (hg : Grows d d') (hcalm : Calm d d') : Working d' run item rest where
  recovered := h.recovered.grows hg
  chosen := h.chosen.grows hg
  settled := h.settled.grows h.recovered hg
  absent := by rw [hcalm.home, h.absent]
  first := h.first

theorem Held.calm (h : Held d) (hcalm : Calm d d') : Held d' := by
  obtain ⟨target, hhome, hpresent, hheld⟩ := h
  refine ⟨target, by rw [hcalm.home, hhome], hpresent, fun source hsource => ?_⟩
  exact hheld source (by rw [← hcalm.previous .runtimes (by decide), hsource])

/-- What a run relies on holds whatever others do: without the lock whatever stays, and with the
lock what runs without it leave alone. -/
theorem Point.Holds.grows {point : Point} (h : point.Holds d run) (hg : Grows d d')
    (hcalm : locked point = false ∨ Calm d d') : point.Holds d' run := by
  have calm (hlocked : locked point = true) : Calm d d' := by
    rcases hcalm with hfree | hcalm
    · rw [hlocked] at hfree
      cases hfree
    · exact hcalm
  cases point with
  | lookTarget => trivial
  | lookConfig => trivial
  | listBackups => trivial
  | recover name => trivial
  | lookMcp => exact Recovered.grows h hg
  | lookReplaced => exact Recovered.grows h hg
  | checkSource rest anyPending =>
    obtain ⟨hrecovered, hchosen, hsettled⟩ := h
    exact ⟨hrecovered.grows hg, hchosen.grows hg,
      fun hnone => (hsettled hnone).grows hrecovered hg⟩
  | checkTarget item rest anyPending =>
    obtain ⟨hrecovered, hchosen, hsettled⟩ := h
    exact ⟨hrecovered.grows hg, hchosen.grows hg,
      fun hnone => (hsettled hnone).grows hrecovered hg⟩
  | takeLock => exact ⟨h.1.grows hg, h.2.grows hg⟩
  | nextSource rest =>
    obtain ⟨hrecovered, hchosen, hsettled⟩ := h
    exact ⟨hrecovered.grows hg, hchosen.grows hg, hsettled.grows hrecovered hg⟩
  | nextTarget item rest =>
    obtain ⟨hrecovered, hchosen, hsettled, tree, htree, hpresent⟩ := h
    exact ⟨hrecovered.grows hg, hchosen.grows hg, hsettled.grows hrecovered hg, tree,
      (calm rfl).source hg htree, hpresent⟩
  | lookRuntimes rest => exact Working.grows h hg (calm rfl)
  | move rest =>
    obtain ⟨hworking, tree, htree, hrooted⟩ := h
    exact ⟨hworking.grows hg (calm rfl), tree, (calm rfl).source hg htree, hrooted⟩
  | lookStage item rest => exact Working.grows h hg (calm rfl)
  | clearStage item rest => exact Working.grows h hg (calm rfl)
  | lookSource item rest =>
    obtain ⟨hworking, hstage⟩ := h
    exact ⟨hworking.grows hg (calm rfl), by rw [(calm rfl).stage, hstage]⟩
  | copying item rest tasks =>
    obtain ⟨hworking, source, hsource, hrooted, hcopying⟩ := h
    refine ⟨hworking.grows hg (calm rfl), source, (calm rfl).source hg hsource, hrooted, ?_⟩
    rwa [(calm rfl).stage]
  | removeSource rest =>
    obtain ⟨hrecovered, hchosen, hsettled, hheld, hfirst⟩ := h
    exact ⟨hrecovered.grows hg, hchosen.grows hg, hsettled.grows hrecovered hg,
      hheld.calm (calm rfl), hfirst⟩

theorem Event.Holds.grows {event : Event} (h : event.Holds d) (hg : Grows d d') :
    event.Holds d' := by
  cases event with
  | created item target source started =>
    obtain ⟨hhome, hpresent, hcopy⟩ := h
    exact ⟨by rw [hg.home item (by rw [hhome, hpresent]), hhome], hpresent, hcopy⟩
  | returned started => exact fun item hitem => hg.present (h item hitem)
  | failed failure => trivial

structure Others (w : World) (id : Nat) : Prop where
  lock : ∀ other run, w.runs.get other = some run → other ≠ id → locked run.point = true →
    w.lock = some other
  closed : Closed w.disk
  runs : ∀ other run, w.runs.get other = some run → other ≠ id → RunHolds w.disk run
  log : ∀ event ∈ w.log, event.Holds w.disk
  settled : w.log.any Event.isReturned = true → AllSettled w.disk
  late : ∀ other run, w.runs.get other = some run → run.late = true →
    w.log.any Event.isReturned = true

theorem Inv.others (h : Inv w) (id : Nat) : Others w id where
  lock other run hrun _ := h.lock other run hrun
  closed := h.closed
  runs other run hrun _ := h.runs other run hrun
  log := h.log
  settled := h.settled
  late := h.late

theorem Others.change (h : Others w id) (hclosed : Closed d') (hg : Grows w.disk d')
    (hcalm : w.lock = some id ∨ Calm w.disk d') : Others (w.put d') id where
  lock := h.lock
  closed := hclosed
  runs other run hrun hother := by
    obtain ⟨hsince, hpoint⟩ := h.runs other run hrun hother
    refine ⟨hsince.grows hg, hpoint.grows hg (hcalm.imp_left fun hmine => ?_)⟩
    rw [Bool.eq_false_iff]
    intro hlocked
    have hlock := h.lock other run hrun hother hlocked
    rw [hmine] at hlock
    exact hother (Option.some.inj hlock).symm
  log event hevent := (h.log event hevent).grows hg
  settled hreturned := (h.settled hreturned).grows hg
  late := h.late

theorem any_isReturned_append {log : List Event} {event : Event}
    (h : log.any Event.isReturned = true) : (log ++ [event]).any Event.isReturned = true := by
  rw [List.any_append, h]
  rfl

theorem Others.note {event : Event} (h : Others w id) (hevent : event.Holds w.disk)
    (hreturned : event.isReturned = true → AllSettled w.disk) : Others (w.note event) id where
  lock := h.lock
  closed := h.closed
  runs := h.runs
  log e he := by
    rcases List.mem_append.mp he with he | he
    · exact h.log e he
    · rw [List.mem_singleton.mp he]
      exact hevent
  settled hany := by
    have hlog : (w.log ++ [event]).any Event.isReturned = true := hany
    rw [List.any_append, Bool.or_eq_true] at hlog
    rcases hlog with hlog | hlog
    · exact h.settled hlog
    · exact hreturned (by simpa using hlog)
  late other run hrun hlate := any_isReturned_append (h.late other run hrun hlate)

theorem Others.goTo {point : Point} (h : Others w id) (hsince : Since w.disk run)
    (hpoint : point.Holds w.disk { run with point := point })
    (hlock : locked point = true → w.lock = some id)
    (hlate : run.late = true → w.log.any Event.isReturned = true) : Inv (w.goTo id run point) where
  lock other run' hrun' hlocked := by
    simp only [World.goTo, KeyMap.get_insert] at hrun'
    split at hrun'
    · rename_i heq
      cases hrun'
      rw [heq]
      exact hlock hlocked
    · rename_i hne
      exact h.lock other run' hrun' hne hlocked
  closed := h.closed
  runs other run' hrun' := by
    simp only [World.goTo, KeyMap.get_insert] at hrun'
    split at hrun'
    · cases hrun'
      exact ⟨⟨hsince.others, hsince.config, hsince.runtimes⟩, hpoint⟩
    · rename_i hne
      exact h.runs other run' hrun' hne
  log := h.log
  settled := h.settled
  late other run' hrun' hlate' := by
    simp only [World.goTo, KeyMap.get_insert] at hrun'
    split at hrun'
    · cases hrun'
      exact hlate hlate'
    · exact h.late other run' hrun' hlate'

theorem Others.drop (h : Others w id) : Inv (w.drop id) := by
  have away {other : Nat} {run : Run} (hrun : (w.drop id).runs.get other = some run) :
      other ≠ id ∧ w.runs.get other = some run := by
    simp only [World.drop, KeyMap.get_erase] at hrun
    split at hrun
    · cases hrun
    · rename_i hne
      exact ⟨hne, hrun⟩
  constructor
  · intro other run hrun hlocked
    obtain ⟨hne, hrun⟩ := away hrun
    have hlock := h.lock other run hrun hne hlocked
    simp only [World.drop, hlock, Option.some.injEq, if_neg hne]
  · exact h.closed
  · intro other run hrun
    exact h.runs other run (away hrun).2 (away hrun).1
  · exact h.log
  · exact h.settled
  · intro other run hrun
    exact h.late other run (away hrun).2

theorem Working.goTo {item : Item} {rest : List Item} (h : Working d run item rest)
    (point : Point) : Working d { run with point := point } item rest :=
  ⟨h.recovered, h.chosen, h.settled, h.absent, h.first⟩

/-- One operation of a run: the invariant stays, nothing is taken back, and a run that started
after another had returned changes nothing. -/
structure Keeps (w : World) (run : Run) (w' : World) : Prop where
  inv : Inv w'
  grows : Grows w.disk w'.disk
  further : run.late = true → w'.disk = w.disk

/-- What is known of the run that goes on. -/
structure Going (w : World) (id : Nat) (run : Run) : Prop where
  others : Others w id
  since : Since w.disk run
  late : run.late = true → w.log.any Event.isReturned = true

theorem Inv.going (h : Inv w) (hrun : w.runs.get id = some run) : Going w id run :=
  ⟨h.others id, (h.runs id run hrun).since, h.late id run hrun⟩

theorem Going.goTo {point : Point} (h : Going w id run)
    (hpoint : point.Holds w.disk { run with point := point })
    (hlock : locked point = true → w.lock = some id) : Keeps w run (w.goTo id run point) :=
  ⟨h.others.goTo h.since hpoint hlock h.late, .refl _, fun _ => rfl⟩

theorem Going.fail (h : Going w id run) (failure : Failure) :
    Keeps w run (w.fail id failure) := by
  have hevent : Event.Holds w.disk (.failed failure) := trivial
  exact ⟨(h.others.note hevent fun hreturned => by cases hreturned).drop, .refl _, fun _ => rfl⟩

theorem AllSettled.of_chosen (hrecovered : Recovered d) (hchosen : Chosen d run)
    (hsettled : SettledBut d run []) : AllSettled d := by
  refine ⟨hrecovered, fun run' item hsource => ?_⟩
  by_cases hmcp : item = .mcp
  · subst hmcp
    have hmine := hsettled .mcp (by simp)
    unfold Settled at hmine
    unfold Chosen at hchosen
    simp only [Run.sourceOf] at hmine hsource
    split at hmine
    · rename_i hreplaced
      rw [if_pos hreplaced] at hchosen
      exact hmine hchosen
    · rename_i hreplaced
      rw [if_neg hreplaced] at hchosen
      rcases hchosen with hpresent | habsent
      · exact hmine hpresent
      · split at hsource
        · rw [habsent] at hsource
          cases hsource
        · exact hmine hsource
  · have hsame : run'.sourceOf item = run.sourceOf item := by
      cases item with
      | mcp => exact absurd rfl hmcp
      | config => rfl
      | verificationJson => rfl
      | verification => rfl
      | benchmarks => rfl
      | runtimes => rfl
    rw [hsame] at hsource
    exact hsettled item (by simp) hsource

theorem Since.present {place : Place} (h : Since d run)
    (hstarted : present (run.started place) = true) :
    Home.present (d.previous place) = true ∨
      place = .runtimes ∧ Home.present (d.home .runtimes) = true := by
  by_cases hconfig : place = .config
  · subst hconfig
    cases htree : run.started .config with
    | none =>
      rw [htree] at hstarted
      cases hstarted
    | some tree =>
      rw [htree] at hstarted
      rw [h.config tree htree]
      exact .inl hstarted
  · by_cases hruntimes : place = .runtimes
    · subst hruntimes
      exact h.runtimes.symm.imp (fun hsame => by rw [hsame, hstarted]) fun hhome => ⟨rfl, hhome⟩
    · rw [h.others place hconfig hruntimes]
      exact .inl hstarted

theorem Going.finish (h : Going w id run) (hrecovered : Recovered w.disk)
    (hchosen : Chosen w.disk run) (hsettled : SettledBut w.disk run []) :
    Keeps w run (w.finish id run) := by
  have hevent :
      Event.Holds w.disk (.returned fun item => run.started (run.sourceOf item)) := by
    intro item hitem
    rcases h.since.present hitem with hsource | ⟨hruntimes, hhome⟩
    · exact hsettled item (by simp) hsource
    · rw [sourceOf_eq_runtimes hruntimes, hhome]
  have hall := AllSettled.of_chosen hrecovered hchosen hsettled
  exact ⟨(h.others.note hevent fun _ => hall).drop, .refl _, fun _ => rfl⟩

theorem Going.check {rest : List Item} {anyPending : Bool} (h : Going w id run)
    (hrecovered : Recovered w.disk) (hchosen : Chosen w.disk run)
    (hsettled : anyPending = false → SettledBut w.disk run rest) :
    Keeps w run (w.check id run rest anyPending) := by
  unfold World.check
  split
  · exact h.goTo ⟨hrecovered, hchosen, hsettled⟩ (fun hlocked => by cases hlocked)
  · split
    · exact h.goTo ⟨hrecovered, hchosen⟩ (fun hlocked => by cases hlocked)
    · rename_i hnone
      exact h.finish hrecovered hchosen (hsettled (Bool.eq_false_iff.mpr hnone))

theorem Going.next {rest : List Item} (h : Going w id run) (hlock : w.lock = some id)
    (hrecovered : Recovered w.disk) (hchosen : Chosen w.disk run)
    (hsettled : SettledBut w.disk run rest) : Keeps w run (w.next id run rest) := by
  unfold World.next
  split
  · exact h.goTo ⟨hrecovered, hchosen, hsettled⟩ (fun _ => hlock)
  · exact h.finish hrecovered hchosen hsettled

theorem Going.change (h : Going w id run) (hclosed : Closed d') (hg : Grows w.disk d')
    (hcalm : w.lock = some id ∨ Calm w.disk d') : Going (w.put d') id run :=
  ⟨h.others.change hclosed hg hcalm, h.since.grows hg, h.late⟩

theorem Going.note {event : Event} (h : Going w id run) (hevent : event.Holds w.disk)
    (hreturned : event.isReturned = false) : Going (w.note event) id run where
  others := h.others.note hevent fun hyes => absurd hyes (Bool.eq_false_iff.mp hreturned)
  since := h.since
  late hlate := any_isReturned_append (h.late hlate)

theorem Going.choose (h : Going w id run) (replaced : Bool) :
    Going w id { run with replaced := replaced } :=
  ⟨h.others, ⟨h.since.others, h.since.config, h.since.runtimes⟩, h.late⟩

theorem Going.takeLock (h : Going w id run) (hfree : w.lock = none) :
    Going { w with lock := some id } id run where
  others :=
    { lock := fun other run hrun hother hlocked => by
        have hlock := h.others.lock other run hrun hother hlocked
        rw [hfree] at hlock
        cases hlock
      closed := h.others.closed
      runs := h.others.runs
      log := h.others.log
      settled := h.others.settled
      late := h.others.late }
  since := h.since
  late := h.late

theorem Going.settled (h : Going w id run) (hlate : run.late = true) : AllSettled w.disk :=
  h.others.settled (h.late hlate)

theorem Going.first {item : Item} (h : Going w id run)
    (hsource : present (w.disk.previous (run.sourceOf item)) = true)
    (habsent : present (w.disk.home item) = false) : run.late = false := by
  rw [Bool.eq_false_iff]
  intro hlate
  rw [(h.settled hlate).2 run item hsource] at habsent
  cases habsent

theorem Keeps.after {w₁ : World} (h : Keeps w₁ run w') (hg : Grows w.disk w₁.disk)
    (hfirst : run.late = false) : Keeps w run w' :=
  ⟨h.inv, hg.trans h.grows, fun hlate => by rw [hfirst] at hlate; cases hlate⟩

theorem SettledBut.cons {item : Item} {rest : List Item}
    (h : SettledBut d run (item :: rest)) (hitem : Settled d run item) :
    SettledBut d run rest := by
  intro other hother
  by_cases heq : other = item
  · rw [heq]
    exact hitem
  · exact h other (by simp [heq, hother])

theorem SettledBut.items (d : Disk) (run : Run) : SettledBut d run items := by
  intro item hitem
  refine absurd ?_ hitem
  cases item <;> decide

theorem Settled.of_home {item : Item} (h : present (d.home item) = true) : Settled d run item :=
  fun _ => h

theorem Settled.of_absent {item : Item} (h : present (d.previous (run.sourceOf item)) = false) :
    Settled d run item := by
  intro hsource
  rw [h] at hsource
  cases hsource

theorem newest_eq_none {backups : KeyMap Text (Nat × Tree)} {entries : List (Text × Bool)}
    (h : newest backups entries = none) : entries = [] := by
  simp only [newest, Option.map_eq_none_iff, List.getLast?_eq_none_iff] at h
  have hlength := congrArg List.length h
  rw [List.length_insertionSort] at hlength
  exact List.length_eq_zero_iff.mp hlength

section Recover

variable {name : Text} {tree : Tree}

theorem Grows.recover (hnone : d.previous .config = none)
    (habsent : Home.present (d.home .config) = false) (hbackups : d.backups.entries ≠ []) :
    Grows d (d.recover name tree) where
  home _ _ := rfl
  others _ hconfig _ := Disk.recover_of_ne hconfig
  config := .inr ⟨hnone, habsent, hbackups⟩
  runtimes := .inl (Disk.recover_of_ne (by decide))
  backups hempty := absurd hempty hbackups

theorem Closed.recover {time : Nat} (h : Closed d) (hbackup : d.backups.get name = some (time, tree)) :
    Closed (d.recover name tree) where
  backups other backup hother := by
    rw [Disk.recover, KeyMap.get_erase] at hother
    split at hother
    · cases hother
    · exact h.backups other backup hother
  previous place kept hplace hkept := by
    by_cases hconfig : place = .config
    · subst hconfig
      rw [Disk.recover_self] at hkept
      cases hkept
      exact h.backups name (time, tree) hbackup
    · rw [Disk.recover_of_ne hconfig] at hkept
      exact h.previous place kept hplace hkept

theorem Recovered.recover : Recovered (d.recover name tree) := by
  refine .inr (.inl ?_)
  rw [Disk.recover_self]
  exact Option.some_ne_none tree

end Recover

theorem ne_none_of_present {tree : Option Tree} (h : present tree = true) : tree ≠ none := by
  rintro rfl
  cases h

theorem Going.lookAround {point : Point} {outcome : Outcome} (h : Going w id run)
    (hpoint : point.Holds w.disk run) (hquiet : quiet w.disk point outcome = true)
    (hstep : lookAround w id run point outcome = some w') : Keeps w run w' := by
  have free (next : Point) (hnext : next.Holds w.disk { run with point := next })
      (hfree : locked next = false) : Keeps w run (w.goTo id run next) :=
    h.goTo hnext fun hlocked => by rw [hfree] at hlocked; cases hlocked
  have choose (replaced : Bool) (hrecovered : Recovered w.disk)
      (hchosen : Chosen w.disk { run with replaced := replaced }) :
      Keeps w run (w.check id { run with replaced := replaced } items false) := by
    have hkeeps : Keeps w { run with replaced := replaced }
        (w.check id { run with replaced := replaced } items false) :=
      (h.choose replaced).check hrecovered hchosen fun _ => .items _ _
    exact ⟨hkeeps.inv, hkeeps.grows, hkeeps.further⟩
  unfold Home.lookAround at hstep
  split at hstep
  · cases hstep
    split
    · rename_i hpresent
      exact free .lookMcp (.inl hpresent) rfl
    · exact free .lookConfig trivial rfl
  · cases hstep
    exact free .lookConfig trivial rfl
  · cases hstep
    split
    · rename_i hpresent
      exact free .lookMcp (.inr (.inl (ne_none_of_present hpresent))) rfl
    · exact free .listBackups trivial rfl
  · cases hstep
    exact free .listBackups trivial rfl
  · rename_i entries
    split at hstep
    · cases hstep
      split
      · rename_i name _
        exact free (.recover name) trivial rfl
      · rename_i hnone
        obtain rfl := newest_eq_none hnone
        have hbackups : w.disk.backups.entries = [] := by simpa [quiet] using hquiet
        exact free .lookMcp (.inr (.inr hbackups)) rfl
    · cases hstep
  · cases hstep
    exact h.fail .system
  · rename_i name
    split at hstep
    · rename_i time tree hbackup
      cases hstep
      obtain ⟨hnone, habsent⟩ : w.disk.previous .config = none ∧
          present (w.disk.home .config) = false := by simpa [quiet] using hquiet
      have hbackups : w.disk.backups.entries ≠ [] :=
        List.ne_nil_of_mem (KeyMap.get_eq_some.mp hbackup)
      -- a run that started after another had returned finds nothing to recover
      have hfirst : run.late = false := by
        rw [Bool.eq_false_iff]
        intro hlate
        rcases (h.settled hlate).1 with hpresent | hsome | hempty
        · rw [hpresent] at habsent
          cases habsent
        · exact hsome hnone
        · exact hbackups hempty
      have hg : Grows w.disk (w.disk.recover name tree) := .recover hnone habsent hbackups
      have hcalm : Calm w.disk (w.disk.recover name tree) :=
        ⟨rfl, rfl, fun place hconfig => Disk.recover_of_ne hconfig⟩
      have hgoing := h.change (h.others.closed.recover hbackup) hg (.inr hcalm)
      have hpoint' : Point.Holds (w.disk.recover name tree) { run with point := .lookMcp }
          .lookMcp := Recovered.recover
      exact Keeps.after (hgoing.goTo hpoint' fun hlocked => by cases hlocked) hg hfirst
    · cases hstep
      exact h.fail .system
  · cases hstep
    exact h.fail .system
  · cases hstep
    split
    · rename_i hpresent
      exact choose false hpoint (.inl hpresent)
    · exact free .lookReplaced hpoint rfl
  · cases hstep
    exact free .lookReplaced hpoint rfl
  · cases hstep
    refine choose _ hpoint ?_
    cases hpresent : present (w.disk.previous .replacedMcp) with
    | true => exact hpresent
    | false => exact .inr hpresent
  · cases hstep
    exact choose false hpoint (by simpa [quiet, Chosen] using hquiet)
  · cases hstep

theorem Going.lookPending {point : Point} {outcome : Outcome} (h : Going w id run)
    (hpoint : point.Holds w.disk run) (hlock : locked point = true → w.lock = some id)
    (hstep : lookPending w id run point outcome = some w') : Keeps w run w' := by
  unfold Home.lookPending at hstep
  split at hstep
  · rename_i item rest anyPending
    obtain ⟨hrecovered, hchosen, hsettled⟩ := hpoint
    cases hstep
    split
    · exact h.goTo ⟨hrecovered, hchosen, hsettled⟩ fun hlocked => by cases hlocked
    · rename_i habsent
      exact h.check hrecovered hchosen fun hnone =>
        (hsettled hnone).cons (.of_absent (Bool.eq_false_iff.mpr habsent))
  · rename_i item rest anyPending
    obtain ⟨hrecovered, hchosen, hsettled⟩ := hpoint
    cases hstep
    refine h.check hrecovered hchosen fun hnone => ?_
    rw [Bool.or_eq_false_iff, Bool.not_eq_false'] at hnone
    exact (hsettled hnone.1).cons (.of_home hnone.2)
  · obtain ⟨hrecovered, hchosen⟩ := hpoint
    cases hstep
    split
    · rename_i hfree
      have hkeeps : Keeps { w with lock := some id } run
          (World.next { w with lock := some id } id run items) :=
        (h.takeLock hfree).next rfl hrecovered hchosen (.items _ _)
      exact ⟨hkeeps.inv, hkeeps.grows, hkeeps.further⟩
    · exact h.fail .alreadyRunning
  · rename_i item rest
    obtain ⟨hrecovered, hchosen, hsettled⟩ := hpoint
    cases hstep
    split
    · rename_i hpresent
      obtain ⟨tree, htree⟩ := Option.ne_none_iff_exists'.mp (ne_none_of_present hpresent)
      exact h.goTo ⟨hrecovered, hchosen, hsettled, tree, htree, htree ▸ hpresent⟩ fun _ => hlock rfl
    · rename_i habsent
      exact h.next (hlock rfl) hrecovered hchosen
        (hsettled.cons (.of_absent (Bool.eq_false_iff.mpr habsent)))
  · rename_i item rest
    obtain ⟨hrecovered, hchosen, hsettled, tree, htree, hpresent⟩ := hpoint
    cases hstep
    split
    · rename_i hhome
      exact h.next (hlock rfl) hrecovered hchosen (hsettled.cons (.of_home hhome))
    · rename_i habsent
      have habsent : present (w.disk.home item) = false := Bool.eq_false_iff.mpr habsent
      have hfirst : run.late = false := h.first (by rw [htree, hpresent]) habsent
      have hworking : Working w.disk run item rest :=
        ⟨hrecovered, hchosen, hsettled, habsent, hfirst⟩
      split
      · rename_i hruntimes
        subst hruntimes
        exact h.goTo (hworking.goTo _) fun _ => hlock rfl
      · exact h.goTo (hworking.goTo _) fun _ => hlock rfl
  · cases hstep
    exact h.fail .system
  · cases hstep
    exact h.fail .system
  · cases hstep
    exact h.fail .system
  · cases hstep
    exact h.fail .system
  · cases hstep
    exact h.fail .system
  · cases hstep

section Move

variable {tree tree' source : Tree} {path : Path}

theorem Rooted.present (h : Rooted tree) : Home.present (some tree) = true := by
  obtain ⟨leaf, hleaf, hlink⟩ := h
  cases leaf with
  | dir => simp only [Home.present, hleaf]
  | file bytes => simp only [Home.present, hleaf]
  | link dangling => cases hlink

theorem Rooted.kept (h : Rooted tree) : Rooted (Branding.kept tree) := by
  obtain ⟨leaf, hleaf, hlink⟩ := h
  refine ⟨leaf, ?_, hlink⟩
  rw [get_kept]
  exact hleaf

theorem get_of_kept {leaf : Leaf} (h : (kept tree).get path = some leaf) :
    tree.get path = some leaf := by
  rw [← (get_kept_of_some (Option.isSome_of_eq_some h)).2, h]

theorem Closed.taken (h : Closed d) (hbackups : d'.backups = d.backups)
    (hhome : Home.present (d'.home .runtimes) = true)
    (hprevious : ∀ place, place ≠ .runtimes → d'.previous place = d.previous place) :
    Closed d' where
  backups := by
    rw [hbackups]
    exact h.backups
  previous place tree hplace htree := by
    have hne : place ≠ .runtimes := by
      rcases hplace with hne | habsent
      · exact hne
      · rw [hhome] at habsent
        cases habsent
    rw [hprevious place hne] at htree
    exact h.previous place tree (.inl hne) htree

theorem Grows.move (habsent : Home.present (d.home .runtimes) = false)
    (htree : d.previous .runtimes = some tree) (hpresent : Home.present (some tree) = true) :
    Grows d ((d.setHome .runtimes tree).setPrevious .runtimes none) where
  home item hitem := by
    refine Disk.setHome_of_ne ?_
    rintro rfl
    rw [habsent] at hitem
    cases hitem
  others place _ hruntimes := Disk.setPrevious_of_ne hruntimes
  config := .inl (Disk.setPrevious_of_ne (by decide))
  runtimes := by
    refine .inr ⟨tree, by simp, hpresent, fun source hsource path leaf hleaf => ?_⟩
    rw [htree] at hsource
    cases hsource
    exact get_of_kept hleaf
  backups := id

theorem Held.grows (h : Held d) (rest : Option Tree) :
    Grows d (d.setPrevious .runtimes rest) where
  home _ _ := rfl
  others place _ hruntimes := Disk.setPrevious_of_ne hruntimes
  config := .inl (Disk.setPrevious_of_ne (by decide))
  runtimes := .inr h
  backups := id

theorem Held.removed (h : Held d) (htree : d.previous .runtimes = some tree)
    (hremove : removeEntry tree path = some tree') :
    Held (d.setPrevious .runtimes (remaining tree')) := by
  obtain ⟨target, hhome, hpresent, hheld⟩ := h
  refine ⟨target, hhome, hpresent, fun source hsource q leaf hleaf => ?_⟩
  rw [Disk.setPrevious_self] at hsource
  obtain rfl : tree' = source := by
    unfold remaining at hsource
    split at hsource
    · exact Option.some.inj hsource
    · cases hsource
  have hback : tree' = tree.erase path := by
    unfold removeEntry at hremove
    split at hremove
    · exact (Option.some.inj hremove).symm
    · cases hremove
  refine hheld tree htree q leaf ?_
  obtain ⟨hskip, hsame⟩ := get_kept_of_some (Option.isSome_of_eq_some hleaf)
  rw [hsame, hback, KeyMap.get_erase] at hleaf
  rw [get_kept_of_taken hskip]
  split at hleaf
  · cases hleaf
  · exact hleaf

end Move

theorem Going.moveDir {point : Point} {outcome : Outcome} (h : Going w id run)
    (hpoint : point.Holds w.disk run) (hlock : locked point = true → w.lock = some id)
    (hstep : moveDir w id run point outcome = some w') : Keeps w run w' := by
  unfold Home.moveDir at hstep
  split at hstep
  · rename_i rest
    have hworking : Working w.disk run .runtimes rest := hpoint
    split at hstep
    · cases hstep
      exact h.fail .linkedPath
    · rename_i leaf hlink hroot
      obtain ⟨tree, htree, hleaf⟩ := Option.bind_eq_some_iff.mp hroot
      cases hstep
      refine h.goTo ⟨hworking.goTo _, tree, htree, leaf, hleaf, ?_⟩ fun _ => hlock rfl
      cases leaf with
      | dir => rfl
      | file bytes => rfl
      | link dangling => exact absurd rfl (hlink dangling)
    · cases hstep
      exact h.fail .system
  · cases hstep
    exact h.fail .system
  · rename_i rest
    obtain ⟨hworking, tree, htree, hrooted⟩ := hpoint
    rw [htree] at hstep
    cases hstep
    have hg := Grows.move hworking.absent htree hrooted.present
    have hhome : ((w.disk.setHome .runtimes tree).setPrevious .runtimes none).home .runtimes =
        some tree := by simp
    have hclosed : Closed ((w.disk.setHome .runtimes tree).setPrevious .runtimes none) :=
      h.others.closed.taken rfl (by rw [hhome, hrooted.present])
        fun place hne => Disk.setPrevious_of_ne hne
    have hstarted : run.started .runtimes = some tree := by
      rcases h.since.runtimes with hpresent | hsame
      · rw [hworking.absent] at hpresent
        cases hpresent
      · rw [← hsame, htree]
    have hevent : Event.Holds ((w.disk.setHome .runtimes tree).setPrevious .runtimes none)
        (.created .runtimes tree (some tree) (run.started .runtimes)) :=
      ⟨hhome, hrooted.present, tree, rfl, .inr ⟨rfl, rfl⟩, .inl hstarted⟩
    have hgoing := (h.change hclosed hg (.inl (hlock rfl))).note hevent rfl
    have hsettled := (hworking.settled.grows hworking.recovered hg).cons
      (.of_home (by rw [hhome, hrooted.present]))
    exact (hgoing.next (hlock rfl) (hworking.recovered.grows hg) (hworking.chosen.grows hg)
      hsettled).after hg hworking.first
  · rename_i rest
    obtain ⟨hworking, -⟩ := hpoint
    cases hstep
    exact h.goTo (hworking.goTo _) fun _ => hlock rfl
  · cases hstep
    exact h.fail .cannotMove
  · rename_i rest path
    obtain ⟨hrecovered, hchosen, hsettled, hheld, hfirst⟩ := hpoint
    split at hstep
    · rename_i tree' hremove
      obtain ⟨tree, htree, hentry⟩ := Option.bind_eq_some_iff.mp hremove
      cases hstep
      have hg := hheld.grows (remaining tree')
      have hheld' := hheld.removed htree hentry
      have hclosed : Closed (w.disk.setPrevious .runtimes (remaining tree')) := by
        obtain ⟨target, hhome, hpresent, -⟩ := hheld
        exact h.others.closed.taken rfl (by rw [← hpresent, ← hhome]; rfl)
          fun place hne => Disk.setPrevious_of_ne hne
      have hgoing := h.change hclosed hg (.inl (hlock rfl))
      have hpoint' : Point.Holds (w.disk.setPrevious .runtimes (remaining tree'))
          { run with point := .removeSource rest } (.removeSource rest) :=
        ⟨hrecovered.grows hg, hchosen.grows hg, hsettled.grows hrecovered hg, hheld', hfirst⟩
      exact Keeps.after (hgoing.goTo hpoint' fun _ => hlock rfl) hg hfirst
    · cases hstep
  · rename_i rest
    obtain ⟨hrecovered, hchosen, hsettled, -⟩ := hpoint
    split at hstep
    · cases hstep
      exact h.next (hlock rfl) hrecovered hchosen hsettled
    · cases hstep
  · rename_i rest
    obtain ⟨hrecovered, hchosen, hsettled, -⟩ := hpoint
    cases hstep
    exact h.next (hlock rfl) hrecovered hchosen hsettled
  · cases hstep

section Copy

variable {item : Item} {rest : List Item} {target source : Tree}

theorem Grows.setStage (d : Disk) (item : Item) (tree : Option Tree) :
    Grows d (d.setStage item tree) :=
  ⟨fun _ _ => rfl, fun _ _ _ => rfl, .inl rfl, .inl rfl, id⟩

theorem Closed.setStage {tree : Option Tree} (h : Closed d) : Closed (d.setStage item tree) :=
  ⟨h.backups, h.previous⟩

theorem Working.setStage {tree : Option Tree} (h : Working d run item rest) :
    Working (d.setStage item tree) run item rest :=
  ⟨h.recovered, h.chosen, h.settled, h.absent, h.first⟩

theorem Working.closed (h : Working d run item rest) (hclosed : Closed d)
    (hsource : d.previous (run.sourceOf item) = some source) : Branding.closed source = true := by
  refine hclosed.previous _ source ?_ hsource
  by_cases hruntimes : run.sourceOf item = .runtimes
  · obtain rfl := sourceOf_eq_runtimes hruntimes
    exact .inr h.absent
  · exact .inl hruntimes

theorem Grows.commit (habsent : Home.present (d.home item) = false) :
    Grows d ((d.setHome item target).setStage item none) where
  home other hother := by
    refine Disk.setHome_of_ne ?_
    rintro rfl
    rw [habsent] at hother
    cases hother
  others _ _ _ := rfl
  config := .inl rfl
  runtimes := .inl rfl
  backups := id

theorem Closed.commit (h : Closed d) (hpresent : Home.present (some target) = true) :
    Closed ((d.setHome item target).setStage item none) where
  backups := h.backups
  previous place tree hplace htree := by
    refine h.previous place tree (hplace.imp_right fun habsent => ?_) htree
    rw [Disk.setStage_home] at habsent
    by_cases hitem : item = .runtimes
    · subst hitem
      rw [Disk.setHome_self, hpresent] at habsent
      cases habsent
    · rwa [Disk.setHome_of_ne (Ne.symm hitem)] at habsent

theorem Going.committed (h : Going w id run) (hlock : w.lock = some id)
    (hrecovered : Recovered w.disk) (hchosen : Chosen w.disk run)
    (hsettled : SettledBut w.disk run rest) (hheld : item = .runtimes → Held w.disk)
    (hfirst : run.late = false) : Keeps w run (w.committed id run item rest) := by
  unfold World.committed
  split
  · rename_i hruntimes
    exact h.goTo ⟨hrecovered, hchosen, hsettled, hheld hruntimes, hfirst⟩ fun _ => hlock
  · exact h.next hlock hrecovered hchosen hsettled

/-- The copy that comes into the home folder is all a copy takes of its source, and the source is
still what it was when the run started, or else a recovered configuration. -/
theorem Going.commit (h : Going w id run) (hlock : w.lock = some id)
    (hworking : Working w.disk run item rest)
    (hsource : w.disk.previous (run.sourceOf item) = some source) (hrooted : Rooted source)
    (hstep : (((w.put ((w.disk.setHome item (kept source)).setStage item none)).note
      (.created item (kept source) (w.disk.previous (run.sourceOf item))
        (run.started (run.sourceOf item)))).committed id run item rest) = w') :
    Keeps w run w' := by
  subst hstep
  have hpresent := hrooted.kept.present
  have hg : Grows w.disk ((w.disk.setHome item (kept source)).setStage item none) :=
    .commit hworking.absent
  have hhome : ((w.disk.setHome item (kept source)).setStage item none).home item =
      some (kept source) := by simp
  have hstarted : run.started (run.sourceOf item) = some source ∨
      item = .config ∧ run.started (run.sourceOf item) = none := by
    by_cases hconfig : run.sourceOf item = .config
    · rw [hconfig] at hsource ⊢
      cases hthere : run.started .config with
      | none => exact .inr ⟨sourceOf_eq_config hconfig, rfl⟩
      | some tree =>
        rw [h.since.config tree hthere] at hsource
        exact .inl hsource
    · by_cases hruntimes : run.sourceOf item = .runtimes
      · rcases h.since.runtimes with hhere | hsame
        · obtain rfl := sourceOf_eq_runtimes hruntimes
          rw [hworking.absent] at hhere
          cases hhere
        · rw [hruntimes] at hsource ⊢
          exact .inl (by rw [← hsame, hsource])
      · rw [← h.since.others _ hconfig hruntimes]
        exact .inl hsource
  have hevent : Event.Holds ((w.disk.setHome item (kept source)).setStage item none)
      (.created item (kept source) (w.disk.previous (run.sourceOf item))
        (run.started (run.sourceOf item))) :=
    ⟨hhome, hpresent, source, hsource, .inl rfl, hstarted⟩
  have hgoing := (h.change (h.others.closed.commit hpresent) hg (.inl hlock)).note hevent rfl
  have hrecovered := hworking.recovered.grows hg
  have hchosen := hworking.chosen.grows hg
  have hsettled := (hworking.settled.grows hworking.recovered hg).cons
    (.of_home (by rw [hhome, hpresent]))
  refine (hgoing.committed hlock hrecovered hchosen hsettled (fun hruntimes => ?_)
    hworking.first).after hg hworking.first
  subst hruntimes
  refine ⟨kept source, hhome, hpresent, fun other hother path leaf hleaf => ?_⟩
  have hsame : w.disk.previous .runtimes = some other := hother
  have hsource : w.disk.previous .runtimes = some source := hsource
  rw [hsource] at hsame
  cases hsame
  exact hleaf

end Copy

theorem Going.copy {point : Point} {outcome : Outcome} (h : Going w id run)
    (hpoint : point.Holds w.disk run) (hlock : locked point = true → w.lock = some id)
    (hstep : copy w id run point outcome = some w') : Keeps w run w' := by
  have restage {item : Item} {rest : List Item} (hworking : Working w.disk run item rest)
      (tree : Option Tree) (hmine : w.lock = some id) {next : Point}
      (hnext : next.Holds (w.disk.setStage item tree) { run with point := next }) :
      Keeps w run ((w.put (w.disk.setStage item tree)).goTo id run next) := by
    have hg := Grows.setStage w.disk item tree
    have hgoing := h.change h.others.closed.setStage hg (.inl hmine)
    exact Keeps.after (hgoing.goTo hnext fun _ => hmine) hg hworking.first
  unfold Home.copy at hstep
  split at hstep
  · rename_i item rest
    have hworking : Working w.disk run item rest := hpoint
    split at hstep
    · rename_i hstage
      cases hstep
      exact h.goTo ⟨hworking.goTo _, hstage⟩ fun _ => hlock rfl
    · split at hstep
      · cases hstep
        exact h.fail .linkedStage
      · cases hstep
        exact h.goTo (hworking.goTo _) fun _ => hlock rfl
  · rename_i item rest path
    have hworking : Working w.disk run item rest := hpoint
    split at hstep
    · cases hstep
      exact restage hworking _ (hlock rfl) (hworking.setStage.goTo _)
    · cases hstep
  · rename_i item rest
    have hworking : Working w.disk run item rest := hpoint
    split at hstep
    · rename_i hstage
      cases hstep
      exact h.goTo ⟨hworking.goTo _, hstage⟩ fun _ => hlock rfl
    · cases hstep
  · rename_i item rest
    obtain ⟨hworking, hstage⟩ := hpoint
    have start (task : Task) (htask : task.path = []) {leaf : Leaf} (hleaf : isLink leaf = false)
        (hroot : (w.disk.previous (run.sourceOf item)).bind (fun tree => tree.get []) = some leaf) :
        Keeps w run (w.goTo id run (.copying item rest [task])) := by
      obtain ⟨source, hsource, hget⟩ := Option.bind_eq_some_iff.mp hroot
      refine h.goTo ⟨hworking.goTo _, source, hsource, ⟨leaf, hget, hleaf⟩, ?_⟩ fun _ => hlock rfl
      rw [hstage]
      exact .start task htask
    split at hstep
    · rename_i hroot
      cases hstep
      exact start _ rfl rfl hroot
    · cases hstep
      exact h.fail .linkedPath
    · rename_i bytes hroot
      cases hstep
      exact start _ rfl rfl hroot
    · cases hstep
      exact h.fail .system
  · rename_i item rest task tasks
    obtain ⟨hworking, source, hsource, hrooted, hcopying⟩ := hpoint
    rw [hsource] at hstep
    simp only at hstep
    split at hstep
    · rename_i new tree hcopied
      cases hstep
      have hcopying' : Copying source tree (new ++ tasks) :=
        hcopying.step (hworking.closed h.others.closed hsource) hcopied
      refine restage hworking (some tree) (hlock rfl)
        ⟨hworking.setStage.goTo _, source, hsource, hrooted, ?_⟩
      rw [Disk.setStage_self]
      exact hcopying'
    · cases hstep
      exact h.fail _
  · rename_i item rest task tasks count
    obtain ⟨hworking, source, hsource, hrooted, hcopying⟩ := hpoint
    rw [hsource] at hstep
    simp only at hstep
    split at hstep
    · rename_i tree hwrote
      cases hstep
      refine restage hworking (some tree) (hlock rfl)
        ⟨hworking.setStage.goTo _, source, hsource, hrooted, ?_⟩
      rw [Disk.setStage_self]
      exact hcopying.writeSome hwrote
    · cases hstep
  · rename_i item rest
    obtain ⟨hworking, source, hsource, hrooted, hcopying⟩ := hpoint
    split at hstep
    · rename_i tree hstage
      rw [hstage] at hcopying
      obtain rfl : tree = kept source := hcopying.done
      exact h.commit (hlock rfl) hworking hsource hrooted (Option.some.inj hstep)
    · cases hstep
      exact h.fail .system
  · cases hstep
    exact h.fail .system
  · cases hstep
    exact h.fail .system
  · cases hstep
    exact h.fail .system
  · cases hstep
    exact h.fail .system
  · cases hstep

theorem Inv.go {outcome : Outcome} (h : Inv w) (hrun : w.runs.get id = some run)
    (hquiet : quiet w.disk run.point outcome = true) (hgo : go w id run outcome = some w') :
    Keeps w run w' := by
  have hgoing := h.going hrun
  have hpoint := (h.runs id run hrun).point
  have hlock := h.lock id run hrun
  simp only [Home.go, Option.orElse_eq_or, Option.or_eq_some_iff] at hgo
  rcases hgo with hlook | ⟨-, hpending | ⟨-, hmove | ⟨-, hcopy⟩⟩⟩
  · exact hgoing.lookAround hpoint hquiet hlook
  · exact hgoing.lookPending hpoint hlock hpending
  · exact hgoing.moveDir hpoint hlock hmove
  · exact hgoing.copy hpoint hlock hcopy

theorem Inv.step {act : Act} (h : Inv w) (hok : undisturbed w act = true)
    (hstep : migrate w act = some w') : Inv w' ∧ Grows w.disk w'.disk := by
  cases act with
  | begin id =>
    simp only [migrate] at hstep
    split at hstep
    · cases hstep
    · cases hstep
      have hgoing : Going w id
          { started := w.disk.previous, late := w.log.any Event.isReturned, replaced := false,
            point := .lookTarget } :=
        ⟨h.others id, ⟨fun _ _ _ => rfl, fun _ htree => htree, .inr rfl⟩, fun hlate => hlate⟩
      have hpoint : Point.Holds w.disk
          { started := w.disk.previous, late := w.log.any Event.isReturned, replaced := false,
            point := .lookTarget } .lookTarget := trivial
      have hkeeps := hgoing.goTo hpoint fun hlocked => by cases hlocked
      exact ⟨hkeeps.inv, hkeeps.grows⟩
  | go id outcome =>
    obtain ⟨run, hrun, hgo⟩ := Option.bind_eq_some_iff.mp hstep
    simp only [undisturbed, hrun] at hok
    have hkeeps := h.go hrun hok hgo
    exact ⟨hkeeps.inv, hkeeps.grows⟩
  | stop id =>
    simp only [migrate] at hstep
    split at hstep
    · cases hstep
      exact ⟨(h.others id).drop, .refl _⟩
    · cases hstep

/-- The folders as the first move finds them. -/
structure Layout where
  disk : Disk
  closed : Closed disk

def Layout.world (layout : Layout) : World := ⟨layout.disk, KeyMap.empty, none, []⟩

theorem Inv.start (layout : Layout) : Inv layout.world where
  lock id run hrun := by cases hrun
  closed := layout.closed
  runs id run hrun := by cases hrun
  log event hevent := by cases hevent
  settled hreturned := by cases hreturned
  late id run hrun := by cases hrun

/-- How a world compares with an earlier one. -/
structure Consistent (w w' : World) : Prop where
  destinations : ∀ item, present (w.disk.home item) = true → w'.disk.home item = w.disk.home item
  sources : ∀ place, place ≠ .runtimes → w.disk.previous place ≠ none ∨ place ≠ .config →
    w'.disk.previous place = w.disk.previous place
  runtimes : w'.disk.previous .runtimes = w.disk.previous .runtimes ∨
    ∃ target, w'.disk.home .runtimes = some target ∧ ∀ source, w.disk.previous .runtimes = some source →
      ∀ path leaf, (kept source).get path = some leaf → target.get path = some leaf
  log : ∀ event ∈ w'.log, event.Holds w'.disk
  further : ∀ id run outcome w'', w'.runs.get id = some run → run.late = true →
    undisturbed w' (.go id outcome) = true → migrate w' (.go id outcome) = some w'' →
      w''.disk = w'.disk

/-- A backup of the configuration and a folder of runtimes with a lock file. -/
def earlier : Disk where
  previous place :=
    if place = .runtimes then
      some (((KeyMap.empty.insert [] .dir).insert ["llama".toList] (.file [1, 2])).insert
        ["run.lock".toList] (.file []))
    else none
  backups := KeyMap.empty.insert "backup".toList (0, KeyMap.empty.insert [] (.file [7]))
  home _ := none
  stage _ := none

/-- A run stops in the middle of a copied file; the next one clears the rest away, copies the
runtimes from another device and takes the folder they come from apart; the last finds nothing. -/
def interrupted : List Act :=
  List.flatten [[.begin 1], List.replicate 2 (.go 1 .done),
    [.go 1 (.listed [("backup".toList, true)])], List.replicate 16 (.go 1 .done),
    [.go 1 (.wrote 0), .stop 1, .begin 2], List.replicate 16 (.go 2 .done),
    [.go 2 (.removed [])], List.replicate 11 (.go 2 .done), [.go 2 .crossesDevices],
    List.replicate 6 (.go 2 .done), [.go 2 (.removed ["llama".toList]),
    .go 2 (.removed ["run.lock".toList]), .go 2 (.removed []), .go 2 .done],
    [.begin 3], List.replicate 10 (.go 3 .done)]

end AioLM.Home
