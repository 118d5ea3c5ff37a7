import AioLM.ModelUpdates
import AioLM.PortablePaths
import AioLM.SnapshotRuns

/-!
Updates of an installed model in whole runs: in the end every file of the update is there as it
was published, or every old file is in its place, or in the staging folder that the error names.
-/

set_option autoImplicit false

namespace AioLM.Discover.Updates

open Effect Fallible Files

def Only (region : Text → Prop) (d d' : Disk Note) : Prop :=
  ∀ path, ¬ region path → d'.tree.get path = d.tree.get path

section Only

variable {region : Text → Prop} {α β : Type}

theorem Only.refl (d : Disk Note) : Only region d d := fun _ _ => rfl

theorem Only.trans (d d' d'' : Disk Note) (h : Only region d d') (h' : Only region d' d'') :
    Only region d d'' := fun path hpath => (h' path hpath).trans (h path hpath)

theorem Only.mono {wider : Text → Prop} (hwider : ∀ path, region path → wider path)
    (d d' : Disk Note) (h : Only region d d') : Only wider d d' :=
  fun path hpath => h path (mt (hwider path) hpath)

theorem Only.bind {x : Install α} {f : α → Install β} (hx : Moves (Only region) x)
    (hf : ∀ a, Moves (Only region) (f a)) : Moves (Only region) (x >>= f) := hx.bind hf Only.trans

theorem Untouched.only (d d' : Disk Note) (h : Untouched d d') : Only region d d' :=
  fun path _ => by rw [h.1]

theorem Only.of_untouched {x : Install α} (hx : Moves Untouched x) : Moves (Only region) x :=
  hx.mono Untouched.only

theorem only_change {host : Host} {f : Tree → Nat → Except Errno Tree}
    (hf : ∀ t clock t', f t clock = .ok t' → ∀ path, ¬ region path → t'.get path = t.get path) :
    Moves (Only region) (change host f : Install Unit) := by
  intro d
  rcases exec_change host f d with ⟨error, h⟩ | ⟨t, ht, h⟩
  · exact h ▸ Untouched.only _ _ ⟨rfl, rfl⟩
  · exact h ▸ hf _ _ _ ht

end Only

section Trees

variable {t t' : Tree} {path other source target : Text} {node : Node}

theorem get_insert_of_ne (h : other ≠ path) : (t.insert path node).get other = t.get other := by
  rw [KeyMap.get_insert, if_neg h]

theorem get_erase_of_ne (h : other ≠ path) : (t.erase path).get other = t.get other := by
  rw [KeyMap.get_erase, if_neg h]

theorem get_createDirectory_of_ne (h : Tree.createDirectory t path = .ok t') (hne : other ≠ path) :
    t'.get other = t.get other := by
  obtain ⟨-, rfl⟩ := Tree.createDirectory_ok h
  exact get_insert_of_ne hne

theorem get_hardLink_of_ne (h : Tree.hardLink t source target = .ok t') (hne : other ≠ target) :
    t'.get other = t.get other := by
  obtain ⟨content, stamp, -, -, rfl⟩ := Tree.hardLink_ok h
  exact get_insert_of_ne hne

theorem get_write_of_ne {content : Bytes} {stamp : Nat}
    (h : Tree.write t path content stamp = .ok t') (hne : other ≠ path) :
    t'.get other = t.get other := by
  rw [Tree.write_ok h]
  exact get_insert_of_ne hne

theorem get_removeFile_of_ne (h : Tree.removeFile t path = .ok t') (hne : other ≠ path) :
    t'.get other = t.get other := by
  rw [Tree.removeFile_ok h]
  exact get_erase_of_ne hne

theorem append_ok {chunk : Bytes} {clock : Nat} (h : append path chunk t clock = .ok t') :
    ∃ content, Tree.content t path = some content ∧
      t' = t.insert path (.file (content ++ chunk) clock) := by
  rw [append, bind_eq_ok] at h
  obtain ⟨content, hcontent, hwrite⟩ := h
  rw [orError_eq_ok] at hcontent
  exact ⟨content, hcontent, Tree.write_ok hwrite⟩

theorem Tree.rename_ok (h : Tree.rename t source target = .ok t') :
    ∃ content stamp, t.get source = some (.file content stamp) ∧
      Tree.isDirectory t target = false ∧
      t' = (t.erase source).insert target (.file content stamp) := by
  unfold Tree.rename at h
  split at h
  · rename_i content stamp hsource
    split at h
    · cases h
    · rename_i hdirectory
      exact ⟨content, stamp, hsource, by simpa using hdirectory, (Except.ok.inj h).symm⟩
  · cases h
  · cases h

end Trees

section Looks

variable {tools : UpdateTools} {env : UpdateSurroundings}

theorem untouched_checkComponent (path : Text) : Moves Untouched (checkComponent env path) := by
  refine Untouched.bind (untouched_look _) fun node => ?_
  split
  · exact .throw Untouched.refl _
  · exact untouched_look _
  · exact .pure Untouched.refl _

theorem untouched_safeDestination (relative : Text) :
    Moves Untouched (safeDestination env relative) := by
  refine Untouched.bind (.ofExcept Untouched.refl _) fun _ => ?_
  refine Untouched.bind (untouched_look _) fun _ => ?_
  exact .forM (fun path _ => untouched_checkComponent path) Untouched.refl Untouched.trans

theorem untouched_boundedMetadata (path : Text) : Moves Untouched (boundedMetadata env path) := by
  refine Untouched.bind (untouched_look _) fun node => ?_
  split
  · exact .pure Untouched.refl _
  · refine Untouched.bind (.demand Untouched.refl _ _) fun _ => ?_
    exact Untouched.bind (untouched_look _) fun _ => .pure Untouched.refl _
  · exact .throw Untouched.refl _

theorem untouched_hashExistingFile (path : Text) (size : Nat) :
    Moves Untouched (hashExistingFile tools env path size) := by
  refine Untouched.bind (.mapError (untouched_look _) _) fun content => ?_
  refine Untouched.bind (.demand Untouched.refl _ _) fun _ => ?_
  refine Untouched.bind untouched_checkCancelled fun _ => ?_
  exact Untouched.bind (.mapError (untouched_look _) _) fun _ => .pure Untouched.refl _

theorem untouched_checkInstalled (mode : PlanMode) (installed : Installed)
    (files : List TrackedFile) (file : TrackedFile) :
    Moves Untouched (checkInstalled tools env mode installed files file) := by
  refine Untouched.bind (untouched_safeDestination _) fun _ => ?_
  refine .ite ?_ (.ite ?_ ?_)
  · refine Untouched.bind (untouched_look _) fun node => ?_
    exact Untouched.bind (.demand Untouched.refl _ _) fun _ => .pure Untouched.refl _
  · exact Untouched.bind (untouched_hashExistingFile _ _) fun _ => .pure Untouched.refl _
  · refine Untouched.bind (.observe (untouched_verifyFileDigest _)) fun found => ?_
    split
    · exact .pure Untouched.refl _
    · split
      · exact .throw Untouched.refl _
      · refine Untouched.bind (.observe (untouched_verifyFileDigest _)) fun found => ?_
        split
        · exact .pure Untouched.refl _
        · exact .throw Untouched.refl _

theorem untouched_reusable (installed : Installed) (file : TrackedFile) :
    Moves Untouched (reusable tools env installed file) := by
  refine .ite (.pure Untouched.refl _) (.ite ?_ (.pure Untouched.refl _))
  refine Untouched.bind (untouched_safeDestination _) fun _ => ?_
  refine Untouched.bind (.observe (untouched_verifyFileDigest _)) fun found => ?_
  split
  · exact .pure Untouched.refl _
  · exact .ite (.throw Untouched.refl _) (.pure Untouched.refl _)

theorem untouched_refuseUntracked (installed : Installed) (file : TrackedFile) :
    Moves Untouched (refuseUntracked env installed file) := by
  refine Untouched.bind (untouched_safeDestination _) fun _ => ?_
  refine .ite (.pure Untouched.refl _) ?_
  exact Untouched.bind (.observe (untouched_look _)) fun _ => .demand Untouched.refl _ _

theorem untouched_planTransfers (installed : Installed) (totals : Totals)
    (files : List (TrackedFile × Nat)) :
    Moves Untouched (planTransfers tools env installed totals files) := by
  induction files generalizing totals with
  | nil => exact .pure Untouched.refl _
  | cons entry rest ih =>
    refine Untouched.bind (untouched_reusable _ _) fun there => ?_
    refine .ite ?_ ?_
    · exact Untouched.bind (.demand Untouched.refl _ _) fun _ => ih _
    · refine Untouched.bind (untouched_refuseUntracked _ _) fun _ => ?_
      exact Untouched.bind (.demand Untouched.refl _ _) fun _ => ih _

theorem untouched_planUpdate (mode : PlanMode) (installed : Installed) (revision : Text)
    (files : List TrackedFile) :
    Moves Untouched (planUpdate tools env mode installed revision files) := by
  refine Untouched.bind (.mapM (fun file _ => untouched_checkInstalled _ _ _ _) Untouched.refl
    Untouched.trans) fun checked => ?_
  exact Untouched.bind (untouched_planTransfers _ _ _) fun _ => .pure Untouched.refl _

theorem untouched_verifyBaseline (plan : Plan) :
    Moves Untouched (verifyBaseline tools env plan) := by
  refine Untouched.bind (untouched_boundedMetadata _) fun _ => ?_
  refine Untouched.bind (.demand Untouched.refl _ _) fun _ => ?_
  refine Untouched.bind (.forM (fun file _ => ?_) Untouched.refl Untouched.trans) fun _ => ?_
  · exact Untouched.bind (untouched_safeDestination _) fun _ =>
      .mapError (untouched_verifyFileDigest _) _
  · exact .forM (fun file _ => untouched_refuseUntracked _ _) Untouched.refl Untouched.trans

end Looks

section Preparation

variable {tools : UpdateTools} {env : UpdateSurroundings} {region : Text → Prop}
  {staged stage : Text}

theorem only_createStagingFile (hstaged : region staged) :
    Moves (Only region) (createStagingFile env.toSurroundings staged) := by
  refine Only.bind (.of_untouched (untouched_ensureDownloadParent _)) fun _ => ?_
  refine Only.bind (.of_untouched (.mapError (untouched_look _) _)) fun _ => ?_
  refine Only.bind (.demand Only.refl _ _) fun _ => ?_
  refine .mapError (only_change fun t clock t' h path hpath => ?_) _
  obtain ⟨-, rfl⟩ := Tree.createFile_ok h
  exact get_insert_of_ne fun heq => hpath (heq ▸ hstaged)

theorem only_receiveChunks (hstaged : region staged) (size : Nat) (received : Bytes)
    (chunks : List (Except Text Bytes)) :
    Moves (Only region) (receiveChunks env size staged received chunks) := by
  induction chunks generalizing received with
  | nil => exact Only.bind (.of_untouched untouched_checkCancelled) fun _ => .pure Only.refl _
  | cons chunk chunks ih =>
    refine Only.bind (.of_untouched untouched_checkCancelled) fun _ => ?_
    refine Only.bind (.ofExcept Only.refl _) fun bytes => ?_
    refine Only.bind (.demand Only.refl _ _) fun _ => ?_
    refine Only.bind (.mapError (only_change fun t clock t' h path hpath => ?_) _) fun _ => ih _
    obtain ⟨content, -, rfl⟩ := append_ok h
    exact get_insert_of_ne fun heq => hpath (heq ▸ hstaged)

theorem only_cleaning (hstaged : region staged) {x : Install Unit} (hx : Moves (Only region) x) :
    Moves (Only region) (cleaning env.toSurroundings staged x) := by
  refine Only.bind (.observe hx) fun result => ?_
  split
  · exact .pure Only.refl _
  · refine Only.bind (.observe (only_change fun t clock t' h path hpath => ?_)) fun _ =>
      .throw Only.refl _
    exact get_removeFile_of_ne h fun heq => hpath (heq ▸ hstaged)

theorem only_receiveDownload (hstaged : region staged) (file : TrackedFile)
    (chunks : List (Except Text Bytes)) :
    Moves (Only region) (receiveDownload tools env file staged chunks) := by
  refine Only.bind (only_createStagingFile hstaged) fun _ => only_cleaning hstaged ?_
  refine Only.bind (.demand Only.refl _ _) fun _ => ?_
  refine Only.bind (only_receiveChunks hstaged _ _ _) fun received => ?_
  refine Only.bind (.of_untouched (.mapError (untouched_look _) _)) fun _ => ?_
  refine Only.bind (.demand Only.refl _ _) fun _ => ?_
  exact Only.bind (.demand Only.refl _ _) fun _ => .of_untouched untouched_checkCancelled

theorem only_fetchFile {index : Nat} (hstaged : region (stagedFile stage index))
    (file : TrackedFile) : Moves (Only region) (fetchFile tools env stage file index) := by
  refine Only.bind (.of_untouched untouched_checkCancelled) fun _ => ?_
  split
  · exact .throw Only.refl _
  · exact .throw Only.refl _
  · exact .throw Only.refl _
  · refine Only.bind (.demand Only.refl _ _) fun _ => ?_
    exact Only.bind (only_receiveDownload hstaged _ _) fun _ => .of_untouched (untouched_look _)

theorem only_fetchFiles {entries : List (TrackedFile × Nat)}
    (hstaged : ∀ entry ∈ entries, region (stagedFile stage entry.2)) (completed : Nat) :
    Moves (Only region) (fetchFiles tools env stage completed entries) := by
  induction entries generalizing completed with
  | nil => exact .pure Only.refl _
  | cons entry rest ih =>
    obtain ⟨hentry, hrest⟩ := List.forall_mem_cons.mp hstaged
    refine Only.bind (only_fetchFile hentry _) fun _ => ?_
    exact Only.bind (.demand Only.refl _ _) fun _ => ih hrest _

theorem inside_join (stage name : Text) : inside stage (join stage name) = true := by
  rw [inside, Bool.or_eq_true, List.isPrefixOf_iff_prefix]
  exact .inr ⟨name, by simp [join]⟩

theorem join_join (stage name rest : Text) :
    join (join stage name) rest = join stage (join name rest) := by simp [join]

theorem inside_stagedFile (stage : Text) (index : Nat) :
    inside stage (stagedFile stage index) = true := by
  rw [stagedFile, join_join]
  exact inside_join _ _

theorem inside_view (stage rest : Text) : inside stage (viewFolder stage ++ rest) = true := by
  have hjoin : viewFolder stage ++ rest = join stage ("view".toList ++ rest) := by
    simp [viewFolder, join]
  rw [hjoin]
  exact inside_join _ _

theorem inside_join_view (stage name : Text) : inside stage (join (viewFolder stage) name) = true :=
  inside_view stage ('/' :: name)

/-- Nothing outside the staging folder changes. -/
abbrev Staged (stage : Text) : Disk Note → Disk Note → Prop :=
  Only fun path => inside stage path = true

theorem staged_createDirectory {path : Text} (hpath : inside stage path = true) :
    Moves (Staged stage) (change env.host fun t _ => Tree.createDirectory t path) :=
  only_change fun _ _ _ h _ hother => get_createDirectory_of_ne h fun heq => hother (heq ▸ hpath)

theorem staged_createMissing {folder : Text} (hfolder : inside stage folder = true) :
    Moves (Staged stage) (createMissing env folder) := by
  refine Only.bind (.of_untouched (untouched_look _)) fun node => ?_
  split
  · exact staged_createDirectory hfolder
  · exact .pure Only.refl _
  · exact .throw Only.refl _

theorem staged_linkView (plan : Plan) (file : TrackedFile) (index : Nat) :
    Moves (Staged stage) (linkView env plan stage file index) := by
  have hlink : Moves (Staged stage) (do
      ((parents (join (viewFolder stage) file.localPath)).filter
        fun folder => (viewFolder stage).isPrefixOf folder).forM (createMissing env)
      Effect.mapError ("cannot link model validation view: ".toList ++ ·)
        (change env.host fun t _ => Tree.hardLink t
          (if plan.changed.contains index then stagedFile stage index else file.localPath)
          (join (viewFolder stage) file.localPath))) := by
    refine Only.bind (.forM (fun folder hfolder => ?_) Only.refl Only.trans) fun _ => ?_
    · obtain ⟨rest, rfl⟩ := List.isPrefixOf_iff_prefix.mp (List.mem_filter.mp hfolder).2
      exact staged_createMissing (inside_view stage rest)
    · refine .mapError (only_change fun t clock t' h path hpath => ?_) _
      exact get_hardLink_of_ne h fun heq => hpath (heq ▸ inside_join_view stage _)
  unfold linkView
  refine .ite ?_ ?_
  · exact hlink
  · exact Only.bind (.of_untouched (untouched_safeDestination _)) fun _ => hlink

theorem staged_validateStagedModel (plan : Plan) :
    Moves (Staged stage) (validateStagedModel tools env plan stage) := by
  refine Only.bind (staged_createDirectory (inside_join _ _)) fun _ => ?_
  refine Only.bind (.forM (fun entry _ => staged_linkView _ _ _) Only.refl Only.trans) fun _ => ?_
  split
  · refine Only.bind (.of_untouched fun _ => Untouched.refl _) fun d => ?_
    exact .ite (.ofExcept Only.refl _) (.pure Only.refl _)
  · refine Only.bind (only_change fun t clock t' h path hpath => ?_) fun _ => ?_
    · exact get_write_of_ne h fun heq => hpath (heq ▸ inside_join_view stage _)
    · exact Only.bind (.of_untouched fun _ => Untouched.refl _) fun d => .demand Only.refl _ _

theorem staged_prepareUpdate (plan : Plan) :
    Moves (Staged stage) (prepareUpdate tools env plan stage) := by
  refine Only.bind (staged_createDirectory (inside_join _ _)) fun _ => ?_
  refine Only.bind (staged_createDirectory (inside_join _ _)) fun _ => ?_
  refine Only.bind (only_fetchFiles (fun entry _ => inside_stagedFile _ _) _) fun completed => ?_
  refine Only.bind (staged_validateStagedModel plan) fun _ => ?_
  refine Only.bind (only_change fun t clock t' h path hpath => ?_) fun _ => ?_
  · exact get_write_of_ne h fun heq => hpath (heq ▸ inside_join stage _)
  refine Only.bind (.of_untouched (untouched_look _)) fun _ => ?_
  refine Only.bind (.of_untouched (untouched_verifyBaseline _)) fun _ => ?_
  exact Only.bind (.of_untouched untouched_checkCancelled) fun _ => .pure Only.refl _

theorem staged_removeStage : Moves (Staged stage) (removeStage env stage) := by
  refine Only.bind (.of_untouched fun _ => Untouched.refl _) fun d => ?_
  refine Only.bind (.observe (.forM (fun path hpath => ?_) Only.refl Only.trans)) fun _ =>
    .pure Only.refl _
  refine only_change fun t clock t' h other hother => ?_
  cases h
  refine get_erase_of_ne fun heq => hother ?_
  rw [heq]
  exact (List.mem_filter.mp (List.mem_reverse.mp hpath)).2

end Preparation

def backupPath (stage : Text) (index : Nat) : Text :=
  join (backupFolder stage) (Nat.toDigits 10 index)

theorem inside_backupPath (stage : Text) (index : Nat) :
    inside stage (backupPath stage index) = true := by
  rw [backupPath, backupFolder, join_join]
  exact inside_join _ _

theorem backupPath_injective (stage : Text) : Function.Injective (backupPath stage) := by
  intro i j h
  have hdigits : Nat.toDigits 10 i = Nat.toDigits 10 j :=
    List.cons.inj (List.append_cancel_left h) |>.2
  rw [← Nat.ofDigitChars_ten_toDigits (n := i), hdigits, Nat.ofDigitChars_ten_toDigits]

def Unmoved (folders : Text → Prop) (base t : Tree) (path : Text) : Prop :=
  t.get path = base.get path ∨
    (base.get path = none ∧ t.get path = some .directory ∧ folders path)

section Unmoved

variable {folders : Text → Prop} {base t t' : Tree} {path : Text}

theorem Unmoved.refl (folders : Text → Prop) (t : Tree) (path : Text) : Unmoved folders t t path :=
  .inl rfl

theorem Unmoved.trans (h : Unmoved folders base t path) (h' : Unmoved folders t t' path) :
    Unmoved folders base t' path := by
  rcases h with h | ⟨hnone, hfolder, hmade⟩
  · rwa [Unmoved, h] at h'
  · rcases h' with h' | ⟨hnone', -⟩
    · exact .inr ⟨hnone, h'.trans hfolder, hmade⟩
    · rw [hfolder] at hnone'
      cases hnone'

theorem Unmoved.get (h : Unmoved folders base t path) {node : Node}
    (hnode : base.get path = some node) : t.get path = some node := by
  rcases h with h | ⟨hnone, -⟩
  · rw [h, hnode]
  · rw [hnode] at hnone
    cases hnone

theorem Unmoved.content (h : Unmoved folders base t path) :
    Tree.content t path = Tree.content base path := by
  unfold Tree.content
  rcases h with h | ⟨hnone, hfolder, -⟩
  · rw [h]
  · rw [hnone, hfolder]

theorem Unmoved.file (h : Unmoved folders base t path) {content : Bytes} {stamp : Nat}
    (hfile : t.get path = some (.file content stamp)) :
    base.get path = some (.file content stamp) := by
  rcases h with h | ⟨-, hfolder, -⟩
  · rw [← h, hfile]
  · rw [hfile] at hfolder
    cases hfolder

end Unmoved

/-- Every folder a path goes through is there. -/
def Rooted (t : Tree) : Prop :=
  ∀ path, (t.get path).isSome → ∀ folder ∈ parents path, t.get folder = some .directory

def CommitEntry.paths (entry : CommitEntry) : List Text := entry.target :: entry.backup.toList

/-- The old file, or that there was none, is known to the journal. -/
structure CommitEntry.Holds (folders : Text → Prop) (base t : Tree) (entry : CommitEntry) :
    Prop where
  kept : match entry.backup with
    | none => base.get entry.target = none
    | some backup => ∃ content stamp, base.get entry.target = some (.file content stamp) ∧
        t.get backup = some (.file content stamp)
  placed : if entry.activated then
      ∃ content stamp, t.get entry.target = some (.file content stamp)
    else t.get entry.target = none ∨
      (t.get entry.target = some .directory ∧ folders entry.target)

section Holds

variable {folders : Text → Prop} {base t t' : Tree} {entry : CommitEntry}

theorem CommitEntry.Holds.congr (h : entry.Holds folders base t)
    (hsame : ∀ path ∈ entry.paths, t'.get path = t.get path) : entry.Holds folders base t' := by
  have htarget : t'.get entry.target = t.get entry.target := hsame _ (List.mem_cons_self ..)
  refine ⟨?_, by rw [htarget]; exact h.placed⟩
  have hkept := h.kept
  split
  · rename_i hbackup
    rwa [hbackup] at hkept
  · rename_i backup hbackup
    rw [hbackup] at hkept
    rwa [hsame backup (by simp [CommitEntry.paths, hbackup])]

theorem CommitEntry.Holds.unmoved (h : entry.Holds folders base t)
    (hmade : ∀ path, Unmoved folders t t' path) : entry.Holds folders base t' := by
  refine ⟨?_, ?_⟩
  · have hkept := h.kept
    split
    · rename_i hbackup
      rwa [hbackup] at hkept
    · rename_i backup hbackup
      rw [hbackup] at hkept
      obtain ⟨content, stamp, hbase, hfile⟩ := hkept
      exact ⟨content, stamp, hbase, (hmade backup).get hfile⟩
  · have hplaced := h.placed
    split
    · rename_i hactivated
      rw [if_pos hactivated] at hplaced
      obtain ⟨content, stamp, hfile⟩ := hplaced
      exact ⟨content, stamp, (hmade entry.target).get hfile⟩
    · rename_i hactivated
      rw [if_neg hactivated] at hplaced
      rcases hmade entry.target with hsame | ⟨-, hfolder, hmade⟩
      · rwa [hsame]
      · exact .inr ⟨hfolder, hmade⟩

end Holds

/-- The journal tells how to get from the folder as it is to the folder as it was. -/
structure Journaled (folders : Text → Prop) (stage : Text) (base t : Tree)
    (entries : List CommitEntry) : Prop where
  holds : ∀ entry ∈ entries, entry.Holds folders base t
  apart : entries.Pairwise fun a b => a.paths.Disjoint b.paths
  outside : ∀ entry ∈ entries, inside stage entry.target = false
  backups : ∀ entry ∈ entries, ∀ backup, entry.backup = some backup →
    ∃ index < entries.length, backup = backupPath stage index
  others : ∀ path, inside stage path = false → (∀ entry ∈ entries, entry.target ≠ path) →
    Unmoved folders base t path

/-- The entry is taken back or, where a failure says it is not, the old file is still there. -/
structure CommitEntry.Settled (folders : Text → Prop) (base t : Tree) (entry : CommitEntry)
    (failure : Option Text) : Prop where
  restored : failure = none → Unmoved folders base t entry.target
  retained : ∀ node, base.get entry.target = some node →
    t.get entry.target = some node ∨ ∃ backup, entry.backup = some backup ∧ t.get backup = some node

section Rollback

variable {env : UpdateSurroundings} {folders : Text → Prop} {base : Tree} {entry : CommitEntry}

theorem CommitEntry.Settled.congr {t t' : Tree} {failure : Option Text}
    (h : entry.Settled folders base t failure)
    (hsame : ∀ path ∈ entry.paths, t'.get path = t.get path) :
    entry.Settled folders base t' failure := by
  have htarget : t'.get entry.target = t.get entry.target := hsame _ (List.mem_cons_self ..)
  refine ⟨fun hnone => ?_, fun node hnode => ?_⟩
  · have hunmoved := h.restored hnone
    rwa [Unmoved, ← htarget] at hunmoved
  · rw [htarget]
    refine (h.retained node hnode).imp_right fun ⟨backup, hbackup, hfile⟩ => ⟨backup, hbackup, ?_⟩
    rwa [hsame backup (by simp [CommitEntry.paths, hbackup])]

theorem CommitEntry.Holds.retained {t : Tree} (h : entry.Holds folders base t) {node : Node}
    (hnode : base.get entry.target = some node) :
    ∃ backup, entry.backup = some backup ∧ t.get backup = some node := by
  have hkept := h.kept
  split at hkept
  · rw [hnode] at hkept
    cases hkept
  · rename_i backup hbackup
    obtain ⟨content, stamp, hbase, hfile⟩ := hkept
    rw [hnode] at hbase
    exact ⟨backup, hbackup, hbase ▸ hfile⟩

theorem exec_withdraw (env : UpdateSurroundings) (entry : CommitEntry) (d : Disk Note) :
    ∃ failure d',
    exec (withdraw env entry) d = (.ok failure, d') ∧
      ((failure.isSome ∧ d'.tree = d.tree) ∨
        (failure = none ∧
          d'.tree = if entry.activated then d.tree.erase entry.target else d.tree)) := by
  by_cases hactivated : entry.activated = true
  · simp only [withdraw, hactivated, if_true]
    rw [exec_bind, exec_observe]
    cases hnode : exec (look env.host fun t => Tree.inspect t entry.target) d with
    | mk node d₁ =>
      have htree₁ : d₁.tree = d.tree := ((untouched_look _).run hnode).1
      dsimp only
      rw [exec_bind, exec_observe]
      cases hstamp : exec (stamp env entry.target) d₁ with
      | mk current d₂ =>
        have htree₂ : d₂.tree = d.tree := ((untouched_look _).run hstamp).1.trans htree₁
        dsimp only
        -- whatever is found at the target, the file is left or removed
        split_ifs
        · exact ⟨_, d₂, rfl, .inl ⟨by simp, htree₂⟩⟩
        · rw [exec_bind, exec_observe]
          rcases exec_change env.host (fun t _ => Tree.removeFile t entry.target) d₂ with
            ⟨error, h⟩ | ⟨t, ht, h⟩
          · rw [h]
            exact ⟨_, d₂.tick, rfl, .inl ⟨by simp, htree₂⟩⟩
          · rw [h]
            exact ⟨none, _, rfl, .inr ⟨rfl, by rw [Tree.removeFile_ok ht, htree₂]⟩⟩
  · simp only [withdraw, hactivated, if_false, Bool.false_eq_true]
    exact ⟨none, d, rfl, .inr ⟨rfl, rfl⟩⟩

theorem exec_restore (env : UpdateSurroundings) (target backup : Text) (d : Disk Note) :
    ∃ failure d',
    exec (restore env target backup) d = (.ok failure, d') ∧
      ((failure.isSome ∧ d'.tree = d.tree) ∨
        (failure = none ∧ ∃ content stamp, d.tree.get backup = some (.file content stamp) ∧
          d'.tree = (d.tree.erase backup).insert target (.file content stamp))) := by
  rw [restore, exec_bind, exec_observe]
  cases hnode : exec (look env.host fun t => Tree.inspect t target) d with
  | mk node d₁ =>
    have htree : d₁.tree = d.tree := ((untouched_look _).run hnode).1
    dsimp only
    split
    · exact ⟨_, d₁, rfl, .inl ⟨by simp, htree⟩⟩
    · rw [exec_bind, exec_observe]
      rcases exec_change env.host (fun t _ => Tree.rename t backup target) d₁ with
        ⟨error, h⟩ | ⟨t, ht, h⟩
      · rw [h]
        exact ⟨_, d₁.tick, rfl, .inl ⟨by simp, htree⟩⟩
      · rw [h]
        obtain ⟨content, stamp, hfile, -, rfl⟩ := Tree.rename_ok ht
        rw [htree] at hfile
        exact ⟨none, _, rfl, .inr ⟨rfl, content, stamp, hfile, by rw [← htree]⟩⟩

theorem exec_rollbackEntry (env : UpdateSurroundings) {d : Disk Note}
    (h : entry.Holds folders base d.tree)
    (hapart : ∀ backup, entry.backup = some backup → backup ≠ entry.target) : ∃ failure d',
    exec (rollbackEntry env entry) d = (.ok failure, d') ∧ Only (· ∈ entry.paths) d d' ∧
      entry.Settled folders base d'.tree failure := by
  obtain ⟨failure, d₁, hrun, hwithdrawn⟩ := exec_withdraw env entry d
  rw [rollbackEntry, exec_bind, hrun]
  rcases hwithdrawn with ⟨hsome, htree⟩ | ⟨rfl, htree⟩
  · obtain ⟨failure, rfl⟩ := Option.isSome_iff_exists.mp hsome
    refine ⟨some failure, d₁, rfl, fun path _ => by rw [htree], nofun, fun node hnode => .inr ?_⟩
    rw [htree]
    exact h.retained hnode
  have honly : ∀ path, path ≠ entry.target → d₁.tree.get path = d.tree.get path := by
    intro path hpath
    rw [htree]
    split
    · exact get_erase_of_ne hpath
    · rfl
  have hkept := h.kept
  have hplaced := h.placed
  cases hbackup : entry.backup with
  | none =>
    rw [hbackup] at hkept
    refine ⟨none, d₁, rfl, fun path hpath => honly path (mt (fun heq => ?_) hpath), ?_, ?_⟩
    · exact heq ▸ List.mem_cons_self ..
    · intro _
      rw [htree]
      split
      · left
        rw [KeyMap.get_erase, if_pos rfl, hkept]
      · rename_i hactivated
        rw [if_neg hactivated] at hplaced
        rcases hplaced with hnone | ⟨hfolder, hmade⟩
        · exact .inl (hnone.trans hkept.symm)
        · exact .inr ⟨hkept, hfolder, hmade⟩
    · intro node hnode
      rw [hkept] at hnode
      cases hnode
  | some backup =>
    rw [hbackup] at hkept
    obtain ⟨content, stamp, hbase, hfile⟩ := hkept
    have hfile₁ : d₁.tree.get backup = some (.file content stamp) := by
      rw [honly backup (hapart backup hbackup), hfile]
    obtain ⟨failure, d₂, hrestore, hrestored⟩ := exec_restore env entry.target backup d₁
    refine ⟨failure, d₂, hrestore, fun path hpath => ?_, fun hnone => ?_, fun node hnode => ?_⟩
    · have htarget : path ≠ entry.target :=
        fun heq => hpath (heq ▸ List.mem_cons_self ..)
      have hother : path ≠ backup :=
        fun heq => hpath (by simp [CommitEntry.paths, hbackup, heq])
      rcases hrestored with ⟨-, htree₂⟩ | ⟨-, content', stamp', -, htree₂⟩
      · rw [htree₂, honly path htarget]
      · rw [htree₂, get_insert_of_ne htarget, get_erase_of_ne hother, honly path htarget]
    · rcases hrestored with ⟨hsome, -⟩ | ⟨-, content', stamp', hfile', htree₂⟩
      · rw [hnone] at hsome
        cases hsome
      · left
        rw [hfile₁] at hfile'
        rw [htree₂, KeyMap.get_insert, if_pos rfl, hbase, hfile']
    · rw [hbase] at hnode
      rcases hrestored with ⟨-, htree₂⟩ | ⟨-, content', stamp', hfile', htree₂⟩
      · exact .inr ⟨backup, hbackup, by rw [htree₂, hfile₁, hnode]⟩
      · left
        rw [hfile₁] at hfile'
        rw [htree₂, KeyMap.get_insert, if_pos rfl, ← hfile', hnode]

theorem exec_rollbackEntries (env : UpdateSurroundings) {entries : List CommitEntry} {d : Disk Note}
    (hapart : entries.Pairwise fun a b => a.paths.Disjoint b.paths)
    (hholds : ∀ entry ∈ entries, entry.Holds folders base d.tree)
    (hplaces : ∀ entry ∈ entries, ∀ backup, entry.backup = some backup → backup ≠ entry.target) :
    ∃ failures d', exec (entries.mapM (rollbackEntry env)) d = (.ok failures, d') ∧
      Only (fun path => ∃ entry ∈ entries, path ∈ entry.paths) d d' ∧
      ∀ entry ∈ entries, ∃ failure ∈ failures, entry.Settled folders base d'.tree failure := by
  induction entries generalizing d with
  | nil => exact ⟨[], d, rfl, Only.refl d, nofun⟩
  | cons entry entries ih =>
    obtain ⟨hhead, htail⟩ := List.pairwise_cons.mp hapart
    obtain ⟨hentry, hentries⟩ := List.forall_mem_cons.mp hholds
    obtain ⟨hplace, hrest⟩ := List.forall_mem_cons.mp hplaces
    obtain ⟨failure, d₁, hrun, honly, hsettled⟩ := exec_rollbackEntry env hentry hplace
    have hstill : ∀ e ∈ entries, e.Holds folders base d₁.tree := fun e he =>
      (hentries e he).congr fun path hpath => honly path fun hmem => hhead e he hmem hpath
    obtain ⟨failures, d₂, hruns, honlys, hall⟩ := ih htail hstill hrest
    refine ⟨failure :: failures, d₂, ?_, fun path hpath => ?_, ?_⟩
    · rw [List.mapM_cons, exec_bind, hrun]
      dsimp only
      rw [exec_bind, hruns]
      rfl
    · rw [honlys path fun ⟨e, he, hmem⟩ => hpath ⟨e, List.mem_cons_of_mem _ he, hmem⟩]
      exact honly path fun hmem => hpath ⟨entry, List.mem_cons_self .., hmem⟩
    · rw [List.forall_mem_cons]
      refine ⟨⟨failure, List.mem_cons_self .., hsettled.congr fun path hpath => ?_⟩, ?_⟩
      · exact honlys path fun ⟨e, he, hmem⟩ => hhead e he hpath hmem
      · intro e he
        obtain ⟨f, hf, hdone⟩ := hall e he
        exact ⟨f, List.mem_cons_of_mem _ hf, hdone⟩

theorem exec_rollback (env : UpdateSurroundings) {stage : Text} {entries : List CommitEntry}
    {d : Disk Note}
    (h : Journaled folders stage base d.tree entries) : ∃ failures d',
    exec (rollback env entries) d = (.ok failures, d') ∧
      (∀ path, inside stage path = false → (∀ entry ∈ entries, entry.target ≠ path) →
        Unmoved folders base d'.tree path) ∧
      ∀ entry ∈ entries, ∃ failure, (failures = [] → failure = none) ∧
        entry.Settled folders base d'.tree failure := by
  have hplaces : ∀ entry ∈ entries.reverse, ∀ backup, entry.backup = some backup →
      backup ≠ entry.target := by
    intro entry hentry backup hbackup heq
    obtain ⟨index, -, rfl⟩ := h.backups entry (List.mem_reverse.mp hentry) backup hbackup
    have houtside := h.outside entry (List.mem_reverse.mp hentry)
    rw [← heq, inside_backupPath] at houtside
    cases houtside
  have hapart : entries.reverse.Pairwise fun a b => a.paths.Disjoint b.paths := by
    refine List.pairwise_reverse.mpr (h.apart.imp ?_)
    intro a b hdisjoint path hb ha
    exact hdisjoint ha hb
  obtain ⟨failures, d', hrun, honly, hall⟩ := exec_rollbackEntries env hapart
    (fun entry hentry => h.holds entry (List.mem_reverse.mp hentry)) hplaces
  refine ⟨failures.reduceOption, d', ?_, fun path hpath htargets => ?_, fun entry hentry => ?_⟩
  · rw [rollback, exec_bind, hrun]
    rfl
  · have hunmoved := h.others path hpath htargets
    have hsame : d'.tree.get path = d.tree.get path := by
      refine honly path fun ⟨entry, hentry, hmem⟩ => ?_
      have hentry := List.mem_reverse.mp hentry
      rcases List.mem_cons.mp hmem with heq | hbackup
      · exact htargets entry hentry heq.symm
      · obtain ⟨index, -, rfl⟩ := h.backups entry hentry path (Option.mem_toList.mp hbackup)
        rw [inside_backupPath] at hpath
        cases hpath
    rwa [Unmoved, ← hsame] at hunmoved
  · obtain ⟨failure, hmem, hsettled⟩ := hall entry (List.mem_reverse.mpr hentry)
    refine ⟨failure, fun hnone => ?_, hsettled⟩
    cases failure with
    | none => rfl
    | some failure =>
      have hfailed := List.reduceOption_mem_iff.mpr hmem
      rw [hnone] at hfailed
      cases hfailed

end Rollback

theorem mem_parents {folder path : Text} (h : folder ∈ parents path) :
    ∃ rest, path = folder ++ '/' :: rest := by
  obtain ⟨i, -, hi⟩ := List.mem_filterMap.mp h
  split at hi
  · rename_i hslash
    cases hi
    obtain ⟨hlt, hget⟩ := List.getElem?_eq_some_iff.mp hslash
    refine ⟨path.drop (i + 1), ?_⟩
    rw [← hget, List.getElem_cons_drop hlt, List.take_append_drop]
  · cases hi

theorem inside_of_parent {stage folder path : Text} (h : folder ∈ parents path)
    (hinside : inside stage folder = true) : inside stage path = true := by
  obtain ⟨rest, rfl⟩ := mem_parents h
  rw [inside, Bool.or_eq_true, beq_iff_eq, List.isPrefixOf_iff_prefix] at hinside
  rcases hinside with rfl | ⟨more, rfl⟩
  · exact inside_join _ _
  · rw [inside, Bool.or_eq_true, List.isPrefixOf_iff_prefix]
    exact .inr ⟨more ++ '/' :: rest, by simp⟩

def Made (folders : Text → Prop) (d d' : Disk Note) : Prop :=
  ∀ path, Unmoved folders d.tree d'.tree path

section Exchange

variable {env : UpdateSurroundings} {folders : Text → Prop} {stage target : Text} {base : Tree}
  {entries : List CommitEntry}

theorem Made.refl (d : Disk Note) : Made folders d d := fun _ => .refl _ _ _

theorem Made.trans (d d' d'' : Disk Note) (h : Made folders d d') (h' : Made folders d' d'') :
    Made folders d d'' := fun path => (h path).trans (h' path)

theorem Made.of_untouched {α : Type} {x : Install α} (hx : Moves Untouched x) :
    Moves (Made folders) x := hx.mono fun _ _ h path => .inl (by rw [h.1])

theorem made_checkedDestination {relative : Text}
    (hfolders : ∀ folder ∈ parents relative, folders folder) :
    Moves (Made folders) (checkedDestination env.toSurroundings relative true) := by
  refine (Moves.ofExcept Made.refl _).bind (fun _ => ?_) Made.trans
  refine .forM (fun folder hfolder => ?_) Made.refl Made.trans
  refine (Made.of_untouched (.observe (untouched_look _))).bind (fun there => ?_) Made.trans
  split
  · exact (Made.of_untouched (untouched_look _)).bind (fun _ => .demand Made.refl _ _) Made.trans
  · refine Moves.bind (fun d => ?_) (fun _ => Made.of_untouched (untouched_look _)) Made.trans
    rcases exec_change env.host (fun t _ => Tree.createDirectory t folder) d with
      ⟨error, h⟩ | ⟨t, ht, h⟩
    · exact h ▸ Made.refl _
    · obtain ⟨hnone, rfl⟩ := Tree.createDirectory_ok ht
      intro path
      rw [h]
      by_cases hpath : path = folder
      · subst hpath
        exact .inr ⟨hnone, by rw [KeyMap.get_insert, if_pos rfl], hfolders path hfolder⟩
      · exact .inl (get_insert_of_ne hpath)

theorem Journaled.made {d d' : Disk Note} (h : Journaled folders stage base d.tree entries)
    (hmade : Made folders d d') : Journaled folders stage base d'.tree entries where
  holds entry hentry := (h.holds entry hentry).unmoved hmade
  apart := h.apart
  outside := h.outside
  backups := h.backups
  others path hpath htargets := (h.others path hpath htargets).trans (hmade path)

theorem Journaled.start (folders : Text → Prop) {t : Tree}
    (h : ∀ path, inside stage path = false → t.get path = base.get path) :
    Journaled folders stage base t [] where
  holds := nofun
  apart := .nil
  outside := nofun
  backups := nofun
  others path hpath _ := .inl (h path hpath)

theorem Journaled.push {t t' : Tree} (h : Journaled folders stage base t entries)
    (entry : CommitEntry) (houtside : inside stage entry.target = false)
    (hnew : ∀ e ∈ entries, e.target ≠ entry.target)
    (hbackup : ∀ backup, entry.backup = some backup → backup = backupPath stage entries.length)
    (hframe : ∀ path, path ∉ entry.paths → t'.get path = t.get path)
    (hholds : entry.Holds folders base t') :
    Journaled folders stage base t' (entries ++ [entry]) := by
  have hapart : ∀ e ∈ entries, e.paths.Disjoint entry.paths := by
    intro e he path hpath hmem
    rcases List.mem_cons.mp hpath with rfl | hbackup'
    · rcases List.mem_cons.mp hmem with heq | hb
      · exact hnew e he heq
      · have hinside := h.outside e he
        rw [hbackup _ (Option.mem_toList.mp hb), inside_backupPath] at hinside
        cases hinside
    · obtain ⟨index, hindex, rfl⟩ := h.backups e he path (Option.mem_toList.mp hbackup')
      rcases List.mem_cons.mp hmem with heq | hb
      · rw [← heq, inside_backupPath] at houtside
        cases houtside
      · have heq := backupPath_injective stage (hbackup _ (Option.mem_toList.mp hb))
        omega
  refine ⟨?_, ?_, ?_, ?_, ?_⟩
  · intro e he
    rcases List.mem_append.mp he with he | he
    · exact (h.holds e he).congr fun path hpath => hframe path fun hmem => hapart e he hpath hmem
    · rw [List.mem_singleton.mp he]
      exact hholds
  · refine List.pairwise_append.mpr ⟨h.apart, List.pairwise_singleton _ _, fun e he e' he' => ?_⟩
    rw [List.mem_singleton.mp he']
    exact hapart e he
  · intro e he
    rcases List.mem_append.mp he with he | he
    · exact h.outside e he
    · rw [List.mem_singleton.mp he]
      exact houtside
  · intro e he backup hb
    rw [List.length_append, List.length_singleton]
    rcases List.mem_append.mp he with he | he
    · obtain ⟨index, hindex, heq⟩ := h.backups e he backup hb
      exact ⟨index, by omega, heq⟩
    · rw [List.mem_singleton.mp he] at hb
      exact ⟨entries.length, by omega, hbackup backup hb⟩
  · intro path hpath htargets
    have hunmoved := h.others path hpath fun e he => htargets e (List.mem_append_left _ he)
    have hsame : t'.get path = t.get path := by
      refine hframe path fun hmem => ?_
      rcases List.mem_cons.mp hmem with heq | hb
      · exact htargets entry (by simp) heq.symm
      · rw [hbackup _ (Option.mem_toList.mp hb), inside_backupPath] at hpath
        cases hpath
    rwa [Unmoved, ← hsame] at hunmoved

theorem Journaled.absent {t : Tree} (h : Journaled folders stage base t entries)
    (hrooted : Rooted base) (houtside : inside stage target = false)
    (hnew : ∀ e ∈ entries, e.target ≠ target) (hinspect : Tree.inspect t target = .ok none) :
    base.get target = none ∧
      (t.get target = none ∨ (t.get target = some .directory ∧ folders target)) := by
  rcases h.others target houtside hnew with hsame | ⟨hnone, hfolder, hmade⟩
  · cases hbase : base.get target with
    | none => exact ⟨rfl, .inl (hsame.trans hbase)⟩
    | some node =>
      have hparents : ∀ p ∈ parents target, Tree.isDirectory t p = true := by
        intro p hp
        have hdirectory := hrooted target (by rw [hbase]; rfl) p hp
        have hpath : inside stage p = false := by
          cases hinside : inside stage p with
          | false => rfl
          | true =>
            rw [inside_of_parent hp hinside] at houtside
            cases houtside
        have hthere : t.get p = some .directory := by
          refine (h.others p hpath fun e he heq => ?_).get hdirectory
          subst heq
          have hkept := (h.holds e he).kept
          rw [hdirectory] at hkept
          split at hkept
          · cases hkept
          · obtain ⟨content, stamp, hfile, -⟩ := hkept
            cases hfile
        rw [Tree.isDirectory, hthere]
        rfl
      have hfind : (parents target).find? (fun p => !Tree.isDirectory t p) = none := by
        rw [List.find?_eq_none]
        intro p hp
        simp [hparents p hp]
      rw [Tree.inspect, hfind] at hinspect
      rw [hsame, hbase] at hinspect
      cases hinspect
  · exact ⟨hnone, .inr ⟨hfolder, hmade⟩⟩

def BackedUp (folders : Text → Prop) (base : Tree) (target backup : Text) (d : Disk Note)
    (out : Except Text (Option Text) × Disk Note) : Prop :=
  (∃ error, out.1 = .error error ∧ out.2.tree = d.tree) ∨
    ∃ saved : Option Text, out.1 = .ok saved ∧ (∀ b, saved = some b → b = backup) ∧
      (∀ path, path ≠ target → saved ≠ some path → out.2.tree.get path = d.tree.get path) ∧
      CommitEntry.Holds folders base out.2.tree ⟨target, saved, false, none⟩

theorem backUp_backedUp (env : UpdateSurroundings) {d : Disk Note} {backup : Text} (expected : Bool)
    (h : Journaled folders stage base d.tree entries) (hrooted : Rooted base)
    (houtside : inside stage target = false) (hnew : ∀ e ∈ entries, e.target ≠ target)
    (hbackup : backup ≠ target) :
    BackedUp folders base target backup d (exec (backUp env target expected backup) d) := by
  refine bind_cases (fun error d₁ hrun => .inl ⟨error, rfl, ?_⟩) fun node d₁ hrun => ?_
  · exact ((untouched_look _).run hrun).1
  obtain ⟨hinspect, rfl⟩ := look_ok hrun
  refine bind_cases (fun error d₂ hrun => .inl ⟨error, rfl, ?_⟩) fun _ d₂ hrun => ?_
  · exact ((Moves.demand Untouched.refl _ _).run hrun).1
  obtain ⟨hfile, rfl⟩ := demand_ok.mp hrun
  refine bind_cases (fun error d₃ hrun => .inl ⟨error, rfl, ?_⟩) fun _ d₃ hrun => ?_
  · exact ((Moves.demand Untouched.refl _ _).run hrun).1
  obtain ⟨-, rfl⟩ := demand_ok.mp hrun
  cases node with
  | none =>
    obtain ⟨hbase, hthere⟩ := h.absent hrooted houtside hnew hinspect
    exact .inr ⟨none, rfl, nofun, fun _ _ _ => rfl, ⟨hbase, hthere⟩⟩
  | some node =>
    cases node with
    | directory => cases hfile
    | link => cases hfile
    | file content stamp =>
      have htarget : d.tree.get target = some (.file content stamp) :=
        Tree.inspect_eq_some hinspect
      refine bind_cases (fun error d₄ hrun => .inl ⟨error, rfl, ?_⟩) fun _ d₄ hrun => ?_
      · rcases exec_change env.host (fun t _ => Tree.rename t target backup) d.tick with
          ⟨error', hfailed⟩ | ⟨t, -, hdone⟩
        · rw [exec_mapError, hfailed] at hrun
          cases hrun
          rfl
        · rw [exec_mapError, hdone] at hrun
          cases hrun
      obtain ⟨t, hrename, rfl⟩ := change_ok (mapError_ok.mp hrun)
      obtain ⟨content', stamp', hsource, -, rfl⟩ := Tree.rename_ok hrename
      rw [show d.tick.tree.get target = some (.file content stamp) from htarget] at hsource
      cases hsource
      refine .inr ⟨some backup, rfl, fun b hb => (Option.some.inj hb).symm, ?_, ?_, .inl ?_⟩
      · intro path hpath hother
        exact (get_insert_of_ne fun heq => hother (by rw [heq])).trans (get_erase_of_ne hpath)
      · refine ⟨content, stamp, (h.others target houtside hnew).file htarget, ?_⟩
        exact (KeyMap.get_insert ..).trans (if_pos rfl)
      · exact (get_insert_of_ne hbackup.symm).trans ((KeyMap.get_erase ..).trans (if_pos rfl))

theorem exec_commitFile (env : UpdateSurroundings) {d : Disk Note} (source : Option Text)
    (expected : Bool)
    (h : Journaled folders stage base d.tree entries) (hrooted : Rooted base)
    (houtside : inside stage target = false) (hnew : ∀ e ∈ entries, e.target ≠ target) :
    ∃ result entries' d',
      exec (commitFile env target source expected (backupFolder stage) entries) d =
        (.ok (result, entries'), d') ∧
      Journaled folders stage base d'.tree entries' ∧
      ∀ e ∈ entries', e ∈ entries ∨ e.target = target := by
  have hbackup : backupPath stage entries.length ≠ target := by
    rintro rfl
    rw [inside_backupPath] at houtside
    cases houtside
  have hsaved := backUp_backedUp env expected h hrooted houtside hnew hbackup
  unfold commitFile
  rw [exec_bind, exec_observe]
  change BackedUp folders base target _ d
    (exec (backUp env target expected
      (join (backupFolder stage) (Nat.toDigits 10 entries.length))) d) at hsaved
  cases hrun : exec (backUp env target expected
      (join (backupFolder stage) (Nat.toDigits 10 entries.length))) d with
  | mk result d₁ =>
    rw [hrun] at hsaved
    have htargets : ∀ entry : CommitEntry, entry.target = target → ∀ e ∈ entries ++ [entry],
        e ∈ entries ∨ e.target = target := by
      intro entry hentry e he
      rcases List.mem_append.mp he with he | he
      · exact .inl he
      · rw [List.mem_singleton.mp he]
        exact .inr hentry
    rcases hsaved with ⟨error, herror, htree⟩ | ⟨saved, hok, hsame, hframe, hholds⟩
    · cases herror
      exact ⟨_, entries, d₁, rfl, by rw [htree]; exact h, fun e he => .inl he⟩
    cases hok
    dsimp only
    have hpaths : ∀ (t' : Tree) (activated : Bool) (found : Option Nat),
        (∀ path, path ≠ target → t'.get path = d₁.tree.get path) →
        CommitEntry.Holds folders base t' ⟨target, saved, activated, found⟩ →
        Journaled folders stage base t' (entries ++ [⟨target, saved, activated, found⟩]) := by
      intro t' activated found hsecond hdone
      refine h.push _ houtside hnew hsame (fun path hpath => ?_) hdone
      have htarget : path ≠ target := fun heq => hpath (heq ▸ List.mem_cons_self ..)
      rw [hsecond path htarget]
      exact hframe path htarget fun heq => hpath (by simp [CommitEntry.paths, heq])
    cases source with
    | none => exact ⟨_, _, d₁, rfl, hpaths _ _ _ (fun _ _ => rfl) hholds, htargets _ rfl⟩
    | some source =>
      dsimp only
      rw [exec_bind, exec_observe]
      rcases exec_change env.host (fun t _ => Tree.hardLink t source target) d₁ with
        ⟨error, hfailed⟩ | ⟨t, hlink, hdone⟩
      · rw [hfailed]
        exact ⟨_, _, d₁.tick, rfl, hpaths _ _ _ (fun _ _ => rfl) hholds, htargets _ rfl⟩
      · rw [hdone]
        dsimp only
        obtain ⟨content, stamp, -, -, rfl⟩ := Tree.hardLink_ok hlink
        have hplaced : ∀ found, CommitEntry.Holds folders base
            (d₁.tree.insert target (.file content stamp)) ⟨target, saved, true, found⟩ := by
          intro found
          refine ⟨?_, content, stamp, (KeyMap.get_insert ..).trans (if_pos rfl)⟩
          have hkept := hholds.kept
          cases saved with
          | none => exact hkept
          | some b =>
            obtain ⟨c, s, hbase, hfile⟩ := hkept
            have hb : b ≠ target := hsame b rfl ▸ hbackup
            exact ⟨c, s, hbase, (get_insert_of_ne hb).trans hfile⟩
        rw [exec_bind, exec_observe]
        cases hstamp : exec (Updates.stamp env target)
            { d₁.tick with tree := d₁.tree.insert target (.file content stamp) } with
        | mk found d₂ =>
          have htree : d₂.tree = d₁.tree.insert target (.file content stamp) :=
            ((untouched_look _).run hstamp).1
          have hjournal : ∀ found, Journaled folders stage base d₂.tree
              (entries ++ [⟨target, saved, true, found⟩]) := by
            intro found
            rw [htree]
            exact hpaths _ _ _ (fun path hpath => get_insert_of_ne hpath) (hplaced found)
          cases found with
          | error error => exact ⟨_, _, d₂, rfl, hjournal _, htargets _ rfl⟩
          | ok found => exact ⟨_, _, d₂, rfl, hjournal _, htargets _ rfl⟩

theorem exec_commitFiles (env : UpdateSurroundings) {exchanges : List Exchange} {d : Disk Note}
    (h : Journaled folders stage base d.tree entries) (hrooted : Rooted base)
    (hexchanges : ∀ x ∈ exchanges, inside stage x.target = false ∧ Moves (Made folders) x.checked)
    (hdistinct : (exchanges.map Exchange.target).Nodup)
    (hnew : ∀ x ∈ exchanges, ∀ e ∈ entries, e.target ≠ x.target) :
    ∃ result entries' d', exec (commitFiles env stage exchanges entries) d =
        (.ok (result, entries'), d') ∧
      Journaled folders stage base d'.tree entries' ∧
      ∀ e ∈ entries', e ∈ entries ∨ e.target ∈ exchanges.map Exchange.target := by
  induction exchanges generalizing entries d with
  | nil => exact ⟨_, entries, d, rfl, h, fun e he => .inl he⟩
  | cons x xs ih =>
    obtain ⟨⟨houtside, hchecked⟩, hrest⟩ := List.forall_mem_cons.mp hexchanges
    obtain ⟨hfirst, hnews⟩ := List.forall_mem_cons.mp hnew
    obtain ⟨htarget, htargets⟩ := List.nodup_cons.mp hdistinct
    rw [commitFiles, exec_bind, exec_observe]
    cases hrun : exec x.checked d with
    | mk result d₁ =>
      have h₁ := h.made (hchecked.run hrun)
      cases result with
      | error error => exact ⟨_, entries, d₁, rfl, h₁, fun e he => .inl he⟩
      | ok u =>
        dsimp only
        obtain ⟨result, entries₂, d₂, hcommit, h₂, hmem⟩ := exec_commitFile env
          x.source x.expectedExists h₁ hrooted houtside hfirst
        rw [exec_bind, hcommit]
        cases result with
        | error error =>
          refine ⟨_, entries₂, d₂, rfl, h₂, fun e he => (hmem e he).imp_right fun heq => ?_⟩
          rw [heq]
          exact List.mem_cons_self ..
        | ok u =>
          dsimp only
          obtain ⟨result, entries₃, d₃, hmore, h₃, hmem₃⟩ := ih h₂ hrest htargets (by
            intro y hy e he heq
            rcases hmem e he with he | hx
            · exact hnews y hy e he heq
            · exact htarget (hx ▸ heq ▸ List.mem_map_of_mem hy))
          refine ⟨result, entries₃, d₃, hmore, h₃, fun e he => ?_⟩
          rcases hmem₃ e he with he | he
          · refine (hmem e he).imp_right fun heq => ?_
            rw [heq]
            exact List.mem_cons_self ..
          · exact .inr (List.mem_cons_of_mem _ he)

end Exchange

def IsRecordName (name : Text) : Prop :=
  name = snapshotManifest ∨
    ∃ model : Text, '/' ∉ model ∧ name = ('.' :: model) ++ ".aiolm-update.json".toList

/-- What is tracked of an installed model passed its checks. -/
structure Owned (installed : Installed) : Prop where
  files : validateFiles installed.files = .ok ()
  record : IsRecordName installed.metadata

theorem ownName_stageFolder (unique : Text) : ownName (stageFolder unique) = true := by
  have hsplit : ".aiolm-update-".toList = ".aiolm-".toList ++ "update-".toList := by decide
  have htake : (stageFolder unique).take 7 = ".aiolm-".toList := by
    change List.take 7 (".aiolm-update-".toList ++ unique) = _
    rw [hsplit, List.append_assoc]
    exact List.take_left' (by decide)
  have hsame : Text.eqIgnoreAsciiCase ".aiolm-".toList ".aiolm-".toList = true :=
    beq_self_eq_true _
  rw [ownName, htake, hsame, Bool.or_true, Bool.true_or]

theorem slash_not_mem_stageFolder {unique : Text} (h : unique.all isHexDigit = true) :
    '/' ∉ stageFolder unique := by
  intro hmem
  rcases List.mem_append.mp hmem with hmem | hmem
  · revert hmem
    decide
  · have hdigit := List.all_eq_true.mp h _ hmem
    revert hdigit
    decide

theorem IsRecordName.slash_not_mem {name : Text} (h : IsRecordName name) : '/' ∉ name := by
  rcases h with rfl | ⟨model, hmodel, rfl⟩
  · decide
  · rw [List.mem_append, List.mem_cons, not_or, not_or]
    exact ⟨⟨by decide, hmodel⟩, by decide⟩

theorem IsRecordName.ownName {name : Text} (h : IsRecordName name) : ownName name = true := by
  rcases h with rfl | ⟨model, -, rfl⟩
  · decide
  · have hdrop : (('.' :: model) ++ ".aiolm-update.json".toList).drop
        ((('.' :: model) ++ ".aiolm-update.json".toList).length - 18) =
          ".aiolm-update.json".toList := by
      rw [List.length_append, show ".aiolm-update.json".toList.length = 18 from rfl,
        Nat.add_sub_cancel, List.drop_left]
    have hsame : Text.eqIgnoreAsciiCase ".aiolm-update.json".toList ".aiolm-update.json".toList =
        true := beq_self_eq_true _
    rw [Discover.ownName, hdrop, hsame, Bool.or_true]

theorem IsRecordName.ne_stageFolder {name unique : Text} (h : IsRecordName name)
    (hunique : unique.all isHexDigit = true) : name ≠ stageFolder unique := by
  have hdot : '.' ∉ (stageFolder unique).tail := by
    intro hmem
    rcases List.mem_append.mp (show '.' ∈ "aiolm-update-".toList ++ unique from hmem) with
      hmem | hmem
    · revert hmem
      decide
    · have hdigit := List.all_eq_true.mp hunique _ hmem
      revert hdigit
      decide
  rintro rfl
  rcases h with heq | ⟨model, -, heq⟩
  · rw [heq] at hdot
    exact hdot (by decide)
  · rw [heq] at hdot
    have hmem : '.' ∈ model ++ ".aiolm-update.json".toList :=
      List.mem_append_right model (show '.' ∈ ".aiolm-update.json".toList by decide)
    exact hdot hmem

theorem IsRecordName.outside {name unique : Text} (h : IsRecordName name)
    (hunique : unique.all isHexDigit = true) : inside (stageFolder unique) name = false := by
  rw [inside, Bool.or_eq_false_iff, beq_eq_false_iff_ne]
  refine ⟨h.ne_stageFolder hunique, ?_⟩
  rw [Bool.eq_false_iff, ne_eq, List.isPrefixOf_iff_prefix]
  rintro ⟨rest, heq⟩
  exact h.slash_not_mem (heq ▸ by simp)

theorem outside_of_tracked {path unique : Text} (hunique : unique.all isHexDigit = true)
    (h : (parts path).any ownName = false) : inside (stageFolder unique) path = false := by
  have hslash := slash_not_mem_stageFolder hunique
  have hown := ownName_stageFolder unique
  rw [inside, Bool.or_eq_false_iff, beq_eq_false_iff_ne]
  constructor
  · rintro rfl
    rw [parts_of_not_mem hslash] at h
    simp [hown] at h
  · rw [Bool.eq_false_iff, ne_eq, List.isPrefixOf_iff_prefix]
    rintro ⟨rest, rfl⟩
    rw [List.append_assoc, List.singleton_append, parts_append_separator,
      parts_of_not_mem hslash] at h
    simp [hown] at h

theorem checkTracked_ok {locals remotes result : List Text} {files : List TrackedFile}
    (h : checkTracked locals remotes files = .ok result) :
    (files.map TrackedFile.localPath).Nodup ∧
      ∀ file ∈ files, (parts file.localPath).any ownName = false ∧
        Text.toAsciiLower file.localPath ∉ locals := by
  induction files generalizing locals remotes with
  | nil => exact ⟨.nil, nofun⟩
  | cons file files ih =>
    simp only [checkTracked, bind_eq_ok, require_eq_ok] at h
    obtain ⟨_, -, _, -, _, ⟨⟨hown, -⟩, hlocal, -⟩, hrest⟩ := h
    obtain ⟨hnodup, hall⟩ := ih hrest
    rw [List.any_append, Bool.or_eq_false_iff] at hown
    refine ⟨List.nodup_cons.mpr ⟨fun hmem => ?_, hnodup⟩,
      List.forall_mem_cons.mpr ⟨⟨hown.1, hlocal⟩, ?_⟩⟩
    · obtain ⟨other, hother, heq⟩ := List.mem_map.mp hmem
      exact (hall other hother).2 (heq ▸ List.mem_cons_self ..)
    · intro other hother
      exact ⟨(hall other hother).1, fun hmem => (hall other hother).2 (List.mem_cons_of_mem _ hmem)⟩

theorem validateFiles_ok {files : List TrackedFile} (h : validateFiles files = .ok ()) :
    (files.map TrackedFile.localPath).Nodup ∧
      ∀ file ∈ files, (parts file.localPath).any ownName = false := by
  simp only [validateFiles, bind_eq_ok] at h
  obtain ⟨_, -, locals, hchecked, -⟩ := h
  obtain ⟨hnodup, hall⟩ := checkTracked_ok hchecked
  exact ⟨hnodup, fun file hfile => (hall file hfile).1⟩

section Plans

variable {tools : UpdateTools} {env : UpdateSurroundings}

theorem checkInstalled_local {mode : PlanMode} {installed : Installed} {files : List TrackedFile}
    {file : TrackedFile} {found : TrackedFile × Bool} {d d' : Disk Note}
    (h : exec (checkInstalled tools env mode installed files file) d = (.ok found, d')) :
    found.1.localPath = file.localPath := by
  rw [checkInstalled, bind_ok] at h
  obtain ⟨_, d₁, -, h⟩ := h
  split at h
  · rw [bind_ok] at h
    obtain ⟨node, d₂, -, h⟩ := h
    rw [bind_ok] at h
    obtain ⟨_, d₃, -, h⟩ := h
    cases h
    rfl
  · split at h
    · rw [bind_ok] at h
      obtain ⟨digest, d₂, -, h⟩ := h
      cases h
      rfl
    · rw [bind_ok] at h
      obtain ⟨result, d₂, -, h⟩ := h
      split at h
      · cases h
        rfl
      · split at h
        · cases h
        · rw [bind_ok] at h
          obtain ⟨result, d₃, -, h⟩ := h
          split at h
          · cases h
            rfl
          · cases h

theorem checkAll_locals {mode : PlanMode} {installed : Installed} {files old : List TrackedFile}
    {checked : List (TrackedFile × Bool)} {d d' : Disk Note}
    (h : exec (old.mapM (checkInstalled tools env mode installed files)) d = (.ok checked, d')) :
    (checked.map (·.1)).map TrackedFile.localPath = old.map TrackedFile.localPath := by
  induction old generalizing checked d with
  | nil =>
    cases h
    rfl
  | cons file old ih =>
    rw [List.mapM_cons, bind_ok] at h
    obtain ⟨found, d₁, hfound, h⟩ := h
    rw [bind_ok] at h
    obtain ⟨rest, d₂, hrest, h⟩ := h
    cases h
    simp only [List.map_cons, checkInstalled_local hfound, ih hrest]

theorem planTransfers_ok {installed : Installed} {totals totals' : Totals}
    {entries : List (TrackedFile × Nat)} {d d' : Disk Note}
    (h : exec (planTransfers tools env installed totals entries) d = (.ok totals', d')) :
    ∃ fetched : List (TrackedFile × Nat), fetched.Sublist entries ∧
      totals'.changed = totals.changed ++ fetched.map Prod.snd := by
  induction entries generalizing totals d with
  | nil =>
    cases h
    exact ⟨[], .slnil, (List.append_nil _).symm⟩
  | cons entry rest ih =>
    rw [planTransfers, bind_ok] at h
    obtain ⟨there, d₁, -, h⟩ := h
    split at h
    · rw [bind_ok] at h
      obtain ⟨_, d₂, -, h⟩ := h
      obtain ⟨fetched, hfetched, hchanged⟩ := ih h
      exact ⟨fetched, hfetched.cons _, hchanged⟩
    · rw [bind_ok] at h
      obtain ⟨_, d₂, -, h⟩ := h
      rw [bind_ok] at h
      obtain ⟨_, d₃, -, h⟩ := h
      obtain ⟨fetched, hfetched, hchanged⟩ := ih h
      refine ⟨entry :: fetched, hfetched.cons_cons _, ?_⟩
      rw [hchanged]
      simp

theorem filterMap_getElem_zipIdx {α : Type} {l : List α} {picked : List (α × Nat)}
    (h : ∀ e ∈ picked, e ∈ l.zipIdx) :
    (picked.map Prod.snd).filterMap (fun i => l[i]?.map (·, i)) = picked := by
  induction picked with
  | nil => rfl
  | cons e picked ih =>
    obtain ⟨he, hpicked⟩ := List.forall_mem_cons.mp h
    have hget : l[e.2]? = some e.1 := List.mem_zipIdx_iff_getElem?.mp he
    rw [List.map_cons, List.filterMap_cons, hget, ih hpicked]
    rfl

/-- What the update fetches and takes away, by the plan made for it. -/
structure Planned (installed : Installed) (files : List TrackedFile) (plan : Plan) : Prop where
  same : plan.files = files
  record : plan.installed.metadata = installed.metadata
  locals : plan.installed.files.map TrackedFile.localPath =
    installed.files.map TrackedFile.localPath
  fetched : plan.fetched.Sublist files.zipIdx
  dropped : plan.dropped.Sublist plan.installed.files
  removed : ∀ old ∈ plan.dropped, ∀ file ∈ files, file.localPath ≠ old.localPath

theorem Plan.dropped_eq (plan : Plan) (p : TrackedFile → Bool)
    (h : plan.removed = (plan.installed.files.zipIdx.filter fun old => p old.1).map (·.2)) :
    plan.dropped = plan.installed.files.filter p := by
  have hget : ∀ e ∈ plan.installed.files.zipIdx.filter fun old => p old.1,
      plan.installed.files[e.2]? = some e.1 := fun e he =>
    List.mem_zipIdx_iff_getElem?.mp (List.mem_filter.mp he).1
  have hmap := List.filter_map (p := p) (f := Prod.fst) (l := plan.installed.files.zipIdx)
  rw [List.zipIdx_map_fst] at hmap
  rw [Plan.dropped, h, List.filterMap_map, List.filterMap_congr (g := fun e => some e.1) hget,
    List.filterMap_eq_map']
  exact hmap.symm

theorem planUpdate_planned {mode : PlanMode} {installed : Installed} {revision : Text}
    {files : List TrackedFile} {plan : Plan} {d d' : Disk Note}
    (h : exec (planUpdate tools env mode installed revision files) d = (.ok plan, d')) :
    Planned installed files plan := by
  rw [planUpdate, bind_ok] at h
  obtain ⟨checked, d₁, hchecked, h⟩ := h
  rw [bind_ok] at h
  obtain ⟨totals, d₂, htotals, h⟩ := h
  rw [exec_pure] at h
  have hplan := Except.ok.inj (Prod.mk.inj h).1
  obtain ⟨fetched, hsub, hchanged⟩ := planTransfers_ok htotals
  have hsame : plan.files = files := by rw [← hplan]
  have hfetched : plan.fetched = fetched := by
    have heq : plan.changed = fetched.map Prod.snd := by rw [← hplan]; exact hchanged
    rw [Plan.fetched, heq, hsame]
    exact filterMap_getElem_zipIdx fun e he => hsub.subset he
  have hdropped := plan.dropped_eq (fun old => !files.any (·.localPath = old.localPath))
    (by rw [← hplan])
  refine ⟨hsame, by rw [← hplan], ?_, hfetched ▸ hsub, ?_, ?_⟩
  · rw [← hplan]
    exact checkAll_locals hchecked
  · rw [hdropped]
    exact List.filter_sublist
  · intro old hold file hfile heq
    rw [hdropped] at hold
    have hnone := (List.mem_filter.mp hold).2
    rw [Bool.not_eq_true', List.any_eq_false] at hnone
    exact hnone file hfile (by simpa using heq)

end Plans

def foldersOf (files : List TrackedFile) (folder : Text) : Prop :=
  ∃ file ∈ files, folder ∈ parents file.localPath

def Concerned (installed : Installed) (files : List TrackedFile) (path : Text) : Prop :=
  path = installed.metadata ∨ ∃ file ∈ installed.files ++ files, file.localPath = path

/-- Every old file is in its place or, as it was, in the folder of backups. -/
def Retained (stage : Text) (base t : Tree) : Prop :=
  ∀ path node, inside stage path = false → base.get path = some node →
    t.get path = some node ∨ ∃ index, t.get (backupPath stage index) = some node

/-- What an update leaves outside its staging folder, by how it ended. -/
structure Harmless (installed : Installed) (files : List TrackedFile) (stage : Text)
    (base t : Tree) (failure : Option Text) : Prop where
  others : ∀ path, inside stage path = false → ¬ Concerned installed files path →
    Unmoved (foldersOf files) base t path
  failed : ∀ error, failure = some error →
    (∀ path, inside stage path = false → Unmoved (foldersOf files) base t path) ∨
      (Retained stage base t ∧ ∃ cause failures, error = cause ++ "; rollback failed: ".toList ++
        failures ++ "; original backups retained at ".toList ++ stage)

section Whole

variable {tools : UpdateTools} {env : UpdateSurroundings} {installed : Installed}
  {files : List TrackedFile} {stage : Text} {base : Tree}

theorem Harmless.same {t : Tree} {failure : Option Text}
    (h : ∀ path, inside stage path = false → t.get path = base.get path) :
    Harmless installed files stage base t failure :=
  ⟨fun path hpath _ => .inl (h path hpath), fun _ _ => .inl fun path hpath => .inl (h path hpath)⟩

theorem Harmless.staged {d d' : Disk Note} {failure : Option Text}
    (h : Harmless installed files stage base d.tree failure) (hstaged : Staged stage d d')
    (hkept : ∀ error, failure = some error →
      (∀ path, inside stage path = false → Unmoved (foldersOf files) base d.tree path) ∨
        d'.tree = d.tree) :
    Harmless installed files stage base d'.tree failure := by
  have hsame : ∀ path, inside stage path = false → d'.tree.get path = d.tree.get path :=
    fun path hpath => hstaged path (by simp [hpath])
  refine ⟨fun path hpath hconcerned => ?_, fun error herror => ?_⟩
  · rw [Unmoved, hsame path hpath]
    exact h.others path hpath hconcerned
  · rcases hkept error herror with hall | htree
    · refine .inl fun path hpath => ?_
      rw [Unmoved, hsame path hpath]
      exact hall path hpath
    · rw [htree]
      exact h.failed error herror

theorem Planned.targets {plan : Plan} {unique : Text} (h : Planned installed files plan)
    (env : UpdateSurroundings)
    (howned : Owned installed) (hfiles : validateFiles files = .ok ())
    (hunique : unique.all isHexDigit = true) :
    ((plan.exchanges env (stageFolder unique)).map Exchange.target).Nodup ∧
      ∀ x ∈ plan.exchanges env (stageFolder unique),
        (inside (stageFolder unique) x.target = false ∧ Moves (Made (foldersOf files)) x.checked) ∧
          Concerned installed files x.target := by
  obtain ⟨hold, holdOwn⟩ := validateFiles_ok howned.files
  obtain ⟨hnew, hnewOwn⟩ := validateFiles_ok hfiles
  have hlocal : ∀ old ∈ plan.dropped, ∃ file ∈ installed.files, file.localPath = old.localPath := by
    intro old hmem
    have hpath := List.mem_map_of_mem (f := TrackedFile.localPath) (h.dropped.subset hmem)
    rw [h.locals] at hpath
    exact List.mem_map.mp hpath
  have hfetched : ∀ e ∈ plan.fetched, e.1 ∈ files := fun e he =>
    List.mem_of_getElem? (List.mem_zipIdx_iff_getElem?.mp (h.fetched.subset he))
  have hrecord : ∀ path : Text, (parts path).any ownName = false →
      path ≠ plan.installed.metadata := by
    rintro path hpath rfl
    rw [h.record, parts_of_not_mem howned.record.slash_not_mem] at hpath
    simp [howned.record.ownName] at hpath
  constructor
  · have hmap : (plan.exchanges env (stageFolder unique)).map Exchange.target =
        plan.dropped.map TrackedFile.localPath ++ plan.fetched.map (fun e => e.1.localPath) ++
          [plan.installed.metadata] := by
      simp [Plan.exchanges, Function.comp_def]
    rw [hmap, List.nodup_append, List.nodup_append]
    refine ⟨⟨?_, ?_, ?_⟩, List.nodup_singleton _, ?_⟩
    · have hlocals := h.dropped.map TrackedFile.localPath
      rw [h.locals] at hlocals
      exact hlocals.nodup hold
    · have hlocals := h.fetched.map fun e : TrackedFile × Nat => e.1.localPath
      have hall : files.zipIdx.map (fun e => e.1.localPath) = files.map TrackedFile.localPath := by
        rw [← Function.comp_def TrackedFile.localPath Prod.fst, ← List.map_map, List.zipIdx_map_fst]
      rw [hall] at hlocals
      exact hlocals.nodup hnew
    · rintro path hpath other hother rfl
      obtain ⟨old, hmem, rfl⟩ := List.mem_map.mp hpath
      obtain ⟨e, he, heq⟩ := List.mem_map.mp hother
      exact h.removed old hmem e.1 (hfetched e he) heq
    · rintro path hpath other hother rfl
      rw [List.mem_singleton] at hother
      rcases List.mem_append.mp hpath with hpath | hpath
      · obtain ⟨old, hmem, rfl⟩ := List.mem_map.mp hpath
        obtain ⟨file, hfile, heq⟩ := hlocal old hmem
        exact hrecord _ (heq ▸ holdOwn file hfile) hother
      · obtain ⟨e, he, rfl⟩ := List.mem_map.mp hpath
        exact hrecord _ (hnewOwn e.1 (hfetched e he)) hother
  · intro x hx
    rw [Plan.exchanges, List.mem_append, List.mem_append] at hx
    rcases hx with (hx | hx) | hx
    · obtain ⟨old, hmem, rfl⟩ := List.mem_map.mp hx
      obtain ⟨file, hfile, heq⟩ := hlocal old hmem
      refine ⟨⟨?_, Made.of_untouched (untouched_safeDestination _)⟩, .inr ⟨file, ?_, heq⟩⟩
      · exact outside_of_tracked hunique (heq ▸ holdOwn file hfile)
      · exact List.mem_append_left _ hfile
    · obtain ⟨e, he, rfl⟩ := List.mem_map.mp hx
      refine ⟨⟨outside_of_tracked hunique (hnewOwn e.1 (hfetched e he)), ?_⟩, .inr ⟨e.1, ?_, rfl⟩⟩
      · exact made_checkedDestination fun folder hfolder => ⟨e.1, hfetched e he, hfolder⟩
      · exact List.mem_append_right _ (hfetched e he)
    · rw [List.mem_singleton] at hx
      subst hx
      refine ⟨⟨?_, .pure Made.refl _⟩, .inl h.record⟩
      rw [h.record]
      exact howned.record.outside hunique

def failure {α : Type} : Except Text α → Option Text
  | .ok _ => none
  | .error error => some error

theorem runStaged_harmless (tools : UpdateTools) (env : UpdateSurroundings) {plan : Plan}
    {unique : Text} (hplan : Planned installed files plan)
    (howned : Owned installed) (hfiles : validateFiles files = .ok ())
    (hunique : unique.all isHexDigit = true) (hrooted : Rooted base) {d : Disk Note}
    (hbase : ∀ path, inside (stageFolder unique) path = false →
      d.tree.get path = base.get path) :
    ∃ result preserve d', exec (runStaged tools env plan (stageFolder unique)) d =
        (.ok (result, preserve), d') ∧
      Harmless installed files (stageFolder unique) base d'.tree (failure result) ∧
      (preserve = false → ∀ error, failure result = some error →
        ∀ path, inside (stageFolder unique) path = false →
          Unmoved (foldersOf files) base d'.tree path) := by
  rw [runStaged, exec_bind, exec_observe]
  cases hprepare : exec (prepareUpdate tools env plan (stageFolder unique)) d with
  | mk result d₁ =>
    have hprepared : ∀ path, inside (stageFolder unique) path = false →
        d₁.tree.get path = base.get path := fun path hpath =>
      ((staged_prepareUpdate plan).run hprepare path (by simp [hpath])).trans (hbase path hpath)
    cases result with
    | error error =>
      exact ⟨.error error, false, d₁, rfl, .same hprepared, fun _ _ _ path hpath =>
        .inl (hprepared path hpath)⟩
    | ok completed =>
      dsimp only
      obtain ⟨hdistinct, htargets⟩ := hplan.targets env howned hfiles hunique
      obtain ⟨result, entries, d₂, hcommit, hjournal, hmem⟩ := exec_commitFiles env
        (Journaled.start (foldersOf files) hprepared) hrooted
        (fun x hx => (htargets x hx).1) hdistinct (fun _ _ => nofun)
      have hconcerned : ∀ e ∈ entries, Concerned installed files e.target := by
        intro e he
        obtain ⟨x, hx, heq⟩ := List.mem_map.mp ((hmem e he).resolve_left nofun)
        exact heq ▸ (htargets x hx).2
      rw [exec_bind, hcommit]
      cases result with
      | ok u =>
        refine ⟨.ok completed, false, d₂, rfl, ⟨fun path hpath hno => ?_, nofun⟩, nofun⟩
        exact hjournal.others path hpath fun e he heq => hno (heq ▸ hconcerned e he)
      | error error =>
        dsimp only
        obtain ⟨failures, d₃, hrollback, hothers, hall⟩ := exec_rollback env hjournal
        have hothers' : ∀ path, inside (stageFolder unique) path = false →
            ¬ Concerned installed files path → Unmoved (foldersOf files) base d₃.tree path :=
          fun path hpath hno => hothers path hpath fun e he heq => hno (heq ▸ hconcerned e he)
        rw [exec_bind, hrollback]
        dsimp only
        split
        · rename_i hnone
          have hrestored : ∀ path, inside (stageFolder unique) path = false →
              Unmoved (foldersOf files) base d₃.tree path := by
            intro path hpath
            by_cases htarget : ∃ e ∈ entries, e.target = path
            · obtain ⟨e, he, rfl⟩ := htarget
              obtain ⟨failed, hfailed, hsettled⟩ := hall e he
              exact hsettled.restored (hfailed hnone)
            · exact hothers path hpath fun e he heq => htarget ⟨e, he, heq⟩
          exact ⟨.error error, false, d₃, rfl, ⟨hothers', fun _ _ => .inl hrestored⟩,
            fun _ _ _ => hrestored⟩
        · refine ⟨_, true, d₃, rfl, ⟨hothers', fun message hmessage => .inr ⟨?_, ?_⟩⟩, nofun⟩
          · intro path node hpath hnode
            by_cases htarget : ∃ e ∈ entries, e.target = path
            · obtain ⟨e, he, rfl⟩ := htarget
              obtain ⟨failed, -, hsettled⟩ := hall e he
              refine (hsettled.retained node hnode).imp_right fun ⟨backup, hbackup, hfile⟩ => ?_
              obtain ⟨index, -, rfl⟩ := hjournal.backups e he backup hbackup
              exact ⟨index, hfile⟩
            · exact .inl ((hothers path hpath fun e he heq => htarget ⟨e, he, heq⟩).get hnode)
          · exact ⟨error, _, (Option.some.inj hmessage).symm⟩

/-- What a run ends in leaves outside some staging folder what it should. -/
def Ends {α : Type} (env : UpdateSurroundings) (installed : Installed) (files : List TrackedFile)
    (base : Tree) (out : Except Text α × Disk Note) : Prop :=
  ∃ n, Harmless installed files (stageFolder (env.unique n)) base out.2.tree (failure out.1)

theorem Ends.same {α : Type} {result : Except Text α} {d : Disk Note} (h : d.tree = base) :
    Ends env installed files base (result, d) := ⟨0, .same fun _ _ => by rw [h]⟩

theorem Ends.bind {α β : Type} {x : Install α} {f : α → Install β} {d : Disk Note}
    (hx : Moves Untouched x) (h : d.tree = base)
    (hf : ∀ a d', d'.tree = base → Ends env installed files base (exec (f a) d')) :
    Ends env installed files base (exec (x >>= f) d) :=
  bind_cases (fun _ _ hrun => .same ((hx.run hrun).1.trans h))
    fun a d' hrun => hf a d' ((hx.run hrun).1.trans h)

theorem applyPlan_ends {plan : Plan} (hplan : Planned installed files plan)
    (howned : Owned installed) (hfiles : validateFiles files = .ok ())
    (hunique : ∀ n, (env.unique n).all isHexDigit = true) {d : Disk Note}
    (hrooted : Rooted d.tree) :
    Ends env installed files d.tree (exec (applyPlan tools env plan) d) := by
  refine Ends.bind untouched_checkCancelled rfl fun _ d₁ h₁ => ?_
  split
  · exact Ends.bind (untouched_verifyBaseline plan) h₁ fun _ d₂ h₂ => .same h₂
  refine Ends.bind (untouched_ensureDownloadParent _) h₁ fun _ d₂ h₂ => ?_
  rw [exec_bind, exec_get]
  dsimp only
  refine bind_cases (fun error d₃ hrun => ?_) fun _ d₃ hrun => ?_
  · rcases exec_change env.host
      (fun t _ => Tree.createDirectory t (stageFolder (env.unique d₂.clock))) d₂ with
      ⟨error', hfailed⟩ | ⟨t, -, hdone⟩
    · rw [exec_mapError, hfailed] at hrun
      cases hrun
      exact .same h₂
    · rw [exec_mapError, hdone] at hrun
      cases hrun
  · obtain ⟨t, hcreate, rfl⟩ := change_ok (mapError_ok.mp hrun)
    have hbase : ∀ path, inside (stageFolder (env.unique d₂.clock)) path = false →
        t.get path = d.tree.get path := by
      intro path hpath
      rw [get_createDirectory_of_ne hcreate, h₂]
      rintro rfl
      simp [inside] at hpath
    obtain ⟨result, preserve, d₄, hstaged, hharmless, hrestored⟩ :=
      runStaged_harmless tools env (d := { d₂.tick with tree := t }) hplan howned hfiles
        (hunique d₂.clock) hrooted hbase
    rw [exec_bind, hstaged]
    dsimp only
    refine ⟨d₂.clock, ?_⟩
    cases preserve with
    | true => cases result <;> exact hharmless
    | false =>
      cases hremove : exec (removeStage env (stageFolder (env.unique d₂.clock))) d₄ with
      | mk removed d₅ =>
        have hremoved := hharmless.staged (staged_removeStage.run hremove)
          fun error herror => .inl (hrestored rfl error herror)
        cases removed with
        | error error => cases hremove
        | ok u =>
          simp only [Bool.false_eq_true, if_false]
          rw [exec_bind, hremove]
          cases result <;> exact hremoved

/-- Whatever of an update fails, and wherever the process stops: nothing but the files of the
model and its record changes outside the staging folder, where only missing folders are made;
and an update that fails has every old file in its place or, where taking the exchange back
fails too, in the folder of backups that its error names. -/
theorem updateModel_harmless (tools : UpdateTools) (env : UpdateSurroundings)
    {installed : Installed} {revision : Text} {files : List TrackedFile} {d d' : Disk Note}
    {result : Except Text ModelUpdateResult} (hrooted : Rooted d.tree) (howned : Owned installed)
    (hfiles : validateFiles files = .ok ())
    (hunique : ∀ n, (env.unique n).all isHexDigit = true)
    (h : exec (updateModel tools env installed revision files) d = (result, d')) :
    ∃ n, Harmless installed files (stageFolder (env.unique n)) d.tree d'.tree (failure result) := by
  have hends : Ends env installed files d.tree
      (exec (updateModel tools env installed revision files) d) := by
    refine bind_cases (fun error d₁ hrun => ?_) fun plan d₁ hrun => ?_
    · exact .same ((untouched_planUpdate _ _ _ _).run hrun).1
    · have htree : d₁.tree = d.tree := ((untouched_planUpdate _ _ _ _).run hrun).1
      rw [← htree]
      exact applyPlan_ends (planUpdate_planned hrun) howned hfiles hunique (htree ▸ hrooted)
  rw [h] at hends
  exact hends

end Whole

def sampleTools : UpdateTools where
  hashes := ⟨id, id⟩
  pretty _ := [2]
  parse _ := .error []
  validateRepoId _ := .ok ()
  inspectSnapshot _ := ⟨[], false⟩
  prettyGguf _ := [2]
  inspectView _ _ := ⟨[], false⟩
  validateGgufCompanions _ _ := .ok ()

def sampleFile (oid : Char) : TrackedFile :=
  ⟨"m.gguf".toList, "m.gguf".toList, 32, some (List.replicate 64 oid)⟩

def sampleInstalled : Installed where
  path := "m.gguf".toList
  metadata := ".m.gguf.aiolm-update.json".toList
  repository := "owner/model".toList
  revision := some (List.replicate 40 'a')
  files := [sampleFile '0']
  gguf := some ("m.gguf".toList, false)
  previousMetadata := some [1]

def sampleTree : Tree :=
  (KeyMap.empty.insert ".m.gguf.aiolm-update.json".toList (.file [1] 0)).insert
    "m.gguf".toList (.file (List.replicate 32 0) 0)

theorem sampleTree_rooted : Rooted sampleTree := by
  intro path hpath folder hfolder
  have hflat : path = "m.gguf".toList ∨ path = ".m.gguf.aiolm-update.json".toList := by
    by_contra hne
    rw [not_or] at hne
    rw [sampleTree, KeyMap.get_insert, if_neg hne.1, KeyMap.get_insert, if_neg hne.2] at hpath
    cases hpath
  have hnone : parents path = [] := by
    rcases hflat with rfl | rfl <;> decide
  rw [hnone] at hfolder
  cases hfolder

def sampleSurroundings (refused : Nat) : UpdateSurroundings where
  host :=
    { message := fun _ => []
      fails := fun n => if n = refused then some "refused".toList else none }
  responses _ := .body [.ok (List.replicate 32 17)]
  unique n := Nat.toDigits 10 n

/-- The record cannot be put in place, and the old file comes back. -/
theorem updateModel_harmless_refused : ∃ error d',
    exec (updateModel sampleTools (sampleSurroundings 51) sampleInstalled (List.replicate 40 'b')
      [sampleFile '1']) { tree := sampleTree } = (.error error, d') ∧
      d'.tree.get "m.gguf".toList = some (.file (List.replicate 32 0) 0) ∧
      ∃ n, Harmless sampleInstalled [sampleFile '1']
        (stageFolder ((sampleSurroundings 51).unique n)) sampleTree d'.tree (some error) := by
  have hrun : (!(exec (updateModel sampleTools (sampleSurroundings 51) sampleInstalled
        (List.replicate 40 'b') [sampleFile '1']) { tree := sampleTree }).1.isOk &&
      (exec (updateModel sampleTools (sampleSurroundings 51) sampleInstalled
        (List.replicate 40 'b') [sampleFile '1']) { tree := sampleTree }).2.tree.get
          "m.gguf".toList == some (.file (List.replicate 32 0) 0)) = true := by decide +kernel
  cases h : exec (updateModel sampleTools (sampleSurroundings 51) sampleInstalled
      (List.replicate 40 'b') [sampleFile '1']) { tree := sampleTree } with
  | mk result d' =>
    rw [h] at hrun
    cases result with
    | ok done => cases hrun
    | error error =>
      refine ⟨error, d', rfl, eq_of_beq (Bool.and_eq_true_iff.mp hrun).2,
        updateModel_harmless sampleTools (sampleSurroundings 51) sampleTree_rooted
          ⟨?_, .inr ⟨"m.gguf".toList, by decide, by decide⟩⟩ ?_ ?_ h⟩
      · decide +kernel
      · decide +kernel
      · intro n
        refine List.all_eq_true.mpr fun c hc => ?_
        have hdigit : c.isDigit := Nat.isDigit_of_mem_toDigits (by decide) (by decide) hc
        simp [isHexDigit, hdigit]

end AioLM.Discover.Updates
