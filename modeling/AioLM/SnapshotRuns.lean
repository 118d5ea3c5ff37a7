import AioLM.Runs
import AioLM.Snapshots

/-!
Downloads of one snapshot over and over: a manifest written as complete tells the
truth, whatever the runs find and wherever they stop.
-/

set_option autoImplicit false

namespace AioLM.Discover

open Effect Fallible Files

/-- Nothing in the folder changes. -/
def Untouched (d d' : Disk Note) : Prop := d'.tree = d.tree ∧ d'.notes = d.notes

/-- What is at a path stays there. -/
def Keeps (t t' : Tree) : Prop := ∀ path node, t.get path = some node → t'.get path = some node

/-- What the folder held at the start is still there. -/
def Grows (base : Tree) (d d' : Disk Note) : Prop :=
  d'.notes = d.notes ∧ (Keeps base d.tree → Keeps base d'.tree)

theorem Untouched.refl (d : Disk Note) : Untouched d d := ⟨rfl, rfl⟩

theorem Untouched.trans (d d' d'' : Disk Note) (h : Untouched d d') (h' : Untouched d' d'') :
    Untouched d d'' := ⟨h'.1.trans h.1, h'.2.trans h.2⟩

theorem Keeps.refl (t : Tree) : Keeps t t := fun _ _ h => h

theorem Keeps.trans {t t' t'' : Tree} (h : Keeps t t') (h' : Keeps t' t'') : Keeps t t'' :=
  fun path node hnode => h' path node (h path node hnode)

section Grows

variable {base : Tree}

theorem Grows.refl (d : Disk Note) : Grows base d d := ⟨rfl, fun h => h⟩

theorem Grows.trans (d d' d'' : Disk Note) (h : Grows base d d') (h' : Grows base d' d'') :
    Grows base d d'' := ⟨h'.1.trans h.1, fun hkeeps => h'.2 (h.2 hkeeps)⟩

theorem Untouched.grows (d d' : Disk Note) (h : Untouched d d') : Grows base d d' :=
  ⟨h.2, fun hkeeps => h.1.symm ▸ hkeeps⟩

theorem Keeps.insert {t : Tree} {path : Text} {node : Node} (h : Keeps base t)
    (hnone : base.get path = none) : Keeps base (t.insert path node) := by
  intro other old hold
  rw [KeyMap.get_insert]
  split
  · rename_i heq
    rw [heq, hnone] at hold
    cases hold
  · exact h other old hold

theorem Keeps.insert_new {t : Tree} {path : Text} {node : Node} (h : Keeps base t)
    (hnone : t.get path = none) : Keeps base (t.insert path node) := by
  refine h.insert ?_
  cases hbase : base.get path with
  | none => rfl
  | some old =>
    rw [h path old hbase] at hnone
    cases hnone

theorem Keeps.erase {t : Tree} {path : Text} (h : Keeps base t) (hnone : base.get path = none) :
    Keeps base (t.erase path) := by
  intro other old hold
  rw [KeyMap.get_erase]
  split
  · rename_i heq
    rw [heq, hnone] at hold
    cases hold
  · exact h other old hold

end Grows

section Steps

variable {tools : Tools} {env : Surroundings} {α β : Type}

theorem untouched_look {host : Host} (f : Tree → Except Errno α) :
    Moves Untouched (look host f : Install α) := by
  intro d
  rcases exec_look host f d with ⟨error, h⟩ | ⟨a, -, h⟩ <;>
    exact h ▸ ⟨rfl, rfl⟩

theorem untouched_stopped {host : Host} : Moves Untouched (stopped host : Install Bool) :=
  fun _ => ⟨rfl, rfl⟩

theorem grows_change {base : Tree} {host : Host} {f : Tree → Nat → Except Errno Tree}
    (hf : ∀ t clock t', f t clock = .ok t' → Keeps base t → Keeps base t') :
    Moves (Grows base) (change host f : Install Unit) := by
  intro d
  rcases exec_change host f d with ⟨error, h⟩ | ⟨t, ht, h⟩
  · exact h ▸ Untouched.grows _ _ ⟨rfl, rfl⟩
  · exact h ▸ ⟨rfl, hf _ _ _ ht⟩

theorem Untouched.bind {x : Install α} {f : α → Install β} (hx : Moves Untouched x)
    (hf : ∀ a, Moves Untouched (f a)) : Moves Untouched (x >>= f) := hx.bind hf Untouched.trans

theorem Grows.bind {base : Tree} {x : Install α} {f : α → Install β} (hx : Moves (Grows base) x)
    (hf : ∀ a, Moves (Grows base) (f a)) : Moves (Grows base) (x >>= f) := hx.bind hf Grows.trans

theorem Grows.of_untouched {base : Tree} {x : Install α} (hx : Moves Untouched x) :
    Moves (Grows base) x := hx.mono Untouched.grows

theorem untouched_checkCancelled : Moves Untouched (checkCancelled env) :=
  Untouched.bind untouched_stopped fun _ =>
    .ite (.throw Untouched.refl _) (.pure Untouched.refl _)

theorem untouched_readSnapshotManifest :
    Moves Untouched (readSnapshotManifest tools env) := by
  refine Untouched.bind (.mapError (untouched_look _) _) fun node => ?_
  split
  · exact .pure Untouched.refl _
  · refine Untouched.bind (.mapError (untouched_look _) _) fun _ => ?_
    exact Untouched.bind (.ofExcept Untouched.refl _) fun _ => .pure Untouched.refl _
  · exact .throw Untouched.refl _

theorem untouched_previouslyComplete (manifest : SnapshotManifest) :
    Moves Untouched (previouslyComplete tools env manifest) := by
  refine Untouched.bind untouched_readSnapshotManifest fun previous => ?_
  split
  · exact .pure Untouched.refl _
  · exact Untouched.bind (.demand Untouched.refl _ _) fun _ => .pure Untouched.refl _

theorem untouched_hashedContent (algorithm : Algorithm) (path : Text) :
    Moves Untouched (hashedContent env algorithm path) := by
  refine Untouched.bind (.mapError (untouched_look _) _) fun content => ?_
  refine Untouched.bind untouched_checkCancelled fun _ => ?_
  exact Untouched.bind (.mapError (untouched_look _) _) fun _ => .pure Untouched.refl _

theorem untouched_verifyFileDigest (file : SnapshotFile) :
    Moves Untouched (verifyFileDigest tools env file) := by
  refine Untouched.bind untouched_checkCancelled fun _ => ?_
  refine Untouched.bind (.ofExcept Untouched.refl _) fun oid => ?_
  refine Untouched.bind (.ofExcept Untouched.refl _) fun found => ?_
  refine Untouched.bind (.mapError (untouched_look _) _) fun node => ?_
  split
  · refine Untouched.bind (.demand Untouched.refl _ _) fun _ => ?_
    refine Untouched.bind (untouched_hashedContent _ _) fun read => ?_
    exact .demand Untouched.refl _ _
  · exact .throw Untouched.refl _

theorem untouched_verifyExisting (file : SnapshotFile) :
    Moves Untouched (verifyExisting tools env file) := by
  refine Untouched.bind (.mapError (untouched_look _) _) fun node => ?_
  split
  · exact .pure Untouched.refl _
  · refine Untouched.bind (.demand Untouched.refl _ _) fun _ => ?_
    refine Untouched.bind (.ite (.mapError (untouched_verifyFileDigest _) _)
      (.pure Untouched.refl _)) fun _ => .pure Untouched.refl _
  · exact .throw Untouched.refl _

theorem untouched_ensureDownloadParent (path : Text) :
    Moves Untouched (ensureDownloadParent env path) :=
  Untouched.bind (.mapError (untouched_look _) _) fun _ => .demand Untouched.refl _ _

theorem untouched_requestFile (file : SnapshotFile) :
    Moves Untouched (requestFile env file) := by
  refine Untouched.bind untouched_checkCancelled fun _ => ?_
  split
  · exact .throw Untouched.refl _
  · exact .throw Untouched.refl _
  · exact .throw Untouched.refl _
  · exact .pure Untouched.refl _

theorem untouched_checkedDestination (relative : Text) :
    Moves Untouched (checkedDestination env relative false) := by
  refine Untouched.bind (.ofExcept Untouched.refl _) fun _ => ?_
  refine .forM (fun folder _ => ?_) Untouched.refl Untouched.trans
  refine Untouched.bind (.observe (untouched_look _)) fun there => ?_
  split
  · exact Untouched.bind (untouched_look _) fun _ => .demand Untouched.refl _ _
  · exact .pure Untouched.refl _

section Transfer

variable {base : Tree}

theorem keeps_createDirectory {t t' : Tree} {path : Text} (h : Tree.createDirectory t path = .ok t')
    (hkeeps : Keeps base t) : Keeps base t' := by
  obtain ⟨hnone, rfl⟩ := Tree.createDirectory_ok h
  exact hkeeps.insert_new hnone

theorem keeps_createFile {t t' : Tree} {path : Text} {content : Bytes} {stamp : Nat}
    (h : Tree.createFile t path content stamp = .ok t') (hkeeps : Keeps base t) :
    Keeps base t' := by
  obtain ⟨hnone, rfl⟩ := Tree.createFile_ok h
  exact hkeeps.insert_new hnone

theorem keeps_hardLink {t t' : Tree} {source target : Text}
    (h : Tree.hardLink t source target = .ok t') (hkeeps : Keeps base t) : Keeps base t' := by
  obtain ⟨content, stamp, -, hnone, rfl⟩ := Tree.hardLink_ok h
  exact hkeeps.insert_new hnone

theorem grows_checkedDestination (relative : Text) :
    Moves (Grows base) (checkedDestination env relative true) := by
  refine Grows.bind (.ofExcept Grows.refl _) fun _ => ?_
  refine .forM (fun folder _ => ?_) Grows.refl Grows.trans
  refine Grows.bind (.of_untouched (.observe (untouched_look _))) fun there => ?_
  split
  · exact Grows.bind (.of_untouched (untouched_look _)) fun _ => .demand Grows.refl _ _
  · exact Grows.bind (grows_change fun _ _ _ => keeps_createDirectory) fun _ =>
      .of_untouched (untouched_look _)

theorem grows_createStagingFile (path : Text) :
    Moves (Grows base) (createStagingFile env path) := by
  refine Grows.bind (.of_untouched (untouched_ensureDownloadParent _)) fun _ => ?_
  refine Grows.bind (.of_untouched (.mapError (untouched_look _) _)) fun node => ?_
  refine Grows.bind (.demand Grows.refl _ _) fun _ => ?_
  exact .mapError (grows_change fun _ _ _ => keeps_createFile) _

variable {temporary : Text}

theorem keeps_append (hnone : base.get temporary = none) {t t' : Tree} {chunk : Bytes}
    {clock : Nat} (h : append temporary chunk t clock = .ok t') (hkeeps : Keeps base t) :
    Keeps base t' := by
  rw [append, bind_eq_ok] at h
  obtain ⟨content, -, hwrite⟩ := h
  rw [Tree.write_ok hwrite]
  exact hkeeps.insert hnone

theorem keeps_removeFile (hnone : base.get temporary = none) {t t' : Tree}
    (h : Tree.removeFile t temporary = .ok t') (hkeeps : Keeps base t) : Keeps base t' := by
  rw [Tree.removeFile_ok h]
  exact hkeeps.erase hnone

theorem grows_receive (hnone : base.get temporary = none) (file : SnapshotFile)
    (received : Bytes) (chunks : List (Except Text Bytes)) :
    Moves (Grows base) (receive env file temporary received chunks) := by
  induction chunks generalizing received with
  | nil => exact Grows.bind (.of_untouched untouched_checkCancelled) fun _ => .pure Grows.refl _
  | cons chunk chunks ih =>
    refine Grows.bind (.of_untouched untouched_checkCancelled) fun _ => ?_
    refine Grows.bind (.ofExcept Grows.refl _) fun bytes => ?_
    refine Grows.bind (.demand Grows.refl _ _) fun _ => ?_
    exact Grows.bind (grows_change fun _ _ _ => keeps_append hnone) fun _ => ih _

variable (tools env) in
theorem grows_fillStagingFile (hnone : base.get temporary = none) (file : SnapshotFile)
    (chunks : List (Except Text Bytes)) :
    Moves (Grows base) (fillStagingFile tools env file temporary chunks) := by
  refine Grows.bind (grows_receive hnone _ _ _) fun received => ?_
  refine Grows.bind (.demand Grows.refl _ _) fun _ => ?_
  refine Grows.bind (.demand Grows.refl _ _) fun _ => ?_
  exact .of_untouched (untouched_look _)

variable (env) in
theorem grows_activateDownload (hnone : base.get temporary = none) (target : Text) :
    Moves (Grows base) (activateDownload env temporary target) := by
  refine Grows.bind (.of_untouched (untouched_ensureDownloadParent _)) fun _ => ?_
  refine Grows.bind (.of_untouched (.mapError (untouched_look _) _)) fun node => ?_
  refine Grows.bind (.demand Grows.refl _ _) fun _ => ?_
  refine Grows.bind (.mapError (grows_change fun _ _ _ => keeps_hardLink) _) fun _ => ?_
  exact .mapError (grows_change fun _ _ _ => keeps_removeFile hnone) _

variable (env) in
theorem grows_cleaning (hnone : base.get temporary = none) {x : Install Unit}
    (hx : Moves (Grows base) x) : Moves (Grows base) (cleaning env temporary x) := by
  refine Grows.bind (.observe hx) fun result => ?_
  split
  · exact .pure Grows.refl _
  · refine Grows.bind (.observe (grows_change fun _ _ _ => keeps_removeFile hnone)) fun _ => ?_
    exact .throw Grows.refl _

def Holds (tools : Tools) (t : Tree) (file : SnapshotFile) : Prop :=
  ∃ content, Tree.content t file.path = some content ∧ file.accepts tools.hashes content = true

theorem createStagingFile_ok {d d' : Disk Note}
    (h : exec (createStagingFile env temporary) d = (.ok (), d')) :
    d.tree.get temporary = none ∧ Tree.content d'.tree temporary = some [] := by
  simp only [createStagingFile, bind_ok] at h
  obtain ⟨_, d₁, h₁, node, d₂, h₂, _, d₃, h₃, h₄⟩ := h
  obtain ⟨t, ht, rfl⟩ := change_ok (mapError_ok.mp h₄)
  obtain ⟨hnone, rfl⟩ := Tree.createFile_ok ht
  obtain ⟨-, rfl⟩ := demand_ok.mp h₃
  obtain ⟨-, rfl⟩ := look_ok (mapError_ok.mp h₂)
  have htree : d₁.tree = d.tree := ((untouched_ensureDownloadParent temporary).run h₁).1
  refine ⟨?_, Tree.content_eq_some.mpr ⟨_, by rw [KeyMap.get_insert, if_pos rfl]⟩⟩
  rw [← htree]
  exact hnone

theorem receive_ok {file : SnapshotFile} {received all : Bytes}
    {chunks : List (Except Text Bytes)} {d d' : Disk Note}
    (hcontent : Tree.content d.tree temporary = some received)
    (h : exec (receive env file temporary received chunks) d = (.ok all, d')) :
    Tree.content d'.tree temporary = some all := by
  induction chunks generalizing received d with
  | nil =>
    obtain ⟨_, d₁, h₁, hlast⟩ := bind_ok.mp h
    cases hlast
    rw [(untouched_checkCancelled.run h₁).1]
    exact hcontent
  | cons chunk chunks ih =>
    simp only [receive, bind_ok] at h
    obtain ⟨_, d₁, h₁, bytes, d₂, h₂, _, d₃, h₃, _, d₄, h₄, hrest⟩ := h
    obtain ⟨-, rfl⟩ := ofExcept_ok.mp h₂
    obtain ⟨-, rfl⟩ := demand_ok.mp h₃
    obtain ⟨t, ht, rfl⟩ := change_ok h₄
    rw [append, bind_eq_ok] at ht
    obtain ⟨content, horiginal, hwrite⟩ := ht
    rw [(untouched_checkCancelled.run h₁).1, hcontent] at horiginal
    cases horiginal
    refine ih ?_ hrest
    exact Tree.content_eq_some.mpr ⟨_, by rw [Tree.write_ok hwrite, KeyMap.get_insert, if_pos rfl]⟩

theorem fillStagingFile_ok {file : SnapshotFile} {chunks : List (Except Text Bytes)}
    {d d' : Disk Note} (hcontent : Tree.content d.tree temporary = some [])
    (h : exec (fillStagingFile tools env file temporary chunks) d = (.ok (), d')) :
    ∃ content, Tree.content d'.tree temporary = some content ∧
      file.accepts tools.hashes content = true := by
  simp only [fillStagingFile, bind_ok] at h
  obtain ⟨all, d₁, h₁, _, d₂, h₂, _, d₃, h₃, h₄⟩ := h
  obtain ⟨hlength, rfl⟩ := demand_ok.mp h₂
  obtain ⟨hdigest, rfl⟩ := demand_ok.mp h₃
  obtain ⟨-, rfl⟩ := look_ok h₄
  have hreceived := receive_ok hcontent h₁
  refine ⟨all, hreceived, ?_⟩
  rw [SnapshotFile.accepts, hdigest, Bool.and_true]
  exact beq_iff_eq.mpr hlength

theorem activateDownload_ok {target : Text} {content : Bytes} {d d' : Disk Note}
    (hcontent : Tree.content d.tree temporary = some content)
    (h : exec (activateDownload env temporary target) d = (.ok (), d')) :
    Tree.content d'.tree target = some content := by
  simp only [activateDownload, bind_ok] at h
  obtain ⟨_, d₁, h₁, node, d₂, h₂, _, d₃, h₃, _, d₄, h₄, h₅⟩ := h
  obtain ⟨-, rfl⟩ := look_ok (mapError_ok.mp h₂)
  obtain ⟨-, rfl⟩ := demand_ok.mp h₃
  obtain ⟨t, ht, rfl⟩ := change_ok (mapError_ok.mp h₄)
  obtain ⟨t', ht', rfl⟩ := change_ok (mapError_ok.mp h₅)
  obtain ⟨linked, stamp, hsource, hvacant, rfl⟩ := Tree.hardLink_ok ht
  obtain ⟨old, hold⟩ := Tree.content_eq_some.mp hcontent
  have hsource' : d.tree.get temporary = some (.file linked stamp) := by
    rw [← ((untouched_ensureDownloadParent target).run h₁).1]
    exact hsource
  have hne : target ≠ temporary := by
    rintro rfl
    rw [show d₁.tick.tree.get target = none from hvacant] at hsource
    cases hsource
  rw [hold] at hsource'
  cases hsource'
  refine Tree.content_eq_some.mpr ⟨stamp, ?_⟩
  rw [Tree.removeFile_ok ht', KeyMap.get_erase, if_neg hne, KeyMap.get_insert, if_pos rfl]

theorem cleaning_ok {x : Install Unit} {d d' : Disk Note}
    (h : exec (cleaning env temporary x) d = (.ok (), d')) : exec x d = (.ok (), d') := by
  obtain ⟨result, d₁, h₁, hrest⟩ := bind_ok.mp h
  have hx := observe_eq.mp h₁
  cases result with
  | ok u =>
    cases hrest
    exact hx
  | error error =>
    obtain ⟨_, d₂, -, hthrow⟩ := bind_ok.mp hrest
    cases hthrow

theorem hashedContent_ok {algorithm : Algorithm} {path : Text} {content : Bytes}
    {d d' : Disk Note} (h : exec (hashedContent env algorithm path) d = (.ok content, d')) :
    Tree.content d.tree path = some content := by
  simp only [hashedContent, bind_ok] at h
  obtain ⟨read, d₁, h₁, _, d₂, -, _, d₃, -, hlast⟩ := h
  cases hlast
  have hread := (look_ok (mapError_ok.mp h₁)).1
  rwa [orError_eq_ok] at hread

theorem verifyFileDigest_ok {file : SnapshotFile} {d d' : Disk Note}
    (h : exec (verifyFileDigest tools env file) d = (.ok (), d')) :
    ∃ oid content, file.oid = some oid ∧ Tree.content d.tree file.path = some content ∧
      digestMatches tools.hashes oid file.size content = true := by
  simp only [verifyFileDigest, bind_ok] at h
  obtain ⟨_, d₁, h₁, oid, d₂, h₂, ⟨algorithm, expected⟩, d₃, h₃, node, d₄, h₄, hrest⟩ := h
  obtain ⟨hoid, rfl⟩ := ofExcept_ok.mp h₂
  obtain ⟨hidentity, rfl⟩ := ofExcept_ok.mp h₃
  obtain ⟨-, rfl⟩ := look_ok (mapError_ok.mp h₄)
  rw [orError_eq_ok] at hoid hidentity
  cases node with
  | directory => cases hrest
  | link => cases hrest
  | file bytes stamp =>
    simp only [bind_ok] at hrest
    obtain ⟨_, d₅, h₅, read, d₆, h₆, h₇⟩ := hrest
    obtain ⟨-, rfl⟩ := demand_ok.mp h₅
    obtain ⟨⟨-, hsame⟩, rfl⟩ := demand_ok.mp h₇
    have hread := hashedContent_ok h₆
    refine ⟨oid, read, hoid, ?_, ?_⟩
    · rw [← (untouched_checkCancelled.run h₁).1]
      exact hread
    · rw [digestMatches, hidentity, Option.any_some]
      cases algorithm with
      | sha256 =>
        rw [eqIgnoreAsciiCase_hexText] at hsame
        exact hsame
      | gitBlob => exact hsame

theorem verifyExisting_ok {file : SnapshotFile} {d d' : Disk Note}
    (h : exec (verifyExisting tools env file) d = (.ok true, d')) : Holds tools d.tree file := by
  simp only [verifyExisting, bind_ok] at h
  obtain ⟨node, d₁, h₁, hrest⟩ := h
  obtain ⟨hnode, rfl⟩ := look_ok (mapError_ok.mp h₁)
  cases node with
  | none => cases hrest
  | some node =>
    cases node with
    | directory => cases hrest
    | link => cases hrest
    | file content stamp =>
      simp only [bind_ok] at hrest
      obtain ⟨_, d₂, h₂, _, d₃, h₃, -⟩ := hrest
      obtain ⟨hlength, rfl⟩ := demand_ok.mp h₂
      have hcontent : Tree.content d.tree file.path = some content :=
        Tree.content_eq_some.mpr ⟨stamp, Tree.inspect_eq_some hnode⟩
      refine ⟨content, hcontent, ?_⟩
      rw [SnapshotFile.accepts, Bool.and_eq_true, beq_iff_eq]
      refine ⟨hlength, ?_⟩
      cases hoid : file.oid with
      | none => rfl
      | some oid =>
        rw [verifyPublished, hoid] at h₃
        obtain ⟨oid', read, hoid', hread, hdigest⟩ := verifyFileDigest_ok (mapError_ok.mp h₃)
        rw [hoid] at hoid'
        cases hoid'
        rw [show Tree.content d.tick.tree file.path = some content from hcontent] at hread
        cases hread
        exact hdigest

structure Transferred (tools : Tools) (file : SnapshotFile) (d : Disk Note)
    (outcome : Except Text Unit × Disk Note) : Prop where
  grows : Grows d.tree d outcome.2
  holds : outcome.1 = .ok () → Holds tools outcome.2.tree file

theorem Transferred.failed {file : SnapshotFile} {d d' : Disk Note} {error : Text}
    (h : Grows d.tree d d') : Transferred tools file d (.error error, d') := ⟨h, nofun⟩

theorem Grows.run {base : Tree} {α : Type} {x : Install α} {d d₁ d₂ : Disk Note}
    {result : Except Text α} (h : Grows base d d₁) (hx : Moves (Grows base) x)
    (hrun : exec x d₁ = (result, d₂)) : Grows base d d₂ := h.trans _ _ _ (hx.run hrun)

variable (tools env) in
theorem transferFile_transferred (file : SnapshotFile) (d : Disk Note) :
    Transferred tools file d (exec (transferFile tools env file) d) := by
  unfold transferFile
  have hstart : Grows d.tree d d := .refl d
  refine bind_cases (fun _ _ h₁ => .failed (hstart.run (grows_checkedDestination _) h₁)) ?_
  intro _ d₁ h₁
  have hgrows₁ := hstart.run (grows_checkedDestination _) h₁
  refine bind_cases
    (fun _ _ h₂ => .failed (hgrows₁.run (.of_untouched (untouched_requestFile file)) h₂)) ?_
  intro chunks d₂ h₂
  have hgrows₂ := hgrows₁.run (.of_untouched (untouched_requestFile file)) h₂
  refine bind_cases (fun _ _ hget => by cases hget) ?_
  rintro _ _ ⟨⟩
  refine bind_cases (fun _ _ h₃ => .failed (hgrows₂.run (.demand Grows.refl _ _) h₃)) ?_
  intro _ d₃ h₃
  have hgrows₃ := hgrows₂.run (.demand Grows.refl _ _) h₃
  refine bind_cases (fun _ _ h₄ => .failed (hgrows₃.run (grows_createStagingFile _) h₄)) ?_
  intro _ d₄ h₄
  have hgrows₄ := hgrows₃.run (grows_createStagingFile _) h₄
  obtain ⟨hvacant, hempty⟩ := createStagingFile_ok h₄
  -- What the run started with has no file of the staging file's name.
  have hnone : d.tree.get (temporaryDownloadPath file.path (env.unique d₂.clock)) = none := by
    cases hold : d.tree.get (temporaryDownloadPath file.path (env.unique d₂.clock)) with
    | none => rfl
    | some node =>
      rw [hgrows₃.2 (Keeps.refl _) _ node hold] at hvacant
      cases hvacant
  have hfill := grows_cleaning env hnone (grows_fillStagingFile tools env hnone file chunks)
  refine bind_cases (fun _ _ h₅ => .failed (hgrows₄.run hfill h₅)) ?_
  intro _ d₅ h₅
  have hgrows₅ := hgrows₄.run hfill h₅
  obtain ⟨content, hcontent, haccepts⟩ := fillStagingFile_ok hempty (cleaning_ok h₅)
  have hactivate := grows_cleaning env hnone (grows_activateDownload env hnone file.path)
  cases hlast : exec (cleaning env _ (activateDownload env _ file.path)) d₅ with
  | mk result d₆ =>
    refine ⟨hgrows₅.run hactivate hlast, ?_⟩
    rintro rfl
    exact ⟨content, activateDownload_ok hcontent (cleaning_ok hlast), haccepts⟩

end Transfer

/-- Every file but the manifest stays as it is. -/
def Kept (t t' : Tree) : Prop :=
  ∀ path node, path ≠ snapshotManifest → t.get path = some node → t'.get path = some node

theorem Kept.refl (t : Tree) : Kept t t := fun _ _ _ h => h

theorem Kept.trans {t t' t'' : Tree} (h : Kept t t') (h' : Kept t' t'') : Kept t t'' :=
  fun path node hpath hnode => h' path node hpath (h path node hpath hnode)

theorem Keeps.kept {t t' : Tree} (h : Keeps t t') : Kept t t' := fun path node _ => h path node

theorem Kept.insert_manifest (t : Tree) (node : Node) : Kept t (t.insert snapshotManifest node) := by
  intro path old hpath hold
  rw [KeyMap.get_insert, if_neg hpath]
  exact hold

theorem Holds.kept {t t' : Tree} {file : SnapshotFile} (h : Holds tools t file) (hkept : Kept t t')
    (hpath : file.path ≠ snapshotManifest) : Holds tools t' file := by
  obtain ⟨content, hcontent, haccepts⟩ := h
  obtain ⟨stamp, hnode⟩ := Tree.content_eq_some.mp hcontent
  exact ⟨content, Tree.content_eq_some.mpr ⟨stamp, hkept _ _ hpath hnode⟩, haccepts⟩

def Incomplete (tools : Tools) (manifest : SnapshotManifest) (t : Tree) : Prop :=
  Tree.content t snapshotManifest = some (tools.pretty manifest)

def NeverComplete (d : Disk Note) : Prop := ∀ m, .wrote m ∈ d.notes → m.complete = false

def AsFound (base : Tree) (d : Disk Note) : Prop :=
  d.tree.get snapshotManifest = base.get snapshotManifest ∧ .finding ∉ d.notes

/-- The folder a run starts from, and whether its manifest was ready. -/
structure Origin where
  tree : Tree
  ready : Bool

/-- Where the manifest was ready the run found something wrong. -/
def Justified (base : Origin) (d : Disk Note) : Prop := base.ready = true → .finding ∈ d.notes

structure Going (tools : Tools) (manifest : SnapshotManifest) (base : Origin) (ready : Bool)
    (d : Disk Note) : Prop where
  kept : Kept base.tree d.tree
  written : NeverComplete d
  asFound : ready = true → AsFound base.tree d ∧ (d.tree.get snapshotManifest).isSome
  incomplete : ready = false → Incomplete tools manifest d.tree ∧ Justified base d

/-- A run that has ended early. -/
structure Halted (tools : Tools) (env : Surroundings) (manifest : SnapshotManifest)
    (base : Origin) (d : Disk Note) : Prop where
  kept : Kept base.tree d.tree
  written : NeverComplete d
  settled : AsFound base.tree d ∨
    Justified base d ∧ (Incomplete tools manifest d.tree ∨ ∃ n, (env.unsaved n).isSome)

section Loop

variable {manifest : SnapshotManifest} {base : Origin} {ready : Bool} {d d' : Disk Note}

theorem Going.halted (h : Going tools manifest base ready d) :
    Halted tools env manifest base d := by
  refine ⟨h.kept, h.written, ?_⟩
  cases ready with
  | true => exact .inl (h.asFound rfl).1
  | false => exact .inr ⟨(h.incomplete rfl).2, .inl (h.incomplete rfl).1⟩

theorem Going.manifest_isSome (h : Going tools manifest base ready d) :
    (d.tree.get snapshotManifest).isSome := by
  cases ready with
  | true => exact (h.asFound rfl).2
  | false =>
    obtain ⟨stamp, hnode⟩ := Tree.content_eq_some.mp (h.incomplete rfl).1
    rw [hnode]
    rfl

theorem Going.grows (h : Going tools manifest base ready d) (hgrows : Grows d.tree d d') :
    Going tools manifest base ready d' := by
  obtain ⟨hnotes, hkeeps⟩ := hgrows
  have hall := hkeeps (Keeps.refl _)
  obtain ⟨node, hnode⟩ := Option.isSome_iff_exists.mp h.manifest_isSome
  have hsame : d'.tree.get snapshotManifest = d.tree.get snapshotManifest := by
    rw [hnode, hall _ _ hnode]
  refine ⟨h.kept.trans hall.kept, ?_, fun hready => ?_, fun hready => ?_⟩
  · rw [NeverComplete, hnotes]
    exact h.written
  · obtain ⟨⟨hmanifest, hclean⟩, hsome⟩ := h.asFound hready
    exact ⟨⟨hsame.trans hmanifest, hnotes ▸ hclean⟩, hsame ▸ hsome⟩
  · obtain ⟨stamp, hfile⟩ := Tree.content_eq_some.mp (h.incomplete hready).1
    refine ⟨Tree.content_eq_some.mpr ⟨stamp, hsame.trans hfile⟩, ?_⟩
    rw [Justified, hnotes]
    exact (h.incomplete hready).2

theorem Going.untouched (h : Going tools manifest base ready d) (hsame : Untouched d d') :
    Going tools manifest base ready d' := h.grows (Untouched.grows _ _ hsame)

variable (tools env) in
theorem saveManifest_cases (m : SnapshotManifest) (d : Disk Note) :
    (∃ error, env.unsaved d.clock = some error ∧
        exec (saveManifest tools env m) d = (.error error, d.tick)) ∨
      exec (saveManifest tools env m) d = (.ok (), { d.tick with
        tree := d.tree.insert snapshotManifest (.file (tools.pretty m) (d.clock + 1)),
        notes := d.notes ++ [.wrote m] }) := by
  cases hunsaved : env.unsaved d.clock with
  | some error => exact .inl ⟨error, rfl, by simp [saveManifest, exec_bind, hunsaved]⟩
  | none => exact .inr (by simp [saveManifest, exec_bind, hunsaved, Disk.tick])

theorem Incomplete.insert (t : Tree) (stamp : Nat) :
    Incomplete tools manifest
      (t.insert snapshotManifest (.file (tools.pretty manifest) stamp)) :=
  Tree.content_eq_some.mpr ⟨stamp, by rw [KeyMap.get_insert, if_pos rfl]⟩

theorem NeverComplete.note_finding (h : NeverComplete d) :
    NeverComplete { d with notes := d.notes ++ [.finding] } := by
  intro m hm
  rcases List.mem_append.mp hm with hold | hnew
  · exact h m hold
  · cases List.mem_singleton.mp hnew

theorem NeverComplete.note_wrote (h : NeverComplete d) {m : SnapshotManifest}
    (hm : m.complete = false) : NeverComplete { d with notes := d.notes ++ [.wrote m] } := by
  intro m' hm'
  rcases List.mem_append.mp hm' with hold | hnew
  · exact h m' hold
  · cases List.mem_singleton.mp hnew
    exact hm

theorem Justified.note_finding (base : Origin) (d : Disk Note) :
    Justified base { d with notes := d.notes ++ [.finding] } :=
  fun _ => List.mem_append_right _ List.mem_cons_self

variable (env) in
theorem invalidate_cases (hfalse : manifest.complete = false)
    (h : Going tools manifest base ready d) :
    (∃ error d', exec (invalidate tools env manifest ready)
          { d with notes := d.notes ++ [.finding] } = (.error error, d') ∧
        Halted tools env manifest base d') ∨
      ∃ d', exec (invalidate tools env manifest ready)
          { d with notes := d.notes ++ [.finding] } = (.ok (), d') ∧
        Going tools manifest base false d' ∧ Kept d.tree d'.tree := by
  have hjustified := Justified.note_finding base d
  cases ready with
  | false =>
    refine .inr ⟨_, rfl, ⟨h.kept, h.written.note_finding, nofun, fun _ => ?_⟩, .refl _⟩
    exact ⟨(h.incomplete rfl).1, hjustified⟩
  | true =>
    rcases saveManifest_cases tools env manifest
      { d with notes := d.notes ++ [.finding] } with ⟨error, hunsaved, hexec⟩ | hexec
    · refine .inl ⟨error, _, hexec, h.kept, h.written.note_finding, .inr ⟨hjustified, .inr ?_⟩⟩
      exact ⟨d.clock, Option.isSome_iff_exists.mpr ⟨error, hunsaved⟩⟩
    · have hkept := Kept.insert_manifest d.tree (.file (tools.pretty manifest) (d.clock + 1))
      refine .inr ⟨_, hexec, ⟨h.kept.trans hkept, h.written.note_finding.note_wrote hfalse, nofun,
        fun _ => ⟨.insert _ _, fun hready => ?_⟩⟩, hkept⟩
      exact List.mem_append_left _ (hjustified hready)

variable (env) in
theorem refuse_halted (α : Type) (hfalse : manifest.complete = false)
    (h : Going tools manifest base ready d) (error : Text) :
    ∃ error' d', exec (refuse tools env manifest ready error : Install α) d = (.error error', d') ∧
      Halted tools env manifest base d' := by
  unfold refuse
  simp only [exec_bind, exec_note]
  rcases invalidate_cases env hfalse h with ⟨error', d', hexec, hhalted⟩ |
    ⟨d', hexec, hgoing, -⟩
  · exact ⟨error', d', by rw [hexec], hhalted⟩
  · exact ⟨error, d', by simp only [hexec, exec_throw], hgoing.halted⟩

/-- What the work on files may end in. -/
inductive Installed (tools : Tools) (env : Surroundings) (manifest : SnapshotManifest)
    (base : Origin) (files : List SnapshotFile) (d : Disk Note) :
    Except Text Bool × Disk Note → Prop
  | done {ready : Bool} {d' : Disk Note} : Going tools manifest base ready d' →
      Kept d.tree d'.tree → (∀ file ∈ files, Holds tools d'.tree file) →
      Installed tools env manifest base files d (.ok ready, d')
  | halted {error : Text} {d' : Disk Note} : Halted tools env manifest base d' →
      Installed tools env manifest base files d (.error error, d')

variable (env) in
theorem installFile_installed (hfalse : manifest.complete = false)
    (h : Going tools manifest base ready d) (file : SnapshotFile) :
    Installed tools env manifest base [file] d
      (exec (installFile tools env manifest ready file) d) := by
  unfold installFile
  refine bind_cases
    (fun _ _ h₁ => .halted (h.untouched (untouched_checkCancelled.run h₁)).halted) ?_
  intro _ d₁ h₁
  have hsame₁ := untouched_checkCancelled.run h₁
  have hgoing₁ := h.untouched hsame₁
  refine bind_cases (fun _ _ hobserve => by cases hobserve) ?_
  intro checked d₂ h₂
  have hchecked := (untouched_checkedDestination file.path).run (observe_eq.mp h₂)
  have hgoing₂ := hgoing₁.untouched hchecked
  cases checked with
  | error error =>
    obtain ⟨error', d', hexec, hhalted⟩ := refuse_halted env Bool hfalse hgoing₂ error
    exact hexec ▸ .halted hhalted
  | ok _ =>
    refine bind_cases (fun _ _ hobserve => by cases hobserve) ?_
    intro verified d₃ h₃
    have hverified := observe_eq.mp h₃
    have hsame₃ := (untouched_verifyExisting file).run hverified
    have hgoing₃ := hgoing₂.untouched hsame₃
    have htree : d₃.tree = d.tree := hsame₃.1.trans (hchecked.1.trans hsame₁.1)
    cases verified with
    | error error =>
      by_cases hcancelled : error = downloadCancelled
      · simp only [if_pos hcancelled]
        exact .halted hgoing₃.halted
      · simp only [if_neg hcancelled]
        obtain ⟨error', d', hexec, hhalted⟩ :=
          refuse_halted env Bool hfalse hgoing₃ error
        exact hexec ▸ .halted hhalted
    | ok there =>
      cases there with
      | true =>
        refine .done hgoing₃ (htree ▸ Kept.refl _) (List.forall_mem_singleton.mpr ?_)
        rw [hsame₃.1]
        exact verifyExisting_ok hverified
      | false =>
        simp only [exec_bind, exec_note]
        rcases invalidate_cases env hfalse hgoing₃ with ⟨error', d₄, hexec, hhalted⟩ |
          ⟨d₄, hexec, hgoing₄, hkept₄⟩
        · rw [hexec]
          exact .halted hhalted
        · rw [hexec]
          have htransfer := transferFile_transferred tools env file d₄
          cases hlast : exec (transferFile tools env file) d₄ with
          | mk result d₅ =>
            rw [hlast] at htransfer
            have hgoing₅ := hgoing₄.grows htransfer.grows
            have hkept₅ := (htransfer.grows.2 (Keeps.refl _)).kept
            cases result with
            | error error =>
              simp only [hlast]
              exact .halted hgoing₅.halted
            | ok _ =>
              simp only [hlast]
              exact .done hgoing₅ (htree ▸ hkept₄.trans hkept₅)
                (List.forall_mem_singleton.mpr (htransfer.holds rfl))

variable (env) in
theorem installFiles_installed (hfalse : manifest.complete = false)
    (h : Going tools manifest base ready d) {files : List SnapshotFile}
    (hpaths : ∀ file ∈ files, file.path ≠ snapshotManifest) :
    Installed tools env manifest base files d
      (exec (installFiles tools env manifest ready files) d) := by
  induction files generalizing ready d with
  | nil => exact .done h (.refl _) nofun
  | cons file files ih =>
    obtain ⟨hpath, hmore⟩ := List.forall_mem_cons.mp hpaths
    have hfirst := installFile_installed env hfalse h file
    rw [installFiles, exec_bind]
    cases hexec : exec (installFile tools env manifest ready file) d with
    | mk result d₁ =>
      rw [hexec] at hfirst
      cases hfirst with
      | halted hhalted => exact .halted hhalted
      | @done ready₁ _ hgoing₁ hkept₁ hholds =>
        have hrest := ih hgoing₁ hmore
        simp only
        cases hexec₂ : exec (installFiles tools env manifest ready₁ files) d₁ with
        | mk result₂ d₂ =>
          rw [hexec₂] at hrest
          cases hrest with
          | halted hhalted => exact .halted hhalted
          | done hgoing₂ hkept₂ hall =>
            refine .done hgoing₂ (hkept₁.trans hkept₂) (List.forall_mem_cons.mpr ⟨?_, hall⟩)
            exact (hholds file List.mem_cons_self).kept hkept₂ hpath

/-- The manifest is there and says that every file is. -/
def Ready (tools : Tools) (t : Tree) : Prop :=
  ∃ content previous, Tree.content t snapshotManifest = some content ∧
    parseManifest tools content = .ok previous ∧ previous.complete = true

theorem inspect_snapshotManifest (t : Tree) :
    Tree.inspect t snapshotManifest = .ok (t.get snapshotManifest) := by
  have hparents : parents snapshotManifest = [] := by decide
  rw [Tree.inspect, hparents]
  rfl

theorem previouslyComplete_ok
    (h : exec (previouslyComplete tools env manifest) d = (.ok ready, d')) :
    (ready = true → (d.tree.get snapshotManifest).isSome) ∧ (Ready tools d.tree → ready = true) := by
  obtain ⟨previous, d₁, h₁, hrest⟩ := bind_ok.mp h
  obtain ⟨node, d₂, h₂, hread⟩ := bind_ok.mp h₁
  obtain ⟨hnode, rfl⟩ := look_ok (mapError_ok.mp h₂)
  rw [inspect_snapshotManifest] at hnode
  have hget : d.tree.get snapshotManifest = node := Except.ok.inj hnode
  cases node with
  | none =>
    cases hread
    cases hrest
    refine ⟨nofun, ?_⟩
    rintro ⟨content, _, hsome, -⟩
    obtain ⟨stamp, hfile⟩ := Tree.content_eq_some.mp hsome
    rw [hget] at hfile
    cases hfile
  | some node =>
    refine ⟨fun _ => by rw [hget]; rfl, ?_⟩
    rintro ⟨content, complete, hsome, hparse, hcomplete⟩
    obtain ⟨stamp, hfile⟩ := Tree.content_eq_some.mp hsome
    rw [hget] at hfile
    cases node with
    | directory => cases hfile
    | link => cases hfile
    | file bytes stamp =>
      cases hfile
      simp only [bind_ok] at hread
      obtain ⟨_, d₃, -, manifest', d₄, h₄, hpure⟩ := hread
      obtain ⟨hparse', rfl⟩ := ofExcept_ok.mp h₄
      rw [hparse] at hparse'
      cases hparse'
      cases hpure
      obtain ⟨_, d₅, -, hlast⟩ := bind_ok.mp hrest
      cases hlast
      exact hcomplete

/-- A run by its notes, from its folder to the folder it leaves. -/
structure Recorded (tools : Tools) (env : Surroundings) (manifest : SnapshotManifest)
    (before : Tree) (result : Except Text Unit) (d : Disk Note) : Prop where
  complete : ∀ m, .wrote m ∈ d.notes → m.complete = true →
    m = { manifest with complete := true } ∧ ∀ file ∈ manifest.files, Holds tools d.tree file
  ok : result = .ok () →
    Tree.content d.tree snapshotManifest = some (tools.pretty { manifest with complete := true }) ∧
      .wrote { manifest with complete := true } ∈ d.notes
  incomplete : (∀ n, env.unsaved n = none) → .finding ∈ d.notes →
    Incomplete tools manifest d.tree ∨ result = .ok ()
  unchanged : ∀ error, result = .error error → .finding ∉ d.notes → Ready tools before →
    d.tree.get snapshotManifest = before.get snapshotManifest
  kept : Kept before d.tree

theorem Halted.recorded {error : Text} (h : Halted tools env manifest base d)
    (hready : Ready tools base.tree → base.ready = true) :
    Recorded tools env manifest base.tree (.error error) d := by
  refine ⟨fun m hm hcomplete => ?_, nofun, fun hsaved hfinding => ?_,
    fun _ _ hclean hbefore => ?_, h.kept⟩
  · rw [h.written m hm] at hcomplete
    cases hcomplete
  · rcases h.settled with ⟨-, hclean⟩ | ⟨-, hincomplete | ⟨n, hn⟩⟩
    · exact absurd hfinding hclean
    · exact .inl hincomplete
    · rw [hsaved n] at hn
      cases hn
  · rcases h.settled with ⟨hsame, -⟩ | ⟨hjustified, -⟩
    · exact hsame
    · exact absurd (hjustified (hready hbefore)) hclean

variable (env) in
theorem checkLoading_cases (hfalse : manifest.complete = false)
    (h : Going tools manifest base ready d) :
    (∃ error d', exec (checkLoading tools env manifest ready) d = (.error error, d') ∧
        Halted tools env manifest base d') ∨
      exec (checkLoading tools env manifest ready) d = (.ok (), d) := by
  unfold checkLoading
  rw [exec_bind, exec_get]
  simp only
  split
  · obtain ⟨error, d', hexec, hhalted⟩ := refuse_halted env Unit hfalse h
      ("snapshot loading files are incomplete or invalid: ".toList ++
        joined (tools.inspectSnapshot d.tree).missing)
    exact .inl ⟨error, d', hexec, hhalted⟩
  · exact .inr rfl

theorem publish_recorded (hfalse : manifest.complete = false)
    (hpaths : ∀ file ∈ manifest.files, file.path ≠ snapshotManifest)
    (h : Going tools manifest base ready d) (hready : Ready tools base.tree → base.ready = true)
    (hholds : ∀ file ∈ manifest.files, Holds tools d.tree file) :
    Recorded tools env manifest base.tree (exec (publish tools env manifest ready) d).1
      (exec (publish tools env manifest ready) d).2 := by
  unfold publish
  rw [exec_bind]
  rcases checkLoading_cases env hfalse h with ⟨error, d', hexec, hhalted⟩ | hexec
  · rw [hexec]
    exact hhalted.recorded hready
  · simp only [hexec, exec_bind]
    cases hstop : exec (checkCancelled env) d with
    | mk result d₁ =>
      have hsame := untouched_checkCancelled.run hstop
      have hgoing₁ := h.untouched hsame
      cases result with
      | error error => exact hgoing₁.halted.recorded hready
      | ok _ =>
        simp only
        rcases saveManifest_cases tools env
          { manifest with complete := true } d₁ with ⟨error, -, hsave⟩ | hsave
        · rw [hsave]
          have hgoing₂ : Going tools manifest base ready d₁.tick := hgoing₁.untouched ⟨rfl, rfl⟩
          exact hgoing₂.halted.recorded hready
        · rw [hsave]
          have hkept := Kept.insert_manifest d₁.tree
            (.file (tools.pretty { manifest with complete := true }) (d₁.clock + 1))
          have hlast : Note.wrote { manifest with complete := true } ∈
              d₁.notes ++ [.wrote { manifest with complete := true }] :=
            List.mem_append_right _ List.mem_cons_self
          refine ⟨fun m hm hcomplete => ⟨?_, fun file hfile => ?_⟩, fun _ => ⟨Incomplete.insert _ _, hlast⟩,
            fun _ _ => .inr rfl, nofun, hgoing₁.kept.trans hkept⟩
          · rcases List.mem_append.mp hm with hold | hnew
            · rw [hgoing₁.written m hold] at hcomplete
              cases hcomplete
            · cases List.mem_singleton.mp hnew
              rfl
          · have hthere := hholds file hfile
            rw [← hsame.1] at hthere
            exact hthere.kept hkept (hpaths file hfile)

variable (tools env) in
theorem saveIncomplete_cases (hfalse : manifest.complete = false) (hclean : d.notes = [])
    (hsome : ready = true → (d.tree.get snapshotManifest).isSome) :
    (∃ error, exec (saveIncomplete tools env manifest ready) d = (.error error, d.tick)) ∨
      ∃ d', exec (saveIncomplete tools env manifest ready) d = (.ok (), d') ∧
        Going tools manifest ⟨d.tree, ready⟩ ready d' := by
  have hnever : NeverComplete d := by
    intro m hm
    rw [hclean] at hm
    cases hm
  cases ready with
  | true =>
    refine .inr ⟨d, rfl, .refl _, hnever, fun _ => ⟨⟨rfl, ?_⟩, hsome rfl⟩, nofun⟩
    rw [hclean]
    exact List.not_mem_nil
  | false =>
    rcases saveManifest_cases tools env manifest d with ⟨error, -, hexec⟩ | hexec
    · exact .inl ⟨error, hexec⟩
    · exact .inr ⟨_, hexec, Kept.insert_manifest _ _, hnever.note_wrote hfalse, nofun,
        fun _ => ⟨.insert _ _, nofun⟩⟩

theorem Recorded.of_untouched {error : Text} (hclean : d.notes = []) (hsame : Untouched d d') :
    Recorded tools env manifest d.tree (.error error) d' := by
  have hnotes : d'.notes = [] := hsame.2.trans hclean
  refine ⟨fun m hm => ?_, nofun, fun _ hfinding => ?_, fun _ _ _ _ => by rw [hsame.1],
    hsame.1 ▸ .refl _⟩
  · rw [hnotes] at hm
    cases hm
  · rw [hnotes] at hfinding
    cases hfinding

theorem downloadSnapshotFiles_recorded (hfalse : manifest.complete = false)
    (hpaths : ∀ file ∈ manifest.files, file.path ≠ snapshotManifest) (hclean : d.notes = []) :
    Recorded tools env manifest d.tree (exec (downloadSnapshotFiles tools env manifest) d).1
      (exec (downloadSnapshotFiles tools env manifest) d).2 := by
  unfold downloadSnapshotFiles
  have hdemand {result : Except Text Unit} {d₁ : Disk Note}
      (h₁ : exec (demand ((manifest.files.map (·.size)).sum < 2 ^ 64)
        "snapshot size overflow".toList) d = (result, d₁)) : Untouched d d₁ :=
    (Moves.demand Untouched.refl _ _).run h₁
  refine bind_cases (P := fun r => Recorded tools env manifest d.tree r.1 r.2)
    (fun _ _ h₁ => .of_untouched hclean (hdemand h₁)) ?_
  intro _ d₁ h₁
  refine bind_cases (P := fun r => Recorded tools env manifest d.tree r.1 r.2)
    (fun _ _ h₂ => .of_untouched hclean
      ((hdemand h₁).trans _ _ _ ((untouched_previouslyComplete manifest).run h₂))) ?_
  intro ready d₂ h₂
  have hsame := (hdemand h₁).trans _ _ _ ((untouched_previouslyComplete manifest).run h₂)
  obtain ⟨hsome, hready⟩ := previouslyComplete_ok h₂
  rw [(hdemand h₁).1, ← hsame.1] at hsome hready
  rw [exec_bind, ← hsame.1]
  rcases saveIncomplete_cases tools env hfalse (hsame.2.trans hclean) hsome with
    ⟨error, hexec⟩ | ⟨d₃, hexec, hgoing⟩
  · rw [hexec]
    exact .of_untouched (hsame.2.trans hclean) ⟨rfl, rfl⟩
  · simp only [hexec, exec_bind]
    have hinstalled := installFiles_installed env hfalse hgoing hpaths
    cases hfiles : exec (installFiles tools env manifest ready manifest.files) d₃ with
    | mk result d₄ =>
      rw [hfiles] at hinstalled
      cases hinstalled with
      | halted hhalted => exact hhalted.recorded hready
      | done hgoing₄ hkept hholds => exact publish_recorded hfalse hpaths hgoing₄ hready hholds

end Loop

section Finding

variable (tools env)

/-- Whether the file is as it should be; only a request to stop ends it without an answer. -/
def lookAt (file : SnapshotFile) : Install Bool := do
  checkCancelled env
  match ← Effect.observe (checkedDestination env file.path false) with
  | .error _ => return false
  | .ok () =>
    match ← Effect.observe (verifyExisting tools env file) with
    | .ok there => return there
    | .error error => if error = downloadCancelled then throw error else return false

/-- A run up to its first file. -/
def opening (manifest : SnapshotManifest) : Install Bool := do
  Effect.demand ((manifest.files.map (·.size)).sum < 2 ^ 64) "snapshot size overflow".toList
  let ready ← previouslyComplete tools env manifest
  saveIncomplete tools env manifest ready
  return ready

/-- The run comes to a file, looks at it without being stopped, and the file is missing or not as
declared, or cannot be seen to be; or the loading files do not agree. -/
inductive Found (manifest : SnapshotManifest) (d : Disk Note) : Prop
  | file {passed rest : List SnapshotFile} {file : SnapshotFile} {ready ready' there : Bool}
      {d₁ d₂ d₃ : Disk Note} : manifest.files = passed ++ file :: rest →
    exec (opening tools env manifest) d = (.ok ready, d₁) →
    exec (installFiles tools env manifest ready passed) d₁ = (.ok ready', d₂) →
    exec (lookAt tools env file) d₂ = (.ok there, d₃) →
    ¬ (there = true ∧ Holds tools d₂.tree file) → Found manifest d
  | loading {ready ready' : Bool} {d₁ d₂ : Disk Note} :
    exec (opening tools env manifest) d = (.ok ready, d₁) →
    exec (installFiles tools env manifest ready manifest.files) d₁ = (.ok ready', d₂) →
    (tools.inspectSnapshot d₂.tree).missing ≠ [] ∨
      (tools.inspectSnapshot d₂.tree).unknownFormat = true → Found manifest d

variable {tools env}

theorem untouched_lookAt (file : SnapshotFile) : Moves Untouched (lookAt tools env file) := by
  refine Untouched.bind untouched_checkCancelled fun _ => ?_
  refine Untouched.bind (.observe (untouched_checkedDestination _)) fun checked => ?_
  split
  · exact .pure Untouched.refl _
  · refine Untouched.bind (.observe (untouched_verifyExisting _)) fun verified => ?_
    split
    · exact .pure Untouched.refl _
    · exact .ite (.throw Untouched.refl _) (.pure Untouched.refl _)

theorem lookAt_holds {file : SnapshotFile} {d d' : Disk Note}
    (h : exec (lookAt tools env file) d = (.ok true, d')) : Holds tools d.tree file := by
  obtain ⟨_, d₁, h₁, h⟩ := bind_ok.mp h
  obtain ⟨checked, d₂, h₂, h⟩ := bind_ok.mp h
  have htree : d₂.tree = d.tree :=
    ((untouched_checkedDestination file.path).run (observe_eq.mp h₂)).1.trans
      (untouched_checkCancelled.run h₁).1
  cases checked with
  | error error => cases h
  | ok _ =>
    obtain ⟨verified, d₃, h₃, h⟩ := bind_ok.mp h
    cases verified with
    | error error =>
      simp only at h
      split at h <;> cases h
    | ok there =>
      cases h
      exact htree ▸ verifyExisting_ok (observe_eq.mp h₃)

/-- What was found is not forgotten. -/
def Recalls (d d' : Disk Note) : Prop := .finding ∈ d.notes → .finding ∈ d'.notes

theorem Recalls.refl (d : Disk Note) : Recalls d d := fun h => h

theorem Recalls.trans (d d' d'' : Disk Note) (h : Recalls d d') (h' : Recalls d' d'') :
    Recalls d d'' := fun hfinding => h' (h hfinding)

theorem recalls_saveManifest (m : SnapshotManifest) : Moves Recalls (saveManifest tools env m) := by
  intro d hfinding
  rcases saveManifest_cases tools env m d with ⟨error, -, hexec⟩ | hexec
  · rwa [hexec]
  · rw [hexec]
    exact List.mem_append_left _ hfinding

theorem recalls_invalidate (manifest : SnapshotManifest) (ready : Bool) :
    Moves Recalls (invalidate tools env manifest ready) :=
  .ite (recalls_saveManifest manifest) (.pure Recalls.refl _)

theorem recalls_transferFile (file : SnapshotFile) :
    Moves Recalls (transferFile tools env file) := by
  intro d hfinding
  rwa [(transferFile_transferred tools env file d).grows.1]

theorem installFile_lookAt (manifest : SnapshotManifest) (ready : Bool) (file : SnapshotFile)
    (d : Disk Note) :
    match exec (lookAt tools env file) d with
    | (.error error, d₁) =>
      exec (installFile tools env manifest ready file) d = (.error error, d₁)
    | (.ok true, d₁) => exec (installFile tools env manifest ready file) d = (.ok ready, d₁)
    | (.ok false, d₁) => ∃ x : Install Bool, Moves Recalls x ∧
      exec (installFile tools env manifest ready file) d =
        exec x { d₁ with notes := d₁.notes ++ [.finding] } := by
  have hrefuse : ∀ error : Text, Moves Recalls
      (invalidate tools env manifest ready >>= fun _ => (throw error : Install Bool)) :=
    fun error => (recalls_invalidate _ _).bind (fun _ => .throw Recalls.refl _) Recalls.trans
  unfold lookAt installFile
  rw [exec_bind, exec_bind]
  cases exec (checkCancelled env) d with
  | mk stopped d₁ =>
    cases stopped with
    | error error => rfl
    | ok _ =>
      simp only [exec_bind, exec_observe]
      cases exec (checkedDestination env file.path false) d₁ with
      | mk checked d₂ =>
        cases checked with
        | error error => exact ⟨_, hrefuse error, rfl⟩
        | ok _ =>
          simp only [exec_bind, exec_observe]
          cases exec (verifyExisting tools env file) d₂ with
          | mk verified d₃ =>
            cases verified with
            | error error =>
              by_cases hcancelled : error = downloadCancelled
              · simp only [if_pos hcancelled, exec_throw]
              · simp only [if_neg hcancelled, exec_pure]
                exact ⟨_, hrefuse error, rfl⟩
            | ok there =>
              cases there with
              | true => rfl
              | false =>
                refine ⟨_, (recalls_invalidate manifest ready).bind (fun _ =>
                  (recalls_transferFile file).bind (fun _ => .pure Recalls.refl false)
                    Recalls.trans) Recalls.trans, rfl⟩

theorem recalls_installFile (manifest : SnapshotManifest) (ready : Bool) (file : SnapshotFile) :
    Moves Recalls (installFile tools env manifest ready file) := by
  intro d hfinding
  have hlook := @installFile_lookAt tools env manifest ready file d
  have hsame := (@untouched_lookAt tools env file d).2
  split at hlook <;> rename_i hexec <;> rw [hexec] at hsame
  · rw [hlook]
    exact hsame.symm ▸ hfinding
  · rw [hlook]
    exact hsame.symm ▸ hfinding
  · obtain ⟨x, hx, hrest⟩ := hlook
    rw [hrest]
    exact hx _ (List.mem_append_right _ List.mem_cons_self)

theorem recalls_publish (manifest : SnapshotManifest) (ready : Bool) :
    Moves Recalls (publish tools env manifest ready) := by
  have hsame : ∀ d d' : Disk Note, Untouched d d' → Recalls d d' :=
    fun d d' hsame hfinding => hsame.2.symm ▸ hfinding
  have hnote : Moves Recalls (note .finding : Install Unit) := by
    intro d hfinding
    exact List.mem_append_left _ hfinding
  refine Moves.bind ?_ (fun _ => ?_) Recalls.trans
  · intro d hfinding
    unfold checkLoading
    rw [exec_bind, exec_get]
    dsimp only
    split
    · exact (hnote.bind (fun _ => (recalls_invalidate manifest ready).bind
        (fun _ => .throw Recalls.refl _) Recalls.trans) Recalls.trans) d hfinding
    · exact hfinding
  · exact (untouched_checkCancelled.mono hsame).bind (fun _ => recalls_saveManifest _) Recalls.trans

theorem recalls_installFiles (manifest : SnapshotManifest) (ready : Bool)
    (files : List SnapshotFile) : Moves Recalls (installFiles tools env manifest ready files) := by
  induction files generalizing ready with
  | nil => exact .pure Recalls.refl _
  | cons file files ih => exact (recalls_installFile _ _ _).bind (fun _ => ih _) Recalls.trans

theorem finding_installFiles (manifest : SnapshotManifest) {ready : Bool}
    {files : List SnapshotFile} {d : Disk Note} (hclean : .finding ∉ d.notes) :
    .finding ∈ (exec (installFiles tools env manifest ready files) d).2.notes ↔
      ∃ passed file rest ready' d₁ d₂, files = passed ++ file :: rest ∧
        exec (installFiles tools env manifest ready passed) d = (.ok ready', d₁) ∧
        exec (lookAt tools env file) d₁ = (.ok false, d₂) := by
  induction files generalizing d with
  | nil => simp [installFiles, hclean]
  | cons file files ih =>
    have hlook := @installFile_lookAt tools env manifest ready file d
    have hsame := (@untouched_lookAt tools env file d).2
    rw [installFiles, exec_bind]
    constructor
    · intro hfinding
      split at hlook <;> rename_i d₁ hexec <;> rw [hexec] at hsame
      · rw [hlook] at hfinding
        exact absurd (hsame ▸ hfinding) hclean
      · rw [hlook] at hfinding
        obtain ⟨passed, other, rest, ready', d₂, d₃, rfl, hpassed, hother⟩ :=
          (ih (hsame.symm ▸ hclean)).mp hfinding
        refine ⟨file :: passed, other, rest, ready', d₂, d₃, rfl, ?_, hother⟩
        rw [installFiles, exec_bind, hlook]
        exact hpassed
      · exact ⟨[], file, files, ready, d, d₁, rfl, rfl, hexec⟩
    · rintro ⟨passed, other, rest, ready', d₁, d₂, hsplit, hpassed, hother⟩
      cases passed with
      | nil =>
        obtain ⟨rfl, rfl⟩ := List.cons.inj hsplit
        cases hpassed
        rw [hother] at hlook
        obtain ⟨x, hx, hrest⟩ := hlook
        have hnoted := hx { d₂ with notes := d₂.notes ++ [.finding] }
          (List.mem_append_right _ List.mem_cons_self)
        rw [← hrest] at hnoted
        cases hexec : exec (installFile tools env manifest ready file) d with
        | mk result d₃ =>
          rw [hexec] at hnoted
          cases result with
          | error error => exact hnoted
          | ok ready₁ => exact recalls_installFiles manifest ready₁ files d₃ hnoted
      | cons first passed =>
        obtain ⟨rfl, rfl⟩ := List.cons.inj hsplit
        obtain ⟨ready₁, d₃, hfirst, hpassed⟩ := bind_ok.mp hpassed
        rw [hfirst]
        split at hlook <;> rename_i d₄ hexec <;> rw [hexec] at hsame
        · rw [hlook] at hfirst
          cases hfirst
        · rw [hlook] at hfirst
          cases hfirst
          exact (ih (hsame.symm ▸ hclean)).mpr
            ⟨passed, other, rest, ready', d₁, d₂, rfl, hpassed, hother⟩
        · obtain ⟨x, hx, hrest⟩ := hlook
          have hnoted := hx { d₄ with notes := d₄.notes ++ [.finding] }
            (List.mem_append_right _ List.mem_cons_self)
          rw [← hrest, hfirst] at hnoted
          exact recalls_installFiles manifest ready₁ _ d₃ hnoted

theorem exec_download (manifest : SnapshotManifest) (d : Disk Note) :
    exec (downloadSnapshotFiles tools env manifest) d =
      exec (opening tools env manifest >>= fun ready =>
        installFiles tools env manifest ready manifest.files >>= publish tools env manifest) d := by
  simp only [downloadSnapshotFiles, opening, bind_assoc, pure_bind]

theorem clean_opening {manifest : SnapshotManifest} {d d' : Disk Note} {result : Except Text Bool}
    (hclean : .finding ∉ d.notes) (h : exec (opening tools env manifest) d = (result, d')) :
    .finding ∉ d'.notes := by
  have hsave : ∀ ready, Moves (fun d d' : Disk Note => .finding ∉ d.notes → .finding ∉ d'.notes)
      (saveIncomplete tools env manifest ready) := by
    intro ready d hclean
    unfold saveIncomplete
    split
    · exact hclean
    · rcases saveManifest_cases tools env manifest d with ⟨error, -, hexec⟩ | hexec
      · rwa [hexec]
      · rw [hexec]
        simp [hclean]
  have hsame : ∀ d d' : Disk Note, Untouched d d' → .finding ∉ d.notes → .finding ∉ d'.notes :=
    fun d d' hsame hclean => hsame.2.symm ▸ hclean
  have htrans : ∀ d d' d'' : Disk Note, (.finding ∉ d.notes → .finding ∉ d'.notes) →
      (.finding ∉ d'.notes → .finding ∉ d''.notes) → .finding ∉ d.notes → .finding ∉ d''.notes :=
    fun _ _ _ h h' hclean => h' (h hclean)
  refine Moves.run (R := fun d d' : Disk Note => .finding ∉ d.notes → .finding ∉ d'.notes) ?_ h hclean
  refine ((Moves.demand Untouched.refl _ _).mono hsame).bind (fun _ => ?_) htrans
  refine ((untouched_previouslyComplete manifest).mono hsame).bind (fun ready => ?_) htrans
  exact (hsave ready).bind (fun _ => .pure (fun _ h => h) _) htrans

theorem finding_publish (manifest : SnapshotManifest) (ready : Bool) {d : Disk Note}
    (hclean : .finding ∉ d.notes) :
    .finding ∈ (exec (publish tools env manifest ready) d).2.notes ↔
      (tools.inspectSnapshot d.tree).missing ≠ [] ∨
        (tools.inspectSnapshot d.tree).unknownFormat = true := by
  unfold publish checkLoading
  rw [exec_bind, exec_bind, exec_get]
  dsimp only
  by_cases hwrong : (tools.inspectSnapshot d.tree).missing ≠ [] ∨
      (tools.inspectSnapshot d.tree).unknownFormat = true
  · refine iff_of_true ?_ hwrong
    rw [if_pos hwrong]
    unfold refuse
    rw [exec_bind, exec_note]
    dsimp only
    have hnoted := (@recalls_invalidate tools env manifest ready)
      { d with notes := d.notes ++ [.finding] } (List.mem_append_right _ List.mem_cons_self)
    rw [exec_bind]
    cases hexec : exec (invalidate tools env manifest ready)
        { d with notes := d.notes ++ [.finding] } with
    | mk result d' =>
      rw [hexec] at hnoted
      cases result <;> exact hnoted
  · refine iff_of_false ?_ hwrong
    rw [if_neg hwrong, exec_pure]
    dsimp only
    rw [exec_bind]
    have hsame := (@untouched_checkCancelled env d).2
    cases hexec : exec (checkCancelled env) d with
    | mk result d' =>
      rw [hexec] at hsame
      have hclean' : .finding ∉ d'.notes := (show d'.notes = d.notes from hsame) ▸ hclean
      cases result with
      | error error => exact hclean'
      | ok _ =>
        rcases saveManifest_cases tools env { manifest with complete := true } d' with
          ⟨error, -, hsave⟩ | hsave
        · simp only [hsave]
          exact hclean'
        · simp only [hsave]
          simpa using hclean'

theorem finding_iff_found {manifest : SnapshotManifest} {d : Disk Note} (hclean : d.notes = []) :
    .finding ∈ (exec (downloadSnapshotFiles tools env manifest) d).2.notes ↔
      Found tools env manifest d := by
  have hstart : .finding ∉ d.notes := hclean ▸ List.not_mem_nil
  rw [exec_download, exec_bind]
  cases hopening : exec (opening tools env manifest) d with
  | mk result d₁ =>
    have hclean₁ := clean_opening hstart hopening
    cases result with
    | error error =>
      refine iff_of_false hclean₁ ?_
      rintro (⟨-, hother, -⟩ | ⟨hother, -⟩) <;> rw [hopening] at hother <;> cases hother
    | ok ready =>
      simp only
      rw [exec_bind]
      have hfiles := @finding_installFiles tools env manifest ready manifest.files _ hclean₁
      constructor
      · intro hfinding
        by_cases hnoted :
            .finding ∈ (exec (installFiles tools env manifest ready manifest.files) d₁).2.notes
        · obtain ⟨passed, file, rest, ready', d₂, d₃, hsplit, hpassed, hlook⟩ := hfiles.mp hnoted
          exact .file hsplit hopening hpassed hlook (fun h => Bool.false_ne_true h.1)
        · cases hexec : exec (installFiles tools env manifest ready manifest.files) d₁ with
          | mk result d₂ =>
            rw [hexec] at hnoted hfinding
            cases result with
            | error error => exact absurd hfinding hnoted
            | ok ready' =>
              exact .loading hopening hexec ((finding_publish manifest ready' hnoted).mp hfinding)
      · intro hfound
        cases hfound with
        | @file passed rest file ready₁ ready' there _ d₂ d₃ hsplit hother hpassed hlook hwrong =>
          rw [hopening] at hother
          cases hother
          cases there with
          | true => exact absurd ⟨rfl, lookAt_holds hlook⟩ hwrong
          | false =>
            have hnoted := hfiles.mpr ⟨_, _, _, _, _, _, hsplit, hpassed, hlook⟩
            cases hexec : exec (installFiles tools env manifest ready manifest.files) d₁ with
            | mk result d₄ =>
              rw [hexec] at hnoted
              cases result with
              | error error => exact hnoted
              | ok ready₂ => exact recalls_publish manifest ready₂ d₄ hnoted
        | @loading ready₁ ready' _ d₂ hother hpassed hwrong =>
          rw [hopening] at hother
          cases hother
          rw [hpassed]
          by_cases hnoted : .finding ∈ d₂.notes
          · exact recalls_publish manifest ready' d₂ hnoted
          · exact (finding_publish manifest ready' hnoted).mpr hwrong

/-- A step looks at the request to stop, and fails with it only where it saw it. -/
structure Stoppable {α : Type} (env : Surroundings) (x : Install α) : Prop where
  forward : Moves (fun d d' : Disk Note => d.clock ≤ d'.clock) x
  stops : ∀ d d', exec x d = (.error downloadCancelled, d') →
    ∃ n, d.clock ≤ n ∧ n < d'.clock ∧ env.host.cancelled n = true

namespace Stoppable

variable {α β : Type}

theorem bind {x : Install α} {f : α → Install β} (hx : Stoppable env x)
    (hf : ∀ a, Stoppable env (f a)) : Stoppable env (x >>= f) := by
  refine ⟨hx.forward.bind (fun a => (hf a).forward) fun _ _ _ => Nat.le_trans, fun d d' h => ?_⟩
  rcases bind_error.mp h with hfirst | ⟨a, d₁, hfirst, hrest⟩
  · exact hx.stops d d' hfirst
  · obtain ⟨n, hle, hlt, hn⟩ := (hf a).stops d₁ d' hrest
    exact ⟨n, (hx.forward.run hfirst).trans hle, hlt, hn⟩

theorem of_ne {x : Install α} (hforward : Moves (fun d d' : Disk Note => d.clock ≤ d'.clock) x)
    (hne : ∀ d, (exec x d).1 ≠ .error downloadCancelled) : Stoppable env x :=
  ⟨hforward, fun d _ h => absurd (congrArg Prod.fst h) (hne d)⟩

theorem pure (a : α) : Stoppable env (Pure.pure a : Install α) := .of_ne (fun _ => le_refl _) nofun

theorem throw {error : Text} (hne : error ≠ downloadCancelled) :
    Stoppable env (MonadExcept.throw error : Install α) :=
  .of_ne (fun _ => le_refl _) fun _ h => hne (Except.error.inj h)

theorem demand (p : Prop) [Decidable p] {error : Text} (hne : error ≠ downloadCancelled) :
    Stoppable env (Effect.demand p error : Install Unit) := by
  refine .of_ne (fun _ => le_refl _) fun d h => ?_
  simp only [Effect.demand, exec_ofExcept] at h
  split at h
  · cases h
  · exact hne (Except.error.inj h)

theorem ofOption (a : Option α) {error : Text} (hne : error ≠ downloadCancelled) :
    Stoppable env (Effect.ofExcept (orError a error) : Install α) := by
  refine .of_ne (fun _ => le_refl _) fun d h => ?_
  cases a with
  | none => exact hne (Except.error.inj h)
  | some a => cases h

theorem mapError {x : Install α} {f : Text → Text}
    (hforward : Moves (fun d d' : Disk Note => d.clock ≤ d'.clock) x)
    (hf : ∀ error, f error ≠ downloadCancelled) : Stoppable env (Effect.mapError f x) := by
  refine .of_ne (hforward.mapError f) fun d h => ?_
  rw [exec_mapError] at h
  cases hexec : (exec x d).1 with
  | ok a =>
    rw [hexec] at h
    cases h
  | error error =>
    rw [hexec] at h
    exact hf error (Except.error.inj h)

end Stoppable

theorem ne_cancelled {error : Text} (h : error.head? ≠ some 'm') : error ≠ downloadCancelled := by
  rintro rfl
  exact h rfl

theorem forward_look {α : Type} (f : Tree → Except Errno α) :
    Moves (fun d d' : Disk Note => d.clock ≤ d'.clock) (look env.host f : Install α) := by
  intro d
  rcases exec_look env.host f d with ⟨error, h⟩ | ⟨a, -, h⟩ <;> exact h ▸ Nat.le_succ _

theorem stoppable_checkCancelled : Stoppable env (checkCancelled env) := by
  have hexec : ∀ d : Disk Note, exec (checkCancelled env) d =
      (if env.host.cancelled d.clock = true then .error downloadCancelled else .ok (), d.tick) := by
    intro d
    rw [checkCancelled, exec_bind, exec_stopped]
    dsimp only
    split <;> rfl
  refine ⟨fun d => by rw [hexec]; exact Nat.le_succ _, fun d d' h => ?_⟩
  rw [hexec] at h
  split at h
  · rename_i hcancelled
    cases h
    exact ⟨d.clock, le_refl _, Nat.lt_succ_self _, hcancelled⟩
  · cases h

theorem stoppable_hashedContent (algorithm : Algorithm) (path : Text) :
    Stoppable env (hashedContent env algorithm path) := by
  refine .bind (.mapError (forward_look _) fun _ => ne_cancelled nofun) fun content => ?_
  refine .bind stoppable_checkCancelled fun _ => ?_
  exact .bind (.mapError (forward_look _) fun _ => ne_cancelled nofun) fun _ => .pure _

theorem stoppable_verifyFileDigest (file : SnapshotFile) :
    Stoppable env (verifyFileDigest tools env file) := by
  refine .bind stoppable_checkCancelled fun _ => ?_
  refine .bind (.ofOption _ (ne_cancelled nofun)) fun oid => ?_
  refine .bind (.ofOption _ (ne_cancelled nofun)) fun found => ?_
  refine .bind (.mapError (forward_look _) fun _ => ne_cancelled nofun) fun node => ?_
  split
  · refine .bind (.demand _ (ne_cancelled nofun)) fun _ => ?_
    exact .bind (stoppable_hashedContent _ _) fun read => .demand _ (ne_cancelled nofun)
  · exact .throw (ne_cancelled nofun)

theorem stoppable_verifyPublished (file : SnapshotFile) {failed : Text}
    (hfailed : failed.head? ≠ some 'm') (hne : failed ≠ []) :
    Stoppable env (verifyPublished tools env file failed) := by
  unfold verifyPublished
  split
  · have hdigest := @stoppable_verifyFileDigest tools env file
    refine ⟨hdigest.forward.mapError _, fun d d' h => ?_⟩
    rw [exec_mapError] at h
    cases hexec : exec (verifyFileDigest tools env file) d with
    | mk result d₁ =>
      rw [hexec] at h
      cases result with
      | ok _ => cases h
      | error error =>
        obtain ⟨herror, rfl⟩ := Prod.mk.inj h
        have herror := Except.error.inj herror
        by_cases hcancelled : error = downloadCancelled
        · exact hdigest.stops d d₁ (hcancelled ▸ hexec)
        · simp only [if_neg hcancelled] at herror
          refine absurd herror (ne_cancelled ?_)
          cases failed with
          | nil => exact absurd rfl hne
          | cons c rest => exact hfailed
  · exact .pure _

theorem stoppable_verifyExisting (file : SnapshotFile) :
    Stoppable env (verifyExisting tools env file) := by
  refine .bind (.mapError (forward_look _) fun _ => ne_cancelled nofun) fun node => ?_
  split
  · exact .pure _
  · refine .bind (.demand _ (ne_cancelled nofun)) fun _ => ?_
    exact .bind (stoppable_verifyPublished file nofun nofun) fun _ => .pure _
  · exact .throw (ne_cancelled nofun)

theorem forward_checkedDestination (relative : Text) :
    Moves (fun d d' : Disk Note => d.clock ≤ d'.clock) (checkedDestination env relative false) := by
  have hrefl : ∀ d : Disk Note, d.clock ≤ d.clock := fun _ => le_refl _
  have htrans : ∀ d d' d'' : Disk Note, d.clock ≤ d'.clock → d'.clock ≤ d''.clock →
      d.clock ≤ d''.clock := fun _ _ _ => Nat.le_trans
  refine (Moves.ofExcept hrefl _).bind (fun _ => .forM (fun folder _ => ?_) hrefl htrans) htrans
  refine (Moves.observe (forward_look _)).bind (fun there => ?_) htrans
  split
  · exact (forward_look _).bind (fun _ => .demand hrefl _ _) htrans
  · exact .pure hrefl _

/-- Only a request to stop keeps a run from seeing what a file is. -/
theorem lookAt_stopped {file : SnapshotFile} {error : Text} {d d' : Disk Note}
    (h : exec (lookAt tools env file) d = (.error error, d')) :
    ∃ n, d.clock ≤ n ∧ n < d'.clock ∧ env.host.cancelled n = true := by
  rcases bind_error.mp h with hfirst | ⟨_, d₁, hfirst, hrest⟩
  · have hcancelled : error = downloadCancelled := by
      rw [checkCancelled, exec_bind, exec_stopped] at hfirst
      dsimp only at hfirst
      split at hfirst
      · exact (Except.error.inj (Prod.mk.inj hfirst).1).symm
      · cases hfirst
    exact stoppable_checkCancelled.stops d d' (hcancelled ▸ hfirst)
  · obtain ⟨checked, d₂, hchecked, hrest⟩ := (bind_error.mp hrest).resolve_left nofun
    have hle := (stoppable_checkCancelled.forward.run hfirst).trans
      ((forward_checkedDestination file.path).run (observe_eq.mp hchecked))
    cases checked with
    | error error => cases hrest
    | ok _ =>
      obtain ⟨verified, d₃, hverified, hrest⟩ := (bind_error.mp hrest).resolve_left nofun
      cases verified with
      | ok there => cases hrest
      | error error' =>
        dsimp only at hrest
        split at hrest
        · rename_i hcancelled
          cases hrest
          obtain ⟨n, hn, hlt, hsaw⟩ := (stoppable_verifyExisting file).stops d₂ d'
            (hcancelled ▸ observe_eq.mp hverified)
          exact ⟨n, hle.trans hn, hlt, hsaw⟩
        · cases hrest

end Finding

end Steps

section Truth

variable {manifest : SnapshotManifest} {d : Disk Note}

/-- What holds of every run, from its folder to the folder it leaves. -/
structure Truthful (tools : Tools) (env : Surroundings) (manifest : SnapshotManifest)
    (before : Tree) (result : Except Text Unit) (d : Disk Note) : Prop where
  complete : ∀ m, .wrote m ∈ d.notes → m.complete = true →
    m = { manifest with complete := true } ∧ ∀ file ∈ manifest.files, Holds tools d.tree file
  ok : result = .ok () →
    Tree.content d.tree snapshotManifest = some (tools.pretty { manifest with complete := true }) ∧
      ∀ file ∈ manifest.files, Holds tools d.tree file
  incomplete : (∀ n, env.unsaved n = none) → Found tools env manifest { tree := before } →
    Incomplete tools manifest d.tree ∨ result = .ok ()
  stopped : ∀ file d₁ error d₂, exec (lookAt tools env file) d₁ = (.error error, d₂) →
    ∃ n, d₁.clock ≤ n ∧ n < d₂.clock ∧ env.host.cancelled n = true
  unchanged : ∀ error, result = .error error → ¬ Found tools env manifest { tree := before } →
    Ready tools before → d.tree.get snapshotManifest = before.get snapshotManifest
  kept : Kept before d.tree

theorem downloadSnapshotFiles_truthful {tools : Tools} {env : Surroundings} {before : Tree}
    (hfalse : manifest.complete = false)
    (hpaths : ∀ file ∈ manifest.files, file.path ≠ snapshotManifest) :
    Truthful tools env manifest before
      (exec (downloadSnapshotFiles tools env manifest) { tree := before }).1
      (exec (downloadSnapshotFiles tools env manifest) { tree := before }).2 := by
  have hrecorded := @downloadSnapshotFiles_recorded tools env manifest _ hfalse hpaths
    (show (⟨before, 0, []⟩ : Disk Note).notes = [] from rfl)
  have hfound := @finding_iff_found tools env manifest _
    (show (⟨before, 0, []⟩ : Disk Note).notes = [] from rfl)
  constructor
  case complete => exact hrecorded.complete
  case ok =>
    intro hok
    obtain ⟨hcontent, hwrote⟩ := hrecorded.ok hok
    exact ⟨hcontent, (hrecorded.complete _ hwrote rfl).2⟩
  case incomplete => exact fun hsaved h => hrecorded.incomplete hsaved (hfound.mpr h)
  case stopped => exact fun _ _ _ _ => lookAt_stopped
  case unchanged =>
    exact fun error herror h => hrecorded.unchanged error herror fun hnoted => h (hfound.mp hnoted)
  case kept => exact hrecorded.kept

end Truth

theorem planFiles_safe {seen : List Text} {entries : List ApiTreeEntry} {files : List SnapshotFile}
    (h : planFiles seen entries = .ok files) :
    ∀ file ∈ files, safeDataFile file.path = .ok () := by
  induction entries generalizing seen files with
  | nil =>
    cases h
    exact nofun
  | cons entry entries ih =>
    simp only [planFiles, bind_eq_ok, pure, Except.pure, Except.ok.injEq] at h
    obtain ⟨⟨⟩, hsafe, _, -, _, -, rest, hrest, rfl⟩ := h
    exact List.forall_mem_cons.mpr ⟨hsafe, ih hrest⟩

theorem planSnapshot_paths {entries : List ApiTreeEntry} {files : List SnapshotFile}
    (h : planSnapshot entries = .ok files) : ∀ file ∈ files, file.path ≠ snapshotManifest := by
  simp only [planSnapshot, bind_eq_ok, pure, Except.pure, Except.ok.injEq] at h
  obtain ⟨planned, hplanned, _, -, _, -, _, -, rfl⟩ := h
  intro file hfile heq
  have hsafe := planFiles_safe hplanned file hfile
  rw [heq, safeDataFile, bind_eq_ok] at hsafe
  obtain ⟨_, -, hown⟩ := hsafe
  rw [require_eq_ok] at hown
  exact absurd hown (by decide)

/-- A run that took place. -/
structure Download where
  before : Tree
  manifest : SnapshotManifest
  env : Surroundings
  result : Except Text Unit
  after : Disk Note

/-- The folder, and the runs on it so far. -/
structure Shelf where
  tree : Tree
  downloads : List Download := []

/-- Between runs anything may become of the folder. -/
inductive Action where
  | disturb (tree : Tree)
  | download (repository revision : Text) (entries : List ApiTreeEntry) (env : Surroundings)

def downloadStep (tools : Tools) (w : Shelf) (manifest : SnapshotManifest) (env : Surroundings) :
    Shelf :=
  let (result, after) := exec (downloadSnapshotFiles tools env manifest) { tree := w.tree }
  { w with
    tree := after.tree
    downloads := ⟨w.tree, manifest, env, result, after⟩ :: w.downloads }

def step (tools : Tools) (w : Shelf) : Action → Option Shelf
  | .disturb tree => some { w with tree := tree }
  | .download repository revision entries env =>
    match planSnapshot entries with
    | .error _ => some w
    | .ok files => some (downloadStep tools w (plannedManifest repository revision files) env)

def Download.Truthful (tools : Tools) (run : Download) : Prop :=
  Discover.Truthful tools run.env run.manifest run.before run.result run.after

theorem step_truthful {tools : Tools} {w w' : Shelf} {a : Action}
    (h : ∀ run ∈ w.downloads, run.Truthful tools) (hstep : step tools w a = some w') :
    ∀ run ∈ w'.downloads, run.Truthful tools := by
  cases a with
  | disturb tree =>
    cases hstep
    exact h
  | download repository revision entries env =>
    simp only [step] at hstep
    cases hplan : planSnapshot entries with
    | error error =>
      rw [hplan] at hstep
      cases hstep
      exact h
    | ok files =>
      rw [hplan] at hstep
      cases hstep
      exact List.forall_mem_cons.mpr
        ⟨downloadSnapshotFiles_truthful rfl (planSnapshot_paths hplan), h⟩

/-- In any sequence of runs on one folder the manifest is truthful. -/
theorem snapshots_truthful {tools : Tools} {t : Tree} {w : Shelf}
    (hrun : Runs.Reaches (step tools) (fun _ _ => True) { tree := t } w) :
    ∀ run ∈ w.downloads, run.Truthful tools := by
  have hkeep : ∀ (s s' : Shelf) (a : Action), (∀ run ∈ s.downloads, run.Truthful tools) → True →
      step tools s a = some s' → ∀ run ∈ s'.downloads, run.Truthful tools :=
    fun _ _ _ h _ hstep => step_truthful h hstep
  exact hrun.invariant (List.forall_mem_nil _) hkeep

def sampleTools : Tools where
  hashes := ⟨id, id⟩
  pretty manifest := if manifest.complete then [1] else [0]
  parse _ := .error []
  validateRepoId _ := .ok ()
  inspectSnapshot _ := ⟨[], false⟩

/-- The hub answers with one byte for every file. -/
def sampleSurroundings : Surroundings where
  host := { message := fun _ => [] }
  responses _ := .body [.ok [7]]
  unique n := Nat.toDigits 10 n

def sampleEntries : List ApiTreeEntry :=
  ["config.json", "tokenizer.json", "model.safetensors"].map fun path =>
    ⟨path.toList, 1, none, none, "file".toList⟩

def sampleActions : List Action :=
  [.download "owner/model".toList (List.replicate 40 'a') sampleEntries sampleSurroundings]

/-- A first download goes through. -/
theorem snapshots_truthful_fresh : ∃ w,
    Runs.run (step sampleTools) { tree := .empty } sampleActions = some w ∧
      w.downloads.any (fun run => run.result.isOk) = true ∧
      ∀ run ∈ w.downloads, run.Truthful sampleTools := by
  have hdone : (Runs.run (step sampleTools) { tree := .empty } sampleActions).any
      (fun w => w.downloads.any fun run => run.result.isOk) = true := by decide +kernel
  obtain ⟨w, hw, hok⟩ := (Option.any_eq_true _ _).mp hdone
  exact ⟨w, hw, hok, snapshots_truthful (.of_run sampleActions (fun _ _ _ => trivial) hw)⟩

end AioLM.Discover
