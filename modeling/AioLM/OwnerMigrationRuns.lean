import AioLM.OwnerMigration

/-!
Runs of the migration: no call touches a record that is there, and a registry that is
moved aside leaves a readable record for each valid entry, unless a write failed on the way.
-/

set_option autoImplicit false

namespace AioLM.Owners

open Effect Runs

variable {pkg : Packages} {D : Set Bytes} {R : Set Record} {file : LegacyFile} {call : Call}
  {s t u : Store}

/-- A valid entry of the previous registry, and the name of its record. -/
structure Owed (pkg : Packages) (file : LegacyFile) (submissionId : Text) (entry : LegacyEntry)
    (name : Text) : Prop where
  listed : file.bindings.get submissionId = some entry
  valid : validateRecord pkg (entry.record submissionId) = .ok ()
  named : recordName pkg submissionId = .ok name

/-- The promises about the packages speak of the entries of the registry. -/
structure Covered (D : Set Bytes) (R : Set Record) (file : LegacyFile) : Prop where
  id : ∀ submissionId entry, file.bindings.get submissionId = some entry →
    TextBytes.encode submissionId ∈ D
  record : ∀ submissionId entry, file.bindings.get submissionId = some entry →
    entry.record submissionId ∈ R

/-- At the names of records a file only ever comes where nothing was, and it is the one of
a valid entry. -/
def Grows (pkg : Packages) (file : LegacyFile) (s t : Store) : Prop :=
  ∀ submissionId name, recordName pkg submissionId = .ok name → t.owner name = s.owner name ∨
    s.owner name = none ∧ ∃ other entry content, Owed pkg file other entry name ∧
      pkg.toVec (entry.record other) = some content ∧ t.owner name = some (.file (some content))

theorem Grows.refl (pkg : Packages) (file : LegacyFile) (s : Store) : Grows pkg file s s :=
  fun _ _ _ => .inl rfl

theorem Grows.trans (h : Grows pkg file s t) (h' : Grows pkg file t u) : Grows pkg file s u := by
  intro submissionId name hname
  rcases h submissionId name hname with hsame | ⟨hnone, hfile⟩ <;>
    rcases h' submissionId name hname with hsame' | ⟨hnone', hfile'⟩
  · exact .inl (hsame'.trans hsame)
  · exact .inr ⟨hsame ▸ hnone', hfile'⟩
  · exact .inr ⟨hnone, by rwa [hsame']⟩
  · obtain ⟨other, entry, content, -, -, hthere⟩ := hfile
    rw [hthere] at hnone'
    cases hnone'

theorem Grows.kept (h : Grows pkg file s t) {submissionId name : Text} {node : Node}
    (hname : recordName pkg submissionId = .ok name) (hnode : s.owner name = some node) :
    t.owner name = some node := by
  rcases h submissionId name hname with hsame | ⟨hnone, -⟩
  · exact hsame.trans hnode
  · rw [hnode] at hnone
    cases hnone

theorem exec_writeRecordFile {record : Record} {name : Text} {content : Bytes}
    (hvalid : validateRecord pkg record = .ok ()) (hcontent : pkg.toVec record = some content) :
    exec (writeRecordFile pkg call name record) s =
      exec (atomicWrite call record.submissionId name content) s := by
  unfold writeRecordFile
  rw [exec_bind, hvalid]
  simp only [Except.mapError, exec_ofExcept, hcontent]

/-- What migrating one entry does, when it has a record to write. -/
structure Migrated (pkg : Packages) (call : Call) (submissionId : Text) (entry : LegacyEntry)
    (name : Text) (result : Except Stop Unit) (s t : Store) : Prop where
  legacy : t.legacy = s.legacy
  archived : t.archived = s.archived
  others : ∀ n, n ≠ name → n ≠ tempName name (call.uuid submissionId) → t.owner n = s.owner n
  here : (∃ content, result = .ok () ∧ pkg.toVec (entry.record submissionId) = some content ∧
      t.owner name = some (.file (some content))) ∨
    t.owner name = none ∧ (result = .error .crashed ∨
      result = .ok () ∧ Obstructed call submissionId (tempName name (call.uuid submissionId)) name s)

theorem exec_migrateEntry (h : Lawful pkg D R) (hcovered : Covered D R file)
    {submissionId : Text} {entry : LegacyEntry}
    (hlisted : file.bindings.get submissionId = some entry) {result : Except Stop Unit}
    (hexec : exec (migrateEntry pkg call submissionId entry) s = (result, t)) :
    result = .ok () ∧ t = s ∧ (∀ name, Owed pkg file submissionId entry name → s.owner name ≠ none) ∨
      ∃ name, Owed pkg file submissionId entry name ∧ s.owner name = none ∧
        Migrated pkg call submissionId entry name result s t := by
  unfold migrateEntry at hexec
  by_cases hvalid : validateRecord pkg (entry.record submissionId) = .ok ()
  swap
  · simp only [hvalid, if_false, exec_pure, Prod.mk.injEq] at hexec
    exact .inl ⟨hexec.1.symm, hexec.2.symm, fun name howed => absurd howed.valid hvalid⟩
  simp only [hvalid, if_true] at hexec
  cases hname : recordName pkg submissionId with
  | error error =>
    simp only [hname, exec_pure, Prod.mk.injEq] at hexec
    refine .inl ⟨hexec.1.symm, hexec.2.symm, fun name howed => ?_⟩
    have hnamed := howed.named
    rw [hname] at hnamed
    cases hnamed
  | ok name =>
    have howed : Owed pkg file submissionId entry name := ⟨hlisted, hvalid, hname⟩
    simp only [hname] at hexec
    rw [exec_bind, exec_get] at hexec
    by_cases hvacant : s.owner name = none
    swap
    · simp only [hvacant, if_false, exec_pure, Prod.mk.injEq] at hexec
      refine .inl ⟨hexec.1.symm, hexec.2.symm, fun other hother => ?_⟩
      cases hname.symm.trans hother.named
      exact hvacant
    simp only [hvacant, if_true] at hexec
    obtain ⟨content, hcontent, -⟩ := h.written _ (hcovered.record _ _ hlisted)
    rw [exec_attempt, exec_writeRecordFile hvalid hcontent] at hexec
    refine .inr ⟨name, howed, hvacant, ?_⟩
    have hne : tempName name (call.uuid submissionId) ≠ name := tempName_ne h hname
    cases hwrite : exec (atomicWrite call (entry.record submissionId).submissionId name content) s with
    | mk written t' =>
    rw [hwrite] at hexec
    rcases exec_atomicWrite hne hwrite with ⟨rfl, hlegacy, harchived, hthere, hothers⟩ |
      ⟨hquiet, hstop⟩
    · simp only [Prod.mk.injEq] at hexec
      obtain ⟨rfl, rfl⟩ := hexec
      exact ⟨hlegacy, harchived, hothers, .inl ⟨content, rfl, hcontent, hthere⟩⟩
    · have hnone := (hquiet.others name hne.symm).trans hvacant
      rcases hstop with rfl | ⟨rfl, hobstructed⟩
      · simp only [Prod.mk.injEq] at hexec
        obtain ⟨rfl, rfl⟩ := hexec
        exact ⟨hquiet.legacy, hquiet.archived, fun n _ hn => hquiet.others n hn,
          .inr ⟨hnone, .inl rfl⟩⟩
      · simp only [Prod.mk.injEq] at hexec
        obtain ⟨rfl, rfl⟩ := hexec
        exact ⟨hquiet.legacy, hquiet.archived, fun n _ hn => hquiet.others n hn,
          .inr ⟨hnone, .inr ⟨rfl, hobstructed⟩⟩⟩

theorem Migrated.grows {submissionId name : Text} {entry : LegacyEntry} {result : Except Stop Unit}
    (hm : Migrated pkg call submissionId entry name result s t) (h : Lawful pkg D R)
    (howed : Owed pkg file submissionId entry name) (hvacant : s.owner name = none) :
    Grows pkg file s t := by
  intro other n hn
  by_cases hname : n = name
  · subst hname
    rcases hm.here with ⟨content, -, hcontent, hthere⟩ | ⟨hnone, -⟩
    · exact .inr ⟨hvacant, submissionId, entry, content, howed, hcontent, hthere⟩
    · exact .inl (hnone.trans hvacant.symm)
  · exact .inl (hm.others n hname (tempName_ne h hn).symm)

/-- A write of a record that is missing has nothing in its way. -/
def Clear (pkg : Packages) (file : LegacyFile) (call : Call) (s : Store) (submissionId : Text) :
    Prop :=
  ∀ entry name, Owed pkg file submissionId entry name → s.owner name = none →
    ¬ Obstructed call submissionId (tempName name (call.uuid submissionId)) name s

theorem Migrated.clear {submissionId other name : Text} {entry : LegacyEntry}
    {result : Except Stop Unit} (hm : Migrated pkg call submissionId entry name result s t)
    (h : Lawful pkg D R) (howed : Owed pkg file submissionId entry name)
    (hid : TextBytes.encode submissionId ∈ D) (hother : TextBytes.encode other ∈ D)
    (hne : other ≠ submissionId) (hclear : Clear pkg file call s other) :
    Clear pkg file call t other := by
  intro entry' name' howed' hvacant'
  have hnames : name' ≠ name := by
    rintro rfl
    exact hne (recordName_inj h hother hid howed'.named howed.named)
  have htemp : tempName name' (call.uuid other) ≠ tempName name (call.uuid submissionId) := by
    intro hsame
    exact hnames (tempName_inj ((length_recordName h howed'.named).trans
      (length_recordName h howed.named).symm) hsame)
  have hname := hm.others name' hnames (tempName_ne h howed'.named).symm
  have hfresh := hm.others _ (tempName_ne h howed.named) htemp
  have hclear' := hclear entry' name' howed' (hname ▸ hvacant')
  unfold Obstructed at hclear' ⊢
  rwa [hname, hfresh]

theorem exec_migrateEntries (h : Lawful pkg D R) (hcovered : Covered D R file)
    {bindings : List (Text × LegacyEntry)}
    (hlisted : ∀ b ∈ bindings, file.bindings.get b.1 = some b.2) {result : Except Stop Unit}
    (hexec : exec (migrateEntries pkg call bindings) s = (result, t)) :
    t.legacy = s.legacy ∧ t.archived = s.archived ∧ Grows pkg file s t := by
  induction bindings generalizing s with
  | nil =>
    simp only [migrateEntries, exec_pure, Prod.mk.injEq] at hexec
    obtain ⟨-, rfl⟩ := hexec
    exact ⟨rfl, rfl, .refl pkg file s⟩
  | cons binding bindings ih =>
    obtain ⟨submissionId, entry⟩ := binding
    obtain ⟨hfirst, hrest⟩ := List.forall_mem_cons.mp hlisted
    rw [migrateEntries, exec_bind] at hexec
    cases hentry : exec (migrateEntry pkg call submissionId entry) s with
    | mk first u =>
    have hmoved : u.legacy = s.legacy ∧ u.archived = s.archived ∧ Grows pkg file s u := by
      rcases exec_migrateEntry h hcovered hfirst hentry with ⟨-, rfl, -⟩ | ⟨name, howed, hvacant, hm⟩
      · exact ⟨rfl, rfl, .refl pkg file u⟩
      · exact ⟨hm.legacy, hm.archived, hm.grows h howed hvacant⟩
    rw [hentry] at hexec
    cases first with
    | error stop =>
      simp only [Prod.mk.injEq] at hexec
      obtain ⟨-, rfl⟩ := hexec
      exact hmoved
    | ok x =>
      obtain ⟨hlegacy, harchived, hgrows⟩ := ih hrest hexec
      exact ⟨hlegacy.trans hmoved.1, harchived.trans hmoved.2.1, hmoved.2.2.trans hgrows⟩

/-- A pass that comes to its end with nothing in its way leaves each entry its record. -/
theorem migrateEntries_complete (h : Lawful pkg D R) (hcovered : Covered D R file)
    {bindings : List (Text × LegacyEntry)}
    (hlisted : ∀ b ∈ bindings, file.bindings.get b.1 = some b.2)
    (hkeys : (bindings.map (·.1)).Nodup)
    (hclear : ∀ b ∈ bindings, Clear pkg file call s b.1) {x : Unit}
    (hexec : exec (migrateEntries pkg call bindings) s = (.ok x, t)) :
    ∀ b ∈ bindings, ∀ name, Owed pkg file b.1 b.2 name → (t.owner name).isSome := by
  induction bindings generalizing s with
  | nil => simp
  | cons binding bindings ih =>
    obtain ⟨submissionId, entry⟩ := binding
    obtain ⟨hfirst, hrest⟩ := List.forall_mem_cons.mp hlisted
    obtain ⟨hclear, hclears⟩ := List.forall_mem_cons.mp hclear
    rw [List.map_cons, List.nodup_cons] at hkeys
    obtain ⟨hnew, hkeys⟩ := hkeys
    obtain ⟨_, u, hentry, hentries⟩ := bind_ok.mp hexec
    have hgrows := (exec_migrateEntries h hcovered hrest hentries).2.2
    have hkept {name : Text} (howed : Owed pkg file submissionId entry name)
        (hthere : (u.owner name).isSome) : (t.owner name).isSome := by
      obtain ⟨node, hnode⟩ := Option.isSome_iff_exists.mp hthere
      rw [hgrows.kept howed.named hnode]
      rfl
    have hone : (∀ name, Owed pkg file submissionId entry name → (u.owner name).isSome) ∧
        ∀ b ∈ bindings, Clear pkg file call u b.1 := by
      rcases exec_migrateEntry h hcovered hfirst hentry with
        ⟨-, rfl, hpresent⟩ | ⟨name, howed, hvacant, hm⟩
      · exact ⟨fun name howed => Option.isSome_iff_ne_none.mpr (hpresent name howed), hclears⟩
      · refine ⟨fun other hother => ?_, fun b hb => ?_⟩
        · cases howed.named.symm.trans hother.named
          rcases hm.here with ⟨content, -, -, hthere⟩ | ⟨-, hcrashed | ⟨-, hobstructed⟩⟩
          · rw [hthere]
            rfl
          · cases hcrashed
          · exact absurd hobstructed (hclear entry name howed hvacant)
        · refine hm.clear h howed (hcovered.id _ _ hfirst) (hcovered.id _ _ (hrest b hb)) ?_
            (hclears b hb)
          rintro rfl
          exact hnew (List.mem_map.mpr ⟨b, hb, rfl⟩)
    refine List.forall_mem_cons.mpr ⟨fun name howed => hkept howed (hone.1 name howed), ?_⟩
    exact ih hrest hkeys hone.2 hentries

/-- What a call leaves of a registry it found. -/
structure Called (pkg : Packages) (file : LegacyFile) (call : Call) (s t : Store) : Prop where
  grows : Grows pkg file s t
  legacy : t.legacy = s.legacy ∨ t.legacy = none
  complete : s.legacy.isSome → t.legacy = none → call.outcome .retire = .happens ∧
    ((∀ id, Clear pkg file call s id) → ∀ id entry name, Owed pkg file id entry name →
      (t.owner name).isSome)

theorem Called.of_legacy (hgrows : Grows pkg file s t) (hlegacy : t.legacy = s.legacy) :
    Called pkg file call s t := by
  refine ⟨hgrows, .inl hlegacy, fun hthere hnone => ?_⟩
  rw [← hlegacy, hnone] at hthere
  cases hthere

theorem Called.refl : Called pkg file call s s := .of_legacy (.refl pkg file s) rfl

theorem Called.operate {op : Operation} {f : Unit → Migrating Unit}
    (h : Called pkg file call s (exec (f ()) s).2) :
    Called pkg file call s (exec (operate call op some >>= f) s).2 := by
  refine bind_cases (P := fun r => Called pkg file call s r.2) (fun stop t hstop => ?_)
    fun x t hok => ?_
  · rw [(operate_error hstop).1]
    exact .refl
  · cases Option.some.inj (operate_ok hok)
    exact h

theorem Called.ensureMigrated (h : Lawful pkg D R) (hcovered : Covered D R file) {content : Bytes}
    (hlegacy : s.legacy = some content)
    (hparse : pkg.legacyFromSlice (content.take (maxLegacyBytes + 1)) = some file) :
    Called pkg file call s (exec (ensureMigrated pkg call) s).2 := by
  unfold Owners.ensureMigrated
  rw [exec_bind, exec_get]
  simp only [hlegacy, reduceCtorEq, if_false]
  refine .operate (.operate (.operate ?_))
  rw [exec_bind, exec_get]
  simp only [hlegacy]
  refine .operate ?_
  simp only [hparse]
  by_cases hversion : file.version = 1
  swap
  · simp only [hversion, ne_eq, not_false_eq_true, if_true]
    exact .refl
  simp only [hversion, ne_eq, not_true_eq_false, if_false]
  refine bind_cases (P := fun r => Called pkg file call s r.2) (fun stop t hstop => ?_)
    fun x s₁ hcreate => ?_
  · rw [(operate_error hstop).1]
    exact .refl
  have hcreated : s₁.legacy = s.legacy ∧ ∀ n, s₁.owner n = s.owner n := by
    have hcreate := operate_ok hcreate
    refine ⟨?_, owner_createOwners hcreate⟩
    cases Option.some.inj hcreate
    rfl
  have hgrown : Grows pkg file s s₁ := fun _ name _ => .inl (hcreated.2 name)
  have hlisted : ∀ b ∈ call.order file.bindings.entries, file.bindings.get b.1 = some b.2 :=
    fun b hb => KeyMap.get_eq_some.mpr ((call.perm _).mem_iff.mp hb)
  refine bind_cases (P := fun r => Called pkg file call s r.2) (fun stop t hentries => ?_)
    fun x s₂ hentries => ?_
  · obtain ⟨hsame, -, hgrows⟩ := exec_migrateEntries h hcovered hlisted hentries
    exact .of_legacy (hgrown.trans hgrows) (hsame.trans hcreated.1)
  obtain ⟨hsame, -, hgrows⟩ := exec_migrateEntries h hcovered hlisted hentries
  have hunretired : Called pkg file call s s₂ :=
    .of_legacy (hgrown.trans hgrows) (hsame.trans hcreated.1)
  rw [exec_bind, exec_get]
  simp only
  cases harchive : archiveName call s₂ with
  | none => exact hunretired
  | some name =>
    simp only
    cases hretire : exec (Owners.operate call .retire (retire name)) s₂ with
    | mk result t =>
    cases result with
    | error stop =>
      rw [(operate_error hretire).1]
      exact hunretired
    | ok x =>
      have hretired := operate_ok hretire
      unfold retire at hretired
      obtain ⟨old, -, rfl⟩ := Option.map_eq_some_iff.mp hretired
      refine ⟨(hunretired.grows : Grows pkg file s s₂), .inr rfl, fun _ _ => ⟨?_, ?_⟩⟩
      · rw [exec_operate] at hretire
        cases ho : call.outcome .retire <;> simp_all
      · intro hclear id entry name howed
        have hmem : (id, entry) ∈ call.order file.bindings.entries :=
          (call.perm _).mem_iff.mpr (KeyMap.get_eq_some.mp howed.listed)
        have hkeys : ((call.order file.bindings.entries).map (·.1)).Nodup :=
          ((call.perm _).map _).nodup_iff.mpr file.bindings.keys_nodup
        refine migrateEntries_complete h hcovered hlisted hkeys (fun b _ => ?_) hentries (id, entry)
          hmem name howed
        intro entry' name' howed' hvacant
        have hclear' := hclear b.1 entry' name' howed' (hcreated.2 name' ▸ hvacant)
        unfold Obstructed at hclear' ⊢
        rwa [hcreated.2, hcreated.2]

/-- Existing records are never overwritten. -/
def Preserved (pkg : Packages) (s₀ s : Store) : Prop :=
  ∀ submissionId name node, recordName pkg submissionId = .ok name →
    s₀.owner name = some node → s.owner name = some node

/-- Once the registry is moved aside, each valid entry has a readable record: the one that
was there, else its own data. -/
def Retained (pkg : Packages) (file : LegacyFile) (s₀ s : Store) : Prop :=
  s.legacy = none → ∀ submissionId entry name, Owed pkg file submissionId entry name →
    ∃ record, Readable pkg (s.owner name) record ∧
      ((s₀.owner name).isSome → Readable pkg (s₀.owner name) record) ∧
      (s₀.owner name = none → record = entry.record submissionId)

/-- No valid entry is in the way of losing its owner: what stands at its name can be read,
and where nothing does its record fits into a file that can be, and no write of it fails in
a call that can move the registry aside. -/
def Undisturbed (pkg : Packages) (s : Store) (call : Call) : Prop :=
  ∀ content file, s.legacy = some content →
    pkg.legacyFromSlice (content.take (maxLegacyBytes + 1)) = some file →
    ∀ submissionId entry name, Owed pkg file submissionId entry name →
      (∀ node, s.owner name = some node → ∃ record, Readable pkg (some node) record) ∧
      (s.owner name = none →
        (∀ bytes, pkg.toVec (entry.record submissionId) = some bytes → bytes.length ≤ maxRecordBytes) ∧
        (call.outcome .retire = .happens →
          ¬ Obstructed call submissionId (tempName name (call.uuid submissionId)) name s))

theorem migrate_of_none (h : s.legacy = none) (hstep : migrate pkg s call = some t) : t = s := by
  cases Option.some.inj hstep
  unfold ensureMigrated
  rw [exec_bind, exec_get]
  simp only [h, if_true]
  rfl

section Run

variable {s₀ : Store} {content : Bytes}

theorem Grows.held (h : Lawful pkg D R) (hcovered : Covered D R file) (hgrows : Grows pkg file s t)
    {submissionId name : Text} {entry : LegacyEntry} {node : Node}
    (howed : Owed pkg file submissionId entry name) (hvacant : s.owner name = none)
    (hnode : t.owner name = some node) : ∃ bytes, node = .file (some bytes) ∧
      pkg.toVec (entry.record submissionId) = some bytes ∧
      pkg.fromSlice bytes = some (entry.record submissionId) := by
  rcases hgrows submissionId name howed.named with
    hsame | ⟨-, other, entry', bytes, hother, hbytes, hthere⟩
  · rw [hnode, hvacant] at hsame
    cases hsame
  · have hid := recordName_inj h (hcovered.id _ _ howed.listed) (hcovered.id _ _ hother.listed)
      howed.named hother.named
    subst hid
    cases howed.listed.symm.trans hother.listed
    obtain ⟨bytes', hbytes', hread⟩ := h.written _ (hcovered.record _ _ howed.listed)
    cases hbytes.symm.trans hbytes'
    exact ⟨bytes, Option.some.inj (hnode.symm.trans hthere), hbytes, hread⟩

/-- The call that moves the registry aside leaves every entry its record. -/
theorem Called.retained (h : Lawful pkg D R) (hcovered : Covered D R file)
    (hlegacy : s.legacy = some content)
    (hparse : pkg.legacyFromSlice (content.take (maxLegacyBytes + 1)) = some file)
    (hgrows : Grows pkg file s₀ s) (hundisturbed : Undisturbed pkg s call)
    (hcalled : Called pkg file call s t) : Retained pkg file s₀ t := by
  intro hretired submissionId entry name howed
  obtain ⟨hhappens, hcomplete⟩ := hcalled.complete (by rw [hlegacy]; rfl) hretired
  have hsafe := hundisturbed content file hlegacy hparse
  have hthere := hcomplete
    (fun id entry' name' howed' hvacant => (hsafe id entry' name' howed').2 hvacant |>.2 hhappens)
    submissionId entry name howed
  obtain ⟨hreadable, hwrites⟩ := hsafe submissionId entry name howed
  cases hnode : s.owner name with
  | some node =>
    obtain ⟨record, hrecord⟩ := hreadable node hnode
    refine ⟨record, ?_, fun hold => ?_, fun hvacant => ?_⟩
    · rwa [hcalled.grows.kept howed.named hnode]
    · obtain ⟨old, hold⟩ := Option.isSome_iff_exists.mp hold
      rw [hold, ← hgrows.kept howed.named hold, hnode]
      exact hrecord
    · obtain ⟨bytes, rfl, -, hread⟩ := hgrows.held h hcovered howed hvacant hnode
      exact Option.some.inj ((readable_file hrecord).symm.trans hread)
  | none =>
    obtain ⟨node, hnode'⟩ := Option.isSome_iff_exists.mp hthere
    obtain ⟨bytes, rfl, hbytes, hread⟩ := hcalled.grows.held h hcovered howed hnode hnode'
    refine ⟨entry.record submissionId, ?_, fun hold => ?_, fun _ => rfl⟩
    · rw [hnode']
      exact readRecordFile_written hread ((hwrites hnode).1 bytes hbytes) howed.valid
    · obtain ⟨old, hold⟩ := Option.isSome_iff_exists.mp hold
      rw [hgrows.kept howed.named hold] at hnode
      cases hnode

/-- In every run of the migration, with any failures and crashes, the records that are there
stay as they are; and where nothing disturbs the calls, the registry is only moved aside when
each of its valid entries has a record that can be read. -/
theorem ensureMigrated_retains (h : Lawful pkg D R) (hcovered : Covered D R file)
    (hlegacy : s₀.legacy = some content)
    (hparse : pkg.legacyFromSlice (content.take (maxLegacyBytes + 1)) = some file) :
    (∀ s, Reaches (migrate pkg) (fun _ _ => True) s₀ s → Preserved pkg s₀ s) ∧
      ∀ s, Reaches (migrate pkg) (Undisturbed pkg) s₀ s → Retained pkg file s₀ s := by
  have hcall {s t : Store} {call : Call} (hs : s.legacy = some content)
      (hstep : migrate pkg s call = some t) : Called pkg file call s t := by
    cases Option.some.inj hstep
    exact .ensureMigrated h hcovered hs hparse
  constructor
  · intro s hreach
    have hkeep : ∀ s t call, Grows pkg file s₀ s ∧ (s.legacy = some content ∨ s.legacy = none) →
        True → migrate pkg s call = some t →
        Grows pkg file s₀ t ∧ (t.legacy = some content ∨ t.legacy = none) := by
      rintro s t call ⟨hgrows, hs | hs⟩ - hstep
      · have hcalled := hcall hs hstep
        exact ⟨hgrows.trans hcalled.grows, hcalled.legacy.imp_left fun hsame => hsame.trans hs⟩
      · rw [migrate_of_none hs hstep]
        exact ⟨hgrows, .inr hs⟩
    obtain ⟨hgrows, -⟩ := hreach.invariant ⟨.refl pkg file s₀, .inl hlegacy⟩ hkeep
    exact fun submissionId name node hname hnode => hgrows.kept hname hnode
  · intro s hreach
    have hkeep : ∀ s t call,
        Grows pkg file s₀ s ∧ (s.legacy = some content ∨ s.legacy = none ∧ Retained pkg file s₀ s) →
        Undisturbed pkg s call → migrate pkg s call = some t →
        Grows pkg file s₀ t ∧ (t.legacy = some content ∨ t.legacy = none ∧ Retained pkg file s₀ t) := by
      rintro s t call ⟨hgrows, hs | hs⟩ hok hstep
      · have hcalled := hcall hs hstep
        refine ⟨hgrows.trans hcalled.grows, hcalled.legacy.imp (fun hsame => hsame.trans hs) ?_⟩
        exact fun hnone => ⟨hnone, hcalled.retained h hcovered hs hparse hgrows hok⟩
      · rw [migrate_of_none hs.1 hstep]
        exact ⟨hgrows, .inr hs⟩
    obtain ⟨-, hs | ⟨-, hretained⟩⟩ := hreach.invariant ⟨.refl pkg file s₀, .inl hlegacy⟩ hkeep
    · intro hnone
      rw [hs] at hnone
      cases hnone
    · exact hretained

end Run

theorem samplePackages_lawful : Lawful samplePackages (Set.singleton (TextBytes.encode sampleId))
    (Set.singleton (sampleEntry.record sampleId)) where
  length_sha256 _ := rfl
  injective := Set.injOn_singleton _ _
  written record hrecord := by
    have hsample : record = sampleEntry.record sampleId := hrecord
    subst hsample
    exact ⟨sampleRecordBytes, by decide +kernel, by decide +kernel⟩

theorem sampleFile_covered : Covered (Set.singleton (TextBytes.encode sampleId))
    (Set.singleton (sampleEntry.record sampleId)) sampleFile := by
  have hlisted : ∀ submissionId entry, sampleFile.bindings.get submissionId = some entry →
      submissionId = sampleId ∧ entry = sampleEntry := by
    intro submissionId entry hentry
    rw [sampleFile, KeyMap.get_insert] at hentry
    split at hentry
    · exact ⟨‹_›, (Option.some.inj hentry).symm⟩
    · cases hentry
  constructor
  · intro submissionId entry hentry
    rw [(hlisted submissionId entry hentry).1]
    rfl
  · intro submissionId entry hentry
    rw [(hlisted submissionId entry hentry).1, (hlisted submissionId entry hentry).2]
    rfl

theorem sampleCall_undisturbed :
    Undisturbed samplePackages sampleStore (sampleCall fun _ => .happens) := by
  intro content file _ _ submissionId entry name _
  refine ⟨fun node hnode => ?_, fun _ => ⟨fun bytes hbytes => ?_, fun _ => ?_⟩⟩
  · cases hnode
  · have hsample : bytes = sampleRecordBytes := by
      simp only [samplePackages] at hbytes
      split at hbytes
      · exact (Option.some.inj hbytes).symm
      · cases hbytes
    rw [hsample]
    decide +kernel
  · rintro (⟨step, -, hfails⟩ | hthere | hthere)
    · cases hfails
    · cases hthere
    · cases hthere

theorem ensureMigrated_retains_sample :
    ∃ t, migrate samplePackages sampleStore (sampleCall fun _ => .happens) = some t ∧
      t.legacy = none ∧ Retained samplePackages sampleFile sampleStore t := by
  refine ⟨_, rfl, by decide +kernel, ?_⟩
  have hparse : samplePackages.legacyFromSlice (sampleLegacyBytes.take (maxLegacyBytes + 1)) =
      some sampleFile := by
    have hwhole : sampleLegacyBytes.take (maxLegacyBytes + 1) = sampleLegacyBytes := by decide +kernel
    rw [hwhole]
    dsimp only [samplePackages]
    exact if_pos rfl
  have hlegacy : sampleStore.legacy = some sampleLegacyBytes := rfl
  exact (ensureMigrated_retains samplePackages_lawful sampleFile_covered hlegacy hparse).2 _
    (.next .start sampleCall_undisturbed rfl)

/-- The disk is full when the record is written, and not when the registry is moved aside. -/
theorem failed_write_loses_owner :
    ¬ ∀ s, Reaches (migrate samplePackages) (fun _ _ => True) sampleStore s →
      Retained samplePackages sampleFile sampleStore s := by
  intro h
  let call := sampleCall fun op => if op = .write sampleId .content then .fails else .happens
  have hretired : (exec (ensureMigrated samplePackages call) sampleStore).2.legacy = none := by
    decide +kernel
  obtain ⟨name, hname⟩ : ∃ name, recordName samplePackages sampleId = .ok name ∧
      (exec (ensureMigrated samplePackages call) sampleStore).2.owner name = none :=
    ⟨"320159ebe3219112484baaa0aa1164dd93b25e98f4a1c7bee7fd602bc2a614c0.json".toList,
      by decide +kernel⟩
  have howed : Owed samplePackages sampleFile sampleId sampleEntry name :=
    ⟨by rw [sampleFile, KeyMap.get_insert, if_pos rfl], by decide +kernel, hname.1⟩
  obtain ⟨record, hrecord, -⟩ :=
    h _ (.next .start trivial rfl) hretired sampleId sampleEntry name howed
  rw [hname.2] at hrecord
  cases hrecord

end AioLM.Owners
