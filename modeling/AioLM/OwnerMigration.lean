import AioLM.OwnerRecords
import AioLM.Runs

/-!
The one-time migration of the previous registry to a file for each submission, when any
of its operations may fail and the program may stop before any of them.
-/

set_option autoImplicit false

namespace AioLM.Owners

open Effect Runs

inductive WriteStep where
  | folder | create | content | sync | replace | remove
  deriving DecidableEq

/-- The operations on the file system, those of an atomic write by the submission. -/
inductive Operation where
  | createSharing | openLock | lock | readLegacy | createOwners | retire
  | write (submissionId : Text) (step : WriteStep)
  deriving DecidableEq

inductive Outcome where
  | happens | fails | crashes
  deriving DecidableEq

/-- What a call meets: the outcome of each operation, the random name of each temporary
file, how much of it an interrupted write leaves, the clock, and the order in which the
hash map gives the bindings. -/
structure Call where
  outcome : Operation → Outcome
  uuid : Text → Text
  written : Text → Nat := fun _ => 0
  now : Option Nat
  order : List (Text × LegacyEntry) → List (Text × LegacyEntry)
  perm : ∀ bindings, (order bindings).Perm bindings

/-- How a call ends early. -/
inductive Stop where
  | crashed
  | failed (error : SharingError)
  deriving DecidableEq

abbrev Migrating := Effect Stop Store

section Operations

variable (pkg : Packages) (call : Call)

def operate (op : Operation) (f : Store → Option Store) : Migrating Unit := do
  let s ← get
  match call.outcome op, f s with
  | .crashes, _ => throw .crashed
  | .fails, _ => throw (.failed unavailable)
  | .happens, none => throw (.failed unavailable)
  | .happens, some t => modify fun _ => t

/-- A failure is passed over, a crash is not. -/
def attempt (x : Migrating Unit) : Migrating Unit := do
  match ← observe x with
  | .error .crashed => throw .crashed
  | _ => pure ()

def createOwners (s : Store) : Option Store :=
  some { s with owners := some (s.owners.getD KeyMap.empty) }

def put (name : Text) (content : Bytes) (s : Store) : Option Store :=
  s.owners.map fun owners => { s with owners := some (owners.insert name (.file (some content))) }

def createNew (name : Text) (s : Store) : Option Store :=
  if (s.owner name).isSome then none else put name [] s

def remove (name : Text) (s : Store) : Option Store :=
  s.owners.map fun owners => { s with owners := some (owners.erase name) }

/-- The file at the temporary name takes the place of what is at the other one. -/
def replaceAtomically (temp name : Text) (s : Store) : Option Store :=
  match s.owner temp with
  | some (.file content) =>
    if s.owner name = some .directory then none
    else s.owners.map fun owners =>
      { s with owners := some ((owners.erase temp).insert name (.file content)) }
  | _ => none

def tempName (name uuid : Text) : Text := '.' :: (name ++ ".tmp-".toList ++ uuid)

def writeContent (submissionId temp : Text) (content : Bytes) : Migrating Unit := do
  if call.outcome (.write submissionId .content) ≠ .happens then
    modify fun s => (put temp (content.take (call.written submissionId)) s).getD s
  operate call (.write submissionId .content) (put temp content)

/-- The content goes to a new file, which takes the place of the old one. -/
def writeResult (submissionId temp name : Text) (content : Bytes) : Migrating Unit := do
  operate call (.write submissionId .create) (createNew temp)
  writeContent call submissionId temp content
  operate call (.write submissionId .sync) some
  operate call (.write submissionId .replace) (replaceAtomically temp name)

/-- `atomic_write`, its failures as its caller passes them on. -/
def atomicWrite (submissionId name : Text) (content : Bytes) : Migrating Unit := do
  operate call (.write submissionId .folder) createOwners
  let temp := tempName name (call.uuid submissionId)
  match ← observe (writeResult call submissionId temp name content) with
  | .ok () => pure ()
  | .error .crashed => throw .crashed
  | .error (.failed error) =>
    attempt (operate call (.write submissionId .remove) (remove temp))
    throw (.failed error)

def writeRecordFile (name : Text) (record : Record) : Migrating Unit := do
  Effect.ofExcept ((validateRecord pkg record).mapError .failed)
  match pkg.toVec record with
  | none => throw (.failed unavailable)
  | some content => atomicWrite call record.submissionId name content

def LegacyEntry.record (submissionId : Text) (entry : LegacyEntry) : Record where
  version := recordVersion
  submissionId := submissionId
  credentialRef := entry.credentialRef
  bodySha256 := entry.bodySha256
  destination := entry.destination
  origin := entry.origin
  createdAtMs := entry.createdAtMs

/-- Preserve first: a record the new layout already owns is never overwritten. -/
def migrateEntry (submissionId : Text) (entry : LegacyEntry) : Migrating Unit := do
  let record := entry.record submissionId
  if validateRecord pkg record = .ok () then
    match recordName pkg submissionId with
    | .error _ => pure ()
    | .ok name =>
      let s ← get
      if s.owner name = none then attempt (writeRecordFile pkg call name record)

def migrateEntries : List (Text × LegacyEntry) → Migrating Unit
  | [] => pure ()
  | (submissionId, entry) :: bindings => do
    migrateEntry pkg call submissionId entry
    migrateEntries bindings

def maxLegacyBytes : Nat := 256 * 1024

def archivedName : Text := "registry.json.migrated".toList

/-- The name the registry is moved aside to; the second `set_extension` replaces only what
follows the last dot. -/
def archiveName (s : Store) : Option Text :=
  if (s.archived.get archivedName).isNone then some archivedName
  else call.now.map fun now => "registry.json.json.migrated-".toList ++ Nat.toDigits 10 now

def retire (name : Text) (s : Store) : Option Store :=
  s.legacy.map fun content =>
    { s with legacy := none, archived := s.archived.insert name content }

def ensureMigrated : Migrating Unit := do
  let s ← get
  if s.legacy = none then return ()
  operate call .createSharing some
  operate call .openLock some
  operate call .lock some
  -- another process may have migrated before the lock was given
  match (← get).legacy with
  | none => return ()
  | some content =>
    operate call .readLegacy some
    match pkg.legacyFromSlice (content.take (maxLegacyBytes + 1)) with
    | none => throw (.failed unavailable)
    | some file =>
      if file.version ≠ 1 then throw (.failed unavailable)
      operate call .createOwners createOwners
      migrateEntries pkg call (call.order file.bindings.entries)
      match archiveName call (← get) with
      | none => throw (.failed unavailable)
      | some name => operate call .retire (retire name)

end Operations

/-- A call as a step: what it leaves of the folder, however it ends. -/
def migrate (pkg : Packages) (s : Store) (call : Call) : Option Store :=
  some (exec (ensureMigrated pkg call) s).2

section Names

variable {pkg : Packages} {D : Set Bytes} {R : Set Record} {submissionId other name otherName : Text}

theorem recordName_ok : recordName pkg submissionId = .ok name ↔
    validateSubmissionId pkg submissionId = .ok () ∧
      name = Discover.hexText (pkg.sha256 (TextBytes.encode submissionId)) ++ ".json".toList := by
  unfold recordName recordStem
  cases h : validateSubmissionId pkg submissionId with
  | error error => simp [Except.mapError, Except.map, bind, Except.bind]
  | ok u => simp [Except.mapError, Except.map, bind, Except.bind, pure, Except.pure, eq_comm]

theorem length_hexText (bytes : Bytes) : (Discover.hexText bytes).length = 2 * bytes.length := by
  induction bytes with
  | nil => rfl
  | cons byte bytes ih =>
    simp only [Discover.hexText, List.flatMap_cons, List.length_append, List.length_cons,
      List.length_nil] at ih ⊢
    omega

theorem hexText_injective : Function.Injective Discover.hexText := by
  have hdigit : ∀ m < 16, ∀ n < 16, Json.hexDigit m = Json.hexDigit n → m = n := by decide
  intro xs
  induction xs with
  | nil =>
    intro ys h
    cases ys with
    | nil => rfl
    | cons y ys => simp [Discover.hexText] at h
  | cons x xs ih =>
    intro ys h
    cases ys with
    | nil => simp [Discover.hexText] at h
    | cons y ys =>
      simp only [Discover.hexText, List.flatMap_cons, List.cons_append, List.nil_append,
        List.cons.injEq] at h
      obtain ⟨hhigh, hlow, hrest⟩ := h
      have hx := x.toNat_lt
      have hy := y.toNat_lt
      have h₁ := hdigit _ (by omega) _ (by omega) hhigh
      have h₂ := hdigit _ (by omega) _ (by omega) hlow
      rw [show x = y from UInt8.toNat_inj.mp (by omega), ih hrest]

theorem length_recordName (h : Lawful pkg D R) (hname : recordName pkg submissionId = .ok name) :
    name.length = 69 := by
  rw [(recordName_ok.mp hname).2, List.length_append, length_hexText, h.length_sha256]
  rfl

theorem recordName_inj (h : Lawful pkg D R) (hid : TextBytes.encode submissionId ∈ D)
    (hother : TextBytes.encode other ∈ D) (hname : recordName pkg submissionId = .ok name)
    (hsame : recordName pkg other = .ok name) : submissionId = other := by
  have hstems := (recordName_ok.mp hname).2.symm.trans (recordName_ok.mp hsame).2
  have hdigests := h.injective hid hother (hexText_injective (List.append_cancel_right hstems))
  have htexts := congrArg TextBytes.decode hdigests
  rwa [TextBytes.decode_encode, TextBytes.decode_encode, Option.some.injEq] at htexts

theorem tempName_inj {uuid otherUuid : Text} (hlength : name.length = otherName.length)
    (h : tempName name uuid = tempName otherName otherUuid) : name = otherName := by
  simp only [tempName, List.cons.injEq, true_and, List.append_assoc] at h
  exact (List.append_inj h hlength).1

theorem tempName_ne {uuid : Text} (h : Lawful pkg D R)
    (hname : recordName pkg submissionId = .ok name) : tempName otherName uuid ≠ name := by
  rintro rfl
  have hdigit : ∀ n < 16, Json.hexDigit n ≠ '.' := by decide
  have hlength := h.length_sha256 (TextBytes.encode submissionId)
  have hdigest := (recordName_ok.mp hname).2
  cases hbytes : pkg.sha256 (TextBytes.encode submissionId) with
  | nil => simp [hbytes] at hlength
  | cons byte bytes =>
    simp only [hbytes, tempName, Discover.hexText, List.flatMap_cons, List.cons_append,
      List.cons.injEq] at hdigest
    have hbyte := byte.toNat_lt
    exact hdigit _ (by omega) hdigest.1.symm

end Names

section Writes

variable {pkg : Packages} {call : Call} {s t u : Store}

/-- Nothing changes but what stands at one name. -/
structure Quiet (name : Text) (s t : Store) : Prop where
  legacy : t.legacy = s.legacy
  archived : t.archived = s.archived
  others : ∀ n, n ≠ name → t.owner n = s.owner n

theorem Quiet.refl (name : Text) (s : Store) : Quiet name s s := ⟨rfl, rfl, fun _ _ => rfl⟩

theorem Quiet.trans {name : Text} (h : Quiet name s t) (h' : Quiet name t u) : Quiet name s u :=
  ⟨h'.legacy.trans h.legacy, h'.archived.trans h.archived,
    fun n hn => (h'.others n hn).trans (h.others n hn)⟩

theorem exec_operate (op : Operation) (f : Store → Option Store) (s : Store) :
    exec (operate call op f) s = match call.outcome op, f s with
      | .crashes, _ => (.error .crashed, s)
      | .fails, _ => (.error (.failed unavailable), s)
      | .happens, none => (.error (.failed unavailable), s)
      | .happens, some t => (.ok (), t) := by
  rw [operate, exec_bind, exec_get]
  cases ho : call.outcome op <;> cases hf : f s <;> simp only [hf] <;> rfl

theorem exec_attempt (x : Migrating Unit) (s : Store) :
    exec (attempt x) s = match exec x s with
      | (.error .crashed, t) => (.error .crashed, t)
      | (_, t) => (.ok (), t) := by
  rw [attempt, exec_bind, exec_observe]
  cases h : exec x s with
  | mk result t =>
    rcases result with (_ | error) | _ <;> rfl

theorem operate_ok {op : Operation} {f : Store → Option Store} {x : Unit}
    (h : exec (operate call op f) s = (.ok x, t)) : f s = some t := by
  rw [exec_operate] at h
  cases ho : call.outcome op <;> cases hf : f s <;> simp_all

theorem operate_error {op : Operation} {f : Store → Option Store} {stop : Stop}
    (h : exec (operate call op f) s = (.error stop, t)) : t = s ∧
      (stop = .crashed ∨
        stop = .failed unavailable ∧ (call.outcome op = .fails ∨ f s = none)) := by
  rw [exec_operate] at h
  cases ho : call.outcome op <;> cases hf : f s <;> simp_all

@[simp] theorem owner_createOwners (h : createOwners s = some t) (n : Text) :
    t.owner n = s.owner n := by
  cases Option.some.inj h
  unfold Store.owner
  cases s.owners <;> rfl

theorem put_eq_some {name : Text} {content : Bytes} (h : put name content s = some t) :
    Quiet name s t ∧ t.owner name = some (.file (some content)) ∧ t.owners.isSome := by
  obtain ⟨owners, howners, rfl⟩ := Option.map_eq_some_iff.mp h
  refine ⟨⟨rfl, rfl, fun n hn => ?_⟩, ?_, rfl⟩
  · simp [Store.owner, howners, KeyMap.get_insert, hn]
  · simp [Store.owner, KeyMap.get_insert]

theorem remove_eq_some {name : Text} (h : remove name s = some t) : Quiet name s t := by
  obtain ⟨owners, howners, rfl⟩ := Option.map_eq_some_iff.mp h
  exact ⟨rfl, rfl, fun n hn => by simp [Store.owner, howners, KeyMap.get_erase, hn]⟩

theorem createNew_eq_some {name : Text} (h : createNew name s = some t) :
    s.owner name = none ∧ put name [] s = some t := by
  unfold createNew at h
  split at h
  · cases h
  · rename_i hvacant
    exact ⟨by simpa using hvacant, h⟩

theorem createNew_eq_none {name : Text} (howners : s.owners.isSome) (h : createNew name s = none) :
    (s.owner name).isSome := by
  unfold createNew at h
  split at h
  · assumption
  · simp [put, Option.isSome_iff_ne_none.mp howners] at h

theorem replaceAtomically_eq_some {temp name : Text} (h : replaceAtomically temp name s = some t) :
    t.legacy = s.legacy ∧ t.archived = s.archived ∧ t.owner name = s.owner temp ∧
      ∀ n, n ≠ name → n ≠ temp → t.owner n = s.owner n := by
  unfold replaceAtomically at h
  split at h
  · rename_i content htemp
    split at h
    · cases h
    · obtain ⟨owners, howners, rfl⟩ := Option.map_eq_some_iff.mp h
      refine ⟨rfl, rfl, ?_, fun n hn hn' => ?_⟩
      · simp [Store.owner, KeyMap.get_insert, ← htemp]
      · simp [Store.owner, howners, KeyMap.get_insert, KeyMap.get_erase, hn, hn']
  · cases h

theorem replaceAtomically_eq_none {temp name : Text} {content : Option Bytes}
    (htemp : s.owner temp = some (.file content)) (h : replaceAtomically temp name s = none) :
    s.owner name = some .directory := by
  unfold replaceAtomically at h
  rw [htemp] at h
  simp only at h
  split at h
  · assumption
  · have howners : s.owners = none := by simpa using h
    simp [Store.owner, howners] at htemp

/-- A write that fails for a reason: one of its operations fails, its temporary name is
taken, or a folder stands where its file belongs. -/
def Obstructed (call : Call) (submissionId temp name : Text) (s : Store) : Prop :=
  (∃ step, step ≠ .remove ∧ call.outcome (.write submissionId step) = .fails) ∨
    (s.owner temp).isSome ∨ s.owner name = some .directory

section WriteResult

variable {submissionId temp name : Text} {content : Bytes}

theorem writeContent_ok {x : Unit}
    (h : exec (writeContent call submissionId temp content) s = (.ok x, t)) :
    put temp content s = some t := by
  unfold writeContent at h
  by_cases hhappens : call.outcome (.write submissionId .content) = .happens
  · simp only [hhappens, ne_eq, not_true_eq_false, if_false] at h
    exact operate_ok h
  · simp only [hhappens, ne_eq, not_false_eq_true, if_true] at h
    obtain ⟨_, u, -, hoperate⟩ := bind_ok.mp h
    rw [exec_operate] at hoperate
    cases ho : call.outcome (.write submissionId .content) <;> simp_all

theorem writeContent_error {stop : Stop} (howners : s.owners.isSome)
    (h : exec (writeContent call submissionId temp content) s = (.error stop, t)) :
    Quiet temp s t ∧ (stop = .crashed ∨ stop = .failed unavailable ∧
      call.outcome (.write submissionId .content) = .fails) := by
  have hput {u : Store} {bytes : Bytes} (hu : u.owners.isSome) : put temp bytes u ≠ none := by
    simp [put, Option.isSome_iff_ne_none.mp hu]
  unfold writeContent at h
  by_cases hhappens : call.outcome (.write submissionId .content) = .happens
  · simp only [hhappens, ne_eq, not_true_eq_false, if_false] at h
    obtain ⟨rfl, hstop⟩ := operate_error h
    simp [hhappens, hput howners] at hstop
    exact ⟨.refl _ _, .inl hstop⟩
  · simp only [hhappens, ne_eq, not_false_eq_true, if_true] at h
    rcases bind_error.mp h with hfirst | ⟨_, u, hfirst, hoperate⟩
    · cases hfirst
    · cases hpart : put temp (content.take (call.written submissionId)) s with
      | none => exact absurd hpart (hput howners)
      | some u' =>
        simp only [exec_modify, hpart, Option.getD_some, Prod.mk.injEq] at hfirst
        obtain ⟨-, rfl⟩ := hfirst
        obtain ⟨hquiet, -, howners'⟩ := put_eq_some hpart
        obtain ⟨rfl, hstop⟩ := operate_error hoperate
        simp only [hput howners', or_false] at hstop
        exact ⟨hquiet, hstop⟩

theorem writeResult_ok {x : Unit}
    (h : exec (writeResult call submissionId temp name content) s = (.ok x, t)) :
    t.legacy = s.legacy ∧ t.archived = s.archived ∧ t.owner name = some (.file (some content)) ∧
      ∀ n, n ≠ name → n ≠ temp → t.owner n = s.owner n := by
  obtain ⟨_, s₁, hcreate, h⟩ := bind_ok.mp h
  obtain ⟨_, s₂, hcontent, h⟩ := bind_ok.mp h
  obtain ⟨_, s₃, hsync, hreplace⟩ := bind_ok.mp h
  obtain ⟨hcreated, -⟩ := put_eq_some (createNew_eq_some (operate_ok hcreate)).2
  obtain ⟨hwritten, htemp, -⟩ := put_eq_some (writeContent_ok hcontent)
  cases Option.some.inj (operate_ok hsync)
  obtain ⟨hlegacy, harchived, hname, hothers⟩ := replaceAtomically_eq_some (operate_ok hreplace)
  have hquiet := hcreated.trans hwritten
  exact ⟨hlegacy.trans hquiet.legacy, harchived.trans hquiet.archived, hname.trans htemp,
    fun n hn hn' => (hothers n hn hn').trans (hquiet.others n hn')⟩

theorem writeResult_error {stop : Stop} (hne : temp ≠ name) (howners : s.owners.isSome)
    (h : exec (writeResult call submissionId temp name content) s = (.error stop, t)) :
    Quiet temp s t ∧ (stop = .crashed ∨ stop = .failed unavailable ∧
      Obstructed call submissionId temp name s) := by
  have hfails {step : WriteStep} (hstep : step ≠ .remove)
      (ho : call.outcome (.write submissionId step) = .fails) :
      Obstructed call submissionId temp name s := .inl ⟨step, hstep, ho⟩
  rcases bind_error.mp h with hcreate | ⟨_, s₁, hcreate, h⟩
  · obtain ⟨rfl, hstop⟩ := operate_error hcreate
    refine ⟨.refl _ _, hstop.imp_right (And.imp_right ?_)⟩
    rintro (ho | hnone)
    · exact hfails (by decide) ho
    · exact .inr (.inl (createNew_eq_none howners hnone))
  obtain ⟨hcreated, -, howners₁⟩ := put_eq_some (createNew_eq_some (operate_ok hcreate)).2
  rcases bind_error.mp h with hcontent | ⟨_, s₂, hcontent, h⟩
  · obtain ⟨hquiet, hstop⟩ := writeContent_error howners₁ hcontent
    exact ⟨hcreated.trans hquiet, hstop.imp_right (And.imp_right (hfails (by decide)))⟩
  obtain ⟨hwritten, htemp, -⟩ := put_eq_some (writeContent_ok hcontent)
  have hquiet := hcreated.trans hwritten
  rcases bind_error.mp h with hsync | ⟨_, s₃, hsync, hreplace⟩
  · obtain ⟨rfl, hstop⟩ := operate_error hsync
    simp only [reduceCtorEq, or_false] at hstop
    exact ⟨hquiet, hstop.imp_right (And.imp_right (hfails (by decide)))⟩
  · cases Option.some.inj (operate_ok hsync)
    obtain ⟨rfl, hstop⟩ := operate_error hreplace
    refine ⟨hquiet, hstop.imp_right (And.imp_right ?_)⟩
    rintro (ho | hnone)
    · exact hfails (by decide) ho
    · refine .inr (.inr ?_)
      rw [← hquiet.others name hne.symm]
      exact replaceAtomically_eq_none htemp hnone

end WriteResult

theorem exec_atomicWrite {submissionId name : Text} {content : Bytes} {result : Except Stop Unit}
    (hne : tempName name (call.uuid submissionId) ≠ name)
    (h : exec (atomicWrite call submissionId name content) s = (result, t)) :
    (result = .ok () ∧ t.legacy = s.legacy ∧ t.archived = s.archived ∧
      t.owner name = some (.file (some content)) ∧
      ∀ n, n ≠ name → n ≠ tempName name (call.uuid submissionId) → t.owner n = s.owner n) ∨
    Quiet (tempName name (call.uuid submissionId)) s t ∧ (result = .error .crashed ∨
      result = .error (.failed unavailable) ∧
        Obstructed call submissionId (tempName name (call.uuid submissionId)) name s) := by
  set temp := tempName name (call.uuid submissionId) with htemp
  unfold atomicWrite at h
  rw [← htemp] at h
  rw [exec_bind] at h
  cases hfolder : exec (operate call (.write submissionId .folder) createOwners) s with
  | mk folder s₁ =>
  rw [hfolder] at h
  cases folder with
  | error stop =>
    simp only [Prod.mk.injEq] at h
    obtain ⟨rfl, rfl⟩ := h
    obtain ⟨rfl, hstop⟩ := operate_error hfolder
    refine .inr ⟨.refl _ _, ?_⟩
    rcases hstop with rfl | ⟨rfl, ho | hnone⟩
    · exact .inl rfl
    · exact .inr ⟨rfl, .inl ⟨.folder, by decide, ho⟩⟩
    · cases hnone
  | ok x =>
    have hcreated := operate_ok hfolder
    have hsame := fun n => owner_createOwners hcreated n
    have howners : s₁.owners.isSome := by
      cases Option.some.inj hcreated
      rfl
    have hfiles : s₁.legacy = s.legacy ∧ s₁.archived = s.archived := by
      cases Option.some.inj hcreated
      exact ⟨rfl, rfl⟩
    have hquiet₁ : Quiet temp s s₁ := ⟨hfiles.1, hfiles.2, fun n _ => hsame n⟩
    simp only at h
    rw [exec_bind, exec_observe] at h
    cases hresult : exec (writeResult call submissionId temp name content) s₁ with
    | mk inner s₂ =>
    rw [hresult] at h
    rcases inner with stop | ⟨⟩
    · obtain ⟨hquiet₂, hstop⟩ := writeResult_error hne howners hresult
      have hquiet := hquiet₁.trans hquiet₂
      rcases hstop with rfl | ⟨rfl, hobstructed⟩
      · simp only [exec_throw, Prod.mk.injEq] at h
        obtain ⟨rfl, rfl⟩ := h
        exact .inr ⟨hquiet, .inl rfl⟩
      · simp only at h
        rw [exec_bind, exec_attempt] at h
        have hobstructed' : Obstructed call submissionId temp name s := by
          rwa [Obstructed, hsame, hsame] at hobstructed
        cases hremove : exec (operate call (.write submissionId .remove) (remove temp)) s₂ with
        | mk removed s₃ =>
        rw [hremove] at h
        rcases removed with stop | ⟨⟩
        · obtain ⟨rfl, hstop⟩ := operate_error hremove
          rcases hstop with rfl | ⟨rfl, -⟩
          · simp only [Prod.mk.injEq] at h
            obtain ⟨rfl, rfl⟩ := h
            exact .inr ⟨hquiet, .inl rfl⟩
          · simp only [exec_throw, Prod.mk.injEq] at h
            obtain ⟨rfl, rfl⟩ := h
            exact .inr ⟨hquiet, .inr ⟨rfl, hobstructed'⟩⟩
        · simp only [exec_throw, Prod.mk.injEq] at h
          obtain ⟨rfl, rfl⟩ := h
          exact .inr ⟨hquiet.trans (remove_eq_some (operate_ok hremove)), .inr ⟨rfl, hobstructed'⟩⟩
    · obtain ⟨hlegacy, harchived, hname, hothers⟩ := writeResult_ok hresult
      simp only [exec_pure, Prod.mk.injEq] at h
      obtain ⟨rfl, rfl⟩ := h
      exact .inl ⟨rfl, hlegacy.trans hfiles.1, harchived.trans hfiles.2, hname,
        fun n hn hn' => (hothers n hn hn').trans (hsame n)⟩

end Writes

def sampleId : Text := "123e4567-e89b-42d3-a456-426614174000".toList

def sampleEntry : LegacyEntry where
  credentialRef := credentialRef sampleId
  bodySha256 := List.replicate 64 'a'
  destination := "https://benchmarks.example.test/v1/benchmark-runs".toList
  origin := "https://benchmarks.example.test".toList
  createdAtMs := 111

def sampleFile : LegacyFile where
  version := 1
  bindings := KeyMap.empty.insert sampleId sampleEntry

def sampleFields : Text :=
  "\"credential_ref\":\"".toList ++ sampleEntry.credentialRef ++ "\",\"body_sha256\":\"".toList ++
    sampleEntry.bodySha256 ++ "\",\"destination\":\"".toList ++ sampleEntry.destination ++
    "\",\"origin\":\"".toList ++ sampleEntry.origin ++ "\",\"created_at_ms\":111\x7d".toList

def sampleRecordBytes : Bytes :=
  TextBytes.encode ("\x7b\"version\":1,\"submission_id\":\"".toList ++ sampleId ++ "\",".toList ++
    sampleFields)

def sampleLegacyBytes : Bytes :=
  TextBytes.encode ("\x7b\"version\":1,\"bindings\":\x7b\"".toList ++ sampleId ++
    "\":\x7b".toList ++ sampleFields ++ "\x7d\x7d".toList)

def samplePackages : Packages where
  sha256 := fun _ => [50, 1, 89, 235, 227, 33, 145, 18, 72, 75, 170, 160, 170, 17, 100, 221, 147,
    178, 94, 152, 244, 161, 199, 190, 231, 253, 96, 43, 194, 166, 20, 192]
  parseUuid := fun text => text == sampleId
  parseUrl := fun text => if text = sampleEntry.origin then
    some { scheme := "https".toList, host := some "benchmarks.example.test".toList } else none
  fromSlice := fun bytes =>
    if bytes = sampleRecordBytes then some (sampleEntry.record sampleId) else none
  toVec := fun record =>
    if record = sampleEntry.record sampleId then some sampleRecordBytes else none
  legacyFromSlice := fun bytes => if bytes = sampleLegacyBytes then some sampleFile else none

def sampleStore : Store where
  legacy := some sampleLegacyBytes
  archived := KeyMap.empty
  owners := none

def sampleCall (outcome : Operation → Outcome) : Call where
  outcome := outcome
  uuid := fun _ => "0123456789abcdef0123456789abcdef".toList
  now := some 0
  order := id
  perm := fun _ => .refl _

end AioLM.Owners
