import AioLM.ChatHistory
import AioLM.Lists
import AioLM.Runs

/-!
What the data folder holds after a save, over every interleaving of loads and saves in
which no save changes the folder between the read of a load and the note it makes of it.
-/

set_option autoImplicit false

namespace AioLM.ChatHistory

open Runs

variable {Value Message Rest : Type} {format : Format Value Message Rest}

def HoldsText (format : Format Value Message Rest) (stored : Value) (text : JsString) : Prop :=
  stored = format.receive text ∨ ∃ read now, format.normalizeThread stored = some read ∧
    format.stringify (format.safeThread (read now)) = text

def Stores (format : Format Value Message Rest) (folder : KeyMap JsString Value)
    (thread : ChatThread Message Rest) : Prop :=
  ∃ stored, folder.get thread.id = some stored ∧
    HoldsText format stored (format.stringify thread)

/-- Beside what a save of the workspace keeps, only conversations that cannot be read. -/
structure Exactly (format : Format Value Message Rest) (folder : KeyMap JsString Value)
    (workspace : ChatWorkspace Message Rest) : Prop where
  kept : ∀ thread ∈ format.kept workspace, Stores format folder thread
  others : ∀ id stored, folder.get id = some stored → id ∉ format.keptIds workspace →
    format.normalizeThread stored = none

/-- Every conversation that can be read is stored under its own id. -/
def Named (format : Format Value Message Rest) (folder : KeyMap JsString Value) : Prop :=
  ∀ id stored read now, folder.get id = some stored →
    format.normalizeThread stored = some read → (read now).id = id

/-- What the folder is after a save of a workspace, and what loads return of it. -/
structure Settled (format : Format Value Message Rest) (first : KeyMap JsString Value)
    (w : World Value Message Rest) (workspace : ChatWorkspace Message Rest) : Prop where
  folder : Exactly format w.folder workspace
  unreadable : ∀ id stored, first.get id = some stored → format.normalizeThread stored = none →
    (∀ saved ∈ w.saves, id ∉ format.keptIds saved) → w.folder.get id = some stored
  returned : ∀ now active stored loaded, stored.Perm (w.folder.entries.map (·.2)) →
    format.loadedWorkspace now active stored = some loaded →
      ∀ thread ∈ loaded.threads, thread.id ∈ format.keptIds workspace

def Load.isRead : Load Value Message Rest → Bool
  | .read _ => true
  | _ => false

/-- Workspaces have distinct ids; a save starts once the note covers the folder; and no save
changes the folder while a load has read it and has not replaced the note yet. -/
def allowed (w : World Value Message Rest) : Action Value Message Rest → Bool
  | .save workspace => decide (workspace.threads.map fun thread => thread.id).Nodup
  | .start => w.covered
  | .invoke fails => fails || !w.loads.any Load.isRead
  | _ => true

section Kept

variable {workspace : ChatWorkspace Message Rest}

theorem nodup_localSafe (h : (workspace.threads.map fun thread => thread.id).Nodup) :
    ((format.localSafeWorkspace workspace).threads.map fun thread => thread.id).Nodup := by
  have hordered : ∀ threads : List (ChatThread Message Rest),
      (threads.map fun thread => thread.id).Nodup →
        (((threads.take persistedThreadsLimit).map format.safeThread).map
          fun thread => thread.id).Nodup := fun threads hthreads => by
    rw [List.map_map]
    exact hthreads.sublist ((List.take_sublist _ _).map _)
  rw [Format.localSafeWorkspace]
  apply hordered
  split
  · rename_i active hactive
    rw [List.map_cons, List.nodup_cons]
    refine ⟨fun hmem => ?_, h.sublist (List.filter_sublist.map _)⟩
    obtain ⟨thread, hthread, hid⟩ := List.mem_map.mp hmem
    simp [hid] at hthread
  · exact h

/-- The kept conversations are some of the cut ones, in their order. -/
theorem persisted_sublist : (format.persistedWorkspace workspace).threads.Sublist
    (format.localSafeWorkspace workspace).threads := by
  rw [Format.persistedWorkspace]
  dsimp only
  split
  · exact List.take_sublist _ _
  · exact List.filter_sublist

theorem nodup_keptIds (h : (workspace.threads.map fun thread => thread.id).Nodup) :
    (format.keptIds workspace).Nodup :=
  (nodup_localSafe h).sublist ((List.filter_sublist.trans persisted_sublist).map _)

theorem mem_persisted {thread : ChatThread Message Rest}
    (h : thread ∈ (format.persistedWorkspace workspace).threads) :
    ∃ was ∈ workspace.threads, thread = format.safeThread was := by
  obtain ⟨was, hwas, rfl⟩ := List.mem_map.mp (persisted_sublist.subset h)
  refine ⟨was, ?_, rfl⟩
  have hordered := List.mem_of_mem_take hwas
  split at hordered
  · rename_i active hactive
    rcases List.mem_cons.mp hordered with rfl | hmem
    · exact List.mem_of_find?_eq_some hactive
    · exact List.mem_of_mem_filter hmem
  · exact hordered

theorem messages_safeThread (thread : ChatThread Message Rest) :
    (format.safeThread thread).messages = [] ↔ thread.messages = [] := by
  have hlength : (format.safeMessages thread.messages).length =
      min thread.messages.length persistedMessagesLimit := by
    simp only [Format.safeMessages, List.length_mapIdx, List.length_drop]
    omega
  rw [← List.length_eq_zero_iff, ← List.length_eq_zero_iff, Format.safeThread, hlength,
    persistedMessagesLimit]
  omega

theorem mem_localSafe (hfew : workspace.threads.length ≤ 100)
    (hdistinct : (workspace.threads.map fun thread => thread.id).Nodup)
    {thread : ChatThread Message Rest} : thread ∈ (format.localSafeWorkspace workspace).threads ↔
      ∃ was ∈ workspace.threads, thread = format.safeThread was := by
  have htaken : ∀ threads : List (ChatThread Message Rest), threads.length ≤ 100 →
      (∀ was, was ∈ threads ↔ was ∈ workspace.threads) →
        (thread ∈ (threads.take persistedThreadsLimit).map format.safeThread ↔
          ∃ was ∈ workspace.threads, thread = format.safeThread was) := fun threads hle hmem => by
    rw [persistedThreadsLimit, List.take_of_length_le hle, List.mem_map]
    simp only [hmem, eq_comm]
  rw [Format.localSafeWorkspace]
  apply htaken
  · split
    · rename_i active hactive
      have hfewer : (workspace.threads.filter fun thread => thread.id != active.id).length <
          workspace.threads.length :=
        List.length_filter_lt_length_iff_exists.mpr
          ⟨active, List.mem_of_find?_eq_some hactive, by simp⟩
      rw [List.length_cons]
      omega
    · exact hfew
  · intro was
    split
    · rename_i active hactive
      have hmem := List.mem_of_find?_eq_some hactive
      rw [List.mem_cons, List.mem_filter]
      constructor
      · rintro (rfl | ⟨hwas, -⟩)
        · exact hmem
        · exact hwas
      · intro hwas
        by_cases hid : was.id = active.id
        · exact .inl (Lists.eq_of_key_eq hdistinct hwas hmem hid)
        · exact .inr ⟨hwas, by simpa using hid⟩
    · rfl

/-- With at most 100 conversations, one of them open, those with messages and the open one
are kept unless nothing was put into them. -/
theorem mem_kept (hfew : workspace.threads.length ≤ 100)
    (hdistinct : (workspace.threads.map fun thread => thread.id).Nodup)
    (hactive : ∃ open_ ∈ workspace.threads, open_.id = workspace.activeThreadId)
    {thread : ChatThread Message Rest} : thread ∈ format.kept workspace ↔
      ∃ was ∈ workspace.threads, thread = format.safeThread was ∧ untouched thread = false ∧
        (was.messages ≠ [] ∨ was.id = workspace.activeThreadId) := by
  obtain ⟨open_, hopen, hid⟩ := hactive
  have hwritten : (format.safeThread open_) ∈ (format.localSafeWorkspace workspace).threads.filter
      fun thread => !thread.messages.isEmpty ||
        thread.id == (format.localSafeWorkspace workspace).activeThreadId := by
    refine List.mem_filter.mpr ⟨(mem_localSafe hfew hdistinct).mpr ⟨open_, hopen, rfl⟩, ?_⟩
    rw [Bool.or_eq_true, beq_iff_eq]
    exact .inr hid
  have hthreads : (format.persistedWorkspace workspace).threads =
      (format.localSafeWorkspace workspace).threads.filter fun thread =>
        !thread.messages.isEmpty ||
          thread.id == (format.localSafeWorkspace workspace).activeThreadId := by
    rw [Format.persistedWorkspace]
    exact if_neg fun hempty => by
      rw [List.isEmpty_iff.mp hempty] at hwritten
      cases hwritten
  rw [Format.kept, hthreads, List.mem_filter, List.mem_filter, mem_localSafe hfew hdistinct]
  constructor
  · rintro ⟨⟨⟨was, hwas, rfl⟩, hkeep⟩, huntouched⟩
    refine ⟨was, hwas, rfl, by simpa using huntouched, ?_⟩
    rw [Bool.or_eq_true, beq_iff_eq] at hkeep
    refine hkeep.imp (fun hmessages hnil => ?_) id
    rw [(messages_safeThread was).mpr hnil] at hmessages
    cases hmessages
  · rintro ⟨was, hwas, rfl, huntouched, hkeep⟩
    refine ⟨⟨⟨was, hwas, rfl⟩, ?_⟩, by simp [huntouched]⟩
    rw [Bool.or_eq_true, beq_iff_eq]
    refine hkeep.imp (fun hmessages => ?_) id
    simpa [messages_safeThread] using hmessages

end Kept

section Maps

variable {entries start : List (JsString × JsString)} {id text : JsString}

theorem find_setEntry (entries : List (JsString × JsString)) (id key value : JsString) :
    KeyMap.find id (setEntry key value entries) =
      if id = key then some value else KeyMap.find id entries := by
  induction entries with
  | nil =>
    simp only [setEntry, KeyMap.find, eq_comm]
  | cons entry entries ih =>
    obtain ⟨k, v⟩ := entry
    rw [setEntry]
    by_cases hk : k = key
    · subst hk
      by_cases hid : k = id
      · simp [KeyMap.find, hid]
      · simp [KeyMap.find, hid, Ne.symm hid]
    · rw [if_neg hk, KeyMap.find, ih, KeyMap.find]
      by_cases hid : k = id
      · subst hid
        simp [hk]
      · simp [hid]

theorem find_deleteEntry (entries : List (JsString × JsString)) (id key : JsString) :
    KeyMap.find id (deleteEntry key entries) =
      if id = key then none else KeyMap.find id entries := by
  induction entries with
  | nil => simp [deleteEntry, KeyMap.find]
  | cons entry entries ih =>
    obtain ⟨k, v⟩ := entry
    rw [deleteEntry] at ih ⊢
    rw [List.filter_cons]
    by_cases hk : k = key
    · subst hk
      simp only [ne_eq, not_true_eq_false, decide_false, Bool.false_eq_true, if_false, ih,
        KeyMap.find]
      by_cases hid : id = k
      · simp [hid]
      · simp [hid, Ne.symm hid]
    · simp only [ne_eq, hk, not_false_eq_true, decide_true, if_true, KeyMap.find, ih]
      by_cases hid : k = id
      · subst hid
        simp [hk]
      · simp [hid]

theorem find_foldl_setEntry (h : KeyMap.find id (entries.foldl
    (fun m entry => setEntry entry.1 entry.2 m) start) = some text) :
    (id, text) ∈ entries ∨ KeyMap.find id start = some text := by
  induction entries generalizing start with
  | nil => exact .inr h
  | cons entry entries ih =>
    rcases ih h with hmem | hfind
    · exact .inl (List.mem_cons_of_mem _ hmem)
    · rw [find_setEntry] at hfind
      split at hfind
      · rename_i hid
        cases hfind
        exact .inl (by rw [hid]; exact List.mem_cons_self)
      · exact .inr hfind

theorem mem_of_find_newMap (h : KeyMap.find id (newMap entries) = some text) :
    (id, text) ∈ entries :=
  (find_foldl_setEntry h).resolve_right fun h => by cases h

theorem exists_find_foldl_setEntry
    (h : (∃ text, (id, text) ∈ entries) ∨ ∃ text, KeyMap.find id start = some text) :
    ∃ text, KeyMap.find id (entries.foldl
      (fun m entry => setEntry entry.1 entry.2 m) start) = some text := by
  induction entries generalizing start with
  | nil =>
    rcases h with ⟨text, hmem⟩ | h
    · cases hmem
    · exact h
  | cons entry entries ih =>
    refine ih ?_
    by_cases hid : id = entry.1
    · exact .inr ⟨entry.2, by rw [find_setEntry, if_pos hid]⟩
    · rcases h with ⟨text, hmem⟩ | ⟨text, hfind⟩
      · refine .inl ⟨text, (List.mem_cons.mp hmem).resolve_left fun heq => hid ?_⟩
        rw [← heq]
      · exact .inr ⟨text, by rw [find_setEntry, if_neg hid, hfind]⟩

theorem exists_find_newMap (h : (id, text) ∈ entries) :
    ∃ text, KeyMap.find id (newMap entries) = some text :=
  exists_find_foldl_setEntry (.inl ⟨text, h⟩)

end Maps

def Task.pending : Task Message Rest → Option JsString
  | .saved _ thread _ => some thread.id
  | .deleted _ id _ => some id
  | .saving _ _ _ | .deleting _ _ _ => none

def Task.workspace : Task Message Rest → ChatWorkspace Message Rest
  | .saving workspace _ _ | .saved workspace _ _ | .deleting workspace _ _
  | .deleted workspace _ _ => workspace

def Task.doomed : Task Message Rest → List JsString
  | .saving _ _ _ | .saved _ _ _ => []
  | .deleting _ id ids => id :: ids
  | .deleted _ _ ids => ids

/-- The note describes the folder, a conversation with a call under way apart. -/
structure Noted (format : Format Value Message Rest) (folder : KeyMap JsString Value)
    (written : List (JsString × JsString)) (covered : Bool) (pending : Option JsString) :
    Prop where
  entries : ∀ id text, KeyMap.find id written = some text → pending ≠ some id →
    ∃ stored, folder.get id = some stored ∧ HoldsText format stored text
  knows : covered → ∀ id stored, folder.get id = some stored →
    format.normalizeThread stored ≠ none → pending ≠ some id →
      ∃ text, KeyMap.find id written = some text

def Writing (format : Format Value Message Rest) (folder : KeyMap JsString Value)
    (workspace : ChatWorkspace Message Rest) (todo : List (ChatThread Message Rest)) : Prop :=
  ∃ done, format.kept workspace = done ++ todo ∧ ∀ thread ∈ done, Stores format folder thread

/-- Everything kept is in the folder, and everything else that can be read is to be deleted. -/
structure Clearing (format : Format Value Message Rest) (folder : KeyMap JsString Value)
    (workspace : ChatWorkspace Message Rest) (ids : List JsString) : Prop where
  kept : ∀ thread ∈ format.kept workspace, Stores format folder thread
  others : ∀ id stored, folder.get id = some stored → id ∉ format.keptIds workspace →
    format.normalizeThread stored ≠ none → id ∈ ids

def Progress (format : Format Value Message Rest) (folder : KeyMap JsString Value) :
    Task Message Rest → Prop
  | .saving workspace thread todo => Writing format folder workspace (thread :: todo)
  | .saved workspace thread todo => Writing format folder workspace (thread :: todo) ∧
      folder.get thread.id = some (format.receive (format.stringify thread))
  | .deleting workspace id ids => Clearing format folder workspace (id :: ids) ∧
      id ∉ format.keptIds workspace
  | .deleted workspace id ids => Clearing format folder workspace ids ∧
      folder.get id = none

/-- What a save that goes on has reached, or what it leaves. -/
def Outcome (format : Format Value Message Rest) (folder : KeyMap JsString Value)
    (workspace : ChatWorkspace Message Rest) (doomed : List JsString) :
    Option (Task Message Rest) → Prop
  | some task => Progress format folder task ∧ task.workspace = workspace ∧
      task.pending = none ∧ ∀ id ∈ task.doomed, id ∈ doomed
  | none => Exactly format folder workspace

section Saves

variable {folder : KeyMap JsString Value} {written : List (JsString × JsString)}
  {workspace : ChatWorkspace Message Rest}

theorem Outcome.mono {doomed doomed' : List JsString} {task : Option (Task Message Rest)}
    (h : Outcome format folder workspace doomed task) (hsub : ∀ id ∈ doomed, id ∈ doomed') :
    Outcome format folder workspace doomed' task := by
  cases task with
  | none => exact h
  | some task => exact ⟨h.1, h.2.1, h.2.2.1, fun id hid => hsub id (h.2.2.2 id hid)⟩

theorem deleteNext_outcome {ids : List JsString} (h : Clearing format folder workspace ids) :
    Outcome format folder workspace ids (format.deleteNext workspace ids) := by
  induction ids with
  | nil =>
    refine ⟨h.kept, fun id stored hstored hid => ?_⟩
    by_contra hreads
    cases h.others id stored hstored hid hreads
  | cons id ids ih =>
    rw [Format.deleteNext]
    split
    · rename_i hkept
      have hrest : Clearing format folder workspace ids :=
        ⟨h.kept, fun k stored hstored hk hreads =>
          (List.mem_cons.mp (h.others k stored hstored hk hreads)).resolve_left
            fun heq => hk (heq ▸ hkept)⟩
      exact (ih hrest).mono fun k hk => List.mem_cons_of_mem id hk
    · rename_i hkept
      exact ⟨⟨h, hkept⟩, rfl, rfl, fun k hk => hk⟩

theorem writeNext_outcome (hnoted : Noted format folder written true none)
    {todo : List (ChatThread Message Rest)} (h : Writing format folder workspace todo) :
    Outcome format folder workspace (written.map (·.1))
      (format.writeNext written workspace todo) := by
  induction todo with
  | nil =>
    obtain ⟨done, hdone, hstores⟩ := h
    rw [List.append_nil] at hdone
    refine deleteNext_outcome ⟨fun thread hthread => hstores thread (hdone ▸ hthread), ?_⟩
    intro id stored hstored _ hreads
    obtain ⟨text, hfind⟩ := hnoted.knows rfl id stored hstored hreads (by simp)
    exact List.mem_map.mpr ⟨_, KeyMap.mem_of_find hfind, rfl⟩
  | cons thread todo ih =>
    rw [Format.writeNext]
    split
    · rename_i hfind
      obtain ⟨done, hdone, hstores⟩ := h
      refine ih ⟨done ++ [thread], by rw [hdone, List.append_assoc]; rfl, fun u hu => ?_⟩
      rcases List.mem_append.mp hu with hu | hu
      · exact hstores u hu
      · rw [List.mem_singleton.mp hu]
        exact hnoted.entries _ _ hfind (by simp)
    · exact ⟨h, rfl, rfl, fun id hid => by cases hid⟩

theorem stores_insert {thread thread' : ChatThread Message Rest} {stored : Value}
    (h : Stores format folder thread) (hne : thread.id ≠ thread'.id) :
    Stores format (folder.insert thread'.id stored) thread := by
  obtain ⟨held, hheld, htext⟩ := h
  exact ⟨held, by rw [KeyMap.get_insert, if_neg hne, hheld], htext⟩

theorem stores_erase {thread : ChatThread Message Rest} {id : JsString}
    (h : Stores format folder thread) (hne : thread.id ≠ id) :
    Stores format (folder.erase id) thread := by
  obtain ⟨held, hheld, htext⟩ := h
  exact ⟨held, by rw [KeyMap.get_erase, if_neg hne, hheld], htext⟩

theorem Writing.insert {thread : ChatThread Message Rest}
    {todo : List (ChatThread Message Rest)} (hdistinct : (format.keptIds workspace).Nodup)
    (h : Writing format folder workspace (thread :: todo)) :
    Writing format (folder.insert thread.id (format.receive (format.stringify thread)))
      workspace (thread :: todo) := by
  obtain ⟨done, hdone, hstores⟩ := h
  refine ⟨done, hdone, fun u hu => stores_insert (hstores u hu) fun hid => ?_⟩
  rw [Format.keptIds, hdone, List.map_append, List.nodup_append] at hdistinct
  exact hdistinct.2.2 _ (List.mem_map_of_mem hu) _ (List.mem_map_of_mem List.mem_cons_self) hid

theorem Writing.next {thread : ChatThread Message Rest} {todo : List (ChatThread Message Rest)}
    (h : Writing format folder workspace (thread :: todo))
    (hstored : folder.get thread.id = some (format.receive (format.stringify thread))) :
    Writing format folder workspace todo := by
  obtain ⟨done, hdone, hstores⟩ := h
  refine ⟨done ++ [thread], by rw [hdone, List.append_assoc]; rfl, fun u hu => ?_⟩
  rcases List.mem_append.mp hu with hu | hu
  · exact hstores u hu
  · rw [List.mem_singleton.mp hu]
    exact ⟨_, hstored, .inl rfl⟩

theorem Clearing.erase {id : JsString} {ids : List JsString}
    (h : Clearing format folder workspace (id :: ids)) (hid : id ∉ format.keptIds workspace) :
    Clearing format (folder.erase id) workspace ids := by
  refine ⟨fun thread hthread => stores_erase (h.kept thread hthread) fun heq => ?_,
    fun k stored hstored hk hreads => ?_⟩
  · exact hid (heq ▸ List.mem_map_of_mem hthread)
  · rw [KeyMap.get_erase] at hstored
    split at hstored
    · cases hstored
    · rename_i hne
      exact (List.mem_cons.mp (h.others k stored hstored hk hreads)).resolve_left hne

section Note

variable {covered : Bool}

theorem Noted.insert (h : Noted format folder written covered none) (id : JsString)
    (stored : Value) : Noted format (folder.insert id stored) written covered (some id) := by
  refine ⟨fun k text hfind hk => ?_, fun hcovered k held hheld hreads hk => ?_⟩
  · have hne : k ≠ id := fun heq => hk (by rw [heq])
    obtain ⟨held, hheld, htext⟩ := h.entries k text hfind (by simp)
    exact ⟨held, by rw [KeyMap.get_insert, if_neg hne, hheld], htext⟩
  · have hne : k ≠ id := fun heq => hk (by rw [heq])
    rw [KeyMap.get_insert, if_neg hne] at hheld
    exact h.knows hcovered k held hheld hreads (by simp)

theorem Noted.erase (h : Noted format folder written covered none) (id : JsString) :
    Noted format (folder.erase id) written covered (some id) := by
  refine ⟨fun k text hfind hk => ?_, fun hcovered k held hheld hreads hk => ?_⟩
  · have hne : k ≠ id := fun heq => hk (by rw [heq])
    obtain ⟨held, hheld, htext⟩ := h.entries k text hfind (by simp)
    exact ⟨held, by rw [KeyMap.get_erase, if_neg hne, hheld], htext⟩
  · have hne : k ≠ id := fun heq => hk (by rw [heq])
    rw [KeyMap.get_erase, if_neg hne] at hheld
    exact h.knows hcovered k held hheld hreads (by simp)

theorem Noted.setEntry {id text : JsString}
    (h : Noted format folder written covered (some id))
    (hstored : folder.get id = some (format.receive text)) :
    Noted format folder (setEntry id text written) covered none := by
  refine ⟨fun k text' hfind _ => ?_, fun hcovered k held hheld hreads _ => ?_⟩
  · rw [find_setEntry] at hfind
    split at hfind
    · rename_i hk
      cases hfind
      exact ⟨_, hk ▸ hstored, .inl rfl⟩
    · rename_i hk
      exact h.entries k text' hfind fun heq => hk (Option.some.inj heq).symm
  · rw [find_setEntry]
    split
    · exact ⟨text, rfl⟩
    · rename_i hk
      exact h.knows hcovered k held hheld hreads fun heq => hk (Option.some.inj heq).symm

theorem Noted.deleteEntry {id : JsString} (h : Noted format folder written covered (some id))
    (hgone : folder.get id = none) :
    Noted format folder (deleteEntry id written) covered none := by
  refine ⟨fun k text hfind _ => ?_, fun hcovered k held hheld hreads _ => ?_⟩
  · rw [find_deleteEntry] at hfind
    split at hfind
    · cases hfind
    · rename_i hk
      exact h.entries k text hfind fun heq => hk (Option.some.inj heq).symm
  · have hk : k ≠ id := by
      rintro rfl
      rw [hgone] at hheld
      cases hheld
    rw [find_deleteEntry, if_neg hk]
    exact h.knows hcovered k held hheld hreads fun heq => hk (Option.some.inj heq).symm

theorem mem_readThreads {now : Nat} {stored : List Value} {thread : ChatThread Message Rest} :
    thread ∈ format.readThreads now stored ↔
      ∃ held ∈ stored, ∃ read, format.normalizeThread held = some read ∧ read now = thread := by
  rw [Format.readThreads, List.mem_insertionSort, List.mem_map]
  constructor
  · rintro ⟨read, hread, rfl⟩
    obtain ⟨held, hheld, hnormal⟩ := List.mem_filterMap.mp hread
    exact ⟨held, hheld, read, hnormal, rfl⟩
  · rintro ⟨held, hheld, read, hnormal, rfl⟩
    exact ⟨read, List.mem_filterMap.mpr ⟨held, hheld, hnormal⟩, rfl⟩

theorem mem_stored {stored : List Value} (hperm : stored.Perm (folder.entries.map (·.2)))
    {held : Value} : held ∈ stored ↔ ∃ id, folder.get id = some held := by
  rw [hperm.mem_iff, List.mem_map]
  constructor
  · rintro ⟨⟨id, held⟩, hentry, rfl⟩
    exact ⟨id, KeyMap.get_eq_some.mpr hentry⟩
  · rintro ⟨id, hget⟩
    exact ⟨(id, held), KeyMap.get_eq_some.mp hget, rfl⟩

/-- The note a load makes of what it read. -/
def adopted (format : Format Value Message Rest) (now : Nat) (stored : List Value) :
    List (JsString × JsString) :=
  newMap ((format.readThreads now stored).map fun thread =>
    (thread.id, format.stringify (format.safeThread thread)))

theorem find_adopted (hnamed : Named format folder) {now : Nat} {stored : List Value}
    (hperm : stored.Perm (folder.entries.map (·.2))) {id text : JsString}
    (hfind : KeyMap.find id (adopted format now stored) = some text) :
    ∃ held read, folder.get id = some held ∧ format.normalizeThread held = some read ∧
      format.stringify (format.safeThread (read now)) = text := by
  obtain ⟨thread, hthread, hentry⟩ := List.mem_map.mp (mem_of_find_newMap hfind)
  cases hentry
  obtain ⟨held, hheld, read, hread, rfl⟩ := mem_readThreads.mp hthread
  obtain ⟨id, hget⟩ := (mem_stored hperm).mp hheld
  rw [hnamed id held read now hget hread]
  exact ⟨held, read, hget, hread, rfl⟩

theorem Noted.adopt (hnamed : Named format folder) (now : Nat) {stored : List Value}
    (hperm : stored.Perm (folder.entries.map (·.2))) (pending : Option JsString) :
    Noted format folder (adopted format now stored) true pending := by
  refine ⟨fun id text hfind _ => ?_, fun _ id held hheld hreads _ => ?_⟩
  · obtain ⟨held, read, hget, hread, htext⟩ := find_adopted hnamed hperm hfind
    exact ⟨held, hget, .inr ⟨read, now, hread, htext⟩⟩
  · obtain ⟨read, hread⟩ := Option.ne_none_iff_exists'.mp hreads
    have hthread : read now ∈ format.readThreads now stored :=
      mem_readThreads.mpr ⟨held, (mem_stored hperm).mpr ⟨id, hheld⟩, read, hread, rfl⟩
    have hid := hnamed id held read now hheld hread
    exact hid ▸ exists_find_newMap (List.mem_map_of_mem hthread)

theorem Named.insert (h : Named format folder) (thread : ChatThread Message Rest) :
    Named format (folder.insert thread.id (format.receive (format.stringify thread))) := by
  intro id stored read now hget hread
  rw [KeyMap.get_insert] at hget
  split at hget
  · rename_i hid
    cases hget
    rw [hid]
    exact format.received_id thread read now hread
  · exact h id stored read now hget hread

theorem Named.erase (h : Named format folder) (id : JsString) :
    Named format (folder.erase id) := by
  intro k stored read now hget hread
  rw [KeyMap.get_erase] at hget
  split at hget
  · cases hget
  · exact h k stored read now hget hread

end Note

end Saves

/-- A conversation that could not be read at first and that no save has. -/
structure Foreign (format : Format Value Message Rest) (first : KeyMap JsString Value)
    (w : World Value Message Rest) (id : JsString) (stored : Value) : Prop where
  first : first.get id = some stored
  unread : format.normalizeThread stored = none
  unsaved : ∀ saved ∈ w.saves, id ∉ format.keptIds saved

/-- It is where it was, and no save knows of it. -/
structure LeftAlone (w : World Value Message Rest) (id : JsString) (stored : Value) : Prop where
  folder : w.folder.get id = some stored
  written : KeyMap.find id w.written = none
  running : ∀ task, w.running = some task → id ∉ task.doomed

structure Inv (format : Format Value Message Rest) (first : KeyMap JsString Value)
    (w : World Value Message Rest) : Prop where
  named : Named format w.folder
  reads : ∀ stored, .read stored ∈ w.loads → stored.Perm (w.folder.entries.map (·.2))
  covered : ∀ task, w.running = some task → w.covered
  noted : Noted format w.folder w.written w.covered (w.running.bind Task.pending)
  progress : ∀ task, w.running = some task → Progress format w.folder task
  waits : ∀ workspace ∈ w.waiting, workspace ∈ w.saves
  runs : ∀ task, w.running = some task → task.workspace ∈ w.saves
  distinct : ∀ workspace ∈ w.saves, (format.keptIds workspace).Nodup
  settled : w.running = none → ∀ workspace rest, w.finished = (workspace, .native) :: rest →
    Exactly format w.folder workspace
  foreign : ∀ id stored, Foreign format first w id stored → LeftAlone w id stored

section Runs

variable {first : KeyMap JsString Value} {w w' : World Value Message Rest}

theorem Inv.goOn {workspace : ChatWorkspace Message Rest} {task : Option (Task Message Rest)}
    (hnamed : Named format w.folder)
    (hreads : ∀ stored, .read stored ∈ w.loads → stored.Perm (w.folder.entries.map (·.2)))
    (hcovered : w.covered) (hnoted : Noted format w.folder w.written w.covered none)
    (hwaits : ∀ workspace ∈ w.waiting, workspace ∈ w.saves) (hmem : workspace ∈ w.saves)
    (hdistinct : ∀ workspace ∈ w.saves, (format.keptIds workspace).Nodup)
    {doomed : List JsString} (houtcome : Outcome format w.folder workspace doomed task)
    (hforeign : ∀ id stored, Foreign format first w id stored →
      w.folder.get id = some stored ∧ KeyMap.find id w.written = none ∧ id ∉ doomed) :
    Inv format first (w.goOn workspace task) := by
  cases task with
  | none =>
    refine ⟨hnamed, hreads, fun task h => (by cases h), hnoted, fun task h => (by cases h), hwaits,
      fun task h => (by cases h), hdistinct, fun _ workspace' rest hfinished => ?_,
      fun id stored h => ?_⟩
    · cases hfinished
      exact houtcome
    · obtain ⟨hfolder, hwritten, -⟩ := hforeign id stored ⟨h.first, h.unread, h.unsaved⟩
      exact ⟨hfolder, hwritten, fun task h => by cases h⟩
  | some task =>
    obtain ⟨hprogress, hworkspace, hpending, hdoomed⟩ := houtcome
    refine ⟨hnamed, hreads, fun _ _ => hcovered, ?_, fun task' h => ?_, hwaits, fun task' h => ?_,
      hdistinct, fun h => (by cases h), fun id stored h => ?_⟩
    · show Noted format w.folder w.written w.covered task.pending
      rw [hpending]
      exact hnoted
    · cases h
      exact hprogress
    · cases h
      rw [hworkspace]
      exact hmem
    · obtain ⟨hfolder, hwritten, hnot⟩ := hforeign id stored ⟨h.first, h.unread, h.unsaved⟩
      refine ⟨hfolder, hwritten, fun task' htask hid => ?_⟩
      cases htask
      exact hnot (hdoomed id hid)

theorem not_mem_written {id : JsString} {written : List (JsString × JsString)}
    (h : KeyMap.find id written = none) : id ∉ written.map (·.1) := by
  intro hmem
  obtain ⟨text, hfind⟩ := KeyMap.exists_find_of_mem hmem
  rw [h] at hfind
  cases hfind

theorem Inv.loads (h : Inv format first w) {loads : List (Load Value Message Rest)}
    (hloads : ∀ stored, .read stored ∈ loads → stored.Perm (w.folder.entries.map (·.2))) :
    Inv format first { w with loads := loads } :=
  ⟨h.named, hloads, h.covered, h.noted, h.progress, h.waits, h.runs, h.distinct, h.settled,
    fun id stored hforeign =>
      have hleft := h.foreign id stored ⟨hforeign.first, hforeign.unread, hforeign.unsaved⟩
      ⟨hleft.folder, hleft.written, hleft.running⟩⟩

theorem mem_set_read {loads : List (Load Value Message Rest)} {call : Nat}
    {load : Load Value Message Rest} {stored : List Value} (hload : load.isRead = false)
    (h : .read stored ∈ loads.set call load) : .read stored ∈ loads := by
  rcases List.mem_or_eq_of_mem_set h with hmem | rfl
  · exact hmem
  · cases hload

theorem Inv.adopt (h : Inv format first w) {call now : Nat} {stored : List Value}
    (hread : w.loads[call]? = some (.read stored)) :
    Inv format first { w with
      written := adopted format now stored
      loads := w.loads.set call (.loaded (format.loadedWorkspace now w.active stored))
      covered := true } := by
  have hperm := h.reads stored (List.mem_of_getElem? hread)
  refine ⟨h.named, fun stored' hmem => h.reads stored' (mem_set_read rfl hmem), fun _ _ => rfl,
    .adopt h.named now hperm _, h.progress, h.waits, h.runs, h.distinct, h.settled,
    fun id held hforeign => ?_⟩
  have hleft := h.foreign id held ⟨hforeign.first, hforeign.unread, hforeign.unsaved⟩
  refine ⟨hleft.folder, ?_, hleft.running⟩
  -- what cannot be read is not in the note
  cases hfind : KeyMap.find id (adopted format now stored) with
  | none => rfl
  | some text =>
    obtain ⟨held', read, hget, hread', -⟩ := find_adopted h.named hperm hfind
    obtain rfl : held = held' := Option.some.inj (hleft.folder.symm.trans hget)
    rw [hforeign.unread] at hread'
    cases hread'

theorem Inv.giveUp (h : Inv format first w) {task : Task Message Rest}
    (hrunning : w.running = some task) (htask : task.pending = none) :
    Inv format first (w.giveUp task.workspace) := by
  have hnoted := h.noted
  rw [hrunning] at hnoted
  have hnone : (some task).bind Task.pending = none := htask
  rw [hnone] at hnoted
  refine ⟨h.named, h.reads, fun task h => (by cases h), hnoted, fun task h => (by cases h), h.waits,
    fun task h => (by cases h), h.distinct, fun _ workspace rest hfinished => ?_,
    fun id stored hforeign => ?_⟩
  · cases hfinished
  · have hleft := h.foreign id stored ⟨hforeign.first, hforeign.unread, hforeign.unsaved⟩
    exact ⟨hleft.folder, hleft.written, fun task h => by cases h⟩

theorem perm_of_no_read {loads : List (Load Value Message Rest)} {values : List Value}
    (h : loads.any Load.isRead = false) (stored : List Value) (hmem : .read stored ∈ loads) :
    stored.Perm values := by
  rw [List.any_eq_false] at h
  exact absurd rfl (h _ hmem)

theorem Inv.saved (h : Inv format first w) {workspace : ChatWorkspace Message Rest}
    {thread : ChatThread Message Rest} {todo : List (ChatThread Message Rest)}
    (hrunning : w.running = some (.saving workspace thread todo))
    (hquiet : w.loads.any Load.isRead = false) :
    Inv format first { w with
      folder := w.folder.insert thread.id (format.receive (format.stringify thread))
      running := some (.saved workspace thread todo) } := by
  have hnoted := h.noted
  rw [hrunning] at hnoted
  have hprogress := h.progress _ hrunning
  have hmem : workspace ∈ w.saves := h.runs _ hrunning
  refine ⟨h.named.insert thread, perm_of_no_read hquiet, fun _ _ => h.covered _ hrunning,
    Noted.insert hnoted thread.id _, fun task htask => ?_, h.waits, fun task htask => ?_,
    h.distinct, fun h => (by cases h), fun id stored hforeign => ?_⟩
  · cases htask
    exact ⟨hprogress.insert (h.distinct _ hmem), by rw [KeyMap.get_insert, if_pos rfl]⟩
  · cases htask
    exact hmem
  · have hleft := h.foreign id stored ⟨hforeign.first, hforeign.unread, hforeign.unsaved⟩
    have hne : id ≠ thread.id := by
      rintro rfl
      obtain ⟨done, hdone, -⟩ := hprogress
      refine hforeign.unsaved workspace hmem (List.mem_map_of_mem ?_)
      rw [hdone]
      exact List.mem_append_right _ List.mem_cons_self
    refine ⟨?_, hleft.written, fun task htask hid => ?_⟩
    · rw [← hleft.folder, KeyMap.get_insert, if_neg hne]
    · cases htask
      cases hid

theorem Inv.deleted (h : Inv format first w) {workspace : ChatWorkspace Message Rest}
    {id : JsString} {ids : List JsString}
    (hrunning : w.running = some (.deleting workspace id ids))
    (hquiet : w.loads.any Load.isRead = false) :
    Inv format first { w with
      folder := w.folder.erase id
      running := some (.deleted workspace id ids) } := by
  have hnoted := h.noted
  rw [hrunning] at hnoted
  obtain ⟨hclearing, hid⟩ := h.progress _ hrunning
  have hmem : workspace ∈ w.saves := h.runs _ hrunning
  refine ⟨h.named.erase id, perm_of_no_read hquiet, fun _ _ => h.covered _ hrunning,
    Noted.erase hnoted id, fun task htask => ?_, h.waits, fun task htask => ?_,
    h.distinct, fun h => (by cases h), fun k stored hforeign => ?_⟩
  · cases htask
    exact ⟨hclearing.erase hid, by rw [KeyMap.get_erase, if_pos rfl]⟩
  · cases htask
    exact hmem
  · have hleft := h.foreign k stored ⟨hforeign.first, hforeign.unread, hforeign.unsaved⟩
    have hdoomed := hleft.running _ hrunning
    have hne : k ≠ id := fun heq => hdoomed (by rw [heq]; exact List.mem_cons_self)
    refine ⟨?_, hleft.written, fun task htask hk => ?_⟩
    · rw [← hleft.folder, KeyMap.get_erase, if_neg hne]
    · cases htask
      exact hdoomed (List.mem_cons_of_mem _ hk)

theorem Inv.answerSaved (h : Inv format first w) {workspace : ChatWorkspace Message Rest}
    {thread : ChatThread Message Rest} {todo : List (ChatThread Message Rest)}
    (hrunning : w.running = some (.saved workspace thread todo)) :
    Inv format first (({ w with
      written := setEntry thread.id (format.stringify thread) w.written } : World _ _ _).goOn
        workspace (format.writeNext (setEntry thread.id (format.stringify thread) w.written)
          workspace todo)) := by
  have hnoted := h.noted
  rw [hrunning] at hnoted
  obtain ⟨hwriting, hstored⟩ := h.progress _ hrunning
  have hcovered := h.covered _ hrunning
  have hmem : workspace ∈ w.saves := h.runs _ hrunning
  have hnoted' : Noted format w.folder (setEntry thread.id (format.stringify thread) w.written)
      w.covered none := Noted.setEntry hnoted hstored
  refine Inv.goOn h.named h.reads hcovered hnoted' h.waits hmem h.distinct
    (writeNext_outcome (hcovered ▸ hnoted') (hwriting.next hstored)) fun id stored hforeign => ?_
  have hleft := h.foreign id stored ⟨hforeign.first, hforeign.unread, hforeign.unsaved⟩
  have hne : id ≠ thread.id := by
    rintro rfl
    obtain ⟨done, hdone, -⟩ := hwriting
    refine hforeign.unsaved workspace hmem (List.mem_map_of_mem ?_)
    rw [hdone]
    exact List.mem_append_right _ List.mem_cons_self
  have hfind : KeyMap.find id (setEntry thread.id (format.stringify thread) w.written) = none := by
    rw [find_setEntry, if_neg hne, hleft.written]
  exact ⟨hleft.folder, hfind, not_mem_written hfind⟩

theorem Inv.answerDeleted (h : Inv format first w) {workspace : ChatWorkspace Message Rest}
    {id : JsString} {ids : List JsString}
    (hrunning : w.running = some (.deleted workspace id ids)) :
    Inv format first (({ w with written := deleteEntry id w.written } : World _ _ _).goOn
      workspace (format.deleteNext workspace ids)) := by
  have hnoted := h.noted
  rw [hrunning] at hnoted
  obtain ⟨hclearing, hgone⟩ := h.progress _ hrunning
  refine Inv.goOn h.named h.reads (h.covered _ hrunning) (Noted.deleteEntry hnoted hgone) h.waits
    (h.runs _ hrunning) h.distinct (deleteNext_outcome hclearing) fun k stored hforeign => ?_
  have hleft := h.foreign k stored ⟨hforeign.first, hforeign.unread, hforeign.unsaved⟩
  refine ⟨hleft.folder, ?_, hleft.running _ hrunning⟩
  show KeyMap.find k (deleteEntry id w.written) = none
  rw [find_deleteEntry, hleft.written, ite_self]

theorem Inv.start (h : Inv format first w) {workspace : ChatWorkspace Message Rest}
    {waiting : List (ChatWorkspace Message Rest)} (hrunning : w.running = none)
    (hwaiting : w.waiting = workspace :: waiting) (hcovered : w.covered) :
    Inv format first (({ w with waiting := waiting } : World _ _ _).goOn workspace
      (format.writeNext w.written workspace (format.kept workspace))) := by
  have hnoted := h.noted
  rw [hrunning] at hnoted
  have hwaits := h.waits
  rw [hwaiting] at hwaits
  refine Inv.goOn h.named h.reads hcovered hnoted (fun _ hmem => hwaits _ (.tail _ hmem))
    (hwaits _ List.mem_cons_self) h.distinct
    (writeNext_outcome (hcovered ▸ hnoted) ⟨[], rfl, fun _ hmem => by cases hmem⟩)
    fun id stored hforeign => ?_
  have hleft := h.foreign id stored ⟨hforeign.first, hforeign.unread, hforeign.unsaved⟩
  exact ⟨hleft.folder, hleft.written, not_mem_written hleft.written⟩

theorem Inv.save (h : Inv format first w) {workspace : ChatWorkspace Message Rest}
    (hdistinct : (workspace.threads.map fun thread => thread.id).Nodup) (active : Option JsString)
    {waiting : List (ChatWorkspace Message Rest)}
    (hwaiting : ∀ waits ∈ waiting, waits ∈ w.waiting ∨ waits = workspace) :
    Inv format first { w with
      active := active, saves := workspace :: w.saves, waiting := waiting } := by
  refine ⟨h.named, h.reads, h.covered, h.noted, h.progress, fun waits hmem => ?_,
    fun task htask => List.mem_cons_of_mem _ (h.runs task htask), fun saved hmem => ?_, h.settled,
    fun id stored hforeign => ?_⟩
  · rcases hwaiting waits hmem with hold | rfl
    · exact List.mem_cons_of_mem _ (h.waits waits hold)
    · exact List.mem_cons_self
  · rcases List.mem_cons.mp hmem with rfl | hold
    · exact nodup_keptIds hdistinct
    · exact h.distinct saved hold
  · have hleft := h.foreign id stored ⟨hforeign.first, hforeign.unread, fun saved hmem =>
      hforeign.unsaved saved (List.mem_cons_of_mem _ hmem)⟩
    exact ⟨hleft.folder, hleft.written, hleft.running⟩

theorem Inv.opened (hnamed : Named format first) :
    Inv format first (World.opened format first) := by
  refine ⟨hnamed, fun stored hmem => (by cases hmem), fun task h => (by cases h), ⟨?_, ?_⟩,
    fun task h => (by cases h), fun workspace hmem => (by cases hmem), fun task h => (by cases h),
    fun workspace hmem => (by cases hmem), fun _ workspace rest h => (by cases h),
    fun id stored h => ⟨h.first, rfl, fun task h => (by cases h)⟩⟩
  · intro id text hfind
    cases hfind
  · intro hcovered id stored hstored hreads
    rw [World.opened, List.all_eq_true] at hcovered
    have hnone := hcovered _ (KeyMap.get_eq_some.mp hstored)
    exact absurd (by simpa using hnone) hreads

variable [DecidableEq Value] {a : Action Value Message Rest}

theorem Inv.next (h : Inv format first w) (hallowed : allowed w a = true)
    (hstep : step format w a = some w') : Inv format first w' := by
  cases a with
  | load =>
    cases hstep
    refine h.loads fun stored hmem => h.reads stored ?_
    simpa using hmem
  | read call stored =>
    simp only [step] at hstep
    split at hstep
    · split at hstep
      · rename_i hperm
        cases hstep
        refine h.loads fun stored' hmem => ?_
        rcases List.mem_or_eq_of_mem_set hmem with hold | heq
        · exact h.reads stored' hold
        · cases heq
          exact List.isPerm_iff.mp hperm
      · cases hstep
    · cases hstep
  | fail call =>
    simp only [step] at hstep
    split at hstep
    · cases hstep
      exact h.loads fun stored hmem => h.reads stored (mem_set_read rfl hmem)
    · cases hstep
  | adopt call now =>
    simp only [step] at hstep
    split at hstep
    · rename_i stored hread
      cases hstep
      exact h.adopt hread
    · cases hstep
  | save workspace =>
    have hdistinct : (workspace.threads.map fun thread => thread.id).Nodup := by
      simpa [allowed] using hallowed
    simp only [step] at hstep
    split at hstep
    · cases hstep
      exact h.save hdistinct _ fun waits hmem => .inl hmem
    · cases hstep
      exact h.save hdistinct _ fun waits hmem => by simpa using hmem
  | start =>
    simp only [step] at hstep
    split at hstep
    · rename_i workspace waiting hrunning hwaiting
      cases hstep
      exact h.start hrunning hwaiting hallowed
    · cases hstep
  | invoke fails =>
    simp only [step] at hstep
    split at hstep
    · rename_i workspace thread todo hrunning
      split at hstep
      · cases hstep
        exact h.giveUp hrunning rfl
      · rename_i hfails
        cases hstep
        exact h.saved hrunning (by simpa [allowed, hfails] using hallowed)
    · rename_i workspace id ids hrunning
      split at hstep
      · cases hstep
        exact h.giveUp hrunning rfl
      · rename_i hfails
        cases hstep
        exact h.deleted hrunning (by simpa [allowed, hfails] using hallowed)
    · cases hstep
  | answer =>
    simp only [step] at hstep
    split at hstep
    · rename_i workspace thread todo hrunning
      cases hstep
      exact h.answerSaved hrunning
    · rename_i workspace id ids hrunning
      cases hstep
      exact h.answerDeleted hrunning
    · cases hstep

theorem conversations_kept (hnamed : Named format first)
    (h : Reaches (step format) (fun w a => allowed w a = true) (World.opened format first) w)
    (hidle : w.running = none) {workspace : ChatWorkspace Message Rest}
    {before : List (ChatWorkspace Message Rest × ChatPersistenceResult)}
    (hsaved : w.finished = (workspace, .native) :: before) : Settled format first w workspace := by
  have hkeep : ∀ u u' a, Inv format first u → allowed u a = true → step format u a = some u' →
      Inv format first u' := fun _ _ _ hinv hallowed hstep => hinv.next hallowed hstep
  have hinv := h.invariant (.opened hnamed) hkeep
  have hexactly := hinv.settled hidle workspace before hsaved
  refine ⟨hexactly, fun id stored hfirst hunread hunsaved =>
    (hinv.foreign id stored ⟨hfirst, hunread, hunsaved⟩).folder,
    fun now active stored loaded hperm hloaded thread hthread => ?_⟩
  obtain ⟨first', -, rfl⟩ := Option.map_eq_some_iff.mp hloaded
  obtain ⟨was, hwas, rfl⟩ := mem_persisted hthread
  obtain ⟨held, hheld, read, hread, rfl⟩ := mem_readThreads.mp hwas
  obtain ⟨id, hget⟩ := (mem_stored hperm).mp hheld
  have hid := hinv.named id held read now hget hread
  by_contra hmissing
  have hunread := hexactly.others id held hget (hid ▸ hmissing)
  rw [hread] at hunread
  cases hunread

end Runs

def sampleThread (id : JsString) : ChatThread Unit Unit :=
  ⟨id, units "Sample", [], none, none, [()], ()⟩

/-- Conversations of one message, each printed as its id. -/
def sampleFormat : Format JsString Unit Unit where
  stringify thread := thread.id
  receive text := text
  normalizeThread stored := some fun _ => sampleThread stored
  safeMessage message _ := message
  newestFirst _ _ := true
  received_id thread read now h := by
    cases h
    rfl

def sampleWorkspace (id : String) : ChatWorkspace Unit Unit :=
  ⟨units id, [sampleThread (units id)]⟩

/-- A save of a new conversation, from its call to its return. -/
def sampleSave (id : String) : List (Action JsString Unit Unit) :=
  [.save (sampleWorkspace id), .start, .invoke false, .answer]

theorem conversations_kept_replaced : ∃ w,
    run (fun t a => if allowed t a then step sampleFormat t a else none)
      (World.opened sampleFormat .empty)
      ([.load, .read 0 [], .adopt 0 0] ++ sampleSave "a" ++ sampleSave "b" ++
        [.invoke false, .answer]) = some w ∧
      Settled sampleFormat .empty w (sampleWorkspace "b") := by
  obtain ⟨w, hw, hidle, hfinished⟩ : ∃ w,
      run (fun t a => if allowed t a then step sampleFormat t a else none)
        (World.opened sampleFormat .empty)
        ([.load, .read 0 [], .adopt 0 0] ++ sampleSave "a" ++ sampleSave "b" ++
          [.invoke false, .answer]) = some w ∧ w.running = none ∧
        w.finished = [(sampleWorkspace "b", .native), (sampleWorkspace "a", .native)] :=
    ⟨_, rfl, rfl, rfl⟩
  have hnamed : Named sampleFormat .empty := fun id stored read now hget _ => by cases hget
  exact ⟨w, hw, conversations_kept hnamed (.of_checked_run hw) hidle hfinished⟩

/-- A conversation saved between the read and the note of a load outlives the save that
leaves it out. -/
theorem deleted_conversation_kept : ¬ ∀ w workspace before,
    Reaches (step sampleFormat) (fun _ a => ∀ workspace, a = .save workspace →
      (workspace.threads.map fun thread => thread.id).Nodup) (World.opened sampleFormat .empty) w →
    w.running = none → w.finished = (workspace, .native) :: before →
      Settled sampleFormat .empty w workspace := by
  intro hall
  obtain ⟨w, hw, hidle, hfinished, hstill⟩ : ∃ w, run (step sampleFormat)
      (World.opened sampleFormat .empty) ([.load, .read 0 []] ++ sampleSave "a" ++ [.adopt 0 0] ++
        sampleSave "b") = some w ∧ w.running = none ∧
      w.finished = [(sampleWorkspace "b", .native), (sampleWorkspace "a", .native)] ∧
      w.folder.get (units "a") = some (units "a") :=
    ⟨_, rfl, rfl, rfl, rfl⟩
  have hgone := (hall w _ _ (.of_run _ (fun _ a ha workspace heq => by
    subst heq
    simp [sampleSave] at ha
    rcases ha with rfl | rfl <;> decide) hw) hidle hfinished).folder.others _ _ hstill (by decide)
  cases hgone

end AioLM.ChatHistory
