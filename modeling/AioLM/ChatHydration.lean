import AioLM.ChatHistory
import AioLM.Lists

/-!
The stored conversations join those of a window that has been used before they were read:
which version of each conversation stays, and which one is shown.
-/

set_option autoImplicit false

namespace AioLM.ChatHistory

variable {Message Rest : Type}

/-- `Map.get` of the threads by their ids: the last one of an id. -/
def byId (threads : List (ChatThread Message Rest)) (id : JsString) :
    Option (ChatThread Message Rest) :=
  threads.reverse.find? fun thread => thread.id = id

section Merge

variable (stringify : ChatThread Message Rest → JsString)

/-- The texts of two workspaces agree when their active ids and the texts of their threads do. -/
def sameWorkspace (left right : ChatWorkspace Message Rest) : Bool :=
  left.activeThreadId == right.activeThreadId &&
    left.threads.map stringify == right.threads.map stringify

def mergeThread (current initial : ChatWorkspace Message Rest) (thread : ChatThread Message Rest) :
    List (ChatThread Message Rest) :=
  match byId current.threads thread.id, byId initial.threads thread.id with
  | none, some _ => []
  | none, none => [thread]
  | some edited, none => [edited]
  | some edited, some baseline =>
    if stringify edited != stringify baseline then [edited] else [thread]

def addedThreads (persisted current initial : ChatWorkspace Message Rest) :
    List (ChatThread Message Rest) :=
  current.threads.filter fun thread =>
    !(persisted.threads.any fun other => other.id == thread.id) &&
      (byId initial.threads thread.id).isNone

def mergeHydratedWorkspace (persisted current initial : ChatWorkspace Message Rest) :
    ChatWorkspace Message Rest :=
  if sameWorkspace stringify current initial then persisted
  else
    let merged := persisted.threads.flatMap (mergeThread stringify current initial) ++
      addedThreads persisted current initial
    { threads := merged
      activeThreadId :=
        if current.activeThreadId != initial.activeThreadId &&
            (byId current.threads current.activeThreadId).isSome then
          current.activeThreadId
        else if persisted.threads.any fun thread => thread.id == persisted.activeThreadId then
          persisted.activeThreadId
        else (merged.head?.map (·.id)).getD current.activeThreadId }

/-- The thread was added since the start, or its text is another one. -/
def Touched (initial : ChatWorkspace Message Rest) (thread : ChatThread Message Rest) : Prop :=
  ∀ baseline ∈ initial.threads, baseline.id = thread.id → stringify thread ≠ stringify baseline

instance (initial : ChatWorkspace Message Rest) (thread : ChatThread Message Rest) :
    Decidable (Touched stringify initial thread) :=
  inferInstanceAs (Decidable (∀ baseline ∈ initial.threads, baseline.id = thread.id →
    stringify thread ≠ stringify baseline))

end Merge

def ChatWorkspace.Names (workspace : ChatWorkspace Message Rest) (id : JsString) : Prop :=
  ∃ thread ∈ workspace.threads, thread.id = id

instance (workspace : ChatWorkspace Message Rest) (id : JsString) :
    Decidable (workspace.Names id) :=
  inferInstanceAs (Decidable (∃ thread ∈ workspace.threads, thread.id = id))

def ChatWorkspace.Distinct (workspace : ChatWorkspace Message Rest) : Prop :=
  (workspace.threads.map fun thread => thread.id).Nodup

instance (workspace : ChatWorkspace Message Rest) : Decidable workspace.Distinct :=
  inferInstanceAs (Decidable (List.Nodup _))

def Deleted (current initial : ChatWorkspace Message Rest) (id : JsString) : Prop :=
  initial.Names id ∧ ¬ current.Names id

instance (current initial : ChatWorkspace Message Rest) (id : JsString) :
    Decidable (Deleted current initial id) :=
  inferInstanceAs (Decidable (initial.Names id ∧ ¬ current.Names id))

section Merge

variable (stringify : ChatThread Message Rest → JsString)

/-- Added or changed since the start under this id. -/
def Edited (current initial : ChatWorkspace Message Rest) (id : JsString) : Prop :=
  ∃ thread ∈ current.threads, thread.id = id ∧ Touched stringify initial thread

/-- A three-way merge that loses nothing. -/
structure Merged (persisted current initial result : ChatWorkspace Message Rest) : Prop where
  distinct : result.Distinct
  edited : ∀ thread ∈ current.threads, Touched stringify initial thread → thread ∈ result.threads
  stored : ∀ thread ∈ persisted.threads, ¬ Edited stringify current initial thread.id →
    ¬ Deleted current initial thread.id → thread ∈ result.threads
  deleted : ∀ id, Deleted current initial id → ¬ result.Names id
  origin : ∀ thread ∈ result.threads,
    (thread ∈ current.threads ∧ Touched stringify initial thread) ∨
    (thread ∈ persisted.threads ∧ ¬ Edited stringify current initial thread.id ∧
      ¬ Deleted current initial thread.id) ∨
    (thread ∈ current.threads ∧ ¬ Touched stringify initial thread)
  active : result.threads ≠ [] → result.Names result.activeThreadId

/-- Every stored thread was deleted, and no other one was added. -/
def Emptied (persisted current initial : ChatWorkspace Message Rest) : Prop :=
  (∀ id, persisted.Names id → Deleted current initial id) ∧
    ∀ id, current.Names id → persisted.Names id ∨ initial.Names id

def ActiveStays (persisted current initial : ChatWorkspace Message Rest) : Prop :=
  if current.activeThreadId ≠ initial.activeThreadId ∧ current.Names current.activeThreadId then
    persisted.Names current.activeThreadId ∨ ¬ initial.Names current.activeThreadId
  else persisted.Names persisted.activeThreadId →
    ¬ Deleted current initial persisted.activeThreadId

/-- Nothing changed since the start and the stored thread to be shown exists; or every thread of
the start that was changed is stored, and the one to be shown stays. -/
def Mergeable (persisted current initial : ChatWorkspace Message Rest) : Prop :=
  if sameWorkspace stringify current initial = true then
    persisted.threads = [] ∨ persisted.Names persisted.activeThreadId
  else
    (∀ thread ∈ current.threads, initial.Names thread.id → Touched stringify initial thread →
      persisted.Names thread.id) ∧
    (Emptied persisted current initial ∨ ActiveStays persisted current initial)

end Merge

section Lookup

variable {workspace : ChatWorkspace Message Rest} {id : JsString} {thread : ChatThread Message Rest}

theorem byId_eq_none : byId workspace.threads id = none ↔ ¬ workspace.Names id := by
  simp [byId, ChatWorkspace.Names]

theorem byId_mem (h : byId workspace.threads id = some thread) :
    thread ∈ workspace.threads ∧ thread.id = id :=
  ⟨by simpa using List.mem_of_find?_eq_some h, by simpa using List.find?_some h⟩

theorem byId_isSome : (byId workspace.threads id).isSome = true ↔ workspace.Names id := by
  rw [← not_iff_not, Bool.not_eq_true, Option.isSome_eq_false_iff, Option.isNone_iff_eq_none,
    byId_eq_none]

theorem eq_of_id (hdistinct : workspace.Distinct) {a b : ChatThread Message Rest}
    (ha : a ∈ workspace.threads) (hb : b ∈ workspace.threads) (h : a.id = b.id) : a = b :=
  Lists.eq_of_key_eq hdistinct ha hb h

theorem any_names : (workspace.threads.any fun thread => thread.id == id) = true ↔
    workspace.Names id := by
  simp [ChatWorkspace.Names]

end Lookup

section Content

variable {stringify : ChatThread Message Rest → JsString}
  {persisted current initial : ChatWorkspace Message Rest} {thread other : ChatThread Message Rest}

theorem touched_iff (stringify : ChatThread Message Rest → JsString)
    (thread : ChatThread Message Rest) (hinitial : initial.Distinct) {baseline : ChatThread Message Rest}
    (hbaseline : byId initial.threads thread.id = some baseline) :
    Touched stringify initial thread ↔ stringify thread ≠ stringify baseline := by
  obtain ⟨hmem, hid⟩ := byId_mem hbaseline
  constructor
  · intro h
    exact h baseline hmem hid
  · intro h other hother hsame
    rwa [eq_of_id hinitial hother hmem (hsame.trans hid.symm)]

theorem touched_of_none (h : byId initial.threads thread.id = none) :
    Touched stringify initial thread := by
  intro baseline hbaseline hid
  exact absurd ⟨baseline, hbaseline, hid⟩ (byId_eq_none.mp h)

theorem edited_iff (hcurrent : current.Distinct) (hthread : thread ∈ current.threads) :
    Edited stringify current initial thread.id ↔ Touched stringify initial thread := by
  constructor
  · rintro ⟨edited, hedited, hid, htouched⟩
    rwa [← eq_of_id hcurrent hedited hthread hid]
  · intro h
    exact ⟨thread, hthread, rfl, h⟩

theorem mem_mergeThread (hcurrent : current.Distinct) (hinitial : initial.Distinct) :
    other ∈ mergeThread stringify current initial thread ↔
      (other ∈ current.threads ∧ other.id = thread.id ∧ Touched stringify initial other) ∨
      (other = thread ∧ ¬ Edited stringify current initial thread.id ∧
        ¬ Deleted current initial thread.id) := by
  unfold mergeThread Deleted
  cases hlocal : byId current.threads thread.id with
  | none =>
    have hnone : ¬ current.Names thread.id := byId_eq_none.mp hlocal
    have hedited : ¬ Edited stringify current initial thread.id := by
      rintro ⟨edited, hedited, hid, -⟩
      exact hnone ⟨edited, hedited, hid⟩
    have hmem : ¬ (other ∈ current.threads ∧ other.id = thread.id ∧
        Touched stringify initial other) := by
      rintro ⟨hother, hid, -⟩
      exact hnone ⟨other, hother, hid⟩
    cases hbaseline : byId initial.threads thread.id with
    | none => simp [hmem, hedited, hnone, byId_eq_none.mp hbaseline]
    | some baseline =>
      have hnames : initial.Names thread.id := ⟨baseline, byId_mem hbaseline⟩
      simp [hmem, hnone, hnames]
  | some edited =>
    obtain ⟨hedited, hid⟩ := byId_mem hlocal
    have hnames : current.Names thread.id := ⟨edited, hedited, hid⟩
    have honly : other ∈ current.threads ∧ other.id = thread.id ∧ Touched stringify initial other ↔
        other = edited ∧ Touched stringify initial edited := by
      constructor
      · rintro ⟨hother, hsame, ht⟩
        obtain rfl := eq_of_id hcurrent hother hedited (hsame.trans hid.symm)
        exact ⟨rfl, ht⟩
      · rintro ⟨rfl, ht⟩
        exact ⟨hedited, hid, ht⟩
    have htouched : Edited stringify current initial thread.id ↔
        Touched stringify initial edited := by
      rw [← hid]
      exact edited_iff hcurrent hedited
    rw [honly, htouched]
    cases hbaseline : byId initial.threads thread.id with
    | none =>
      have ht : Touched stringify initial edited := touched_of_none (hid ▸ hbaseline)
      simp [ht]
    | some baseline =>
      have ht := touched_iff stringify edited hinitial (hid ▸ hbaseline)
      by_cases hsame : stringify edited = stringify baseline
      · simp [ht, hsame, hnames]
      · simp [ht, hsame]

theorem mem_addedThreads : thread ∈ addedThreads persisted current initial ↔
    thread ∈ current.threads ∧ ¬ persisted.Names thread.id ∧ ¬ initial.Names thread.id := by
  simp only [addedThreads, List.mem_filter, Bool.and_eq_true, Bool.not_eq_true',
    Option.isNone_iff_eq_none, byId_eq_none]
  rw [← Bool.not_eq_true, any_names]

/-- The threads of a merge: what was edited and is stored or new, and what is stored and was
neither edited nor deleted. -/
theorem mem_merged (stringify : ChatThread Message Rest → JsString)
    (persisted : ChatWorkspace Message Rest) (hcurrent : current.Distinct)
    (hinitial : initial.Distinct) (other : ChatThread Message Rest) :
    other ∈ persisted.threads.flatMap (mergeThread stringify current initial) ++
        addedThreads persisted current initial ↔
      (other ∈ current.threads ∧ Touched stringify initial other ∧
        (persisted.Names other.id ∨ ¬ initial.Names other.id)) ∨
      (other ∈ persisted.threads ∧ ¬ Edited stringify current initial other.id ∧
        ¬ Deleted current initial other.id) := by
  rw [List.mem_append, List.mem_flatMap, mem_addedThreads]
  constructor
  · rintro (⟨thread, hthread, hmem⟩ | ⟨hother, hstored, hnew⟩)
    · rcases (mem_mergeThread hcurrent hinitial).mp hmem with
        ⟨hother, hid, htouched⟩ | ⟨rfl, hkept⟩
      · exact .inl ⟨hother, htouched, .inl ⟨thread, hthread, hid.symm⟩⟩
      · exact .inr ⟨hthread, hkept⟩
    · exact .inl ⟨hother, touched_of_none (byId_eq_none.mpr hnew), .inr hnew⟩
  · rintro (⟨hother, htouched, hplace⟩ | ⟨hother, hkept⟩)
    · by_cases hstored : persisted.Names other.id
      · obtain ⟨thread, hthread, hid⟩ := hstored
        exact .inl ⟨thread, hthread,
          (mem_mergeThread hcurrent hinitial).mpr (.inl ⟨hother, hid.symm, htouched⟩)⟩
      · exact .inr ⟨hother, hstored, hplace.resolve_left hstored⟩
    · exact .inl ⟨other, hother, (mem_mergeThread hcurrent hinitial).mpr (.inr ⟨rfl, hkept⟩)⟩

theorem mergeThread_ids : ((mergeThread stringify current initial thread).map
    fun thread => thread.id).Sublist [thread.id] := by
  unfold mergeThread
  cases hlocal : byId current.threads thread.id with
  | none => cases byId initial.threads thread.id <;> simp
  | some edited =>
    have hid : edited.id = thread.id := (byId_mem hlocal).2
    cases byId initial.threads thread.id with
    | none => simp [hid]
    | some baseline =>
      dsimp only
      split <;> simp [hid]

theorem flatMap_ids (threads : List (ChatThread Message Rest)) :
    ((threads.flatMap (mergeThread stringify current initial)).map fun thread => thread.id).Sublist
      (threads.map fun thread => thread.id) := by
  induction threads with
  | nil => exact List.Sublist.refl _
  | cons thread rest ih =>
    rw [List.flatMap_cons, List.map_append, List.map_cons]
    exact List.Sublist.append mergeThread_ids ih

theorem merged_distinct (hpersisted : persisted.Distinct) (hcurrent : current.Distinct) :
    ((persisted.threads.flatMap (mergeThread stringify current initial) ++
      addedThreads persisted current initial).map fun thread => thread.id).Nodup := by
  rw [List.map_append, List.nodup_append']
  refine ⟨hpersisted.sublist (flatMap_ids _), ?_, ?_⟩
  · exact hcurrent.sublist (List.filter_sublist.map _)
  · intro id hstored hadded
    obtain ⟨thread, hthread, rfl⟩ := List.mem_map.mp hadded
    obtain ⟨other, hother, hid⟩ := List.mem_map.mp ((flatMap_ids _).subset hstored)
    exact (mem_addedThreads.mp hthread).2.1 ⟨other, hother, hid⟩

theorem names_merged (stringify : ChatThread Message Rest → JsString)
    (persisted : ChatWorkspace Message Rest) (hcurrent : current.Distinct)
    (hinitial : initial.Distinct) (id : JsString) :
    (∃ thread ∈ persisted.threads.flatMap (mergeThread stringify current initial) ++
        addedThreads persisted current initial, thread.id = id) ↔
      (persisted.Names id ∧ ¬ Deleted current initial id) ∨
        (current.Names id ∧ ¬ persisted.Names id ∧ ¬ initial.Names id) := by
  constructor
  · rintro ⟨thread, hthread, rfl⟩
    rcases (mem_merged stringify persisted hcurrent hinitial _).mp hthread with
      ⟨hmem, -, hplace⟩ | ⟨hmem, -, hkept⟩
    · have hnames : current.Names thread.id := ⟨thread, hmem, rfl⟩
      by_cases hstored : persisted.Names thread.id
      · exact .inl ⟨hstored, fun hdeleted => hdeleted.2 hnames⟩
      · exact .inr ⟨hnames, hstored, hplace.resolve_left hstored⟩
    · exact .inl ⟨⟨thread, hmem, rfl⟩, hkept⟩
  · rintro (⟨⟨thread, hthread, rfl⟩, hkept⟩ | ⟨⟨thread, hthread, rfl⟩, hstored, hnew⟩)
    · by_cases hedited : Edited stringify current initial thread.id
      · obtain ⟨edited, hmem, hid, htouched⟩ := hedited
        refine ⟨edited, (mem_merged stringify persisted hcurrent hinitial _).mpr (.inl ⟨hmem, htouched, .inl ?_⟩), hid⟩
        exact ⟨thread, hthread, hid.symm⟩
      · exact ⟨thread, (mem_merged stringify persisted hcurrent hinitial _).mpr (.inr ⟨hthread, hedited, hkept⟩), rfl⟩
    · refine ⟨thread, (mem_merged stringify persisted hcurrent hinitial _).mpr (.inl ⟨hthread, ?_, .inr hnew⟩), rfl⟩
      exact touched_of_none (byId_eq_none.mpr hnew)

theorem merged_eq_nil (stringify : ChatThread Message Rest → JsString)
    (persisted : ChatWorkspace Message Rest) (hcurrent : current.Distinct)
    (hinitial : initial.Distinct) :
    persisted.threads.flatMap (mergeThread stringify current initial) ++
        addedThreads persisted current initial = [] ↔ Emptied persisted current initial := by
  have hnames := names_merged stringify persisted hcurrent hinitial
  constructor
  · intro hnil
    rw [hnil] at hnames
    have hnone (id : JsString) : ¬ ((persisted.Names id ∧ ¬ Deleted current initial id) ∨
        (current.Names id ∧ ¬ persisted.Names id ∧ ¬ initial.Names id)) := by
      intro h
      simpa using (hnames id).mpr h
    constructor
    · intro id hid
      by_contra hkept
      exact hnone id (.inl ⟨hid, hkept⟩)
    · intro id hid
      by_contra hneither
      exact hnone id (.inr ⟨hid, not_or.mp hneither⟩)
  · rintro ⟨hstored, hadded⟩
    rw [List.eq_nil_iff_forall_not_mem]
    intro thread hthread
    rcases (hnames thread.id).mp ⟨thread, hthread, rfl⟩ with ⟨hid, hkept⟩ | ⟨hid, hneither⟩
    · exact hkept (hstored _ hid)
    · exact not_or.mpr hneither (hadded _ hid)

theorem merged_same (hpersisted : persisted.Distinct)
    (hids : ∀ a ∈ current.threads, ∀ b ∈ initial.threads, stringify a = stringify b → a.id = b.id)
    (hsame : sameWorkspace stringify current initial = true) :
    Merged stringify persisted current initial persisted ↔
      persisted.threads = [] ∨ persisted.Names persisted.activeThreadId := by
  have htexts : current.threads.map stringify = initial.threads.map stringify := by
    simp only [sameWorkspace, Bool.and_eq_true, beq_iff_eq] at hsame
    exact hsame.2
  have hbaseline : ∀ a ∈ current.threads, ∃ b ∈ initial.threads, stringify b = stringify a := by
    intro a ha
    have htext : stringify a ∈ initial.threads.map stringify :=
      htexts ▸ List.mem_map_of_mem ha
    exact List.mem_map.mp htext
  have huntouched : ∀ a ∈ current.threads, ¬ Touched stringify initial a := by
    intro a ha htouched
    obtain ⟨b, hb, htext⟩ := hbaseline a ha
    exact htouched b hb (hids a ha b hb htext.symm).symm htext.symm
  have hedited : ∀ id, ¬ Edited stringify current initial id := by
    rintro id ⟨a, ha, -, htouched⟩
    exact huntouched a ha htouched
  have hkept : ∀ id, ¬ Deleted current initial id := by
    rintro id ⟨⟨b, hb, rfl⟩, hgone⟩
    have htext : stringify b ∈ current.threads.map stringify := htexts ▸ List.mem_map_of_mem hb
    obtain ⟨a, ha, heq⟩ := List.mem_map.mp htext
    exact hgone ⟨a, ha, hids a ha b hb heq⟩
  constructor
  · intro h
    by_cases hempty : persisted.threads = []
    · exact .inl hempty
    · exact .inr (h.active hempty)
  · intro h
    refine ⟨hpersisted, ?_, fun thread hthread _ _ => hthread, ?_, ?_, ?_⟩
    · intro thread hthread htouched
      exact absurd htouched (huntouched thread hthread)
    · intro id hdeleted
      exact absurd hdeleted (hkept id)
    · intro thread hthread
      exact .inr (.inl ⟨hthread, hedited _, hkept _⟩)
    · intro hne
      exact h.resolve_left hne

theorem active_merged (stringify : ChatThread Message Rest → JsString)
    (persisted : ChatWorkspace Message Rest) (hcurrent : current.Distinct) (hinitial : initial.Distinct)
    (hdiffer : sameWorkspace stringify current initial ≠ true)
    (hne : ¬ Emptied persisted current initial) :
    (mergeHydratedWorkspace stringify persisted current initial).Names
        (mergeHydratedWorkspace stringify persisted current initial).activeThreadId ↔
      ActiveStays persisted current initial := by
  have hnames := names_merged stringify persisted hcurrent hinitial
  unfold mergeHydratedWorkspace
  rw [if_neg hdiffer]
  unfold ActiveStays
  by_cases hmoved : current.activeThreadId ≠ initial.activeThreadId ∧
      current.Names current.activeThreadId
  · have hcondition : (current.activeThreadId != initial.activeThreadId &&
        (byId current.threads current.activeThreadId).isSome) = true := by
      rw [Bool.and_eq_true, bne_iff_ne, byId_isSome]
      exact hmoved
    rw [if_pos hmoved]
    simp only [hcondition, if_true]
    refine (hnames _).trans ?_
    by_cases hstored : persisted.Names current.activeThreadId
    · simp [hstored, Deleted, hmoved.2]
    · simp [hstored, hmoved.2]
  · have hcondition : ¬ (current.activeThreadId != initial.activeThreadId &&
        (byId current.threads current.activeThreadId).isSome) = true := by
      rw [Bool.and_eq_true, bne_iff_ne, byId_isSome]
      exact hmoved
    rw [if_neg hmoved]
    simp only [hcondition, Bool.false_eq_true, if_false]
    by_cases hstored : persisted.Names persisted.activeThreadId
    · have hany := any_names.mpr hstored
      simp only [hany, if_true]
      refine (hnames _).trans ?_
      simp [hstored]
    · have hany : ¬ (persisted.threads.any fun thread =>
          thread.id == persisted.activeThreadId) = true := fun h => hstored (any_names.mp h)
      simp only [hany, Bool.false_eq_true, if_false, hstored, false_imp_iff, iff_true]
      cases hmerged : persisted.threads.flatMap (mergeThread stringify current initial) ++
          addedThreads persisted current initial with
      | nil => exact absurd ((merged_eq_nil _ _ hcurrent hinitial).mp hmerged) hne
      | cons thread rest => exact ⟨thread, List.mem_cons_self, rfl⟩

/-- A merge loses nothing exactly when every changed thread of the start is stored and the thread
to be shown stays. -/
theorem mergeHydratedWorkspace_merged_iff (stringify : ChatThread Message Rest → JsString)
    (persisted current initial : ChatWorkspace Message Rest) (hpersisted : persisted.Distinct)
    (hcurrent : current.Distinct) (hinitial : initial.Distinct)
    (hids : ∀ a ∈ current.threads, ∀ b ∈ initial.threads,
      stringify a = stringify b → a.id = b.id) :
    Merged stringify persisted current initial
        (mergeHydratedWorkspace stringify persisted current initial) ↔
      Mergeable stringify persisted current initial := by
  unfold Mergeable
  by_cases hsame : sameWorkspace stringify current initial = true
  · rw [if_pos hsame, mergeHydratedWorkspace, if_pos hsame]
    exact merged_same hpersisted hids hsame
  · rw [if_neg hsame]
    have hactive := active_merged stringify persisted hcurrent hinitial hsame
    have hthreads : (mergeHydratedWorkspace stringify persisted current initial).threads =
        persisted.threads.flatMap (mergeThread stringify current initial) ++
          addedThreads persisted current initial := by
      rw [mergeHydratedWorkspace, if_neg hsame]
    have hmem := mem_merged stringify persisted hcurrent hinitial
    have hnil := merged_eq_nil stringify persisted hcurrent hinitial
    rw [← hthreads] at hnil
    simp only [← hthreads] at hmem
    constructor
    · intro h
      constructor
      · intro thread hthread hnames htouched
        rcases (hmem thread).mp (h.edited thread hthread htouched) with ⟨-, -, hplace⟩ | ⟨hstored, -⟩
        · exact hplace.resolve_right (not_not_intro hnames)
        · exact ⟨thread, hstored, rfl⟩
      · by_cases hempty : Emptied persisted current initial
        · exact .inl hempty
        · exact .inr ((hactive hempty).mp (h.active (fun heq => hempty (hnil.mp heq))))
    · rintro ⟨hchanged, hstays⟩
      refine ⟨?_, ?_, ?_, ?_, ?_, ?_⟩
      · unfold ChatWorkspace.Distinct
        rw [hthreads]
        exact merged_distinct hpersisted hcurrent
      · intro thread hthread htouched
        refine (hmem thread).mpr (.inl ⟨hthread, htouched, ?_⟩)
        by_cases hnames : initial.Names thread.id
        · exact .inl (hchanged thread hthread hnames htouched)
        · exact .inr hnames
      · intro thread hthread hedited hkept
        exact (hmem thread).mpr (.inr ⟨hthread, hedited, hkept⟩)
      · rintro id hdeleted hnames
        unfold ChatWorkspace.Names at hnames
        rw [hthreads, names_merged stringify persisted hcurrent hinitial] at hnames
        rcases hnames with ⟨-, hkept⟩ | ⟨hthere, -⟩
        · exact hkept hdeleted
        · exact hdeleted.2 hthere
      · intro thread hthread
        rcases (hmem thread).mp hthread with ⟨hcur, htouched, -⟩ | hstored
        · exact .inl ⟨hcur, htouched⟩
        · exact .inr (.inl hstored)
      · intro hne
        have hempty : ¬ Emptied persisted current initial := fun h => hne (hnil.mpr h)
        exact (hactive hempty).mpr (hstays.resolve_left hempty)

end Content

def plainText (thread : ChatThread Empty Unit) : JsString :=
  units "\x7b\"id\":\"" ++ thread.id ++ units "\",\"title\":\"" ++ thread.title ++
    units "\",\"systemPrompt\":\"" ++ thread.systemPrompt ++
    units "\",\"createdAt\":0,\"updatedAt\":0,\"messages\":[]\x7d"

def titled (id title : String) : ChatThread Empty Unit :=
  ⟨units id, units title, [], none, none, [], ()⟩

def workspaceOf (active : String) (threads : List (ChatThread Empty Unit)) :
    ChatWorkspace Empty Unit :=
  ⟨units active, threads⟩

/-- A thread is edited and another one deleted before the stored ones are read. -/
theorem mergeHydratedWorkspace_merged_iff_deleted :
    let persisted := workspaceOf "thread-persisted" [titled "thread-local" "Persisted title",
      titled "thread-other" "Other", titled "thread-deleted" "Persisted deleted copy"]
    let current := workspaceOf "thread-local" [titled "thread-local" "Edited locally"]
    let initial := workspaceOf "thread-local" [titled "thread-local" "Local",
      titled "thread-deleted" "Deleted locally"]
    (mergeHydratedWorkspace plainText persisted current initial).threads.map (·.title) =
        [units "Edited locally", units "Other"] ∧
      Merged plainText persisted current initial
        (mergeHydratedWorkspace plainText persisted current initial) := by
  intro persisted current initial
  refine ⟨by decide, (mergeHydratedWorkspace_merged_iff plainText persisted current initial
    (by decide) (by decide) (by decide) (by decide)).mpr ?_⟩
  have hchanged : sameWorkspace plainText current initial ≠ true := by decide
  rw [Mergeable, if_neg hchanged]
  have hactive : ¬ (current.activeThreadId ≠ initial.activeThreadId ∧
      current.Names current.activeThreadId) := by decide
  refine ⟨by decide, .inr ?_⟩
  rw [ActiveStays, if_neg hactive]
  decide

/-- The conversation of the start is renamed before the stored ones are read, and is not among
them. -/
theorem renamed_thread_dropped :
    let persisted := workspaceOf "thread-1" [titled "thread-1" "Stored"]
    let current := workspaceOf "thread-2" [titled "thread-2" "Plans"]
    let initial := workspaceOf "thread-2" [titled "thread-2" "New conversation"]
    ¬ Merged plainText persisted current initial
      (mergeHydratedWorkspace plainText persisted current initial) := by
  intro persisted current initial h
  have htouched : Touched plainText initial (titled "thread-2" "Plans") := by decide
  have hkept := h.edited (titled "thread-2" "Plans") (by simp [current, workspaceOf]) htouched
  have honly : ∀ thread ∈ (mergeHydratedWorkspace plainText persisted current initial).threads,
      thread.id = units "thread-1" := by decide
  exact absurd (honly _ hkept) (by decide)

end AioLM.ChatHistory
