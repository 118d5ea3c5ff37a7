import Mathlib.Data.Char
import Mathlib.Data.List.Lex
import AioLM.KeyMap
import AioLM.TextBytes

/-!
Copying a folder entry by entry: what is left to do at any moment, and that nothing is left out
where no name is passed over.
-/

set_option autoImplicit false

namespace AioLM.Branding

abbrev Path := List Text

inductive Leaf where
  | dir
  | file (bytes : Bytes)
  | link (dangling : Bool)
  deriving DecidableEq

/-- A folder or a single file, by the paths below it. -/
abbrev Tree := KeyMap Path Leaf

/-- Every entry lies in a folder. -/
def closed (tree : Tree) : Bool :=
  tree.entries.all fun entry => entry.1.isEmpty || tree.get entry.1.dropLast == some .dir

inductive Failure where
  | system
  | linkedPath
  | linkedStage
  | sourceChanged
  | alreadyRunning
  | cannotMove
  deriving DecidableEq

def skip (name : Text) : Bool :=
  ["LOCK", "SingletonLock", "SingletonCookie", "SingletonSocket", "headless-state.json",
      "headless-command.lock", "downloads", "Cache", "Code Cache", "GPUCache", "Crashpad"].any
    (fun skipped => name == skipped.toList) ||
  ".lock".toList.isSuffixOf name || ".pid".toList.isSuffixOf name ||
  ".part".toList.isSuffixOf name || ".staging".toList.isPrefixOf name ||
  ".backup".toList.isPrefixOf name

/-- The names in a folder. -/
def readDir (tree : Tree) (path : Path) : List Text :=
  tree.entries.filterMap fun entry =>
    if entry.1 ≠ [] ∧ entry.1.dropLast = path then entry.1.getLast? else none

/-- What is still to be copied: a folder, an entry of one, or the bytes of a created file. -/
inductive Task where
  | tree (path : Path)
  | entry (path : Path)
  | fill (path : Path)
  deriving DecidableEq

def Task.path : Task → Path
  | .tree path => path
  | .entry path => path
  | .fill path => path

/-- One operation of `copy_tree`: what it leaves to do instead, and the copy. -/
def copyStep (source copy : Tree) : Task → Except Failure (List Task × Tree)
  | .tree path =>
    match source.get path with
    | some .dir =>
      .ok (((readDir source path).filter fun name => !skip name).map fun name =>
        .entry (path ++ [name]), copy.insert path .dir)
    | some (.link _) => .error .linkedPath
    | _ => .error .system
  | .entry path =>
    match source.get path with
    | some .dir => .ok ([.tree path], copy)
    | some (.file _) => .ok ([.fill path], copy.insert path (.file []))
    | some (.link _) => .error .linkedPath
    | none => .error .system
  | .fill path =>
    match source.get path with
    | some (.file bytes) => .ok ([], copy.insert path (.file bytes))
    | _ => .error .sourceChanged

def writeSome (source copy : Tree) (count : Nat) : Task → Option Tree
  | .fill path =>
    match source.get path with
    | some (.file bytes) => some (copy.insert path (.file (bytes.take count)))
    | _ => none
  | _ => none

/-- What a copy takes of a tree: nothing at or below a name that is passed over. -/
def kept (tree : Tree) : Tree :=
  tree.filterMap fun path leaf => if path.any skip then none else some leaf

def removeEntry (tree : Tree) (path : Path) : Option Tree :=
  if (tree.get path).isSome ∧ readDir tree path = [] then some (tree.erase path) else none

variable {source copy copy' : Tree} {tasks new : List Task}

theorem mem_readDir {tree : Tree} {path : Path} {name : Text} :
    name ∈ readDir tree path ↔ (tree.get (path ++ [name])).isSome := by
  constructor
  · intro h
    obtain ⟨entry, hentry, hname⟩ := List.mem_filterMap.mp h
    split at hname
    · rename_i hpath
      have hlast : entry.1.dropLast ++ [name] = entry.1 :=
        List.dropLast_append_getLast? name hname
      have hget : tree.get entry.1 = some entry.2 := KeyMap.get_eq_some.mpr hentry
      rw [← hpath.2, hlast, hget]
      rfl
    · cases hname
  · intro h
    obtain ⟨leaf, hleaf⟩ := Option.isSome_iff_exists.mp h
    refine List.mem_filterMap.mpr ⟨_, KeyMap.get_eq_some.mp hleaf, ?_⟩
    simp

theorem closed_parent {tree : Tree} (h : closed tree = true) {path : Path} {name : Text}
    (hname : (tree.get (path ++ [name])).isSome) : tree.get path = some .dir := by
  obtain ⟨leaf, hleaf⟩ := Option.isSome_iff_exists.mp hname
  have hentry := List.all_eq_true.mp h _ (KeyMap.get_eq_some.mp hleaf)
  simpa using hentry

theorem closed_below {tree : Tree} (h : closed tree = true) {path : Path} (name : Text) (rest : Path)
    (hbelow : (tree.get (path ++ name :: rest)).isSome) :
    tree.get path = some .dir ∧ (tree.get (path ++ [name])).isSome := by
  induction rest using List.reverseRecOn with
  | nil => exact ⟨closed_parent h hbelow, hbelow⟩
  | append_singleton rest last ih =>
    have happend : path ++ name :: (rest ++ [last]) = (path ++ name :: rest) ++ [last] := by simp
    rw [happend] at hbelow
    exact ih (by rw [closed_parent h hbelow]; rfl)

theorem eq_of_file {tree : Tree} (h : closed tree = true) {path q : Path} {leaf : Leaf}
    (hpath : tree.get path = some leaf) (hleaf : leaf ≠ .dir) (hq : (tree.get q).isSome)
    (hbelow : path <+: q) : q = path := by
  obtain ⟨rest, rfl⟩ := hbelow
  cases rest with
  | nil => exact List.append_nil _
  | cons name rest =>
    have hdir := (closed_below h name rest hq).1
    rw [hpath] at hdir
    exact absurd (Option.some.inj hdir) hleaf

theorem get_kept (tree : Tree) (path : Path) :
    (kept tree).get path = if path.any skip then none else tree.get path := by
  rw [kept, KeyMap.get_filterMap]
  split <;> cases tree.get path <;> rfl

theorem get_kept_of_taken {tree : Tree} {path : Path} (h : path.any skip = false) :
    (kept tree).get path = tree.get path := by
  rw [get_kept]
  exact if_neg (Bool.eq_false_iff.mp h)

theorem get_kept_of_some {tree : Tree} {path : Path} (h : ((kept tree).get path).isSome) :
    path.any skip = false ∧ (kept tree).get path = tree.get path := by
  rw [get_kept] at h ⊢
  split at h
  · cases h
  · rename_i hskip
    exact ⟨Bool.eq_false_iff.mpr hskip, if_neg hskip⟩

theorem closed_iff {tree : Tree} :
    closed tree = true ↔
      ∀ path, (tree.get path).isSome → path = [] ∨ tree.get path.dropLast = some .dir := by
  constructor
  · intro h path hpath
    obtain ⟨leaf, hleaf⟩ := Option.isSome_iff_exists.mp hpath
    simpa using List.all_eq_true.mp h _ (KeyMap.get_eq_some.mp hleaf)
  · intro h
    refine List.all_eq_true.mpr fun entry hentry => ?_
    have hleaf : tree.get entry.1 = some entry.2 := KeyMap.get_eq_some.mpr hentry
    simpa using h entry.1 (by simp [hleaf])

theorem closed_kept {tree : Tree} (h : closed tree = true) : closed (kept tree) = true := by
  refine closed_iff.mpr fun path hpath => ?_
  obtain ⟨hskip, hsame⟩ := get_kept_of_some hpath
  refine (closed_iff.mp h path (hsame ▸ hpath)).imp_right fun hdir => ?_
  have hparent : path.dropLast.any skip = false :=
    List.any_eq_false.mpr fun name hname =>
      List.any_eq_false.mp hskip name ((List.dropLast_sublist path).subset hname)
  rw [get_kept, hparent, hdir]
  rfl

theorem readDir_kept (tree : Tree) {path : Path} (h : path.any skip = false) :
    readDir (kept tree) path = (readDir tree path).filter fun name => !skip name := by
  rw [readDir, readDir, kept, KeyMap.filterMap, List.filterMap_filterMap, List.filter_filterMap]
  refine List.filterMap_congr fun entry _ => ?_
  obtain ⟨at', leaf⟩ := entry
  induction at' using List.reverseRecOn with
  | nil => simp
  | append_singleton folder name _ =>
    by_cases hfolder : folder = path
    · subst hfolder
      by_cases hname : skip name = true <;> simp [h, hname, Option.filter]
    · by_cases hany : (folder ++ [name]).any skip = true <;> simp_all

theorem copyStep_kept {task : Task} (h : task.path.any skip = false) :
    copyStep (kept source) copy task = copyStep source copy task := by
  have hget : (kept source).get task.path = source.get task.path := get_kept_of_taken h
  cases task with
  | tree path =>
    replace h : path.any skip = false := h
    have hnames : ((readDir (kept source) path).filter fun name => !skip name) =
        (readDir source path).filter fun name => !skip name := by
      rw [readDir_kept source h, List.filter_filter]
      simp
    simp only [Task.path] at hget
    simp only [copyStep, hget, hnames]
  | entry path =>
    simp only [Task.path] at hget
    simp only [copyStep, hget]
  | fill path =>
    simp only [Task.path] at hget
    simp only [copyStep, hget]

/-- What the copy holds while the tasks are still to be done. -/
structure Copying (source copy : Tree) (tasks : List Task) : Prop where
  taken : ∀ task ∈ tasks, task.path.any skip = false
  covered : ∀ path, ((kept source).get path).isSome →
    copy.get path = (kept source).get path ∨ ∃ task ∈ tasks, task.path <+: path
  within : ∀ path, (copy.get path).isSome →
    copy.get path = (kept source).get path ∨
      ((kept source).get path).isSome ∧ .fill path ∈ tasks

theorem Copying.start (root : Task) (h : root.path = []) :
    Copying source KeyMap.empty [root] where
  taken task htask := by
    rw [List.mem_singleton.mp htask, h]
    rfl
  covered path _ := .inr ⟨root, by simp, by rw [h]; exact List.nil_prefix⟩
  within path hpath := by
    rw [KeyMap.get_empty] at hpath
    cases hpath

theorem Copying.done (h : Copying source copy []) : copy = kept source := by
  refine KeyMap.ext_get fun path => ?_
  cases hsource : (kept source).get path with
  | some leaf =>
    rcases h.covered path (by simp [hsource]) with hsame | ⟨task, htask, -⟩
    · rw [hsame, hsource]
    · cases htask
  | none =>
    cases hcopy : copy.get path with
    | none => rfl
    | some leaf =>
      rcases h.within path (by simp [hcopy]) with hsame | ⟨hthere, -⟩
      · rw [← hcopy, hsame, hsource]
      · rw [hsource] at hthere
        cases hthere

theorem Copying.insert (h : Copying source copy tasks) {path : Path} {leaf : Leaf}
    {tasks' : List Task} (htaken : ∀ task ∈ tasks', task.path.any skip = false)
    (hsource : ((kept source).get path).isSome)
    (hleaf : (kept source).get path = some leaf ∨ .fill path ∈ tasks')
    (hcovered : ∀ q, ((kept source).get q).isSome → (∃ task ∈ tasks, task.path <+: q) →
      q = path ∧ (kept source).get path = some leaf ∨ ∃ task ∈ tasks', task.path <+: q)
    (hfill : ∀ q, q ≠ path → .fill q ∈ tasks → .fill q ∈ tasks') :
    Copying source (copy.insert path leaf) tasks' where
  taken := htaken
  covered q hq := by
    rw [KeyMap.get_insert]
    split
    · rename_i hsame
      subst hsame
      rcases hleaf with hleaf | hleaf
      · exact .inl hleaf.symm
      · exact .inr ⟨_, hleaf, List.prefix_refl _⟩
    · rename_i hne
      rcases h.covered q hq with hsame | hcover
      · exact .inl hsame
      · rcases hcovered q hq hcover with ⟨heq, -⟩ | htask
        · exact absurd heq hne
        · exact .inr htask
  within q hq := by
    rw [KeyMap.get_insert] at hq ⊢
    split
    · rename_i hsame
      subst hsame
      exact hleaf.imp Eq.symm fun hmem => ⟨hsource, hmem⟩
    · rename_i hne
      rw [if_neg hne] at hq
      exact (h.within q hq).imp_right (And.imp_right (hfill q hne))

theorem copyStep_tree {path : Path} (h : copyStep source copy (.tree path) = .ok (new, copy')) :
    source.get path = some .dir ∧ copy' = copy.insert path .dir ∧
      new = ((readDir source path).filter fun name => !skip name).map fun name =>
        .entry (path ++ [name]) := by
  simp only [copyStep] at h
  split at h
  · rename_i hdir
    cases h
    exact ⟨hdir, rfl, rfl⟩
  · cases h
  · cases h

theorem copyStep_entry {path : Path} (h : copyStep source copy (.entry path) = .ok (new, copy')) :
    source.get path = some .dir ∧ copy' = copy ∧ new = [.tree path] ∨
      ∃ bytes, source.get path = some (.file bytes) ∧ copy' = copy.insert path (.file []) ∧
        new = [.fill path] := by
  simp only [copyStep] at h
  split at h
  · rename_i hdir
    cases h
    exact .inl ⟨hdir, rfl, rfl⟩
  · rename_i bytes hfile
    cases h
    exact .inr ⟨bytes, hfile, rfl, rfl⟩
  · cases h
  · cases h

theorem copyStep_fill {path : Path} (h : copyStep source copy (.fill path) = .ok (new, copy')) :
    ∃ bytes, source.get path = some (.file bytes) ∧ copy' = copy.insert path (.file bytes) ∧
      new = [] := by
  simp only [copyStep] at h
  split at h
  · rename_i bytes hfile
    cases h
    exact ⟨bytes, hfile, rfl, rfl⟩
  · cases h

theorem taken_append {task : Task} (h : ∀ t ∈ task :: tasks, t.path.any skip = false)
    (hnew : ∀ t ∈ new, t.path = task.path ∨ ∃ name, skip name = false ∧ t.path = task.path ++ [name]) :
    ∀ t ∈ new ++ tasks, t.path.any skip = false := by
  intro t ht
  rcases List.mem_append.mp ht with ht | ht
  · have htask := h task (by simp)
    rcases hnew t ht with heq | ⟨name, hname, heq⟩
    · rw [heq, htask]
    · rw [heq, List.any_append, htask]
      simp [hname]
  · exact h t (by simp [ht])

theorem Copying.step {task : Task} (h : Copying source copy (task :: tasks))
    (hclosed : closed source = true) (hstep : copyStep source copy task = .ok (new, copy')) :
    Copying source copy' (new ++ tasks) := by
  replace hclosed := closed_kept hclosed
  rw [← copyStep_kept (h.taken task (by simp))] at hstep
  cases task with
  | tree path =>
    obtain ⟨hdir, rfl, rfl⟩ := copyStep_tree hstep
    refine h.insert (taken_append h.taken fun t ht => ?_) (by simp [hdir]) (.inl hdir)
      (fun q hq hcover => ?_) (fun q hne hfill => ?_)
    · obtain ⟨name, hname, rfl⟩ := List.mem_map.mp ht
      exact .inr ⟨name, by simpa using (List.mem_filter.mp hname).2, rfl⟩
    · obtain ⟨task, htask, hprefix⟩ := hcover
      rcases List.mem_cons.mp htask with rfl | htask
      · obtain ⟨rest, rfl⟩ := hprefix
        cases rest with
        | nil => exact .inl ⟨List.append_nil _, hdir⟩
        | cons name rest =>
          obtain ⟨-, hname⟩ := closed_below hclosed name rest hq
          have hskip : skip name = false :=
            Bool.eq_false_iff.mpr
              (List.any_eq_false.mp (get_kept_of_some hname).1 name (by simp))
          refine .inr ⟨.entry (path ++ [name]), List.mem_append_left _ ?_, ?_⟩
          · exact List.mem_map_of_mem
              (List.mem_filter.mpr ⟨mem_readDir.mpr hname, by simp [hskip]⟩)
          · exact ⟨rest, by simp [Task.path]⟩
      · exact .inr ⟨task, List.mem_append_right _ htask, hprefix⟩
    · rcases List.mem_cons.mp hfill with heq | hfill
      · cases heq
      · exact List.mem_append_right _ hfill
  | entry path =>
    rcases copyStep_entry hstep with ⟨hdir, rfl, rfl⟩ | ⟨bytes, hfile, rfl, rfl⟩
    · constructor
      · exact taken_append h.taken fun t ht => .inl (by rw [List.mem_singleton.mp ht]; rfl)
      · intro q hq
        refine (h.covered q hq).imp_right fun hcover => ?_
        obtain ⟨task, htask, hprefix⟩ := hcover
        rcases List.mem_cons.mp htask with rfl | htask
        · exact ⟨.tree path, by simp, hprefix⟩
        · exact ⟨task, by simp [htask], hprefix⟩
      · intro q hq
        refine (h.within q hq).imp_right (And.imp_right fun hfill => ?_)
        rcases List.mem_cons.mp hfill with heq | hfill
        · cases heq
        · simp [hfill]
    · refine h.insert (taken_append h.taken fun t ht => ?_) (by simp [hfile]) (.inr (by simp))
        (fun q hq hcover => ?_) (fun q hne hfill => ?_)
      · exact .inl (by rw [List.mem_singleton.mp ht]; rfl)
      · obtain ⟨task, htask, hprefix⟩ := hcover
        rcases List.mem_cons.mp htask with rfl | htask
        · exact .inr ⟨.fill path, by simp, hprefix⟩
        · exact .inr ⟨task, by simp [htask], hprefix⟩
      · rcases List.mem_cons.mp hfill with heq | hfill
        · cases heq
        · simp [hfill]
  | fill path =>
    obtain ⟨bytes, hfile, rfl, rfl⟩ := copyStep_fill hstep
    refine h.insert (taken_append h.taken fun t ht => by cases ht) (by simp [hfile]) (.inl hfile)
      (fun q hq hcover => ?_) (fun q hne hfill => ?_)
    · obtain ⟨task, htask, hprefix⟩ := hcover
      rcases List.mem_cons.mp htask with rfl | htask
      · exact .inl ⟨eq_of_file hclosed hfile (by simp) hq hprefix, hfile⟩
      · exact .inr ⟨task, by simpa using htask, hprefix⟩
    · rcases List.mem_cons.mp hfill with heq | hfill
      · cases heq
        exact absurd rfl hne
      · simpa using hfill

theorem Copying.writeSome {task : Task} {count : Nat} (h : Copying source copy (task :: tasks))
    (hwrite : writeSome source copy count task = some copy') :
    Copying source copy' (task :: tasks) := by
  unfold Branding.writeSome at hwrite
  split at hwrite
  · rename_i path
    split at hwrite
    · rename_i bytes hfile
      cases hwrite
      have hthere : ((kept source).get path).isSome := by
        have hskip : path.any skip = false := h.taken (.fill path) (by simp)
        rw [get_kept_of_taken hskip, hfile]
        rfl
      exact h.insert h.taken hthere (.inr (by simp)) (fun q hq hcover => .inr hcover)
        (fun q hne hfill => hfill)
    · cases hwrite
  · cases hwrite

end AioLM.Branding
