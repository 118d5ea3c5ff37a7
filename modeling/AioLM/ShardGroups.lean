import AioLM.KeyMap
import AioLM.Lists
import AioLM.ModelShards
import Mathlib.Data.List.Sort
import Mathlib.Data.List.Perm.Basic

/-!
How a scan puts the files of split models together, and when its answer agrees with
the launch check.
-/

set_option autoImplicit false

namespace AioLM.KeyMap

variable {κ α : Type} [LinearOrder κ]

theorem alterEntries_push_perm (key : κ) (x : α) (es : List (κ × List α)) :
    ((alterEntries key (fun vs => vs.getD [] ++ [x]) es).flatMap (·.2)).Perm
      (es.flatMap (·.2) ++ [x]) := by
  induction es with
  | nil => simp [alterEntries]
  | cons e es ih =>
    obtain ⟨k, vs⟩ := e
    simp only [alterEntries]
    split
    · simpa using (List.perm_append_singleton x (vs ++ es.flatMap (·.2))).symm
    · split
      · simpa using ih.append_left vs
      · simpa using (List.perm_append_singleton x (es.flatMap (·.2))).symm.append_left vs

theorem group_perm (xs : List (κ × α)) :
    ((group xs).entries.flatMap (·.2)).Perm (xs.map (·.2)) := by
  induction xs using List.reverseRecOn with
  | nil => exact .nil
  | append_singleton xs x ih =>
    have hgroup : group (xs ++ [x]) = (group xs).alter x.1 fun vs => vs.getD [] ++ [x.2] := by
      simp [group, List.foldl_append]
    rw [hgroup, List.map_append]
    exact (alterEntries_push_perm x.1 x.2 _).trans (ih.append_right _)

theorem mem_valuesAt {key : κ} {x : α} {xs : List (κ × α)} :
    x ∈ valuesAt key xs ↔ (key, x) ∈ xs := by
  rw [valuesAt, List.mem_filterMap]
  constructor
  · rintro ⟨⟨k, y⟩, hmem, heq⟩
    split at heq
    · rename_i hkey
      cases heq
      exact hkey ▸ hmem
    · cases heq
  · exact fun hmem => ⟨(key, x), hmem, by simp⟩

theorem mem_entries_group {key : κ} {vs : List α} {xs : List (κ × α)} :
    (key, vs) ∈ (group xs).entries ↔ vs = valuesAt key xs ∧ vs ≠ [] := by
  rw [← get_eq_some, get_group]
  split
  · rename_i hnone
    simp only [hnone, reduceCtorEq, false_iff, not_and, not_not]
    exact id
  · rename_i hsome
    rw [Option.some.injEq]
    exact ⟨fun h => ⟨h.symm, h ▸ hsome⟩, fun h => h.1.symm⟩

end AioLM.KeyMap

namespace AioLM.Models

open Discover (fiveDigits)
open Discover (extension)

def modelScanCancelled : Text := "model scan cancelled".toList

/-- A scan counts its looks at the flag, which may be raised before any of them. -/
abbrev Scan := StateT Nat (Except Text)

variable {α β F : Type} (cancel : Nat → Bool)

def checkCancelled : Scan Unit := fun look =>
  if cancel look then .error modelScanCancelled else .ok ((), look + 1)

def Gives (x : Scan α) (a : α) : Prop :=
  ∀ look, (∃ look', x look = .ok (a, look')) ∨
    (x look = .error modelScanCancelled ∧ ∃ n, cancel n = true)

variable {cancel} {x : Scan α} {a : α} {b : β} {f : α → Scan β}

theorem gives_pure (a : α) : Gives cancel (pure a) a := fun look => .inl ⟨look, rfl⟩

theorem Gives.bind (hx : Gives cancel x a) (hf : Gives cancel (f a) b) :
    Gives cancel (x >>= f) b := by
  intro look
  rcases hx look with ⟨look', hx⟩ | ⟨hx, hraised⟩
  · have hbind : (x >>= f) look = f a look' := by
      simp [Bind.bind, StateT.bind, hx, Except.bind]
    rw [hbind]
    exact hf look'
  · refine .inr ⟨?_, hraised⟩
    simp [Bind.bind, StateT.bind, hx, Except.bind]

theorem gives_checkCancelled : Gives cancel (checkCancelled cancel) () := by
  intro look
  cases h : cancel look with
  | false => exact .inl ⟨look + 1, by simp [checkCancelled, h]⟩
  | true => exact .inr ⟨by simp [checkCancelled, h], look, h⟩

structure ModelShards where
  files : List Path
  total : Nat
  missing : List Nat

/-- A local model; `F` are its sizes, floating point numbers. -/
structure GgufModel (F : Type) where
  name : Text
  path : Path
  sizeMb : F
  isVision : Bool
  shards : Option ModelShards

/-- Folder, base name and total: what the files of one model have in common. -/
abbrev GroupKey := Path ×ₗ Text ×ₗ Nat

def groupKey (folder : Path) (base : Text) (total : Nat) : GroupKey :=
  toLex (folder, toLex (base, total))

def shardKey (file : GgufModel F) : Option (GroupKey × Nat) :=
  (shardName file.name).map fun shard =>
    (groupKey ((parent file.path).getD []) shard.1 shard.2.2, shard.2.1)

section Group

variable (cancel)

def collect (models : List (GgufModel F)) (groups : KeyMap GroupKey (List (Nat × GgufModel F))) :
    List (GgufModel F) → Scan (List (GgufModel F) × KeyMap GroupKey (List (Nat × GgufModel F)))
  | [] => return (models, groups)
  | file :: files => do
    checkCancelled cancel
    match shardKey file with
    | some (key, index) =>
      collect models (groups.alter key fun parts => parts.getD [] ++ [(index, file)]) files
    | none => collect (models ++ [file]) groups files

def missingIndexes (present : List Nat) : List Nat → Scan (List Nat)
  | [] => return []
  | index :: indexes => do
    checkCancelled cancel
    let missing ← missingIndexes present indexes
    return if index ∈ present then missing else index :: missing

def joinParts (sum : List F → F) (key : GroupKey) (parts : List (Nat × GgufModel F)) :
    Scan (GgufModel F) := do
  let (_, rest) := ofLex key
  let (base, total) := ofLex rest
  checkCancelled cancel
  let parts := parts.insertionSort fun a b => a.1 ≤ b.1
  checkCancelled cancel
  let missing ← missingIndexes cancel (parts.map (·.1)) (List.range' 1 total)
  match parts with
  | [] => throw "index out of bounds".toList
  | (_, first) :: _ =>
    return { first with
      name := base ++ ".gguf".toList
      sizeMb := sum (parts.map (·.2.sizeMb))
      shards := some ⟨parts.map (·.2.path), total, missing⟩ }

def joinGroups (sum : List F → F) :
    List (GroupKey × List (Nat × GgufModel F)) → Scan (List (GgufModel F))
  | [] => return []
  | (key, parts) :: groups => do
    let model ← joinParts cancel sum key parts
    let models ← joinGroups sum groups
    return model :: models

def groupFiles (sum : List F → F) (files : List (GgufModel F)) : Scan (List (GgufModel F)) := do
  checkCancelled cancel
  let (models, groups) ← collect cancel [] KeyMap.empty files
  let joined ← joinGroups cancel sum groups.entries
  return models ++ joined

def groupShards (sum : List F → F) (files : List (GgufModel F)) :
    Except Text (List (GgufModel F)) :=
  (groupFiles cancel sum files).run' 0

end Group

def keyed (file : GgufModel F) : Option (GroupKey × Nat × GgufModel F) :=
  (shardKey file).map fun shard => (shard.1, shard.2, file)

theorem keyed_eq_some {file other : GgufModel F} {key : GroupKey} {index : Nat} :
    keyed file = some (key, index, other) ↔ file = other ∧ shardKey file = some (key, index) := by
  simp only [keyed, Option.map_eq_some_iff, Prod.mk.injEq]
  constructor
  · rintro ⟨⟨k, i⟩, hkey, rfl, rfl, rfl⟩
    exact ⟨rfl, hkey⟩
  · rintro ⟨rfl, hkey⟩
    exact ⟨(key, index), hkey, rfl, rfl, rfl⟩

def singles (files : List (GgufModel F)) : List (GgufModel F) :=
  files.filter fun file => (shardKey file).isNone

def partGroups (files : List (GgufModel F)) : KeyMap GroupKey (List (Nat × GgufModel F)) :=
  KeyMap.group (files.filterMap keyed)

theorem gives_collect (models files : List (GgufModel F))
    (groups : KeyMap GroupKey (List (Nat × GgufModel F))) :
    Gives cancel (collect cancel models groups files)
      (models ++ singles files, (files.filterMap keyed).foldl
        (fun m x => m.alter x.1 fun vs => vs.getD [] ++ [x.2]) groups) := by
  induction files generalizing models groups with
  | nil => simpa [collect, singles] using gives_pure _
  | cons file files ih =>
    refine gives_checkCancelled.bind ?_
    cases hkey : shardKey file with
    | none => simpa [singles, keyed, hkey] using ih (models ++ [file]) groups
    | some shard => simpa [singles, keyed, hkey] using ih models _

theorem gives_missingIndexes (present indexes : List Nat) :
    Gives cancel (missingIndexes cancel present indexes)
      (indexes.filter fun index => index ∉ present) := by
  induction indexes with
  | nil => exact gives_pure []
  | cons index indexes ih =>
    refine gives_checkCancelled.bind (ih.bind ?_)
    by_cases h : index ∈ present
    · simpa [h] using gives_pure _
    · simpa [h] using gives_pure _

def joined (sum : List F → F) (key : GroupKey) (first : GgufModel F)
    (parts : List (Nat × GgufModel F)) : GgufModel F :=
  { first with
    name := (ofLex (ofLex key).2).1 ++ ".gguf".toList
    sizeMb := sum (parts.map (·.2.sizeMb))
    shards := some
      { files := parts.map (·.2.path)
        total := (ofLex (ofLex key).2).2
        missing := (List.range' 1 (ofLex (ofLex key).2).2).filter fun index =>
          index ∉ parts.map (·.1) } }

def sortParts (parts : List (Nat × GgufModel F)) : List (Nat × GgufModel F) :=
  parts.insertionSort fun a b => a.1 ≤ b.1

theorem gives_joinParts {sum : List F → F} {key : GroupKey} {parts rest : List (Nat × GgufModel F)}
    {index : Nat} {first : GgufModel F} (h : sortParts parts = (index, first) :: rest) :
    Gives cancel (joinParts cancel sum key parts) (joined sum key first (sortParts parts)) := by
  refine gives_checkCancelled.bind (gives_checkCancelled.bind
    ((gives_missingIndexes _ _).bind ?_))
  rw [sortParts] at h
  simp only [joined, sortParts, h]
  exact gives_pure _

def groupEntry (sum : List F → F) (group : GroupKey × List (Nat × GgufModel F)) :
    Option (GgufModel F) :=
  (sortParts group.2).head?.map fun part => joined sum group.1 part.2 (sortParts group.2)

theorem sortParts_perm (parts : List (Nat × GgufModel F)) : (sortParts parts).Perm parts :=
  List.perm_insertionSort _ parts

theorem gives_joinGroups (sum : List F → F) {groups : List (GroupKey × List (Nat × GgufModel F))}
    (h : ∀ group ∈ groups, group.2 ≠ []) :
    Gives cancel (joinGroups cancel sum groups) (groups.filterMap (groupEntry sum)) := by
  induction groups with
  | nil => exact gives_pure []
  | cons group groups ih =>
    obtain ⟨hgroup, hgroups⟩ := List.forall_mem_cons.mp h
    cases hparts : sortParts group.2 with
    | nil => exact absurd (hparts ▸ sortParts_perm group.2).symm.eq_nil hgroup
    | cons part rest =>
      have hentry : groupEntry sum group =
          some (joined sum group.1 part.2 (sortParts group.2)) := by
        simp only [groupEntry, hparts, List.head?_cons, Option.map_some]
      rw [List.filterMap_cons_some hentry]
      exact (gives_joinParts hparts).bind ((ih hgroups).bind (gives_pure _))

def grouped (sum : List F → F) (files : List (GgufModel F)) : List (GgufModel F) :=
  singles files ++ (partGroups files).entries.filterMap (groupEntry sum)

theorem groupShards_gives (cancel : Nat → Bool) (sum : List F → F) (files : List (GgufModel F)) :
    groupShards cancel sum files = .ok (grouped sum files) ∨
      (groupShards cancel sum files = .error modelScanCancelled ∧ ∃ n, cancel n = true) := by
  have hentries : Gives cancel (joinGroups cancel sum (partGroups files).entries) _ :=
    gives_joinGroups sum fun _ hgroup => (KeyMap.mem_entries_group.mp hgroup).2
  have hgives : Gives cancel (groupFiles cancel sum files) (grouped sum files) :=
    gives_checkCancelled.bind ((gives_collect [] files KeyMap.empty).bind
      (hentries.bind (gives_pure _)))
  rcases hgives 0 with ⟨look, hok⟩ | ⟨herror, hraised⟩
  · exact .inl (congrArg (Except.map Prod.fst) hok)
  · exact .inr ⟨congrArg (Except.map Prod.fst) herror, hraised⟩

variable {files : List (GgufModel F)} {key : GroupKey} {file other : GgufModel F} {index : Nat}

def partsOf (files : List (GgufModel F)) (key : GroupKey) : List (Nat × GgufModel F) :=
  sortParts (KeyMap.valuesAt key (files.filterMap keyed))

theorem mem_partsOf :
    (index, file) ∈ partsOf files key ↔ file ∈ files ∧ shardKey file = some (key, index) := by
  rw [partsOf, (sortParts_perm _).mem_iff, KeyMap.mem_valuesAt, List.mem_filterMap]
  simp only [keyed_eq_some]
  constructor
  · rintro ⟨_, hfile, rfl, hkey⟩
    exact ⟨hfile, hkey⟩
  · rintro ⟨hfile, hkey⟩
    exact ⟨file, hfile, rfl, hkey⟩

theorem sorted_partsOf : (partsOf files key).Pairwise fun a b => a.1 ≤ b.1 := by
  have : Std.Total fun a b : Nat × GgufModel F => a.1 ≤ b.1 := ⟨fun a b => Nat.le_total a.1 b.1⟩
  have : IsTrans (Nat × GgufModel F) fun a b => a.1 ≤ b.1 := ⟨fun _ _ _ => Nat.le_trans⟩
  exact List.pairwise_insertionSort _ _

theorem mem_grouped {sum : List F → F} {entry : GgufModel F} :
    entry ∈ grouped sum files ↔ (entry ∈ files ∧ shardKey entry = none) ∨
      ∃ key index first rest, partsOf files key = (index, first) :: rest ∧
        entry = joined sum key first (partsOf files key) := by
  rw [grouped, List.mem_append, singles, List.mem_filter, Option.isNone_iff_eq_none,
    List.mem_filterMap]
  refine or_congr Iff.rfl ⟨?_, ?_⟩
  · rintro ⟨⟨key, parts⟩, hgroup, hentry⟩
    obtain ⟨rfl, -⟩ := KeyMap.mem_entries_group.mp hgroup
    obtain ⟨⟨index, first⟩, hfirst, rfl⟩ := Option.map_eq_some_iff.mp hentry
    obtain ⟨rest, hrest⟩ := List.head?_eq_some_iff.mp hfirst
    exact ⟨key, index, first, rest, hrest, rfl⟩
  · rintro ⟨key, index, first, rest, hparts, rfl⟩
    refine ⟨(key, KeyMap.valuesAt key (files.filterMap keyed)), ?_, ?_⟩
    · refine KeyMap.mem_entries_group.mpr ⟨rfl, fun hnil => ?_⟩
      simp [partsOf, hnil, sortParts] at hparts
    · have hfirst : (partsOf files key).head? = some (index, first) := by rw [hparts]; rfl
      exact congrArg (Option.map fun part => joined sum key part.2 (partsOf files key)) hfirst

structure Listing (files : List (GgufModel F)) : Prop where
  distinct : (files.map (·.path)).Nodup
  named : ∀ file ∈ files, fileName file.path = some file.name
  single : ∀ file ∈ files, file.shards = none

/-- A file in a folder that is the shard `index` of `total`, with its spelling of the
extension. -/
structure IsShard (file : GgufModel F) (folder : Path) (base : Text) (total index : Nat)
    (ext : Text) : Prop where
  path : file.path = join folder (shardFile base index total ext)
  gguf : IsGguf ext
  base_ne : base ≠ []
  range : 1 ≤ index ∧ index ≤ total
  read : ∀ other, 1 ≤ other → other ≤ total → ∀ ext, IsGguf ext →
    shardName (shardFile base other total ext) = some (base, other, total)

theorem IsShard.extension {folder : Path} {base ext : Text} {total : Nat}
    (h : IsShard file folder base total index ext) (hname : fileName file.path = some file.name) :
    extension file.name = some ext := by
  rw [h.path, fileName_join, Option.some.injEq] at hname
  rw [← hname]
  exact extension_shardFile h.gguf h.base_ne index total

theorem exists_isShard (hname : fileName file.path = some file.name)
    (h : shardKey file = some (key, index)) :
    ∃ folder base total ext, key = groupKey folder base total ∧
      IsShard file folder base total index ext := by
  obtain ⟨⟨base, index', total⟩, hshard, heq⟩ := Option.map_eq_some_iff.mp h
  obtain ⟨folder, hpath⟩ := exists_join hname
  obtain ⟨ext, hgguf, hfile, hbase, hone, hbound, hrange⟩ := shardName_eq_some.mp hshard
  cases heq
  rw [hpath, parent_join]
  refine ⟨folder, base, total, ext, rfl, hfile ▸ hpath, hgguf, hbase, hrange, ?_⟩
  intro other hpositive hle ext' hext'
  exact shardName_eq_some.mpr ⟨ext', hext', rfl, hbase, hone, hbound, hpositive, hle⟩

theorem shardKey_of_path {folder : Path} {base ext : Text} {total other : Nat}
    (hname : fileName file.path = some file.name)
    (hpath : file.path = join folder (shardFile base other total ext))
    (hread : shardName (shardFile base other total ext) = some (base, other, total)) :
    shardKey file = some (groupKey folder base total, other) := by
  rw [hpath, fileName_join, Option.some.injEq] at hname
  rw [shardKey, ← hname, hread, hpath, parent_join]
  rfl

def pathIndex (path : Path) : Option Nat :=
  ((fileName path).bind shardName).map fun shard => shard.2.1

def keyTotal (key : GroupKey) : Nat := (ofLex (ofLex key).2).2

section Listed

variable (h : Listing files)
include h

theorem Listing.eq_of_path (hfile : file ∈ files) (hother : other ∈ files)
    (hpath : file.path = other.path) : file = other :=
  Lists.eq_of_key_eq h.distinct hfile hother hpath

theorem Listing.eq_of_place (hfile : file ∈ files) (hother : other ∈ files)
    (hkey : shardKey file = some (key, index)) (hkey' : shardKey other = some (key, index))
    (hext : extension file.name = extension other.name) : file = other := by
  obtain ⟨folder, base, total, ext, rfl, hshard⟩ := exists_isShard (h.named _ hfile) hkey
  obtain ⟨folder', base', total', ext', heq, hshard'⟩ := exists_isShard (h.named _ hother) hkey'
  cases heq
  rw [hshard.extension (h.named _ hfile), hshard'.extension (h.named _ hother),
    Option.some.injEq] at hext
  subst hext
  exact h.eq_of_path hfile hother (hshard.path.trans hshard'.path.symm)

theorem Listing.exists_path_iff {folder : Path} {base ext : Text} {total k : Nat}
    (hread : shardName (shardFile base k total ext) = some (base, k, total)) (hext : IsGguf ext)
    (hbase : base ≠ []) :
    join folder (shardFile base k total ext) ∈ files.map (·.path) ↔
      ∃ file ∈ files, shardKey file = some (groupKey folder base total, k) ∧
        extension file.name = some ext := by
  rw [List.mem_map]
  constructor
  · rintro ⟨file, hfile, hpath⟩
    have hname := h.named file hfile
    refine ⟨file, hfile, shardKey_of_path hname hpath hread, ?_⟩
    rw [hpath, fileName_join, Option.some.injEq] at hname
    rw [← hname]
    exact extension_shardFile hext hbase k total
  · rintro ⟨file, hfile, hkey, hspelled⟩
    obtain ⟨folder', base', total', ext', heq, hshard⟩ := exists_isShard (h.named _ hfile) hkey
    cases heq
    rw [hshard.extension (h.named _ hfile), Option.some.injEq] at hspelled
    exact ⟨file, hfile, hspelled ▸ hshard.path⟩

theorem Listing.nodup_partsOf : (partsOf files key).Nodup := by
  rw [partsOf, (sortParts_perm _).nodup_iff]
  refine List.Nodup.filterMap ?_ (List.Nodup.filterMap ?_ h.distinct.of_map)
  · rintro ⟨k, x⟩ ⟨k', x'⟩ y hx hx'
    split at hx <;> split at hx' <;> simp_all
  · rintro file other ⟨k, i, x⟩ hx hx'
    rw [Option.mem_def, keyed_eq_some] at hx hx'
    exact hx.1.trans hx'.1.symm

theorem Listing.ascending_iff :
    (partsOf files key).Pairwise (fun a b => a.1 < b.1) ↔
      ∀ file ∈ files, ∀ other ∈ files, ∀ index, shardKey file = some (key, index) →
        shardKey other = some (key, index) → file = other := by
  constructor
  · intro hlt file hfile other hother index hkey hkey'
    have hnodup : ((partsOf files key).map (·.1)).Nodup :=
      List.pairwise_map.mpr (hlt.imp fun hlt => hlt.ne)
    have heq := Lists.eq_of_key_eq hnodup (mem_partsOf.mpr ⟨hfile, hkey⟩)
      (mem_partsOf.mpr ⟨hother, hkey'⟩) rfl
    exact (Prod.mk.inj heq).2
  · intro hunique
    refine (sorted_partsOf.and h.nodup_partsOf).imp_of_mem ?_
    rintro ⟨i, file⟩ ⟨j, other⟩ hpart hpart' ⟨hle, hne⟩
    refine lt_of_le_of_ne hle fun heq => hne ?_
    obtain ⟨hfile, hkey⟩ := mem_partsOf.mp hpart
    obtain ⟨hother, hkey'⟩ := mem_partsOf.mp hpart'
    dsimp only at heq
    subst heq
    rw [hunique file hfile other hother i hkey hkey']

theorem Listing.pathIndex_eq (hfile : file ∈ files) (hkey : shardKey file = some (key, index)) :
    pathIndex file.path = some index := by
  obtain ⟨shard, hshard, heq⟩ := Option.map_eq_some_iff.mp hkey
  rw [pathIndex, h.named file hfile, Option.bind_some, hshard, Option.map_some]
  exact congrArg some (Prod.mk.inj heq).2

end Listed

def entryPaths (entry : GgufModel F) : List Path :=
  match entry.shards with
  | none => [entry.path]
  | some shards => shards.files

def complete (entry : GgufModel F) : Bool := entry.shards.all fun shards => shards.missing.isEmpty

def onDisk (display : Path → Text) (files : List (GgufModel F)) : FileSystem where
  isFile path := path ∈ files.map (·.path)
  display := display

/-- No file is lost, the record of a group tells what is there and what is not, and what
is called complete is what can be launched. -/
structure Faithful (display : Path → Text) (files entries : List (GgufModel F)) : Prop where
  placed : (entries.flatMap entryPaths).Perm (files.map (·.path))
  together : ∀ entry ∈ entries, ∀ shards ∈ entry.shards, ∃ key, shards.total = keyTotal key ∧
    ∀ path, path ∈ shards.files ↔
      ∃ file ∈ files, file.path = path ∧ ∃ index, shardKey file = some (key, index)
  missing : ∀ entry ∈ entries, ∀ shards ∈ entry.shards, ∀ index, index ∈ shards.missing ↔
    1 ≤ index ∧ index ≤ shards.total ∧ ∀ path ∈ shards.files, pathIndex path ≠ some index
  ordered : ∀ entry ∈ entries, ∀ shards ∈ entry.shards, shards.files.Pairwise fun a b =>
    ∃ i j, pathIndex a = some i ∧ pathIndex b = some j ∧ i < j
  agrees : ∀ entry ∈ entries, complete entry = true ↔
    validateModelShards (onDisk display files) entry.path = .ok ()

/-- Wherever two files of a group spell the extension differently, they have different
indexes, and the group lacks a file. -/
def SpelledAlike (files : List (GgufModel F)) : Prop :=
  ∀ file ∈ files, ∀ other ∈ files, ∀ key i j, shardKey file = some (key, i) →
    shardKey other = some (key, j) → extension file.name ≠ extension other.name →
    i ≠ j ∧ ∃ k, 1 ≤ k ∧ k ≤ keyTotal key ∧ ∀ third ∈ files, shardKey third ≠ some (key, k)

variable {sum : List F → F} {first : GgufModel F} {rest : List (Nat × GgufModel F)}

theorem perm_singles (files : List (GgufModel F)) :
    (singles files ++ (files.filterMap keyed).map (·.2.2)).Perm files := by
  induction files with
  | nil => exact .nil
  | cons file files ih =>
    cases hkey : shardKey file with
    | none => simpa [singles, keyed, hkey] using ih
    | some shard =>
      have hcons : (file :: files).filterMap keyed =
          (shard.1, shard.2, file) :: files.filterMap keyed := by simp [keyed, hkey]
      have hsingles : singles (file :: files) = singles files := by simp [singles, hkey]
      rw [hcons, hsingles, List.map_cons]
      exact List.perm_middle.trans (ih.cons file)

theorem entryPaths_grouped (h : ∀ file ∈ files, file.shards = none) :
    ((grouped sum files).flatMap entryPaths).Perm (files.map (·.path)) := by
  have hsingles : (singles files).flatMap entryPaths = (singles files).map (·.path) := by
    rw [List.map_eq_flatMap]
    refine List.flatMap_congr fun file hfile => ?_
    rw [entryPaths, h file (List.mem_of_mem_filter hfile)]
  have hentry : ∀ group : GroupKey × List (Nat × GgufModel F),
      (groupEntry sum group).elim [] entryPaths = (sortParts group.2).map (·.2.path) := by
    intro group
    rw [groupEntry]
    cases hparts : sortParts group.2 with
    | nil => rfl
    | cons part rest => simp [joined, entryPaths]
  have hgroups : ((partGroups files).entries.flatMap fun group =>
      (sortParts group.2).map (·.2.path)).Perm
      ((files.filterMap keyed).map fun x => x.2.2.path) := by
    refine (List.Perm.flatMap_left _ fun group _ => (sortParts_perm group.2).map _).trans ?_
    have hperm := (KeyMap.group_perm (files.filterMap keyed)).map (·.2.path)
    rw [List.map_flatMap, List.map_map] at hperm
    exact hperm
  rw [grouped, List.flatMap_append, hsingles, Lists.flatMap_filterMap]
  simp only [hentry]
  refine (hgroups.append_left _).trans ?_
  have hall := (perm_singles files).map (·.path)
  rwa [List.map_append, List.map_map] at hall

theorem mem_map_partsOf :
    index ∈ (partsOf files key).map (·.1) ↔ ∃ file ∈ files, shardKey file = some (key, index) := by
  rw [List.mem_map]
  constructor
  · rintro ⟨⟨index, file⟩, hpart, rfl⟩
    exact ⟨file, mem_partsOf.mp hpart⟩
  · rintro ⟨file, hfile⟩
    exact ⟨(index, file), mem_partsOf.mpr hfile, rfl⟩

def Full (files : List (GgufModel F)) (key : GroupKey) : Prop :=
  ∀ k, 1 ≤ k → k ≤ keyTotal key → ∃ file ∈ files, shardKey file = some (key, k)

theorem complete_joined :
    complete (joined sum key first (partsOf files key)) = true ↔ Full files key := by
  simp only [complete, joined, Option.all_some, List.isEmpty_iff, List.filter_eq_nil_iff,
    List.mem_range'_1, decide_eq_true_eq, not_not, mem_map_partsOf, Full, keyTotal]
  constructor
  · intro hall k hone hle
    exact hall k ⟨hone, by omega⟩
  · intro hall k hrange
    exact hall k hrange.1 (by omega)

section Agreement

variable {display : Path → Text} (h : Listing files)
include h

theorem Listing.launch_iff (hfile : file ∈ files) (hkey : shardKey file = some (key, index)) :
    validateModelShards (onDisk display files) file.path = .ok () ↔
      index = 1 ∧ ∀ k, 1 ≤ k → k ≤ keyTotal key → ∃ other ∈ files,
        shardKey other = some (key, k) ∧ extension other.name = extension file.name := by
  obtain ⟨folder, base, total, ext, rfl, hshard⟩ := exists_isShard (h.named _ hfile) hkey
  have hread := fun k hone hle => hshard.read k hone hle ext hshard.gguf
  rw [hshard.path, validateModelShards_join (hread index hshard.range.1 hshard.range.2)
    hshard.gguf hshard.base_ne, hshard.extension (h.named _ hfile)]
  refine and_congr_right fun _ => forall_congr' fun k => forall_congr' fun hone =>
    forall_congr' fun hle => ?_
  rw [onDisk, decide_eq_true_eq]
  exact h.exists_path_iff (hread k hone hle) hshard.gguf hshard.base_ne

theorem Listing.absent_iff :
    (∀ path ∈ (partsOf files key).map (·.2.path), pathIndex path ≠ some index) ↔
      index ∉ (partsOf files key).map (·.1) := by
  rw [List.forall_mem_map, List.mem_map, not_exists]
  refine forall_congr' fun part => ?_
  obtain ⟨i, file⟩ := part
  rw [not_and]
  refine forall_congr' fun hpart => ?_
  obtain ⟨hfile, hkey⟩ := mem_partsOf.mp hpart
  rw [h.pathIndex_eq hfile hkey, Ne, Option.some.injEq]

theorem Listing.ordered_iff :
    ((partsOf files key).map (·.2.path)).Pairwise (fun a b =>
      ∃ i j, pathIndex a = some i ∧ pathIndex b = some j ∧ i < j) ↔
      (partsOf files key).Pairwise fun a b => a.1 < b.1 := by
  rw [List.pairwise_map]
  refine List.Pairwise.iff_of_mem ?_
  rintro ⟨i, file⟩ ⟨j, other⟩ hpart hpart'
  obtain ⟨hfile, hkey⟩ := mem_partsOf.mp hpart
  obtain ⟨hother, hkey'⟩ := mem_partsOf.mp hpart'
  rw [h.pathIndex_eq hfile hkey, h.pathIndex_eq hother hkey']
  simp

theorem Listing.range (hfile : file ∈ files) (hkey : shardKey file = some (key, index)) :
    1 ≤ index ∧ index ≤ keyTotal key := by
  obtain ⟨folder, base, total, ext, rfl, hshard⟩ := exists_isShard (h.named _ hfile) hkey
  exact hshard.range

theorem Listing.unique_of_spelledAlike (hs : SpelledAlike files) (hfile : file ∈ files)
    (hother : other ∈ files) (hkey : shardKey file = some (key, index))
    (hkey' : shardKey other = some (key, index)) : file = other := by
  by_contra hne
  refine (hs file hfile other hother key index index hkey hkey' fun hext => hne ?_).1 rfl
  exact h.eq_of_place hfile hother hkey hkey' hext

theorem Listing.agrees_of_spelledAlike (hs : SpelledAlike files)
    (hparts : partsOf files key = (index, first) :: rest) :
    Full files key ↔ validateModelShards (onDisk display files) first.path = .ok () := by
  obtain ⟨hfirst, hkey⟩ := mem_partsOf.mp (hparts ▸ List.mem_cons_self :
    (index, first) ∈ partsOf files key)
  have hrange := h.range hfirst hkey
  rw [h.launch_iff hfirst hkey]
  constructor
  · intro hfull
    constructor
    · obtain ⟨file, hfile, hone⟩ := hfull 1 (Nat.le_refl 1) (hrange.1.trans hrange.2)
      have hmem := mem_partsOf.mpr ⟨hfile, hone⟩
      have hsorted : (partsOf files key).Pairwise fun a b => a.1 ≤ b.1 := sorted_partsOf
      rw [hparts] at hmem hsorted
      rcases List.mem_cons.mp hmem with heq | hmem
      · exact (Prod.mk.inj heq).1.symm
      · exact Nat.le_antisymm ((List.pairwise_cons.mp hsorted).1 _ hmem) hrange.1
    · intro k hone hle
      obtain ⟨file, hfile, hk⟩ := hfull k hone hle
      refine ⟨file, hfile, hk, ?_⟩
      by_contra hne
      obtain ⟨-, absent, hpositive, hbound, hnone⟩ :=
        hs file hfile first hfirst key k index hk hkey hne
      obtain ⟨third, hthird, hplace⟩ := hfull absent hpositive hbound
      exact hnone third hthird hplace
  · rintro ⟨-, hall⟩ k hone hle
    obtain ⟨file, hfile, hk, -⟩ := hall k hone hle
    exact ⟨file, hfile, hk⟩

theorem Listing.faithful_of_spelledAlike (hs : SpelledAlike files) :
    Faithful display files (grouped sum files) := by
  have hascending : ∀ key, (partsOf files key).Pairwise fun a b => a.1 < b.1 := fun key =>
    h.ascending_iff.mpr fun file hfile other hother index hkey hkey' =>
      h.unique_of_spelledAlike hs hfile hother hkey hkey'
  have hentries : ∀ {entry shards}, entry ∈ grouped sum files → shards ∈ entry.shards →
      ∃ key index first rest, partsOf files key = (index, first) :: rest ∧
        entry = joined sum key first (partsOf files key) := by
    intro entry shards hentry hshards
    rcases mem_grouped.mp hentry with ⟨hfile, -⟩ | hgroup
    · rw [h.single entry hfile] at hshards
      cases hshards
    · exact hgroup
  constructor
  case placed => exact entryPaths_grouped h.single
  case together =>
    intro entry hentry shards hshards
    obtain ⟨key, index, first, rest, -, rfl⟩ := hentries hentry hshards
    cases hshards
    refine ⟨key, rfl, fun path => ?_⟩
    rw [List.mem_map]
    constructor
    · rintro ⟨⟨i, file⟩, hpart, rfl⟩
      exact ⟨file, (mem_partsOf.mp hpart).1, rfl, i, (mem_partsOf.mp hpart).2⟩
    · rintro ⟨file, hfile, rfl, i, hkey⟩
      exact ⟨(i, file), mem_partsOf.mpr ⟨hfile, hkey⟩, rfl⟩
  case missing =>
    intro entry hentry shards hshards k
    obtain ⟨key, index, first, rest, -, rfl⟩ := hentries hentry hshards
    cases hshards
    rw [h.absent_iff, List.mem_filter, List.mem_range'_1, decide_eq_true_eq, and_assoc,
      Nat.lt_one_add_iff]
  case ordered =>
    intro entry hentry shards hshards
    obtain ⟨key, index, first, rest, -, rfl⟩ := hentries hentry hshards
    cases hshards
    exact h.ordered_iff.mpr (hascending key)
  case agrees =>
    intro entry hentry
    rcases mem_grouped.mp hentry with ⟨hfile, hnone⟩ | ⟨key, index, first, rest, hparts, rfl⟩
    · have hname : shardName entry.name = none := Option.map_eq_none_iff.mp hnone
      simp [complete, h.single entry hfile,
        validateModelShards_of_none (h.named entry hfile) hname]
    · have hlaunch : Full files key ↔
          validateModelShards (onDisk display files) first.path = .ok () :=
        h.agrees_of_spelledAlike hs hparts
      rw [complete_joined]
      exact hlaunch

theorem Listing.spelledAlike_of_faithful (hf : Faithful display files (grouped sum files)) :
    SpelledAlike files := by
  intro file hfile other hother key i j hkey hkey' hext
  cases hparts : partsOf files key with
  | nil =>
    have hpart := mem_partsOf.mpr ⟨hfile, hkey⟩
    rw [hparts] at hpart
    cases hpart
  | cons part rest =>
    obtain ⟨index, first⟩ := part
    have hentry : joined sum key first (partsOf files key) ∈ grouped sum files :=
      mem_grouped.mpr (.inr ⟨key, index, first, rest, hparts, rfl⟩)
    have hunique := h.ascending_iff.mp (h.ordered_iff.mp (hf.ordered _ hentry _ rfl))
    refine ⟨?_, ?_⟩
    · rintro rfl
      exact hext (by rw [hunique file hfile other hother i hkey hkey'])
    · by_contra hnone
      have hfull : Full files key := by
        intro k hone hle
        by_contra hk
        exact hnone ⟨k, hone, hle, fun third hthird heq => hk ⟨third, hthird, heq⟩⟩
      obtain ⟨hfirst, hplace⟩ := mem_partsOf.mp (hparts ▸ List.mem_cons_self :
        (index, first) ∈ partsOf files key)
      have hlaunch := (hf.agrees _ hentry).mp (complete_joined.mpr hfull)
      have hall := ((h.launch_iff hfirst hplace).mp hlaunch).2
      have hspelled : ∀ file ∈ files, ∀ i, shardKey file = some (key, i) →
          extension file.name = extension first.name := by
        intro file hfile i hkey
        have hrange := h.range hfile hkey
        obtain ⟨third, hthird, hsame, hext⟩ := hall i hrange.1 hrange.2
        rwa [hunique third hthird file hfile i hsame hkey] at hext
      exact hext ((hspelled file hfile i hkey).trans (hspelled other hother j hkey').symm)

end Agreement

/-- A scan that is not cancelled gives its entries; they are what the launch check makes of
the files wherever the extensions of a group are spelled alike. -/
theorem groupShards_faithful_iff {display : Path → Text} (h : Listing files) :
    ((∀ look, cancel look = false) → ∃ entries, groupShards cancel sum files = .ok entries) ∧
    ∀ entries, groupShards cancel sum files = .ok entries →
      (Faithful display files entries ↔ SpelledAlike files) := by
  rcases groupShards_gives cancel sum files with hok | ⟨herror, look, hraised⟩
  · refine ⟨fun _ => ⟨_, hok⟩, fun entries hentries => ?_⟩
    rw [hok] at hentries
    cases hentries
    exact ⟨h.spelledAlike_of_faithful, h.faithful_of_spelledAlike⟩
  · constructor
    · intro hquiet
      rw [hquiet look] at hraised
      cases hraised
    · intro entries hentries
      rw [herror] at hentries
      cases hentries

def modelsFolder : Path := [.root, .normal "models".toList]

def filesIn (names : List String) : List (GgufModel Nat) :=
  names.map fun name => ⟨name.toList, join modelsFolder name.toList, 1, false, none⟩

def twoModels : List (GgufModel Nat) :=
  filesIn ["a-00002-of-00002.gguf", "b.gguf", "a-00001-of-00002.gguf"]

theorem groupShards_faithful_iff_two :
    Listing twoModels ∧ ∃ entries, groupShards (fun _ => false) List.sum twoModels = .ok entries ∧
      Faithful (fun _ => []) twoModels entries := by
  have hlisting : Listing twoModels := ⟨by decide +kernel, by decide +kernel, by decide +kernel⟩
  obtain ⟨hgives, hfaithful⟩ :=
    @groupShards_faithful_iff Nat (fun _ => false) twoModels List.sum (fun _ => []) hlisting
  obtain ⟨entries, hentries⟩ := hgives fun _ => rfl
  refine ⟨hlisting, entries, hentries, (hfaithful entries hentries).mpr ?_⟩
  have hspelled : ∀ file ∈ twoModels, extension file.name = some "gguf".toList := by
    decide +kernel
  intro file hfile other hother key i j _ _ hext
  exact absurd ((hspelled file hfile).trans (hspelled other hother).symm) hext

def mixedCase : List (GgufModel Nat) := filesIn ["a-00001-of-00002.gguf", "a-00002-of-00002.GGUF"]

def mixedEntry : GgufModel Nat where
  name := "a.gguf".toList
  path := join modelsFolder "a-00001-of-00002.gguf".toList
  sizeMb := 2
  isVision := false
  shards := some ⟨mixedCase.map (·.path), 2, []⟩

/-- Two shards with `gguf` and `GGUF` make a complete entry that is not launched. -/
theorem mixed_spelling_not_launched :
    Listing mixedCase ∧ groupShards (fun _ => false) List.sum mixedCase = .ok [mixedEntry] ∧
      complete mixedEntry = true ∧
      ∀ display, validateModelShards (onDisk display mixedCase) mixedEntry.path =
          .error ("model shard is missing: ".toList ++
            display (join modelsFolder "a-00002-of-00002.gguf".toList)) ∧
        ¬ Faithful display mixedCase [mixedEntry] := by
  have hlaunch : ∀ display, validateModelShards (onDisk display mixedCase) mixedEntry.path =
      .error ("model shard is missing: ".toList ++
        display (join modelsFolder "a-00002-of-00002.gguf".toList)) := fun _ => rfl
  refine ⟨⟨by decide +kernel, by decide +kernel, by decide +kernel⟩, rfl, rfl, fun display => ?_⟩
  refine ⟨hlaunch display, fun hfaithful => ?_⟩
  have hok := (hfaithful.agrees mixedEntry List.mem_cons_self).mp rfl
  rw [hlaunch display] at hok
  cases hok

end AioLM.Models
