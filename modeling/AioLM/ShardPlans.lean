import AioLM.ShardNames
import Mathlib.Data.List.Perm.Subperm

/-!
The download plan of a snapshot: which listings are accepted, and that the order of the
listing decides nothing but the order of the plan.
-/

set_option autoImplicit false

namespace AioLM.Discover

open Fallible

/-- The listing page by page; `page` answers the files of one and the address of the next. -/
def treePages (page : Text → Except Text (List ApiTreeEntry × Option Text)) :
    Nat → List Text → List ApiTreeEntry → Option Text → Except Text (List ApiTreeEntry)
  | _, _, entries, none => .ok entries
  | 0, _, _, some _ => .error "repository pagination exceeded its limit".toList
  | left + 1, visited, entries, some url => do
    require (url ∉ visited) "repository pagination exceeded its limit".toList
    let (listed, next) ← page url
    let entries := entries ++ listed
    require (entries.length ≤ maxTreeEntries) "repository contains too many files".toList
    treePages page left (url :: visited) entries next

def repositoryTree (page : Text → Except Text (List ApiTreeEntry × Option Text)) (url : Text) :
    Except Text (List ApiTreeEntry) :=
  treePages page 100 [] [] (some url)

variable {page : Text → Except Text (List ApiTreeEntry × Option Text)}

theorem length_treePages {left : Nat} {visited : List Text} {entries listing : List ApiTreeEntry}
    {next : Option Text} (hentries : entries.length ≤ maxTreeEntries)
    (h : treePages page left visited entries next = .ok listing) :
    listing.length ≤ maxTreeEntries := by
  induction left generalizing visited entries next with
  | zero =>
    cases next with
    | none =>
      cases h
      exact hentries
    | some url => cases h
  | succ left ih =>
    cases next with
    | none =>
      cases h
      exact hentries
    | some url =>
      obtain ⟨_, -, h⟩ := bind_eq_ok.mp h
      obtain ⟨⟨listed, next⟩, -, h⟩ := bind_eq_ok.mp h
      obtain ⟨_, hlength, h⟩ := bind_eq_ok.mp h
      exact ih (require_eq_ok.mp hlength) h

theorem length_repositoryTree {url : Text} {listing : List ApiTreeEntry}
    (h : repositoryTree page url = .ok listing) : listing.length ≤ maxTreeEntries :=
  length_treePages (Nat.zero_le _) h

def planned (entry : ApiTreeEntry) : SnapshotFile :=
  ⟨entry.path, entry.size, entry.lfs.join.or entry.oid⟩

def acceptedEntry (entry : ApiTreeEntry) : Bool :=
  entry.entryType == "file".toList && acceptedPath entry.path

def acceptedFiles (entries : List ApiTreeEntry) : List SnapshotFile :=
  (entries.filter acceptedEntry).map planned

theorem planFiles_eq_ok {seen : List Text} {entries : List ApiTreeEntry}
    {files : List SnapshotFile} :
    planFiles seen entries = .ok files ↔
      files = entries.map planned ∧
      (∀ file ∈ files, safeDataFile file.path = .ok () ∧ file.size ≤ maxModelBytes) ∧
      (files.map fun file => Text.toAsciiLower file.path).Nodup ∧
      ∀ file ∈ files, Text.toAsciiLower file.path ∉ seen := by
  induction entries generalizing seen files with
  | nil =>
    simp only [planFiles, Except.ok.injEq, List.map_nil]
    constructor
    · rintro rfl
      simp
    · rintro ⟨rfl, -⟩
      rfl
  | cons entry entries ih =>
    rw [planFiles]
    simp only [bind_eq_ok, require_eq_ok, pure, Except.pure, Except.ok.injEq]
    constructor
    · rintro ⟨_, hsafe, _, hseen, _, hsize, rest, hrest, rfl⟩
      obtain ⟨rfl, hfiles, hnodup, hnew⟩ := ih.mp hrest
      refine ⟨rfl, ?_, ?_, ?_⟩
      · exact List.forall_mem_cons.mpr ⟨⟨hsafe, hsize⟩, hfiles⟩
      · refine List.nodup_cons.mpr ⟨?_, hnodup⟩
        intro hmem
        obtain ⟨file, hfile, heq⟩ := List.mem_map.mp hmem
        exact hnew file hfile (heq ▸ List.mem_cons_self)
      · refine List.forall_mem_cons.mpr ⟨hseen, fun file hfile hmem => ?_⟩
        exact hnew file hfile (List.mem_cons_of_mem _ hmem)
    · rintro ⟨rfl, hfiles, hnodup, hnew⟩
      obtain ⟨hfirst, hfiles⟩ := List.forall_mem_cons.mp hfiles
      obtain ⟨hseen, hnew⟩ := List.forall_mem_cons.mp hnew
      obtain ⟨hother, hnodup⟩ := List.nodup_cons.mp hnodup
      refine ⟨(), hfirst.1, (), hseen, (), hfirst.2, entries.map planned, ?_, rfl⟩
      refine ih.mpr ⟨rfl, hfiles, hnodup, fun file hfile hmem => ?_⟩
      rcases List.mem_cons.mp hmem with heq | hmem
      · exact hother (List.mem_map.mpr ⟨file, hfile, heq⟩)
      · exact hnew file hfile hmem

def ShardsListed (names : List Text) (path : Text) : Prop :=
  ∀ base part count, part < 100000 → count < 100000 → path = shardName base part count →
    1 ≤ part ∧ part ≤ count ∧ ∀ other, 1 ≤ other → other ≤ count →
      shardName base other count ∈ names

variable {names groups : List Text} {path base : Text} {count : Nat}

def groupName (base : Text) (count : Nat) : Text := base ++ "-of-".toList ++ fiveDigits count

theorem groupName_injective {base' : Text} {count' : Nat} (h : count < 100000)
    (h' : count' < 100000) (heq : groupName base count = groupName base' count') :
    base = base' ∧ count = count' := by
  have hlength := (FiveDigits.of_lt h).length.trans (FiveDigits.of_lt h').length.symm
  obtain ⟨hbase, hdigits⟩ := List.append_inj' heq hlength
  exact ⟨List.append_cancel_right hbase, Padded.padded_injective hdigits⟩

theorem shardName_part_injective {part part' : Nat}
    (h : shardName base part count = shardName base part' count) : part = part' := by
  simp only [shardName, List.append_assoc, List.cons_append, List.append_cancel_left_eq,
    List.cons.injEq, true_and] at h
  exact Padded.padded_injective (List.append_cancel_right h)

theorem count_le_of_listed (hnames : names.length ≤ maxTreeEntries)
    (h : ∀ other, 1 ≤ other → other ≤ count → shardName base other count ∈ names) :
    count ≤ maxTreeEntries := by
  have hnodup : ((List.range count).map fun part => shardName base (part + 1) count).Nodup := by
    refine List.nodup_range.map fun part part' heq => ?_
    exact Nat.succ_injective (shardName_part_injective heq)
  have hsubset : (List.range count).map (fun part => shardName base (part + 1) count) ⊆ names := by
    intro name hname
    obtain ⟨part, hpart, rfl⟩ := List.mem_map.mp hname
    exact h (part + 1) (by omega) (List.mem_range.mp hpart)
  have hle := (hnodup.subperm hsubset).length_le
  rw [List.length_map, List.length_range] at hle
  exact hle.trans hnames

theorem shard_path_iff {index total : Text} :
    (Text.stripSuffix ".safetensors".toList path).bind shardOf = some (base, index, total) ↔
      FiveDigits index ∧ FiveDigits total ∧
        path = shardName base (Nat.ofDigitChars 10 index 0) (Nat.ofDigitChars 10 total 0) := by
  simp only [Option.bind_eq_some_iff, stripSuffix_eq_some, shardOf_eq_some]
  constructor
  · rintro ⟨stem, rfl, rfl, hindex, htotal⟩
    exact ⟨hindex, htotal, by rw [shardName, hindex.eq_value.2, htotal.eq_value.2]⟩
  · rintro ⟨hindex, htotal, rfl⟩
    rw [shardName, hindex.eq_value.2, htotal.eq_value.2]
    exact ⟨_, rfl, rfl, hindex, htotal⟩

theorem shardOf_shardName {part : Nat} (hpart : part < 100000) (hcount : count < 100000) :
    (Text.stripSuffix ".safetensors".toList (shardName base part count)).bind shardOf =
      some (base, fiveDigits part, fiveDigits count) := by
  refine shard_path_iff.mpr ⟨FiveDigits.of_lt hpart, FiveDigits.of_lt hcount, ?_⟩
  rw [fiveDigits_eq_padded, fiveDigits_eq_padded, Padded.value_padded, Padded.value_padded]

def GroupListed (names : List Text) (group : Text) : Prop :=
  ∃ base count, count < 100000 ∧ group = groupName base count ∧
    ∀ other, 1 ≤ other → other ≤ count → shardName base other count ∈ names

theorem shardsListed_of_none
    (h : (Text.stripSuffix ".safetensors".toList path).bind shardOf = none) :
    ShardsListed names path := by
  rintro base part count hpart hcount rfl
  rw [shardOf_shardName hpart hcount] at h
  cases h

theorem shardsListed_of_some {index total : Text}
    (h : (Text.stripSuffix ".safetensors".toList path).bind shardOf = some (base, index, total)) :
    ShardsListed names path ↔
      1 ≤ Nat.ofDigitChars 10 index 0 ∧
      Nat.ofDigitChars 10 index 0 ≤ Nat.ofDigitChars 10 total 0 ∧
      ∀ other, 1 ≤ other → other ≤ Nat.ofDigitChars 10 total 0 →
        shardName base other (Nat.ofDigitChars 10 total 0) ∈ names := by
  obtain ⟨hindex, htotal, hpath⟩ := shard_path_iff.mp h
  constructor
  · intro hlisted
    exact hlisted _ _ _ hindex.eq_value.1 htotal.eq_value.1 hpath
  · rintro hlisted base' part count hpart hcount rfl
    rw [shardOf_shardName hpart hcount] at h
    cases h
    simpa only [fiveDigits_eq_padded, Padded.value_padded] using hlisted

theorem members_iff :
    (∀ part ∈ List.range count, require (shardName base (part + 1) count ∈ names)
      ("snapshot is missing weight shard: ".toList ++ shardName base (part + 1) count) = .ok ()) ↔
      ∀ other, 1 ≤ other → other ≤ count → shardName base other count ∈ names := by
  simp only [require_eq_ok, List.mem_range]
  constructor
  · intro h other hpositive hle
    simpa [Nat.sub_add_cancel hpositive] using h (other - 1) (by omega)
  · intro h part hpart
    exact h (part + 1) (by omega) hpart

theorem checkShards_eq_ok (hnames : names.length ≤ maxTreeEntries) {files : List SnapshotFile}
    (hgroups : ∀ group ∈ groups, GroupListed names group) :
    checkShards names groups files = .ok () ↔ ∀ file ∈ files, ShardsListed names file.path := by
  induction files generalizing groups with
  | nil => simp [checkShards]
  | cons file files ih =>
    rw [checkShards, List.forall_mem_cons]
    split
    · rename_i hnone
      rw [ih hgroups]
      exact (and_iff_right (shardsListed_of_none hnone)).symm
    · rename_i base index total hsome
      have hcount := (shard_path_iff.mp hsome).2.1.eq_value.1
      rw [shardsListed_of_some hsome]
      generalize Nat.ofDigitChars 10 index 0 = part at *
      generalize Nat.ofDigitChars 10 total 0 = count at *
      constructor
      · intro h
        obtain ⟨_, hrange, h⟩ := bind_eq_ok.mp h
        obtain ⟨hpositive, hle, -⟩ := require_eq_ok.mp hrange
        dsimp only at h
        split at h
        · rename_i hknown
          obtain ⟨base', count', hcount', heq, hlisted⟩ := hgroups _ hknown
          obtain ⟨rfl, rfl⟩ := groupName_injective hcount hcount' heq
          exact ⟨⟨Nat.pos_of_ne_zero hpositive, hle, hlisted⟩, (ih hgroups).mp h⟩
        · obtain ⟨_, hall, h⟩ := bind_eq_ok.mp h
          have hlisted := members_iff.mp (forM_eq_ok.mp hall)
          refine ⟨⟨Nat.pos_of_ne_zero hpositive, hle, hlisted⟩, (ih ?_).mp h⟩
          exact List.forall_mem_cons.mpr ⟨⟨base, count, hcount, rfl, hlisted⟩, hgroups⟩
      · rintro ⟨⟨hpositive, hle, hlisted⟩, hrest⟩
        have hbound := count_le_of_listed hnames hlisted
        refine bind_eq_ok.mpr ⟨(), require_eq_ok.mpr ⟨by omega, hle, hbound⟩, ?_⟩
        dsimp only
        split
        · exact (ih hgroups).mpr hrest
        · refine bind_eq_ok.mpr ⟨(), forM_eq_ok.mpr (members_iff.mpr hlisted), (ih ?_).mpr hrest⟩
          exact List.forall_mem_cons.mpr ⟨⟨base, count, hcount, rfl, hlisted⟩, hgroups⟩

structure Complete (files : List SnapshotFile) : Prop where
  safe : ∀ file ∈ files, safeDataFile file.path = .ok ()
  bounded : ∀ file ∈ files, file.size ≤ maxModelBytes
  distinct : (files.map fun file => Text.toAsciiLower file.path).Nodup
  config : "config.json".toList ∈ files.map (·.path)
  weights : ∃ file ∈ files, '/' ∉ file.path ∧ ".safetensors".toList <:+ file.path
  tokenizer : (∃ name ∈ tokenizerNames, name ∈ files.map (·.path)) ∨
    ("vocab.json".toList ∈ files.map (·.path) ∧ "merges.txt".toList ∈ files.map (·.path))
  shards : ∀ file ∈ files, ShardsListed (files.map (·.path)) file.path

variable {entries entries' : List ApiTreeEntry} {files : List SnapshotFile}

theorem length_acceptedFiles : (acceptedFiles entries).length ≤ entries.length := by
  rw [acceptedFiles, List.length_map]
  exact List.length_filter_le _ _

theorem root_weights_iff :
    (files.map (·.path)).any
        (fun path => !path.contains '/' && ".safetensors".toList.isSuffixOf path) = true ↔
      ∃ file ∈ files, '/' ∉ file.path ∧ ".safetensors".toList <:+ file.path := by
  simp [List.isSuffixOf_iff_suffix]

theorem tokenizer_iff {names : List Text} :
    tokenizerNames.any names.contains = true ↔ ∃ name ∈ tokenizerNames, name ∈ names := by
  simp

theorem planSnapshot_eq_ok (h : entries.length ≤ maxTreeEntries) :
    planSnapshot entries = .ok files ↔
      Complete (acceptedFiles entries) ∧ files = acceptedFiles entries := by
  have hfilter : (entries.filter fun entry =>
      entry.entryType == "file".toList && acceptedPath entry.path) =
      entries.filter acceptedEntry := rfl
  have hnames : ((acceptedFiles entries).map (·.path)).length ≤ maxTreeEntries := by
    rw [List.length_map]
    exact length_acceptedFiles.trans h
  simp only [planSnapshot, hfilter, bind_eq_ok, require_eq_ok, planFiles_eq_ok, root_weights_iff,
    tokenizer_iff, pure, Except.pure, Except.ok.injEq]
  constructor
  · rintro ⟨_, ⟨rfl, hfiles, hnodup, -⟩, _, ⟨hconfig, hweights⟩, _, htokenizer, _, hshards, rfl⟩
    refine ⟨⟨fun file hfile => (hfiles file hfile).1, fun file hfile => (hfiles file hfile).2,
      hnodup, hconfig, hweights, htokenizer, ?_⟩, rfl⟩
    exact (checkShards_eq_ok hnames (by simp)).mp hshards
  · rintro ⟨hc, rfl⟩
    refine ⟨acceptedFiles entries, ⟨rfl, fun file hfile => ⟨hc.safe file hfile,
      hc.bounded file hfile⟩, hc.distinct, by simp⟩, (), ⟨hc.config, hc.weights⟩, (),
      hc.tokenizer, (), ?_, rfl⟩
    exact (checkShards_eq_ok hnames (by simp)).mpr hc.shards

theorem acceptedFiles_perm (h : entries.Perm entries') :
    (acceptedFiles entries).Perm (acceptedFiles entries') :=
  (h.filter _).map _

theorem ShardsListed.subset {names names' : List Text} {path : Text} (hsub : names ⊆ names')
    (h : ShardsListed names path) : ShardsListed names' path := by
  intro base part count hpart hcount hpath
  obtain ⟨hpositive, hle, hlisted⟩ := h base part count hpart hcount hpath
  exact ⟨hpositive, hle, fun other hone hcount => hsub (hlisted other hone hcount)⟩

theorem Complete.perm {files' : List SnapshotFile} (hperm : files.Perm files')
    (h : Complete files) : Complete files' := by
  have hmem : ∀ file, file ∈ files' ↔ file ∈ files := fun file => hperm.mem_iff.symm
  have hnames := hperm.map (·.path)
  refine ⟨?_, ?_, (hperm.map _).nodup_iff.mp h.distinct, hnames.subset h.config, ?_, ?_, ?_⟩
  · exact fun file hfile => h.safe file ((hmem file).mp hfile)
  · exact fun file hfile => h.bounded file ((hmem file).mp hfile)
  · obtain ⟨file, hfile, hroot⟩ := h.weights
    exact ⟨file, (hmem file).mpr hfile, hroot⟩
  · rcases h.tokenizer with ⟨name, hname, hlisted⟩ | ⟨hvocab, hmerges⟩
    · exact .inl ⟨name, hname, hnames.subset hlisted⟩
    · exact .inr ⟨hnames.subset hvocab, hnames.subset hmerges⟩
  · exact fun file hfile => (h.shards file ((hmem file).mp hfile)).subset hnames.subset

theorem planSnapshot_isOk (h : entries.length ≤ maxTreeEntries) :
    (planSnapshot entries).isOk = true ↔ Complete (acceptedFiles entries) := by
  constructor
  · intro hok
    obtain ⟨files, hfiles⟩ := exists_of_isOk hok
    exact ((planSnapshot_eq_ok h).mp hfiles).1
  · intro hc
    rw [(planSnapshot_eq_ok h).mpr ⟨hc, rfl⟩]
    rfl

theorem planSnapshot_repositoryTree {page : Text → Except Text (List ApiTreeEntry × Option Text)}
    {url : Text} {files : List SnapshotFile} (h : repositoryTree page url = .ok entries) :
    planSnapshot entries = .ok files ↔
      Complete (acceptedFiles entries) ∧ files = acceptedFiles entries :=
  planSnapshot_eq_ok (length_repositoryTree h)

/-- A plan is made of the accepted files as they are listed, when they are complete; in
another order of the listing it is made of the same files. -/
theorem planSnapshot_complete (h : entries.length ≤ maxTreeEntries) :
    (∀ files, planSnapshot entries = .ok files ↔
      Complete (acceptedFiles entries) ∧ files = acceptedFiles entries) ∧
    ∀ entries', entries.Perm entries' →
      ((planSnapshot entries).isOk = true ↔ (planSnapshot entries').isOk = true) ∧
      (acceptedFiles entries).Perm (acceptedFiles entries') := by
  refine ⟨fun files => planSnapshot_eq_ok h, fun entries' hperm => ?_⟩
  have hfiles := acceptedFiles_perm hperm
  rw [planSnapshot_isOk h, planSnapshot_isOk (hperm.length_eq ▸ h)]
  exact ⟨⟨fun hc => hc.perm hfiles, fun hc => hc.perm hfiles.symm⟩, hfiles⟩

def listed (names : List String) : List ApiTreeEntry :=
  names.map fun name => ⟨name.toList, 1, none, none, "file".toList⟩

theorem planSnapshot_complete_base_of :
    (planSnapshot (listed ["a-of-00002-00001-of-00001.safetensors", "tokenizer.json",
      "README.md", "config.json"])).isOk = true ∧
    (planSnapshot (listed ["config.json", "a-of-00002-00001-of-00001.safetensors",
      "tokenizer.json", "README.md"])).isOk = true := by
  have h := (planSnapshot_complete (show (listed ["a-of-00002-00001-of-00001.safetensors",
    "tokenizer.json", "README.md", "config.json"]).length ≤ maxTreeEntries by decide)).2
    (listed ["config.json", "a-of-00002-00001-of-00001.safetensors", "tokenizer.json",
      "README.md"]) (List.Perm.map _ (by decide))
  exact ⟨by decide +kernel, h.1.mp (by decide +kernel)⟩

end AioLM.Discover
