import Mathlib.Data.List.Sort
import AioLM.OwnerMigration
import AioLM.Paging

/-!
The paginated list of owned submissions, and what following its cursors visits of an
owners folder in which some files cannot be read.
-/

set_option autoImplicit false

namespace AioLM.Owners

open Effect

structure OwnedItem where
  submissionId : Text
  credentialRef : Text
  destination : Text
  createdAtMs : Nat
  deriving DecidableEq

def Record.item (record : Record) : OwnedItem where
  submissionId := record.submissionId
  credentialRef := record.credentialRef
  destination := record.destination
  createdAtMs := record.createdAtMs

def maxListLimit : Nat := 100
def maxListSkips : Nat := 128

/-- `limit.clamp(1, MAX_LIST_LIMIT)` -/
def clampLimit (limit : Nat) : Nat := max 1 (min limit maxListLimit)

def validCursor (cursor : Text) : Bool :=
  cursor.utf8Len == 64 && cursor.all Discover.isHexDigit

/-- `name[..64]`; the names it is taken of are ASCII when they pass `isRecordFile`. -/
def stem (name : Text) : Text := name.take 64

def isFile : Node → Bool
  | .file _ => true
  | _ => false

def isRecordFile (entry : Text × Node) : Bool :=
  isFile entry.2 && entry.1.utf8Len == 69 && ".json".toList.isSuffixOf entry.1 &&
    validCursor (stem entry.1)

/-- The first place where a condition that holds of the beginning of a list fails. -/
def partitionPoint {α : Type} (p : α → Bool) (xs : List α) : Nat := (xs.takeWhile p).length

/-- The loop over the names: at most one item more than the limit, and not behind more
skipped files than it may meet. -/
def scanNames (pkg : Packages) (owners : KeyMap Text Node) (limit : Nat) :
    List (Text × OwnedItem) → Nat → List Text → List (Text × OwnedItem)
  | page, _, [] => page
  | page, skips, name :: names =>
    if limit < page.length then page
    else if maxListSkips < skips then page
    else
      match readRecordFile pkg (owners.get name) with
      | .ok (some record) =>
        scanNames pkg owners limit (page ++ [(stem name, record.item)]) skips names
      | .ok none => scanNames pkg owners limit page skips names
      | .error _ => scanNames pkg owners limit page (skips + 1) names

/-- What a call of the listing meets: the migration it begins with, whether the folder can
be listed, and the order of its entries. -/
structure Listing where
  call : Call
  listed : Bool
  order : List (Text × Node) → List (Text × Node)
  perm : ∀ entries, (order entries).Perm entries

def listOwned (pkg : Packages) (env : Listing) (after : Option Text) (limit : Nat) :
    Migrating (List OwnedItem × Option Text) := do
  ensureMigrated pkg env.call
  let limit := clampLimit limit
  if after.any fun cursor => !validCursor cursor then
    throw (.failed (.bindingConflict "The ownership cursor is invalid.".toList))
  match (← get).owners with
  | none => return ([], none)
  | some owners =>
    if !env.listed then throw (.failed unavailable)
    let names := (((env.order owners.entries).filter isRecordFile).map (·.1)).insertionSort (· ≤ ·)
    -- stems are compared, so that the record of the cursor itself is left out
    let start := match after with
      | some cursor => partitionPoint (fun name => decide (stem name ≤ cursor)) names
      | none => 0
    let page := scanNames pkg owners limit [] 0 (names.drop start)
    if limit < page.length then
      return (page.dropLast.map (·.2), page.dropLast.getLast?.map (·.1))
    else return (page.map (·.2), none)

/-- What the calls return together that follow the cursors from one of them, `none` when
one fails or there are more of them than asked for. -/
def followListed (pkg : Packages) (env : Nat → Listing) (limit : Nat) :
    Nat → Option Text → Store → Option (List OwnedItem)
  | 0, _, _ => none
  | calls + 1, after, s =>
    match exec (listOwned pkg (env calls) after limit) s with
    | (.error _, _) => none
    | (.ok (items, none), _) => some items
    | (.ok (items, some cursor), t) =>
      (followListed pkg env limit calls (some cursor) t).map (items ++ ·)

def recordFiles (s : Store) : List (Text × Node) :=
  (s.owners.getD KeyMap.empty).entries.filter isRecordFile

def ownedItem (pkg : Packages) (node : Node) : Option OwnedItem :=
  match readRecordFile pkg (some node) with
  | .ok (some record) => some record.item
  | _ => none

/-- The items of all files whose record can be read and is valid, in name order. -/
def ownedItems (pkg : Packages) (s : Store) : List OwnedItem :=
  (recordFiles s).filterMap fun entry => ownedItem pkg entry.2

/-- The record files under the keys of the cursors. -/
def listedRows (pkg : Packages) (s : Store) : List (Text × Option OwnedItem) :=
  (recordFiles s).map fun entry => (stem entry.1, ownedItem pkg entry.2)

/-- How many unreadable files stand before each valid record, behind the valid one before it. -/
def unreadableBefore (pkg : Packages) (s : Store) : List Nat := Paging.gaps 0 (listedRows pkg s)

section Listed

variable {pkg : Packages} {s : Store} {env : Listing} {limit : Nat}

theorem readable_listedRows : (Paging.readable (listedRows pkg s)).map (·.2) = ownedItems pkg s := by
  rw [Paging.readable, listedRows, ownedItems, List.filterMap_map, List.map_filterMap]
  congr 1
  funext entry
  cases h : ownedItem pkg entry.2 <;> simp [h]

theorem utf8Len_of_hex {t : Text} (h : t.all Discover.isHexDigit) : t.utf8Len = t.length := by
  have hone : ∀ c ∈ t, Char.utf8Size c = 1 := by
    intro c hc
    have hhex := List.all_eq_true.mp h c hc
    simp only [Discover.isHexDigit, Char.isDigit, Char.le_def, Bool.or_eq_true, Bool.and_eq_true,
      decide_eq_true_eq, UInt32.le_iff_toNat_le] at hhex
    rw [Char.utf8Size, if_pos]
    rw [UInt32.le_iff_toNat_le]
    simp at hhex ⊢
    omega
  rw [Text.utf8Len, List.map_congr_left hone]
  simp

theorem length_stem {entry : Text × Node} (h : isRecordFile entry) : (stem entry.1).length = 64 := by
  simp only [isRecordFile, validCursor, Bool.and_eq_true, beq_iff_eq] at h
  rw [← utf8Len_of_hex h.2.2, h.2.1]

theorem name_of_isRecordFile {entry : Text × Node} (h : isRecordFile entry) :
    entry.1 = stem entry.1 ++ ".json".toList := by
  have hstem := length_stem h
  simp only [isRecordFile, validCursor, Bool.and_eq_true, beq_iff_eq, List.isSuffixOf_iff_suffix] at h
  obtain ⟨⟨⟨-, hlength⟩, before, hname⟩, hcursor, -⟩ := h
  -- the stem and what stands before the extension are beginnings of the same size
  have hsize : Text.utf8Len before = 64 := by
    have hjson : Text.utf8Len ".json".toList = 5 := by decide
    rw [← hname, Text.utf8Len_append, hjson] at hlength
    omega
  have hempty {t : Text} (ht : t.utf8Len = 0) : t = [] := by
    cases t with
    | nil => rfl
    | cons c t =>
      have hc := Char.utf8Size_pos c
      rw [Text.utf8Len_cons] at ht
      omega
  have hsame : stem entry.1 = before := by
    rcases List.prefix_or_prefix_of_prefix (List.take_prefix 64 entry.1) ⟨_, hname⟩ with
      ⟨rest, hrest⟩ | ⟨rest, hrest⟩
    · have hrest' : Text.utf8Len rest = 0 := by
        rw [← hrest, Text.utf8Len_append] at hsize
        unfold stem at hcursor
        omega
      rw [stem, ← hrest, hempty hrest', List.append_nil]
    · have hrest' : Text.utf8Len rest = 0 := by
        rw [stem, ← hrest, Text.utf8Len_append] at hcursor
        omega
      rw [stem, ← hrest, hempty hrest', List.append_nil]
  rw [hsame, hname]

theorem append_lt_append {a b : Text} (c d : Text) (hlength : a.length = b.length) (h : a < b) :
    a ++ c < b ++ d := by
  induction a generalizing b with
  | nil =>
    rw [List.length_nil, eq_comm, List.length_eq_zero_iff] at hlength
    subst hlength
    exact absurd h (lt_irrefl _)
  | cons x a ih =>
    cases b with
    | nil => cases hlength
    | cons y b =>
      rw [List.cons_append, List.cons_append, List.cons_lt_cons_iff]
      rcases List.cons_lt_cons_iff.mp h with hxy | ⟨rfl, hab⟩
      · exact .inl hxy
      · exact .inr ⟨rfl, ih (Nat.succ.inj hlength) hab⟩

theorem sorted_recordFiles (s : Store) : (recordFiles s).Pairwise fun a b => a.1 < b.1 :=
  (s.owners.getD KeyMap.empty).sorted.filter _

theorem sorted_listedRows : ((listedRows pkg s).map (·.1)).Pairwise (· < ·) := by
  rw [listedRows, List.map_map, List.pairwise_map]
  refine (sorted_recordFiles s).imp_of_mem fun {a b} ha hb hlt => ?_
  have ha' := (List.mem_filter.mp ha).2
  have hb' := (List.mem_filter.mp hb).2
  rw [name_of_isRecordFile ha', name_of_isRecordFile hb'] at hlt
  change stem a.1 < stem b.1
  by_contra hge
  have hlength := (length_stem hb').trans (length_stem ha').symm
  rcases eq_or_lt_of_le (not_lt.mp hge) with heq | hgt
  · rw [heq] at hlt
    exact lt_irrefl _ hlt
  · exact lt_asymm hlt (append_lt_append _ _ hlength hgt)

theorem get_recordFiles {owners : KeyMap Text Node} {entry : Text × Node}
    (h : entry ∈ owners.entries.filter isRecordFile) :
    owners.get entry.1 = some entry.2 ∧ isFile entry.2 := by
  obtain ⟨hmem, hrecord⟩ := List.mem_filter.mp h
  simp only [isRecordFile, Bool.and_eq_true] at hrecord
  exact ⟨KeyMap.get_eq_some.mpr hmem, hrecord.1.1.1⟩

theorem scanNames_eq_scan {owners : KeyMap Text Node} {entries : List (Text × Node)}
    (h : ∀ entry ∈ entries, owners.get entry.1 = some entry.2 ∧ isFile entry.2)
    (page : List (Text × OwnedItem)) (skips : Nat) :
    scanNames pkg owners limit page skips (entries.map (·.1)) =
      Paging.scan limit maxListSkips page skips
        (entries.map fun entry => (stem entry.1, ownedItem pkg entry.2)) := by
  induction entries generalizing page skips with
  | nil => rfl
  | cons entry entries ih =>
    obtain ⟨⟨hget, hfile⟩, hrest⟩ := List.forall_mem_cons.mp h
    obtain ⟨name, node⟩ := entry
    simp only at hget hfile
    simp only [List.map_cons, scanNames, Paging.scan, hget, ownedItem]
    split
    · rfl
    · split
      · rfl
      · cases hread : readRecordFile pkg (some node) with
        | error error => exact ih hrest _ _
        | ok found =>
          cases found with
          | some record => exact ih hrest _ _
          | none =>
            cases node with
            | file content => exact absurd hread (readRecordFile_file content)
            | directory => cases hfile
            | link target => cases hfile

theorem insertionSort_recordFiles {owners : KeyMap Text Node} (env : Listing) :
    (((env.order owners.entries).filter isRecordFile).map (·.1)).insertionSort (· ≤ ·) =
      (owners.entries.filter isRecordFile).map (·.1) := by
  have hperm := ((env.perm owners.entries).filter isRecordFile).map (·.1)
  have hsorted : ((owners.entries.filter isRecordFile).map (·.1)).Pairwise (· ≤ ·) :=
    List.pairwise_map.mpr ((owners.sorted.filter _).imp fun hlt => hlt.le)
  exact ((List.perm_insertionSort (· ≤ ·) _).trans hperm).eq_of_pairwise'
    (List.pairwise_insertionSort _ _) hsorted

theorem drop_partitionPoint {α : Type} (p : α → Bool) (xs : List α) :
    xs.drop (partitionPoint p xs) = xs.dropWhile p := by
  induction xs with
  | nil => rfl
  | cons x xs ih =>
    unfold partitionPoint at ih ⊢
    cases hx : p x <;> simp [hx, ih]

theorem exec_ensureMigrated_of_none {call : Call} (h : s.legacy = none) :
    exec (ensureMigrated pkg call) s = (.ok (), s) := by
  unfold ensureMigrated
  rw [exec_bind, exec_get]
  simp only [h, if_true]
  rfl

theorem exec_page (limit : Nat) (page : List (Text × OwnedItem)) :
    exec (if limit < page.length then
        return (page.dropLast.map (·.2), page.dropLast.getLast?.map (·.1))
      else return (page.map (·.2), none) : Migrating (List OwnedItem × Option Text)) s =
      (.ok (Paging.page limit page), s) := by
  unfold Paging.page
  split <;> rfl

theorem exec_listOwned (hmigrated : s.legacy = none) (hlisted : env.listed) {after : Option Text}
    (hcursor : ∀ cursor, after = some cursor → validCursor cursor) :
    exec (listOwned pkg env after limit) s =
      (.ok (Paging.page (clampLimit limit) (Paging.scan (clampLimit limit) maxListSkips [] 0
        (Paging.behind after (listedRows pkg s)))), s) := by
  have hvalid : (after.any fun cursor => !validCursor cursor) = false := by
    cases after with
    | none => rfl
    | some cursor => simp [hcursor cursor rfl]
  unfold listOwned
  rw [exec_bind, exec_ensureMigrated_of_none hmigrated]
  simp only [hvalid, Bool.false_eq_true, if_false]
  rw [exec_bind, exec_get]
  cases howners : s.owners with
  | none =>
    have hrows : listedRows pkg s = [] := by simp [listedRows, recordFiles, howners, KeyMap.empty]
    have hbehind : Paging.behind after (listedRows pkg s) = [] := by
      rw [hrows]
      cases after <;> rfl
    rw [hbehind, Paging.scan, Paging.page_of_le (Nat.zero_le _)]
    simp [howners]
  | some owners =>
    have hfiles : recordFiles s = owners.entries.filter isRecordFile := by
      simp [recordFiles, howners]
    have hget : ∀ entry ∈ recordFiles s, owners.get entry.1 = some entry.2 ∧ isFile entry.2 := by
      rw [hfiles]
      exact fun entry => get_recordFiles
    simp only [howners, hlisted, Bool.not_true, Bool.false_eq_true, if_false, insertionSort_recordFiles,
      ← hfiles]
    cases after with
    | none =>
      rw [List.drop_zero, scanNames_eq_scan hget]
      exact exec_page _ _
    | some cursor =>
      simp only
      rw [drop_partitionPoint, List.dropWhile_map, scanNames_eq_scan
        fun entry hentry => hget entry ((List.dropWhile_suffix _).subset hentry)]
      have hbehind : Paging.behind (some cursor) (listedRows pkg s) =
          ((recordFiles s).dropWhile fun entry => decide (stem entry.1 ≤ cursor)).map
            fun entry => (stem entry.1, ownedItem pkg entry.2) := List.dropWhile_map
      rw [hbehind]
      exact exec_page _ _

theorem validCursor_of_page {after : Option Text} {items : List OwnedItem} {cursor : Text}
    (h : Paging.page (clampLimit limit) (Paging.scan (clampLimit limit) maxListSkips [] 0
      (Paging.behind after (listedRows pkg s))) = (items, some cursor)) : validCursor cursor := by
  obtain ⟨item, hmem⟩ := Paging.key_of_page h
  rcases Paging.mem_scan hmem with hnil | hrow
  · cases hnil
  have hrow := (Paging.behind_suffix _ _).subset (Paging.mem_readable.mp hrow)
  obtain ⟨entry, hentry, heq⟩ := List.mem_map.mp hrow
  have hstem : stem entry.1 = cursor := congrArg Prod.fst heq
  have hrecord := (List.mem_filter.mp hentry).2
  simp only [isRecordFile, Bool.and_eq_true] at hrecord
  rw [← hstem]
  exact hrecord.2

theorem followListed_eq_follow (hmigrated : s.legacy = none) {env : Nat → Listing}
    (hlisted : ∀ i, (env i).listed) (calls : Nat) {after : Option Text}
    (hcursor : ∀ cursor, after = some cursor → validCursor cursor) :
    followListed pkg env limit calls after s =
      Paging.follow (clampLimit limit) maxListSkips (listedRows pkg s) calls after := by
  induction calls generalizing after with
  | zero => rfl
  | succ calls ih =>
    rw [followListed, exec_listOwned hmigrated (hlisted calls) hcursor, Paging.follow]
    rcases hpage : Paging.page (clampLimit limit) (Paging.scan (clampLimit limit) maxListSkips [] 0
      (Paging.behind after (listedRows pkg s))) with ⟨items, _ | cursor⟩
    · rfl
    · simp only
      rw [ih fun found hfound => Option.some.inj hfound ▸ validCursor_of_page hpage]

end Listed

/-- The calls that follow the cursors return every valid record once, in name order, exactly
when no page meets too many unreadable files on its way to the valid ones it has room for. -/
theorem listOwned_complete_iff {pkg : Packages} {s : Store} {env : Nat → Listing} (limit : Nat)
    (hmigrated : s.legacy = none) (hlisted : ∀ i, (env i).listed) :
    (∃ calls, followListed pkg env limit calls none s = some (ownedItems pkg s)) ↔
      Paging.Few (clampLimit limit) maxListSkips (unreadableBefore pkg s) := by
  have hlimit : 0 < clampLimit limit := Nat.lt_of_lt_of_le Nat.one_pos (Nat.le_max_left _ _)
  rw [unreadableBefore, ← Paging.follow_all_iff hlimit sorted_listedRows, readable_listedRows]
  refine exists_congr fun calls => ?_
  rw [followListed_eq_follow hmigrated hlisted calls fun cursor h => by cases h]

/-- The name of a record file that comes before the one of the sample entry. -/
def crowdName (n : Nat) : Text :=
  [Nat.digitChar (n / 100), Nat.digitChar (n / 10 % 10), Nat.digitChar (n % 10)] ++
    List.replicate 61 '0' ++ ".json".toList

/-- A number of empty record files, and the record of the sample entry behind them. -/
def crowdedEntries (n : Nat) : List (Text × Node) :=
  (List.range n).map (fun i => (crowdName i, .file (some []))) ++
    [("320159ebe3219112484baaa0aa1164dd93b25e98f4a1c7bee7fd602bc2a614c0.json".toList,
      .file (some sampleRecordBytes))]

def crowdedStore (n : Nat) (h : (crowdedEntries n).Pairwise fun a b => a.1 < b.1) : Store where
  legacy := none
  archived := KeyMap.empty
  owners := some ⟨crowdedEntries n, h⟩

def sampleListing : Listing where
  call := sampleCall fun _ => .happens
  listed := true
  order := id
  perm := fun _ => .refl _

def secondId : Text := "123e4567-e89b-42d3-a456-426614174002".toList

def secondEntry : LegacyEntry :=
  { sampleEntry with credentialRef := credentialRef secondId, createdAtMs := 222 }

def secondRecordBytes : Bytes :=
  TextBytes.encode ("\x7b\"version\":1,\"submission_id\":\"".toList ++ secondId ++
    "\",\"credential_ref\":\"".toList ++ secondEntry.credentialRef ++
    "\",\"body_sha256\":\"".toList ++ secondEntry.bodySha256 ++ "\",\"destination\":\"".toList ++
    secondEntry.destination ++ "\",\"origin\":\"".toList ++ secondEntry.origin ++
    "\",\"created_at_ms\":222\x7d".toList)

def twoPackages : Packages :=
  { samplePackages with
    sha256 := fun bytes =>
      if bytes = TextBytes.encode secondId then
        [77, 159, 55, 16, 121, 1, 168, 166, 74, 117, 222, 150, 127, 85, 65, 160,
          159, 116, 138, 175, 37, 93, 95, 34, 251, 71, 117, 17, 156, 201, 221, 204]
      else samplePackages.sha256 bytes
    parseUuid := fun text => samplePackages.parseUuid text || text == secondId
    fromSlice := fun bytes =>
      if bytes = secondRecordBytes then some (secondEntry.record secondId)
      else samplePackages.fromSlice bytes }

def twoRecords : Store where
  legacy := none
  archived := KeyMap.empty
  owners := some ⟨[(crowdName 0, .file (some [])),
    ("320159ebe3219112484baaa0aa1164dd93b25e98f4a1c7bee7fd602bc2a614c0.json".toList,
      .file (some sampleRecordBytes)),
    (crowdName 400, .file (some [])),
    ("4d9f37107901a8a64a75de967f5541a09f748aaf255d5f22fb4775119cc9ddcc.json".toList,
      .file (some secondRecordBytes))], by decide +kernel⟩

theorem listedRows_twoRecords : listedRows twoPackages twoRecords =
    [(stem (crowdName 0), none),
      ("320159ebe3219112484baaa0aa1164dd93b25e98f4a1c7bee7fd602bc2a614c0".toList,
        some (sampleEntry.record sampleId).item),
      (stem (crowdName 400), none),
      ("4d9f37107901a8a64a75de967f5541a09f748aaf255d5f22fb4775119cc9ddcc".toList,
        some (secondEntry.record secondId).item)] := by
  decide +kernel

/-- With one item to a page, the first page ends in a cursor and the second has the rest. -/
theorem listOwned_complete_two :
    (ownedItems twoPackages twoRecords).length = 2 ∧
      followListed twoPackages (fun _ => sampleListing) 1 1 none twoRecords = none ∧
      ∃ calls, followListed twoPackages (fun _ => sampleListing) 1 calls none twoRecords =
        some (ownedItems twoPackages twoRecords) := by
  refine ⟨?_, ?_, (listOwned_complete_iff 1 rfl fun _ => rfl).mpr fun k => ?_⟩
  · rw [← readable_listedRows, listedRows_twoRecords]
    rfl
  · rw [followListed_eq_follow rfl (fun _ => rfl) 1 (fun cursor h => by cases h),
      listedRows_twoRecords]
    rfl
  · have hgaps : unreadableBefore twoPackages twoRecords = [1, 1] := by
      rw [unreadableBefore, listedRows_twoRecords]
      rfl
    rw [hgaps]
    obtain _ | _ | k := k
    · decide
    · decide
    · have hlength : [1, 1].length ≤ (k + 2) * clampLimit 1 :=
        Nat.le_trans (Nat.le_add_left 2 k) (Nat.le_mul_of_pos_right (k + 2) (by decide))
      rw [List.drop_eq_nil_of_le hlength]
      exact Nat.zero_le _

/-- Behind 129 files that cannot be read a valid record is never listed. -/
theorem crowd_hides_record :
    ¬ ∃ calls, followListed samplePackages (fun _ => sampleListing) 25 calls none
      (crowdedStore 129 (by decide +kernel)) =
        some (ownedItems samplePackages (crowdedStore 129 (by decide +kernel))) := by
  rintro ⟨calls, h⟩
  rw [followListed_eq_follow rfl (fun _ => rfl) calls (fun cursor h => by cases h),
    ← readable_listedRows] at h
  have hlimit : 0 < clampLimit 25 := by decide
  have hfew := (Paging.follow_all_iff hlimit sorted_listedRows).mp ⟨calls, h⟩
  have hgaps : Paging.gaps 0 (listedRows samplePackages (crowdedStore 129 (by decide +kernel))) =
      [129] := by decide +kernel
  rw [hgaps] at hfew
  exact absurd (hfew 0) (by decide)

end AioLM.Owners
