import AioLM.ShardNames
import Mathlib.Data.Char
import Mathlib.Data.List.Lex
import Mathlib.Data.Prod.Lex

/-!
Local models split into several files: the names of the files and what the launch asks of
the one that is started.
-/

set_option autoImplicit false

namespace AioLM.Models

open Fallible
open Discover (rsplitOnce fiveDigits FiveDigits extension)

/-- `std::path::Component` -/
inductive Component where
  | drive (name : Text)
  | root
  | current
  | up
  | normal (name : Text)
  deriving DecidableEq

namespace Component

def rank : Component → Nat ×ₗ Text
  | .drive name => toLex (0, name)
  | .root => toLex (1, [])
  | .current => toLex (2, [])
  | .up => toLex (3, [])
  | .normal name => toLex (4, name)

theorem rank_injective : Function.Injective rank := by
  intro a b h
  cases a <;> cases b <;> simp_all [rank]

instance : LinearOrder Component := LinearOrder.lift' rank rank_injective

end Component

/-- A path as its components: what `Path` compares. -/
abbrev Path := List Component

/-- `Path::file_name` -/
def fileName (path : Path) : Option Text :=
  match path.getLast? with
  | some (.normal name) => some name
  | _ => none

/-- `Path::parent` -/
def parent (path : Path) : Option Path :=
  match path.getLast? with
  | none => none
  | some .root => none
  | some (.drive _) => none
  | some _ => some path.dropLast

/-- `Path::join` with the name of a file. -/
def join (folder : Path) (name : Text) : Path := folder ++ [.normal name]

@[simp] theorem fileName_join (folder : Path) (name : Text) :
    fileName (join folder name) = some name := by
  simp [fileName, join]

@[simp] theorem parent_join (folder : Path) (name : Text) :
    parent (join folder name) = some folder := by
  simp [parent, join]

theorem exists_join {path : Path} {name : Text} (h : fileName path = some name) :
    ∃ folder, path = join folder name := by
  rcases List.eq_nil_or_concat' path with rfl | ⟨folder, last, rfl⟩
  · cases h
  · simp only [fileName, List.getLast?_append_cons, List.getLast?_singleton] at h
    cases last <;> simp_all [join]

/-- `{base}-{index:05}-of-{total:05}.{extension}` -/
def shardFile (base : Text) (index total : Nat) (extension : Text) : Text :=
  base ++ '-' :: fiveDigits index ++ "-of-".toList ++ fiveDigits total ++ '.' :: extension

/-- The base, index and total of a GGUF file that is one of several. -/
def shardName (name : Text) : Option (Text × Nat × Nat) := do
  let (stem, extension) ← rsplitOnce ['.'] name
  if ¬ Text.eqIgnoreAsciiCase extension "gguf".toList then none
  else do
    let (head, total) ← rsplitOnce "-of-".toList stem
    let (base, index) ← rsplitOnce ['-'] head
    if base = [] ∨ index.utf8Len ≠ 5 ∨ total.utf8Len ≠ 5 ∨ ¬ index.all Char.isDigit ∨
        ¬ total.all Char.isDigit then none
    else
      let index := Nat.ofDigitChars 10 index 0
      let total := Nat.ofDigitChars 10 total 0
      if 1 < total ∧ 0 < index ∧ index ≤ total then some (base, index, total) else none

/-- `gguf` in any case. -/
def IsGguf (extension : Text) : Prop := Text.eqIgnoreAsciiCase extension "gguf".toList = true

theorem IsGguf.dot_not_mem {extension : Text} (h : IsGguf extension) : '.' ∉ extension := by
  intro hmem
  have hlower : extension.map Char.toLower = "gguf".toList.map Char.toLower := by
    simpa [IsGguf, Text.eqIgnoreAsciiCase] using h
  have hdot : Char.toLower '.' ∈ extension.map Char.toLower := List.mem_map_of_mem hmem
  rw [hlower] at hdot
  revert hdot
  decide

theorem digits_iff {index total : Text} :
    ¬ (index.utf8Len ≠ 5 ∨ total.utf8Len ≠ 5 ∨ ¬ index.all Char.isDigit = true ∨
        ¬ total.all Char.isDigit = true) ↔ FiveDigits index ∧ FiveDigits total := by
  rw [← Discover.fiveDigits_iff, List.all_append, Bool.and_eq_true]
  tauto

theorem shardName_eq_some {name base : Text} {index total : Nat} :
    shardName name = some (base, index, total) ↔
      ∃ extension, IsGguf extension ∧ name = shardFile base index total extension ∧
        base ≠ [] ∧ 1 < total ∧ total < 100000 ∧ 1 ≤ index ∧ index ≤ total := by
  constructor
  · intro h
    obtain ⟨⟨stem, extension⟩, hstem, h⟩ := Option.bind_eq_some_iff.mp h
    dsimp only at h
    split at h
    · cases h
    · rename_i hgguf
      obtain ⟨⟨head, totalText⟩, hhead, h⟩ := Option.bind_eq_some_iff.mp h
      obtain ⟨⟨base', indexText⟩, hbase, h⟩ := Option.bind_eq_some_iff.mp h
      dsimp only at hbase h
      split at h
      · cases h
      · rename_i hdigits
        obtain ⟨hbase', hdigits⟩ := not_or.mp hdigits
        obtain ⟨hindex, htotal⟩ := digits_iff.mp hdigits
        split at h
        · rename_i hrange
          cases h
          refine ⟨extension, not_not.mp hgguf, ?_, hbase', hrange.1, htotal.eq_value.1,
            hrange.2.1, hrange.2.2⟩
          rw [shardFile, hindex.eq_value.2, htotal.eq_value.2, Discover.rsplitOnce_some hstem,
            Discover.rsplitOnce_some hhead, Discover.rsplitOnce_some hbase]
          simp
        · cases h
  · rintro ⟨extension, hgguf, rfl, hbase, hone, hbound, hindex, hle⟩
    have hi := FiveDigits.of_lt (show index < 100000 by omega)
    have ht := FiveDigits.of_lt hbound
    have hstem : rsplitOnce ['.'] (shardFile base index total extension) =
        some (base ++ '-' :: fiveDigits index ++ "-of-".toList ++ fiveDigits total,
          extension) := by
      simpa [shardFile] using Discover.rsplitOnce_append []
        (base ++ '-' :: fiveDigits index ++ "-of-".toList ++ fiveDigits total) hgguf.dot_not_mem
    have hdigits := not_or.mpr ⟨hbase, digits_iff.mpr ⟨hi, ht⟩⟩
    have hrange : 1 < total ∧ 0 < index ∧ index ≤ total := ⟨hone, hindex, hle⟩
    have hcase : Text.eqIgnoreAsciiCase extension "gguf".toList = true := hgguf
    have hvalue : ∀ n, Nat.ofDigitChars 10 (fiveDigits n) 0 = n := Padded.value_padded 5
    simp only [shardName, hstem, Option.bind_eq_bind, Option.bind_some,
      if_neg (not_not.mpr hcase), Discover.rsplitOnce_count ht.dash_not_mem,
      Discover.rsplitOnce_index hi.dash_not_mem, if_neg hdigits, hvalue, if_pos hrange]

theorem extension_shardFile {base ext : Text} (hext : IsGguf ext) (hbase : base ≠ [])
    (index total : Nat) : extension (shardFile base index total ext) = some ext := by
  have hstem : rsplitOnce ['.'] (shardFile base index total ext) =
      some (base ++ '-' :: fiveDigits index ++ "-of-".toList ++ fiveDigits total, ext) := by
    simpa [shardFile] using Discover.rsplitOnce_append []
      (base ++ '-' :: fiveDigits index ++ "-of-".toList ++ fiveDigits total) hext.dot_not_mem
  simp [extension, hstem, hbase]

structure FileSystem where
  isFile : Path → Bool
  display : Path → Text

def validateModelShards (system : FileSystem) (path : Path) : Except Text Unit :=
  match fileName path with
  | none => .ok ()
  | some name =>
    match shardName name with
    | none => .ok ()
    | some (base, index, total) => do
      require (index = 1) "select the first GGUF shard before starting the model".toList
      let folder := (parent path).getD []
      let extension := (extension name).getD "gguf".toList
      (List.range' 1 total).forM fun index =>
        let shard := join folder (shardFile base index total extension)
        require (system.isFile shard = true)
          ("model shard is missing: ".toList ++ system.display shard)

/-- The launch check of a shard: it is the first, and all files named like it are there. -/
theorem validateModelShards_join {system : FileSystem} {folder : Path} {base ext : Text}
    {index total : Nat}
    (h : shardName (shardFile base index total ext) = some (base, index, total))
    (hext : IsGguf ext) (hbase : base ≠ []) :
    validateModelShards system (join folder (shardFile base index total ext)) = .ok () ↔
      index = 1 ∧ ∀ other, 1 ≤ other → other ≤ total →
        system.isFile (join folder (shardFile base other total ext)) = true := by
  simp only [validateModelShards, fileName_join, h, parent_join,
    extension_shardFile hext hbase, Option.getD_some, bind_eq_ok, require_eq_ok,
    forM_eq_ok, List.mem_range'_1]
  constructor
  · rintro ⟨_, hindex, hall⟩
    exact ⟨hindex, fun other hone hle => hall other ⟨hone, by omega⟩⟩
  · rintro ⟨hindex, hall⟩
    exact ⟨(), hindex, fun other hrange => hall other hrange.1 (by omega)⟩

theorem validateModelShards_of_none {system : FileSystem} {path : Path} {name : Text}
    (hname : fileName path = some name) (h : shardName name = none) :
    validateModelShards system path = .ok () := by
  simp only [validateModelShards, hname, h]

end AioLM.Models
