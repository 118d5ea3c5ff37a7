import Mathlib.Data.Bool.AllAny
import AioLM.Framing
import AioLM.Snapshots

/-!
Which repository paths the two checks let through: what their components are, and where
a system finds a file when they are joined onto a folder.
-/

set_option autoImplicit false

namespace AioLM.Discover

open Fallible

def Component (path part : Text) : Prop :=
  ∃ before after, path = before ++ part ++ after ∧ '/' ∉ part ∧
    (before = [] ∨ ∃ b, before = b ++ ['/']) ∧ (after = [] ∨ ∃ a, after = '/' :: a)

theorem parts_of_not_mem {path : Text} (h : '/' ∉ path) : parts path = [path] := by
  refine List.splitOnP_eq_singleton fun c hc => ?_
  simpa using fun heq : c = '/' => h (heq ▸ hc)

theorem parts_append_separator (before after : Text) :
    parts (before ++ '/' :: after) = parts before ++ parts after :=
  List.splitOnP_append_cons before after (by simp)

theorem mem_parts {path part : Text} : part ∈ parts path ↔ Component path part := by
  constructor
  · intro h
    induction path using Framing.frames_induction '/' generalizing part with
    | hrest path hnot =>
      rw [parts_of_not_mem hnot, List.mem_singleton] at h
      exact ⟨[], [], by simp [h], h ▸ hnot, .inl rfl, .inl rfl⟩
    | hline line path hnot ih =>
      rw [parts_append_separator, parts_of_not_mem hnot, List.singleton_append] at h
      rcases List.mem_cons.mp h with rfl | h
      · exact ⟨[], '/' :: path, by simp, hnot, .inl rfl, .inr ⟨path, rfl⟩⟩
      · obtain ⟨before, after, rfl, hpart, hbefore, hafter⟩ := ih h
        refine ⟨line ++ '/' :: before, after, by simp, hpart, .inr ?_, hafter⟩
        rcases hbefore with rfl | ⟨b, rfl⟩
        · exact ⟨line, rfl⟩
        · exact ⟨line ++ '/' :: b, by simp⟩
  · rintro ⟨before, after, rfl, hpart, rfl | ⟨b, rfl⟩, rfl | ⟨a, rfl⟩⟩
    · simp [parts_of_not_mem hpart]
    · simp [parts_append_separator, parts_of_not_mem hpart]
    · simp [parts_append_separator, parts_of_not_mem hpart]
    · simp [parts_append_separator, parts_of_not_mem hpart]

theorem exists_component {path : Text} {c : Char} (h : c ∈ path) (hc : c ≠ '/') :
    ∃ part ∈ parts path, c ∈ part := by
  induction path using Framing.frames_induction '/' with
  | hrest path hnot => exact ⟨path, by rw [parts_of_not_mem hnot]; simp, h⟩
  | hline line path hnot ih =>
    rw [parts_append_separator, parts_of_not_mem hnot]
    rcases List.mem_append.mp h with h | h
    · exact ⟨line, by simp, h⟩
    · obtain ⟨part, hpart, hmem⟩ := ih ((List.mem_cons.mp h).resolve_left hc)
      exact ⟨part, by simp [hpart], hmem⟩

theorem component_of_prepend {start path part : Text} (hstart : '/' ∉ start)
    (h : part ∈ parts (start ++ path)) :
    part ∈ parts path ∨ ∃ c ∈ parts path, part = start ++ c := by
  by_cases hnot : '/' ∈ path
  · obtain ⟨line, rest, rfl, hline⟩ := List.eq_append_cons_of_mem hnot
    rw [← List.append_assoc, parts_append_separator,
      parts_of_not_mem (by simp [hstart, hline])] at h
    rw [parts_append_separator, parts_of_not_mem hline]
    rcases List.mem_cons.mp h with rfl | h
    · exact .inr ⟨line, by simp, rfl⟩
    · exact .inl (List.mem_cons_of_mem line h)
  · rw [parts_of_not_mem (by simp [hstart, hnot]), List.mem_singleton] at h
    exact .inr ⟨path, by simp [parts_of_not_mem hnot], h⟩

theorem component_of_append {path rest part : Text} (hrest : '/' ∉ rest)
    (h : part ∈ parts (path ++ rest)) :
    part ∈ parts path ∨ ∃ c ∈ parts path, part = c ++ rest := by
  induction path using Framing.frames_induction '/' with
  | hrest path hnot =>
    rw [parts_of_not_mem (by simp [hnot, hrest]), List.mem_singleton] at h
    exact .inr ⟨path, by simp [parts_of_not_mem hnot], h⟩
  | hline line path hnot ih =>
    rw [List.append_assoc, List.cons_append, parts_append_separator] at h
    rw [parts_append_separator]
    rcases List.mem_append.mp h with h | h
    · exact .inl (List.mem_append_left _ h)
    · rcases ih h with h | ⟨c, hc, rfl⟩
      · exact .inl (List.mem_append_right _ h)
      · exact .inr ⟨c, List.mem_append_right _ hc, rfl⟩

def reservedChars : Text := "<>:\"|?*".toList

/-- What Windows compares with the names of its devices: what stands before the first dot,
without blanks at its end and in capitals. -/
def deviceStem (part : Text) : Text :=
  (Text.trimEndMatches (· == ' ') (part.takeWhile (· ≠ '.'))).map Char.toUpper

def portNames (digits : String) : List Text :=
  ["COM".toList, "LPT".toList].flatMap fun port => digits.toList.map fun digit => port ++ [digit]

/-- The devices Windows has in every folder, those with a digit of ASCII in their name. -/
def plainDevices : List Text :=
  ["CON", "PRN", "AUX", "NUL"].map String.toList ++ portNames "0123456789"

/-- The two ends of the console, and the ports with a superscript digit. -/
def oddDevices : List Text := ["CONIN$", "CONOUT$"].map String.toList ++ portNames "¹²³"

def windowsDevice (part : Text) : Bool := (plainDevices ++ oddDevices).contains (deviceStem part)

structure PortableName (part : Text) : Prop where
  nonempty : part ≠ []
  dots : part ≠ ['.'] ∧ part ≠ ['.', '.']
  chars : ∀ c ∈ part, c ≠ '/' ∧ c ≠ '\\' ∧ isControl c = false ∧ c ∉ reservedChars
  last : ∀ c ∈ part.getLast?, c ≠ '.' ∧ Text.isWhitespace c = false
  device : windowsDevice part = false

inductive Platform where
  | unix | windows

def Platform.isSeparator : Platform → Char → Bool
  | .unix, c => c == '/'
  | .windows, c => c == '/' || c == '\\'

/-- The name a system keeps a file under: Windows drops dots and blanks at its end,
and has no file under the name of a device or with a reserved character. -/
def Platform.stored : Platform → Text → Option Text
  | .unix, part => if Char.ofNat 0 ∈ part then none else some part
  | .windows, part =>
    if windowsDevice part ∨ part.any (fun c => isControl c || reservedChars.contains c) then none
    else some (Text.trimEndMatches (fun c => c == '.' || c == ' ') part)

def Platform.enter (platform : Platform) (folder : List Text) (part : Text) : Option (List Text) :=
  if part = [] ∨ part = ['.'] then some folder
  else if part = ['.', '.'] then some folder.dropLast
  else (platform.stored part).map fun name => folder ++ [name]

/-- `PathBuf::push` of a component: one that begins with a separator replaces the folder. -/
def Platform.push (platform : Platform) (folder : List Text) (part : Text) : Option (List Text) :=
  let pieces := part.splitOnP platform.isSeparator
  pieces.foldlM platform.enter (if part.head?.any platform.isSeparator then [] else folder)

/-- Where the system finds a path that is joined onto a folder component by component. -/
def Platform.locate (platform : Platform) (root : List Text) (path : Text) : Option (List Text) :=
  (parts path).foldlM platform.push root

namespace PortableName

variable {part : Text} {platform : Platform}

theorem not_separator (h : PortableName part) {c : Char} (hc : c ∈ part) :
    platform.isSeparator c = false := by
  obtain ⟨hslash, hback, -, -⟩ := h.chars c hc
  cases platform <;> simp [Platform.isSeparator, hslash, hback]

theorem stored (h : PortableName part) : platform.stored part = some part := by
  cases platform with
  | unix =>
    rw [Platform.stored, if_neg]
    intro hmem
    have hcontrol := (h.chars _ hmem).2.2.1
    revert hcontrol
    decide
  | windows =>
    have hclean : ¬ (windowsDevice part = true ∨
        part.any (fun c => isControl c || reservedChars.contains c) = true) := by
      rintro (hdevice | hany)
      · rw [h.device] at hdevice
        cases hdevice
      · obtain ⟨c, hc, hbad⟩ := List.any_eq_true.mp hany
        obtain ⟨-, -, hcontrol, hreserved⟩ := h.chars c hc
        simp [hcontrol, hreserved] at hbad
    rw [Platform.stored, if_neg hclean]
    obtain ⟨before, last, rfl⟩ := (List.eq_nil_or_concat' part).resolve_left h.nonempty
    obtain ⟨hdot, hwhite⟩ := h.last last (by simp)
    have hblank : last ≠ ' ' := by
      rintro rfl
      revert hwhite
      decide
    have hkeep := Text.trimEndMatches_append (p := fun c => c == '.' || c == ' ') (x := last)
      (by simp [hdot, hblank]) before []
    exact congrArg some hkeep

theorem push (h : PortableName part) (folder : List Text) :
    platform.push folder part = some (folder ++ [part]) := by
  have hpieces : part.splitOnP platform.isSeparator = [part] :=
    List.splitOnP_eq_singleton fun c hc => h.not_separator hc
  have hhead : part.head?.any platform.isSeparator = false := by
    cases hpart : part.head? with
    | none => rfl
    | some c => exact h.not_separator (List.mem_of_head? hpart)
  have hstay : ¬ (part = [] ∨ part = ['.']) := by simp [h.nonempty, h.dots.1]
  simp [Platform.push, hpieces, hhead, Platform.enter, h.nonempty, h.dots, h.stored]

end PortableName

theorem locate_portable {path : Text} (h : ∀ part ∈ parts path, PortableName part)
    (platform : Platform) (root : List Text) :
    platform.locate root path = some (root ++ parts path) := by
  unfold Platform.locate
  generalize parts path = names at h ⊢
  induction names generalizing root with
  | nil => simp
  | cons part rest ih =>
    obtain ⟨hpart, hrest⟩ := List.forall_mem_cons.mp h
    rw [List.foldlM_cons, hpart.push]
    exact (ih _ hrest).trans (by simp)

/-- What the two checks ask of every component. -/
structure SafeComponent (part : Text) : Prop where
  nonempty : part ≠ []
  last : ∀ c ∈ part.getLast?, c ≠ '.'
  chars : ∀ c ∈ part, isControl c = false ∧ c ∉ reservedChars

theorem safeComponent_of_not_unsafe {part : Text} (h : unsafeComponent part = false) :
    SafeComponent part := by
  simp only [unsafeComponent, Bool.or_eq_false_iff, List.any_eq_false, Bool.not_eq_true,
    List.isEmpty_eq_false_iff, beq_eq_false_iff_ne, decide_eq_false_iff_not] at h
  obtain ⟨⟨⟨⟨⟨⟨hne, -⟩, -⟩, -⟩, hdot⟩, -⟩, hchars⟩ := h
  refine ⟨hne, fun c hc => ?_, fun c hc => ?_⟩
  · rintro rfl
    exact hdot hc
  · obtain ⟨hcontrol, hreserved⟩ := hchars c hc
    refine ⟨hcontrol, ?_⟩
    unfold reservedChars
    rwa [← List.contains_iff_mem, Bool.not_eq_true]

structure CheckedPath (value : Text) : Prop where
  backslash : '\\' ∉ value
  components : ∀ part ∈ parts value, SafeComponent part

theorem validateRepoPath_ok {path : Text} (h : validateRepoPath path = .ok ()) :
    CheckedPath (Text.trim path) := by
  simp only [validateRepoPath, bind_eq_ok, require_eq_ok, List.all_eq_true,
    Bool.not_eq_true'] at h
  obtain ⟨-, ⟨-, -, hback⟩, -, hall, -⟩ := h
  exact ⟨hback, fun part hpart => safeComponent_of_not_unsafe (hall part hpart)⟩

theorem isWhitespace_separator : Text.isWhitespace '/' = false := by decide

theorem not_mem_of_blank {t : Text} {c : Char} (h : ∀ x ∈ t, Text.isWhitespace x = true)
    (hc : Text.isWhitespace c = false) : c ∉ t := by
  intro hmem
  rw [h c hmem] at hc
  cases hc

theorem not_reserved_of_blank {c : Char} (h : Text.isWhitespace c = true) : c ∉ reservedChars := by
  have hall : ∀ c ∈ reservedChars, Text.isWhitespace c = false :=
    List.all_iff_forall_prop.mp (by decide)
  intro hmem
  rw [hall c hmem] at h
  cases h

theorem chars_of_checked {path : Text} (h : CheckedPath (Text.trim path)) {c : Char}
    (hc : c ∈ path) (hslash : c ≠ '/') : c ≠ '\\' ∧ c ∉ reservedChars := by
  obtain ⟨before, after, hsplit, hbefore, hafter⟩ := Text.trim_split path
  have hback : Text.isWhitespace '\\' = false := by decide
  have hblank (hwhite : Text.isWhitespace c = true) : c ≠ '\\' ∧ c ∉ reservedChars := by
    refine ⟨?_, not_reserved_of_blank hwhite⟩
    rintro rfl
    rw [hback] at hwhite
    cases hwhite
  rw [hsplit] at hc
  rcases List.mem_append.mp hc with hc | hc
  · rcases List.mem_append.mp hc with hc | hc
    · exact hblank (hbefore c hc)
    · obtain ⟨part, hpart, hmem⟩ := exists_component hc hslash
      refine ⟨?_, ((h.components part hpart).chars c hmem).2⟩
      rintro rfl
      exact h.backslash hc
  · exact hblank (hafter c hc)

theorem component_of_checked {blanks value part : Text} (hblanks : '/' ∉ blanks)
    (h : CheckedPath value) (hpart : part ∈ parts (blanks ++ value)) :
    part ≠ [] ∧ ∀ c ∈ part.getLast?, c ≠ '.' := by
  rcases component_of_prepend hblanks hpart with hpart | ⟨c, hc, rfl⟩
  · exact ⟨(h.components part hpart).nonempty, (h.components part hpart).last⟩
  · have hne := (h.components c hc).nonempty
    refine ⟨by simp [hne], fun x hx => (h.components c hc).last x ?_⟩
    rwa [List.getLast?_append_of_ne_nil _ hne] at hx

theorem toUpper_of_isWhitespace {c : Char} (h : Text.isWhitespace c = true) : c.toUpper = c := by
  have hletter : ¬ ('a'.val ≤ c.val ∧ c.val ≤ 'z'.val) := by
    simp only [UInt32.le_iff_toNat_le]
    rintro ⟨hlow, hhigh⟩
    have hlow : 97 ≤ c.toNat := hlow
    have hhigh : c.toNat ≤ 122 := hhigh
    simp only [Text.isWhitespace, Bool.or_eq_true, Bool.and_eq_true, decide_eq_true_eq,
      beq_iff_eq] at h
    omega
  exact dif_neg hletter

theorem trimEnd_append {stem cut : Text} (hcut : ∀ c ∈ cut, Text.isWhitespace c = true)
    (hstem : (stem.map Char.toUpper).getLast?.any fun c => !Text.isWhitespace c) :
    trimEnd (stem ++ cut) = stem := by
  rcases List.eq_nil_or_concat' stem with rfl | ⟨before, last, rfl⟩
  · cases hstem
  · have hwhite : Text.isWhitespace last = false := by
      by_contra hblank
      have hblank := Bool.of_not_eq_false hblank
      simp [toUpper_of_isWhitespace hblank, hblank] at hstem
    have hnil : Text.trimEndMatches Text.isWhitespace cut = [] := by
      rw [Text.trimEndMatches, List.reverse_eq_nil_iff, List.dropWhile_eq_nil_iff]
      exact fun c hc => hcut c (List.mem_reverse.mp hc)
    rw [trimEnd, List.append_assoc, List.singleton_append, Text.trimEndMatches_append hwhite, hnil]

theorem reservedDeviceName_of_plain {part : Text} (h : deviceStem part ∈ plainDevices) :
    reservedDeviceName part = true := by
  obtain ⟨cut, hcut, hblank⟩ :=
    Text.trimEndMatches_split (· == ' ') (part.takeWhile (· ≠ '.'))
  rw [deviceStem] at h
  generalize Text.trimEndMatches (· == ' ') (part.takeWhile (· ≠ '.')) = stem at h hcut
  have hall : ∀ name ∈ plainDevices, (name.getLast?.any fun c => !Text.isWhitespace c) = true ∧
      (["CON".toList, "PRN".toList, "AUX".toList, "NUL".toList].contains name ||
        (name.utf8Len == 4 && ("COM".toList.isPrefixOf name || "LPT".toList.isPrefixOf name) &&
          (name.drop 3).head?.any Char.isDigit)) = true := by decide
  obtain ⟨hlast, hknown⟩ := hall _ h
  have hwhite : ∀ c ∈ cut, Text.isWhitespace c = true := by
    intro c hc
    rw [beq_iff_eq.mp (hblank c hc)]
    rfl
  rw [reservedDeviceName, hcut, trimEnd_append hwhite hlast]
  exact hknown

theorem windowsDevice_eq_false {part : Text} (hreserved : reservedDeviceName part = false)
    (hodd : oddDevices.contains (deviceStem part) = false) : windowsDevice part = false := by
  rw [windowsDevice, List.contains_append, hodd, Bool.or_false]
  by_contra hplain
  have hmem := List.contains_iff_mem.mp (Bool.of_not_eq_false hplain)
  rw [reservedDeviceName_of_plain hmem] at hreserved
  cases hreserved

theorem overlooks_of_windowsDevice {part : Text} (h : windowsDevice part = false) :
    oddDevices.contains (deviceStem part) = false := by
  rw [windowsDevice, List.contains_append, Bool.or_eq_false_iff] at h
  exact h.2

/-- The two checks of a path: of a GGUF file, and of a file in a snapshot or an update. -/
inductive EntryPoint where
  | gguf | snapshot

def EntryPoint.check : EntryPoint → Text → Except Text Unit
  | .gguf => validateRepoPath
  | .snapshot => safeFile

def EntryPoint.overlooks : EntryPoint → Text → Bool
  | .gguf, part => windowsDevice part
  | .snapshot, part => oddDevices.contains (deviceStem part)

/-- What the check of an entry point leaves open. -/
structure EntryPoint.Clean (entry : EntryPoint) (path : Text) : Prop where
  nonempty : path ≠ []
  control : ∀ c ∈ path, isControl c = false
  blank : ∀ part ∈ parts path, ∀ c ∈ part.getLast?, Text.isWhitespace c = false
  device : ∀ part ∈ parts path, entry.overlooks part = false

/-- What an accepted path should be: portable in every component, and below every folder
it is joined onto, at the same place on every platform. -/
structure Portable (path : Text) : Prop where
  names : ∀ part ∈ parts path, PortableName part
  confined : ∀ (platform : Platform) (root : List Text),
    platform.locate root path = some (root ++ parts path)

theorem not_dots {part : Text} (h : ∀ c ∈ part.getLast?, c ≠ '.') :
    part ≠ ['.'] ∧ part ≠ ['.', '.'] := by
  constructor
  · rintro rfl
    exact h '.' rfl rfl
  · rintro rfl
    exact h '.' rfl rfl

section Accepted

variable {path part : Text}

theorem mem_of_component (h : part ∈ parts path) {c : Char} (hc : c ∈ part) :
    c ∈ path ∧ c ≠ '/' := by
  obtain ⟨before, after, rfl, hpart, -⟩ := mem_parts.mp h
  exact ⟨by simp [hc], fun heq => hpart (heq ▸ hc)⟩

theorem portable_gguf (h : validateRepoPath path = .ok ()) (hclean : EntryPoint.gguf.Clean path)
    (hpart : part ∈ parts path) : PortableName part := by
  have hchecked := validateRepoPath_ok h
  obtain ⟨before, after, hsplit, hbefore, hafter⟩ := Text.trim_split path
  have hslash := not_mem_of_blank hbefore isWhitespace_separator
  have hslash' := not_mem_of_blank hafter isWhitespace_separator
  have hblank := hclean.blank part hpart
  have hdevice : windowsDevice part = false := hclean.device part hpart
  have hshape : part ≠ [] ∧ ∀ c ∈ part.getLast?, c ≠ '.' := by
    rw [hsplit] at hpart
    rcases component_of_append hslash' hpart with hpart | ⟨c, hc, rfl⟩
    · exact component_of_checked hslash hchecked hpart
    · obtain ⟨hne, hlast⟩ := component_of_checked hslash hchecked hc
      refine ⟨by simp [hne], fun x hx => ?_⟩
      by_cases hnil : after = []
      · rw [hnil, List.append_nil] at hx
        exact hlast x hx
      · have hwhite := hblank x hx
        rw [Option.mem_def, List.getLast?_append_of_ne_nil _ hnil] at hx
        rw [hafter x (List.mem_of_getLast? hx)] at hwhite
        cases hwhite
  have hlast (c : Char) (hc : c ∈ part.getLast?) := And.intro (hshape.2 c hc) (hblank c hc)
  refine
    { nonempty := hshape.1
      dots := not_dots hshape.2
      chars := fun c hc => ?_
      last := hlast
      device := hdevice }
  obtain ⟨hmem, hne⟩ := mem_of_component hpart hc
  obtain ⟨hback, hreserved⟩ := chars_of_checked hchecked hmem hne
  exact ⟨hne, hback, hclean.control c hmem, hreserved⟩

theorem safeFile_ok (h : safeFile path = .ok ()) :
    (∀ c ∈ path.getLast?, c ≠ '/' ∧ c ≠ '.') ∧
      (∀ part ∈ parts path, reservedDeviceName part = false) ∧
      CheckedPath (Text.trim (path ++ ".gguf".toList)) := by
  simp only [safeFile, bind_eq_ok, require_eq_ok] at h
  obtain ⟨-, ⟨hlast, hdevice⟩, hchecked⟩ := h
  refine ⟨fun c hc => ?_, fun part hpart => ?_, validateRepoPath_ok hchecked⟩
  · rw [Option.all_eq_true] at hlast
    have hc' := hlast c hc
    simp only [Bool.and_eq_true, bne_iff_ne] at hc'
    exact hc'.1
  · exact Bool.of_not_eq_true (List.any_eq_false.mp hdevice part hpart)

theorem portable_snapshot (h : safeFile path = .ok ()) (hclean : EntryPoint.snapshot.Clean path)
    (hpart : part ∈ parts path) : PortableName part := by
  obtain ⟨hend, hreserved, hchecked⟩ := safeFile_ok h
  obtain ⟨before, after, hsplit, hbefore, hafter⟩ := Text.trim_split (path ++ ".gguf".toList)
  have hslash := not_mem_of_blank hbefore isWhitespace_separator
  have hnone : after = [] := by
    by_contra hne
    have hlast : (before ++ Text.trim (path ++ ".gguf".toList) ++ after).getLast? = some 'f' := by
      rw [← hsplit, List.getLast?_append_of_ne_nil _ (by decide)]
      rfl
    rw [List.getLast?_append_of_ne_nil _ hne] at hlast
    have hwhite := hafter 'f' (List.mem_of_getLast? hlast)
    revert hwhite
    decide
  have hshape : part ≠ [] ∧ ∀ c ∈ part.getLast?, c ≠ '.' := by
    obtain ⟨first, rest, heq, hpart', hfirst, hrest | ⟨a, hrest⟩⟩ := mem_parts.mp hpart
    · -- The last component ends as the path does.
      subst hrest
      have hnonempty : part ≠ [] := by
        rintro rfl
        rcases hfirst with rfl | ⟨b, rfl⟩
        · exact hclean.nonempty heq
        · exact (hend '/' (by simp [heq])).1 rfl
      refine ⟨hnonempty, fun c hc => (hend c ?_).2⟩
      rw [heq, List.append_nil]
      rwa [Option.mem_def, List.getLast?_append_of_ne_nil _ hnonempty]
    · have hmem : part ∈ parts (path ++ ".gguf".toList) :=
        mem_parts.mpr ⟨first, rest ++ ".gguf".toList, by simp [heq], hpart', hfirst,
          .inr ⟨a ++ ".gguf".toList, by simp [hrest]⟩⟩
      rw [hsplit, hnone, List.append_nil] at hmem
      exact component_of_checked hslash hchecked hmem
  have hlast (c : Char) (hc : c ∈ part.getLast?) :=
    And.intro (hshape.2 c hc) (hclean.blank part hpart c hc)
  refine
    { nonempty := hshape.1
      dots := not_dots hshape.2
      chars := fun c hc => ?_
      last := hlast
      device := windowsDevice_eq_false (hreserved part hpart) (hclean.device part hpart) }
  obtain ⟨hmem, hslash'⟩ := mem_of_component hpart hc
  obtain ⟨hback, hchars⟩ := chars_of_checked hchecked (List.mem_append_left _ hmem) hslash'
  exact ⟨hslash', hback, hclean.control c hmem, hchars⟩

/-- Exactly when an accepted path is portable and stays below its folder. -/
theorem accepted_portable_iff {entry : EntryPoint} (h : entry.check path = .ok ()) :
    Portable path ↔ entry.Clean path := by
  constructor
  · intro hportable
    have hcontrol : ∀ c ∈ path, isControl c = false := by
      intro c hc
      by_cases hslash : c = '/'
      · rw [hslash]
        decide
      · obtain ⟨part, hpart, hmem⟩ := exists_component hc hslash
        exact ((hportable.names part hpart).chars c hmem).2.2.1
    have hdevice : ∀ part ∈ parts path, entry.overlooks part = false := by
      intro part hpart
      have hnone := (hportable.names part hpart).device
      cases entry with
      | gguf => exact hnone
      | snapshot => exact overlooks_of_windowsDevice hnone
    refine ⟨?_, hcontrol, fun part hpart c hc => ((hportable.names part hpart).last c hc).2, hdevice⟩
    rintro rfl
    exact (hportable.names [] (by decide)).nonempty rfl
  · intro hclean
    have hnames : ∀ part ∈ parts path, PortableName part := by
      cases entry with
      | gguf => exact fun part hpart => portable_gguf h hclean hpart
      | snapshot => exact fun part hpart => portable_snapshot h hclean hpart
    exact ⟨hnames, locate_portable hnames⟩

end Accepted

theorem unblank_of_all {names : List Text}
    (h : names.all (fun part => part.getLast?.all (fun c => !Text.isWhitespace c)) = true) :
    ∀ part ∈ names, ∀ c ∈ part.getLast?, Text.isWhitespace c = false := by
  intro part hpart c hc
  have hlast := List.all_eq_true.mp h part hpart
  rw [Option.mem_def.mp hc, Option.all_some, Bool.not_eq_true'] at hlast
  exact hlast

theorem accepted_portable_iff_nested :
    Portable "a/model.safetensors".toList ∧ Portable "Q4/model.gguf".toList :=
  ⟨(accepted_portable_iff (show EntryPoint.snapshot.check _ = .ok () by decide)).mpr
      ⟨by decide, List.all_iff_forall_prop.mp (by decide), unblank_of_all (by decide), by decide⟩,
    (accepted_portable_iff (show EntryPoint.gguf.check _ = .ok () by decide)).mpr
      ⟨by decide, List.all_iff_forall_prop.mp (by decide), unblank_of_all (by decide), by decide⟩⟩

/-- Device names, blanks, a control character and an empty path pass the checks. -/
theorem device_accepted :
    validateRepoPath "nul.gguf".toList = .ok () ∧
      parts "nul.gguf".toList = ["nul.gguf".toList] ∧
      windowsDevice "nul.gguf".toList = true ∧
      validateRepoPath "model.gguf ".toList = .ok () ∧
      parts "model.gguf ".toList = ["model.gguf ".toList] ∧
      safeFile "COM¹.json".toList = .ok () ∧
      parts "COM¹.json".toList = ["COM¹.json".toList] ∧
      windowsDevice "COM¹.json".toList = true ∧
      safeFile [] = .ok () ∧ parts [] = [[]] ∧
      safeFile "\tconfig.json".toList = .ok () ∧
      parts "\tconfig.json".toList = ["\tconfig.json".toList] ∧
      safeFile "config.json\u00a0".toList = .ok () ∧
      parts "config.json\u00a0".toList = ["config.json\u00a0".toList] := by
  decide

end AioLM.Discover
