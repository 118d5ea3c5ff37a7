import AioLM.OptionSchema

/-!
Exactly when the options of a schema that are all launch options pass their check.
-/

set_option autoImplicit false

namespace AioLM.Options

open Fallible

namespace OptionDefinition

variable {documents : List RawHelp} {option : OptionDefinition} {seen seen' : Seen}

structure Launches (documents : List RawHelp) (option : OptionDefinition) : Prop where
  key : identifier option.key
  scope : validScope option.scope
  help : boundedText option.help 32768
  group : boundedText option.group 256
  facts : option.checkFacts documents = .ok ()
  benchmarkName : option.benchmarkName.value.all benchmarkIdentifier
  spans : ∀ span ∈ option.rawSpans, span.fits documents
  arity : option.arityFits
  choices : option.choicesFit
  range : option.rangeFits
  place : option.requestField.value = none ∧ (option.position.isSome = true ↔ option.spellings = [])
  spelling : ∀ spelling ∈ option.spellings, option.spellingFits spelling

def slots (option : OptionDefinition) : List (List Text × Nat) :=
  option.position.toList.map fun position => (option.scope, position)

theorem checkSpelling_eq_ok {spelling : Spelling} :
    option.checkSpelling seen spelling = .ok seen' ↔
      option.spellingFits spelling ∧ (option.scope, spelling.flag) ∉ seen.flags ∧
        seen' = { seen with flags := (option.scope, spelling.flag) :: seen.flags } := by
  simp only [checkSpelling, bind_eq_ok, require_eq_ok, pure, Except.pure, Except.ok.injEq]
  constructor
  · rintro ⟨-, ⟨hfits, hfree⟩, rfl⟩
    exact ⟨hfits, hfree, rfl⟩
  · rintro ⟨hfits, hfree, rfl⟩
    exact ⟨(), ⟨hfits, hfree⟩, rfl⟩

theorem checkSpellings_eq_ok {spellings : List Spelling} :
    spellings.foldlM option.checkSpelling seen = .ok seen' ↔
      (∀ s ∈ spellings, option.spellingFits s) ∧
        (spellings.map fun s => (option.scope, s.flag)).Nodup ∧
        (∀ s ∈ spellings, (option.scope, s.flag) ∉ seen.flags) ∧
        seen' = { seen with
          flags := (spellings.map fun s => (option.scope, s.flag)).reverse ++ seen.flags } := by
  induction spellings generalizing seen with
  | nil =>
    simp only [List.foldlM_nil, pure, Except.pure, Except.ok.injEq]
    constructor
    · rintro rfl
      simp
    · rintro ⟨-, -, -, rfl⟩
      rfl
  | cons spelling spellings ih =>
    simp only [List.foldlM_cons, bind_eq_ok, checkSpelling_eq_ok, ih]
    constructor
    · rintro ⟨next, ⟨hfits, hfree, rfl⟩, hall, hnodup, hnot, rfl⟩
      simp only [List.mem_cons, not_or] at hnot
      refine ⟨List.forall_mem_cons.mpr ⟨hfits, hall⟩, List.nodup_cons.mpr ⟨?_, hnodup⟩,
        List.forall_mem_cons.mpr ⟨hfree, fun s hs => (hnot s hs).2⟩, by simp⟩
      intro hmem
      obtain ⟨s, hs, heq⟩ := List.mem_map.mp hmem
      exact (hnot s hs).1 heq
    · rintro ⟨hall, hnodup, hnot, rfl⟩
      obtain ⟨hfits, hall⟩ := List.forall_mem_cons.mp hall
      obtain ⟨hfree, hnot⟩ := List.forall_mem_cons.mp hnot
      obtain ⟨hnew, hnodup⟩ := List.nodup_cons.mp hnodup
      refine ⟨_, ⟨hfits, hfree, rfl⟩, hall, hnodup, ?_, by simp⟩
      intro s hs hmem
      rcases List.mem_cons.mp hmem with heq | hmem
      · exact hnew (List.mem_map.mpr ⟨s, hs, heq⟩)
      · exact hnot s hs hmem

theorem checkPosition_eq_ok :
    option.checkPosition seen = .ok seen' ↔ (∀ slot ∈ option.slots, slot ∉ seen.positions) ∧
      seen' = { seen with positions := option.slots ++ seen.positions } := by
  unfold checkPosition slots
  cases option.position with
  | none =>
    simp only [Option.toList_none, List.map_nil, List.not_mem_nil, false_implies, implies_true,
      List.nil_append, true_and, Except.ok.injEq]
    exact eq_comm
  | some position =>
    simp only [bind_eq_ok, require_eq_ok, pure, Except.pure, Except.ok.injEq, Option.toList_some,
      List.map_singleton, List.mem_singleton, forall_eq, List.singleton_append]
    constructor
    · rintro ⟨-, hfree, rfl⟩
      exact ⟨hfree, rfl⟩
    · rintro ⟨hfree, rfl⟩
      exact ⟨(), hfree, rfl⟩

theorem check_launch_eq_ok (htarget : option.target = .launch) :
    option.check documents seen = .ok seen' ↔
      option.Launches documents ∧ option.key ∉ seen.keys ∧ option.addresses.Nodup ∧
        (∀ a ∈ option.addresses, a ∉ seen.flags) ∧ (∀ a ∈ option.slots, a ∉ seen.positions) ∧
        seen' = { seen with
          keys := option.key :: seen.keys
          flags := option.addresses.reverse ++ seen.flags
          positions := option.slots ++ seen.positions } := by
  have hspans : option.rawSpans.forM (checkSource documents) = .ok () ↔
      ∀ span ∈ option.rawSpans, span.fits documents := by
    rw [forM_eq_ok]
    simp [checkSource]
  simp only [check, bind_eq_ok, require_eq_ok, checkTarget, htarget, checkLaunch,
    checkPosition_eq_ok, checkSpellings_eq_ok]
  constructor
  · rintro ⟨-, ⟨hkey, hscope, hnew, hhelp, hgroup⟩, ⟨⟩, hfacts, -, hname, ⟨⟩, hspan, -, harity, -,
      hchoices, -, hrange, -, hplace, next, ⟨hslots, rfl⟩, hspelling, hnodup, hfree, rfl⟩
    refine ⟨⟨hkey, hscope, hhelp, hgroup, hfacts, hname, hspans.mp hspan, harity, hchoices, hrange,
      hplace, hspelling⟩, hnew, hnodup, ?_, hslots, rfl⟩
    intro a ha
    obtain ⟨s, hs, rfl⟩ := List.mem_map.mp ha
    exact hfree s hs
  · rintro ⟨h, hnew, hnodup, hfree, hslots, rfl⟩
    exact ⟨(), ⟨h.key, h.scope, hnew, h.help, h.group⟩, (), h.facts, (), h.benchmarkName, (),
      hspans.mpr h.spans, (), h.arity, (), h.choices, (), h.range, (), h.place, _, ⟨hslots, rfl⟩,
      h.spelling, hnodup, fun s hs => hfree _ (List.mem_map_of_mem hs), rfl⟩

end OptionDefinition

namespace OptionSchema

variable {documents : List RawHelp} {options : List OptionDefinition} {seen : Seen}

/-- What the check asks of launch options together, past the names in `seen`. -/
structure Distinct (seen : Seen) (options : List OptionDefinition) : Prop where
  keys : (options.map (·.key)).Nodup
  newKey : ∀ option ∈ options, option.key ∉ seen.keys
  flags : (options.flatMap (·.addresses)).Nodup
  newFlag : ∀ a ∈ options.flatMap (·.addresses), a ∉ seen.flags
  slots : (options.flatMap (·.slots)).Nodup
  newSlot : ∀ a ∈ options.flatMap (·.slots), a ∉ seen.positions

theorem checkOptions_isOk_iff (hlaunch : ∀ option ∈ options, option.target = .launch) :
    (∃ seen', options.foldlM (OptionDefinition.check documents) seen = .ok seen') ↔
      (∀ option ∈ options, option.Launches documents) ∧ Distinct seen options := by
  induction options generalizing seen with
  | nil =>
    refine ⟨fun _ => ⟨by simp, ?_⟩, fun _ => ⟨seen, rfl⟩⟩
    exact ⟨by simp, by simp, by simp, by simp, by simp, by simp⟩
  | cons option options ih =>
    obtain ⟨htarget, hrest⟩ := List.forall_mem_cons.mp hlaunch
    simp only [List.foldlM_cons, bind_eq_ok, OptionDefinition.check_launch_eq_ok htarget]
    constructor
    · rintro ⟨seen', next, ⟨hfits, hkey, hnodup, hfree, hslots, rfl⟩, hok⟩
      obtain ⟨hall, h⟩ := (ih hrest).mp ⟨seen', hok⟩
      have hkeys := h.newKey
      have hflags := h.newFlag
      have hplaces := h.newSlot
      simp only [List.mem_cons, not_or, List.mem_append, List.mem_reverse] at hkeys hflags hplaces
      refine ⟨List.forall_mem_cons.mpr ⟨hfits, hall⟩, ?_, ?_, ?_, ?_, ?_, ?_⟩
      · refine List.nodup_cons.mpr ⟨fun hmem => ?_, h.keys⟩
        obtain ⟨other, hother, heq⟩ := List.mem_map.mp hmem
        exact (hkeys other hother).1 heq
      · exact List.forall_mem_cons.mpr ⟨hkey, fun o ho => (hkeys o ho).2⟩
      · rw [List.flatMap_cons, List.nodup_append']
        exact ⟨hnodup, h.flags, fun a ha hlater => (hflags a hlater).1 ha⟩
      · rw [List.flatMap_cons]
        exact List.forall_mem_append.mpr ⟨hfree, fun a ha => (hflags a ha).2⟩
      · rw [List.flatMap_cons, List.nodup_append']
        refine ⟨?_, h.slots, fun a ha hlater => (hplaces a hlater).1 ha⟩
        unfold OptionDefinition.slots
        cases option.position <;> simp
      · rw [List.flatMap_cons]
        exact List.forall_mem_append.mpr ⟨hslots, fun a ha => (hplaces a ha).2⟩
    · rintro ⟨hall, h⟩
      obtain ⟨hfits, hall⟩ := List.forall_mem_cons.mp hall
      obtain ⟨hkey, hkeys⟩ := List.forall_mem_cons.mp h.newKey
      obtain ⟨hkeyNot, hkeysNodup⟩ := List.nodup_cons.mp h.keys
      obtain ⟨hnodup, hflagsNodup, hflagsApart⟩ :=
        List.nodup_append'.mp (List.flatMap_cons ▸ h.flags)
      obtain ⟨hfree, hflags⟩ := List.forall_mem_append.mp (List.flatMap_cons ▸ h.newFlag)
      obtain ⟨-, hslotsNodup, hslotsApart⟩ := List.nodup_append'.mp (List.flatMap_cons ▸ h.slots)
      obtain ⟨hslots, hplaces⟩ := List.forall_mem_append.mp (List.flatMap_cons ▸ h.newSlot)
      suffices hok : ∃ seen', options.foldlM (OptionDefinition.check documents)
          { seen with
            keys := option.key :: seen.keys
            flags := option.addresses.reverse ++ seen.flags
            positions := option.slots ++ seen.positions } = .ok seen' by
        obtain ⟨seen', hseen⟩ := hok
        exact ⟨seen', _, ⟨hfits, hkey, hnodup, hfree, hslots, rfl⟩, hseen⟩
      refine (ih hrest).mpr ⟨hall, hkeysNodup, ?_, hflagsNodup, ?_, hslotsNodup, ?_⟩
      · intro o ho hmem
        rcases List.mem_cons.mp hmem with heq | hmem
        · exact hkeyNot (List.mem_map.mpr ⟨o, ho, heq⟩)
        · exact hkeys o ho hmem
      · intro a ha hmem
        rcases List.mem_append.mp hmem with hmem | hmem
        · exact hflagsApart (List.mem_reverse.mp hmem) ha
        · exact hflags a ha hmem
      · intro a ha hmem
        rcases List.mem_append.mp hmem with hmem | hmem
        · exact hslotsApart hmem ha
        · exact hplaces a ha hmem

end OptionSchema

end AioLM.Options
