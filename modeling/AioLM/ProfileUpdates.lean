import AioLM.JsonSame
import AioLM.Profiles
import AioLM.Runs

/-!
Editors that load the configuration, change their copy and save it: no accepted
library replaces one its editor had not seen.
-/

set_option autoImplicit false

namespace AioLM.Profiles

open Fallible Runs

/-- Numbers of one value, a float of integral value standing for the integer. -/
inductive SameNumber : Number → Number → Prop
  | equal {a b : Number} : a.beq b = true → SameNumber a b
  | left {n : Int} {x : Float} : (x == Json.floatOfInt n) = true → x.abs ≤ 9007199254740991 →
      SameNumber (.float x) (.int n)
  | right {n : Int} {x : Float} : (Json.floatOfInt n == x) = true →
      (Json.floatOfInt n).abs ≤ 9007199254740991 → SameNumber (.int n) (.float x)

abbrev Same : Json → Json → Prop := Json.Same SameNumber

theorem sameNumber_sound {a b : Number} (h : sameNumber a b = true) : SameNumber a b := by
  simp only [sameNumber, Bool.or_eq_true, Bool.and_eq_true, bne_iff_ne, decide_eq_true_eq] at h
  rcases h with h | ⟨⟨hkind, hvalue⟩, hsafe⟩
  · exact .equal h
  · cases a with
    | int n =>
      cases b with
      | int m => exact absurd rfl hkind
      | float x => exact .right hvalue hsafe
    | float x =>
      cases b with
      | int n => exact .left hvalue hsafe
      | float y => exact absurd rfl hkind

theorem same_of_beq {v w : Json} (h : (v == w) = true) : Same v w :=
  Json.Same.of_beq (fun _ _ => .equal) h

theorem sameJsonValue_sound {v w : Json} : v.Ordered → w.Ordered → sameJsonValue v w = true →
    Same v w := by
  refine @Json.rec (fun v => ∀ w, v.Ordered → w.Ordered → sameJsonValue v w = true →
      Same v w)
    (fun xs => ∀ ys, Json.OrderedItems xs → Json.OrderedItems ys →
      xs.length = ys.length → sameItems xs ys = true → List.Forall₂ Same xs ys)
    (fun fs => ∀ gs, Json.OrderedFields fs → Json.OrderedFields gs →
      sameFields fs gs = true → ∀ k v, Json.lookup k fs = some v →
        ∃ w, Json.lookup k gs = some w ∧ Same v w)
    (fun e => ∀ w, e.2.Ordered → w.Ordered → sameJsonValue e.2 w = true → Same e.2 w)
    ?_ ?_ ?_ ?_ ?_ ?_ ?_ ?_ ?_ ?_ ?_ v w
  · intro w _ _ h
    exact same_of_beq h
  · intro b w _ _ h
    exact same_of_beq h
  · intro n w _ _ h
    cases w with
    | number m => exact .number (sameNumber_sound h)
    | null | bool | string | array | object => cases h
  · intro t w _ _ h
    exact same_of_beq h
  · intro xs ih w hxs hw h
    cases w with
    | array ys =>
      simp only [sameJsonValue, Bool.and_eq_true, beq_iff_eq] at h
      exact .items (ih ys hxs hw h.1 h.2)
    | null | bool | number | string | object => cases h
  · intro fs ih w hfs hw h
    cases w with
    | object gs =>
      simp only [sameJsonValue, Bool.and_eq_true, beq_iff_eq] at h
      have hvalues := ih gs hfs.2 hw.2 h.2
      refine .object (hfs.1.keys_subset h.1 fun e he => ?_) fun k v w hv hw => ?_
      · obtain ⟨w, hw, -⟩ := hvalues e.1 e.2 (by
          rw [← Json.find_eq_lookup]
          exact KeyMap.find_of_mem hfs.1 he)
        rw [hw]
        rfl
      · obtain ⟨w', hw', hsame⟩ := hvalues k v hv
        rw [hw] at hw'
        cases hw'
        exact hsame
    | null | bool | number | string | array => cases h
  · intro ys _ _ hlength _
    cases ys with
    | nil => exact .nil
    | cons y ys => cases hlength
  · intro x xs hx hxs ys hox hoy hlength h
    cases ys with
    | nil => cases hlength
    | cons y ys =>
      simp only [sameItems, Bool.and_eq_true] at h
      exact .cons (hx y hox.1 hoy.1 h.1)
        (hxs ys hox.2 hoy.2 (Nat.succ.inj hlength) h.2)
  · intro gs _ _ _ k v hv
    cases hv
  · intro e fs he hfs gs hof hog h k v hv
    obtain ⟨l, u⟩ := e
    simp only [sameFields, Bool.and_eq_true] at h
    rw [Json.lookup] at hv
    split at hv
    · rename_i hk
      subst hk
      cases hv
      cases hother : Json.lookup l gs with
      | none =>
        rw [hother] at h
        cases h.1
      | some other =>
        rw [hother] at h
        exact ⟨other, rfl, he other hof.1 (hog.lookup hother) h.1⟩
    · exact hfs gs hof.2 hog h.2 k v hv
  · intro k v ih w hv hw h
    exact ih w hv hw h

theorem mem_optional {key : String} {value : Option Json} {e : Text × Json} :
    e ∈ optional key value ↔ ∃ v, value = some v ∧ e = (key.toList, v) := by
  cases value <;> simp [optional]

theorem optional_keys (key : String) (value : Option Json) :
    ((optional key value).map (·.1)).Sublist [key.toList] := by
  cases value with
  | none => exact List.nil_sublist _
  | some v => exact List.Sublist.refl _

theorem sorted_of_sublist {fields : List (Text × Json)} {keys : List Text}
    (h : (fields.map (·.1)).Sublist keys) (hkeys : keys.Pairwise (· < ·)) : Json.Sorted fields :=
  List.pairwise_map.mp (hkeys.sublist h)

theorem Settings.toValue_ordered (settings : Settings) : settings.toValue.Ordered := by
  refine ⟨settings.fields.sorted, .of_forall fun e he => ?_⟩
  exact settings.ordered e.1 e.2 (KeyMap.get_eq_some.mpr he)

theorem textMap_ordered (m : KeyMap Text Text) : (textMap m).Ordered := by
  refine ⟨List.pairwise_map.mpr m.sorted, .of_forall fun e he => ?_⟩
  obtain ⟨x, -, rfl⟩ := List.mem_map.mp he
  trivial

def profileKeys : List Text :=
  ["coverage", "id", "legacy", "legacy_runtime", "model_key", "name", "provider", "revision",
    "scope", "settings", "source_id", "source_scope", "system_prompt"].map String.toList

theorem SettingsProfile.keys_sublist (profile : SettingsProfile) :
    (profile.fields.map (·.1)).Sublist profileKeys := by
  simp only [fields, List.map_append, List.map_cons]
  exact (((optional_keys _ _).append ((((optional_keys _ _).cons_cons _)))).append
    (optional_keys _ _) |>.append (optional_keys _ _)).append
      ((((((optional_keys _ _).cons_cons _).cons_cons _).cons_cons _).cons_cons _).cons_cons _) |>.append
        (optional_keys _ _) |>.append (optional_keys _ _)

theorem strings_ordered (texts : List Text) : (Json.array (texts.map .string)).Ordered := by
  refine Json.OrderedItems.of_forall fun v hv => ?_
  obtain ⟨t, -, rfl⟩ := List.mem_map.mp hv
  trivial

theorem optional_ordered {α : Type} {f : α → Json} (hf : ∀ a, (f a).Ordered) {key : String}
    {value : Option α} : ∀ e ∈ optional key (value.map f), e.2.Ordered := by
  intro e he
  obtain ⟨v, hv, rfl⟩ := mem_optional.mp he
  obtain ⟨a, -, rfl⟩ := Option.map_eq_some_iff.mp hv
  exact hf a

theorem SettingsProfile.toValue_ordered (profile : SettingsProfile) : profile.toValue.Ordered := by
  refine ⟨sorted_of_sublist profile.keys_sublist (by decide), .of_forall ?_⟩
  have htext (key : String) (value : Option Text) :
      ∀ e ∈ optional key (value.map .string), e.2.Ordered := optional_ordered (f := .string) fun _ => trivial
  simp only [fields, List.forall_mem_append, List.forall_mem_cons, and_assoc]
  refine ⟨optional_ordered strings_ordered, trivial, optional_ordered (f := .bool) fun _ => trivial,
    optional_ordered Settings.toValue_ordered, htext _ _, trivial, trivial, trivial, ?_,
    profile.settings.toValue_ordered, htext _ _, ?_, htext _ _⟩
  · cases profile.scope <;> trivial
  · exact optional_ordered fun scope => by cases scope <;> trivial

def applicationKeys : List Text :=
  ["model", "profile_id", "profile_name", "profile_revision", "provider", "settings",
    "system_prompt"].map String.toList

theorem ProfileApplication.keys_sublist (application : ProfileApplication) :
    (application.fields.map (·.1)).Sublist applicationKeys := by
  simp only [fields, List.map_append, List.map_cons]
  exact (((optional_keys _ _).cons_cons _).append (optional_keys _ _) |>.append
    (optional_keys _ _)).append (List.Sublist.refl _)

theorem ProfileApplication.toValue_ordered (application : ProfileApplication) :
    application.toValue.Ordered := by
  refine ⟨sorted_of_sublist application.keys_sublist (by decide), .of_forall ?_⟩
  simp only [fields, List.forall_mem_append, List.forall_mem_cons, and_assoc]
  exact ⟨trivial, optional_ordered (f := .string) fun _ => trivial,
    optional_ordered (f := .string) fun _ => trivial,
    optional_ordered (f := fun n : Nat => .int n) fun _ => trivial, trivial, application.settings.toValue_ordered, trivial,
    nofun⟩

def libraryKeys : List Text :=
  ["applied", "default_profile_id", "entries", "legacy_imported", "provider_defaults",
    "provider_recent", "revision", "version"].map String.toList

theorem SettingsProfileLibrary.keys_sublist (library : SettingsProfileLibrary) :
    (library.fields.map (·.1)).Sublist libraryKeys := by
  simp only [fields, List.map_append, List.map_cons]
  exact ((optional_keys _ _).cons_cons _).append (List.Sublist.refl _)

theorem SettingsProfileLibrary.toValue_ordered (library : SettingsProfileLibrary) :
    library.toValue.Ordered := by
  refine ⟨sorted_of_sublist library.keys_sublist (by decide), .of_forall ?_⟩
  simp only [fields, List.forall_mem_append, List.forall_mem_cons, and_assoc]
  refine ⟨⟨List.pairwise_map.mpr library.applied.sorted, .of_forall fun e he => ?_⟩,
    optional_ordered (f := .string) fun _ => trivial, .of_forall fun v hv => ?_, trivial,
    textMap_ordered _, textMap_ordered _, trivial, trivial, nofun⟩
  · obtain ⟨x, -, rfl⟩ := List.mem_map.mp he
    exact x.2.toValue_ordered
  · obtain ⟨profile, -, rfl⟩ := List.mem_map.mp hv
    exact profile.toValue_ordered

theorem same_int (n : Int) : Same (.int n) (.int n) :=
  .number (.equal (by simp [Number.beq]))

theorem same_settings {a b : Settings} (h : a.beq b = true) : Same a.toValue b.toValue :=
  Json.Same.of_beq (fun _ _ => .equal) h

theorem same_listBeq {α : Type} {beq : α → α → Bool} {R : α → α → Prop}
    (hone : ∀ a b, beq a b = true → R a b) {as bs : List α} (h : listBeq beq as bs = true) :
    List.Forall₂ R as bs := by
  induction as generalizing bs with
  | nil =>
    cases bs with
    | nil => exact .nil
    | cons b bs => cases h
  | cons a as ih =>
    cases bs with
    | nil => cases h
    | cons b bs =>
      rw [listBeq, Bool.and_eq_true] at h
      exact .cons (hone a b h.1) (ih h.2)

theorem same_optional {α : Type} {f : α → Json} {key : String} {value : Option α}
    (h : ∀ a, Same (f a) (f a)) :
    Json.SameFields SameNumber (optional key (value.map f)) (optional key (value.map f)) := by
  cases value with
  | none => exact .nil
  | some a => exact .cons ⟨rfl, h a⟩ .nil

theorem same_text (key : String) (value : Option Text) :
    Json.SameFields SameNumber (optional key (value.map .string)) (optional key (value.map .string)) :=
  same_optional fun t => .string t

theorem same_strings (texts : List Text) :
    Same (.array (texts.map .string)) (.array (texts.map .string)) :=
  .items (List.forall₂_same.mpr fun v hv => by
    obtain ⟨t, -, rfl⟩ := List.mem_map.mp hv
    exact .string t)

theorem same_textMap (m : KeyMap Text Text) : Same (textMap m) (textMap m) :=
  .fields (List.forall₂_same.mpr fun e he => by
    obtain ⟨x, -, rfl⟩ := List.mem_map.mp he
    exact ⟨rfl, .string _⟩)

theorem same_legacyRuntime {a b : Option Settings}
    (h : SettingsProfile.beq.optionBeq Settings.beq a b = true) :
    Json.SameFields SameNumber (optional "legacy_runtime" (a.map Settings.toValue))
      (optional "legacy_runtime" (b.map Settings.toValue)) := by
  cases a with
  | none =>
    cases b with
    | none => exact .nil
    | some b => cases h
  | some a =>
    cases b with
    | none => cases h
    | some b => exact .cons ⟨rfl, same_settings h⟩ .nil

theorem SettingsProfile.same_of_beq {a b : SettingsProfile} (h : a.beq b = true) :
    Same a.toValue b.toValue := by
  obtain ⟨provider, legacyRuntime, id, name, scope, modelKey, sourceId, sourceScope, revision,
    settings, systemPrompt, legacy, coverage⟩ := a
  obtain ⟨provider', legacyRuntime', id', name', scope', modelKey', sourceId', sourceScope',
    revision', settings', systemPrompt', legacy', coverage'⟩ := b
  simp only [beq, Bool.and_eq_true, beq_iff_eq, and_assoc] at h
  obtain ⟨rfl, hlegacy, rfl, rfl, rfl, rfl, rfl, rfl, rfl, hsettings, rfl, rfl, rfl⟩ := h
  refine .fields ?_
  have htext {key : String} {value : Option Text} := same_text key value
  have hscope : Same scope.toValue scope.toValue := by cases scope <;> exact .string _
  have hmiddle : Json.SameFields SameNumber
      (("name".toList, .string name) :: ("provider".toList, .string provider) ::
        ("revision".toList, .int revision) :: ("scope".toList, scope.toValue) ::
        ("settings".toList, settings.toValue) :: optional "source_id" (sourceId.map .string))
      (("name".toList, .string name) :: ("provider".toList, .string provider) ::
        ("revision".toList, .int revision) :: ("scope".toList, scope.toValue) ::
        ("settings".toList, settings'.toValue) :: optional "source_id" (sourceId.map .string)) :=
    .cons ⟨rfl, .string _⟩ (.cons ⟨rfl, .string _⟩ (.cons ⟨rfl, same_int _⟩ (.cons ⟨rfl, hscope⟩
      (.cons ⟨rfl, same_settings hsettings⟩ htext))))
  have hfirst : Json.SameFields SameNumber
      (optional "coverage" (coverage.map fun keys => .array (keys.map .string)) ++
        ("id".toList, .string id) :: optional "legacy" (legacy.map .bool))
      (optional "coverage" (coverage.map fun keys => .array (keys.map .string)) ++
        ("id".toList, .string id) :: optional "legacy" (legacy.map .bool)) :=
    .append (same_optional same_strings) (.cons ⟨rfl, .string _⟩
      (same_optional fun b => .bool b))
  have hsource : Json.SameFields SameNumber
      (optional "source_scope" (sourceScope.map ProfileSourceScope.toValue))
      (optional "source_scope" (sourceScope.map ProfileSourceScope.toValue)) :=
    same_optional fun scope => by cases scope <;> exact .string _
  exact .append (.append (.append (.append (.append hfirst (same_legacyRuntime hlegacy)) htext)
    hmiddle) hsource) htext

theorem ProfileApplication.same_of_beq {a b : ProfileApplication} (h : a.beq b = true) :
    Same a.toValue b.toValue := by
  obtain ⟨provider, model, profileId, profileName, profileRevision, settings, systemPrompt⟩ := a
  obtain ⟨provider', model', profileId', profileName', profileRevision', settings',
    systemPrompt'⟩ := b
  simp only [beq, Bool.and_eq_true, beq_iff_eq, and_assoc] at h
  obtain ⟨rfl, rfl, rfl, rfl, rfl, hsettings, rfl⟩ := h
  refine .fields ?_
  have htext {key : String} {value : Option Text} := same_text key value
  have hrevision : Json.SameFields SameNumber
      (optional "profile_revision" (profileRevision.map fun n : Nat => .int n))
      (optional "profile_revision" (profileRevision.map fun n : Nat => .int n)) :=
    same_optional fun n => same_int n
  have hlast : Json.SameFields SameNumber
      [("provider".toList, .string provider), ("settings".toList, settings.toValue),
        ("system_prompt".toList, .string systemPrompt)]
      [("provider".toList, .string provider), ("settings".toList, settings'.toValue),
        ("system_prompt".toList, .string systemPrompt)] :=
    .cons ⟨rfl, .string _⟩ (.cons ⟨rfl, same_settings hsettings⟩ (.cons ⟨rfl, .string _⟩ .nil))
  have hfirst : Json.SameFields SameNumber
      (("model".toList, .string model) :: optional "profile_id" (profileId.map .string))
      (("model".toList, .string model) :: optional "profile_id" (profileId.map .string)) :=
    .cons ⟨rfl, .string _⟩ htext
  exact .append (.append (.append hfirst htext) hrevision) hlast

theorem SettingsProfileLibrary.same_of_beq {a b : SettingsProfileLibrary} (h : a.beq b = true) :
    Same a.toValue b.toValue := by
  simp only [beq, Bool.and_eq_true, beq_iff_eq, and_assoc] at h
  obtain ⟨hversion, hrevision, hentries, hdefault, hdefaults, hrecent, happlied, himported⟩ := h
  have htextMap {m m' : KeyMap Text Text} (h : m.entries = m'.entries) :
      Same (textMap m) (textMap m') := by
    rw [show textMap m = textMap m' by rw [textMap, textMap, h]]
    exact same_textMap m'
  have happlications : List.Forall₂ (fun e f => e.1 = f.1 ∧ Same e.2.toValue f.2.toValue)
      a.applied.entries b.applied.entries := by
    refine same_listBeq (fun x y hxy => ?_) happlied
    simp only [Bool.and_eq_true, beq_iff_eq] at hxy
    exact ⟨hxy.1, ProfileApplication.same_of_beq hxy.2⟩
  have hprofiles : List.Forall₂ (fun x y => Same (SettingsProfile.toValue x) y.toValue)
      a.entries b.entries := same_listBeq (fun _ _ => SettingsProfile.same_of_beq) hentries
  refine .fields ?_
  rw [fields, fields, hversion, hrevision, hdefault, himported]
  refine .append (.cons ⟨rfl, .fields ?_⟩ (same_optional fun t => .string t))
    (.cons ⟨rfl, .items ?_⟩ (.cons ⟨rfl, .bool _⟩ (.cons ⟨rfl, htextMap hdefaults⟩
      (.cons ⟨rfl, htextMap hrecent⟩ (.cons ⟨rfl, same_int _⟩ (.cons ⟨rfl, same_int _⟩ .nil))))))
  · exact List.forall₂_map_left_iff.mpr (List.forall₂_map_right_iff.mpr happlications)
  · exact List.forall₂_map_left_iff.mpr (List.forall₂_map_right_iff.mpr hprofiles)

theorem sameLibrary_sound {current incoming : SettingsProfileLibrary}
    (h : sameLibrary current incoming = true) :
    current.revision = incoming.revision ∧ Same current.toValue incoming.toValue := by
  unfold sameLibrary at h
  split at h
  · rename_i hbeq
    refine ⟨?_, SettingsProfileLibrary.same_of_beq hbeq⟩
    simp only [SettingsProfileLibrary.beq, Bool.and_eq_true, beq_iff_eq, and_assoc] at hbeq
    exact hbeq.2.1
  · split at h
    · cases h
    · rename_i hrevision
      exact ⟨Decidable.not_not.mp hrevision, sameJsonValue_sound current.toValue_ordered
        incoming.toValue_ordered h⟩

section Save

variable {C : Type} {exec : Execution C}

/-- The same keys, the values related one by one. -/
abbrev Entrywise {α : Type} (R : α → α → Prop) : List (Text × α) → List (Text × α) → Prop :=
  List.Forall₂ fun e e' => e'.1 = e.1 ∧ R e.2 e'.2

theorem Entrywise.keys {α : Type} {R : α → α → Prop} {xs ys : List (Text × α)}
    (h : Entrywise R xs ys) : ys.map (·.1) = xs.map (·.1) := by
  induction h with
  | nil => rfl
  | cons he _ ih => rw [List.map_cons, List.map_cons, he.1, ih]

theorem Entrywise.find {α : Type} {R : α → α → Prop} {xs ys : List (Text × α)}
    (h : Entrywise R xs ys) (key : Text) :
    (KeyMap.find key xs = none ∧ KeyMap.find key ys = none) ∨
      ∃ a b, KeyMap.find key xs = some a ∧ R a b ∧ KeyMap.find key ys = some b := by
  induction h with
  | nil => exact .inl ⟨rfl, rfl⟩
  | @cons e e' xs ys he _ ih =>
    rw [KeyMap.find, KeyMap.find, he.1]
    by_cases hk : e.1 = key
    · exact .inr ⟨e.2, e'.2, if_pos hk, he.2, if_pos hk⟩
    · rw [if_neg hk, if_neg hk]
      exact ih

/-- The same targets, each with what `f` made of what it had. -/
theorem tryMapValues_ok {α : Type} {f : α → Except Text α} {m m' : KeyMap Text α}
    (h : tryMapValues f m = .ok m') (target : Text) :
    (m.get target = none ∧ m'.get target = none) ∨
      ∃ a b, m.get target = some a ∧ f a = .ok b ∧ m'.get target = some b := by
  simp only [tryMapValues, bind_eq_ok, pure, Except.pure, Except.ok.injEq] at h
  obtain ⟨entries, hentries, rfl⟩ := h
  have heach : Entrywise (fun a b => f a = .ok b) m.entries entries := by
    refine (mapM_eq_ok.mp hentries).imp fun e e' he => ?_
    cases hf : f e.2 with
    | error error =>
      rw [hf] at he
      cases he
    | ok b =>
      rw [hf] at he
      cases he
      exact ⟨rfl, hf⟩
  rw [KeyMap.get_foldl_insert (heach.keys ▸ m.keys_nodup), KeyMap.get_empty, Option.or_none,
    KeyMap.get]
  exact heach.find target

theorem prepareConfigUpdate_ok {current incoming prepared : AppConfig C}
    (h : prepareConfigUpdate exec current incoming = .ok prepared) :
    validateUpdate exec current.settingsProfiles incoming.settingsProfiles = .ok () ∧
      prepareLibrary exec current.settingsProfiles incoming.settingsProfiles =
        .ok prepared.settingsProfiles := by
  simp only [prepareConfigUpdate, bind_eq_ok, pure, Except.pure, Except.ok.injEq] at h
  obtain ⟨⟨⟩, hvalid, library, hlibrary, launch, -, rfl⟩ := h
  exact ⟨hvalid, hlibrary⟩

def Successor (library : SettingsProfileLibrary) : Option SettingsProfileLibrary → Prop
  | none => library.revision = 1
  | some previous => library.revision = previous.revision + 1

def SameLibrary : Option SettingsProfileLibrary → Option SettingsProfileLibrary → Prop
  | none, none => True
  | some current, some incoming =>
    current.revision = incoming.revision ∧ Same current.toValue incoming.toValue
  | _, _ => False

theorem nextRevision_eq_some {revision next : Nat} (h : nextRevision revision = some next) :
    next = revision + 1 := by
  unfold nextRevision at h
  split at h
  · exact (Option.some.inj h).symm
  · cases h

theorem checkRevision_ok {current incoming : Option SettingsProfileLibrary}
    (h : checkRevision current incoming = .ok ()) :
    SameLibrary current incoming ∨
      ∃ library, incoming = some library ∧ Successor library current := by
  cases current with
  | none =>
    cases incoming with
    | none => exact .inl trivial
    | some library => exact .inr ⟨library, rfl, by simpa [checkRevision, Successor] using h⟩
  | some current =>
    cases incoming with
    | none => cases h
    | some library =>
      rw [checkRevision, require_eq_ok] at h
      rcases h with hsame | hnext
      · exact .inl (sameLibrary_sound hsame)
      · exact .inr ⟨library, rfl, nextRevision_eq_some hnext⟩

/-- The settings that a save may rewrite are those of the applications. -/
structure Normalized (exec : Execution C) (incoming library : SettingsProfileLibrary) : Prop where
  frame : library = { incoming with applied := library.applied }
  targets : ∀ target, (incoming.applied.get target).isSome = (library.applied.get target).isSome
  applications : ∀ target application, library.applied.get target = some application →
    ∃ saved, incoming.applied.get target = some saved ∧
      normalizeApplication exec saved = .ok application

theorem normalizeApplication_ok {saved application : ProfileApplication}
    (h : normalizeApplication exec saved = .ok application) :
    ∃ settings, application = { saved with settings := settings } := by
  simp only [normalizeApplication, bind_eq_ok, pure, Except.pure, Except.ok.injEq] at h
  obtain ⟨cfg, -, -, -, rfl⟩ := h
  exact ⟨_, rfl⟩

theorem prepareLibrary_ok {current incoming prepared : Option SettingsProfileLibrary}
    (h : prepareLibrary exec current incoming = .ok prepared) :
    (incoming.map (·.revision) = current.map (·.revision) ∧ prepared = current) ∨
      (incoming.map (·.revision) ≠ current.map (·.revision) ∧
        (incoming = none → prepared = none) ∧
        ∀ library, incoming = some library →
          ∃ written, prepared = some written ∧ Normalized exec library written) := by
  unfold prepareLibrary at h
  split at h
  · rename_i hsame
    cases h
    exact .inl ⟨hsame, rfl⟩
  · rename_i hdiffer
    refine .inr ⟨hdiffer, ?_, ?_⟩
    · rintro rfl
      cases h
      rfl
    · rintro library rfl
      simp only [bind_eq_ok, pure, Except.pure, Except.ok.injEq] at h
      obtain ⟨applied, happlied, rfl⟩ := h
      refine ⟨_, rfl, rfl, fun target => ?_, fun target application happ => ?_⟩
      · rcases tryMapValues_ok happlied target with ⟨ha, hb⟩ | ⟨a, b, ha, -, hb⟩ <;>
          simp [ha, hb]
      · rcases tryMapValues_ok happlied target with ⟨-, hb⟩ | ⟨a, b, ha, hf, hb⟩
        · rw [happ] at hb
          cases hb
        · rw [happ] at hb
          cases hb
          exact ⟨a, ha, hf⟩

def Reassigned (library : SettingsProfileLibrary) (target : Text)
    (application : ProfileApplication) : Prop :=
  ∃ replacement, library.applied.get target = some replacement ∧
    replacement.profileId = library.fallback application.provider ∧
    replacement.model = application.model ∧ replacement.provider = application.provider

theorem checkReassigned_ok {incoming : SettingsProfileLibrary} {target id : Text}
    {application : ProfileApplication} (h : checkReassigned incoming target application = .ok ())
    (hid : application.profileId = some id) (hgone : incoming.hasEntry id = false) :
    Reassigned incoming target application := by
  simp only [checkReassigned, hid, hgone, Bool.false_eq_true, ↓reduceIte, bind_eq_ok,
    orError_eq_ok, require_eq_ok] at h
  obtain ⟨replacement, hget, hsame⟩ := h
  exact ⟨replacement, hget, hsame⟩

theorem Normalized.reassigned {incoming library : SettingsProfileLibrary} {target : Text}
    {application : ProfileApplication} (h : Normalized exec incoming library)
    (hold : Reassigned incoming target application) : Reassigned library target application := by
  obtain ⟨replacement, hget, hid, hmodel, hprovider⟩ := hold
  have hsome : (library.applied.get target).isSome := by
    rw [← h.targets target, hget]
    rfl
  obtain ⟨written, hwritten⟩ := Option.isSome_iff_exists.mp hsome
  obtain ⟨saved, hsaved, hnormalized⟩ := h.applications target written hwritten
  obtain ⟨settings, rfl⟩ := normalizeApplication_ok hnormalized
  rw [hget] at hsaved
  cases hsaved
  refine ⟨_, hwritten, ?_, hmodel, hprovider⟩
  rw [h.frame]
  exact hid

end Save

structure Draft (C : Type) where
  base : AppConfig C
  copy : AppConfig C

/-- A save that went through. -/
structure Acceptance (C : Type) where
  before : AppConfig C
  draft : Draft C
  after : AppConfig C

/-- What is stored, the drafts of the editors, and the accepted saves, the last first. -/
structure Desk (C : Type) where
  stored : AppConfig C
  drafts : List (Draft C) := []
  accepted : List (Acceptance C) := []

/-- The next step of some editor; a save holds the write lock throughout. -/
inductive Action (C : Type) where
  | load
  | edit (place : Nat) (copy : AppConfig C)
  | save (place : Nat) (written : Bool)

section Editors

variable {C : Type} {exec : Execution C}

def saveStep (exec : Execution C) (w : Desk C) (draft : Draft C) (written : Bool) : Desk C :=
  match prepareConfigUpdate exec w.stored draft.copy with
  | .ok after =>
    if written then
      { w with stored := after, accepted := ⟨w.stored, draft, after⟩ :: w.accepted }
    else w
  | .error _ => w

def step (exec : Execution C) (w : Desk C) : Action C → Option (Desk C)
  | .load => some { w with drafts := w.drafts ++ [⟨w.stored, w.stored⟩] }
  | .edit place copy => w.drafts[place]?.map fun draft =>
      { w with drafts := w.drafts.set place { draft with copy := copy } }
  | .save place written => w.drafts[place]?.map fun draft => saveStep exec w draft written

@[simp] theorem saveStep_drafts (w : Desk C) (draft : Draft C) (written : Bool) :
    (saveStep exec w draft written).drafts = w.drafts := by
  unfold saveStep
  split
  · split <;> rfl
  · rfl

theorem step_save {w : Desk C} {place : Nat} {draft : Draft C} (written : Bool)
    (h : w.drafts[place]? = some draft) :
    step exec w (.save place written) = some (saveStep exec w draft written) := by
  simp only [step, h, Option.map_some]

def Edited (base copy : Option SettingsProfileLibrary) : Prop :=
  ∀ library, copy = some library → (∃ old, base = some old ∧ library.revision = old.revision) ∨
    Successor library base

def Disciplined (w : Desk C) : Action C → Prop
  | .edit place copy => ∀ draft, w.drafts[place]? = some draft →
      Edited draft.base.settingsProfiles copy.settingsProfiles
  | _ => True

/-- Accepted saves, each on what the one before it left: either nothing becomes of the
library, or the editor had loaded the very library its own replaces. -/
inductive Chain (first : Option SettingsProfileLibrary) :
    List (Acceptance C) → Option SettingsProfileLibrary → Prop
  | start : Chain first [] first
  | kept {saves : List (Acceptance C)} {stored : Option SettingsProfileLibrary}
      {save : Acceptance C} : Chain first saves stored → save.before.settingsProfiles = stored →
      save.after.settingsProfiles = stored → Chain first (save :: saves) stored
  | next {saves : List (Acceptance C)} {stored : Option SettingsProfileLibrary}
      {save : Acceptance C} {library : SettingsProfileLibrary} : Chain first saves stored →
      save.before.settingsProfiles = stored → save.draft.base.settingsProfiles = stored →
      Successor library stored → save.after.settingsProfiles = some library →
      Chain first (save :: saves) (some library)

def revision (cfg : AppConfig C) : Option Nat := cfg.settingsProfiles.map (·.revision)

structure Accepted (exec : Execution C) (save : Acceptance C) : Prop where
  kept : revision save.draft.copy = revision save.before →
    SameLibrary save.before.settingsProfiles save.draft.copy.settingsProfiles ∧
      save.after.settingsProfiles = save.before.settingsProfiles
  written : revision save.draft.copy ≠ revision save.before →
    ∃ incoming library, save.draft.copy.settingsProfiles = some incoming ∧
      save.after.settingsProfiles = some library ∧ Normalized exec incoming library
  reassigned : ∀ previous library target application id,
    save.before.settingsProfiles = some previous → save.after.settingsProfiles = some library →
    previous.applied.get target = some application → application.profileId = some id →
    previous.hasEntry id = true → library.hasEntry id = false →
    Reassigned library target application

def Behind : Option SettingsProfileLibrary → Option SettingsProfileLibrary → Prop
  | none, none => True
  | none, some stored => 0 < stored.revision
  | some base, some stored =>
    base.revision ≤ stored.revision ∧ (base.revision = stored.revision → base = stored)
  | some _, none => False

theorem Behind.refl (library : Option SettingsProfileLibrary) : Behind library library := by
  cases library with
  | none => trivial
  | some library => exact ⟨le_rfl, fun _ => rfl⟩

theorem Behind.successor {base stored : Option SettingsProfileLibrary}
    {library : SettingsProfileLibrary} (h : Behind base stored) (hnext : Successor library stored) :
    Behind base (some library) := by
  cases stored with
  | none =>
    cases base with
    | none =>
      have hone : library.revision = 1 := hnext
      show 0 < library.revision
      omega
    | some base => exact h.elim
  | some stored =>
    have hlater : library.revision = stored.revision + 1 := hnext
    cases base with
    | none =>
      show 0 < library.revision
      omega
    | some base =>
      have hle : base.revision ≤ stored.revision := h.1
      exact ⟨by omega, fun heq => by omega⟩

theorem Behind.current {base stored : Option SettingsProfileLibrary}
    {library : SettingsProfileLibrary} (h : Behind base stored)
    (hedited : Edited base (some library)) (hnext : Successor library stored) : base = stored := by
  rcases hedited library rfl with ⟨old, rfl, hsame⟩ | hbumped
  · cases stored with
    | none => exact h.elim
    | some stored =>
      have hlater : library.revision = stored.revision + 1 := hnext
      have hle : old.revision ≤ stored.revision := h.1
      omega
  · cases base with
    | none =>
      cases stored with
      | none => rfl
      | some stored =>
        have hone : library.revision = 1 := hbumped
        have hlater : library.revision = stored.revision + 1 := hnext
        have hpos : 0 < stored.revision := h
        omega
    | some base =>
      cases stored with
      | none => exact h.elim
      | some stored =>
        have hbase : library.revision = base.revision + 1 := hbumped
        have hlater : library.revision = stored.revision + 1 := hnext
        rw [h.2 (by omega)]

theorem checkIncoming_reassigned {previous incoming : SettingsProfileLibrary}
    {target id : Text} {application : ProfileApplication}
    (h : checkIncoming exec (some previous) incoming = .ok ())
    (htarget : previous.applied.get target = some application)
    (hid : application.profileId = some id) (hgone : incoming.hasEntry id = false) :
    Reassigned incoming target application := by
  simp only [checkIncoming, checkOptional, bind_eq_ok] at h
  obtain ⟨-, -, hall⟩ := h
  exact checkReassigned_ok (forM_eq_ok.mp hall _ (KeyMap.get_eq_some.mp htarget)) hid hgone

theorem validateUpdate_ok {current incoming : Option SettingsProfileLibrary}
    (h : validateUpdate exec current incoming = .ok ()) :
    (∀ library, incoming = some library → checkIncoming exec current library = .ok ()) ∧
      checkRevision current incoming = .ok () := by
  simp only [validateUpdate, bind_eq_ok] at h
  obtain ⟨⟨⟩, hincoming, hrevision⟩ := h
  refine ⟨?_, hrevision⟩
  rintro library rfl
  exact hincoming

theorem SameLibrary.revision {current incoming : Option SettingsProfileLibrary}
    (h : SameLibrary current incoming) :
    incoming.map (·.revision) = current.map (·.revision) := by
  cases current with
  | none =>
    cases incoming with
    | none => rfl
    | some incoming => exact h.elim
  | some current =>
    cases incoming with
    | none => exact h.elim
    | some incoming => exact congrArg some h.1.symm

theorem Successor.of_revision {library saved : SettingsProfileLibrary}
    {previous : Option SettingsProfileLibrary} (h : Successor library previous)
    (hrevision : saved.revision = library.revision) : Successor saved previous := by
  cases previous with
  | none => exact hrevision.trans h
  | some previous => exact hrevision.trans h

theorem Successor.revision_ne {library : SettingsProfileLibrary}
    {previous : Option SettingsProfileLibrary} (h : Successor library previous) :
    some library.revision ≠ previous.map (·.revision) := by
  cases previous with
  | none => nofun
  | some previous =>
    have hlater : library.revision = previous.revision + 1 := h
    rw [Option.map_some, Ne, Option.some.injEq]
    omega

theorem prepare_library_cases {current incoming prepared : AppConfig C}
    (h : prepareConfigUpdate exec current incoming = .ok prepared) :
    (SameLibrary current.settingsProfiles incoming.settingsProfiles ∧
        prepared.settingsProfiles = current.settingsProfiles) ∨
      ∃ saved library, incoming.settingsProfiles = some saved ∧
        prepared.settingsProfiles = some library ∧
        Successor library current.settingsProfiles ∧ Normalized exec saved library ∧
        revision incoming ≠ revision current := by
  obtain ⟨hvalid, hprepare⟩ := prepareConfigUpdate_ok h
  obtain ⟨-, hrevision⟩ := validateUpdate_ok hvalid
  rcases checkRevision_ok hrevision with hsame | ⟨saved, hsaved, hnext⟩
  · rcases prepareLibrary_ok hprepare with ⟨-, hkept⟩ | ⟨hdiffer, -⟩
    · exact .inl ⟨hsame, hkept⟩
    · exact absurd hsame.revision hdiffer
  · have hne : revision incoming ≠ revision current := by
      rw [revision, hsaved]
      exact hnext.revision_ne
    rcases prepareLibrary_ok hprepare with ⟨hequal, -⟩ | ⟨-, -, hwritten⟩
    · exact absurd hequal hne
    · obtain ⟨library, hlibrary, hnormalized⟩ := hwritten saved hsaved
      have hrev : library.revision = saved.revision := by rw [hnormalized.frame]
      exact .inr ⟨saved, library, hsaved, hlibrary, hnext.of_revision hrev, hnormalized, hne⟩

theorem Normalized.hasEntry {incoming library : SettingsProfileLibrary}
    (h : Normalized exec incoming library) (id : Text) :
    library.hasEntry id = incoming.hasEntry id := by
  rw [SettingsProfileLibrary.hasEntry, h.frame]
  rfl

theorem accepted_of_save {stored after : AppConfig C} {draft : Draft C}
    (h : prepareConfigUpdate exec stored draft.copy = .ok after) :
    Accepted exec ⟨stored, draft, after⟩ := by
  obtain ⟨hincoming, -⟩ := validateUpdate_ok (prepareConfigUpdate_ok h).1
  rcases prepare_library_cases h with
    ⟨hsame, hkept⟩ | ⟨saved, library, hsaved, hlibrary, hnext, hnormalized, hne⟩
  · refine ⟨fun _ => ⟨hsame, hkept⟩, fun hne => absurd hsame.revision hne, ?_⟩
    intro previous library target application id hbefore hafter _ _ hthere hgone
    have heq : some library = some previous := hafter.symm.trans (hkept.trans hbefore)
    obtain rfl := Option.some.inj heq
    rw [hthere] at hgone
    cases hgone
  · refine ⟨fun heq => absurd heq hne, fun _ => ⟨saved, library, hsaved, hlibrary, hnormalized⟩, ?_⟩
    intro previous library' target application id hbefore hafter htarget hid _ hgone
    have heq : some library' = some library := hafter.symm.trans hlibrary
    obtain rfl := Option.some.inj heq
    have hcheck : checkIncoming exec stored.settingsProfiles saved = .ok () := hincoming saved hsaved
    have hbefore' : stored.settingsProfiles = some previous := hbefore
    rw [hbefore'] at hcheck
    rw [hnormalized.hasEntry] at hgone
    exact hnormalized.reassigned (checkIncoming_reassigned hcheck htarget hid hgone)

/-- What is kept through a run. -/
structure Inv (exec : Execution C) (first : AppConfig C) (w : Desk C) : Prop where
  chain : Chain first.settingsProfiles w.accepted w.stored.settingsProfiles
  drafts : ∀ draft ∈ w.drafts, Behind draft.base.settingsProfiles w.stored.settingsProfiles ∧
    Edited draft.base.settingsProfiles draft.copy.settingsProfiles
  accepted : ∀ save ∈ w.accepted, Accepted exec save

theorem Edited.refl (library : Option SettingsProfileLibrary) : Edited library library :=
  fun old hold => .inl ⟨old, hold, rfl⟩

theorem inv_save {first : AppConfig C} {w : Desk C} {draft : Draft C} {written : Bool}
    (h : Inv exec first w) (hdraft : draft ∈ w.drafts) :
    Inv exec first (saveStep exec w draft written) := by
  unfold saveStep
  split
  · rename_i after hafter
    split
    · obtain ⟨hbehind, hedited⟩ := h.drafts draft hdraft
      have haccepted := List.forall_mem_cons.mpr ⟨accepted_of_save hafter, h.accepted⟩
      rcases prepare_library_cases hafter with
        ⟨-, hkept⟩ | ⟨saved, library, hsaved, hlibrary, hnext, hnormalized, -⟩
      · exact ⟨by
          rw [hkept]
          exact .kept h.chain rfl hkept, by
          rw [hkept]
          exact h.drafts, haccepted⟩
      · rw [hsaved] at hedited
        have hrev : saved.revision = library.revision := by rw [hnormalized.frame]
        have hbase := hbehind.current hedited (hnext.of_revision hrev)
        refine ⟨?_, fun other hother => ?_, haccepted⟩
        · rw [hlibrary]
          exact .next h.chain rfl hbase hnext hlibrary
        · rw [hlibrary]
          exact ⟨(h.drafts other hother).1.successor hnext, (h.drafts other hother).2⟩
    · exact h
  · exact h

theorem step_inv {first : AppConfig C} {w w' : Desk C} {a : Action C} (h : Inv exec first w)
    (hok : Disciplined w a) (hstep : step exec w a = some w') : Inv exec first w' := by
  cases a with
  | load =>
    obtain rfl := Option.some.inj hstep
    refine ⟨h.chain, fun draft hdraft => ?_, h.accepted⟩
    rcases List.mem_append.mp hdraft with hold | hnew
    · exact h.drafts draft hold
    · rw [List.mem_singleton.mp hnew]
      exact ⟨.refl _, .refl _⟩
  | edit place copy =>
    obtain ⟨draft, hdraft, rfl⟩ := Option.map_eq_some_iff.mp hstep
    refine ⟨h.chain, fun other hother => ?_, h.accepted⟩
    rcases List.mem_or_eq_of_mem_set hother with hold | rfl
    · exact h.drafts other hold
    · exact ⟨(h.drafts draft (List.mem_of_getElem? hdraft)).1, hok draft hdraft⟩
  | save place written =>
    obtain ⟨draft, hdraft, rfl⟩ := Option.map_eq_some_iff.mp hstep
    exact inv_save h (List.mem_of_getElem? hdraft)

theorem Inv.start (first : AppConfig C) : Inv exec first ⟨first, [], []⟩ :=
  ⟨.start, List.forall_mem_nil _, List.forall_mem_nil _⟩

/-- Under any interleaving of editors the accepted libraries form a chain, each save of
a library being made on the one before it. -/
theorem no_lost_update {first : AppConfig C} {w : Desk C}
    (hrun : Reaches (step exec) Disciplined ⟨first, [], []⟩ w) :
    Chain first.settingsProfiles w.accepted w.stored.settingsProfiles ∧
      ∀ save ∈ w.accepted, Accepted exec save := by
  have hkeep : ∀ (s s' : Desk C) (a : Action C), Inv exec first s → Disciplined s a →
      step exec s a = some s' → Inv exec first s' := fun _ _ _ => step_inv
  have hinv := hrun.invariant (.start first) hkeep
  exact ⟨hinv.chain, hinv.accepted⟩

end Editors

def sampleLaunch : Launch Unit where
  activeModel := "/m.gguf".toList
  activeProvider := llamaProvider
  activeRuntime := []
  activeBackend := []
  activeBuild := []
  mmproj := []
  specDraftModel := []
  gpu := .null
  runtimeDefaults := []
  loraAdapters := []
  serverArgs := []
  sessions := []
  other := ()

def sampleExecution : Execution Unit where
  toLowercase := Text.toAsciiLower
  floatText _ := "0.0".toList
  settingsConfig _ := .ok sampleLaunch
  normalize := id
  validate _ := .ok ()
  snapshot _ := ⟨.empty, nofun⟩
  mergeFields launch _ := .ok launch

def sampleLibrary (name : String) : SettingsProfileLibrary where
  version := 1
  revision := 1
  entries := [{
    provider := llamaProvider
    id := "balanced".toList
    name := name.toList
    scope := .global
    revision := 1
    settings := ⟨.empty, nofun⟩ }]
  defaultProfileId := some "balanced".toList
  applied := .empty
  legacyImported := true

/-- What is loaded before there is a library. -/
def sampleConfig : AppConfig Unit := ⟨none, sampleLaunch⟩

def sampleDraft (name : String) : Draft Unit :=
  ⟨sampleConfig, ⟨some (sampleLibrary name), sampleLaunch⟩⟩

/-- Two editors that loaded the same configuration are about to save. -/
def sampleEdited : Desk Unit := ⟨sampleConfig, [sampleDraft "Balanced", sampleDraft "Fast"], []⟩

def sampleDesk : Desk Unit :=
  saveStep sampleExecution (saveStep sampleExecution sampleEdited (sampleDraft "Balanced") true)
    (sampleDraft "Fast") true

theorem sampleDesk_reached :
    Reaches (step sampleExecution) Disciplined ⟨sampleConfig, [], []⟩ sampleDesk := by
  have hedited (name : String) (w : Desk Unit) (place : Nat)
      (hbase : ∀ draft, w.drafts[place]? = some draft → draft.base = sampleConfig) :
      Disciplined w (.edit place (sampleDraft name).copy) := by
    intro draft hdraft library h
    obtain rfl := Option.some.inj h
    rw [hbase draft hdraft]
    exact .inr rfl
  have hloaded : Reaches (step sampleExecution) Disciplined ⟨sampleConfig, [], []⟩
      ⟨sampleConfig, [⟨sampleConfig, sampleConfig⟩, ⟨sampleConfig, sampleConfig⟩], []⟩ :=
    .next (a := .load) (.next (a := .load) .start trivial rfl) trivial rfl
  have hfirst := hloaded.next (hedited "Balanced" _ 0 fun _ h => by cases h; rfl) rfl
  have hsecond : Reaches (step sampleExecution) Disciplined ⟨sampleConfig, [], []⟩ sampleEdited :=
    hfirst.next (hedited "Fast" _ 1 fun _ h => by cases h; rfl) rfl
  have hsaved := hsecond.next (a := Action.save 0 true) trivial (step_save true rfl)
  exact hsaved.next (a := Action.save 1 true) trivial (step_save true (by rw [saveStep_drafts]; rfl))

/-- The editor that saves second is refused. -/
theorem no_lost_update_refused :
    sampleDesk.accepted.length = 1 ∧
      Chain none sampleDesk.accepted sampleDesk.stored.settingsProfiles ∧
      ∀ save ∈ sampleDesk.accepted, Accepted sampleExecution save :=
  ⟨by decide +kernel, no_lost_update sampleDesk_reached⟩

end AioLM.Profiles
