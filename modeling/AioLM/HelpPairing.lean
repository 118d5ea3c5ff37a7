import Mathlib.Data.Finset.Insert
import AioLM.HelpValidity

/-!
Pairing of switches and negations, for help texts that document one long flag a line:
what each line should become, and what the merging pass makes of it in any order.
-/

set_option autoImplicit false

namespace AioLM.Options

/-- A documented flag with the name it goes by. -/
structure Switch where
  flag : Text
  key : Text
  boolean : Bool
  arity : Option Arity
  deriving DecidableEq

/-- A `--no-` flag without a value. -/
def Switch.negated (s : Switch) : Bool := isNegated s.flag && s.boolean

def partner (switches : List Switch) (s : Switch) : Option Switch :=
  switches.find? fun t => t.key = s.key ∧ t.negated ≠ s.negated

/-- Key, flags with their polarity, and value count of a definition. -/
abbrev Summary := Text × Finset (Text × Option Bool) × Option Arity

/-- The definition that a documented flag belongs to. -/
def expected (switches : List Switch) (s : Switch) : Summary :=
  match partner switches s with
  | none => (underscore '.' s.key, {(s.flag, if s.negated then some false else none)}, s.arity)
  | some other =>
    if s.boolean ∧ other.boolean then
      (underscore '.' s.key, {(s.flag, some !s.negated), (other.flag, some !other.negated)}, s.arity)
    else
      (underscore '.' (if s.negated then ownKey s.flag else s.key), {(s.flag, none)}, s.arity)

/-- One option and one negation a name, and a free key for every negation that has
to be an option of its own. -/
structure Separable (switches : List Switch) : Prop where
  names : ∀ a ∈ switches, ∀ b ∈ switches, a.key = b.key → a.negated = b.negated → a = b
  own : ∀ n ∈ switches, n.negated → ∀ v ∈ switches, v.boolean = false → v.key = n.key →
    Text.utf8Len (ownKey n.flag) ≤ 128 ∧ ∀ s ∈ switches, s.key ≠ ownKey n.flag

theorem partner_eq_some_iff {switches : List Switch} (h : Separable switches) {s t : Switch} :
    partner switches s = some t ↔ t ∈ switches ∧ t.key = s.key ∧ t.negated ≠ s.negated := by
  constructor
  · intro hfind
    have hkey := List.find?_some hfind
    exact ⟨List.mem_of_find?_eq_some hfind, by simpa using hkey⟩
  · rintro ⟨ht, hkey, hside⟩
    cases hfind : partner switches s with
    | none =>
      have hnone := List.find?_eq_none.mp hfind t ht
      simp [hkey, hside] at hnone
    | some u =>
      have hu := List.find?_some hfind
      simp only [decide_eq_true_eq] at hu
      have hsame : u.negated = t.negated := by
        cases hs : s.negated <;> simp_all
      rw [h.names u (List.mem_of_find?_eq_some hfind) t ht (hu.1.trans hkey.symm) hsame]

theorem partner_eq_none_iff {switches : List Switch} {s : Switch} :
    partner switches s = none ↔ ∀ t ∈ switches, t.key = s.key → t.negated = s.negated := by
  simp [partner]

theorem expected_perm {switches others : List Switch} (h : Separable switches)
    (hmem : ∀ s, s ∈ others ↔ s ∈ switches) (s : Switch) : expected others s = expected switches s := by
  have hothers : Separable others :=
    ⟨fun a ha b hb => h.names a ((hmem a).mp ha) b ((hmem b).mp hb),
      fun n hn hneg v hv hvalue hkey =>
        ⟨(h.own n ((hmem n).mp hn) hneg v ((hmem v).mp hv) hvalue hkey).1,
          fun s hs => (h.own n ((hmem n).mp hn) hneg v ((hmem v).mp hv) hvalue hkey).2 s
            ((hmem s).mp hs)⟩⟩
  have hpartner : partner others s = partner switches s := by
    refine Option.ext fun t => ?_
    rw [partner_eq_some_iff hothers, partner_eq_some_iff h, hmem]
  rw [expected, expected, hpartner]

namespace PendingOption

def flag (row : PendingOption) : Text := row.flags.headD []

/-- The value count that a row without a slot observes. -/
def arity (row : PendingOption) : Option Arity :=
  if row.isBoolean then some ⟨0, some 0⟩
  else if row.aliasConflict then none
  else arityForMetavar row.metavar

def switch (row : PendingOption) : Switch := ⟨row.flag, row.key, row.isBoolean, row.arity⟩

/-- A row as the parser reads it from a line with one long flag. -/
structure Single (row : PendingOption) : Prop where
  place : row.positional = none
  spellings : ∃ style, row.spellings =
    [⟨row.flag, style, if row.negativeOnly then some false else none⟩]
  long : startsWithDashes row.flag
  key : row.key = keyForFlag row.flag
  negative : row.negativeOnly = row.switch.negated
  bounded : row.key ≠ [] ∧ Text.utf8Len row.key ≤ 128

variable {row : PendingOption}

theorem Single.flags (h : row.Single) : row.flags = [row.flag] := by
  obtain ⟨style, hspellings⟩ := h.spellings
  rw [PendingOption.flags, hspellings]
  rfl

theorem Single.positive (h : row.Single) (hboolean : row.isBoolean)
    (hplain : row.negativeOnly = false) : isPositiveLong row.flag := by
  have hnegated : (isNegated row.flag && row.isBoolean) = false := h.negative.symm.trans hplain
  rw [hboolean, Bool.and_true] at hnegated
  rw [isPositiveLong, h.long, hnegated]
  rfl

theorem Single.negated (h : row.Single) (hnegative : row.negativeOnly) :
    isNegated row.flag ∧ row.isBoolean := by
  have hboth : (isNegated row.flag && row.isBoolean) = true := h.negative.symm.trans hnegative
  exact Bool.and_eq_true _ _ ▸ hboth

end PendingOption

/-- A flag as the polarity it ends with. -/
def Spelling.view (s : Spelling) : Text × Option Bool := (s.flag, s.polarity)

def PendingOption.views (row : PendingOption) : List (Text × Option Bool) :=
  row.spellings.map (·.view)

/-- A merged row with its option and the negations of its name read as its other side. -/
structure Headed (done : List PendingOption) (row head : PendingOption)
    (tails : List PendingOption) : Prop where
  source : head ∈ done
  plain : head.negativeOnly = false
  others : ∀ n ∈ tails, n ∈ done ∧ n.negativeOnly ∧ n.key = head.key
  boolean : tails ≠ [] → head.isBoolean
  same : tails = [] → row = head
  key : row.key = head.key
  kind : row.isBoolean = head.isBoolean
  place : row.positional = none
  negative : row.negativeOnly = false
  views : ∀ p, p ∈ row.views ↔ p = (head.flag, if tails = [] then none else some true) ∨
    ∃ n ∈ tails, p = (n.flag, some false)

def Shaped (done : List PendingOption) (row : PendingOption) : Prop :=
  (row ∈ done ∧ row.negativeOnly) ∨ ∃ head tails, Headed done row head tails

theorem Shaped.mono {done more : List PendingOption} {row : PendingOption}
    (h : Shaped done row) (hsub : done ⊆ more) : Shaped more row := by
  rcases h with ⟨hmem, hnegative⟩ | ⟨head, tails, h⟩
  · exact .inl ⟨hsub hmem, hnegative⟩
  · exact .inr ⟨head, tails, { h with
      source := hsub h.source
      others := fun n hn => ⟨hsub (h.others n hn).1, (h.others n hn).2⟩ }⟩

theorem headed_self {done : List PendingOption} {row : PendingOption} (hsingle : row.Single)
    (hmem : row ∈ done) (hplain : row.negativeOnly = false) : Headed done row row [] where
  source := hmem
  plain := hplain
  others := by simp
  boolean h := absurd rfl h
  same _ := rfl
  key := rfl
  kind := rfl
  place := hsingle.place
  negative := hplain
  views p := by
    obtain ⟨style, hspellings⟩ := hsingle.spellings
    simp [PendingOption.views, hspellings, hplain, Spelling.view]

theorem addFlag_new {polarity : Bool} {spellings : List Spelling} {s : Spelling}
    (hnew : ∀ t ∈ spellings, t.flag ≠ s.flag) :
    addFlag polarity spellings s = spellings ++ [⟨s.flag, .separate, some polarity⟩] := by
  rw [addFlag, if_neg]
  intro hany
  obtain ⟨t, ht, heq⟩ := List.any_eq_true.mp hany
  exact hnew t ht (by simpa using heq)

theorem absorb_spellings {row other : PendingOption} {polarity : Bool} (hsingle : other.Single)
    (hnew : other.flag ∉ row.flags) : (row.absorb other polarity).spellings =
      (row.spellings ++ [(⟨other.flag, .separate, some polarity⟩ : Spelling)]).map
        (settlePolarity polarity) := by
  obtain ⟨style, hspellings⟩ := hsingle.spellings
  have hother (t : Spelling) (ht : t ∈ row.spellings) : t.flag ≠ other.flag :=
    fun heq => hnew (List.mem_map.mpr ⟨t, ht, heq⟩)
  simp only [PendingOption.absorb, hspellings, List.foldl_cons, List.foldl_nil]
  rw [addFlag_new hother]

theorem absorb_flags {row other : PendingOption} {polarity : Bool} (hsingle : other.Single)
    (hnew : other.flag ∉ row.flags) :
    (row.absorb other polarity).flags = row.flags ++ [other.flag] := by
  have hsettle (s : Spelling) : (settlePolarity polarity s).flag = s.flag :=
    (settlePolarity_same polarity s).1
  simp [PendingOption.flags, absorb_spellings hsingle hnew, Function.comp_def, hsettle]

def settleView (polarity : Bool) (p : Text × Option Bool) : Text × Option Bool :=
  (p.1, if isOpposite polarity p.1 && p.2.isNone then some (!polarity) else p.2)

theorem absorb_views {row other : PendingOption} {polarity : Bool} (hsingle : other.Single)
    (hnew : other.flag ∉ row.flags) : (row.absorb other polarity).views =
      (row.views ++ [(other.flag, some polarity)]).map (settleView polarity) := by
  have hsettle (s : Spelling) : (settlePolarity polarity s).view = settleView polarity s.view := by
    unfold settlePolarity settleView Spelling.view
    split <;> simp_all
  simp only [PendingOption.views, absorb_spellings hsingle hnew, List.map_map, Function.comp_def,
    hsettle, List.map_append]
  rfl

theorem settleView_some (polarity b : Bool) (flag : Text) :
    settleView polarity (flag, some b) = (flag, some b) := by
  simp [settleView]

theorem absorb_tail {done : List PendingOption} {row head n : PendingOption}
    {tails : List PendingOption} (h : Headed done row head tails) (hhead : head.Single)
    (hboolean : row.isBoolean) (hn : n.Single) (hnegative : n.negativeOnly)
    (hkey : n.key = row.key) (hnew : n.flag ∉ row.flags) :
    Headed (done ++ [n]) (row.absorb n false) head (tails ++ [n]) := by
  have hkind : head.isBoolean := h.kind ▸ hboolean
  have hsettled : settleView false (head.flag, if tails = [] then none else some true) =
      (head.flag, some true) := by
    have hopposite : isOpposite false head.flag := hhead.positive hkind h.plain
    split
    · simp [settleView, hopposite]
    · exact settleView_some false true head.flag
  refine
    { source := List.mem_append_left _ h.source
      plain := h.plain
      others := ?_
      boolean := fun _ => hkind
      same := fun hnil => absurd hnil (by simp)
      key := h.key
      kind := h.kind
      place := h.place
      negative := rfl
      views := ?_ }
  · intro t ht
    rcases List.mem_append.mp ht with ht | ht
    · exact ⟨List.mem_append_left _ (h.others t ht).1, (h.others t ht).2⟩
    · rw [List.mem_singleton.mp ht]
      exact ⟨by simp, hnegative, hkey.trans h.key⟩
  · intro p
    rw [absorb_views hn hnew, List.mem_map]
    constructor
    · rintro ⟨v, hv, rfl⟩
      rcases List.mem_append.mp hv with hv | hv
      · rcases (h.views v).mp hv with rfl | ⟨t, ht, rfl⟩
        · exact .inl (by simpa using hsettled)
        · exact .inr ⟨t, List.mem_append_left _ ht, settleView_some false false t.flag⟩
      · rw [List.mem_singleton.mp hv]
        exact .inr ⟨n, by simp, settleView_some false false n.flag⟩
    · rintro (rfl | ⟨t, ht, rfl⟩)
      · refine ⟨_, List.mem_append_left _ ((h.views _).mpr (.inl rfl)), ?_⟩
        simpa using hsettled
      · refine ⟨(t.flag, some false), ?_, settleView_some false false t.flag⟩
        rcases List.mem_append.mp ht with ht | ht
        · exact List.mem_append_left _ ((h.views _).mpr (.inr ⟨t, ht, rfl⟩))
        · rw [List.mem_singleton.mp ht]
          simp

theorem absorb_head {done : List PendingOption} {n row : PendingOption} (hmem : n ∈ done)
    (hn : n.Single) (hnegative : n.negativeOnly) (hrow : row.Single) (hboolean : row.isBoolean)
    (hplain : row.negativeOnly = false) (hkey : n.key = row.key) (hnew : row.flag ∉ n.flags) :
    Headed (done ++ [row]) (n.absorb row true) row [n] := by
  have hviews : n.views = [(n.flag, some false)] := by
    obtain ⟨style, hspellings⟩ := hn.spellings
    simp [PendingOption.views, hspellings, hnegative, Spelling.view]
  refine
    { source := by simp
      plain := hplain
      others := ?_
      boolean := fun _ => hboolean
      same := fun hnil => absurd hnil (by simp)
      key := hkey
      kind := (hn.negated hnegative).2.trans hboolean.symm
      place := hn.place
      negative := rfl
      views := ?_ }
  · intro t ht
    rw [List.mem_singleton.mp ht]
    exact ⟨List.mem_append_left _ hmem, hnegative, hkey⟩
  · intro p
    rw [absorb_views hrow hnew, hviews]
    simp only [List.singleton_append, List.map_cons, List.map_nil, settleView_some, List.mem_cons,
      List.not_mem_nil, or_false, if_false, List.cons_ne_self, exists_eq_left]
    exact or_comm

theorem flatMap_modify_perm {α β : Type} {f : α → α} {g : α → List β} {xs : List α} {i : Nat}
    {x : α} {ys : List β} (hx : xs[i]? = some x) (h : g (f x) = g x ++ ys) :
    ((xs.modify i f).flatMap g).Perm (xs.flatMap g ++ ys) := by
  induction xs generalizing i with
  | nil => cases hx
  | cons y xs ih =>
    cases i with
    | zero =>
      obtain rfl : y = x := Option.some.inj hx
      rw [List.modify_zero_cons, List.flatMap_cons, List.flatMap_cons, h, List.append_assoc,
        List.append_assoc]
      exact (List.perm_append_comm).append_left _
    | succ i =>
      rw [List.modify_succ_cons, List.flatMap_cons, List.flatMap_cons, List.append_assoc]
      exact (ih hx).append_left _

/-- What one line does: a negation joins its option or waits, an option takes over a
waiting negation or stands alone. -/
theorem Merging.add_cases (st : Merging) {row : PendingOption} (h : row.Single) :
    (row.negativeOnly = true ∧ ∃ i, st.positives.get row.key = some i ∧
      st.add row = st.absorb i row false) ∨
    (row.negativeOnly = true ∧ st.positives.get row.key = none ∧
      st.add row = { st with
        negatives := st.negatives.insert row.key st.merged.length }.push row) ∨
    (row.negativeOnly = false ∧ row.isBoolean = false ∧ st.add row = st.push row) ∨
    (row.negativeOnly = false ∧ row.isBoolean = true ∧ ∃ i, st.negatives.get row.key = some i ∧
      st.add row = { st with
        negatives := st.negatives.erase row.key
        positives := st.positives.insert row.key i }.absorb i row true) ∨
    (row.negativeOnly = false ∧ row.isBoolean = true ∧ st.negatives.get row.key = none ∧
      st.add row = { st with
        positives := st.positives.insert row.key st.merged.length }.push row) := by
  obtain ⟨style, hspellings⟩ := h.spellings
  unfold Merging.add
  rw [if_neg (by simp [h.place])]
  cases hnegative : row.negativeOnly with
  | true =>
    cases hget : st.positives.get row.key with
    | none => simp
    | some i => simp
  | false =>
    cases hboolean : row.isBoolean with
    | false => simp
    | true =>
      have hpositive := h.positive hboolean hnegative
      have hlong : row.spellings.find? (isPositiveLong ·.flag) =
          some ⟨row.flag, style, if row.negativeOnly then some false else none⟩ := by
        rw [hspellings, List.find?_cons_of_pos (by simpa using hpositive)]
      simp only [Bool.false_eq_true, if_false, if_true, hlong, ← h.key]
      cases hget : st.negatives.get row.key with
      | none => simp
      | some i => simp

/-- What holds after the lines `done`, of which each has a flag of its own. -/
structure Merging.Done (done : List PendingOption) (st : Merging) : Prop where
  shaped : ∀ row ∈ st.merged, Shaped done row
  flags : (st.merged.flatMap (·.flags)).Perm (done.map (·.flag))
  negatives : ∀ key i, st.negatives.get key = some i →
    ∃ n, st.merged[i]? = some n ∧ n ∈ done ∧ n.negativeOnly = true ∧ n.key = key
  positives : ∀ key i, st.positives.get key = some i →
    ∃ row, st.merged[i]? = some row ∧ row.negativeOnly = false ∧ row.isBoolean = true ∧
      row.key = key
  known : ∀ p ∈ done, p.isBoolean = true → p.negativeOnly = false →
    (st.positives.get p.key).isSome
  apart : ∀ key, (st.positives.get key).isSome → st.negatives.get key = none
  /-- A lone negation is indexed, or another one of its name came later. -/
  waiting : ∀ i n, st.merged[i]? = some n → n.negativeOnly = true →
    st.negatives.get n.key = some i ∨
      ∃ other ∈ done, other.negativeOnly = true ∧ other.key = n.key ∧ other.flag ≠ n.flag

namespace Merging

variable {done : List PendingOption} {st : Merging} {row : PendingOption}

theorem Done.flag_not_mem (h : st.Done done) (hnew : row.flag ∉ done.map (·.flag))
    {old : PendingOption} (hold : old ∈ st.merged) : row.flag ∉ old.flags :=
  fun hmem => hnew (h.flags.mem_iff.mp (List.mem_flatMap.mpr ⟨old, hold, hmem⟩))

theorem getElem?_push {i : Nat} {r : PendingOption} (h : (st.push row).merged[i]? = some r) :
    st.merged[i]? = some r ∨ (i = st.merged.length ∧ r = row) :=
  Lists.getElem?_concat h

theorem getElem?_push_of_some {i : Nat} {r : PendingOption} (h : st.merged[i]? = some r) :
    (st.push row).merged[i]? = some r := Lists.getElem?_concat_of_some h

theorem push_flags (h : st.Done done) (hrow : row.Single) :
    ((st.push row).merged.flatMap (·.flags)).Perm ((done ++ [row]).map (·.flag)) := by
  have hflags : (st.push row).merged.flatMap (·.flags) =
      st.merged.flatMap (·.flags) ++ [row.flag] := by
    simp [push, hrow.flags]
  rw [hflags, List.map_append]
  exact h.flags.append_right _

theorem push_shaped (h : st.Done done) (hrow : Shaped (done ++ [row]) row) :
    ∀ r ∈ (st.push row).merged, Shaped (done ++ [row]) r := by
  intro r hr
  rcases List.mem_append.mp hr with hr | hr
  · exact (h.shaped r hr).mono (List.subset_append_left _ _)
  · rw [List.mem_singleton.mp hr]
    exact hrow

theorem absorb_flags {i : Nat} {old : PendingOption} {polarity : Bool} (h : st.Done done)
    (hrow : row.Single) (hnew : row.flag ∉ done.map (·.flag)) (hold : st.merged[i]? = some old) :
    ((st.merged.modify i (·.absorb row polarity)).flatMap (·.flags)).Perm
      ((done ++ [row]).map (·.flag)) := by
  have hgrown : (old.absorb row polarity).flags = old.flags ++ [row.flag] :=
    Options.absorb_flags hrow (h.flag_not_mem hnew (List.mem_of_getElem? hold))
  rw [List.map_append]
  exact (flatMap_modify_perm hold hgrown).trans (h.flags.append_right _)

theorem absorb_shaped {i : Nat} {old : PendingOption} {polarity : Bool} (h : st.Done done)
    (hold : st.merged[i]? = some old) (hshape : Shaped (done ++ [row]) (old.absorb row polarity)) :
    ∀ r ∈ st.merged.modify i (·.absorb row polarity), Shaped (done ++ [row]) r := by
  intro r hr
  rcases mem_modify hr with hr | ⟨x, hx, rfl⟩
  · exact (h.shaped r hr).mono (List.subset_append_left _ _)
  · obtain rfl : x = old := Option.some.inj (hx.symm.trans hold)
    exact hshape

theorem getElem?_absorb {i j : Nat} {polarity : Bool} {r : PendingOption}
    (h : (st.merged.modify i (·.absorb row polarity))[j]? = some r) :
    (j ≠ i ∧ st.merged[j]? = some r) ∨
      (j = i ∧ ∃ old, st.merged[i]? = some old ∧ r = old.absorb row polarity) := by
  rw [List.getElem?_modify] at h
  obtain ⟨old, hold, rfl⟩ := Option.map_eq_some_iff.mp h
  by_cases hij : i = j
  · subst hij
    exact .inr ⟨rfl, old, hold, by simp⟩
  · exact .inl ⟨Ne.symm hij, by simpa [hij] using hold⟩

theorem getElem?_absorb_of_ne {i j : Nat} {polarity : Bool} (hij : j ≠ i) :
    (st.merged.modify i (·.absorb row polarity))[j]? = st.merged[j]? := by
  rw [List.getElem?_modify]
  simp [Ne.symm hij]

/-- Where a lone negation of the earlier lines waits, it still does, or another one of
its name is there. -/
def Waits (done : List PendingOption) (negatives : KeyMap Text Nat) (i : Nat)
    (n : PendingOption) : Prop :=
  negatives.get n.key = some i ∨
    ∃ other ∈ done, other.negativeOnly = true ∧ other.key = n.key ∧ other.flag ≠ n.flag

theorem Waits.mono {negatives : KeyMap Text Nat} {i : Nat} {n : PendingOption}
    (h : Waits done negatives i n) : Waits (done ++ [row]) negatives i n :=
  h.imp id fun ⟨other, hother, hrest⟩ => ⟨other, List.mem_append_left _ hother, hrest⟩

theorem join_done (h : st.Done done) (hdone : ∀ r ∈ done, r.Single) (hrow : row.Single)
    (hnew : row.flag ∉ done.map (·.flag)) (hnegative : row.negativeOnly = true) {i : Nat}
    (hi : st.positives.get row.key = some i) : (st.absorb i row false).Done (done ++ [row]) := by
  obtain ⟨old, hold, hplain, hboolean, hkey⟩ := h.positives _ _ hi
  have hmem := List.mem_of_getElem? hold
  have hshape : Shaped (done ++ [row]) (old.absorb row false) := by
    rcases h.shaped old hmem with ⟨-, hlone⟩ | ⟨head, tails, hheaded⟩
    · rw [hplain] at hlone
      cases hlone
    · exact .inr ⟨head, tails ++ [row], absorb_tail hheaded (hdone head hheaded.source) hboolean hrow
        hnegative hkey.symm (h.flag_not_mem hnew hmem)⟩
  refine
    { shaped := absorb_shaped h hold hshape
      flags := absorb_flags h hrow hnew hold
      negatives := ?_, positives := ?_, known := ?_, apart := h.apart, waiting := ?_ }
  · intro key j hj
    obtain ⟨n, hn, hfrom, hneg, hkeyn⟩ := h.negatives key j hj
    have hij : j ≠ i := by
      rintro rfl
      obtain rfl : n = old := Option.some.inj (hn.symm.trans hold)
      rw [hplain] at hneg
      cases hneg
    exact ⟨n, (getElem?_absorb_of_ne hij).trans hn, List.mem_append_left _ hfrom, hneg, hkeyn⟩
  · intro key j hj
    obtain ⟨r, hr, hplainr, hbooleanr, hkeyr⟩ := h.positives key j hj
    by_cases hij : j = i
    · subst hij
      obtain rfl : r = old := Option.some.inj (hr.symm.trans hold)
      refine ⟨r.absorb row false, ?_, rfl, hbooleanr, hkeyr⟩
      simp [absorb, hr]
    · exact ⟨r, (getElem?_absorb_of_ne hij).trans hr, hplainr, hbooleanr, hkeyr⟩
  · intro p hp hbooleanp hplainp
    rcases List.mem_append.mp hp with hp | hp
    · exact h.known p hp hbooleanp hplainp
    · rw [List.mem_singleton.mp hp, hnegative] at hplainp
      cases hplainp
  · intro j n hn hneg
    rcases getElem?_absorb hn with ⟨-, hn⟩ | ⟨-, x, -, rfl⟩
    · exact Waits.mono (h.waiting j n hn hneg)
    · cases hneg

theorem wait_done (h : st.Done done) (hrow : row.Single) (hnew : row.flag ∉ done.map (·.flag))
    (hnegative : row.negativeOnly = true) (hnone : st.positives.get row.key = none) :
    Done (done ++ [row]) ({ st with
      negatives := st.negatives.insert row.key st.merged.length }.push row) := by
  have hself : row ∈ done ++ [row] := by simp
  have hshaped := push_shaped h (.inl ⟨hself, hnegative⟩)
  have hflags := push_flags h hrow
  refine
    { shaped := hshaped
      flags := hflags
      negatives := ?_, positives := ?_, known := ?_, apart := ?_, waiting := ?_ }
  · intro key j hj
    dsimp only [push] at hj
    rw [KeyMap.get_insert] at hj
    split at hj
    · rename_i hkey
      obtain rfl := Option.some.inj hj
      exact ⟨row, List.getElem?_concat_length, hself, hnegative, hkey.symm⟩
    · obtain ⟨n, hn, hfrom, hneg, hkeyn⟩ := h.negatives key j hj
      exact ⟨n, getElem?_push_of_some hn, List.mem_append_left _ hfrom, hneg, hkeyn⟩
  · intro key j hj
    obtain ⟨r, hr, hrest⟩ := h.positives key j hj
    exact ⟨r, getElem?_push_of_some hr, hrest⟩
  · intro p hp hbooleanp hplainp
    rcases List.mem_append.mp hp with hp | hp
    · exact h.known p hp hbooleanp hplainp
    · rw [List.mem_singleton.mp hp, hnegative] at hplainp
      cases hplainp
  · intro key hkey
    have hne : key ≠ row.key := by
      rintro rfl
      change (st.positives.get row.key).isSome at hkey
      rw [hnone] at hkey
      cases hkey
    dsimp only [push]
    rw [KeyMap.get_insert, if_neg hne]
    exact h.apart key hkey
  · intro j n hn hneg
    change Waits (done ++ [row]) (st.negatives.insert row.key st.merged.length) j n
    rcases getElem?_push hn with hn | ⟨rfl, rfl⟩
    · by_cases hkey : n.key = row.key
      · refine .inr ⟨row, hself, hnegative, hkey.symm, ?_⟩
        intro hflag
        rcases h.shaped n (List.mem_of_getElem? hn) with ⟨hfrom, -⟩ | ⟨head, tails, hheaded⟩
        · exact hnew (hflag ▸ List.mem_map_of_mem hfrom)
        · rw [hheaded.negative] at hneg
          cases hneg
      · refine (Waits.mono (h.waiting j n hn hneg)).imp (fun hget => ?_) id
        rwa [KeyMap.get_insert, if_neg hkey]
    · refine .inl ?_
      rw [KeyMap.get_insert, if_pos rfl]

/-- An option that no negation waits for; `positives` may index it. -/
theorem stand_done (h : st.Done done) (hrow : row.Single) (hplain : row.negativeOnly = false)
    {positives : KeyMap Text Nat}
    (hindex : ∀ key j, positives.get key = some j → st.positives.get key = some j ∨
      (key = row.key ∧ j = st.merged.length ∧ row.isBoolean = true))
    (hknown : ∀ p ∈ done ++ [row], p.isBoolean = true → p.negativeOnly = false →
      (positives.get p.key).isSome)
    (hapart : ∀ key, (positives.get key).isSome → st.negatives.get key = none) :
    Done (done ++ [row]) ({ st with positives }.push row) := by
  have hself : row ∈ done ++ [row] := by simp
  have hshaped := push_shaped h (.inr ⟨row, [], headed_self hrow hself hplain⟩)
  have hflags := push_flags h hrow
  refine
    { shaped := hshaped
      flags := hflags
      negatives := ?_, positives := ?_, known := hknown, apart := hapart, waiting := ?_ }
  · intro key j hj
    obtain ⟨n, hn, hfrom, hrest⟩ := h.negatives key j hj
    exact ⟨n, getElem?_push_of_some hn, List.mem_append_left _ hfrom, hrest⟩
  · intro key j hj
    rcases hindex key j hj with hj | ⟨rfl, rfl, hboolean⟩
    · obtain ⟨r, hr, hrest⟩ := h.positives key j hj
      exact ⟨r, getElem?_push_of_some hr, hrest⟩
    · exact ⟨row, List.getElem?_concat_length, hplain, hboolean, rfl⟩
  · intro j n hn hneg
    rcases getElem?_push hn with hn | ⟨-, rfl⟩
    · exact Waits.mono (h.waiting j n hn hneg)
    · rw [hplain] at hneg
      cases hneg

theorem valued_done (h : st.Done done) (hrow : row.Single) (hplain : row.negativeOnly = false)
    (hvalued : row.isBoolean = false) : (st.push row).Done (done ++ [row]) := by
  refine stand_done h hrow hplain (fun _ _ hj => .inl hj) ?_ h.apart
  intro p hp hbooleanp hplainp
  rcases List.mem_append.mp hp with hp | hp
  · exact h.known p hp hbooleanp hplainp
  · rw [List.mem_singleton.mp hp, hvalued] at hbooleanp
    cases hbooleanp

theorem switch_done (h : st.Done done) (hrow : row.Single) (hplain : row.negativeOnly = false)
    (hboolean : row.isBoolean = true) (hnone : st.negatives.get row.key = none) :
    Done (done ++ [row]) ({ st with
      positives := st.positives.insert row.key st.merged.length }.push row) := by
  refine stand_done h hrow hplain ?_ ?_ ?_
  · intro key j hj
    rw [KeyMap.get_insert] at hj
    split at hj
    · rename_i hkey
      exact .inr ⟨hkey, (Option.some.inj hj).symm, hboolean⟩
    · exact .inl hj
  · intro p hp hbooleanp hplainp
    rw [KeyMap.get_insert]
    split
    · rfl
    · rename_i hne
      rcases List.mem_append.mp hp with hp | hp
      · exact h.known p hp hbooleanp hplainp
      · rw [List.mem_singleton.mp hp] at hne
        exact absurd rfl hne
  · intro key hsome
    rw [KeyMap.get_insert] at hsome
    split at hsome
    · rename_i hkey
      rw [hkey, hnone]
    · exact h.apart key hsome

theorem take_done (h : st.Done done) (hdone : ∀ r ∈ done, r.Single) (hrow : row.Single)
    (hnew : row.flag ∉ done.map (·.flag)) (hplain : row.negativeOnly = false)
    (hboolean : row.isBoolean = true) {i : Nat} (hi : st.negatives.get row.key = some i) :
    Done (done ++ [row]) ({ st with
      negatives := st.negatives.erase row.key
      positives := st.positives.insert row.key i }.absorb i row true) := by
  obtain ⟨n, hn, hfrom, hneg, hkey⟩ := h.negatives _ _ hi
  have hsingle := hdone n hfrom
  have hmem := List.mem_of_getElem? hn
  have hheaded : Headed (done ++ [row]) (n.absorb row true) row [n] :=
    absorb_head hfrom hsingle hneg hrow hboolean hplain hkey (h.flag_not_mem hnew hmem)
  have hshaped := absorb_shaped h hn (.inr ⟨row, [n], hheaded⟩)
  have hflags : ((st.merged.modify i (·.absorb row true)).flatMap (·.flags)).Perm
      ((done ++ [row]).map (·.flag)) := absorb_flags h hrow hnew hn
  refine
    { shaped := hshaped
      flags := hflags
      negatives := ?_, positives := ?_, known := ?_, apart := ?_, waiting := ?_ }
  · intro key j hj
    dsimp only [absorb] at hj ⊢
    rw [KeyMap.get_erase] at hj
    split at hj
    · cases hj
    · rename_i hne
      obtain ⟨n', hn', hfrom', hneg', hkey'⟩ := h.negatives key j hj
      have hij : j ≠ i := by
        rintro rfl
        obtain rfl : n' = n := Option.some.inj (hn'.symm.trans hn)
        exact hne (hkey'.symm.trans hkey)
      exact ⟨n', (getElem?_absorb_of_ne hij).trans hn', List.mem_append_left _ hfrom', hneg', hkey'⟩
  · intro key j hj
    dsimp only [absorb] at hj ⊢
    rw [KeyMap.get_insert] at hj
    split at hj
    · rename_i hkeyeq
      obtain rfl := Option.some.inj hj
      refine ⟨n.absorb row true, ?_, rfl, (hsingle.negated hneg).2, hkey.trans hkeyeq.symm⟩
      simp [hn]
    · obtain ⟨r, hr, hplainr, hrest⟩ := h.positives key j hj
      have hij : j ≠ i := by
        rintro rfl
        obtain rfl : r = n := Option.some.inj (hr.symm.trans hn)
        rw [hplainr] at hneg
        cases hneg
      exact ⟨r, (getElem?_absorb_of_ne hij).trans hr, hplainr, hrest⟩
  · intro p hp hbooleanp hplainp
    dsimp only [absorb]
    rw [KeyMap.get_insert]
    split
    · rfl
    · rename_i hne
      rcases List.mem_append.mp hp with hp | hp
      · exact h.known p hp hbooleanp hplainp
      · rw [List.mem_singleton.mp hp] at hne
        exact absurd rfl hne
  · intro key hsome
    dsimp only [absorb] at hsome ⊢
    rw [KeyMap.get_erase]
    split
    · rfl
    · rename_i hne
      rw [KeyMap.get_insert, if_neg hne] at hsome
      exact h.apart key hsome
  · intro j n' hn' hneg'
    rcases getElem?_absorb hn' with ⟨hij, hn'⟩ | ⟨-, x, -, rfl⟩
    · refine (Waits.mono (h.waiting j n' hn' hneg')).imp (fun hget => ?_) id
      have hne : n'.key ≠ row.key := by
        intro heq
        rw [heq, hi] at hget
        exact hij (Option.some.inj hget).symm
      dsimp only [absorb]
      rwa [KeyMap.get_erase, if_neg hne]
    · cases hneg'

theorem add_done (h : st.Done done) (hdone : ∀ r ∈ done, r.Single) (hrow : row.Single)
    (hnew : row.flag ∉ done.map (·.flag)) : (st.add row).Done (done ++ [row]) := by
  rcases st.add_cases hrow with ⟨hneg, i, hi, heq⟩ | ⟨hneg, hnone, heq⟩ | ⟨hplain, hvalued, heq⟩ |
    ⟨hplain, hboolean, i, hi, heq⟩ | ⟨hplain, hboolean, hnone, heq⟩
  · exact heq ▸ join_done h hdone hrow hnew hneg hi
  · exact heq ▸ wait_done h hrow hnew hneg hnone
  · exact heq ▸ valued_done h hrow hplain hvalued
  · exact heq ▸ take_done h hdone hrow hnew hplain hboolean hi
  · exact heq ▸ switch_done h hrow hplain hboolean hnone

theorem done_init : ({} : Merging).Done [] :=
  ⟨by simp, by simp, by simp, by simp, by simp, by simp, by simp⟩

theorem addAll_done {rows : List PendingOption} (h : st.Done done)
    (hall : ∀ r ∈ done ++ rows, r.Single) (hnodup : ((done ++ rows).map (·.flag)).Nodup) :
    (rows.foldl add st).Done (done ++ rows) := by
  induction rows generalizing done st with
  | nil => simpa using h
  | cons row rows ih =>
    have hdone : ∀ r ∈ done, r.Single := fun r hr => hall r (List.mem_append_left _ hr)
    have hrow : row.Single := hall row (by simp)
    have hnew : row.flag ∉ done.map (·.flag) := by
      rw [List.map_append, List.nodup_append'] at hnodup
      exact fun hmem => hnodup.2.2 hmem (by simp)
    have hnext := add_done h hdone hrow hnew
    rw [List.append_cons] at hall hnodup ⊢
    exact ih hnext hall hnodup

end Merging

theorem mergePairs_done {rows : List PendingOption} (hall : ∀ r ∈ rows, r.Single)
    (hnodup : (rows.map (·.flag)).Nodup) : (rows.foldl Merging.add {}).Done rows := by
  simpa using Merging.addAll_done Merging.done_init (by simpa using hall) (by simpa using hnodup)

end AioLM.Options
