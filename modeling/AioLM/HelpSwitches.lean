import AioLM.HelpPairing

/-!
Help texts with one long flag a line: exactly when their definitions do not depend on
the order of the lines and every flag is in one of them.
-/

set_option autoImplicit false

namespace AioLM.Options

structure Lined (rows : List PendingOption) : Prop where
  single : ∀ r ∈ rows, r.Single
  flags : (rows.map (·.flag)).Nodup

/-- The names of the merged rows that are no lone negations. -/
def takenKeys (rows : List PendingOption) : List Text :=
  ((mergePairs rows).filter fun row => !row.negativeOnly).map (·.key)

theorem detachLone_mergePairs (rows : List PendingOption) :
    detachLone (mergePairs rows) = (mergePairs rows).map (·.detach (takenKeys rows)) := rfl

section Merged

variable {rows : List PendingOption} {r row m m' n head : PendingOption}
  {tails : List PendingOption}

theorem Lined.done (h : Lined rows) : (rows.foldl Merging.add {}).Done rows :=
  mergePairs_done h.single h.flags

theorem Lined.eq_of_flag (h : Lined rows) (hr : r ∈ rows) (hn : n ∈ rows)
    (heq : r.flag = n.flag) : r = n := Lists.eq_of_key_eq h.flags hr hn heq

theorem Lined.flags_nodup (h : Lined rows) : ((mergePairs rows).flatMap (·.flags)).Nodup :=
  h.done.flags.nodup_iff.mpr h.flags

theorem Lined.exists_row (h : Lined rows) (hr : r ∈ rows) :
    ∃ m ∈ mergePairs rows, r.flag ∈ m.flags :=
  List.mem_flatMap.mp (h.done.flags.mem_iff.mpr (List.mem_map_of_mem hr))

theorem Lined.row_unique (h : Lined rows) (hm : m ∈ mergePairs rows) (hm' : m' ∈ mergePairs rows)
    {flag : Text} (hflag : flag ∈ m.flags) (hflag' : flag ∈ m'.flags) : m = m' := by
  by_contra hne
  obtain ⟨-, hdisjoint⟩ := List.nodup_flatMap.mp h.flags_nodup
  have hsymm : Std.Symm (Function.onFun List.Disjoint PendingOption.flags) :=
    ⟨fun _ _ hd _ ha hb => hd hb ha⟩
  exact hdisjoint.forall hm hm' hne hflag hflag'

theorem Headed.mem_flags (h : Headed rows m head tails) {flag : Text} :
    flag ∈ m.flags ↔ flag = head.flag ∨ ∃ n ∈ tails, flag = n.flag := by
  have hflags : m.flags = m.views.map (·.1) := by
    simp [PendingOption.flags, PendingOption.views, Spelling.view]
  rw [hflags, List.mem_map]
  constructor
  · rintro ⟨p, hp, rfl⟩
    rcases (h.views p).mp hp with rfl | ⟨n, hn, rfl⟩
    · exact .inl rfl
    · exact .inr ⟨n, hn, rfl⟩
  · rintro (rfl | ⟨n, hn, rfl⟩)
    · exact ⟨_, (h.views _).mpr (.inl rfl), rfl⟩
    · exact ⟨_, (h.views _).mpr (.inr ⟨n, hn, rfl⟩), rfl⟩

theorem Lined.headed (h : Lined rows) (hr : r ∈ rows) (hplain : r.negativeOnly = false)
    (hm : m ∈ mergePairs rows) (hflag : r.flag ∈ m.flags) : ∃ tails, Headed rows m r tails := by
  rcases h.done.shaped m hm with ⟨hmem, hnegative⟩ | ⟨head, tails, hheaded⟩
  · rw [(h.single m hmem).flags, List.mem_singleton] at hflag
    rw [h.eq_of_flag hr hmem hflag, hnegative] at hplain
    cases hplain
  · rcases hheaded.mem_flags.mp hflag with heq | ⟨n, hn, heq⟩
    · rw [h.eq_of_flag hr hheaded.source heq]
      exact ⟨tails, hheaded⟩
    · obtain ⟨hmem, hnegative, -⟩ := hheaded.others n hn
      rw [h.eq_of_flag hr hmem heq, hnegative] at hplain
      cases hplain

theorem Lined.negation (h : Lined rows) (hn : n ∈ rows) (hnegative : n.negativeOnly = true)
    (hm : m ∈ mergePairs rows) (hflag : n.flag ∈ m.flags) :
    m = n ∨ ∃ head tails, Headed rows m head tails ∧ n ∈ tails := by
  rcases h.done.shaped m hm with ⟨hmem, -⟩ | ⟨head, tails, hheaded⟩
  · rw [(h.single m hmem).flags, List.mem_singleton] at hflag
    exact .inl (h.eq_of_flag hn hmem hflag).symm
  · rcases hheaded.mem_flags.mp hflag with heq | ⟨n', hn', heq⟩
    · have hplain := hheaded.plain
      rw [← h.eq_of_flag hn hheaded.source heq, hnegative] at hplain
      cases hplain
    · rw [h.eq_of_flag hn (hheaded.others n' hn').1 heq]
      exact .inr ⟨head, tails, hheaded, hn'⟩

theorem Lined.mem_takenKeys (h : Lined rows) {key : Text} :
    key ∈ takenKeys rows ↔ ∃ c ∈ rows, c.negativeOnly = false ∧ c.key = key := by
  simp only [takenKeys, List.mem_map, List.mem_filter, Bool.not_eq_true']
  constructor
  · rintro ⟨m, ⟨hm, hplain⟩, rfl⟩
    rcases h.done.shaped m hm with ⟨-, hnegative⟩ | ⟨head, tails, hheaded⟩
    · rw [hplain] at hnegative
      cases hnegative
    · exact ⟨head, hheaded.source, hheaded.plain, hheaded.key.symm⟩
  · rintro ⟨c, hc, hplain, rfl⟩
    obtain ⟨m, hm, hflag⟩ := h.exists_row hc
    obtain ⟨tails, hheaded⟩ := h.headed hc hplain hm hflag
    exact ⟨m, ⟨hm, hheaded.negative⟩, hheaded.key⟩

/-- Every option that goes by the name takes a value. -/
def OnlyValued (rows : List PendingOption) (key : Text) : Prop :=
  ∀ c ∈ rows, c.negativeOnly = false → c.key = key → c.isBoolean = false

theorem Lined.alone (h : Lined rows) (hn : n ∈ rows) (hnegative : n.negativeOnly = true)
    (hvalued : OnlyValued rows n.key) (hm : m ∈ mergePairs rows) (hflag : n.flag ∈ m.flags) :
    m = n := by
  refine (h.negation hn hnegative hm hflag).resolve_right ?_
  rintro ⟨head, tails, hheaded, htail⟩
  have hboolean := hheaded.boolean (List.ne_nil_of_mem htail)
  have hkey := (hheaded.others n htail).2.2
  rw [hvalued head hheaded.source hheaded.plain hkey.symm] at hboolean
  cases hboolean

theorem detach_plain (h : m.negativeOnly = false) (taken : List Text) : m.detach taken = m := by
  simp [PendingOption.detach, h]

theorem detach_negation (hn : n.Single) (hnegative : n.negativeOnly = true) (taken : List Text) :
    n.detach taken = if n.key ∈ taken then
      { n with
        key := ownKey n.flag
        negativeOnly := false
        spellings := n.spellings.map ({ · with polarity := none }) }
    else n := by
  obtain ⟨style, hspellings⟩ := hn.spellings
  have hnegated := (hn.negated hnegative).1
  have hfind : n.spellings.find? (isNegated ·.flag) =
      some ⟨n.flag, style, if n.negativeOnly then some false else none⟩ := by
    rw [hspellings, List.find?_cons_of_pos (by simpa using hnegated)]
  simp only [PendingOption.detach, hnegative, Bool.true_and, List.contains_iff_mem, hfind]

theorem detach_flags (taken : List Text) (m : PendingOption) : (m.detach taken).flags = m.flags := by
  unfold PendingOption.detach
  split
  · split
    · rfl
    · simp [PendingOption.flags]
  · rfl

theorem detach_same (taken : List Text) (m : PendingOption) :
    (m.detach taken).positional = m.positional ∧ (m.detach taken).arity = m.arity := by
  unfold PendingOption.detach
  split
  · split <;> exact ⟨rfl, rfl⟩
  · exact ⟨rfl, rfl⟩

/-- The own key of a negation is `no_` before its name, where it has one. -/
theorem ownKey_cases {flag : Text} (h : isNegated flag) :
    ownKey flag = "no_".toList ++ keyForFlag flag ∨ ownKey flag = keyForFlag flag := by
  obtain ⟨rest, rfl⟩ := List.isPrefixOf_iff_prefix.mp h
  cases rest with
  | nil => exact .inr (by decide)
  | cons c rest =>
    left
    have hbody : OptionDefinition.body ("--no-".toList ++ c :: rest) =
        "no-".toList ++ c :: rest := rfl
    have hlong : 3 < Text.utf8Len ("no-".toList ++ c :: rest) := by
      have hsize := Char.utf8Size_pos c
      have hthree : Text.utf8Len "no-".toList = 3 := rfl
      rw [Text.utf8Len_append, hthree, Text.utf8Len_cons]
      omega
    have hown : ownKey ("--no-".toList ++ c :: rest) =
        "no_".toList ++ underscore '-' (c :: rest) := rfl
    rw [hown, keyForFlag, hbody, h, Bool.true_and, if_pos (decide_eq_true hlong)]
    rfl

theorem ownKey_ne_nil {flag : Text} (h : isNegated flag) : ownKey flag ≠ [] := by
  obtain ⟨rest, rfl⟩ := List.isPrefixOf_iff_prefix.mp h
  have hown : ownKey ("--no-".toList ++ rest) = "no_".toList ++ underscore '-' rest := rfl
  rw [hown]
  simp

def switchesOf (rows : List PendingOption) : List Switch := rows.map (·.switch)

def PendingOption.summary (row : PendingOption) : Summary :=
  (row.finalKey, row.views.toFinset, row.arity)

/-- The rows that stand for the definitions, before repetitions are dropped. -/
def finalRows (rows : List PendingOption) : List PendingOption := detachLone (mergePairs rows)

theorem Lined.single_negative (h : Lined rows) (hr : r ∈ rows) :
    r.negativeOnly = r.switch.negated := (h.single r hr).negative

theorem Lined.eq_of_switch (h : Lined rows) (hr : r ∈ rows) (hn : n ∈ rows)
    (heq : r.switch = n.switch) : r = n :=
  h.eq_of_flag hr hn (congrArg Switch.flag heq)

theorem Lined.eq_of_name (h : Lined rows) (hsep : Separable (switchesOf rows)) (hr : r ∈ rows)
    (hn : n ∈ rows) (hkey : r.key = n.key) (hside : r.negativeOnly = n.negativeOnly) : r = n := by
  refine h.eq_of_switch hr hn
    (hsep.names _ (List.mem_map_of_mem hr) _ (List.mem_map_of_mem hn) hkey ?_)
  rw [← h.single_negative hr, ← h.single_negative hn, hside]

theorem Lined.onlyValued (h : Lined rows) (hsep : Separable (switchesOf rows)) (hn : n ∈ rows)
    (hnegative : n.negativeOnly = true) (hm : n ∈ mergePairs rows) : OnlyValued rows n.key := by
  intro c hc hplain hkey
  by_contra htrue
  obtain ⟨i, hi⟩ := List.mem_iff_getElem?.mp hm
  have hknown := h.done.known c hc (Bool.of_not_eq_false htrue) hplain
  rw [hkey] at hknown
  rcases h.done.waiting i n hi hnegative with hget | ⟨other, hother, hneg, hname, hflag⟩
  · rw [h.done.apart n.key hknown] at hget
    cases hget
  · exact hflag (congrArg PendingOption.flag
      (h.eq_of_name hsep hother hn hname (hneg.trans hnegative.symm)))

theorem Lined.own_key_free (h : Lined rows) (hsep : Separable (switchesOf rows)) (hn : n ∈ rows)
    (hnegative : n.negativeOnly = true) (hvalued : OnlyValued rows n.key)
    (htaken : n.key ∈ takenKeys rows) :
    Text.utf8Len (ownKey n.flag) ≤ 128 ∧ ∀ s ∈ rows, s.key ≠ ownKey n.flag := by
  obtain ⟨v, hv, hplain, hkey⟩ := h.mem_takenKeys.mp htaken
  have hnegated : n.switch.negated = true := h.single_negative hn ▸ hnegative
  obtain ⟨hlength, hfree⟩ := hsep.own _ (List.mem_map_of_mem hn) hnegated _ (List.mem_map_of_mem hv)
    (hvalued v hv hplain hkey) hkey
  exact ⟨hlength, fun s hs => hfree _ (List.mem_map_of_mem hs)⟩

theorem Lined.final_cases (h : Lined rows) (hsep : Separable (switchesOf rows))
    (hm : m ∈ mergePairs rows) : ∃ r ∈ rows, r.flag ∈ m.flags ∧
      ((r.negativeOnly = false ∧ (m.detach (takenKeys rows)).key = r.key) ∨
        (r.negativeOnly = true ∧ r.key ∉ takenKeys rows ∧
          (m.detach (takenKeys rows)).key = r.key) ∨
        (r.negativeOnly = true ∧ r.key ∈ takenKeys rows ∧ OnlyValued rows r.key ∧
          (m.detach (takenKeys rows)).key = ownKey r.flag)) := by
  rcases h.done.shaped m hm with ⟨hmem, hnegative⟩ | ⟨head, tails, hheaded⟩
  · have hsingle := h.single m hmem
    refine ⟨m, hmem, by simp [hsingle.flags], .inr ?_⟩
    by_cases htaken : m.key ∈ takenKeys rows
    · refine .inr ⟨hnegative, htaken, h.onlyValued hsep hmem hnegative hm, ?_⟩
      rw [detach_negation hsingle hnegative, if_pos htaken]
    · refine .inl ⟨hnegative, htaken, ?_⟩
      rw [detach_negation hsingle hnegative, if_neg htaken]
  · refine ⟨head, hheaded.source, hheaded.mem_flags.mpr (.inl rfl), .inl ⟨hheaded.plain, ?_⟩⟩
    rw [detach_plain hheaded.negative, hheaded.key]

theorem Lined.final_key_inj (h : Lined rows) (hsep : Separable (switchesOf rows))
    (hm : m ∈ mergePairs rows) (hm' : m' ∈ mergePairs rows)
    (hkey : (m.detach (takenKeys rows)).key = (m'.detach (takenKeys rows)).key) : m = m' := by
  obtain ⟨r, hr, hflag, hcases⟩ := h.final_cases hsep hm
  obtain ⟨n, hn, hflag', hcases'⟩ := h.final_cases hsep hm'
  have htaken (c : PendingOption) (hc : c ∈ rows) (hplain : c.negativeOnly = false) :
      c.key ∈ takenKeys rows := h.mem_takenKeys.mpr ⟨c, hc, hplain, rfl⟩
  suffices hsame : r = n from h.row_unique hm hm' hflag (hsame ▸ hflag')
  rcases hcases with ⟨hside, hfinal⟩ | ⟨hside, hfree, hfinal⟩ | ⟨hside, hbeside, hvalued, hfinal⟩ <;>
  rcases hcases' with ⟨hside', hfinal'⟩ | ⟨hside', hfree', hfinal'⟩ |
    ⟨hside', hbeside', hvalued', hfinal'⟩
  · exact h.eq_of_name hsep hr hn (hfinal.symm.trans (hkey.trans hfinal')) (hside.trans hside'.symm)
  · have hname : r.key = n.key := hfinal.symm.trans (hkey.trans hfinal')
    exact absurd (hname ▸ htaken r hr hside) hfree'
  · have hname : r.key = ownKey n.flag := hfinal.symm.trans (hkey.trans hfinal')
    exact absurd hname ((h.own_key_free hsep hn hside' hvalued' hbeside').2 r hr)
  · have hname : r.key = n.key := hfinal.symm.trans (hkey.trans hfinal')
    exact absurd (hname ▸ htaken n hn hside') hfree
  · exact h.eq_of_name hsep hr hn (hfinal.symm.trans (hkey.trans hfinal')) (hside.trans hside'.symm)
  · have hname : r.key = ownKey n.flag := hfinal.symm.trans (hkey.trans hfinal')
    exact absurd hname ((h.own_key_free hsep hn hside' hvalued' hbeside').2 r hr)
  · have hname : n.key = ownKey r.flag := hfinal'.symm.trans (hkey.symm.trans hfinal)
    exact absurd hname ((h.own_key_free hsep hr hside hvalued hbeside).2 n hn)
  · have hname : n.key = ownKey r.flag := hfinal'.symm.trans (hkey.symm.trans hfinal)
    exact absurd hname ((h.own_key_free hsep hr hside hvalued hbeside).2 n hn)
  · have hown : ownKey r.flag = ownKey n.flag := hfinal.symm.trans (hkey.trans hfinal')
    have hkeyr := (h.single r hr).key
    have hkeyn := (h.single n hn).key
    rcases ownKey_cases ((h.single r hr).negated hside).1 with hownr | hownr
    · rcases ownKey_cases ((h.single n hn).negated hside').1 with hownn | hownn
      · rw [hownr, hownn, ← hkeyr, ← hkeyn] at hown
        exact h.eq_of_name hsep hr hn (List.append_cancel_left hown) (hside.trans hside'.symm)
      · exact absurd (hkeyn.trans hownn.symm)
          ((h.own_key_free hsep hn hside' hvalued' hbeside').2 n hn)
    · exact absurd (hkeyr.trans hownr.symm)
        ((h.own_key_free hsep hr hside hvalued hbeside).2 r hr)

theorem Lined.flags_ne_nil (h : Lined rows) (hm : m ∈ mergePairs rows) : m.flags ≠ [] := by
  rcases h.done.shaped m hm with ⟨hmem, -⟩ | ⟨head, tails, hheaded⟩
  · rw [(h.single m hmem).flags]
    simp
  · exact List.ne_nil_of_mem (hheaded.mem_flags.mpr (.inl rfl))

theorem Lined.merged_nodup (h : Lined rows) : (mergePairs rows).Nodup := by
  obtain ⟨-, hdisjoint⟩ := List.nodup_flatMap.mp h.flags_nodup
  refine List.Pairwise.imp_of_mem (fun ha hb hapart heq => ?_) hdisjoint
  obtain ⟨flag, hflag⟩ := List.exists_mem_of_ne_nil _ (h.flags_ne_nil ha)
  exact hapart hflag (heq ▸ hflag)

theorem Lined.place (h : Lined rows) (hm : m ∈ mergePairs rows) : m.positional = none := by
  rcases h.done.shaped m hm with ⟨hmem, -⟩ | ⟨head, tails, hheaded⟩
  · exact (h.single m hmem).place
  · exact hheaded.place

theorem finalRows_flags (rows : List PendingOption) :
    (finalRows rows).flatMap (·.flags) = (mergePairs rows).flatMap (·.flags) := by
  simp only [finalRows, detachLone_mergePairs, List.flatMap_map, detach_flags]

theorem Lined.finalRows_fresh (h : Lined rows) (hsep : Separable (switchesOf rows)) :
    SeenRows.Fresh {} (finalRows rows) := by
  have hplace : (finalRows rows).filterMap (·.positional) = [] := by
    rw [List.filterMap_eq_nil_iff]
    intro row hrow
    obtain ⟨m, hm, rfl⟩ := List.mem_map.mp hrow
    rw [(detach_same _ m).1, h.place hm]
  refine
    { keys := ?_, newKey := by simp, bounded := ?_, flags := finalRows_flags rows ▸ h.flags_nodup
      newFlag := by simp, positions := by simp [hplace], newPosition := by simp }
  · rw [finalRows, detachLone_mergePairs, List.map_map]
    exact h.merged_nodup.map_on fun m hm m' hm' hkey => h.final_key_inj hsep hm hm' hkey
  · intro row hrow
    obtain ⟨m, hm, rfl⟩ := List.mem_map.mp hrow
    obtain ⟨r, hr, -, hcases⟩ := h.final_cases hsep hm
    change (m.detach (takenKeys rows)).key ≠ [] ∧
      Text.utf8Len (m.detach (takenKeys rows)).key ≤ 128
    rcases hcases with ⟨-, hfinal⟩ | ⟨-, -, hfinal⟩ | ⟨hside, hbeside, hvalued, hfinal⟩
    · exact hfinal ▸ (h.single r hr).bounded
    · exact hfinal ▸ (h.single r hr).bounded
    · rw [hfinal]
      exact ⟨ownKey_ne_nil ((h.single r hr).negated hside).1,
        (h.own_key_free hsep hr hside hvalued hbeside).1⟩

theorem keepRows_of_fresh {kept : List PendingOption} {seen : SeenRows} (h : seen.Fresh kept)
    (hplace : ∀ row ∈ kept, row.positional = none ∧ row.flags ≠ []) :
    keepRows seen kept = kept := by
  induction kept generalizing seen with
  | nil => rfl
  | cons row kept ih =>
    obtain ⟨hrow, hrest⟩ := List.forall_mem_cons.mp hplace
    obtain ⟨hkey, hkeys⟩ := List.nodup_cons.mp h.keys
    obtain ⟨hnew, hnews⟩ := List.forall_mem_cons.mp h.newKey
    obtain ⟨hbound, hbounds⟩ := List.forall_mem_cons.mp h.bounded
    obtain ⟨hnodup, hnodups, hapart⟩ := List.nodup_append'.mp (List.flatMap_cons ▸ h.flags)
    obtain ⟨hfree, hfrees⟩ := List.forall_mem_append.mp (List.flatMap_cons ▸ h.newFlag)
    have haccept : seen.accept row =
        (true, { seen with
          flags := row.flags.reverse ++ seen.flags
          keys := row.key :: seen.keys }) := by
      have hspelled : row.spellings ≠ [] := by
        intro hnil
        exact hrow.2 (by rw [PendingOption.flags, hnil, List.map_nil])
      have hlength : ¬ 128 < Text.utf8Len row.key := by omega
      have hflags : row.spellings.map (·.flag) = row.flags := rfl
      have hfresh : insertFlags seen.flags row.flags = (true, row.flags.reverse ++ seen.flags) := by
        rw [insertFlags_eq, decide_eq_true ⟨hnodup, hfree⟩]
      simp [SeenRows.accept, hflags, hfresh, hnew, hbound.1, hlength, hrow.1,
        List.isEmpty_eq_false_iff.mpr hspelled]
    have hnext : keepRows { seen with
        flags := row.flags.reverse ++ seen.flags
        keys := row.key :: seen.keys } kept = kept := by
      refine ih { h with
        keys := hkeys, newKey := ?_, bounded := hbounds, flags := hnodups, newFlag := ?_
        positions := ?_, newPosition := ?_ } hrest
      · intro other hother hmem
        rcases List.mem_cons.mp hmem with heq | hmem
        · exact hkey (List.mem_map.mpr ⟨other, hother, heq⟩)
        · exact hnews other hother hmem
      · intro flag hflag hmem
        rcases List.mem_append.mp hmem with hmem | hmem
        · exact hapart (List.mem_reverse.mp hmem) hflag
        · exact hfrees flag hflag hmem
      · have hpositions := h.positions
        rwa [List.filterMap_cons_none hrow.1] at hpositions
      · have hpositions := h.newPosition
        rwa [List.filterMap_cons_none hrow.1] at hpositions
    rw [keepRows, haccept]
    exact congrArg _ hnext

theorem Lined.keepRows_eq (h : Lined rows) (hsep : Separable (switchesOf rows)) :
    keepRows {} (finalRows rows) = finalRows rows := by
  refine keepRows_of_fresh (h.finalRows_fresh hsep) ?_
  intro row hrow
  obtain ⟨m, hm, rfl⟩ := List.mem_map.mp hrow
  change (m.detach (takenKeys rows)).positional = none ∧ (m.detach (takenKeys rows)).flags ≠ []
  rw [(detach_same _ m).1, detach_flags]
  exact ⟨h.place hm, h.flags_ne_nil hm⟩

theorem Lined.partner_eq (h : Lined rows) (hsep : Separable (switchesOf rows)) (hr : r ∈ rows)
    (hn : n ∈ rows) (hkey : n.key = r.key) (hside : n.negativeOnly ≠ r.negativeOnly) :
    partner (switchesOf rows) r.switch = some n.switch := by
  rw [h.single_negative hr, h.single_negative hn] at hside
  exact (partner_eq_some_iff hsep).mpr ⟨List.mem_map_of_mem hn, hkey, hside⟩

theorem Lined.partner_none (h : Lined rows) (hr : r ∈ rows)
    (hside : ∀ n ∈ rows, n.key = r.key → n.negativeOnly = r.negativeOnly) :
    partner (switchesOf rows) r.switch = none := by
  rw [partner_eq_none_iff]
  intro t ht hkey
  obtain ⟨n, hn, rfl⟩ := List.mem_map.mp ht
  rw [← h.single_negative hr, ← h.single_negative hn]
  exact hside n hn hkey

theorem Lined.summary_alone (h : Lined rows) (hsep : Separable (switchesOf rows)) (hn : n ∈ rows)
    (hnegative : n.negativeOnly = true) (hm : n ∈ mergePairs rows) :
    (n.detach (takenKeys rows)).summary = expected (switchesOf rows) n.switch := by
  have hsingle := h.single n hn
  have hnegated : n.switch.negated = true := hsingle.negative ▸ hnegative
  obtain ⟨style, hspellings⟩ := hsingle.spellings
  by_cases htaken : n.key ∈ takenKeys rows
  · obtain ⟨v, hv, hplain, hkey⟩ := h.mem_takenKeys.mp htaken
    have hpartner : partner (switchesOf rows) n.switch = some v.switch :=
      h.partner_eq hsep hn hv hkey (by rw [hplain, hnegative]; simp)
    have hboolean : v.switch.boolean = false := h.onlyValued hsep hn hnegative hm v hv hplain hkey
    simp only [expected, hpartner, hboolean, hnegated, Bool.false_eq_true, and_false, if_false,
      if_true]
    rw [detach_negation hsingle hnegative, if_pos htaken]
    simp [PendingOption.summary, PendingOption.finalKey, PendingOption.views, hspellings,
      Spelling.view, PendingOption.switch, PendingOption.arity]
  · have hpartner : partner (switchesOf rows) n.switch = none := by
      refine h.partner_none hn fun c hc hkey => ?_
      rw [hnegative]
      refine Bool.of_not_eq_false fun hplain => htaken ?_
      exact h.mem_takenKeys.mpr ⟨c, hc, hplain, hkey⟩
    simp only [expected, hpartner, hnegated, if_true]
    rw [detach_negation hsingle hnegative, if_neg htaken]
    simp [PendingOption.summary, PendingOption.finalKey, PendingOption.views, hspellings,
      Spelling.view, PendingOption.switch, hnegative]

theorem Lined.summary_plain (h : Lined rows) (hsep : Separable (switchesOf rows))
    (hm : m ∈ mergePairs rows) (hheaded : Headed rows m m []) :
    m.summary = expected (switchesOf rows) m.switch := by
  have hmem := hheaded.source
  have hplain := hheaded.plain
  have hsingle := h.single m hmem
  have hnegated : m.switch.negated = false := hsingle.negative ▸ hplain
  obtain ⟨style, hspellings⟩ := hsingle.spellings
  have hsummary : m.summary = (underscore '.' m.key, {(m.flag, none)}, m.arity) := by
    simp [PendingOption.summary, PendingOption.finalKey, PendingOption.views, hspellings,
      Spelling.view, hplain]
  rw [hsummary]
  cases hpartner : partner (switchesOf rows) m.switch with
  | none =>
    simp only [expected, hpartner, hnegated, Bool.false_eq_true, if_false]
    rfl
  | some t =>
    obtain ⟨ht, hkey, hside⟩ := (partner_eq_some_iff hsep).mp hpartner
    obtain ⟨n, hn, rfl⟩ := List.mem_map.mp ht
    have hnegative : n.negativeOnly = true := by
      rw [h.single_negative hn]
      exact Bool.of_not_eq_false fun hfalse => hside (hfalse.trans hnegated.symm)
    have hboolean : m.isBoolean = false := by
      obtain ⟨m', hm', hflag⟩ := h.exists_row hn
      rcases h.negation hn hnegative hm' hflag with rfl | ⟨head, tails, hheaded', htail⟩
      · exact h.onlyValued hsep hn hnegative hm' m hmem hplain hkey.symm
      · have hname := (hheaded'.others n htail).2.2
        have hhead : head = m := h.eq_of_name hsep hheaded'.source hmem
          (hname.symm.trans hkey) (hheaded'.plain.trans hplain.symm)
        have hsame : m' = m := h.row_unique hm' hm (hheaded'.mem_flags.mpr (.inl rfl))
          (by rw [hhead, hsingle.flags]; simp)
        rw [hsame, hsingle.flags, List.mem_singleton] at hflag
        rw [h.eq_of_flag hn hmem hflag, hplain] at hnegative
        cases hnegative
    have hvalued : m.switch.boolean = false := hboolean
    simp only [expected, hpartner, hnegated, hvalued, Bool.false_eq_true, false_and, if_false]
    rfl

theorem Lined.summary_pair (h : Lined rows) (hsep : Separable (switchesOf rows))
    (hheaded : Headed rows m head tails) (hn : n ∈ tails) :
    m.summary = expected (switchesOf rows) head.switch ∧
      m.summary = expected (switchesOf rows) n.switch := by
  obtain ⟨hmem, hnegative, hkey⟩ := hheaded.others n hn
  have hboolean := hheaded.boolean (List.ne_nil_of_mem hn)
  have hplain := hheaded.plain
  have hnegated : n.switch.negated = true := h.single_negative hmem ▸ hnegative
  have hhead : head.switch.negated = false := h.single_negative hheaded.source ▸ hplain
  have hswitch : head.switch.boolean = true := hboolean
  have hbooleann : n.switch.boolean = true := ((h.single n hmem).negated hnegative).2
  have harity : m.arity = some ⟨0, some 0⟩ ∧ head.switch.arity = some ⟨0, some 0⟩ ∧
      n.switch.arity = some ⟨0, some 0⟩ := by
    have hbooleann' : n.isBoolean = true := hbooleann
    refine ⟨?_, ?_, ?_⟩
    · rw [PendingOption.arity, hheaded.kind, hboolean, if_pos rfl]
    · change head.arity = _
      rw [PendingOption.arity, hboolean, if_pos rfl]
    · change n.arity = _
      rw [PendingOption.arity, hbooleann', if_pos rfl]
  have hviews : m.views.toFinset = {(head.flag, some true), (n.flag, some false)} := by
    refine Finset.ext fun p => ?_
    rw [List.mem_toFinset, hheaded.views, if_neg (List.ne_nil_of_mem hn), Finset.mem_insert,
      Finset.mem_singleton]
    refine or_congr_right ⟨?_, fun hp => ⟨n, hn, hp⟩⟩
    rintro ⟨n', hn', rfl⟩
    obtain ⟨hmem', hnegative', hkey'⟩ := hheaded.others n' hn'
    rw [h.eq_of_name hsep hmem' hmem (hkey'.trans hkey.symm) (hnegative'.trans hnegative.symm)]
  have hsummary : m.summary = (underscore '.' head.key,
      {(head.flag, some true), (n.flag, some false)}, some ⟨0, some 0⟩) := by
    rw [PendingOption.summary, PendingOption.finalKey, hheaded.key, hviews, harity.1]
  have hpartner : partner (switchesOf rows) head.switch = some n.switch :=
    h.partner_eq hsep hheaded.source hmem hkey (by rw [hplain, hnegative]; simp)
  have hpartner' : partner (switchesOf rows) n.switch = some head.switch :=
    h.partner_eq hsep hmem hheaded.source hkey.symm (by rw [hplain, hnegative]; simp)
  rw [hsummary]
  constructor
  · simp only [expected, hpartner, hswitch, hbooleann, and_self, if_true, hhead, hnegated,
      Bool.not_false, Bool.not_true, harity.2.1]
    rfl
  · simp only [expected, hpartner', hswitch, hbooleann, and_self, if_true, hhead, hnegated,
      Bool.not_false, Bool.not_true, harity.2.2, Finset.pair_comm (n.switch.flag, some false)]
    rw [show n.switch.key = head.key from hkey]
    rfl

theorem Lined.summary_eq (h : Lined rows) (hsep : Separable (switchesOf rows))
    (hm : m ∈ mergePairs rows) (hr : r ∈ rows) (hflag : r.flag ∈ m.flags) :
    (m.detach (takenKeys rows)).summary = expected (switchesOf rows) r.switch := by
  rcases h.done.shaped m hm with ⟨hmem, hnegative⟩ | ⟨head, tails, hheaded⟩
  · rw [(h.single m hmem).flags, List.mem_singleton] at hflag
    rw [h.eq_of_flag hr hmem hflag]
    exact h.summary_alone hsep hmem hnegative hm
  · rw [detach_plain hheaded.negative]
    rcases hheaded.mem_flags.mp hflag with heq | ⟨n, hn, heq⟩
    · rw [h.eq_of_flag hr hheaded.source heq]
      cases tails with
      | nil =>
        obtain rfl := hheaded.same rfl
        exact h.summary_plain hsep hm hheaded
      | cons n tails => exact (h.summary_pair hsep hheaded List.mem_cons_self).1
    · rw [h.eq_of_flag hr (hheaded.others n hn).1 heq]
      exact (h.summary_pair hsep hheaded hn).2

def keptOf (rows : List PendingOption) : List PendingOption := keepRows {} (finalRows rows)

/-- Every flag is in some definition. -/
def Covers (rows : List PendingOption) : Prop :=
  ∀ r ∈ rows, ∃ row ∈ keptOf rows, r.flag ∈ row.flags

theorem mem_keptOf {row : PendingOption} (hrow : row ∈ keptOf rows) :
    ∃ m ∈ mergePairs rows, m.detach (takenKeys rows) = row ∧ m.flags = row.flags := by
  obtain ⟨m, hm, rfl⟩ := List.mem_map.mp ((keepRows_sublist _ _).subset hrow)
  exact ⟨m, hm, rfl, (detach_flags _ m).symm⟩

theorem keptOf_eq_of_key {row row' : PendingOption} (hrow : row ∈ keptOf rows)
    (hrow' : row' ∈ keptOf rows) (hkey : row.key = row'.key) : row = row' :=
  Lists.eq_of_key_eq (keepRows_fresh (finalRows rows) {}).keys hrow hrow' hkey

theorem Lined.kept_plain (h : Lined rows) (hr : r ∈ rows) (hplain : r.negativeOnly = false)
    {row : PendingOption} (hrow : row ∈ keptOf rows) (hflag : r.flag ∈ row.flags) :
    row.key = r.key ∧ ∀ b ∈ rows, b.negativeOnly = false → b.flag ∈ row.flags → b = r := by
  obtain ⟨m, hm, rfl, hflags⟩ := mem_keptOf hrow
  rw [← hflags] at hflag ⊢
  obtain ⟨tails, hheaded⟩ := h.headed hr hplain hm hflag
  refine ⟨by rw [detach_plain hheaded.negative, hheaded.key], ?_⟩
  intro b hb hplainb hflagb
  rcases hheaded.mem_flags.mp hflagb with heq | ⟨n, hn, heq⟩
  · exact h.eq_of_flag hb hr heq
  · obtain ⟨hmem, hnegative, -⟩ := hheaded.others n hn
    rw [h.eq_of_flag hb hmem heq, hnegative] at hplainb
    cases hplainb

theorem Lined.kept_alone (h : Lined rows) (hn : n ∈ rows) (hnegative : n.negativeOnly = true)
    (hvalued : OnlyValued rows n.key) {row : PendingOption} (hrow : row ∈ keptOf rows)
    (hflag : n.flag ∈ row.flags) : row.flags = [n.flag] ∧
      row.key = if n.key ∈ takenKeys rows then ownKey n.flag else n.key := by
  obtain ⟨m, hm, rfl, hflags⟩ := mem_keptOf hrow
  rw [← hflags] at hflag ⊢
  obtain rfl := h.alone hn hnegative hvalued hm hflag
  refine ⟨(h.single m hn).flags, ?_⟩
  rw [detach_negation (h.single m hn) hnegative]
  split <;> rfl

theorem Lined.options_distinct (h : Lined rows) (hcovers : Covers rows) (hr : r ∈ rows)
    (hplain : r.negativeOnly = false) {b : PendingOption} (hb : b ∈ rows)
    (hplainb : b.negativeOnly = false) (hkey : r.key = b.key) : r = b := by
  obtain ⟨row, hrow, hflag⟩ := hcovers r hr
  obtain ⟨row', hrow', hflag'⟩ := hcovers b hb
  obtain ⟨hfinal, -⟩ := h.kept_plain hr hplain hrow hflag
  obtain ⟨hfinal', honly⟩ := h.kept_plain hb hplainb hrow' hflag'
  have hsame := keptOf_eq_of_key hrow hrow' (hfinal.trans (hkey.trans hfinal'.symm))
  exact honly r hr hplain (hsame ▸ hflag)

theorem Lined.negations_distinct (h : Lined rows) (hcovers : Covers rows) (hn : n ∈ rows)
    (hnegative : n.negativeOnly = true) {b : PendingOption} (hb : b ∈ rows)
    (hnegativeb : b.negativeOnly = true) (hkey : n.key = b.key)
    (hvalued : OnlyValued rows n.key) : n = b := by
  obtain ⟨row, hrow, hflag⟩ := hcovers n hn
  obtain ⟨row', hrow', hflag'⟩ := hcovers b hb
  obtain ⟨hflags, hfinal⟩ := h.kept_alone hn hnegative hvalued hrow hflag
  obtain ⟨hflags', hfinal'⟩ := h.kept_alone hb hnegativeb (hkey ▸ hvalued) hrow' hflag'
  have hconclude (hsame : row.key = row'.key) : n = b := by
    rw [keptOf_eq_of_key hrow hrow' hsame, hflags', List.mem_singleton] at hflag
    exact h.eq_of_flag hn hb hflag
  by_cases htaken : n.key ∈ takenKeys rows
  · rw [if_pos htaken] at hfinal
    rw [if_pos (hkey ▸ htaken)] at hfinal'
    obtain ⟨v, hv, hplain, hname⟩ := h.mem_takenKeys.mp htaken
    obtain ⟨rowv, hrowv, hflagv⟩ := hcovers v hv
    obtain ⟨hfinalv, -⟩ := h.kept_plain hv hplain hrowv hflagv
    -- A negation without a name would keep the key that the option has.
    have hclash {a : PendingOption} (ha : a ∈ rows) (hnega : a.negativeOnly = true)
        (hkeya : a.key = n.key) {rowa : PendingOption} (hrowa : rowa ∈ keptOf rows)
        (hflagsa : rowa.flags = [a.flag]) (hfinala : rowa.key = ownKey a.flag) :
        ownKey a.flag = "no_".toList ++ n.key := by
      rw [← hkeya, (h.single a ha).key]
      refine (ownKey_cases ((h.single a ha).negated hnega).1).resolve_right fun hown => ?_
      have hsame : rowa.key = rowv.key := by
        rw [hfinala, hown, ← (h.single a ha).key, hkeya, hfinalv, hname]
      rw [← keptOf_eq_of_key hrowa hrowv hsame, hflagsa, List.mem_singleton] at hflagv
      rw [h.eq_of_flag hv ha hflagv, hnega] at hplain
      cases hplain
    refine hconclude ?_
    rw [hfinal, hfinal', hclash hn hnegative rfl hrow hflags hfinal,
      hclash hb hnegativeb hkey.symm hrow' hflags' hfinal']
  · rw [if_neg htaken] at hfinal
    rw [if_neg (hkey ▸ htaken)] at hfinal'
    exact hconclude (hfinal.trans (hkey.trans hfinal'.symm))

theorem Lined.own_free (h : Lined rows) (hcovers : Covers rows) (hn : n ∈ rows)
    (hnegative : n.negativeOnly = true) {v : PendingOption} (hv : v ∈ rows)
    (hplain : v.negativeOnly = false) (hboolean : v.isBoolean = false) (hkey : v.key = n.key) :
    Text.utf8Len (ownKey n.flag) ≤ 128 ∧ ∀ s ∈ rows, s.key ≠ ownKey n.flag := by
  have hvalued : OnlyValued rows n.key := by
    intro c hc hplainc hkeyc
    rw [h.options_distinct hcovers hc hplainc hv hplain (hkeyc.trans hkey.symm), hboolean]
  obtain ⟨row, hrow, hflag⟩ := hcovers n hn
  obtain ⟨hflags, hfinal⟩ := h.kept_alone hn hnegative hvalued hrow hflag
  rw [if_pos (h.mem_takenKeys.mpr ⟨v, hv, hplain, hkey⟩)] at hfinal
  have hoption (c : PendingOption) (hc : c ∈ rows) (hplainc : c.negativeOnly = false) :
      c.key ≠ ownKey n.flag := by
    intro hown
    obtain ⟨rowc, hrowc, hflagc⟩ := hcovers c hc
    obtain ⟨hfinalc, -⟩ := h.kept_plain hc hplainc hrowc hflagc
    rw [← keptOf_eq_of_key hrow hrowc (hfinal.trans (hown.symm.trans hfinalc.symm)), hflags,
      List.mem_singleton] at hflagc
    rw [h.eq_of_flag hc hn hflagc, hnegative] at hplainc
    cases hplainc
  refine ⟨hfinal ▸ ((keepRows_fresh (finalRows rows) {}).bounded row hrow).2, ?_⟩
  intro s hs hown
  cases hside : s.negativeOnly with
  | false => exact hoption s hs hside hown
  | true =>
    obtain ⟨rows', hrows', hflags'⟩ := hcovers s hs
    obtain ⟨-, hfinals⟩ := h.kept_alone hs hside
      (fun c hc hplainc hkeyc => absurd (hkeyc.trans hown) (hoption c hc hplainc)) hrows' hflags'
    have hnot : s.key ∉ takenKeys rows := by
      intro htaken
      obtain ⟨c, hc, hplainc, hkeyc⟩ := h.mem_takenKeys.mp htaken
      exact hoption c hc hplainc (hkeyc.trans hown)
    rw [if_neg hnot] at hfinals
    rw [← keptOf_eq_of_key hrow hrows' (hfinal.trans (hown.symm.trans hfinals.symm)), hflags,
      List.mem_singleton] at hflags'
    exact hoption v hv hplain (hkey.trans (h.eq_of_flag hs hn hflags' ▸ hown))

/-- A row that no index points to. -/
structure Merging.Keeps (n : PendingOption) (st : Merging) : Prop where
  first : st.merged[0]? = some n
  negatives : ∀ key i, st.negatives.get key = some i → i ≠ 0
  positives : ∀ key i, st.positives.get key = some i → i ≠ 0

namespace Merging

variable {st : Merging}

theorem Keeps.push (h : st.Keeps n) (row : PendingOption) : (st.push row).Keeps n :=
  { h with first := getElem?_push_of_some h.first }

theorem Keeps.absorb (h : st.Keeps n) {i : Nat} (hi : i ≠ 0) (row : PendingOption)
    (polarity : Bool) : (st.absorb i row polarity).Keeps n :=
  { h with first := (getElem?_absorb_of_ne (Ne.symm hi)).trans h.first }

theorem Keeps.length_ne_zero (h : st.Keeps n) : st.merged.length ≠ 0 := by
  have hfirst := h.first
  intro hzero
  rw [List.length_eq_zero_iff.mp hzero] at hfirst
  cases hfirst

theorem get_insert_ne_zero {indexes : KeyMap Text Nat} {name : Text} {j : Nat}
    (h : ∀ key i, indexes.get key = some i → i ≠ 0) (hj : j ≠ 0) (key : Text) (i : Nat)
    (hi : (indexes.insert name j).get key = some i) : i ≠ 0 := by
  rw [KeyMap.get_insert] at hi
  split at hi
  · exact Option.some.inj hi ▸ hj
  · exact h key i hi

theorem Keeps.add (h : st.Keeps n) (hrow : row.Single) : (st.add row).Keeps n := by
  rcases st.add_cases hrow with ⟨-, i, hi, heq⟩ | ⟨-, -, heq⟩ | ⟨-, -, heq⟩ |
    ⟨-, -, i, hi, heq⟩ | ⟨-, -, -, heq⟩
  · exact heq ▸ h.absorb (h.positives _ i hi) row false
  · have hindexed : Keeps n { st with
        negatives := st.negatives.insert row.key st.merged.length } :=
      ⟨h.first, get_insert_ne_zero h.negatives h.length_ne_zero, h.positives⟩
    exact heq ▸ hindexed.push row
  · exact heq ▸ h.push row
  · have hindexed : Keeps n { st with
        negatives := st.negatives.erase row.key
        positives := st.positives.insert row.key i } := by
      refine ⟨h.first, ?_, get_insert_ne_zero h.positives (h.negatives _ i hi)⟩
      intro key j hj
      dsimp only at hj
      rw [KeyMap.get_erase] at hj
      split at hj
      · cases hj
      · exact h.negatives key j hj
    exact heq ▸ hindexed.absorb (h.negatives _ i hi) row true
  · have hindexed : Keeps n { st with
        positives := st.positives.insert row.key st.merged.length } :=
      ⟨h.first, h.negatives, get_insert_ne_zero h.positives h.length_ne_zero⟩
    exact heq ▸ hindexed.push row

theorem Keeps.addAll (h : st.Keeps n) (hsingle : ∀ r ∈ rows, r.Single) :
    (rows.foldl Merging.add st).Keeps n := by
  induction rows generalizing st with
  | nil => exact h
  | cons row rows ih =>
    obtain ⟨hrow, hrows⟩ := List.forall_mem_cons.mp hsingle
    have hnext : (st.add row).Keeps n := h.add hrow
    exact ih hnext hrows

end Merging

theorem first_stays {rest : List PendingOption} (hsingle : ∀ r ∈ n :: m :: rest, r.Single)
    (hn : n.negativeOnly = true) (hm : m.negativeOnly = true) (hkey : n.key = m.key) :
    n ∈ mergePairs (n :: m :: rest) := by
  have hplace : n.positional = none := (hsingle n (by simp)).place
  have hplace' : m.positional = none := (hsingle m (by simp)).place
  have htwo : ((({} : Merging).add n).add m).Keeps n := by
    have hfirst : ({} : Merging).add n =
        { merged := [n], negatives := KeyMap.empty.insert n.key 0, positives := .empty } := by
      simp [Merging.add, Merging.push, hplace, hn]
    rw [hfirst]
    refine ⟨?_, ?_, ?_⟩
    · simp [Merging.add, Merging.push, hplace', hm]
    · intro key i hi
      simp only [Merging.add, Merging.push, hplace', hm, Option.isSome_none, Bool.false_eq_true,
        if_false, if_true, KeyMap.get_empty, List.length_singleton, ← hkey, KeyMap.get_insert] at hi
      split at hi
      · cases hi
        decide
      · simp_all
    · intro key i hi
      simp [Merging.add, Merging.push, hplace', hm] at hi
  have hall : (rest.foldl Merging.add ((({} : Merging).add n).add m)).Keeps n :=
    htwo.addAll fun r hr => hsingle r (by simp [hr])
  exact List.mem_of_getElem? hall.first

end Merged

end AioLM.Options
