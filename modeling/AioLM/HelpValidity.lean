import AioLM.HelpReading
import AioLM.SchemaCheck

/-!
When the schema of a complete help report passes its own check: which documented
rows the parser cannot represent, and that one of them rejects the whole report.
-/

set_option autoImplicit false

namespace AioLM.Options

open Fallible

theorem mem_modify {α : Type} {f : α → α} {xs : List α} {i : Nat} {y : α}
    (h : y ∈ xs.modify i f) : y ∈ xs ∨ ∃ x, xs[i]? = some x ∧ y = f x := by
  induction xs generalizing i with
  | nil => simp at h
  | cons x xs ih =>
    cases i with
    | zero =>
      rcases List.mem_cons.mp h with rfl | h
      · exact .inr ⟨x, rfl, rfl⟩
      · exact .inl (List.mem_cons_of_mem x h)
    | succ i =>
      rcases List.mem_cons.mp h with rfl | h
      · exact .inl List.mem_cons_self
      · exact (ih h).imp (List.mem_cons_of_mem x) id

theorem mem_addFlag {polarity : Bool} {spellings : List Spelling} {s t : Spelling}
    (h : s ∈ addFlag polarity spellings t) :
    s ∈ spellings ∨ s = ⟨t.flag, .separate, some polarity⟩ := by
  unfold addFlag at h
  split at h
  · exact .inl h
  · exact (List.mem_append.mp h).imp id List.mem_singleton.mp

theorem isPrefix_addFlag (polarity : Bool) (spellings : List Spelling) (t : Spelling) :
    spellings <+: addFlag polarity spellings t := by
  unfold addFlag
  split
  · exact List.prefix_rfl
  · exact List.prefix_append _ _

theorem mem_addFlags {polarity : Bool} {spellings others : List Spelling} {s : Spelling}
    (h : s ∈ others.foldl (addFlag polarity) spellings) :
    s ∈ spellings ∨ ∃ t ∈ others, s = ⟨t.flag, .separate, some polarity⟩ := by
  induction others generalizing spellings with
  | nil => exact .inl h
  | cons t others ih =>
    rcases ih h with h | ⟨u, hu, heq⟩
    · exact (mem_addFlag h).imp id fun heq => ⟨t, List.mem_cons_self, heq⟩
    · exact .inr ⟨u, List.mem_cons_of_mem t hu, heq⟩

theorem isPrefix_addFlags (polarity : Bool) (spellings others : List Spelling) :
    spellings <+: others.foldl (addFlag polarity) spellings := by
  induction others generalizing spellings with
  | nil => exact List.prefix_rfl
  | cons t others ih => exact (isPrefix_addFlag polarity spellings t).trans (ih _)

theorem settlePolarity_same (polarity : Bool) (s : Spelling) :
    (settlePolarity polarity s).flag = s.flag ∧ (settlePolarity polarity s).style = s.style := by
  unfold settlePolarity
  split <;> exact ⟨rfl, rfl⟩

theorem absorb_spelling {row other : PendingOption} {polarity : Bool} {s : Spelling}
    (h : s ∈ (row.absorb other polarity).spellings) :
    ∃ t, (t ∈ row.spellings ∨ ∃ u ∈ other.spellings, t = ⟨u.flag, .separate, some polarity⟩) ∧
      s.flag = t.flag ∧ s.style = t.style := by
  obtain ⟨t, ht, rfl⟩ := List.mem_map.mp h
  exact ⟨t, mem_addFlags ht, settlePolarity_same polarity t⟩

theorem absorb_sound {row other : PendingOption} {polarity : Bool} {last : Nat}
    (h : row.Sound last) (hother : other.Sound last) (hboolean : row.isBoolean)
    (hstart : row.startLine ≤ other.startLine) : (row.absorb other polarity).Sound last := by
  have hne : row.spellings ≠ [] := by
    intro hnil
    have hsome := h.place.mpr hnil
    rw [(h.switch hboolean).1] at hsome
    cases hsome
  have hspelling (s : Spelling) (hs : s ∈ (row.absorb other polarity).spellings) :
      validFlag s.flag ∧ s.style = .separate := by
    obtain ⟨t, ht, hflag, hstyle⟩ := absorb_spelling hs
    rw [hflag, hstyle]
    rcases ht with ht | ⟨u, hu, rfl⟩
    · exact ⟨h.flags t ht, h.style hboolean t ht⟩
    · exact ⟨hother.flags u hu, rfl⟩
  refine
    { h with
      help := ?_
      span := Nat.le_trans hstart hother.span
      stop := hother.stop
      place := ?_
      flags := fun s hs => (hspelling s hs).1
      polarity := fun _ _ _ => hboolean
      style := fun _ s hs => (hspelling s hs).2
      negative := fun hneg => by cases hneg }
  · have hspace : Char.ofNat 0 ≠ ' ' := by decide
    simp only [PendingOption.absorb]
    split
    · exact h.help
    · split <;> simp [h.help, hother.help, hspace]
  · have hkept : (row.absorb other polarity).spellings ≠ [] := by
      obtain ⟨rest, hrest⟩ := isPrefix_addFlags polarity row.spellings other.spellings
      simp [PendingOption.absorb, ← hrest, hne]
    have hplace : (row.absorb other polarity).positional = none := (h.switch hboolean).1
    simp [hkept, hplace]

/-- What holds of the rows merged before the line `first`. -/
structure Merging.Sound (last first : Nat) (st : Merging) : Prop where
  rows : ∀ row ∈ st.merged, row.Sound last ∧ row.startLine ≤ first
  negatives : ∀ key index, st.negatives.get key = some index →
    ∃ row, st.merged[index]? = some row ∧ row.isBoolean
  positives : ∀ key index, st.positives.get key = some index →
    ∃ row, st.merged[index]? = some row ∧ row.isBoolean

namespace Merging

variable {st : Merging} {row : PendingOption} {last first : Nat}

theorem Sound.mono (h : st.Sound last first) {later : Nat} (hle : first ≤ later) :
    st.Sound last later :=
  { h with rows := fun row hrow => ⟨(h.rows row hrow).1, Nat.le_trans (h.rows row hrow).2 hle⟩ }

theorem push_sound (h : st.Sound last first) (hrow : row.Sound last)
    (hfirst : row.startLine ≤ first) : (st.push row).Sound last first := by
  have hkeep (index : Nat) (P : PendingOption → Prop)
      (hat : ∃ r, st.merged[index]? = some r ∧ P r) :
      ∃ r, (st.push row).merged[index]? = some r ∧ P r := by
    obtain ⟨r, hr, hp⟩ := hat
    exact ⟨r, Lists.getElem?_concat_of_some hr, hp⟩
  refine ⟨?_, fun key index hat => hkeep index _ (h.negatives key index hat),
    fun key index hat => hkeep index _ (h.positives key index hat)⟩
  intro r hr
  rcases List.mem_append.mp hr with hr | hr
  · exact h.rows r hr
  · rw [List.mem_singleton.mp hr]
    exact ⟨hrow, hfirst⟩

theorem absorb_sound {index : Nat} {polarity : Bool} (h : st.Sound last first)
    (hrow : row.Sound last) (hfirst : first ≤ row.startLine)
    (hat : ∃ r, st.merged[index]? = some r ∧ r.isBoolean) :
    (st.absorb index row polarity).Sound last first := by
  have hkeep (i : Nat) (hi : ∃ r, st.merged[i]? = some r ∧ r.isBoolean) :
      ∃ r, (st.absorb index row polarity).merged[i]? = some r ∧ r.isBoolean := by
    obtain ⟨r, hr, hboolean⟩ := hi
    rw [absorb, List.getElem?_modify, hr]
    by_cases hindex : index = i
    · exact ⟨r.absorb row polarity, by simp [hindex], hboolean⟩
    · exact ⟨r, by simp [hindex], hboolean⟩
  refine ⟨?_, fun key i hi => hkeep i (h.negatives key i hi),
    fun key i hi => hkeep i (h.positives key i hi)⟩
  intro r hr
  rcases mem_modify hr with hr | ⟨old, hold, rfl⟩
  · exact h.rows r hr
  · obtain ⟨found, hfound, hboolean⟩ := hat
    obtain rfl : old = found := Option.some.inj (hold.symm.trans hfound)
    obtain ⟨hsound, hle⟩ := h.rows old (List.mem_of_getElem? hold)
    exact ⟨Options.absorb_sound hsound hrow hboolean (Nat.le_trans hle hfirst), hle⟩

theorem Sound.get_insert {key : Text} {index : Nat} {m : KeyMap Text Nat}
    (hm : ∀ k i, m.get k = some i → ∃ r, st.merged[i]? = some r ∧ r.isBoolean)
    (hat : ∃ r, st.merged[index]? = some r ∧ r.isBoolean) (k : Text) (i : Nat)
    (h : (m.insert key index).get k = some i) : ∃ r, st.merged[i]? = some r ∧ r.isBoolean := by
  rw [KeyMap.get_insert] at h
  split at h
  · obtain rfl := Option.some.inj h
    exact hat
  · exact hm k i h

theorem add_sound (h : st.Sound last first) (hrow : row.Sound last)
    (hfirst : first ≤ row.startLine) : (st.add row).Sound last row.startLine := by
  have hpushed := push_sound (h.mono hfirst) hrow (Nat.le_refl row.startLine)
  have hat (hboolean : row.isBoolean) :
      ∃ r, (st.push row).merged[st.merged.length]? = some r ∧ r.isBoolean :=
    ⟨row, List.getElem?_concat_length, hboolean⟩
  unfold add
  split
  · exact hpushed
  · split
    · rename_i hnegative
      split
      · rename_i index hindex
        exact (absorb_sound h hrow hfirst (h.positives _ _ hindex)).mono hfirst
      · exact { hpushed with
          negatives := Sound.get_insert hpushed.negatives (hat (hrow.negative hnegative)) }
    · split
      · exact hpushed
      · rename_i long hlong
        have hboolean : row.isBoolean := by
          split at hlong
          · assumption
          · cases hlong
        dsimp only
        split
        · rename_i index hindex
          have hmoved : { st with
              negatives := st.negatives.erase (keyForFlag long.flag)
              positives := st.positives.insert (keyForFlag long.flag) index }.Sound last first :=
            { h with
              negatives := by
                intro key i hi
                rw [KeyMap.get_erase] at hi
                split at hi
                · cases hi
                · exact h.negatives key i hi
              positives := Sound.get_insert h.positives (h.negatives _ _ hindex) }
          exact (absorb_sound hmoved hrow hfirst (h.negatives _ _ hindex)).mono hfirst
        · exact { hpushed with
            positives := Sound.get_insert hpushed.positives (hat hboolean) }

theorem length_add_le (st : Merging) (row : PendingOption) :
    (st.add row).merged.length ≤ st.merged.length + 1 := by
  have hpush (st' : Merging) (heq : st'.merged = st.merged) :
      (st'.push row).merged.length ≤ st.merged.length + 1 := by
    simp [push, heq]
  have habsorb (st' : Merging) (heq : st'.merged = st.merged) (index : Nat) (polarity : Bool) :
      (st'.absorb index row polarity).merged.length ≤ st.merged.length + 1 := by
    simp [absorb, heq]
  unfold add
  split
  · exact hpush st rfl
  · split
    · split
      · exact habsorb st rfl _ _
      · exact hpush _ rfl
    · split
      · exact hpush st rfl
      · dsimp only
        split
        · exact habsorb _ rfl _ _
        · exact hpush _ rfl

theorem addAll_sound {rows : List PendingOption} (h : st.Sound last first)
    (hrows : ∀ r ∈ rows, r.Sound last) (hordered : (rows.map (·.startLine)).Pairwise (· ≤ ·))
    (hfirst : ∀ r ∈ rows, first ≤ r.startLine) :
    (∀ r ∈ (rows.foldl add st).merged, r.Sound last) ∧
      (rows.foldl add st).merged.length ≤ st.merged.length + rows.length := by
  induction rows generalizing st first with
  | nil => exact ⟨fun r hr => (h.rows r hr).1, Nat.le_refl _⟩
  | cons row rows ih =>
    obtain ⟨hrow, hrest⟩ := List.forall_mem_cons.mp hrows
    obtain ⟨hnext, hpairs⟩ := List.pairwise_cons.mp hordered
    have hadded := add_sound h hrow (hfirst row List.mem_cons_self)
    obtain ⟨hall, hlength⟩ := ih hadded hrest hpairs fun r hr =>
      hnext _ (List.mem_map_of_mem hr)
    refine ⟨hall, Nat.le_trans hlength ?_⟩
    have hone := length_add_le st row
    rw [List.length_cons]
    omega

theorem sound_init (last : Nat) : ({} : Merging).Sound last 0 :=
  ⟨by simp, by simp, by simp⟩

end Merging

theorem mergePairs_sound {rows : List PendingOption} {last : Nat}
    (hrows : ∀ r ∈ rows, r.Sound last) (hordered : (rows.map (·.startLine)).Pairwise (· ≤ ·)) :
    (∀ r ∈ mergePairs rows, r.Sound last) ∧ (mergePairs rows).length ≤ rows.length := by
  have hall := Merging.addAll_sound (Merging.sound_init last) hrows hordered
    fun _ _ => Nat.zero_le _
  simpa [mergePairs] using hall

theorem ownKey_chars {flag : Text} (hvalid : validFlag flag) (hnegated : isNegated flag) {c : Char}
    (hc : c ∈ ownKey flag) : keyChar c := by
  obtain ⟨rest, rfl⟩ := List.isPrefixOf_iff_prefix.mp hnegated
  simp only [validFlag, Bool.and_eq_true, List.all_eq_true] at hvalid
  rcases mem_underscore hc with rfl | ⟨hmem, -⟩
  · decide
  · exact keyChar_of_flagChar (hvalid.2 c hmem)

theorem detach_sound {row : PendingOption} {last : Nat} (h : row.Sound last)
    (taken : List Text) : (row.detach taken).Sound last := by
  unfold PendingOption.detach
  split
  · split
    · exact h
    · rename_i s hs
      refine
        { h with
          key := fun c hc => ownKey_chars (h.flags s (List.mem_of_find?_eq_some hs)) ?_ hc
          place := by simpa using h.place
          flags := ?_
          polarity := ?_
          style := ?_
          negative := fun hneg => by cases hneg }
      · exact (List.find?_eq_some_iff_append.mp hs).1
      · intro t ht
        obtain ⟨u, hu, rfl⟩ := List.mem_map.mp ht
        exact h.flags u hu
      · intro t ht hsome
        obtain ⟨u, hu, rfl⟩ := List.mem_map.mp ht
        cases hsome
      · intro hboolean t ht
        obtain ⟨u, hu, rfl⟩ := List.mem_map.mp ht
        exact h.style hboolean u hu
  · exact h

def PendingOption.flags (row : PendingOption) : List Text := row.spellings.map (·.flag)

theorem insertFlags_eq (seen flags : List Text) :
    insertFlags seen flags =
      (decide (flags.Nodup ∧ ∀ flag ∈ flags, flag ∉ seen), flags.reverse ++ seen) := by
  have hgo (f : Bool × List Text → Text → Bool × List Text)
      (hf : ∀ fresh seen flag, f (fresh, seen) flag = (fresh && !seen.contains flag, flag :: seen))
      (flags : List Text) (fresh : Bool) (seen : List Text) :
      flags.foldl f (fresh, seen) =
        (fresh && decide (flags.Nodup ∧ ∀ flag ∈ flags, flag ∉ seen), flags.reverse ++ seen) := by
    induction flags generalizing fresh seen with
    | nil => simp
    | cons flag flags ih =>
      rw [List.foldl_cons, hf, ih]
      refine Prod.ext ?_ (by simp)
      rw [Bool.eq_iff_iff]
      simp only [Bool.and_eq_true, Bool.not_eq_true', decide_eq_true_eq, List.nodup_cons,
        List.mem_cons, not_or, ← Bool.not_eq_true, List.contains_iff_mem]
      grind
  rw [insertFlags, hgo _ fun _ _ _ => rfl, Bool.true_and]

/-- What is known of the rows kept after `seen`. -/
structure SeenRows.Fresh (seen : SeenRows) (kept : List PendingOption) : Prop where
  keys : (kept.map (·.key)).Nodup
  newKey : ∀ row ∈ kept, row.key ∉ seen.keys
  bounded : ∀ row ∈ kept, row.key ≠ [] ∧ Text.utf8Len row.key ≤ 128
  flags : (kept.flatMap (·.flags)).Nodup
  newFlag : ∀ flag ∈ kept.flatMap (·.flags), flag ∉ seen.flags
  positions : (kept.filterMap (·.positional)).Nodup
  newPosition : ∀ slot ∈ kept.filterMap (·.positional), slot ∉ seen.positions

theorem SeenRows.Fresh.of_subset {seen next : SeenRows} {kept : List PendingOption}
    (h : next.Fresh kept) (hkeys : seen.keys ⊆ next.keys) (hflags : seen.flags ⊆ next.flags)
    (hpositions : seen.positions ⊆ next.positions) : seen.Fresh kept :=
  { h with
    newKey := fun row hrow hmem => h.newKey row hrow (hkeys hmem)
    newFlag := fun flag hflag hmem => h.newFlag flag hflag (hflags hmem)
    newPosition := fun slot hslot hmem => h.newPosition slot hslot (hpositions hmem) }

theorem accept_snd (seen : SeenRows) (row : PendingOption) :
    (seen.accept row).2.keys = row.key :: seen.keys ∧
      (seen.accept row).2.flags = row.flags.reverse ++ seen.flags ∧
      seen.positions ⊆ (seen.accept row).2.positions := by
  simp only [SeenRows.accept, insertFlags_eq]
  split
  · exact ⟨rfl, rfl, List.Subset.refl _⟩
  · split
    · exact ⟨rfl, rfl, List.subset_cons_self _ _⟩
    · exact ⟨rfl, rfl, List.Subset.refl _⟩

theorem accept_fst {seen : SeenRows} {row : PendingOption} (h : (seen.accept row).1) :
    row.key ∉ seen.keys ∧ row.key ≠ [] ∧ Text.utf8Len row.key ≤ 128 ∧ row.flags.Nodup ∧
      (∀ flag ∈ row.flags, flag ∉ seen.flags) ∧
      ∀ slot, row.positional = some slot →
        slot ∉ seen.positions ∧ slot ∈ (seen.accept row).2.positions := by
  simp only [SeenRows.accept, insertFlags_eq] at h ⊢
  split at h
  · cases h
  · rename_i hfresh
    rw [if_neg hfresh]
    simp only [Bool.or_eq_true, Bool.not_eq_true', decide_eq_false_iff_not, decide_eq_true_eq,
      not_or, not_not, List.contains_iff_mem, List.isEmpty_iff] at hfresh
    obtain ⟨⟨⟨⟨hnodup, hnew⟩, hkey⟩, hempty⟩, hlength⟩ := hfresh
    refine ⟨hkey, hempty, by omega, hnodup, hnew, ?_⟩
    intro slot hslot
    simp only [hslot] at h ⊢
    refine ⟨?_, List.mem_cons_self⟩
    simpa using h

theorem keepRows_sublist (rows : List PendingOption) (seen : SeenRows) :
    (keepRows seen rows).Sublist rows := by
  induction rows generalizing seen with
  | nil => exact List.Sublist.refl []
  | cons row rows ih =>
    rw [keepRows]
    split
    · exact (ih _).cons_cons row
    · exact (ih _).cons row

theorem keepRows_fresh (rows : List PendingOption) (seen : SeenRows) :
    seen.Fresh (keepRows seen rows) := by
  induction rows generalizing seen with
  | nil => exact ⟨by simp [keepRows], by simp [keepRows], by simp [keepRows], by simp [keepRows],
      by simp [keepRows], by simp [keepRows], by simp [keepRows]⟩
  | cons row rows ih =>
    obtain ⟨hkeys, hflags, hpositions⟩ := accept_snd seen row
    have hlater : seen.Fresh (keepRows (seen.accept row).2 rows) := by
      refine (ih _).of_subset ?_ ?_ hpositions
      · rw [hkeys]
        exact List.subset_cons_self _ _
      · rw [hflags]
        exact List.subset_append_right _ _
    rw [keepRows]
    split
    · rename_i next haccept
      have hnext : (seen.accept row).2 = next := by rw [haccept]
      rw [hnext] at hkeys hflags hpositions hlater
      have hrest := ih next
      obtain ⟨hkey, hempty, hlength, hnodup, hnew, hslot⟩ := accept_fst (by rw [haccept])
      rw [hnext] at hslot
      refine
        { keys := ?_
          newKey := List.forall_mem_cons.mpr ⟨hkey, hlater.newKey⟩
          bounded := List.forall_mem_cons.mpr ⟨⟨hempty, hlength⟩, hrest.bounded⟩
          flags := ?_, newFlag := ?_, positions := ?_, newPosition := ?_ }
      · refine List.nodup_cons.mpr ⟨?_, hrest.keys⟩
        intro hmem
        obtain ⟨other, hother, heq⟩ := List.mem_map.mp hmem
        exact hrest.newKey other hother (by simp [hkeys, heq])
      · rw [List.flatMap_cons, List.nodup_append']
        refine ⟨hnodup, hrest.flags, ?_⟩
        intro flag hflag hlate
        exact hrest.newFlag flag hlate (by simp [hflags, hflag])
      · intro flag hflag
        rcases List.mem_append.mp (List.flatMap_cons ▸ hflag) with hflag | hflag
        · exact hnew flag hflag
        · exact hlater.newFlag flag hflag
      · cases hplace : row.positional with
        | none => simpa [hplace] using hrest.positions
        | some slot =>
          rw [List.filterMap_cons_some hplace]
          exact List.nodup_cons.mpr
            ⟨fun hmem => hrest.newPosition slot hmem (hslot slot hplace).2, hrest.positions⟩
      · cases hplace : row.positional with
        | none => simpa [hplace] using hlater.newPosition
        | some slot =>
          rw [List.filterMap_cons_some hplace]
          exact List.forall_mem_cons.mpr ⟨(hslot slot hplace).1, hlater.newPosition⟩
    · rename_i next haccept
      have hnext : (seen.accept row).2 = next := by rw [haccept]
      exact hnext ▸ hlater

/-- The three ways in which a row alone is beyond the schema: a question mark in
its key, more leading value words than an option may take, and an equals spelling
whose value count the aliases leave open. -/
structure PendingOption.Representable (row : PendingOption) : Prop where
  key : '?' ∉ row.key
  values : row.aliasConflict = false → ∀ arity, arityForMetavar row.metavar = some arity →
    arity.min ≤ 256
  style : row.aliasConflict = true → (∃ s ∈ row.spellings, s.style = .equals) →
    ∀ arity, arityForMetavar row.metavar = some arity → arity.max ≠ some 1

theorem utf8Len_underscore {c : Char} (hc : c.utf8Size = 1) (t : Text) :
    Text.utf8Len (underscore c t) = Text.utf8Len t := by
  induction t with
  | nil => rfl
  | cons x t ih =>
    rw [underscore, List.map_cons, Text.utf8Len_cons, ← underscore, ih, Text.utf8Len_cons]
    by_cases hx : x = c
    · rw [if_pos hx, hx, hc]
      rfl
    · rw [if_neg hx]

/-- Of the characters of a key only the question mark is none of an identifier. -/
theorem finalKey_char_iff {c : Char} (h : keyChar c) :
    ((if c = '.' then '_' else c).isAlphanum ||
      "._-/".toList.contains (if c = '.' then '_' else c)) = true ↔ c ≠ '?' := by
  have hall : ∀ d ∈ "._-/?".toList, (((if d = '.' then '_' else d).isAlphanum ||
      "._-/".toList.contains (if d = '.' then '_' else d)) = true ↔ d ≠ '?') :=
    List.all_iff_forall_prop.mp (by decide)
  rcases Bool.or_eq_true _ _ ▸ h with halnum | hmem
  · have hdot : c ≠ '.' := by
      rintro rfl
      exact absurd halnum (by decide)
    have hmark : c ≠ '?' := by
      rintro rfl
      exact absurd halnum (by decide)
    simp [hdot, hmark, halnum]
  · exact hall c (List.contains_iff_mem.mp hmem)

theorem identifier_finalKey_iff {row : PendingOption} (hchars : ∀ c ∈ row.key, keyChar c)
    (hne : row.key ≠ []) (hlength : Text.utf8Len row.key ≤ 128) :
    identifier row.finalKey ↔ '?' ∉ row.key := by
  have hsize : Text.utf8Len (underscore '.' row.key) = Text.utf8Len row.key :=
    utf8Len_underscore (by decide) row.key
  simp only [identifier, PendingOption.finalKey, hsize, hlength, decide_true, Bool.and_true,
    Bool.and_eq_true, Bool.not_eq_true', List.isEmpty_eq_false_iff, List.all_eq_true]
  constructor
  · rintro ⟨-, hall⟩ hmark
    exact (finalKey_char_iff (hchars _ hmark)).mp (hall _ (List.mem_map_of_mem hmark)) rfl
  · intro hmark
    refine ⟨by simpa [underscore] using hne, ?_⟩
    intro c hc
    obtain ⟨x, hx, rfl⟩ := List.mem_map.mp hc
    refine (finalKey_char_iff (hchars x hx)).mpr ?_
    rintro rfl
    exact hmark hx

theorem arityOfWords_bounds {bracketed ellipsis : Bool} {plain lead : Nat} {arity : Arity}
    (h : arityOfWords bracketed ellipsis plain lead = some arity) :
    ∀ n, arity.max = some n → arity.min ≤ n ∧ n ≤ 256 := by
  intro n hn
  unfold arityOfWords toU16 at h
  grind

theorem arityForMetavar_bounds {metavar : Text} {arity : Arity}
    (h : arityForMetavar metavar = some arity) :
    ∀ n, arity.max = some n → arity.min ≤ n ∧ n ≤ 256 := by
  simp only [arityForMetavar] at h
  split at h
  · cases h
    simp
  · split at h
    · cases h
    · split at h
      · obtain ⟨-, -, rfl⟩ := Option.map_eq_some_iff.mp h
        intro n hn
        cases hn
        refine ⟨?_, by decide⟩
        split <;> decide
      · exact arityOfWords_bounds h

theorem choiceValues_some {values : List Text} {choices : List Json}
    (h : choiceValues values = some choices) :
    choices.length ≤ 256 ∧ ∀ v ∈ choices, ∃ t, v = .string t := by
  unfold choiceValues at h
  split at h
  · rename_i hlength
    cases h
    refine ⟨by simpa using hlength.2, ?_⟩
    intro v hv
    obtain ⟨t, -, rfl⟩ := List.mem_map.mp hv
    exact ⟨t, rfl⟩
  · cases h

theorem parseChoices_some {metavar : Text} {choices : List Json}
    (h : parseChoices metavar = some choices) :
    choices.length ≤ 256 ∧ ∀ v ∈ choices, ∃ t, v = .string t := by
  simp only [parseChoices, Option.orElse_eq_orElse, Option.orElse_eq_or, Option.or_eq_some_iff] at h
  rcases h with h | ⟨-, h⟩
  · obtain ⟨inner, -, hvalues⟩ := Option.bind_eq_some_iff.mp h
    exact choiceValues_some hvalues
  · split at h
    · exact choiceValues_some h
    · cases h

theorem checkFact_verified {α : Type} {documents : List RawHelp} (value : α) (document : Text)
    (a b : Nat) : checkFact documents (verified value document a b) = .ok () ↔
      (Source.help document a b).fits documents := by
  simp [checkFact, verified, checkSource, bind_eq_ok]

theorem checkFact_empty {α : Type} (documents : List RawHelp) :
    checkFact documents ({} : Fact α) = .ok () := rfl

section Definition

variable {document : Text} {scope : List Text} {documents : List RawHelp} {last : Nat}
  {row : PendingOption}

def SpansFit (documents : List RawHelp) (document : Text) (last : Nat) : Prop :=
  ∀ a b, 0 < a → a ≤ b → b ≤ last → (Source.help document a b).fits documents

theorem checkFact_row {α : Type} {fact : Fact α} (hrow : row.Sound last)
    (hspans : SpansFit documents document last)
    (h : fact = {} ∨ ∃ value, fact = verified value document row.startLine row.endLine) :
    checkFact documents fact = .ok () := by
  rcases h with rfl | ⟨value, rfl⟩
  · exact checkFact_empty documents
  · exact (checkFact_verified value document _ _).mpr
      (hspans _ _ hrow.start hrow.span hrow.stop)

theorem toDefinition_facts (hrow : row.Sound last) (hspans : SpansFit documents document last) :
    (row.toDefinition document scope).checkFacts documents = .ok () := by
  have hkind : checkFact documents (row.kindFact document) = .ok () := by
    refine checkFact_row hrow hspans ?_
    unfold PendingOption.kindFact
    split
    · exact .inr ⟨_, rfl⟩
    · exact .inl rfl
  have harity : checkFact documents (row.arityFact document) = .ok () := by
    refine checkFact_row hrow hspans ?_
    unfold PendingOption.arityFact
    split
    · exact .inr ⟨_, rfl⟩
    · split
      · exact .inl rfl
      · split
        · exact .inr ⟨_, rfl⟩
        · exact .inl rfl
  have hchoices : checkFact documents (row.choicesFact document) = .ok () := by
    refine checkFact_row hrow hspans ?_
    unfold PendingOption.choicesFact
    split
    · split
      · exact .inr ⟨_, rfl⟩
      · exact .inl rfl
    · exact .inl rfl
  simp only [OptionDefinition.checkFacts, PendingOption.toDefinition, bind_eq_ok]
  exact ⟨(), hkind, (), harity, (), rfl, (), hchoices, (), rfl, (), rfl, (), rfl, (), rfl, (), rfl,
    (), rfl, (), rfl, (), rfl, (), rfl, rfl⟩

theorem arityFact_supported (row : PendingOption) (document : Text) :
    (row.arityFact document).supported =
      if row.positional.isNone && row.isBoolean then some ⟨0, some 0⟩
      else if row.positional.isNone && row.aliasConflict then none
      else arityForMetavar row.metavar := by
  unfold PendingOption.arityFact
  split
  · rfl
  · split
    · rfl
    · cases arityForMetavar row.metavar <;> rfl

theorem arityFits_iff (hrow : row.Sound last) :
    (row.toDefinition document scope).arityFits ↔ (row.aliasConflict = false →
      ∀ arity, arityForMetavar row.metavar = some arity → arity.min ≤ 256) := by
  have hblank (hboolean : row.isBoolean) :
      arityForMetavar row.metavar = some ⟨0, some 0⟩ := by
    simp only [arityForMetavar, (hrow.switch hboolean).2, if_true]
  simp only [OptionDefinition.arityFits, PendingOption.toDefinition, arityFact_supported]
  split
  · rename_i hboolean
    have harity := hblank (Bool.and_eq_true _ _ ▸ hboolean).2
    simp [harity]
  · split
    · rename_i hconflict
      have hopen := (Bool.and_eq_true _ _ ▸ hconflict).2
      simp [hopen]
    · rename_i hagree
      have hfalse : row.aliasConflict = false := by
        cases hplace : row.positional with
        | none => simpa [hplace] using hagree
        | some slot => exact hrow.agreed (by simp [hplace])
      cases harity : arityForMetavar row.metavar with
      | none => simp
      | some arity =>
        have hbounds : (arity.max.all fun n => decide (arity.min ≤ n) && decide (n ≤ 256)) = true := by
          cases hmax : arity.max with
          | none => rfl
          | some n => simpa using arityForMetavar_bounds harity n hmax
        simp [hfalse, hbounds]

theorem choicesFit_toDefinition (row : PendingOption) :
    (row.toDefinition document scope).choicesFit := by
  have hvalues (values : List Json) (hvalues : parseChoices row.metavar = some values) :
      decide (values.length ≤ 256) && !values.any fun v => v.isArray || v.isObject || v.isNull := by
    obtain ⟨hlength, hstring⟩ := parseChoices_some hvalues
    simp only [hlength, decide_true, Bool.true_and, Bool.not_eq_true', List.any_eq_false]
    intro v hv
    obtain ⟨t, rfl⟩ := hstring v hv
    exact Bool.false_ne_true
  simp only [OptionDefinition.choicesFit, PendingOption.toDefinition, PendingOption.choicesFact]
  split
  · split
    · rename_i values hparsed
      exact hvalues values hparsed
    · rfl
  · rfl

theorem confirmStyle_same (row : PendingOption) (s : Spelling) :
    (row.confirmStyle s).flag = s.flag ∧ (row.confirmStyle s).polarity = s.polarity := by
  unfold PendingOption.confirmStyle
  split <;> exact ⟨rfl, rfl⟩

theorem confirmStyle_fits_iff (hrow : row.Sound last) {s : Spelling} (hs : s ∈ row.spellings) :
    ((row.confirmStyle s).style != .equals ||
        (row.arityFact document).supported.any (·.max == some 1)) = true ↔
      (row.aliasConflict = true → s.style = .equals →
        ∀ arity, arityForMetavar row.metavar = some arity → arity.max ≠ some 1) := by
  cases hstyle : s.style with
  | separate => simp [PendingOption.confirmStyle, hstyle]
  | equals =>
    have hboolean : row.isBoolean = false := by
      by_contra htrue
      have hseparate := hrow.style (Bool.of_not_eq_false htrue) s hs
      rw [hstyle] at hseparate
      cases hseparate
    have hplace : row.positional = none := by
      by_contra hsome
      have hnil := hrow.place.mp (Option.isSome_iff_ne_none.mpr hsome)
      rw [hnil] at hs
      cases hs
    rw [arityFact_supported, hplace, hboolean]
    cases harity : arityForMetavar row.metavar with
    | none => simp [PendingOption.confirmStyle, hstyle, harity]
    | some arity =>
      by_cases hone : arity.max = some 1
      · cases hconflict : row.aliasConflict with
        | false => simp [hone]
        | true => simp [PendingOption.confirmStyle, hstyle, harity, hone]
      · simp [PendingOption.confirmStyle, hstyle, harity, hone]

theorem spellingFits_iff (hrow : row.Sound last) {s : Spelling} (hs : s ∈ row.spellings) :
    (row.toDefinition document scope).spellingFits (row.confirmStyle s) ↔
      (row.aliasConflict = true → s.style = .equals →
        ∀ arity, arityForMetavar row.metavar = some arity → arity.max ≠ some 1) := by
  obtain ⟨hflag, hpolarity⟩ := confirmStyle_same row s
  have hvalid := hrow.flags s hs
  have hswitch : (s.polarity.isNone || (row.toDefinition document scope).isSwitch) = true := by
    cases hsome : s.polarity with
    | none => rfl
    | some b =>
      have hboolean := hrow.polarity s hs (by rw [hsome]; rfl)
      have hplace := (hrow.switch hboolean).1
      have hkind : (row.kindFact document).supported = some .boolean := by
        simp [PendingOption.kindFact, hboolean, hplace, verified, Fact.supported]
      have harity : (row.arityFact document).supported = some ⟨0, some 0⟩ := by
        simp [arityFact_supported, hboolean, hplace]
      simp [OptionDefinition.isSwitch, PendingOption.toDefinition, hkind, harity]
  rw [← confirmStyle_fits_iff hrow hs, OptionDefinition.spellingFits, hflag, hpolarity, hswitch,
    Bool.and_true]
  unfold validFlag at hvalid
  rw [hvalid, Bool.true_and]
  rfl

theorem toDefinition_launches_iff (hrow : row.Sound last) (hne : row.key ≠ [])
    (hlength : Text.utf8Len row.key ≤ 128) (hscope : validScope scope)
    (hspans : SpansFit documents document last) :
    (row.toDefinition document scope).Launches documents ↔ row.Representable := by
  have hidentifier := identifier_finalKey_iff hrow.key hne hlength
  constructor
  · intro h
    refine ⟨hidentifier.mp h.key, (arityFits_iff hrow).mp h.arity, ?_⟩
    rintro hconflict ⟨s, hs, hstyle⟩
    exact (spellingFits_iff hrow hs).mp (h.spelling _ (List.mem_map_of_mem hs)) hconflict hstyle
  · intro h
    refine
      { key := hidentifier.mpr h.key
        scope := hscope
        help := ?_
        group := hrow.group
        facts := toDefinition_facts hrow hspans
        benchmarkName := rfl
        spans := ?_
        arity := (arityFits_iff hrow).mpr h.values
        choices := choicesFit_toDefinition row
        range := rfl
        place := ⟨rfl, ?_⟩
        spelling := ?_ }
    · have hclean : Char.ofNat 0 ∉ truncateText 32768 row.help :=
        fun hmem => hrow.help ((isPrefix_truncateText _ _).subset hmem)
      have hsize := utf8Len_truncateText 32768 row.help
      simpa [boundedText, PendingOption.toDefinition, hsize] using hclean
    · intro span hspan
      rw [List.mem_singleton.mp hspan]
      exact hspans _ _ hrow.start hrow.span hrow.stop
    · simpa [PendingOption.toDefinition] using hrow.place
    · intro spelling hspelling
      obtain ⟨s, hs, rfl⟩ := List.mem_map.mp hspelling
      exact (spellingFits_iff hrow hs).mpr fun hconflict hstyle =>
        h.style hconflict ⟨s, hs, hstyle⟩

end Definition

/-- The rows of a report that its schema can hold, each under a key of its own. -/
structure Representable (rows : List PendingOption) : Prop where
  row : ∀ row ∈ rows, row.Representable
  keys : (rows.map (·.finalKey)).Nodup

/-- A complete report, a binding for it, and texts within the limits. -/
structure ScopedReport.Ready (report : ScopedReport) (binding : SchemaBinding) : Prop where
  complete : report.complete
  engine : identifier binding.engine
  runtime : identifier binding.runtime
  digest : Text.utf8Len binding.fingerprint = 64 ∧ binding.fingerprint.all hexDigit
  fingerprint : binding.fingerprint = report.identity.fingerprint
  scope : validScope report.scope
  stdout : Char.ofNat 0 ∉ report.stdoutText
  stderr : Char.ofNat 0 ∉ report.stderrText
  size : Text.utf8Len report.stdoutText + Text.utf8Len report.stderrText ≤ maxHelpBytes

namespace ScopedReport

variable {unicode : Unicode} {report : ScopedReport} {binding : SchemaBinding}

theorem Ready.clean (h : report.Ready binding) : Char.ofNat 0 ∉ report.document.2 := by
  unfold document
  split
  · exact h.stderr
  · exact h.stdout

theorem rawHelp_spans (report : ScopedReport) : SpansFit report.rawHelp report.document.1
    (lineNumber (lineCount report.document.2)) := by
  intro a b hpos hle hlast
  have hcount : b ≤ lineCount report.document.2 :=
    Nat.le_trans hlast (Nat.min_le_left _ _)
  have hfits {help : RawHelp}
      (hfind : report.rawHelp.find? (·.id = report.document.1) = some help)
      (htext : help.text = report.document.2) :
      (Source.help report.document.1 a b).fits report.rawHelp := by
    simp [Source.fits, hfind, htext, hpos, hle, hcount]
  by_cases hstderr : Text.trim report.stdoutText = [] ∧ Text.trim report.stderrText ≠ []
  · have hdocument : report.document = ("stderr".toList, report.stderrText) := if_pos hstderr
    rw [hdocument] at hfits ⊢
    have hfind : report.rawHelp.find? (·.id = "stderr".toList) =
        some { id := "stderr".toList, scope := report.scope, text := report.stderrText } := by
      rw [rawHelp, if_neg hstderr.2, List.find?_cons_of_neg (by simp),
        List.find?_cons_of_pos (by simp)]
    exact hfits hfind rfl
  · have hdocument : report.document = ("stdout".toList, report.stdoutText) := if_neg hstderr
    rw [hdocument] at hfits ⊢
    have hfind : report.rawHelp.find? (·.id = "stdout".toList) =
        some { id := "stdout".toList, scope := report.scope, text := report.stdoutText } := by
      rw [rawHelp, List.find?_cons_of_pos (by simp)]
    exact hfits hfind rfl

theorem keptRows_sound (h : report.Ready binding) : ∀ row ∈ report.keptRows unicode,
    row.Sound (lineNumber (lineCount report.document.2)) := by
  have hreading := Reading.readText_sound unicode report.document.1 h.clean
  obtain ⟨hmerged, -⟩ := mergePairs_sound hreading.rows hreading.ordered
  intro row hrow
  have hdetached := (keepRows_sublist _ _).subset hrow
  obtain ⟨merged, hmem, rfl⟩ := List.mem_map.mp hdetached
  exact detach_sound (hmerged merged hmem) _

theorem length_keptRows (h : report.Ready binding) :
    (report.keptRows unicode).length ≤ maxOptions := by
  have hreading := Reading.readText_sound unicode report.document.1 h.clean
  obtain ⟨-, hmerged⟩ := mergePairs_sound hreading.rows hreading.ordered
  have hkept := (keepRows_sublist (detachLone (mergePairs (report.reading unicode).options))
    {}).length_le
  rw [detachLone, List.length_map] at hkept
  exact Nat.le_trans hkept (Nat.le_trans hmerged hreading.length)

theorem definitions_distinct (report : ScopedReport) :
    OptionSchema.Distinct {} (report.definitions unicode) ↔
      ((report.keptRows unicode).map (·.finalKey)).Nodup := by
  have hfresh := keepRows_fresh (detachLone (mergePairs (report.reading unicode).options)) {}
  have hkeys : (report.definitions unicode).map (·.key) =
      (report.keptRows unicode).map (·.finalKey) := by
    rw [definitions, List.map_map]
    rfl
  have hscoped {α : Type} : Function.Injective fun x : α => (report.scope, x) :=
    fun _ _ heq => (Prod.mk.injEq .. ▸ heq).2
  have hflags : (report.definitions unicode).flatMap (·.addresses) =
      ((report.keptRows unicode).flatMap (·.flags)).map (report.scope, ·) := by
    simp only [definitions, List.flatMap_map, List.map_flatMap]
    refine List.flatMap_congr fun row _ => ?_
    simp only [OptionDefinition.addresses, PendingOption.toDefinition, PendingOption.flags,
      List.map_map]
    refine List.map_congr_left fun s _ => ?_
    simp [(confirmStyle_same row s).1]
  have hslots : (report.definitions unicode).flatMap (·.slots) =
      ((report.keptRows unicode).filterMap (·.positional)).map (report.scope, ·) := by
    simp only [definitions, List.flatMap_map, List.filterMap_eq_flatMap_toList, List.map_flatMap]
    rfl
  constructor
  · intro h
    rw [← hkeys]
    exact h.keys
  · intro h
    rw [← hkeys] at h
    refine ⟨h, by simp, ?_, by simp, ?_, by simp⟩
    · rw [hflags]
      exact hfresh.flags.map hscoped
    · rw [hslots]
      exact hfresh.positions.map hscoped

theorem definitions_launch_iff (h : report.Ready binding) :
    (∀ d ∈ report.definitions unicode, d.Launches report.rawHelp) ↔
      ∀ row ∈ report.keptRows unicode, row.Representable := by
  have hfresh := keepRows_fresh (detachLone (mergePairs (report.reading unicode).options)) {}
  have hrow (row : PendingOption) (hrow : row ∈ report.keptRows unicode) :
      (row.toDefinition report.document.1 report.scope).Launches report.rawHelp ↔
        row.Representable :=
    toDefinition_launches_iff (keptRows_sound h row hrow) (hfresh.bounded row hrow).1
      (hfresh.bounded row hrow).2 h.scope report.rawHelp_spans
  rw [definitions, List.forall_mem_map]
  exact forall₂_congr hrow

theorem checkDocument_ok {ids : List Text} {help : RawHelp} (hid : identifier help.id)
    (hscope : validScope help.scope) (hnew : help.id ∉ ids) :
    OptionSchema.checkDocument ids help = .ok (help.id :: ids) := by
  rw [OptionSchema.checkDocument, bind_eq_ok]
  exact ⟨(), require_eq_ok.mpr ⟨hid, hscope, hnew⟩, rfl⟩

theorem checkDocuments (h : report.Ready binding) :
    ∃ ids, report.rawHelp.foldlM OptionSchema.checkDocument [] = .ok ids := by
  have hstdout : identifier "stdout".toList := by decide
  have hstderr : identifier "stderr".toList := by decide
  have hapart : "stderr".toList ∉ ["stdout".toList] := by decide
  unfold rawHelp
  rw [List.foldlM_cons, checkDocument_ok hstdout h.scope (by simp)]
  split
  · exact ⟨_, rfl⟩
  · refine ⟨["stderr".toList, "stdout".toList], ?_⟩
    exact bind_eq_ok.mpr ⟨_, rfl, bind_eq_ok.mpr ⟨_, checkDocument_ok hstderr h.scope hapart, rfl⟩⟩

theorem validate_schema_iff {serde : Serde} (h : report.Ready binding)
    (hsize : serde.schemaSize (report.schema unicode binding) ≤ maxSchemaBytes) :
    (report.schema unicode binding).validate serde = .ok () ↔
      Representable (report.keptRows unicode) := by
  have hlaunch : ∀ d ∈ report.definitions unicode, d.target = .launch := by
    intro d hd
    obtain ⟨row, -, rfl⟩ := List.mem_map.mp hd
    rfl
  have hoptions : (∃ seen, (report.definitions unicode).foldlM
      (OptionDefinition.check report.rawHelp) {} = .ok seen) ↔
      Representable (report.keptRows unicode) := by
    rw [OptionSchema.checkOptions_isOk_iff hlaunch, definitions_launch_iff h,
      definitions_distinct]
    exact ⟨fun h => ⟨h.1, h.2⟩, fun h => ⟨h.row, h.keys⟩⟩
  have hhelp : ((report.schema unicode binding).rawHelp.map fun help =>
      Text.utf8Len help.text).sum ≤ maxHelpBytes := by
    have hsum := h.size
    simp only [schema, rawHelp]
    split <;> simp <;> omega
  have hending : checkFact report.rawHelp (report.reading unicode).endOfOptions = .ok () := by
    have hreading := Reading.readText_sound unicode report.document.1 h.clean
    rcases hreading.ending with hnone | ⟨k, hpos, hlast, hsome⟩
    · rw [reading, hnone]
      exact checkFact_empty _
    · rw [reading, hsome]
      exact (checkFact_verified true _ k k).mpr
        (report.rawHelp_spans k k hpos (Nat.le_refl k) hlast)
  have hcount : (report.definitions unicode).length ≤ maxOptions := by
    rw [definitions, List.length_map]
    exact length_keptRows h
  rw [← hoptions]
  simp only [schema] at hhelp hsize ⊢
  simp only [OptionSchema.validate, bind_eq_ok, require_eq_ok]
  constructor
  · rintro ⟨-, -, -, -, -, -, -, -, -, -, ⟨⟩, -, seen, hseen, -⟩
    exact ⟨seen, hseen⟩
  · rintro ⟨seen, hseen⟩
    obtain ⟨ids, hids⟩ := checkDocuments h
    exact ⟨(), trivial, (), ⟨h.engine, h.runtime, h.digest⟩, (), ⟨hcount, Nat.zero_le _⟩, (), hhelp,
      ids, hids, (), hending, seen, hseen, (), rfl, hsize⟩

end ScopedReport

theorem toLower_of_large {c : Char} (h : 128 ≤ c.toNat) : c.toLower = c := by
  unfold Char.toLower
  rw [dif_neg]
  rintro ⟨-, hle⟩
  have hbound : c.toNat ≤ 90 := UInt32.le_iff_toNat_le.mp hle
  omega

theorem toLower_size (c : Char) : c.toLower.utf8Size ≤ 2 * c.utf8Size ∧
    (c ≠ Char.ofNat 0 → c.toLower ≠ Char.ofNat 0) := by
  by_cases hlt : c.toNat < 128
  · have hall : ((List.range 128).all fun n =>
        decide ((Char.ofNat n).toLower.utf8Size ≤ 2 * (Char.ofNat n).utf8Size) &&
          (Char.ofNat n == Char.ofNat 0 || (Char.ofNat n).toLower != Char.ofNat 0)) = true := by
      decide +kernel
    have hchar := List.all_eq_true.mp hall c.toNat (List.mem_range.mpr hlt)
    rw [Char.ofNat_toNat] at hchar
    simp only [Bool.and_eq_true, decide_eq_true_eq, Bool.or_eq_true, beq_iff_eq, bne_iff_ne] at hchar
    exact ⟨hchar.1, fun hne => hchar.2.resolve_left hne⟩
  · rw [toLower_of_large (by omega)]
    exact ⟨by omega, id⟩

def Unicode.asciiOnly : Unicode where
  isAlphanumeric := Char.isAlphanum
  toLowercase := Text.toAsciiLower
  ascii _ _ := rfl
  size t := by
    induction t with
    | nil => exact Nat.le_refl 0
    | cons c t ih =>
      have hchar := (toLower_size c).1
      rw [Text.toAsciiLower, List.map_cons, Text.utf8Len_cons, Text.utf8Len_cons,
        ← Text.toAsciiLower]
      omega
  noNul t h hmem := by
    obtain ⟨c, hc, heq⟩ := List.mem_map.mp hmem
    exact (toLower_size c).2 (fun hnul => h (hnul ▸ hc)) heq

def helpOf (text : String) : ScopedReport where
  identity := ⟨List.replicate 64 'a', Help.parserVersion⟩
  stdout := ⟨false, false, none⟩
  stderr := ⟨false, false, none⟩
  success := true
  cancelled := false
  timedOut := false
  error := none
  scope := []
  stdoutText := text.toList
  stderrText := []

def helpBinding : SchemaBinding := ⟨"engine".toList, "runtime".toList, List.replicate 64 'a'⟩

theorem helpOf_ready {text : String} (hclean : Char.ofNat 0 ∉ text.toList)
    (hsize : Text.utf8Len text.toList ≤ maxHelpBytes) : (helpOf text).Ready helpBinding where
  complete := rfl
  engine := by decide
  runtime := by decide
  digest := by decide
  fingerprint := rfl
  scope := rfl
  stdout := hclean
  stderr := List.not_mem_nil
  size := hsize

/-- Whether the parser accepts a complete report with an option in it. -/
theorem parseHelpReport_isOk_iff {unicode : Unicode} {serde : Serde} {report : ScopedReport}
    {binding : SchemaBinding} (h : report.Ready binding)
    (hsome : report.definitions unicode ≠ [])
    (hsize : serde.schemaSize (report.schema unicode binding) ≤ maxSchemaBytes) :
    (parseHelpReport unicode serde report binding).isOk ↔
      Representable (report.keptRows unicode) := by
  rw [← ScopedReport.validate_schema_iff h hsize]
  have hcomplete := h.complete
  simp only [Help.HelpReport.complete, Bool.and_eq_true, beq_iff_eq, Option.isNone_iff_eq_none,
    Bool.not_eq_true', List.all_eq_true] at hcomplete
  obtain ⟨⟨⟨⟨⟨hversion, hsuccess⟩, herror⟩, hcancelled⟩, htimedOut⟩, hstreams⟩ := hcomplete
  have hstream : ∀ s ∈ [report.stdout, report.stderr],
      ¬ s.truncated ∧ ¬ s.decodingLoss ∧ s.readError = none := by
    intro s hs
    obtain ⟨⟨htruncated, hloss⟩, hread⟩ := hstreams s hs
    exact ⟨by simp [htruncated], by simp [hloss], hread⟩
  have hlength : Text.utf8Len report.document.2 ≤ 2 * 1024 * 1024 := by
    have hsum : _ ≤ 2 * 1024 * 1024 := h.size
    unfold ScopedReport.document
    split <;> dsimp only <;> omega
  have hparsed : parseHelpReport unicode serde report binding =
      ((report.schema unicode binding).validate serde).mapError
        ("parsed help schema is invalid: ".toList ++ ·) >>= fun _ =>
          .ok (report.schema unicode binding) := by
    have hok {p : Prop} [Decidable p] (hp : p) (message : Text) :
        require p message = .ok () := require_eq_ok.mpr hp
    unfold parseHelpReport
    rw [hok ⟨(hstream _ (by simp)).2.1, (hstream _ (by simp)).2.1⟩,
      hok ⟨hsuccess, herror, by simp [hcancelled], by simp [htimedOut], hstream⟩, hok hversion,
      hok h.fingerprint, hok hlength, hok hsome]
    rfl
  rw [hparsed]
  cases (report.schema unicode binding).validate serde with
  | error message => simp [Except.mapError, bind, Except.bind, Except.isOk, Except.toBool]
  | ok u => simp [Except.mapError, bind, Except.bind, Except.isOk, Except.toBool]

/-- A switch and its negative, a flag with a value, and the same flag once more. -/
def pairedHelp : String := "--a\n--no-a\n-n N  size\n-n M  again\n"

/-- Four rows are read; the first two become one option and the last is dropped. -/
theorem parseHelpReport_isOk_iff_paired :
    ((helpOf pairedHelp).reading .asciiOnly).options.length = 4 ∧
      ((helpOf pairedHelp).keptRows .asciiOnly).map (·.flags) =
        [["--a".toList, "--no-a".toList], ["-n".toList]] ∧
      (parseHelpReport .asciiOnly .plain (helpOf pairedHelp) helpBinding).isOk ∧
      Representable ((helpOf pairedHelp).keptRows .asciiOnly) := by
  have hok : (parseHelpReport .asciiOnly .plain (helpOf pairedHelp) helpBinding).isOk = true := by
    decide +kernel
  refine ⟨by decide +kernel, by decide +kernel, hok, ?_⟩
  exact (parseHelpReport_isOk_iff (helpOf_ready (by decide) (by decide)) (by decide +kernel)
    (Nat.zero_le _)).mp hok

/-- One line whose flag is a question mark rejects the option documented beside it. -/
theorem question_mark_rejects :
    (helpOf "-?\n--a\n").Ready helpBinding ∧
      ((helpOf "-?\n--a\n").definitions .asciiOnly).length = 2 ∧
      Serde.plain.schemaSize ((helpOf "-?\n--a\n").schema .asciiOnly helpBinding) ≤
        maxSchemaBytes ∧
      (parseHelpReport .asciiOnly .plain (helpOf "-?\n--a\n") helpBinding).isOk = false :=
  ⟨helpOf_ready (by decide) (by decide), by decide +kernel, Nat.zero_le _, by decide +kernel⟩

end AioLM.Options
