import AioLM.PaddedNumbers
import AioLM.Snapshots

/-!
Names of files that are one of several: how they are taken apart from the right, and
how one name is read back.
-/

set_option autoImplicit false

namespace AioLM.Discover

variable {pattern t before after base index count : Text} {c : Char} {part total : Nat}

theorem rsplitOnce_some (h : rsplitOnce pattern t = some (before, after)) :
    t = before ++ pattern ++ after := by
  obtain ⟨n, hn, heq⟩ := Option.map_eq_some_iff.mp h
  obtain ⟨rfl, rfl⟩ := Prod.mk.inj heq
  have hsplit := congrArg List.reverse (Search.find_split hn)
  simp only [List.reverse_append, List.reverse_reverse, List.take_reverse, List.drop_reverse,
    List.length_reverse, Nat.sub_add_eq] at hsplit
  rwa [List.append_assoc]

/-- No occurrence ends later when the text behind does not contain the last character. -/
theorem rsplitOnce_append (init before : Text) (hlast : c ∉ after) :
    rsplitOnce (init ++ [c]) (before ++ (init ++ [c]) ++ after) = some (before, after) := by
  have hfind : Search.find (init ++ [c]).reverse (before ++ (init ++ [c]) ++ after).reverse =
      some after.length := by
    rw [Search.find_eq_some_iff]
    refine ⟨by simp, by simp, ?_⟩
    intro k hk hearly
    obtain ⟨rest, hrest⟩ := hearly
    have hget : after.reverse[k]? = some c := by
      rw [← List.getElem?_append_left (by simpa using hk),
        ← List.reverse_append, ← List.head?_drop, ← hrest]
      simp
    exact hlast (List.mem_reverse.mp (List.mem_of_getElem? hget))
  rw [rsplitOnce, hfind, Option.map_some]
  congr 2
  · rw [List.append_assoc]
    exact List.take_left' (by simp; omega)
  · exact List.drop_left' (by simp; omega)

theorem stripSuffix_eq_some {suffix t rest : Text} :
    Text.stripSuffix suffix t = some rest ↔ t = rest ++ suffix := by
  unfold Text.stripSuffix
  constructor
  · intro h
    split at h
    · rename_i hsuffix
      obtain ⟨u, rfl⟩ := List.isSuffixOf_iff_suffix.mp hsuffix
      simpa using h
    · cases h
  · rintro rfl
    simp

/-- What `{:05}` writes for a number below a hundred thousand. -/
structure FiveDigits (t : Text) : Prop where
  length : t.length = 5
  digits : ∀ c ∈ t, c.isDigit

theorem fiveDigits_eq_padded (n : Nat) : fiveDigits n = Padded.padded 5 n := rfl

theorem FiveDigits.of_lt {n : Nat} (h : n < 100000) : FiveDigits (fiveDigits n) :=
  ⟨Padded.length_padded (by decide) h, fun _ hc => Padded.isDigit_of_mem_padded hc⟩

theorem FiveDigits.eq_value (h : FiveDigits t) :
    Nat.ofDigitChars 10 t 0 < 100000 ∧ fiveDigits (Nat.ofDigitChars 10 t 0) = t := by
  constructor
  · simpa [h.length] using Padded.value_lt h.digits
  · have hne : t ≠ [] := by
      intro heq
      simpa [heq] using h.length
    simpa [h.length, fiveDigits_eq_padded] using Padded.padded_value hne h.digits

theorem FiveDigits.dash_not_mem (h : FiveDigits t) : '-' ∉ t := by
  intro hmem
  have hdigit := h.digits _ hmem
  revert hdigit
  decide

theorem fiveDigits_iff :
    index.utf8Len = 5 ∧ count.utf8Len = 5 ∧ (index ++ count).all Char.isDigit = true ↔
      FiveDigits index ∧ FiveDigits count := by
  constructor
  · rintro ⟨hindex, hcount, hall⟩
    rw [List.all_append, Bool.and_eq_true, List.all_eq_true, List.all_eq_true] at hall
    rw [Padded.utf8Len_digits hall.1] at hindex
    rw [Padded.utf8Len_digits hall.2] at hcount
    exact ⟨⟨hindex, hall.1⟩, hcount, hall.2⟩
  · rintro ⟨hindex, hcount⟩
    rw [Padded.utf8Len_digits hindex.digits, Padded.utf8Len_digits hcount.digits, List.all_append,
      Bool.and_eq_true, List.all_eq_true, List.all_eq_true]
    exact ⟨hindex.length, hcount.length, hindex.digits, hcount.digits⟩

/-- `-of-` and the dash before it, from the right: the digits hold no dash. -/
theorem rsplitOnce_count (hcount : '-' ∉ count) :
    rsplitOnce "-of-".toList (t ++ "-of-".toList ++ count) = some (t, count) :=
  rsplitOnce_append "-of".toList t hcount

theorem rsplitOnce_index (hindex : '-' ∉ index) :
    rsplitOnce ['-'] (base ++ '-' :: index) = some (base, index) := by
  simpa using rsplitOnce_append [] base hindex

theorem shardOf_eq_some :
    shardOf t = some (base, index, count) ↔
      t = base ++ '-' :: index ++ "-of-".toList ++ count ∧ FiveDigits index ∧ FiveDigits count := by
  constructor
  · intro h
    obtain ⟨⟨head, count'⟩, hfirst, h⟩ := Option.bind_eq_some_iff.mp h
    obtain ⟨⟨base', index'⟩, hsecond, h⟩ := Option.bind_eq_some_iff.mp h
    dsimp only at h
    split at h
    · rename_i hdigits
      cases h
      rw [rsplitOnce_some hfirst, rsplitOnce_some hsecond]
      exact ⟨by simp, fiveDigits_iff.mp hdigits⟩
    · cases h
  · rintro ⟨rfl, hindex, hcount⟩
    have hdigits := fiveDigits_iff.mpr ⟨hindex, hcount⟩
    simp only [shardOf, rsplitOnce_count hcount.dash_not_mem, Option.bind_eq_bind,
      Option.bind_some, rsplitOnce_index hindex.dash_not_mem, if_pos hdigits]

end AioLM.Discover
