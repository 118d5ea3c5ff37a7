import Mathlib.Data.List.DropRight
import AioLM.Text

/-!
What is left of a text when the blanks around it are taken off.
-/

set_option autoImplicit false

namespace AioLM.Text

variable {t u : Text} {c : Char}

theorem trimStart_trim (t : Text) : trimStart (trim t) = trim t := by
  rcases htrim : trim t with _ | ⟨c, rest⟩
  · rfl
  · obtain ⟨cut, hcut, -⟩ := trimEndMatches_split isWhitespace (trimStart t)
    rw [← trim, htrim] at hcut
    have hdrop : t.dropWhile isWhitespace = c :: (rest ++ cut) := hcut
    have hhead := List.head_dropWhile_not isWhitespace (by simp [hdrop] : t.dropWhile isWhitespace ≠ [])
    have hc : isWhitespace c = false := by
      simpa [hdrop] using hhead
    rw [trimStart, List.dropWhile_cons_of_neg (by simp [hc])]

theorem trimEndMatches_idem (p : Char → Bool) (t : Text) :
    trimEndMatches p (trimEndMatches p t) = trimEndMatches p t := by
  simp only [trimEndMatches, List.reverse_reverse, List.dropWhile_idempotent]

theorem trim_trim (t : Text) : trim (trim t) = trim t := by
  rw [trim, trimStart_trim, trim, trimEndMatches_idem]

theorem trim_of_blankless (h : ∀ c ∈ t, isWhitespace c = false) : trim t = t := by
  obtain ⟨before, after, hsplit, hbefore, hafter⟩ := trim_split t
  have hnil : ∀ cut : Text, (∀ c ∈ cut, isWhitespace c = true) → (∀ c ∈ cut, c ∈ t) → cut = [] := by
    intro cut hblank hmem
    refine List.eq_nil_iff_forall_not_mem.mpr fun c hc => ?_
    exact absurd (hblank c hc) (by simp [h c (hmem c hc)])
  have hbefore' : before = [] := hnil before hbefore fun c hc => by rw [hsplit]; simp [hc]
  have hafter' : after = [] := hnil after hafter fun c hc => by rw [hsplit]; simp [hc]
  rw [hbefore', hafter', List.nil_append, List.append_nil] at hsplit
  exact hsplit.symm

/-- A text that is trimmed at its end and has no blank left is trimmed. -/
theorem trim_of_trimEnd (h : ∀ c ∈ trimEndMatches isWhitespace t, isWhitespace c = false) :
    trim t = trimEndMatches isWhitespace t := by
  rcases hend : trimEndMatches isWhitespace t with _ | ⟨c, rest⟩
  · obtain ⟨cut, hcut, hblank⟩ := trimEndMatches_split isWhitespace t
    rw [hend, List.nil_append] at hcut
    rw [trim_eq_nil_iff, hcut]
    exact hblank
  · obtain ⟨cut, hcut, -⟩ := trimEndMatches_split isWhitespace t
    rw [hend] at h hcut
    have hc : isWhitespace c = false := h c List.mem_cons_self
    rw [trim, ← hend]
    congr 1
    rw [trimStart, hcut, List.cons_append, List.dropWhile_cons_of_neg (by simp [hc])]

theorem splitOnce_not_mem {before after : Text} (h : splitOnce c t = some (before, after)) :
    c ∉ before := by
  unfold splitOnce at h
  split at h
  · cases h
    intro hmem
    simpa using List.mem_takeWhile_imp hmem
  · cases h

end AioLM.Text
