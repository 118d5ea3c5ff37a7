import AioLM.Utf8

/-!
What cuts do to decoded text: lines stay lines, characters that are cut turn
into two or more replacement characters, and everything else stays.
-/

set_option autoImplicit false

namespace AioLM.Utf8

open Framing

theorem decode_eq_decodeCut (s : State) (bytes : List UInt8) :
    decode s bytes = decodeCut s (bytes.map some) := by
  induction bytes generalizing s with
  | nil => rfl
  | cons b bytes ih => simp [decode, decodeCut, ih]

theorem decodeCut_append_none (s : State) (bytes : List UInt8) (tokens : List (Option UInt8)) :
    decodeCut s (bytes.map some ++ none :: tokens) =
      decode s bytes ++ decodeCut .start tokens := by
  induction bytes generalizing s with
  | nil => simp [decode, decodeCut]
  | cons b bytes ih => simp [decode, decodeCut, ih]

theorem decodeCut_marks (pieces : List (List UInt8)) :
    decodeCut .start (marks pieces) = pieces.flatMap lossy := by
  induction pieces with
  | nil => rfl
  | cons piece pieces ih =>
    cases pieces with
    | nil => simp [marks, lossy, decode_eq_decodeCut]
    | cons next rest => simp only [marks, decodeCut_append_none, ih, List.flatMap_cons, lossy]

@[simp] theorem reduceOption_map_some (bytes : List UInt8) :
    (bytes.map some).reduceOption = bytes := by
  induction bytes with
  | nil => rfl
  | cons b bytes ih => simp [ih]

theorem reduceOption_marks (pieces : List (List UInt8)) :
    (marks pieces).reduceOption = pieces.flatten := by
  induction pieces with
  | nil => rfl
  | cons piece pieces ih =>
    cases pieces with
    | nil => simp [marks]
    | cons next rest => simp [marks, List.reduceOption_append, ih]

theorem clean_of_not_mem {s : State} {tokens : List (Option UInt8)} (h : none ∉ tokens) :
    Clean s tokens := by
  induction tokens generalizing s with
  | nil => trivial
  | cons token tokens ih =>
    cases token with
    | none => exact absurd List.mem_cons_self h
    | some b => exact ih fun hmem => h (List.mem_cons_of_mem _ hmem)

theorem decodeCut_clean {s : State} {tokens : List (Option UInt8)} (h : Clean s tokens) :
    decodeCut s tokens = decode s tokens.reduceOption := by
  induction tokens generalizing s with
  | nil => rfl
  | cons token tokens ih =>
    cases token with
    | none =>
      obtain ⟨rfl, h⟩ := h
      simp [decodeCut, flush, ih h]
    | some b => simp [decodeCut, decode, ih h]

theorem decodeCut_ascii {s : State} (hs : s.Good) {b : UInt8} (hb : b.toNat < 0x80)
    (before after : List (Option UInt8)) :
    decodeCut s (before ++ some b :: after) =
      decodeCut s before ++ Char.ofNat b.toNat :: decodeCut .start after := by
  induction before generalizing s with
  | nil => simp [decodeCut, step_ascii hs hb]
  | cons token before ih =>
    cases token with
    | none => simp [decodeCut, ih (s := .start) trivial]
    | some c => simp [decodeCut, ih (step_good hs c.toNat)]

theorem flush_high (s : State) : ∀ c ∈ flush s, 0x80 ≤ c.toNat := by
  cases s with
  | start => simp [flush]
  | mid => simp [flush, replacement]

theorem decodeCut_mem_ascii {s : State} (hs : s.Good) {tokens : List (Option UInt8)} {c : Char}
    (hc : c ∈ decodeCut s tokens) (hascii : c.toNat < 0x80) :
    ∃ b : UInt8, some b ∈ tokens ∧ b.toNat = c.toNat := by
  induction tokens generalizing s with
  | nil =>
    have := flush_high s c hc
    omega
  | cons token tokens ih =>
    cases token with
    | none =>
      rcases List.mem_append.mp hc with hc | hc
      · have := flush_high s c hc
        omega
      · obtain ⟨b, hb, heq⟩ := ih (s := .start) trivial hc
        exact ⟨b, List.mem_cons_of_mem _ hb, heq⟩
    | some b =>
      rcases List.mem_append.mp hc with hc | hc
      · by_cases hb : b.toNat < 0x80
        · rw [step_ascii hs hb] at hc
          rcases List.mem_append.mp hc with hc | hc
          · have := flush_high s c hc
            omega
          · refine ⟨b, List.mem_cons_self, ?_⟩
            rw [List.mem_singleton.mp hc, toNat_ofNat_ascii hb]
        · have := (step_high hs (b := b.toNat) (by omega)).1 c hc
          omega
      · obtain ⟨b', hb, heq⟩ := ih (step_good hs b.toNat) hc
        exact ⟨b', List.mem_cons_of_mem _ hb, heq⟩

/-- The byte that ends a line. -/
def newline : UInt8 := 10

theorem newline_not_mem {tokens : List (Option UInt8)} (h : some newline ∉ tokens) :
    '\n' ∉ decodeCut .start tokens := by
  intro hmem
  obtain ⟨b, hb, heq⟩ := decodeCut_mem_ascii (s := .start) trivial hmem (by decide)
  have : b = newline := UInt8.toNat_inj.mp heq
  exact h (this ▸ hb)

theorem decodeCut_line (line tokens : List (Option UInt8)) :
    decodeCut .start (line ++ some newline :: tokens) =
      decodeCut .start line ++ '\n' :: decodeCut .start tokens :=
  decodeCut_ascii (s := .start) trivial (b := newline) (by decide) line tokens

theorem frames_decodeCut (tokens : List (Option UInt8)) :
    lines '\n' (decodeCut .start tokens) =
        (lines (some newline) tokens).map (decodeCut .start) ∧
      rest '\n' (decodeCut .start tokens) = decodeCut .start (rest (some newline) tokens) := by
  induction tokens using frames_induction (some newline) with
  | hrest tokens h =>
    simp [lines_of_not_mem h, rest_of_not_mem h, lines_of_not_mem (newline_not_mem h),
      rest_of_not_mem (newline_not_mem h)]
  | hline line tokens h ih =>
    rw [decodeCut_line]
    simp [h, newline_not_mem h, ih]

theorem frames_reduceOption (tokens : List (Option UInt8)) :
    lines newline tokens.reduceOption =
        (lines (some newline) tokens).map List.reduceOption ∧
      rest newline tokens.reduceOption = (rest (some newline) tokens).reduceOption := by
  have hmem : ∀ line : List (Option UInt8), some newline ∉ line →
      newline ∉ line.reduceOption := by
    intro line h
    simpa [List.reduceOption_mem_iff] using h
  induction tokens using frames_induction (some newline) with
  | hrest tokens h =>
    simp [lines_of_not_mem h, rest_of_not_mem h, lines_of_not_mem (hmem tokens h),
      rest_of_not_mem (hmem tokens h)]
  | hline line tokens h ih =>
    rw [List.reduceOption_append, List.reduceOption_cons_of_some]
    simp [h, hmem line h, ih]

theorem frames_lossy (tokens : List (Option UInt8)) :
    lines '\n' (lossy tokens.reduceOption) =
        (lines (some newline) tokens).map (fun line => lossy line.reduceOption) ∧
      rest '\n' (lossy tokens.reduceOption) =
        lossy (rest (some newline) tokens).reduceOption := by
  have hmem : ∀ line : List (Option UInt8), some newline ∉ line →
      '\n' ∉ lossy line.reduceOption := by
    intro line h
    rw [lossy, decode_eq_decodeCut]
    apply newline_not_mem
    simpa [List.reduceOption_mem_iff] using h
  induction tokens using frames_induction (some newline) with
  | hrest tokens h =>
    simp [lines_of_not_mem h, rest_of_not_mem h, lines_of_not_mem (hmem tokens h),
      rest_of_not_mem (hmem tokens h)]
  | hline line tokens h ih =>
    have hsplit : lossy (line ++ some newline :: tokens).reduceOption =
        lossy line.reduceOption ++ '\n' :: lossy tokens.reduceOption := by
      simp only [lossy, decode_eq_decodeCut, List.reduceOption_append,
        List.reduceOption_cons_of_some, List.map_append, List.map_cons]
      exact decodeCut_line _ _
    rw [hsplit]
    simp [h, hmem line h, ih]

/-- The second text is the first with some characters beyond ASCII replaced by
two or more replacement characters each. -/
inductive Smudged : List Char → List Char → Prop
  | nil : Smudged [] []
  | keep {c : Char} {t t' : List Char} : Smudged t t' → Smudged (c :: t) (c :: t')
  | smudge {c : Char} {t t' : List Char} {n : Nat} : 0x80 ≤ c.toNat → Smudged t t' →
      Smudged (c :: t) (List.replicate (n + 2) replacement ++ t')

theorem Smudged.append_left (before : List Char) {t t' : List Char} (h : Smudged t t') :
    Smudged (before ++ t) (before ++ t') := by
  induction before with
  | nil => exact h
  | cons c before ih => exact .keep ih

theorem Smudged.count_le {t t' : List Char} (h : Smudged t t') :
    t.count replacement ≤ t'.count replacement := by
  induction h with
  | nil => exact Nat.le_refl _
  | keep h ih => simp only [List.count_cons]; omega
  | @smudge c t t' n hc h ih =>
    simp only [List.count_append, List.count_replicate_self]
    have := List.count_le_length (a := replacement) (l := [c])
    rw [show c :: t = [c] ++ t from rfl, List.count_append]
    simp only [List.length_singleton] at this
    omega

/-- Between the two decoders right after a cut inside a character: the uncut one
still owes one character `c`, the cut one has started afresh. -/
def Resync (s : State) (tokens : List (Option UInt8)) : Prop :=
  ∃ (c : Char) (t t' : List Char) (k : Nat),
    decode s tokens.reduceOption = c :: t ∧
    decodeCut .start tokens = List.replicate k replacement ++ t' ∧
    Smudged t t' ∧ 0x80 ≤ c.toNat ∧ (k = 0 → c = replacement) ∧
    (Valid s tokens.reduceOption → 0 < k)

theorem Resync.continue {more lo hi acc : Nat} {b : UInt8} {tokens : List (Option UInt8)}
    (hs : (State.mid more lo hi acc).Good) (hb : lo ≤ b.toNat ∧ b.toNat ≤ hi)
    (hsmudged : Smudged (decode .start tokens.reduceOption) (decodeCut .start tokens))
    (ih : ∀ lo hi acc more, (State.mid more lo hi acc).Good →
      Resync (.mid more lo hi acc) tokens) :
    Resync (.mid more lo hi acc) (some b :: tokens) := by
  obtain ⟨hlo, hhi, hcomplete⟩ := hs
  have hnext := hcomplete b.toNat hb.1 hb.2
  have hlead : lead b.toNat = none := by
    unfold lead
    split_ifs <;> first | omega | rfl
  have hcut : decodeCut .start (some b :: tokens) =
      replacement :: decodeCut .start tokens := by
    have hascii : ¬ b.toNat < 0x80 := by omega
    simp [decodeCut, step, opening, hascii, hlead]
  cases more with
  | zero =>
    have hscalar : Scalar (acc * 64 + (b.toNat - 0x80)) := hnext
    refine ⟨Char.ofNat (acc * 64 + (b.toNat - 0x80)), decode .start tokens.reduceOption,
      decodeCut .start tokens, 1, ?_, hcut, hsmudged, ?_, by simp, by simp⟩
    · simp only [List.reduceOption_cons_of_some, decode, step, hb, and_self, if_true]
      rfl
    · rw [toNat_ofNat hscalar.isValidChar]
      exact hscalar.1
  | succ n =>
    have hgood : (State.mid n 0x80 0xBF (acc * 64 + (b.toNat - 0x80))).Good :=
      ⟨by omega, by omega, fun c _ _ => hnext (c - 0x80) (by omega)⟩
    obtain ⟨c, t, t', k, hdecode, hcut', hst, hc, -, -⟩ := ih _ _ _ _ hgood
    refine ⟨c, t, t', k + 1, ?_, ?_, hst, hc, by simp, by simp⟩
    · simpa [decode, step, hb] using hdecode
    · rw [hcut, hcut', List.replicate_succ, List.cons_append]

theorem smudged_resync (tokens : List (Option UInt8)) :
    (∀ s : State, s.Good → Smudged (decode s tokens.reduceOption) (decodeCut s tokens)) ∧
    (∀ lo hi acc more, (State.mid more lo hi acc).Good →
      Resync (.mid more lo hi acc) tokens) := by
  induction tokens with
  | nil =>
    constructor
    · intro s _
      have := Smudged.nil.append_left (flush s)
      simpa [decode, decodeCut] using this
    · intro lo hi acc more _
      exact ⟨replacement, [], [], 0, rfl, rfl, .nil, by decide, fun _ => rfl,
        fun h => by simp [Valid] at h⟩
  | cons token tokens ih =>
    obtain ⟨hstep, hresync⟩ := ih
    cases token with
    | none =>
      constructor
      · intro s hs
        cases s with
        | start => simpa [decodeCut, flush] using hstep .start trivial
        | mid more lo hi acc =>
          obtain ⟨c, t, t', k, hdecode, hcut, hst, hc, hzero, -⟩ := hresync lo hi acc more hs
          simp only [List.reduceOption_cons_of_none, decodeCut, flush, hdecode, hcut]
          cases k with
          | zero =>
            rw [hzero rfl]
            exact .keep hst
          | succ n => exact .smudge hc hst
      · intro lo hi acc more hs
        obtain ⟨c, t, t', k, hparts⟩ := hresync lo hi acc more hs
        exact ⟨c, t, t', k, by simpa [decodeCut, flush] using hparts⟩
    | some b =>
      constructor
      · intro s hs
        exact (hstep _ (step_good hs b.toNat)).append_left _
      · intro lo hi acc more hs
        by_cases hb : lo ≤ b.toNat ∧ b.toNat ≤ hi
        · exact .continue hs hb (hstep .start trivial) hresync
        · -- Both decoders take the byte as an opening one.
          have hgood := step_good (s := .start) trivial b.toNat
          refine ⟨replacement, _, _, 0, ?_, rfl, (hstep _ hgood).append_left _, by decide,
            fun _ => rfl, fun h => ?_⟩
          · simp [decode, step, hb]
          · have := h.1
            simp only [State.accepts, Bool.and_eq_true, decide_eq_true_eq] at this
            exact absurd this hb

theorem smudged_decodeCut {s : State} (hs : s.Good) (tokens : List (Option UInt8)) :
    Smudged (decode s tokens.reduceOption) (decodeCut s tokens) :=
  (smudged_resync tokens).1 s hs

theorem count_lt_of_not_clean {s : State} (hs : s.Good) {tokens : List (Option UInt8)}
    (hvalid : Valid s tokens.reduceOption) (hclean : ¬ Clean s tokens) :
    (decode s tokens.reduceOption).count replacement <
      (decodeCut s tokens).count replacement := by
  induction tokens generalizing s with
  | nil => exact absurd trivial hclean
  | cons token tokens ih =>
    cases token with
    | none =>
      cases s with
      | start =>
        have hrest : ¬ Clean .start tokens := fun h => hclean ⟨rfl, h⟩
        simpa [decodeCut, flush] using ih (s := .start) trivial hvalid hrest
      | mid more lo hi acc =>
        obtain ⟨c, t, t', k, hdecode, hcut, hst, -, -, hpos⟩ :=
          (smudged_resync tokens).2 lo hi acc more hs
        have hk := hpos hvalid
        have hle := hst.count_le
        have hone : List.count replacement (c :: t) ≤ 1 + List.count replacement t := by
          rw [List.count_cons]
          split <;> omega
        simp only [List.reduceOption_cons_of_none, decodeCut, flush, hdecode, hcut,
          List.count_append, List.count_replicate_self, List.count_singleton_self]
        omega
    | some b =>
      have hlt := ih (step_good hs b.toNat) hvalid.2 hclean
      simp only [List.reduceOption_cons_of_some, decode, decodeCut, List.count_append]
      omega

namespace Smudged

theorem of_head {before t q' : List Char} (h : Smudged t (before ++ q'))
    (hclean : replacement ∉ before) : ∃ q, t = before ++ q ∧ Smudged q q' := by
  induction before generalizing t with
  | nil => exact ⟨t, rfl, h⟩
  | cons c before ih =>
    have hc : replacement ≠ c := fun hc => hclean (hc ▸ List.mem_cons_self)
    have hrest : replacement ∉ before := fun hr => hclean (List.mem_cons_of_mem c hr)
    generalize hx : c :: before ++ q' = x at h
    cases h with
    | nil => simp at hx
    | keep h =>
      obtain ⟨rfl, rfl⟩ := List.cons.inj hx
      obtain ⟨q, rfl, hq⟩ := ih h hrest
      exact ⟨q, rfl, hq⟩
    | smudge _ h =>
      rw [List.replicate_succ, List.cons_append] at hx
      exact absurd (List.cons.inj hx).1.symm hc

theorem eq_of_clean {t t' : List Char} (h : Smudged t t') (hclean : replacement ∉ t') :
    t = t' := by
  obtain ⟨q, rfl, hq⟩ := of_head (show Smudged t (t' ++ []) by simpa using h) hclean
  cases hq
  simp

theorem append_ascii {before q t' : List Char} (h : Smudged (before ++ q) t')
    (hascii : ∀ c ∈ before, c.toNat < 0x80) : ∃ q', t' = before ++ q' ∧ Smudged q q' := by
  induction before generalizing t' with
  | nil => exact ⟨t', rfl, h⟩
  | cons c before ih =>
    have hc := hascii c List.mem_cons_self
    cases h with
    | keep h =>
      obtain ⟨q', rfl, hq⟩ := ih h (fun d hd => hascii d (List.mem_cons_of_mem c hd))
      exact ⟨q', rfl, hq⟩
    | smudge hhigh _ => omega

theorem split {t before' after' : List Char} {c : Char}
    (h : Smudged t (before' ++ c :: after')) (hc : c ≠ replacement) :
    ∃ before after, t = before ++ c :: after ∧ Smudged before before' ∧
      Smudged after after' := by
  generalize hx : before' ++ c :: after' = x at h
  induction h generalizing before' with
  | nil => simp at hx
  | @keep d t t' h ih =>
    cases before' with
    | nil =>
      obtain ⟨rfl, rfl⟩ := List.cons.inj hx
      exact ⟨[], t, rfl, .nil, h⟩
    | cons e before' =>
      obtain ⟨rfl, hrest⟩ := List.cons.inj hx
      obtain ⟨before, after, rfl, hb, ha⟩ := ih hrest
      exact ⟨e :: before, after, rfl, .keep hb, ha⟩
  | @smudge d t t' n hd h ih =>
    -- The separating character lies behind the replacement characters.
    have hlen : n + 2 ≤ before'.length := by
      by_contra hlt
      have hget := congrArg (fun l => l[before'.length]?) hx
      simp only [List.getElem?_append_right (Nat.le_refl _), Nat.sub_self,
        List.getElem?_cons_zero] at hget
      rw [List.getElem?_append_left (by simpa using by omega), List.getElem?_replicate,
        if_pos (by omega)] at hget
      exact hc (Option.some.inj hget)
    have happ : before'.take (n + 2) ++ (before'.drop (n + 2) ++ c :: after') =
        List.replicate (n + 2) replacement ++ t' := by
      rw [← List.append_assoc, List.take_append_drop, hx]
    obtain ⟨hhead, htail⟩ := List.append_inj happ (by simp [hlen])
    obtain ⟨before, after, rfl, hb, ha⟩ := ih htail
    refine ⟨d :: before, after, rfl, ?_, ha⟩
    rw [← List.take_append_drop (n + 2) before', hhead]
    exact .smudge hd hb

theorem mem {t t' : List Char} (h : Smudged t t') {c : Char} (hc : c ∈ t') :
    c ∈ t ∨ c = replacement := by
  induction h with
  | nil => simp at hc
  | keep _ ih =>
    rcases List.mem_cons.mp hc with rfl | hc
    · exact .inl List.mem_cons_self
    · exact (ih hc).imp_left (List.mem_cons_of_mem _)
  | smudge _ _ ih =>
    rcases List.mem_append.mp hc with hc | hc
    · exact .inr (List.eq_of_mem_replicate hc)
    · exact (ih hc).imp_left (List.mem_cons_of_mem _)

end Smudged

end AioLM.Utf8
