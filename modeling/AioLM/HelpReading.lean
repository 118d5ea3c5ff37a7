import AioLM.HelpRows

/-!
What the line pass of the help parser establishes of every row it reads.
-/

set_option autoImplicit false

namespace AioLM.Options

section Modify

variable {α β : Type} {f : α → α}

theorem forall_mem_modify {P : α → Prop} {xs : List α} (h : ∀ x ∈ xs, P x)
    (hf : ∀ x ∈ xs, P (f x)) (i : Nat) : ∀ x ∈ xs.modify i f, P x := by
  induction xs generalizing i with
  | nil => simp
  | cons x xs ih =>
    obtain ⟨hx, hxs⟩ := List.forall_mem_cons.mp h
    obtain ⟨hfx, hfxs⟩ := List.forall_mem_cons.mp hf
    cases i with
    | zero => exact List.forall_mem_cons.mpr ⟨hfx, hxs⟩
    | succ i => exact List.forall_mem_cons.mpr ⟨hx, ih hxs hfxs i⟩

theorem map_modify_of_same {g : α → β} (h : ∀ x, g (f x) = g x) (xs : List α) (i : Nat) :
    (xs.modify i f).map g = xs.map g := by
  induction xs generalizing i with
  | nil => simp
  | cons x xs ih =>
    cases i with
    | zero => simp [h]
    | succ i => simp [ih]

end Modify

/-- What is known of a row read from the lines up to `last`. -/
structure PendingOption.Sound (last : Nat) (row : PendingOption) : Prop where
  key : ∀ c ∈ row.key, keyChar c
  help : Char.ofNat 0 ∉ row.help
  group : boundedText row.group 256
  start : 0 < row.startLine
  span : row.startLine ≤ row.endLine
  stop : row.endLine ≤ last
  place : row.positional.isSome ↔ row.spellings = []
  flags : ∀ s ∈ row.spellings, validFlag s.flag
  polarity : ∀ s ∈ row.spellings, s.polarity.isSome → row.isBoolean
  style : row.isBoolean → ∀ s ∈ row.spellings, s.style = .separate
  negative : row.negativeOnly → row.isBoolean
  switch : row.isBoolean → row.positional = none ∧ Text.trim row.metavar = []
  agreed : row.positional.isSome → row.aliasConflict = false

theorem PendingOption.Sound.mono {row : PendingOption} {m n : Nat} (h : row.Sound m)
    (hle : m ≤ n) : row.Sound n := { h with stop := Nat.le_trans h.stop hle }

theorem appendHelp_sound {row : PendingOption} {m n : Nat} {text : Text} (h : row.Sound m)
    (hle : m ≤ n) (htext : Char.ofNat 0 ∉ text) : (row.appendHelp text n).Sound n := by
  refine { h with help := ?_, span := Nat.le_trans h.span (Nat.le_trans h.stop hle), stop := ?_ }
  · intro hmem
    have hjoined := (isPrefix_truncateText _ _).subset hmem
    have hspace : Char.ofNat 0 ≠ ' ' := by decide
    split at hjoined <;> simp [h.help, htext, hspace] at hjoined
  · exact Nat.le_refl n

theorem namingFlag_mem {spellings : List Spelling} {first : Spelling}
    (h : spellings.head? = some first) : ∃ s ∈ spellings, namingFlag first spellings = s.flag := by
  have hfirst := List.mem_of_head? h
  unfold namingFlag
  split
  · exact ⟨first, hfirst, rfl⟩
  · split
    · rename_i long hlong
      exact ⟨long, List.mem_of_find?_eq_some hlong, rfl⟩
    · exact ⟨first, hfirst, rfl⟩

theorem polarize_mem {pair negativeOnly : Bool} {spellings : List Spelling} {s : Spelling}
    (h : s ∈ polarize pair negativeOnly spellings) :
    ∃ t ∈ spellings, s.flag = t.flag ∧ s.style = t.style ∧
      (s.polarity = t.polarity ∨ pair ∨ negativeOnly) := by
  unfold polarize at h
  split at h
  · rename_i hpair
    obtain ⟨t, ht, rfl⟩ := List.mem_map.mp h
    refine ⟨t, ht, ?_, ?_, .inr (.inl hpair)⟩ <;> split <;> try rfl
    all_goals split <;> rfl
  · split at h
    · rename_i hnegative
      cases spellings with
      | nil => cases h
      | cons first rest =>
        rcases List.mem_cons.mp h with rfl | h
        · exact ⟨first, List.mem_cons_self, rfl, rfl, .inr (.inr hnegative)⟩
        · exact ⟨s, List.mem_cons_of_mem first h, rfl, rfl, .inl rfl⟩
    · exact ⟨s, h, rfl, rfl, .inl rfl⟩

theorem polarize_eq_nil {pair negativeOnly : Bool} {spellings : List Spelling} :
    polarize pair negativeOnly spellings = [] ↔ spellings = [] := by
  unfold polarize
  split
  · exact List.map_eq_nil_iff
  · split
    · cases spellings <;> simp
    · rfl

theorem spelled_sound {row : PendingOption} {group help : Text} {line : Nat}
    {spellings : List Spelling} (h : row.Spelled group line spellings)
    (hgroup : boundedText group 256) (hline : 0 < line) (hhelp : Char.ofNat 0 ∉ help) :
    { row with help, endLine := line }.Sound line := by
  obtain ⟨first, hfirst, hkey⟩ := h.naming
  have hnegative : row.negativeOnly → row.isBoolean := by
    intro hneg
    rw [h.negative] at hneg
    exact (Bool.and_eq_true _ _ ▸ hneg).2
  have horigin (s : Spelling) (hs : s ∈ row.spellings) :
      ∃ t ∈ spellings, s.flag = t.flag ∧ s.style = t.style ∧
        (s.polarity = t.polarity ∨ row.isBoolean) := by
    obtain ⟨t, ht, hflag, hstyle, hpolarity⟩ := polarize_mem (h.polarized ▸ hs)
    refine ⟨t, ht, hflag, hstyle, hpolarity.imp id fun hor => ?_⟩
    rcases hor with hpair | hneg
    · exact (Bool.and_eq_true _ _ ▸ hpair).2
    · exact hnegative hneg
  refine
    { key := ?_, help := hhelp, group := h.group ▸ hgroup, start := h.line ▸ hline
      span := Nat.le_of_eq h.line, stop := Nat.le_refl line, place := ?_, flags := ?_
      polarity := ?_, style := ?_, negative := hnegative
      switch := fun hboolean => ⟨h.place, h.blank hboolean⟩, agreed := by simp [h.place] }
  · obtain ⟨s, hs, hname⟩ := namingFlag_mem hfirst
    intro c hc
    dsimp only at hc
    rw [hkey, hname] at hc
    exact keyChar_of_flagChar (keyForFlag_chars (h.flags s hs).1 hc).1
  · have hne : spellings ≠ [] := by
      rintro rfl
      cases hfirst
    simp only [h.place, h.polarized, polarize_eq_nil, hne, iff_false]
    simp
  · intro s hs
    obtain ⟨t, ht, hflag, -⟩ := horigin s hs
    exact hflag ▸ (h.flags t ht).1
  · intro s hs hsome
    obtain ⟨t, ht, -, -, hpolarity⟩ := horigin s hs
    refine hpolarity.resolve_left fun hsame => ?_
    rw [hsame, (h.flags t ht).2] at hsome
    cases hsome
  · intro hboolean s hs
    obtain ⟨t, ht, -, hstyle, -⟩ := horigin s hs
    exact hstyle ▸ h.style hboolean t ht

theorem positional_sound {unicode : Unicode} {trimmed group : Text} {line slot : Nat}
    {sectionRow : Bool} {row : PendingOption}
    (h : parsePositional unicode trimmed group line slot sectionRow = some row)
    (hgroup : boundedText group 256) (hline : 0 < line) : row.Sound line := by
  obtain ⟨spec, help, hname, hhelp, rfl⟩ := parsePositional_some h
  exact
    { key := fun c hc => toLowercase_chars unicode hname hc
      help := hhelp
      group := hgroup
      start := hline
      span := Nat.le_refl line
      stop := Nat.le_refl line
      place := by simp
      flags := by simp
      polarity := by simp
      style := by simp
      negative := by simp
      switch := by simp
      agreed := by simp }

/-- The number of the line that ends the first `n` lines, as a row holds it. -/
def lineNumber (n : Nat) : Nat := min n (2 ^ 32 - 1)

theorem lineNumber_mono {m n : Nat} (h : m ≤ n) : lineNumber m ≤ lineNumber n := by
  unfold lineNumber
  omega

/-- What holds after the first `n` lines. -/
structure Reading.Sound (document : Text) (n : Nat) (st : Reading) : Prop where
  rows : ∀ row ∈ st.options, row.Sound (lineNumber n)
  ordered : (st.options.map (·.startLine)).Pairwise (· ≤ ·)
  length : st.options.length ≤ 4096
  group : boundedText st.group 256
  ending : st.endOfOptions = {} ∨
    ∃ k, 0 < k ∧ k ≤ lineNumber n ∧ st.endOfOptions = verified true document k k

namespace Reading

variable {unicode : Unicode} {document : Text} {st : Reading} {m n : Nat}

theorem Sound.mono (h : st.Sound document m) (hle : m ≤ n) : st.Sound document n :=
  { h with
    rows := fun row hrow => (h.rows row hrow).mono (lineNumber_mono hle)
    ending := h.ending.imp id fun ⟨k, hpos, hk, heq⟩ =>
      ⟨k, hpos, Nat.le_trans hk (lineNumber_mono hle), heq⟩ }

theorem push_sound {row : PendingOption} {indent : Nat} (h : st.Sound document n)
    (hrow : row.Sound (lineNumber n)) (hstart : lineNumber n ≤ row.startLine) :
    (st.push row indent).Sound document n := by
  unfold push
  split
  · rename_i hroom
    refine { h with rows := ?_, ordered := ?_, length := ?_ }
    · intro r hr
      rcases List.mem_append.mp hr with hr | hr
      · exact h.rows r hr
      · rw [List.mem_singleton.mp hr]
        exact hrow
    · rw [List.map_append, List.pairwise_append]
      refine ⟨h.ordered, by simp, ?_⟩
      intro a ha b hb
      obtain ⟨r, hr, rfl⟩ := List.mem_map.mp ha
      have hspan := (h.rows r hr).span
      have hstop := (h.rows r hr).stop
      simp only [List.map_singleton, List.mem_singleton] at hb
      omega
    · rw [List.length_append, List.length_singleton]
      omega
  · exact { h with }

theorem append_sound {index : Nat} {text : Text} (h : st.Sound document m) (hle : m ≤ n)
    (htext : Char.ofNat 0 ∉ text) : (st.append index text (lineNumber n)).Sound document n := by
  have hlater := h.mono hle
  refine { hlater with rows := ?_, ordered := ?_, length := ?_ }
  · exact forall_mem_modify hlater.rows
      (fun row hrow => appendHelp_sound (h.rows row hrow) (lineNumber_mono hle) htext) index
  · have hsame (row : PendingOption) :
        (row.appendHelp text (lineNumber n)).startLine = row.startLine := rfl
    simp only [append, map_modify_of_same hsame]
    exact h.ordered
  · rw [append, List.length_modify]
    exact h.length

theorem enterSection_sound {header : Text} (h : st.Sound document n)
    (hheader : isSectionHeader unicode header) :
    (st.enterSection unicode header).Sound document n := by
  refine { h with group := ?_ }
  simp only [isSectionHeader, Bool.and_eq_true, decide_eq_true_eq, Bool.not_eq_true'] at hheader
  obtain ⟨⟨⟨⟨⟨-, hsize⟩, hnul⟩, -⟩, -⟩, -⟩ := hheader
  have hpart : (Text.trim (trimEndOf ':' header)).Sublist header :=
    (trim_sublist _).trans (isPrefix_trimEndMatches _ _).sublist
  simp only [enterSection, normalizeGroup]
  split
  · decide
  · have hlower := unicode.size (Text.trim (trimEndOf ':' header))
    have hshort := utf8Len_le_of_sublist hpart
    have htake := utf8Len_le_of_sublist
      (List.take_sublist 256 (unicode.toLowercase (Text.trim (trimEndOf ':' header))))
    have hclean : Char.ofNat 0 ∉ unicode.toLowercase (Text.trim (trimEndOf ':' header)) := by
      refine unicode.noNul _ fun hmem => ?_
      have := hpart.subset hmem
      simp_all
    simp only [boundedText, Bool.and_eq_true, decide_eq_true_eq, Bool.not_eq_true']
    refine ⟨by omega, ?_⟩
    rw [← Bool.not_eq_true, List.contains_iff_mem]
    exact fun hmem => hclean (List.mem_of_mem_take hmem)

theorem readSyntax_sound {trimmed : Text} {indent : Nat} {sectionRow : Bool}
    (h : st.Sound document n) (hpos : 0 < lineNumber n) (hclean : Char.ofNat 0 ∉ trimmed) :
    (st.readSyntax unicode trimmed indent (lineNumber n) sectionRow).Sound document n := by
  unfold readSyntax
  split
  · dsimp only
    split
    · rename_i row hrow
      split at hrow
      · cases hrow
      · obtain ⟨left, hleft⟩ := splitSpecHelp_some hrow
        obtain ⟨spellings, hspelled⟩ := parseOptionSpec_some hleft
        refine push_sound h (spelled_sound hspelled h.group hpos ?_) (Nat.le_of_eq hspelled.line.symm)
        exact fun hmem => hclean (splitSpecHelp_help _ _ _ hmem)
    · exact { h with }
  · split
    · rename_i row hrow
      split at hrow
      · obtain ⟨spec, help, -, -, heq⟩ := parsePositional_some hrow
        refine push_sound { h with } (positional_sound hrow h.group hpos) ?_
        rw [heq]
      · cases hrow
    · exact { h with }

theorem readLine_sound {line : Text} (h : st.Sound document n) (hclean : Char.ofNat 0 ∉ line) :
    (readLine unicode document st (line, n)).Sound document (n + 1) := by
  have hnext := h.mono (Nat.le_succ n)
  have hpos : 0 < lineNumber (n + 1) := by
    unfold lineNumber
    omega
  have htrimmed : Char.ofNat 0 ∉ Text.trim line := fun hmem => hclean (trim_subset line hmem)
  simp only [readLine]
  rw [← lineNumber]
  split
  · exact { hnext with }
  · split
    · exact append_sound h (Nat.le_succ n) htrimmed
    · split
      · exact { hnext with ending := .inr ⟨_, hpos, Nat.le_refl _, rfl⟩ }
      · split
        · exact { hnext with }
        · split
          · rename_i hheader
            exact enterSection_sound hnext hheader
          · split
            · exact hnext
            · unfold readEntry
              dsimp only
              split
              · exact append_sound { h with } (Nat.le_succ n) htrimmed
              · exact readSyntax_sound { hnext with } hpos htrimmed

theorem mem_of_mem_textLines {t line : Text} (h : line ∈ textLines t) {c : Char} (hc : c ∈ line) :
    c ∈ t := by
  have hall : c ∈ (Framing.lines '\n' t).flatten ++ Framing.rest '\n' t → c ∈ t := by
    rw [← Framing.frames_filter]
    exact fun hmem => (List.mem_filter.mp hmem).1
  refine hall (List.mem_append.mpr ?_)
  rcases List.mem_append.mp h with h | h
  · obtain ⟨whole, hwhole, rfl⟩ := List.mem_map.mp h
    refine .inl (List.mem_flatten.mpr ⟨whole, hwhole, ?_⟩)
    unfold Text.stripSuffix at hc
    split at hc
    · exact List.mem_of_mem_take hc
    · exact hc
  · split at h
    · cases h
    · rw [List.mem_singleton.mp h] at hc
      exact .inr hc

theorem readLines_sound {lines : List Text} (h : st.Sound document n)
    (hclean : ∀ line ∈ lines, Char.ofNat 0 ∉ line) :
    ((lines.zipIdx n).foldl (readLine unicode document) st).Sound document (n + lines.length) := by
  induction lines generalizing st n with
  | nil => exact h
  | cons line lines ih =>
    obtain ⟨hline, hlines⟩ := List.forall_mem_cons.mp hclean
    have hnext : (readLine unicode document st (line, n)).Sound document (n + 1) :=
      readLine_sound h hline
    have hrest := ih hnext hlines
    rw [Nat.add_assoc, Nat.add_comm 1] at hrest
    exact hrest

theorem sound_init : ({} : Reading).Sound document 0 :=
  ⟨by simp, by simp, by simp, by decide, .inl rfl⟩

theorem readText_sound (unicode : Unicode) (document : Text) {text : Text}
    (hclean : Char.ofNat 0 ∉ text) :
    (readText unicode document text).Sound document (lineCount text) := by
  have hlines : ∀ line ∈ textLines text, Char.ofNat 0 ∉ line :=
    fun line hline hmem => hclean (mem_of_mem_textLines hline hmem)
  have hsound : (readText unicode document text).Sound document (0 + (textLines text).length) :=
    readLines_sound sound_init hlines
  rwa [length_textLines, Nat.zero_add] at hsound

end Reading

end AioLM.Options
