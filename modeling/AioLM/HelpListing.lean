import AioLM.HelpSwitches

/-!
A section of a help text whose lines document one long flag each: what the parser reads
of it, and exactly when no order of its lines makes a difference.
-/

set_option autoImplicit false

namespace AioLM.Options

def PendingOption.relocate (group : Text) (line : Nat) (row : PendingOption) : PendingOption :=
  { row with group, startLine := line, endLine := line }

theorem parseOptionSpec_relocate (spec group : Text) (line : Nat) :
    parseOptionSpec spec group line = (parseOptionSpec spec [] 0).map (·.relocate group line) := by
  simp [parseOptionSpec, Option.map_bind, Function.comp_def, PendingOption.relocate]

theorem specBefore_relocate (text group : Text) (line i : Nat) :
    specBefore text group line i = (specBefore text [] 0 i).map fun found =>
      (found.1, found.2.1, found.2.2.map (·.relocate group line)) := by
  simp only [specBefore]
  split
  · rw [parseOptionSpec_relocate, Option.map_map, Option.map_map]
    rfl
  · rfl

theorem splitSpecHelp_relocate (text group : Text) (line : Nat) :
    splitSpecHelp text group line = ((splitSpecHelp text [] 0).1, (splitSpecHelp text [] 0).2.1,
      (splitSpecHelp text [] 0).2.2.map (·.relocate group line)) := by
  have hfind : (gapStarts text).findSome? (specBefore text group line) =
      ((gapStarts text).findSome? (specBefore text [] 0)).map fun found =>
        (found.1, found.2.1, found.2.2.map (·.relocate group line)) := by
    rw [List.map_findSome?]
    congr 1
    funext i
    exact specBefore_relocate text group line i
  simp only [splitSpecHelp, hfind]
  cases (gapStarts text).findSome? (specBefore text [] 0) with
  | none =>
    simp only [Option.map_none]
    split
    · rw [parseOptionSpec_relocate]
    · rfl
  | some found => rfl

theorem splitSpecHelp_spec {text group : Text} {n : Nat} {row : PendingOption}
    (h : (splitSpecHelp text group n).2.2 = some row) :
    (splitSpecHelp text group n).1 ≠ [] ∧ Text.utf8Len (splitSpecHelp text group n).1 ≤ 1024 := by
  unfold splitSpecHelp at h ⊢
  split at h
  · rename_i found hfound
    obtain ⟨i, -, hi⟩ := List.exists_of_findSome?_eq_some hfound
    obtain ⟨left, parsed, -, hleft, hsize, rfl⟩ := specBefore_some hi
    exact ⟨hleft, hsize⟩
  · dsimp only at h ⊢
    split at h
    · rename_i hsize
      refine ⟨fun hnil => ?_, hsize⟩
      rw [hnil] at h
      cases h
    · cases h

structure SwitchLine where
  text : Text
  row : PendingOption
  parsed : (splitSpecHelp text [] 0).2.2 = some row
  single : row.flags = [row.flag]
  long : startsWithDashes row.flag
  dashed : startsWith '-' text
  trimmed : Text.trim text = text
  oneLine : '\n' ∉ text

namespace SwitchLine

def flag (line : SwitchLine) : Text := line.row.flag

def switch (line : SwitchLine) : Switch := line.row.switch

variable {line : SwitchLine}

theorem row_single (line : SwitchLine) : line.row.Single := by
  obtain ⟨left, hleft⟩ := splitSpecHelp_some line.parsed
  obtain ⟨spellings, h⟩ := parseOptionSpec_some hleft
  obtain ⟨first, hfirst, hkey⟩ := h.naming
  have hlength : spellings.length = 1 := by
    have hflags := congrArg List.length line.single
    rw [PendingOption.flags, List.length_map, h.polarized] at hflags
    rw [polarize] at hflags
    split at hflags
    · simpa using hflags
    · split at hflags <;> simpa using hflags
  obtain ⟨t, rfl⟩ := List.length_eq_one_iff.mp hlength
  obtain rfl : t = first := Option.some.inj hfirst
  have hpolarity := (h.flags t List.mem_cons_self).2
  have hpair : (isNegated t.flag && isPositiveLong t.flag) = false := by
    cases hn : isNegated t.flag <;> simp [isPositiveLong, hn]
  have hspellings : line.row.spellings =
      [⟨t.flag, t.style, if line.row.negativeOnly then some false else none⟩] := by
    rw [h.polarized, polarize]
    simp only [List.any_cons, List.any_nil, Bool.or_false, hpair, Bool.false_and,
      Bool.false_eq_true, if_false]
    cases line.row.negativeOnly <;> simp [← hpolarity]
  have hflag : line.row.flag = t.flag := by
    rw [PendingOption.flag, PendingOption.flags, hspellings]
    rfl
  refine
    { place := h.place
      spellings := ⟨t.style, hflag ▸ hspellings⟩
      long := line.long
      key := ?_
      negative := ?_
      bounded := h.key }
  · have hlong : startsWithDashes t.flag := hflag ▸ line.long
    rw [hkey, namingFlag, List.find?_cons_of_pos (by simpa using hlong), hflag]
    split <;> rfl
  · rw [h.negative]
    simp only [List.any_cons, List.any_nil, Bool.or_false]
    change _ = (isNegated line.row.flag && line.row.isBoolean)
    rw [hflag]
    cases hn : isNegated t.flag <;> simp [isPositiveLong, hn]

end SwitchLine

structure SectionHeader (unicode : Unicode) (header : Text) : Prop where
  section_header : isSectionHeader unicode header
  trimmed : Text.trim header = header
  oneLine : '\n' ∉ header

def listingText (header : Text) (indent : Nat) (lines : List SwitchLine) : Text :=
  header ++ '\n' :: lines.flatMap fun line => List.replicate indent ' ' ++ line.text ++ ['\n']

theorem last_trimEndMatches {p : Char → Bool} {t u : Text} {c : Char}
    (h : Text.trimEndMatches p t = u ++ [c]) : p c = false := by
  have hcut : t.reverse.dropWhile p = c :: u.reverse := by
    rw [Text.trimEndMatches] at h
    simpa using congrArg List.reverse h
  have hne : t.reverse.dropWhile p ≠ [] := by simp [hcut]
  have hhead := List.head_dropWhile_not p hne
  simpa [hcut] using hhead

theorem last_trim {t u : Text} {c : Char} (h : Text.trim t = u ++ [c]) :
    Text.isWhitespace c = false := last_trimEndMatches h

theorem trim_blanks (n : Nat) (t : Text) : Text.trim (List.replicate n ' ' ++ t) = Text.trim t := by
  have hblank : ∀ c ∈ List.replicate n ' ', Text.isWhitespace c = true := by
    intro c hc
    rw [List.eq_of_mem_replicate hc]
    decide
  rw [Text.trim, Text.trimStart, List.dropWhile_append_of_pos hblank]
  rfl

theorem textLines_line {line : Text} (h : '\n' ∉ line) (hlast : ∀ u c, line = u ++ [c] → c ≠ '\r')
    (t : Text) : textLines (line ++ '\n' :: t) = line :: textLines t := by
  have hkeep : Text.stripSuffix ['\r'] line = none := by
    rw [Text.stripSuffix, if_neg]
    intro hsuffix
    obtain ⟨u, hu⟩ := List.isSuffixOf_iff_suffix.mp hsuffix
    exact hlast u '\r' hu.symm rfl
  rw [textLines, Framing.lines_line h, Framing.rest_line h, List.map_cons, hkeep]
  rfl

theorem last_of_trimmed {t u : Text} {c : Char} (h : Text.trim t = t) (hlast : t = u ++ [c]) :
    c ≠ '\r' := by
  rintro rfl
  have hblank := last_trim (h.trans hlast)
  revert hblank
  decide

namespace SwitchLine

def indented (indent : Nat) (line : SwitchLine) : Text := List.replicate indent ' ' ++ line.text

theorem text_ne_nil (line : SwitchLine) : line.text ≠ [] := by
  intro hnil
  have hdashed := line.dashed
  rw [hnil] at hdashed
  cases hdashed

theorem textLines_indented (line : SwitchLine) (indent : Nat) (t : Text) :
    textLines (line.indented indent ++ '\n' :: t) = line.indented indent :: textLines t := by
  refine textLines_line ?_ ?_ t
  · rw [indented, List.mem_append]
    rintro (hmem | hmem)
    · exact absurd (List.eq_of_mem_replicate hmem) (by decide)
    · exact line.oneLine hmem
  · intro u c hlast
    have hv := (List.dropLast_append_getLast line.text_ne_nil).symm
    have hd := last_of_trimmed line.trimmed hv
    rw [indented, hv, ← List.append_assoc] at hlast
    obtain ⟨-, hc⟩ := List.append_inj' hlast rfl
    exact List.singleton_inj.mp hc ▸ hd

end SwitchLine

theorem textLines_listing {unicode : Unicode} {header : Text} (h : SectionHeader unicode header)
    (indent : Nat) (lines : List SwitchLine) :
    textLines (listingText header indent lines) = header :: lines.map (·.indented indent) := by
  rw [listingText, textLines_line h.oneLine fun u c hlast => last_of_trimmed h.trimmed hlast]
  refine congrArg _ ?_
  induction lines with
  | nil => rfl
  | cons line lines ih =>
    rw [List.flatMap_cons, List.map_cons, ← ih, ← line.textLines_indented]
    simp [SwitchLine.indented]

def SwitchLine.Reads (line : SwitchLine) (row : PendingOption) : Prop :=
  ∃ help group startLine endLine, row = { line.row with help, group, startLine, endLine }

theorem SwitchLine.Reads.single {line : SwitchLine} {row : PendingOption} (h : line.Reads row) :
    row.Single ∧ row.switch = line.switch := by
  obtain ⟨help, group, startLine, endLine, rfl⟩ := h
  have hsingle := line.row_single
  exact ⟨⟨hsingle.place, hsingle.spellings, hsingle.long, hsingle.key, hsingle.negative,
    hsingle.bounded⟩, rfl⟩

structure Reading.Listed (indent : Nat) (done : List SwitchLine) (st : Reading) : Prop where
  options : List.Forall₂ SwitchLine.Reads (done.take 4096) st.options
  level : ∀ i, st.lastOption = some i → st.lastOptionIndent = indent

namespace Reading

variable {unicode : Unicode} {document : Text} {st : Reading} {indent : Nat}
  {done : List SwitchLine} {line : SwitchLine}

theorem Listed.length (h : st.Listed indent done) : st.options.length = min 4096 done.length := by
  rw [← h.options.length_eq, List.length_take]

theorem Listed.push (h : st.Listed indent done) {row : PendingOption} (hrow : line.Reads row) :
    (st.push row indent).Listed indent (done ++ [line]) := by
  have hlength := h.length
  unfold Reading.push
  split
  · refine ⟨?_, fun _ _ => rfl⟩
    have hroom : done.length < 4096 := by omega
    have hdone : done.take 4096 = done := List.take_of_length_le (by omega)
    have hnext : (done ++ [line]).take 4096 = done ++ [line] :=
      List.take_of_length_le (by rw [List.length_append, List.length_singleton]; omega)
    rw [hnext]
    exact List.rel_append (hdone ▸ h.options) (.cons hrow .nil)
  · refine ⟨?_, fun i hi => by cases hi⟩
    have hfull : 4096 ≤ done.length := by omega
    rw [List.take_append_of_le_length hfull]
    exact h.options

theorem readSyntax_listed (h : st.Listed indent done) (lineNo : Nat) (sectionRow : Bool) :
    (st.readSyntax unicode line.text indent lineNo sectionRow).Listed indent (done ++ [line]) := by
  have hparsed : (splitSpecHelp line.text st.group lineNo).2.2 =
      some (line.row.relocate st.group lineNo) := by
    rw [splitSpecHelp_relocate, line.parsed]
    rfl
  have hspec : ¬ ((splitSpecHelp line.text st.group lineNo).1 = [] ∨
      1024 < Text.utf8Len (splitSpecHelp line.text st.group lineNo).1) := by
    obtain ⟨hne, hsize⟩ := splitSpecHelp_spec hparsed
    exact not_or.mpr ⟨hne, by omega⟩
  simp only [readSyntax, line.dashed, true_or, if_true, if_neg hspec, hparsed]
  exact h.push ⟨_, _, _, _, rfl⟩

theorem exists_of_dashed {text : Text} (h : startsWith '-' text) : ∃ rest, text = '-' :: rest := by
  cases text with
  | nil => cases h
  | cons d rest =>
    have hd : d = '-' := by simpa [startsWith] using h
    exact ⟨rest, by rw [hd]⟩

theorem not_isUsage {text : Text} (h : startsWith '-' text) : isUsage text = false := by
  obtain ⟨rest, rfl⟩ := exists_of_dashed h
  simp [isUsage, Text.eqIgnoreAsciiCase, show ('-' : Char).toLower = '-' from rfl,
    show ('u' : Char).toLower = 'u' from rfl]

theorem not_isSectionHeader {text : Text} (h : startsWith '-' text) :
    isSectionHeader unicode text = false := by
  obtain ⟨rest, rfl⟩ := exists_of_dashed h
  have hcolon : (fun c : Char => c == ':') '-' = false := by decide
  have hkeep : trimEndOf ':' ('-' :: rest) = '-' :: trimEndOf ':' rest :=
    Text.trimEndMatches_append (p := fun c => c == ':') hcolon [] rest
  simp [isSectionHeader, hkeep, startsWith]

theorem utf8Len_blanks (n : Nat) : Text.utf8Len (List.replicate n ' ') = n := by
  induction n with
  | zero => rfl
  | succ n ih =>
    have hsize : (' ' : Char).utf8Size = 1 := rfl
    rw [List.replicate_succ, Text.utf8Len_cons, ih, hsize, Nat.add_comm]

theorem indent_indented (line : SwitchLine) (indent : Nat) :
    Text.utf8Len (line.indented indent) -
      Text.utf8Len (Text.trimStart (line.indented indent)) = indent := by
  obtain ⟨rest, hrest⟩ := exists_of_dashed line.dashed
  have hblank : ∀ c ∈ List.replicate indent ' ', Text.isWhitespace c = true := by
    intro c hc
    rw [List.eq_of_mem_replicate hc]
    decide
  have hdash : Text.isWhitespace '-' = false := by decide
  have hstart : Text.trimStart (line.indented indent) = line.text := by
    rw [SwitchLine.indented, Text.trimStart, List.dropWhile_append_of_pos hblank, hrest,
      List.dropWhile_cons_of_neg (by simp [hdash])]
  rw [hstart, SwitchLine.indented, Text.utf8Len_append, utf8Len_blanks]
  omega

theorem readLine_listed (h : st.Listed indent done) (n : Nat) :
    (readLine unicode document st (line.indented indent, n)).Listed indent (done ++ [line]) := by
  have htrim : Text.trim (line.indented indent) = line.text :=
    (trim_blanks indent line.text).trans line.trimmed
  have hdashes : line.text ≠ "--".toList := by
    intro heq
    have hparsed := line.parsed
    rw [heq] at hparsed
    cases hparsed
  have hlevel : st.lastOption.filter (fun _ => decide (st.lastOptionIndent < indent)) = none := by
    rw [Option.filter_eq_none_iff]
    intro i hi
    simp [h.level i hi]
  have hbracket : ¬ (st.inUsageWrap = true ∧ (startsWith '[' line.text = true ∨
      startsWith '(' line.text = true)) := by
    obtain ⟨rest, hrest⟩ := exists_of_dashed line.dashed
    simp [hrest, startsWith]
  simp only [readLine, htrim, indent_indented, line.text_ne_nil, if_false, hlevel, hdashes,
    not_isUsage line.dashed, not_isSectionHeader line.dashed, Bool.false_eq_true, hbracket]
  have hcontinues (st' : Reading) (sectionRow : Bool) (lineNo : Nat) :
      st'.lastOption.filter (fun _ => st'.continues (line.indented indent) line.text lineNo
        sectionRow) = none := by
    rw [Option.filter_eq_none_iff]
    intro i hi
    simp [continues, line.dashed]
  unfold readEntry
  simp only [hcontinues]
  have hmoved (sectionIndent : Option Nat) :
      Listed indent done { st with inUsageWrap := false, sectionIndent } := ⟨h.options, h.level⟩
  exact readSyntax_listed (hmoved _) _ _

theorem readLines_listed {lines : List SwitchLine} (h : st.Listed indent done) (n : Nat) :
    (((lines.map (·.indented indent)).zipIdx n).foldl (readLine unicode document) st).Listed indent
      (done ++ lines) := by
  induction lines generalizing st done n with
  | nil => simpa using h
  | cons line lines ih =>
    have hnext : (readLine unicode document st (line.indented indent, n)).Listed indent
        (done ++ [line]) := readLine_listed h n
    have hrest := ih hnext (n + 1)
    rw [List.append_assoc] at hrest
    exact hrest

theorem readLine_of_header {st : Reading} (hlast : st.lastOption = none) {header : Text}
    (h : SectionHeader unicode header) : readLine unicode document st (header, 0) =
      if isUsage header then { st with inUsageWrap := true, lastOption := none }
      else st.enterSection unicode header := by
  have hsection := h.section_header
  have hclosed : endsWith ':' header = true := by
    simp only [isSectionHeader, Bool.and_eq_true] at hsection
    exact hsection.1.1.1.1.1
  have hne : header ≠ [] := by
    rintro rfl
    cases hclosed
  have hdashes : header ≠ "--".toList := by
    rintro rfl
    revert hclosed
    decide
  simp only [readLine, h.trimmed, hne, if_false, hlast, Option.filter_none, hdashes, hsection, if_true]

theorem readLine_header {header : Text} (h : SectionHeader unicode header) :
    (readLine unicode document {} (header, 0)).Listed indent [] := by
  rw [readLine_of_header rfl h]
  split
  · exact ⟨.nil, fun i hi => by cases hi⟩
  · exact ⟨.nil, fun i hi => by cases hi⟩

theorem readText_listing {header : Text} (h : SectionHeader unicode header) (indent : Nat)
    (lines : List SwitchLine) :
    (readText unicode document (listingText header indent lines)).Listed indent lines := by
  rw [readText, textLines_listing h]
  exact readLines_listed (readLine_header h) 1

end Reading

namespace OptionDefinition

def flags (d : OptionDefinition) : List Text := d.spellings.map (·.flag)

def summary (d : OptionDefinition) : Summary :=
  (d.key, (d.spellings.map (·.view)).toFinset, d.arity.value)

end OptionDefinition

theorem confirmStyle_view (row : PendingOption) (s : Spelling) :
    (row.confirmStyle s).flag = s.flag ∧ (row.confirmStyle s).view = s.view := by
  unfold PendingOption.confirmStyle
  split <;> exact ⟨rfl, rfl⟩

theorem toDefinition_views (row : PendingOption) (document : Text) (scope : List Text) :
    (row.toDefinition document scope).spellings.map (·.view) = row.views := by
  simp [PendingOption.toDefinition, PendingOption.views, Function.comp_def,
    (confirmStyle_view row _).2]

theorem toDefinition_flags (row : PendingOption) (document : Text) (scope : List Text) :
    (row.toDefinition document scope).flags = row.flags := by
  simp [PendingOption.toDefinition, OptionDefinition.flags, PendingOption.flags, Function.comp_def,
    (confirmStyle_view row _).1]

theorem toDefinition_summary {row : PendingOption} (hplace : row.positional = none)
    (document : Text) (scope : List Text) :
    (row.toDefinition document scope).summary = row.summary := by
  have harity : (row.arityFact document).value = row.arity := by
    unfold PendingOption.arityFact PendingOption.arity
    rw [hplace]
    cases row.isBoolean <;> cases row.aliasConflict <;> cases arityForMetavar row.metavar <;> rfl
  rw [OptionDefinition.summary, toDefinition_views, PendingOption.summary]
  exact congrArg (fun arity => (row.finalKey, row.views.toFinset, arity)) harity

def Collected (lines : List SwitchLine) (definitions : List OptionDefinition) : Prop :=
  ∃ rows document scope, List.Forall₂ SwitchLine.Reads (lines.take 4096) rows ∧
    definitions = (keptOf rows).map (·.toDefinition document scope)

structure PairsWell (collect : List SwitchLine → List OptionDefinition) (lines : List SwitchLine) :
    Prop where
  order : ∀ others, others.Perm lines →
    ((collect others).map (·.summary)).toFinset = ((collect lines).map (·.summary)).toFinset
  once : ∀ line ∈ lines, ((collect lines).filter fun d => line.flag ∈ d.flags).length = 1
  polarity : ∀ n ∈ lines, n.switch.negated → ∀ d ∈ collect lines, ∀ s ∈ d.spellings,
    s.flag = n.flag → (s.polarity = some false ↔
      (∃ p ∈ lines, p.switch.key = n.switch.key ∧ p.switch.boolean ∧ ¬ p.switch.negated) ∨
        ∀ p ∈ lines, p.switch.key = n.switch.key → p.switch.negated)
  own : ∀ n ∈ lines, n.switch.negated → ∀ v ∈ lines, v.switch.boolean = false →
    v.switch.key = n.switch.key → ∀ d ∈ collect lines, n.flag ∈ d.flags → d.flags = [n.flag]

section Collecting

variable {lines : List SwitchLine} {rows : List PendingOption}

theorem reads_switches (h : List.Forall₂ SwitchLine.Reads lines rows) :
    switchesOf rows = lines.map (·.switch) := by
  induction h with
  | nil => rfl
  | cons hrow _ ih => exact List.cons_eq_cons.mpr ⟨hrow.single.2, ih⟩

theorem reads_single (h : List.Forall₂ SwitchLine.Reads lines rows) : ∀ r ∈ rows, r.Single := by
  induction h with
  | nil => simp
  | cons hrow _ ih => exact List.forall_mem_cons.mpr ⟨hrow.single.1, ih⟩

theorem reads_flags (h : List.Forall₂ SwitchLine.Reads lines rows) :
    rows.map (·.flag) = lines.map (·.flag) := by
  have hmap := congrArg (List.map Switch.flag) (reads_switches h)
  rwa [switchesOf, List.map_map, List.map_map] at hmap

theorem reads_lined (h : List.Forall₂ SwitchLine.Reads lines rows)
    (hflags : (lines.map (·.flag)).Nodup) : Lined rows :=
  ⟨reads_single h, reads_flags h ▸ hflags⟩

theorem exists_row_of_line (h : List.Forall₂ SwitchLine.Reads lines rows) {line : SwitchLine}
    (hline : line ∈ lines) : ∃ r ∈ rows, r.switch = line.switch := by
  have hmem : line.switch ∈ switchesOf rows := reads_switches h ▸ List.mem_map_of_mem hline
  exact List.mem_map.mp hmem

theorem exists_line_of_row (h : List.Forall₂ SwitchLine.Reads lines rows) {r : PendingOption}
    (hr : r ∈ rows) : ∃ line ∈ lines, line.switch = r.switch := by
  have hmem : r.switch ∈ lines.map (·.switch) := reads_switches h ▸ List.mem_map_of_mem hr
  exact List.mem_map.mp hmem

theorem keptOf_place (h : Lined rows) {row : PendingOption} (hrow : row ∈ keptOf rows) :
    row.positional = none := by
  obtain ⟨m, hm, rfl, -⟩ := mem_keptOf hrow
  rw [(detach_same _ m).1, h.place hm]

theorem mem_summaries (h : Lined rows) (hsep : Separable (switchesOf rows)) {p : Summary} :
    p ∈ (keptOf rows).map (·.summary) ↔ ∃ r ∈ rows, expected (switchesOf rows) r.switch = p := by
  rw [keptOf, h.keepRows_eq hsep, finalRows, detachLone_mergePairs, List.map_map, List.mem_map]
  constructor
  · rintro ⟨m, hm, rfl⟩
    obtain ⟨flag, hflag⟩ := List.exists_mem_of_ne_nil _ (h.flags_ne_nil hm)
    obtain ⟨r, hr, rfl⟩ := List.mem_map.mp
      (h.done.flags.mem_iff.mp (List.mem_flatMap.mpr ⟨m, hm, hflag⟩))
    exact ⟨r, hr, (h.summary_eq hsep hm hr hflag).symm⟩
  · rintro ⟨r, hr, rfl⟩
    obtain ⟨m, hm, hflag⟩ := h.exists_row hr
    exact ⟨m, hm, h.summary_eq hsep hm hr hflag⟩

theorem length_filter_flatMap {α β : Type} [BEq β] [LawfulBEq β] {f : α → List β} {xs : List α} {b : β}
    (hnodup : (xs.flatMap f).Nodup) (hb : b ∈ xs.flatMap f) :
    (xs.filter fun x => b ∈ f x).length = 1 := by
  induction xs with
  | nil => cases hb
  | cons x xs ih =>
    obtain ⟨-, hrest, hapart⟩ := List.nodup_append'.mp (List.flatMap_cons ▸ hnodup)
    by_cases hx : b ∈ f x
    · have hnone : xs.filter (fun y => b ∈ f y) = [] := by
        rw [List.filter_eq_nil_iff]
        intro y hy
        simpa using fun hmem => hapart hx (List.mem_flatMap.mpr ⟨y, hy, hmem⟩)
      rw [List.filter_cons_of_pos (by simpa using hx), hnone, List.length_singleton]
    · rw [List.filter_cons_of_neg (by simpa using hx)]
      have hmem : b ∈ xs.flatMap f := (List.mem_append.mp (List.flatMap_cons ▸ hb)).resolve_left hx
      exact ih hrest hmem

theorem Separable.perm {switches others : List Switch} (h : Separable switches)
    (hperm : others.Perm switches) : Separable others where
  names a ha b hb := h.names a (hperm.mem_iff.mp ha) b (hperm.mem_iff.mp hb)
  own n hn hnegated v hv hvalued hkey := by
    obtain ⟨hlength, hfree⟩ :=
      h.own n (hperm.mem_iff.mp hn) hnegated v (hperm.mem_iff.mp hv) hvalued hkey
    exact ⟨hlength, fun s hs => hfree s (hperm.mem_iff.mp hs)⟩

theorem Collected.exists_rows {definitions : List OptionDefinition} (h : Collected lines definitions)
    (hlength : lines.length ≤ 4096) (hflags : (lines.map (·.flag)).Nodup) :
    ∃ rows document scope, List.Forall₂ SwitchLine.Reads lines rows ∧ Lined rows ∧
      definitions = (keptOf rows).map (·.toDefinition document scope) := by
  obtain ⟨rows, document, scope, hreads, heq⟩ := h
  rw [List.take_of_length_le hlength] at hreads
  exact ⟨rows, document, scope, hreads, reads_lined hreads hflags, heq⟩

theorem summaries_eq (h : Lined rows) (document : Text) (scope : List Text) :
    ((keptOf rows).map (·.toDefinition document scope)).map (·.summary) =
      (keptOf rows).map (·.summary) := by
  rw [List.map_map]
  exact List.map_congr_left fun row hrow =>
    toDefinition_summary (keptOf_place h hrow) document scope

theorem mem_collected {definitions : List OptionDefinition} (h : Collected lines definitions)
    (hlength : lines.length ≤ 4096) (hflags : (lines.map (·.flag)).Nodup)
    (hsep : Separable (lines.map (·.switch))) {p : Summary} :
    p ∈ definitions.map (·.summary) ↔
      ∃ line ∈ lines, expected (lines.map (·.switch)) line.switch = p := by
  obtain ⟨rows, document, scope, hreads, hlined, rfl⟩ := h.exists_rows hlength hflags
  rw [← reads_switches hreads] at hsep ⊢
  rw [summaries_eq hlined, mem_summaries hlined hsep]
  constructor
  · rintro ⟨r, hr, rfl⟩
    obtain ⟨line, hline, heq⟩ := exists_line_of_row hreads hr
    exact ⟨line, hline, by rw [heq]⟩
  · rintro ⟨line, hline, rfl⟩
    obtain ⟨r, hr, heq⟩ := exists_row_of_line hreads hline
    exact ⟨r, hr, by rw [heq]⟩

theorem summary_of_flag {definitions : List OptionDefinition} (h : Collected lines definitions)
    (hlength : lines.length ≤ 4096) (hflags : (lines.map (·.flag)).Nodup)
    (hsep : Separable (lines.map (·.switch))) {line : SwitchLine} (hline : line ∈ lines)
    {d : OptionDefinition} (hd : d ∈ definitions) (hflag : line.flag ∈ d.flags) :
    d.summary = expected (lines.map (·.switch)) line.switch := by
  obtain ⟨rows, document, scope, hreads, hlined, rfl⟩ := h.exists_rows hlength hflags
  obtain ⟨row, hrow, rfl⟩ := List.mem_map.mp hd
  obtain ⟨r, hr, heq⟩ := exists_row_of_line hreads hline
  rw [← reads_switches hreads] at hsep ⊢
  rw [toDefinition_summary (keptOf_place hlined hrow), ← heq]
  obtain ⟨m, hm, rfl, hsame⟩ := mem_keptOf hrow
  have hname : r.flag = line.flag := congrArg Switch.flag heq
  rw [toDefinition_flags, ← hsame, ← hname] at hflag
  exact hlined.summary_eq hsep hm hr hflag

theorem expected_polarity {switches : List Switch} (hsep : Separable switches) {n : Switch}
    (hnegated : n.negated = true) (hflag : ∀ t ∈ switches, t.flag = n.flag → t = n)
    {polarity : Option Bool} (hview : (n.flag, polarity) ∈ (expected switches n).2.1) :
    polarity = some false ↔ (∃ p ∈ switches, p.key = n.key ∧ p.boolean ∧ ¬ p.negated) ∨
      ∀ p ∈ switches, p.key = n.key → p.negated := by
  cases hpartner : partner switches n with
  | none =>
    have hnone := partner_eq_none_iff.mp hpartner
    simp only [expected, hpartner, hnegated, if_true, Finset.mem_singleton, Prod.mk.injEq,
      true_and] at hview
    exact iff_of_true hview (.inr fun p hp hkey => (hnone p hp hkey).trans hnegated)
  | some other =>
    obtain ⟨hother, hkey, hside⟩ := (partner_eq_some_iff hsep).mp hpartner
    have hplain : other.negated = false :=
      Bool.of_not_eq_true fun htrue => hside (htrue.trans hnegated.symm)
    have hswitch : n.boolean = true := (Bool.and_eq_true _ _ ▸ hnegated).2
    cases hboolean : other.boolean with
    | true =>
      simp only [expected, hpartner, hswitch, hboolean, hnegated, hplain, and_self, if_true,
        Bool.not_true, Bool.not_false, Finset.mem_insert, Finset.mem_singleton, Prod.mk.injEq,
        true_and] at hview
      refine iff_of_true (hview.resolve_right fun hsame => ?_)
        (.inl ⟨other, hother, hkey, hboolean, by simp [hplain]⟩)
      rw [hflag other hother hsame.1.symm, hnegated] at hplain
      cases hplain
    | false =>
      simp only [expected, hpartner, hboolean, Bool.false_eq_true, and_false, if_false,
        Finset.mem_singleton, Prod.mk.injEq, true_and] at hview
      refine iff_of_false (by simp [hview]) ?_
      rintro (⟨p, hp, hname, hvalue, hpositive⟩ | hall)
      · have hsame : p = other := hsep.names p hp other hother (hname.trans hkey.symm)
          ((Bool.of_not_eq_true hpositive).trans hplain.symm)
        rw [hsame, hboolean] at hvalue
        cases hvalue
      · have hnegative := hall other hother hkey
        rw [hplain] at hnegative
        cases hnegative

theorem pairsWell_of_separable {collect : List SwitchLine → List OptionDefinition}
    (hcollect : ∀ lines, Collected lines (collect lines)) (hlength : lines.length ≤ 4096)
    (hflags : (lines.map (·.flag)).Nodup) (hsep : Separable (lines.map (·.switch))) :
    PairsWell collect lines where
  order others hperm := by
    have hswitches := hperm.map (·.switch)
    refine Finset.ext fun p => ?_
    rw [List.mem_toFinset, List.mem_toFinset, mem_collected (hcollect lines) hlength hflags hsep,
      mem_collected (hcollect others) (hperm.length_eq ▸ hlength)
        ((hperm.map _).nodup_iff.mpr hflags) (hsep.perm hswitches)]
    refine exists_congr fun line => and_congr hperm.mem_iff ?_
    rw [expected_perm hsep (fun s => hswitches.mem_iff)]
  once line hline := by
    obtain ⟨rows, document, scope, hreads, hlined, heq⟩ := (hcollect lines).exists_rows hlength hflags
    obtain ⟨r, hr, hswitch⟩ := exists_row_of_line hreads hline
    have hflag : r.flag = line.flag := congrArg Switch.flag hswitch
    have hall : (collect lines).flatMap (·.flags) = (mergePairs rows).flatMap (·.flags) := by
      rw [heq, List.flatMap_map, ← finalRows_flags, keptOf,
        hlined.keepRows_eq (reads_switches hreads ▸ hsep)]
      exact List.flatMap_congr fun row _ => toDefinition_flags row document scope
    refine length_filter_flatMap (hall ▸ hlined.flags_nodup) ?_
    rw [hall]
    obtain ⟨m, hm, hmem⟩ := hlined.exists_row hr
    exact List.mem_flatMap.mpr ⟨m, hm, hflag ▸ hmem⟩
  polarity n hn hnegated d hd s hs hflag := by
    have hmem : n.flag ∈ d.flags := List.mem_map.mpr ⟨s, hs, hflag⟩
    have hsummary := summary_of_flag (hcollect lines) hlength hflags hsep hn hd hmem
    have hview : (n.flag, s.polarity) ∈ d.summary.2.1 := by
      refine List.mem_toFinset.mpr (List.mem_map.mpr ⟨s, hs, ?_⟩)
      rw [Spelling.view, hflag]
    rw [hsummary] at hview
    have hunique : ∀ t ∈ lines.map (·.switch), t.flag = n.switch.flag → t = n.switch := by
      intro t ht hsame
      obtain ⟨line, hline, rfl⟩ := List.mem_map.mp ht
      exact congrArg _ (Lists.eq_of_key_eq hflags hline hn hsame)
    have hexpected := expected_polarity hsep hnegated hunique hview
    simp only [List.forall_mem_map] at hexpected
    simpa only [List.mem_map, exists_exists_and_eq_and] using hexpected
  own n hn hnegated v hv hvalued hkey d hd hflag := by
    obtain ⟨rows, document, scope, hreads, hlined, heq⟩ :=
      (hcollect lines).exists_rows hlength hflags
    obtain ⟨row, hrow, rfl⟩ := List.mem_map.mp (heq ▸ hd)
    obtain ⟨r, hr, hswitch⟩ := exists_row_of_line hreads hn
    obtain ⟨w, hw, hswitchw⟩ := exists_row_of_line hreads hv
    have hrflag : r.flag = n.flag := congrArg Switch.flag hswitch
    have hnegative : r.negativeOnly = true := by
      rw [hlined.single_negative hr, hswitch]
      exact hnegated
    have hwvalued : w.isBoolean = false := (congrArg Switch.boolean hswitchw).trans hvalued
    have hwplain : w.negativeOnly = false := by
      rw [hlined.single_negative hw, Switch.negated]
      change (_ && w.isBoolean) = false
      rw [hwvalued, Bool.and_false]
    have hname : w.key = r.key :=
      (congrArg Switch.key hswitchw).trans (hkey.trans (congrArg Switch.key hswitch).symm)
    have honly : OnlyValued rows r.key := by
      intro c hc hplain hkeyc
      rw [hlined.eq_of_name (reads_switches hreads ▸ hsep) hc hw (hkeyc.trans hname.symm)
        (hplain.trans hwplain.symm), hwvalued]
    rw [toDefinition_flags] at hflag ⊢
    rw [← hrflag] at hflag ⊢
    exact (hlined.kept_alone hr hnegative honly hrow hflag).1

theorem exists_definition {definitions : List OptionDefinition} {flag : Text}
    (h : (definitions.filter fun d => flag ∈ d.flags).length = 1) :
    ∃ d ∈ definitions, flag ∈ d.flags := by
  obtain ⟨d, hd⟩ := List.length_eq_one_iff.mp h
  have hmem : d ∈ definitions.filter fun d => flag ∈ d.flags := hd ▸ List.mem_cons_self
  obtain ⟨hmem, hflag⟩ := List.mem_filter.mp hmem
  exact ⟨d, hmem, by simpa using hflag⟩

theorem flag_of_definition (h : Lined rows) {row : PendingOption} (hrow : row ∈ keptOf rows)
    {flag : Text} (hflag : flag ∈ row.flags) : flag ∈ rows.map (·.flag) := by
  obtain ⟨m, hm, -, hsame⟩ := mem_keptOf hrow
  exact h.done.flags.mem_iff.mp (List.mem_flatMap.mpr ⟨m, hm, hsame ▸ hflag⟩)

theorem length_of_once {definitions : List OptionDefinition} (h : Collected lines definitions)
    (hflags : (lines.map (·.flag)).Nodup)
    (honce : ∀ line ∈ lines, (definitions.filter fun d => line.flag ∈ d.flags).length = 1) :
    lines.length ≤ 4096 := by
  by_contra hlong
  obtain ⟨rows, document, scope, hreads, rfl⟩ := h
  have hsplit : (lines.take 4096).map (·.flag) ++ (lines.drop 4096).map (·.flag) =
      lines.map (·.flag) := by rw [← List.map_append, List.take_append_drop]
  obtain ⟨hkept, -, hapart⟩ := List.nodup_append'.mp (hsplit ▸ hflags)
  have hlost : lines[4096] ∈ lines.drop 4096 := by
    rw [List.drop_eq_getElem_cons (by omega)]
    exact List.mem_cons_self
  obtain ⟨d, hd, hflag⟩ := exists_definition (honce _ (List.mem_of_mem_drop hlost))
  obtain ⟨row, hrow, rfl⟩ := List.mem_map.mp hd
  rw [toDefinition_flags] at hflag
  have hmem := flag_of_definition (reads_lined hreads hkept) hrow hflag
  rw [reads_flags hreads] at hmem
  exact hapart hmem (List.mem_map_of_mem hlost)

theorem exists_two_first {α : Type} {xs : List α} {a b : α} (ha : a ∈ xs) (hb : b ∈ xs)
    (hne : a ≠ b) : ∃ rest, (a :: b :: rest).Perm xs := by
  obtain ⟨before, after, rfl⟩ := List.append_of_mem ha
  have hperm : (a :: (before ++ after)).Perm (before ++ a :: after) := List.perm_middle.symm
  obtain ⟨rest, rest', hsplit⟩ :=
    List.append_of_mem ((List.mem_cons.mp (hperm.mem_iff.mpr hb)).resolve_left (Ne.symm hne))
  refine ⟨rest ++ rest', .trans (.cons a ?_) hperm⟩
  rw [hsplit]
  exact List.perm_middle.symm

theorem first_has_no_polarity {a b : SwitchLine} {rest : List SwitchLine}
    (hreads : List.Forall₂ SwitchLine.Reads (a :: b :: rest) rows) (hlined : Lined rows)
    (ha : a.switch.negated = true) (hb : b.switch.negated = true)
    (hkey : a.switch.key = b.switch.key) {c : SwitchLine} (hc : c ∈ rest)
    (hplain : c.switch.negated = false) (hname : c.switch.key = a.switch.key)
    {row : PendingOption} (hrow : row ∈ keptOf rows) : (a.flag, some false) ∉ row.views := by
  intro hview
  obtain ⟨r, hr, hswitchc⟩ := exists_row_of_line hreads
    (List.mem_cons_of_mem a (List.mem_cons_of_mem b hc))
  cases hreads with
  | cons hreada hreads =>
    rename_i na rows
    cases hreads with
    | cons hreadb hreads =>
      rename_i nb rows
      obtain ⟨hsingle, hswitch⟩ := hreada.single
      obtain ⟨hsingleb, hswitchb⟩ := hreadb.single
      have hnegative : na.negativeOnly = true := by rw [hsingle.negative, hswitch, ha]
      have hnegativeb : nb.negativeOnly = true := by rw [hsingleb.negative, hswitchb, hb]
      have hkeys : na.key = nb.key :=
        (congrArg Switch.key hswitch).trans (hkey.trans (congrArg Switch.key hswitchb).symm)
      have hflag : na.flag = a.flag := congrArg Switch.flag hswitch
      have hstays := first_stays hlined.single hnegative hnegativeb hkeys
      have htaken : na.key ∈ takenKeys (na :: nb :: rows) := by
        refine hlined.mem_takenKeys.mpr ⟨r, hr, ?_, ?_⟩
        · rw [hlined.single_negative hr, hswitchc, hplain]
        · exact (congrArg Switch.key hswitchc).trans (hname.trans (congrArg Switch.key hswitch).symm)
      obtain ⟨m, hm, rfl, hsame⟩ := mem_keptOf hrow
      have hmem : na.flag ∈ m.flags := by
        have hviews : na.flag ∈ (m.detach (takenKeys (na :: nb :: rows))).views.map (·.1) :=
          List.mem_map.mpr ⟨_, hview, hflag.symm⟩
        rw [hsame]
        simpa [PendingOption.views, PendingOption.flags, Spelling.view] using hviews
      obtain rfl : m = na := hlined.row_unique hm hstays hmem (by rw [hsingle.flags]; simp)
      obtain ⟨style, hspellings⟩ := hsingle.spellings
      rw [detach_negation hsingle hnegative, if_pos htaken] at hview
      simp [PendingOption.views, hspellings, Spelling.view] at hview

theorem two_negations {collect : List SwitchLine → List OptionDefinition}
    (hcollect : ∀ lines, Collected lines (collect lines)) (hflags : (lines.map (·.flag)).Nodup)
    (hlength : lines.length ≤ 4096) (h : PairsWell collect lines) {a b c : SwitchLine}
    (ha : a ∈ lines) (hb : b ∈ lines) (hc : c ∈ lines) (hnegated : a.switch.negated = true)
    (hnegatedb : b.switch.negated = true) (hkey : a.switch.key = b.switch.key)
    (hplain : c.switch.negated = false) (hboolean : c.switch.boolean = true)
    (hname : c.switch.key = a.switch.key) : a = b := by
  by_contra hne
  obtain ⟨rest, hperm⟩ := exists_two_first ha hb hne
  have hrest : c ∈ rest := by
    rcases List.mem_cons.mp (hperm.mem_iff.mpr hc) with rfl | hc
    · rw [hnegated] at hplain
      cases hplain
    · rcases List.mem_cons.mp hc with rfl | hc
      · rw [hnegatedb] at hplain
        cases hplain
      · exact hc
  obtain ⟨d, hd, hflag⟩ := exists_definition (h.once a ha)
  obtain ⟨s, hs, hname'⟩ := List.mem_map.mp hflag
  have hpolarity : s.polarity = some false :=
    (h.polarity a ha hnegated d hd s hs hname').mpr
      (.inl ⟨c, hc, hname, hboolean, by simp [hplain]⟩)
  have hview : (a.flag, some false) ∈ d.summary.2.1 := by
    refine List.mem_toFinset.mpr (List.mem_map.mpr ⟨s, hs, ?_⟩)
    rw [Spelling.view, hname', hpolarity]
  -- Another order of the lines has the same summaries.
  have hsummary : d.summary ∈ (collect (a :: b :: rest)).map (·.summary) := by
    rw [← List.mem_toFinset, h.order _ hperm, List.mem_toFinset]
    exact List.mem_map_of_mem hd
  obtain ⟨d', hd', hsame⟩ := List.mem_map.mp hsummary
  obtain ⟨rows, document, scope, hreads, hlined, heq⟩ := (hcollect (a :: b :: rest)).exists_rows
    (hperm.length_eq ▸ hlength) ((hperm.map _).nodup_iff.mpr hflags)
  obtain ⟨row, hrow, rfl⟩ := List.mem_map.mp (heq ▸ hd')
  refine first_has_no_polarity hreads hlined hnegated hnegatedb hkey hrest hplain hname hrow ?_
  rw [← hsame, OptionDefinition.summary, toDefinition_views] at hview
  exact List.mem_toFinset.mp hview

theorem separable_of_pairsWell {collect : List SwitchLine → List OptionDefinition}
    (hcollect : ∀ lines, Collected lines (collect lines)) (hflags : (lines.map (·.flag)).Nodup)
    (h : PairsWell collect lines) :
    lines.length ≤ 4096 ∧ Separable (lines.map (·.switch)) := by
  have hlength := length_of_once (hcollect lines) hflags h.once
  obtain ⟨rows, document, scope, hreads, hlined, heq⟩ :=
    (hcollect lines).exists_rows hlength hflags
  have hcovers : Covers rows := by
    intro r hr
    obtain ⟨line, hline, hswitch⟩ := exists_line_of_row hreads hr
    obtain ⟨d, hd, hflag⟩ := exists_definition (h.once line hline)
    obtain ⟨row, hrow, rfl⟩ := List.mem_map.mp (heq ▸ hd)
    rw [toDefinition_flags] at hflag
    have hname : line.flag = r.flag := congrArg Switch.flag hswitch
    exact ⟨row, hrow, hname ▸ hflag⟩
  refine ⟨hlength, ?_, ?_⟩
  · intro s hs t ht hkey hside
    obtain ⟨a, ha, rfl⟩ := List.mem_map.mp hs
    obtain ⟨b, hb, rfl⟩ := List.mem_map.mp ht
    obtain ⟨r, hr, hswitch⟩ := exists_row_of_line hreads ha
    obtain ⟨n, hn, hswitch'⟩ := exists_row_of_line hreads hb
    rw [← hswitch, ← hswitch'] at hkey hside ⊢
    rw [← hlined.single_negative hr, ← hlined.single_negative hn] at hside
    cases hnegative : r.negativeOnly with
    | false =>
      rw [hlined.options_distinct hcovers hr hnegative hn (hside ▸ hnegative) hkey]
    | true =>
      by_cases hvalued : OnlyValued rows r.key
      · rw [hlined.negations_distinct hcovers hr hnegative hn (hside ▸ hnegative) hkey hvalued]
      · obtain ⟨c, hc, hplain, hname, hboolean⟩ : ∃ c ∈ rows, c.negativeOnly = false ∧
            c.key = r.key ∧ c.isBoolean = true := by
          simpa [OnlyValued] using hvalued
        obtain ⟨line, hline, hswitchc⟩ := exists_line_of_row hreads hc
        have hsame : a = b := by
          refine two_negations hcollect hflags hlength h ha hb hline ?_ ?_ ?_ ?_ ?_ ?_
          · rw [← hswitch, ← hlined.single_negative hr, hnegative]
          · rw [← hswitch', ← hlined.single_negative hn, ← hside, hnegative]
          · rw [← hswitch, ← hswitch', hkey]
          · rw [hswitchc, ← hlined.single_negative hc, hplain]
          · rw [hswitchc]
            exact hboolean
          · rw [hswitchc, ← hswitch]
            exact hname
        rw [hswitch, hswitch', hsame]
  · intro s hs hnegated t ht hvalued hkey
    obtain ⟨n, hn, rfl⟩ := List.mem_map.mp (reads_switches hreads ▸ hs)
    obtain ⟨v, hv, rfl⟩ := List.mem_map.mp (reads_switches hreads ▸ ht)
    have hnegative : n.negativeOnly = true := by rw [hlined.single_negative hn, hnegated]
    have hplain : v.negativeOnly = false := by
      rw [hlined.single_negative hv, Switch.negated, hvalued, Bool.and_false]
    obtain ⟨hshort, hfree⟩ := hlined.own_free hcovers hn hnegative hv hplain hvalued hkey
    refine ⟨hshort, ?_⟩
    rw [← reads_switches hreads]
    exact List.forall_mem_map.mpr hfree

end Collecting

def ScopedReport.collect (unicode : Unicode) (report : ScopedReport) (header : Text) (indent : Nat)
    (lines : List SwitchLine) : List OptionDefinition :=
  { report with stdoutText := listingText header indent lines }.definitions unicode

theorem collect_collected {unicode : Unicode} {header : Text} (h : SectionHeader unicode header)
    (report : ScopedReport) (indent : Nat) (lines : List SwitchLine) :
    Collected lines (report.collect unicode header indent lines) := by
  have hshown : Text.trim (listingText header indent lines) ≠ [] := by
    intro hblank
    have hall := Text.trim_eq_nil_iff.mp hblank
    have hheader : Text.trim header = [] :=
      Text.trim_eq_nil_iff.mpr fun c hc => hall c (List.mem_append_left _ hc)
    have hsection := h.section_header
    rw [← h.trimmed, hheader] at hsection
    cases hsection
  have hdocument : { report with
      stdoutText := listingText header indent lines }.document =
        ("stdout".toList, listingText header indent lines) := by
    rw [ScopedReport.document, if_neg fun hboth => hshown hboth.1]
  have hlisted : (Reading.readText unicode "stdout".toList
      (listingText header indent lines)).Listed indent lines := Reading.readText_listing h indent lines
  refine ⟨_, "stdout".toList, report.scope, hlisted.options, ?_⟩
  simp only [ScopedReport.collect, ScopedReport.definitions, ScopedReport.keptRows,
    ScopedReport.reading, hdocument]
  rfl

/-- Exactly when pairing ignores the order of the lines and loses no flag. -/
theorem pairsWell_iff {unicode : Unicode} {header : Text} (h : SectionHeader unicode header)
    (report : ScopedReport) (indent : Nat) {lines : List SwitchLine}
    (hflags : (lines.map (·.flag)).Nodup) :
    PairsWell (report.collect unicode header indent) lines ↔
      lines.length ≤ 4096 ∧ Separable (lines.map (·.switch)) :=
  ⟨separable_of_pairsWell (collect_collected h report indent) hflags,
    fun hboth => pairsWell_of_separable (collect_collected h report indent) hboth.1 hflags hboth.2⟩

def SwitchLine.ofText (text : Text) : Option SwitchLine :=
  match h : (splitSpecHelp text [] 0).2.2 with
  | none => none
  | some row =>
    if hshape : row.flags = [row.flag] ∧ startsWithDashes row.flag = true ∧
        startsWith '-' text = true ∧ Text.trim text = text ∧ '\n' ∉ text then
      some ⟨text, row, h, hshape.1, hshape.2.1, hshape.2.2.1, hshape.2.2.2.1, hshape.2.2.2.2⟩
    else none

def switchLines (texts : List String) : List SwitchLine :=
  texts.filterMap fun text => SwitchLine.ofText text.toList

instance (switches : List Switch) : Decidable (Separable switches) :=
  decidable_of_iff
    ((∀ a ∈ switches, ∀ b ∈ switches, a.key = b.key → a.negated = b.negated → a = b) ∧
      ∀ n ∈ switches, n.negated → ∀ v ∈ switches, v.boolean = false → v.key = n.key →
        Text.utf8Len (ownKey n.flag) ≤ 128 ∧ ∀ s ∈ switches, s.key ≠ ownKey n.flag)
    ⟨fun h => ⟨h.1, h.2⟩, fun h => ⟨h.names, h.own⟩⟩

theorem optionsHeader : SectionHeader .asciiOnly "Options:".toList := by
  constructor <;> decide

theorem pairsWell_iff_pair :
    (switchLines ["--x  enable", "--no-x  disable", "--no-y", "--z <N>", "--no-z"]).length = 5 ∧
      PairsWell ((helpOf "").collect .asciiOnly "Options:".toList 2)
        (switchLines ["--x  enable", "--no-x  disable", "--no-y", "--z <N>", "--no-z"]) :=
  ⟨by decide +kernel,
    (pairsWell_iff optionsHeader (helpOf "") 2 (by decide +kernel)).mpr (by decide +kernel)⟩

/-- The own key of one negation may be the name of another, which then is lost. -/
theorem negation_of_negation_lost :
    ((switchLines ["--x V", "--no-x", "--no-no-x"]).map (·.flag)).Nodup ∧
      ∃ line ∈ switchLines ["--x V", "--no-x", "--no-no-x"],
        (((helpOf "").collect .asciiOnly "Options:".toList 2
          (switchLines ["--x V", "--no-x", "--no-no-x"])).filter fun d =>
            line.flag ∈ d.flags).length ≠ 1 := by
  decide +kernel

end AioLM.Options
