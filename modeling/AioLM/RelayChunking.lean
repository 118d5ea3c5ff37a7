import Mathlib.Data.Bool.AllAny
import AioLM.SseRelay

/-!
How much the relayed values depend on where the transport cuts the stream. The
loops decode every chunk on its own, so a cut inside a character of a data line
is seen by the client, and a cut anywhere else is not.
-/

set_option autoImplicit false

namespace AioLM.Gateway

open Framing Utf8

/-- The values applied and the deltas written for these chunks and for their
bytes in one chunk agree, whatever the JSON parser reads, when both stay under
the pending limit. -/
def SameRelay {ε : Type} (relay : (Text → Option Json) → List (List UInt8) → Relayed)
    (deltas : Relayed → List ε) (chunks : List (List UInt8)) : Prop :=
  ∀ decode, (relay decode chunks).error = none →
    (relay decode [chunks.flatten]).error = none →
    (relay decode chunks).applied = (relay decode [chunks.flatten]).applied ∧
      deltas (relay decode chunks) = deltas (relay decode [chunks.flatten])

def DataLine (line : List UInt8) : Prop := dataWord <+: lossy line

/-- The unterminated last line is trimmed before it is read. -/
def DataTail (tail : List UInt8) : Prop := dataWord <+: Text.trim (lossy tail)

instance : DecidablePred DataLine := fun line =>
  inferInstanceAs (Decidable (dataWord <+: lossy line))

instance : DecidablePred DataTail := fun tail =>
  inferInstanceAs (Decidable (dataWord <+: Text.trim (lossy tail)))

structure ValidData (bytes : List UInt8) : Prop where
  line : ∀ line ∈ lines newline bytes, DataLine line → Valid .start line
  tail : DataTail (rest newline bytes) → Valid .start (rest newline bytes)

/-- No chunk boundary falls inside a character of a data line. -/
structure Whole (chunks : List (List UInt8)) : Prop where
  line : ∀ tokens ∈ lines (some newline) (marks chunks),
    DataLine tokens.reduceOption → Clean .start tokens
  tail : DataTail (rest (some newline) (marks chunks)).reduceOption →
    Clean .start (rest (some newline) (marks chunks))

/-- Only blanks follow the first line that ends the answer. -/
def QuietStream (bytes : List UInt8) : Prop :=
  ∀ before line after, lossy bytes = before ++ line ++ '\n' :: after →
    rest '\n' before = [] → '\n' ∉ line → IsDone line →
    ∀ c ∈ after, Text.isWhitespace c = true

theorem smudged_lossy (tokens : List (Option UInt8)) :
    Smudged (lossy tokens.reduceOption) (decodeCut .start tokens) :=
  smudged_decodeCut (s := .start) trivial tokens

theorem dataWord_clean : replacement ∉ dataWord := by decide

theorem data_of_cut {tokens : List (Option UInt8)} (h : dataWord <+: decodeCut .start tokens) :
    DataLine tokens.reduceOption := by
  obtain ⟨q', hq'⟩ := h
  obtain ⟨q, hq, -⟩ := Smudged.of_head (hq' ▸ smudged_lossy tokens) dataWord_clean
  exact ⟨q, hq.symm⟩

theorem isPrefix_trim_data {t : Text} : dataWord <+: Text.trim t ↔
    ∃ blanks after, (∀ c ∈ blanks, Text.isWhitespace c = true) ∧
      t = blanks ++ dataWord ++ after :=
  Text.isPrefix_trim_iff (show Text.isWhitespace 'd' = false by decide)
    (show Text.isWhitespace ':' = false by decide) "ata".toList

theorem tail_data_of_cut {tokens : List (Option UInt8)}
    (h : dataWord <+: Text.trim (decodeCut .start tokens)) :
    DataTail tokens.reduceOption := by
  obtain ⟨blanks, after', hblanks, heq⟩ := isPrefix_trim_data.mp h
  have hclean : replacement ∉ blanks ++ dataWord := by
    intro hmem
    rcases List.mem_append.mp hmem with hmem | hmem
    · exact absurd (hblanks _ hmem) (by decide)
    · exact dataWord_clean hmem
  obtain ⟨after, hafter, -⟩ := Smudged.of_head (heq ▸ smudged_lossy tokens) hclean
  exact isPrefix_trim_data.mpr ⟨blanks, after, hblanks, hafter⟩

theorem lineValue_decodeCut {decode : Text → Option Json} {tokens : List (Option UInt8)}
    (h : DataLine tokens.reduceOption → Clean .start tokens) :
    lineValue decode (decodeCut .start tokens) =
      lineValue decode (lossy tokens.reduceOption) := by
  by_cases hdata : DataLine tokens.reduceOption
  · rw [decodeCut_clean (h hdata)]
    rfl
  · rw [lineValue_of_not_data (mt data_of_cut hdata), lineValue_of_not_data hdata]

theorem tailValues_decodeCut {decode : Text → Option Json} {skips : Text → Bool}
    {tokens : List (Option UInt8)} (h : DataTail tokens.reduceOption → Clean .start tokens) :
    tailValues decode skips (decodeCut .start tokens) =
      tailValues decode skips (lossy tokens.reduceOption) := by
  by_cases hdata : DataTail tokens.reduceOption
  · rw [decodeCut_clean (h hdata)]
    rfl
  · rw [tailValues_of_not_data (mt tail_data_of_cut hdata), tailValues_of_not_data hdata]

theorem textValues_cut (decode : Text → Option Json) (skips : Text → Bool)
    (tokens : List (Option UInt8)) :
    textValues decode skips (decodeCut .start tokens) =
      (lines (some newline) tokens).filterMap
          (fun line => lineValue decode (decodeCut .start line)) ++
        tailValues decode skips (decodeCut .start (rest (some newline) tokens)) := by
  obtain ⟨hlines, hrest⟩ := frames_decodeCut tokens
  rw [textValues, hlines, hrest, List.filterMap_map]
  rfl

theorem textValues_uncut (decode : Text → Option Json) (skips : Text → Bool)
    (tokens : List (Option UInt8)) :
    textValues decode skips (lossy tokens.reduceOption) =
      (lines (some newline) tokens).filterMap
          (fun line => lineValue decode (lossy line.reduceOption)) ++
        tailValues decode skips (lossy (rest (some newline) tokens).reduceOption) := by
  obtain ⟨hlines, hrest⟩ := frames_lossy tokens
  rw [textValues, hlines, hrest, List.filterMap_map]
  rfl

theorem textValues_whole {chunks : List (List UInt8)} (h : Whole chunks)
    (decode : Text → Option Json) (skips : Text → Bool) :
    textValues decode skips (chunks.flatMap lossy) =
      textValues decode skips (lossy chunks.flatten) := by
  rw [← decodeCut_marks, ← reduceOption_marks, textValues_cut, textValues_uncut,
    tailValues_decodeCut h.tail]
  congr 1
  exact List.filterMap_congr fun tokens htokens => lineValue_decodeCut (h.line tokens htokens)

theorem isDone_clean {line : Text} (h : IsDone line) : replacement ∉ line := by
  obtain ⟨data, hdata, hdone⟩ := h
  have hline := Text.stripPrefix_eq_some.mp hdata
  have hcount : line.count replacement = 0 := by
    rw [← Text.count_trimEndMatches (p := fun c => c = '\r') (by decide) line, hline,
      List.count_append, ← Text.count_trim (c := replacement) (by decide) data, hdone]
    decide
  exact List.count_eq_zero.mp hcount

/-- Cuts add no line that ends the answer and nothing but broken blanks behind
the one there is. -/
theorem quiet_of_smudged {t t' : Text} (h : Smudged t t')
    (hquiet : ∀ before line after, t = before ++ line ++ '\n' :: after →
      rest '\n' before = [] → '\n' ∉ line → IsDone line →
      ∀ c ∈ after, Text.isWhitespace c = true) : QuietAfterDone t' := by
  intro before' line after' ht' hbefore' hline hdone
  have hnewline : '\n' ≠ replacement := by decide
  obtain ⟨front, after, rfl, hfront, hafter⟩ := (ht' ▸ h).split hnewline
  have hsplit : ∃ before, front = before ++ line ∧ rest '\n' before = [] := by
    rcases List.eq_nil_or_concat before' with rfl | ⟨init, last, hlast⟩
    · exact ⟨[], hfront.eq_of_clean (isDone_clean hdone), rfl⟩
    · rw [List.concat_eq_append] at hlast
      subst hlast
      have hlast : last = '\n' := by
        by_contra hne
        have hrest := (frames_append '\n' init [last]).2
        have hnot : '\n' ∉ rest '\n' init ++ [last] := by
          simp [rest_not_mem, Ne.symm hne]
        rw [hbefore', rest_of_not_mem hnot] at hrest
        simp at hrest
      subst hlast
      obtain ⟨init', last', rfl, -, hl⟩ : ∃ b a, front = b ++ '\n' :: a ∧ Smudged b init ∧
          Smudged a line := Smudged.split (by simpa using hfront) hnewline
      obtain rfl := hl.eq_of_clean (isDone_clean hdone)
      refine ⟨init' ++ ['\n'], by simp, ?_⟩
      rw [(frames_append '\n' init' ['\n']).2]
      exact rest_line (rest_not_mem init') []
  obtain ⟨before, rfl, hbefore⟩ := hsplit
  intro c hc
  rcases hafter.mem hc with hmem | heq
  · exact .inl (hquiet before line after rfl hbefore hline hdone c hmem)
  · exact .inr heq

theorem quiet_chunks {chunks : List (List UInt8)} (h : QuietStream chunks.flatten) :
    QuietAfterDone (chunks.flatMap lossy) := by
  have hsmudged := smudged_lossy (marks chunks)
  rw [reduceOption_marks, decodeCut_marks] at hsmudged
  exact quiet_of_smudged hsmudged h

theorem streamResponses_applied {decode : Text → Option Json} {chunks : List (List UInt8)}
    (hok : (streamResponses decode chunks).error = none) :
    (streamResponses decode chunks).applied =
      textValues decode (fun _ => false) (chunks.flatMap lossy) :=
  relayFrom_applied chunks [] hok (.inl (by simp)) (by simp)

theorem streamResponse_applied {decode : Text → Option Json} {chunks : List (List UInt8)}
    (hquiet : QuietStream chunks.flatten)
    (hok : (streamResponse decode chunks).error = none) :
    (streamResponse decode chunks).applied =
      textValues decode (fun tail => tail = "data: [DONE]".toList) (chunks.flatMap lossy) :=
  relayFrom_applied chunks [] hok (.inl (by simp)) (fun _ => quiet_chunks hquiet)

def literal (t : Text) : Option Json := some (.string t)

theorem lineValue_literal {line : Text} (hdata : dataWord <+: line) (hdone : ¬ IsDone line) :
    ∃ t, lineValue literal line = some (.string t) ∧
      t.count replacement = line.count replacement := by
  obtain ⟨data, hline⟩ := dataWord_trimCr.mpr hdata
  have hstrip : Text.stripPrefix "data:".toList
      (Text.trimEndMatches (fun c => c = '\r') line) = some data :=
    Text.stripPrefix_eq_some.mpr hline.symm
  have hnot : Text.trim data ≠ "[DONE]".toList := fun h => hdone ⟨data, hstrip, h⟩
  refine ⟨Text.trim data, ?_, ?_⟩
  · simp only [lineValue, readLine, hstrip, hnot, if_false, literal]
  · rw [Text.count_trim (by decide), ← Text.count_trimEndMatches (p := fun c => c = '\r')
      (by decide) line, ← hline, List.count_append]
    simp [List.count_eq_zero.mpr dataWord_clean]

theorem lineValue_literal_none {line : Text} (h : IsDone line) (decode : Text → Option Json) :
    lineValue decode line = none := by
  obtain ⟨data, hdata, hdone⟩ := h
  simp only [lineValue, readLine, hdata, hdone, if_true]

theorem lineValue_literal_ne {line line' : Text} (hdata' : dataWord <+: line')
    (hdata : dataWord <+: line) (h : line.count replacement < line'.count replacement) :
    lineValue literal line' ≠ lineValue literal line := by
  have hdone' : ¬ IsDone line' := by
    intro hd
    have := List.count_eq_zero.mpr (isDone_clean hd)
    omega
  obtain ⟨t', heq', hcount'⟩ := lineValue_literal hdata' hdone'
  intro heq
  by_cases hdone : IsDone line
  · rw [heq', lineValue_literal_none hdone] at heq
    simp at heq
  · obtain ⟨t, ht, hcount⟩ := lineValue_literal hdata hdone
    rw [heq', ht] at heq
    obtain rfl : t' = t := by simpa using heq
    omega

theorem tailValues_literal {t : Text} (h : dataWord <+: Text.trim t) :
    ∃ u, tailValues literal (fun _ => false) t = [.string u] ∧
      u.count replacement = t.count replacement := by
  obtain ⟨data, hdata⟩ := h
  have hne : Text.trim t ≠ [] := by
    rw [← hdata]
    simp [dataWord]
  have hstrip : Text.stripPrefix "data:".toList (Text.trim t) = some data :=
    Text.stripPrefix_eq_some.mpr hdata.symm
  refine ⟨Text.trim data, ?_, ?_⟩
  · simp only [tailValues, hne, hstrip, literal, Bool.false_eq_true, or_self, if_false,
      Option.toList_some]
  · rw [Text.count_trim (by decide), ← Text.count_trim (c := replacement) (by decide) t, ← hdata,
      List.count_append]
    simp [List.count_eq_zero.mpr dataWord_clean]

theorem tailValues_literal_ne {t t' : Text} (hdata : dataWord <+: Text.trim t)
    (h : t.count replacement < t'.count replacement) :
    tailValues literal (fun _ => false) t' ≠ tailValues literal (fun _ => false) t := by
  obtain ⟨u, hu, hcount⟩ := tailValues_literal hdata
  by_cases hdata' : dataWord <+: Text.trim t'
  · obtain ⟨u', hu', hcount'⟩ := tailValues_literal hdata'
    rw [hu, hu']
    intro heq
    obtain rfl : u' = u := by simpa using heq
    omega
  · rw [hu, tailValues_of_not_data hdata']
    simp

theorem data_of_uncut {tokens : List (Option UInt8)} (h : DataLine tokens.reduceOption) :
    dataWord <+: decodeCut .start tokens := by
  obtain ⟨q, hq⟩ := h
  obtain ⟨q', hq', -⟩ := Smudged.append_ascii (hq ▸ smudged_lossy tokens)
    (List.all_iff_forall_prop.mp (by decide))
  exact ⟨q', hq'.symm⟩

theorem cut_once {a b : List UInt8} {tokens : List (Option UInt8)}
    {before after : List (List (Option UInt8))} (hcut : none ∈ tokens)
    (hlines : lines (some newline) (marks [a, b]) = before ++ tokens :: after) :
    (∀ other ∈ before, none ∉ other) ∧ (∀ other ∈ after, none ∉ other) ∧
      none ∉ rest (some newline) (marks [a, b]) := by
  have hsome : ∀ piece : List UInt8, (piece.map some).count none = 0 :=
    fun piece => List.count_eq_zero.mpr (by simp)
  have hone : (marks [a, b]).count none = 1 := by simp [marks, hsome]
  have hfilter := congrArg (List.count none) (frames_filter (some newline) (marks [a, b]))
  rw [List.count_filter (by decide), hone, hlines] at hfilter
  simp only [List.flatten_append, List.flatten_cons, List.count_append] at hfilter
  have hpos : 0 < tokens.count none := List.count_pos_iff.mpr hcut
  refine ⟨fun other ho hmem => ?_, fun other ho hmem => ?_, fun hmem => ?_⟩
  · have := List.count_pos_iff.mpr (List.mem_flatten_of_mem ho hmem)
    omega
  · have := List.count_pos_iff.mpr (List.mem_flatten_of_mem ho hmem)
    omega
  · have := List.count_pos_iff.mpr hmem
    omega

theorem cut_in_rest {a b : List UInt8} (hcut : none ∈ rest (some newline) (marks [a, b])) :
    ∀ other ∈ lines (some newline) (marks [a, b]), none ∉ other := by
  intro other ho hmem
  obtain ⟨before, after, hlines⟩ := List.append_of_mem ho
  exact (cut_once hmem hlines).2.2 hcut

theorem none_mem_of_not_clean {tokens : List (Option UInt8)} (h : ¬ Clean .start tokens) :
    none ∈ tokens := by
  by_contra hmem
  exact h (clean_of_not_mem hmem)

theorem lineValue_uncut {tokens : List (Option UInt8)} (h : none ∉ tokens) :
    lineValue literal (decodeCut .start tokens) =
      lineValue literal (lossy tokens.reduceOption) :=
  lineValue_decodeCut fun _ => clean_of_not_mem h

theorem whole_of_textValues_eq {a b : List UInt8} (hvalid : ValidData (a ++ b))
    (h : textValues literal (fun _ => false) (decodeCut .start (marks [a, b])) =
      textValues literal (fun _ => false) (lossy (a ++ b))) : Whole [a, b] := by
  have hbytes : a ++ b = (marks [a, b]).reduceOption := by simp [reduceOption_marks]
  rw [hbytes] at h hvalid
  obtain ⟨hframes, hrestBytes⟩ := frames_reduceOption (marks [a, b])
  rw [textValues_cut, textValues_uncut] at h
  constructor
  · intro tokens htokens hdata
    by_contra hclean
    obtain ⟨before, after, hlines⟩ := List.append_of_mem htokens
    obtain ⟨hbefore, hafter, hrest⟩ := cut_once (none_mem_of_not_clean hclean) hlines
    rw [hlines, tailValues_decodeCut fun _ => clean_of_not_mem hrest] at h
    simp only [List.filterMap_eq_flatMap_toList, List.flatMap_append, List.flatMap_cons,
      List.append_cancel_right_eq] at h
    rw [List.flatMap_congr fun other ho =>
        congrArg Option.toList (lineValue_uncut (hbefore other ho)),
      List.flatMap_congr fun other ho =>
        congrArg Option.toList (lineValue_uncut (hafter other ho)),
      List.append_cancel_left_eq, List.append_cancel_right_eq] at h
    have hline : tokens.reduceOption ∈ lines newline (marks [a, b]).reduceOption := by
      rw [hframes]
      exact List.mem_map_of_mem htokens
    refine lineValue_literal_ne (data_of_uncut hdata) hdata
      (count_lt_of_not_clean (s := .start) trivial (hvalid.line _ hline hdata) hclean) ?_
    simpa using congrArg List.head? h
  · intro hdata
    by_contra hclean
    have hlines := cut_in_rest (none_mem_of_not_clean hclean)
    rw [List.filterMap_congr fun other ho => lineValue_uncut (hlines other ho),
      List.append_cancel_left_eq] at h
    have htail := hvalid.tail
    rw [hrestBytes] at htail
    exact tailValues_literal_ne hdata
      (count_lt_of_not_clean (s := .start) trivial (htail hdata) hclean) h

theorem flatMap_flatten (chunks : List (List UInt8)) :
    [chunks.flatten].flatMap lossy = lossy chunks.flatten := by simp

theorem streamResponses_whole {chunks : List (List UInt8)} (h : Whole chunks) :
    SameRelay streamResponses responseDeltas chunks := by
  intro decode hok hok'
  have hvalues : (streamResponses decode chunks).applied =
      (streamResponses decode [chunks.flatten]).applied := by
    rw [streamResponses_applied hok, streamResponses_applied hok', textValues_whole h,
      flatMap_flatten]
  exact ⟨hvalues, by rw [responseDeltas, hvalues, responseDeltas]⟩

theorem streamResponse_whole {chunks : List (List UInt8)} (h : Whole chunks)
    (hquiet : QuietStream chunks.flatten) :
    SameRelay streamResponse messageEvents chunks := by
  intro decode hok hok'
  have hquiet' : QuietStream [chunks.flatten].flatten := by simpa using hquiet
  have hvalues : (streamResponse decode chunks).applied =
      (streamResponse decode [chunks.flatten]).applied := by
    rw [streamResponse_applied hquiet hok, streamResponse_applied hquiet' hok',
      textValues_whole h, flatMap_flatten]
  exact ⟨hvalues, by rw [messageEvents, hvalues, messageEvents]⟩

theorem whole_of_sameRelay {a b : List UInt8} (hvalid : ValidData (a ++ b))
    (hok : ∀ decode, (streamResponses decode [a, b]).error = none ∧
      (streamResponses decode [a ++ b]).error = none)
    (h : SameRelay streamResponses responseDeltas [a, b]) : Whole [a, b] := by
  have hflat : [a, b].flatten = a ++ b := by simp
  have hvalues := (h literal (hok literal).1 (hflat ▸ (hok literal).2)).1
  rw [hflat, streamResponses_applied (hok literal).1, streamResponses_applied (hok literal).2,
    ← decodeCut_marks] at hvalues
  exact whole_of_textValues_eq hvalid (by simpa using hvalues)

/-- Chunks cut outside the characters of data lines relay like one chunk, for
`stream_response` as long as nothing follows the end of the answer; with one cut
this is also necessary. -/
theorem relay_chunking (chunks : List (List UInt8)) (hvalid : ValidData chunks.flatten) :
    (Whole chunks → SameRelay streamResponses responseDeltas chunks) ∧
    (Whole chunks → QuietStream chunks.flatten →
      SameRelay streamResponse messageEvents chunks) ∧
    (∀ a b, chunks = [a, b] →
      (∀ decode, (streamResponses decode [a, b]).error = none ∧
        (streamResponses decode [a ++ b]).error = none) →
      SameRelay streamResponses responseDeltas chunks → Whole chunks) := by
  refine ⟨streamResponses_whole, streamResponse_whole, ?_⟩
  rintro a b rfl hok hsame
  exact whole_of_sameRelay (by simpa using hvalid) hok hsame

theorem quietStream_of_lines {bytes : List UInt8}
    (h : ∀ i ∈ List.range (lines '\n' (lossy bytes)).length,
      ∀ line ∈ (lines '\n' (lossy bytes))[i]?, IsDone line →
        (((lines '\n' (lossy bytes)).drop (i + 1)).flatten ++ rest '\n' (lossy bytes)).all
          Text.isWhitespace = true) : QuietStream bytes := by
  intro before line after heq hbefore hline hdone c hc
  by_cases hnewline : c = '\n'
  · rw [hnewline]
    decide
  · obtain ⟨hlines, hrest⟩ := frames_append '\n' before (line ++ '\n' :: after)
    rw [hbefore, List.nil_append, lines_line hline] at hlines
    rw [hbefore, List.nil_append, rest_line hline] at hrest
    rw [heq, List.append_assoc, hlines, hrest] at h
    refine List.all_eq_true.mp (h (lines '\n' before).length (by simp) line (by simp) hdone) c ?_
    have hdrop : (lines '\n' before ++ line :: lines '\n' after).drop
        ((lines '\n' before).length + 1) = lines '\n' after := by
      rw [← List.drop_drop, List.drop_left, List.drop_succ_cons, List.drop_zero]
    rw [hdrop, ← frames_filter, List.mem_filter]
    exact ⟨hc, by simpa using hnewline⟩

def asciiBytes (s : String) : List UInt8 := s.toList.map (fun c => UInt8.ofNat c.toNat)

/-- The line `data: "é"` and the end of the answer in two chunks, cut behind the `é`. -/
def accentThenDone : List (List UInt8) :=
  [asciiBytes "data: \"" ++ [0xC3, 0xA9], asciiBytes "\"\n\ndata: [DONE]\n\n"]

theorem relay_chunking_plain :
    SameRelay streamResponses responseDeltas accentThenDone ∧
      SameRelay streamResponse messageEvents accentThenDone := by
  have hvalid : ValidData accentThenDone.flatten := ⟨by decide +kernel, by decide +kernel⟩
  have hwhole : Whole accentThenDone := ⟨by decide +kernel, by decide +kernel⟩
  have hquiet : QuietStream accentThenDone.flatten := quietStream_of_lines (by decide +kernel)
  obtain ⟨hresponses, hmessages, -⟩ := relay_chunking accentThenDone hvalid
  exact ⟨hresponses hwhole, hmessages hwhole hquiet⟩

/-- The line `data: "é"` in two chunks, cut between the two bytes of `é`. -/
def cutAccent : List (List UInt8) :=
  [asciiBytes "data: \"" ++ [0xC3], 0xA9 :: asciiBytes "\"\n\n"]

/-- A parser for JSON strings without escapes. -/
def unquote (t : Text) : Option Json := some (.string (t.drop 1).dropLast)

theorem cut_character_spoils_data :
    ValidData cutAccent.flatten ∧
      ¬ SameRelay streamResponses responseDeltas cutAccent ∧
      ¬ SameRelay streamResponse messageEvents cutAccent := by
  refine ⟨⟨by decide, by decide⟩, fun h => ?_, fun h => ?_⟩
  · have happlied := (h unquote (by decide +kernel) (by decide +kernel)).1
    exact absurd (congrArg (List.map Json.asStr) happlied) (by decide +kernel)
  · have happlied := (h unquote (by decide +kernel) (by decide +kernel)).1
    exact absurd (congrArg (List.map Json.asStr) happlied) (by decide +kernel)

end AioLM.Gateway
