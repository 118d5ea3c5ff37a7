import Mathlib.Data.Bool.AllAny
import AioLM.Multipart

/-!
A form that was parsed, given other fields and encoded again parses to the same
file and exactly the new texts: no text reaches into another part.
-/

set_option autoImplicit false

namespace AioLM.Gateway

open Fallible Search TextBytes

section

variable {boundary bytes value after : Bytes} {n : Nat}

theorem takePayload_hit (hfind : find (marker boundary) bytes = some n)
    (hends : endsPart (bytes.drop (n + (marker boundary).length))) :
    takePayload boundary bytes =
      some (bytes.take n, bytes.drop (n + (marker boundary).length)) := by
  rw [takePayload]
  split
  · simp_all
  · rename_i offset hoffset
    obtain rfl := Option.some.inj (hfind.symm.trans hoffset)
    simp only [hends, if_true]

theorem takePayload_skip (hfind : find (marker boundary) bytes = some n)
    (hends : ¬ endsPart (bytes.drop (n + (marker boundary).length))) :
    takePayload boundary bytes =
      (takePayload boundary (bytes.drop (n + (marker boundary).length))).map fun r =>
        (bytes.take (n + (marker boundary).length) ++ r.1, r.2) := by
  rw [takePayload]
  split
  · simp_all
  · rename_i offset hoffset
    obtain rfl := Option.some.inj (hfind.symm.trans hoffset)
    simp only [hends, if_false, Bool.false_eq_true]

theorem takePayload_none (hfind : find (marker boundary) bytes = none) :
    takePayload boundary bytes = none := by
  rw [takePayload]
  split
  · rfl
  · simp_all

theorem takePayload_cases (h : takePayload boundary bytes = some (value, after)) :
    (bytes = value ++ marker boundary ++ after ∧ endsPart after ∧
        find (marker boundary) bytes = some value.length) ∨
      ∃ skipped more, bytes = skipped ++ marker boundary ++ more ∧ ¬ endsPart more ∧
        find (marker boundary) bytes = some skipped.length ∧
        ∃ value', takePayload boundary more = some (value', after) ∧
          value = skipped ++ marker boundary ++ value' := by
  cases hfind : find (marker boundary) bytes with
  | none =>
    rw [takePayload_none hfind] at h
    cases h
  | some n =>
    have hsplit := find_split hfind
    have hlength : (bytes.take n).length = n :=
      List.length_take_of_le (find_eq_some_iff.mp hfind).1
    by_cases hends : endsPart (bytes.drop (n + (marker boundary).length))
    · rw [takePayload_hit hfind hends] at h
      cases h
      exact .inl ⟨hsplit, hends, by rw [hlength]⟩
    · rw [takePayload_skip hfind hends, Option.map_eq_some_iff] at h
      obtain ⟨⟨value', after'⟩, hmore, heq⟩ := h
      cases heq
      refine .inr ⟨bytes.take n, _, hsplit, hends, by rw [hlength], value', hmore, ?_⟩
      have htake : bytes.take (n + (marker boundary).length) =
          bytes.take n ++ marker boundary := by
        conv_lhs => rw [hsplit, List.take_left' (by rw [List.length_append, hlength])]
      rw [htake]

theorem takePayload_eq_append (h : takePayload boundary bytes = some (value, after)) :
    bytes = value ++ marker boundary ++ after ∧ endsPart after := by
  induction hn : bytes.length using Nat.strongRecOn generalizing bytes value with
  | ind n ih =>
    obtain ⟨hbytes, hends, -⟩ | ⟨skipped, more, hbytes, -, -, value', hmore, rfl⟩ :=
      takePayload_cases h
    · exact ⟨hbytes, hends⟩
    · have hmarker := marker_length_pos boundary
      have hlength := congrArg List.length hbytes
      simp only [List.length_append] at hlength
      obtain ⟨hmore', hends⟩ := ih more.length (by omega) hmore rfl
      refine ⟨?_, hends⟩
      rw [hbytes, hmore']
      simp only [List.append_assoc]

theorem endsPart_append {xs : Bytes} (h : 2 ≤ xs.length) (ys : Bytes) :
    endsPart (xs ++ ys) = endsPart xs := by
  match xs, h with
  | a :: b :: rest, _ => rfl

theorem takePayload_reframe
    (h : takePayload boundary (value ++ marker boundary ++ after) = some (value, after))
    {after' : Bytes} (hends : endsPart after') :
    takePayload boundary (value ++ marker boundary ++ after') = some (value, after') := by
  induction hn : value.length using Nat.strongRecOn generalizing value with
  | ind n ih =>
    obtain ⟨-, -, hfind⟩ | ⟨skipped, more, hbytes, hmore, hfind, value', hvalue', rfl⟩ :=
      takePayload_cases h
    · have hdrop : (value ++ marker boundary ++ after').drop
          (value.length + (marker boundary).length) = after' := by
        rw [← List.length_append, List.drop_left]
      rw [takePayload_hit (find_of_append hfind after') (by rwa [hdrop]), hdrop,
        List.append_assoc, List.take_left]
    · have hmarker := marker_length_pos boundary
      obtain ⟨rfl, -⟩ := takePayload_eq_append hvalue'
      have hinner := ih value'.length (by simp only [List.length_append] at hn; omega) hvalue' rfl
      have hfind' : find (marker boundary)
          (skipped ++ marker boundary ++ (value' ++ marker boundary ++ after')) =
            some skipped.length := by
        rw [hbytes] at hfind
        exact find_of_append hfind _
      have hdrop : (skipped ++ marker boundary ++ (value' ++ marker boundary ++ after')).drop
          (skipped.length + (marker boundary).length) = value' ++ marker boundary ++ after' := by
        rw [← List.length_append, List.drop_left]
      have htwo : 2 ≤ (value' ++ marker boundary).length := by
        simp only [marker, List.length_append]
        exact Nat.le_trans (by decide : 2 ≤ crlf.length) (by omega)
      rw [endsPart_append htwo] at hmore
      have hskip : ¬ endsPart ((skipped ++ marker boundary ++
          (value' ++ marker boundary ++ after')).drop
            (skipped.length + (marker boundary).length)) := by
        rwa [hdrop, endsPart_append htwo]
      have htake : (skipped ++ marker boundary ++ (value' ++ marker boundary ++ after')).take
          (skipped.length + (marker boundary).length) = skipped ++ marker boundary := by
        rw [← List.length_append, List.take_left]
      have heq : skipped ++ marker boundary ++ value' ++ marker boundary ++ after' =
          skipped ++ marker boundary ++ (value' ++ marker boundary ++ after') := by
        simp only [List.append_assoc]
      rw [heq, takePayload_skip hfind' hskip, hdrop, hinner, htake]
      rfl

theorem marker_eq (boundary : Bytes) :
    marker boundary = 13 :: 10 :: 45 :: 45 :: boundary := rfl

theorem takePayload_text (hboundary : (13 : UInt8) ∉ boundary) (htext : ¬ boundary <:+: value)
    (hends : endsPart after) :
    takePayload boundary (value ++ marker boundary ++ after) = some (value, after) := by
  have hborder : (13 : UInt8) ∉ 10 :: 45 :: 45 :: boundary := by
    simp [hboundary]
  have hclean : ¬ (13 :: 10 :: 45 :: 45 :: boundary) <:+: value := by
    intro hmarker
    exact htext (List.IsInfix.trans ⟨[13, 10, 45, 45], [], by simp⟩ hmarker)
  have hfind : find (marker boundary) (value ++ marker boundary ++ after) = some value.length := by
    rw [marker_eq]
    exact find_border hborder hclean after
  have hdrop : (value ++ marker boundary ++ after).drop
      (value.length + (marker boundary).length) = after := by
    rw [← List.length_append, List.drop_left]
  rw [takePayload_hit hfind (by rwa [hdrop]), hdrop, List.append_assoc, List.take_left]

end

/-- Neither a quote, a backslash nor a semicolon. -/
def plainChar (c : Char) : Bool := c ≠ '"' ∧ c ≠ '\\' ∧ c ≠ ';'

theorem parametersFrom_plain (quoted : Bool) {xs : Text} (h : ∀ c ∈ xs, plainChar c = true)
    (part rest : Text) : parametersFrom quoted false part (xs ++ rest) =
      parametersFrom quoted false (part ++ xs) rest := by
  induction xs generalizing part with
  | nil => simp
  | cons c xs ih =>
    obtain ⟨hc, hxs⟩ := List.forall_mem_cons.mp h
    simp only [plainChar, ne_eq, decide_eq_true_eq] at hc
    rw [List.cons_append, parametersFrom, if_neg (by simp), if_neg (by simp [hc]),
      if_neg (by simp [hc]), if_neg (by simp [hc]), ih hxs, List.append_assoc]
    rfl

theorem parametersFrom_semicolon (part rest : Text) :
    parametersFrom false false part (';' :: rest) =
      (parametersFrom false false [] rest).map (part.trim :: ·) := by
  rw [parametersFrom]
  simp

theorem parametersFrom_quote (quoted : Bool) (part rest : Text) :
    parametersFrom quoted false part ('"' :: rest) =
      parametersFrom (!quoted) false (part ++ ['"']) rest := by
  rw [parametersFrom]
  simp

theorem unescape_plain {xs : Text} (h : '\\' ∉ xs) : unescape xs = .ok xs := by
  induction xs with
  | nil => rfl
  | cons c xs ih =>
    simp only [List.mem_cons, not_or] at h
    rw [unescape, ih h.2]
    · rfl
    · exact fun hc => absurd hc.symm h.1
    · exact fun _ _ hc => absurd hc.symm h.1

theorem unquoteParameter_quoted {xs : Text} (h : '\\' ∉ xs) : unquoteParameter ('"' :: (xs ++ ['"'])) = .ok xs := by
  have hstrip : Text.stripPrefix ['"'] ('"' :: (xs ++ ['"'])) = some (xs ++ ['"']) :=
    Text.stripPrefix_append ['"'] _
  have hsuffix : Text.stripSuffix ['"'] (xs ++ ['"']) = some xs := by
    rw [Text.stripSuffix, if_pos (List.isSuffixOf_iff_suffix.mpr (List.suffix_append _ _))]
    simp
  simp only [unquoteParameter, hstrip, hsuffix, orError_some, bind, Except.bind, unescape_plain h]

theorem trim_eq_self {first last : Char} (hfirst : Text.isWhitespace first = false)
    (hlast : Text.isWhitespace last = false) (blanks middle : Text)
    (hblanks : ∀ c ∈ blanks, Text.isWhitespace c = true) :
    Text.trim (blanks ++ first :: (middle ++ [last])) = first :: (middle ++ [last]) := by
  have hstart : Text.trimStart (blanks ++ first :: (middle ++ [last])) =
      first :: (middle ++ [last]) := by
    rw [Text.trimStart, List.dropWhile_append_of_pos hblanks, List.dropWhile_cons_of_neg]
    simp [hfirst]
  have hend := Text.trimEndMatches_append hlast (first :: middle) []
  rw [Text.trim, hstart]
  simpa [Text.trimEndMatches] using hend

theorem fieldChar_plain {c : Char} (h : fieldChar c = true) : plainChar c = true := by
  simp only [plainChar, ne_eq, decide_eq_true_eq]
  refine ⟨?_, ?_, ?_⟩ <;> (intro hc; subst hc; exact absurd h (by decide))

theorem boundaryChar_plain {c : Char} (h : boundaryChar c = true) : plainChar c = true := by
  simp only [plainChar, ne_eq, decide_eq_true_eq]
  refine ⟨?_, ?_, ?_⟩ <;> (intro hc; subst hc; exact absurd h (by decide))

theorem boundaryChar_ascii {c : Char} (h : boundaryChar c = true) :
    0x20 < c.toNat ∧ c.toNat < 0x7F := by
  simp only [boundaryChar, Bool.or_eq_true, List.contains_iff_mem] at h
  obtain h | h := h
  · have hranges : (decide (c.val ≥ 'A'.val ∧ c.val ≤ 'Z'.val) ||
        c.val ≥ 'a'.val && c.val ≤ 'z'.val || c.val ≥ '0'.val && c.val ≤ '9'.val) = true := h
    simp only [Bool.or_eq_true, Bool.and_eq_true, decide_eq_true_eq, ge_iff_le,
      UInt32.le_iff_toNat_le] at hranges
    simp only [UInt32.reduceToNat, Char.toNat_val, Char.reduceVal] at hranges
    omega
  · have hall : ∀ x ∈ "'()+_,-./:=?".toList, 0x20 < x.toNat ∧ x.toNat < 0x7F :=
      List.all_iff_forall_prop.mp (by decide)
    exact hall c h

theorem fieldChar_boundaryChar {c : Char} (h : fieldChar c = true) :
    boundaryChar c = true ∨ c = '[' ∨ c = ']' := by
  simp only [fieldChar, Bool.or_eq_true, List.contains_iff_mem] at h
  obtain h | h := h
  · exact .inl (by simp [boundaryChar, h])
  · have hall : ∀ x ∈ "_[]".toList, boundaryChar x = true ∨ x = '[' ∨ x = ']' :=
      List.all_iff_forall_prop.mp (by decide)
    exact hall c h

theorem fieldChar_ascii {c : Char} (h : fieldChar c = true) : 0x20 < c.toNat ∧ c.toNat < 0x7F := by
  obtain h | rfl | rfl := fieldChar_boundaryChar h
  · exact boundaryChar_ascii h
  · decide
  · decide

theorem not_isWhitespace_ascii {c : Char} (h : 0x20 < c.toNat) (h' : c.toNat < 0x7F) :
    Text.isWhitespace c = false := by
  simp only [Text.isWhitespace, Bool.or_eq_false_iff, Bool.and_eq_false_iff, decide_eq_false_iff_not,
    beq_eq_false_iff_ne]
  omega

theorem utf8EncodeChar_ascii {c : Char} (h : c.toNat < 0x80) :
    String.utf8EncodeChar c = [UInt8.ofNat c.toNat] := by
  have hval : c.val.toNat ≤ 0x7f := Nat.lt_succ_iff.mp h
  rw [String.utf8EncodeChar, if_pos hval]
  rfl

theorem return_not_mem_encode {t : Text} (h : ∀ c ∈ t, c.toNat < 0x80 ∧ c.toNat ≠ 13) :
    (13 : UInt8) ∉ encode t := by
  intro hmem
  obtain ⟨c, hc, hbyte⟩ := List.mem_flatMap.mp hmem
  obtain ⟨hhi, hne⟩ := h c hc
  rw [utf8EncodeChar_ascii (by omega), List.mem_singleton] at hbyte
  have hnat := congrArg UInt8.toNat hbyte
  simp at hnat
  omega

theorem splitCrlf_of_not_mem {t : Text} (h : '\r' ∉ t) : Text.splitCrlf t = [t] := by
  induction t with
  | nil => rfl
  | cons c t ih =>
    simp only [List.mem_cons, not_or] at h
    rw [Text.splitCrlf, ih h.2]
    exact fun _ hc => absurd hc.symm h.1

def textHead (field : Text) : Text :=
  "Content-Disposition: form-data; name=\"".toList ++ field ++ ['"']

def textDisposition (field : Text) : List Text :=
  ["form-data".toList, "name=".toList ++ ['"'] ++ field ++ ['"']]

section

variable {field : Text}

theorem textHeaders_eq (field : Text) : textHeaders field = encode (textHead field) := by
  have hquote : "\"".toList = ['"'] := by decide
  unfold textHeaders textHead ascii
  rw [hquote, encode_append, encode_append]

theorem trim_nameParameter (field : Text) :
    Text.trim (" name=".toList ++ ['"'] ++ field ++ ['"']) =
      "name=".toList ++ ['"'] ++ field ++ ['"'] := by
  have hname : "name=".toList = 'n' :: "ame=".toList := by decide
  have htrim := trim_eq_self (by decide : Text.isWhitespace 'n' = false)
    (by decide : Text.isWhitespace '"' = false) [' '] ("ame=".toList ++ ['"'] ++ field)
    (List.all_iff_forall_prop.mp (by decide))
  have hblank : " name=".toList = [' '] ++ "name=".toList := by decide
  rw [hblank, hname]
  simpa using htrim

theorem parameters_textDisposition (h : field.all fieldChar) :
    parameters ("form-data;".toList ++ " name=".toList ++ ['"'] ++ field ++ ['"']) =
      .ok (textDisposition field) := by
  have hplain : ∀ c ∈ field, plainChar c = true :=
    fun c hc => fieldChar_plain (List.all_eq_true.mp h c hc)
  have hsemicolon : "form-data;".toList = "form-data".toList ++ [';'] := by decide
  have hlast : parametersFrom false false (" name=".toList ++ ['"'] ++ field ++ ['"']) [] =
      some ["name=".toList ++ ['"'] ++ field ++ ['"']] := by
    rw [parametersFrom, if_neg (by decide), trim_nameParameter]
  rw [parameters, hsemicolon]
  simp only [List.append_assoc]
  rw [parametersFrom_plain _ (List.all_iff_forall_prop.mp (by decide)), List.singleton_append, parametersFrom_semicolon,
    parametersFrom_plain _ (List.all_iff_forall_prop.mp (by decide)), List.singleton_append, parametersFrom_quote,
    parametersFrom_plain _ hplain, parametersFrom_quote]
  simp only [List.nil_append, Bool.not_true, Bool.not_false]
  rw [hlast]
  rfl

theorem splitOnce_name (field : Text) :
    Text.splitOnce '=' ("name=".toList ++ ['"'] ++ field ++ ['"']) =
      some ("name".toList, '"' :: (field ++ ['"'])) := by
  have hname : "name=".toList = "name".toList ++ ['='] := by decide
  have hsplit := Text.splitOnce_append (by decide : '=' ∉ "name".toList) ('"' :: (field ++ ['"']))
  rw [hname]
  simpa using hsplit

theorem parameter_name (h : field.all fieldChar) :
    parameter (textDisposition field) "name".toList = .ok (some field) := by
  have hplain : '\\' ∉ field := fun hc => absurd (List.all_eq_true.mp h _ hc) (by decide)
  have htrim : Text.trim ('"' :: (field ++ ['"'])) = '"' :: (field ++ ['"']) :=
    trim_eq_self (by decide) (by decide) [] field (by simp)
  have hkey : Text.eqIgnoreAsciiCase (Text.trim "name".toList) "name".toList := by decide
  simp only [parameter, textDisposition, List.tail_cons, parameterFrom, splitOnce_name, hkey,
    if_true, Option.isNone_none, require, htrim, unquoteParameter_quoted hplain, bind, Except.bind]

theorem parameter_filename (field : Text) :
    parameter (textDisposition field) "filename".toList = .ok none := by
  have hkey : Text.eqIgnoreAsciiCase (Text.trim "name".toList) "filename".toList = false := by decide
  simp only [parameter, textDisposition, List.tail_cons, parameterFrom, splitOnce_name, hkey]
  rfl

theorem readHeaderLine_text (h : field.all fieldChar) :
    readHeaderLine none (textHead field) = .ok (some (textDisposition field)) := by
  have hhead : textHead field = "Content-Disposition".toList ++
      ':' :: (" form-data;".toList ++ " name=".toList ++ ['"'] ++ field ++ ['"']) := by
    have hwords : "Content-Disposition: form-data; name=\"".toList = "Content-Disposition".toList ++
        ':' :: (" form-data;".toList ++ " name=".toList ++ ['"']) := by decide
    unfold textHead
    rw [hwords]
    simp only [List.append_assoc, List.cons_append]
  have hsplit := Text.splitOnce_append (by decide : ':' ∉ "Content-Disposition".toList)
    (" form-data;".toList ++ " name=".toList ++ ['"'] ++ field ++ ['"'])
  have hkey : Text.eqIgnoreAsciiCase "Content-Disposition".toList "content-disposition".toList := by
    decide
  have htrim : Text.trim (" form-data;".toList ++ " name=".toList ++ ['"'] ++ field ++ ['"']) =
      "form-data;".toList ++ " name=".toList ++ ['"'] ++ field ++ ['"'] := by
    have hblank : " form-data;".toList = [' '] ++ "form-data;".toList := by decide
    have hform : "form-data;".toList = 'f' :: "orm-data;".toList := by decide
    have hself := trim_eq_self (by decide : Text.isWhitespace 'f' = false)
      (by decide : Text.isWhitespace '"' = false) [' ']
      ("orm-data;".toList ++ " name=".toList ++ ['"'] ++ field)
      (List.all_iff_forall_prop.mp (by decide))
    rw [hblank, hform]
    simpa only [List.append_assoc, List.cons_append] using hself
  simp only [readHeaderLine, hhead, hsplit, hkey, if_true, Option.isNone_none, require, htrim,
    parameters_textDisposition h, bind, Except.bind, pure, Except.pure]

theorem textHead_chars (h : field.all fieldChar) :
    ∀ c ∈ textHead field, c.toNat < 0x80 ∧ c.toNat ≠ 13 := by
  have hwords : ∀ c ∈ "Content-Disposition: form-data; name=\"".toList,
      c.toNat < 0x80 ∧ c.toNat ≠ 13 := List.all_iff_forall_prop.mp (by decide)
  intro c hc
  unfold textHead at hc
  rw [List.mem_append, List.mem_append, List.mem_singleton] at hc
  obtain (hc | hc) | rfl := hc
  · exact hwords c hc
  · have hascii := fieldChar_ascii (List.all_eq_true.mp h c hc)
    omega
  · decide

theorem length_textHeaders (h : fieldFits field) : (textHeaders field).length ≤ maxPartHeaders := by
  have hwords : Text.utf8Len "Content-Disposition: form-data; name=\"".toList = 38 := by decide
  simp only [fieldFits, Bool.and_eq_true, decide_eq_true_eq] at h
  rw [textHeaders_eq, length_encode]
  unfold textHead
  rw [Text.utf8Len_append, Text.utf8Len_append, hwords]
  have hquote : Text.utf8Len ['"'] = 1 := by decide
  have hlen := h.1.2
  simp only [hquote, maxPartHeaders]
  omega

theorem readHeaders_text (h : fieldFits field) :
    readHeaders (textHeaders field) = .ok (field, textDisposition field) := by
  have hchars : field.all fieldChar := by
    simp only [fieldFits, Bool.and_eq_true] at h
    exact h.2
  have hline : '\r' ∉ textHead field := fun hc => (textHead_chars hchars _ hc).2 rfl
  have hform : Text.eqIgnoreAsciiCase ((textDisposition field).headD []) "form-data".toList := by
    unfold textDisposition
    rw [List.headD_cons]
    decide
  rw [textHeaders_eq]
  simp only [readHeaders, decode_encode, orError_some, splitCrlf_of_not_mem hline,
    List.foldlM_cons, List.foldlM_nil, readHeaderLine_text hchars, hform, parameter_name hchars,
    require, h, if_true, bind, Except.bind, pure, Except.pure]

end

def textFrame (boundary : Bytes) (p : Text × Text) : Bytes :=
  textHeaders p.1 ++ blankLine ++ encode p.2 ++ marker boundary

def addField (fields : KeyMap Text Json) (p : Text × Text) : KeyMap Text Json :=
  if p.1 = stampsPart then fields.alter stampsField (pushText p.2)
  else fields.insert p.1 (.string p.2)

def Parts.withText (seen : Parts) (p : Text × Text) : Parts :=
  { seen with names := p.1 :: seen.names, fields := addField seen.fields p }

theorem find_blankLine {headers : Bytes} (h : (13 : UInt8) ∉ headers) (after : Bytes) :
    find blankLine (headers ++ blankLine ++ after) = some headers.length := by
  have hblank : blankLine = 13 :: 10 :: 13 :: 10 :: [] := rfl
  have hoccurs : blankLine <+: (headers ++ blankLine ++ after).drop headers.length := by
    rw [List.append_assoc, List.drop_left]
    exact List.prefix_append _ _
  refine find_eq_some_iff.mpr ⟨by simp only [List.length_append]; omega, hoccurs, ?_⟩
  intro k hk hearly
  have hhead : ((headers ++ blankLine ++ after).drop k)[0]? = some 13 := by
    obtain ⟨rest, hrest⟩ := hearly
    rw [← hrest, hblank]
    rfl
  rw [List.getElem?_drop, Nat.add_zero, List.append_assoc, List.getElem?_append_left hk] at hhead
  exact h (List.mem_of_getElem? hhead)

theorem readPart_text {boundary : Bytes} {seen : Parts} {p : Text × Text} {after : Bytes}
    (hboundary : (13 : UInt8) ∉ boundary) (hfits : fieldFits p.1) (hfile : p.1 ≠ fileField)
    (hstamps : p.1 ≠ stampsField) (hnew : p.1 ∉ seen.names ∨ p.1 = stampsPart)
    (htext : ¬ boundary <:+: encode p.2) (hlength : (encode p.2).length ≤ maxTextBytes)
    (hends : endsPart after) :
    readPart boundary seen (textFrame boundary p ++ after) = .ok (seen.withText p, after) := by
  have hchars : p.1.all fieldChar := by
    simp only [fieldFits, Bool.and_eq_true] at hfits
    exact hfits.2
  have hclean : (13 : UInt8) ∉ textHeaders p.1 := by
    rw [textHeaders_eq]
    exact return_not_mem_encode (textHead_chars hchars)
  have hshort := length_textHeaders hfits
  have hframe : textFrame boundary p ++ after = textHeaders p.1 ++ blankLine ++
      (encode p.2 ++ marker boundary ++ after) := by
    simp only [textFrame, List.append_assoc]
  have hfind := find_blankLine hclean (encode p.2 ++ marker boundary ++ after)
  have htake : (textHeaders p.1 ++ blankLine ++ (encode p.2 ++ marker boundary ++ after)).take
      (textHeaders p.1).length = textHeaders p.1 := by
    rw [List.append_assoc, List.take_left]
  have hdrop : (textHeaders p.1 ++ blankLine ++ (encode p.2 ++ marker boundary ++ after)).drop
      ((textHeaders p.1).length + 4) = encode p.2 ++ marker boundary ++ after :=
    List.drop_left' (by rw [List.length_append]; rfl)
  have hadd : seen.addText p.1 p.2 = .ok (seen.withText p) := by
    unfold Parts.addText Parts.withText addField
    by_cases hpart : p.1 = stampsPart
    · simp only [hpart, if_true]
    · simp only [hpart, if_false, require, ne_eq, hstamps, not_false_eq_true, if_true]
      rfl
  rw [hframe, readPart, hfind]
  simp only [Option.filter_some, hshort, decide_true, if_true, orError_some, htake, hdrop,
    readHeaders_text hfits, require, hnew, takePayload_text hboundary htext hends,
    parameter_filename, Parts.add, hfile, if_false, Option.isNone_none, hlength, and_self,
    decode_encode, hadd, bind, Except.bind, pure, Except.pure]

/-- What the parser has seen of a file it accepted, without the parts around it. -/
structure FileReadable (boundary headers file : Bytes) : Prop where
  blankLine : find blankLine (headers ++ blankLine) = some headers.length
  short : headers.length ≤ maxPartHeaders
  named : ∃ disposition filename, readHeaders headers = .ok (fileField, disposition) ∧
    parameter disposition "filename".toList = .ok (some filename)
  nonempty : file ≠ []
  framed : ∃ after, takePayload boundary (file ++ marker boundary ++ after) = some (file, after)

theorem addText_file {seen seen' : Parts} {name text : Text}
    (h : seen.addText name text = .ok seen') : seen'.file = seen.file := by
  unfold Parts.addText at h
  split at h
  · cases h
    rfl
  · simp only [bind_eq_ok, require_eq_ok, pure, Except.pure, Except.ok.injEq] at h
    obtain ⟨-, -, rfl⟩ := h
    rfl

theorem readPart_file {boundary bytes after : Bytes} {seen seen' : Parts}
    (hseen : ∀ f, seen.file = some f → FileReadable boundary f.1 f.2)
    (h : readPart boundary seen bytes = .ok (seen', after)) :
    ∀ f, seen'.file = some f → FileReadable boundary f.1 f.2 := by
  simp only [readPart, bind_eq_ok, require_eq_ok, orError_eq_ok, Option.filter_eq_some_iff,
    decide_eq_true_eq, pure, Except.pure, Except.ok.injEq, Prod.mk.injEq] at h
  obtain ⟨headerEnd, ⟨hfind, hshort⟩, ⟨name, disposition⟩, hheaders, -, -, ⟨value, rest⟩, hpayload,
    filename, hfilename, added, hadd, rfl, rfl⟩ := h
  unfold Parts.add at hadd
  split at hadd
  · rename_i hname
    simp only [bind_eq_ok, require_eq_ok, pure, Except.pure, Except.ok.injEq] at hadd
    obtain ⟨-, ⟨hsome, hne⟩, rfl⟩ := hadd
    intro f hf
    obtain rfl := Option.some.inj hf
    obtain ⟨filename, rfl⟩ := Option.isSome_iff_exists.mp hsome
    have hlength : (bytes.take headerEnd).length = headerEnd :=
      List.length_take_of_le (find_eq_some_iff.mp hfind).1
    have hsplit := find_split hfind
    refine ⟨?_, ?_, ⟨disposition, filename, hname ▸ hheaders, hfilename⟩, hne, rest, ?_⟩
    · rw [hsplit] at hfind
      have hthere : find blankLine (bytes.take headerEnd ++ blankLine ++
          bytes.drop (headerEnd + blankLine.length)) = some (bytes.take headerEnd).length := by
        rwa [hlength]
      simpa using find_of_append hthere []
    · simpa only [hlength] using hshort
    · rw [← (takePayload_eq_append hpayload).1]
      exact hpayload
  · simp only [bind_eq_ok, require_eq_ok, orError_eq_ok] at hadd
    obtain ⟨-, -, text, -, hadd⟩ := hadd
    rw [addText_file hadd]
    exact hseen

theorem readParts_file {boundary bytes : Bytes} {n : Nat} {seen seen' : Parts}
    (hseen : ∀ f, seen.file = some f → FileReadable boundary f.1 f.2)
    (h : readParts boundary n seen bytes = .ok seen') :
    ∀ f, seen'.file = some f → FileReadable boundary f.1 f.2 := by
  induction n generalizing seen bytes with
  | zero => cases h
  | succ n ih =>
    rw [readParts, bind_eq_ok] at h
    obtain ⟨⟨more, after⟩, hpart, h⟩ := h
    have hmore := readPart_file hseen hpart
    simp only at h
    split at h
    · simp only [bind_eq_ok, require_eq_ok, pure, Except.pure, Except.ok.injEq] at h
      obtain ⟨-, -, rfl⟩ := h
      exact hmore
    · exact ih hmore h

theorem parse_ok {contentType : Text} {bytes : Bytes} {form : AudioForm}
    (h : AudioForm.parse contentType bytes = .ok form) :
    boundaryFits form.boundary ∧
      FileReadable (encode form.boundary) form.fileHeaders form.file := by
  simp only [AudioForm.parse, bind_eq_ok, require_eq_ok, orError_eq_ok, pure, Except.pure,
    Except.ok.injEq] at h
  obtain ⟨params, -, -, -, found, -, boundary, -, -, hfits, -, -, parts, hparts, file, hfile,
    rfl⟩ := h
  exact ⟨hfits, readParts_file (by simp) hparts file hfile⟩

def fileFrame (boundary : Bytes) (form : AudioForm) : Bytes :=
  form.fileHeaders ++ blankLine ++ form.file ++ marker boundary ++ dashes ++ crlf

def framesFrom (boundary : Bytes) (form : AudioForm) : List (Text × Text) → Bytes
  | [] => fileFrame boundary form
  | p :: ps => textFrame boundary p ++ crlf ++ framesFrom boundary form ps

def Parts.withFile (seen : Parts) (form : AudioForm) : Parts :=
  { seen with names := fileField :: seen.names, file := some (form.fileHeaders, form.file) }

section

variable {boundary : Bytes} {form : AudioForm} {seen : Parts}

theorem readPart_fileFrame (hfile : FileReadable boundary form.fileHeaders form.file)
    (hnew : fileField ∉ seen.names) :
    readPart boundary seen (fileFrame boundary form) =
      .ok (seen.withFile form, dashes ++ crlf) := by
  obtain ⟨hblank, hshort, ⟨disposition, filename, hheaders, hfilename⟩, hne, after, hframed⟩ := hfile
  have hframe : fileFrame boundary form = form.fileHeaders ++ blankLine ++
      (form.file ++ marker boundary ++ (dashes ++ crlf)) := by
    simp only [fileFrame, List.append_assoc]
  have hfind := find_append hblank (form.file ++ marker boundary ++ (dashes ++ crlf))
  have htake : (form.fileHeaders ++ blankLine ++
      (form.file ++ marker boundary ++ (dashes ++ crlf))).take form.fileHeaders.length =
        form.fileHeaders := by
    rw [List.append_assoc, List.take_left]
  have hdrop : (form.fileHeaders ++ blankLine ++
      (form.file ++ marker boundary ++ (dashes ++ crlf))).drop (form.fileHeaders.length + 4) =
        form.file ++ marker boundary ++ (dashes ++ crlf) :=
    List.drop_left' (by rw [List.length_append]; rfl)
  have hpayload := takePayload_reframe hframed (by decide : endsPart (dashes ++ crlf))
  rw [hframe, readPart, hfind]
  simp only [Option.filter_some, hshort, decide_true, if_true, orError_some, htake, hdrop,
    hheaders, require, hnew, not_false_eq_true, true_or, hpayload, hfilename, Parts.add,
    Option.isSome_some, ne_eq, hne, and_self, bind, Except.bind, pure, Except.pure]
  rfl

theorem dashes_crlf (after : Bytes) : dashes.isPrefixOf (crlf ++ after) = false := rfl

theorem endsPart_crlf (after : Bytes) : endsPart (crlf ++ after) = true := rfl

structure TextsFit (boundary : Bytes) (seen : Parts) (texts : List (Text × Text)) : Prop where
  fits : ∀ p ∈ texts, fieldFits p.1 ∧ p.1 ≠ fileField ∧ p.1 ≠ stampsField
  fresh : ∀ p ∈ texts, p.1 ∉ seen.names ∨ p.1 = stampsPart
  distinct : texts.Pairwise fun p q => p.1 ≠ q.1 ∨ q.1 = stampsPart
  clean : ∀ p ∈ texts, ¬ boundary <:+: encode p.2
  short : ∀ p ∈ texts, (encode p.2).length ≤ maxTextBytes

theorem TextsFit.tail {p : Text × Text} {texts : List (Text × Text)}
    (h : TextsFit boundary seen (p :: texts)) : TextsFit boundary (seen.withText p) texts := by
  obtain ⟨hhead, hrest⟩ := List.pairwise_cons.mp h.distinct
  refine ⟨fun q hq => h.fits q (List.mem_cons_of_mem _ hq), ?_, hrest,
    fun q hq => h.clean q (List.mem_cons_of_mem _ hq),
    fun q hq => h.short q (List.mem_cons_of_mem _ hq)⟩
  intro q hq
  obtain hfresh | hstamps := h.fresh q (List.mem_cons_of_mem _ hq)
  · obtain hne | hstamps := hhead q hq
    · refine .inl ?_
      simp only [Parts.withText, List.mem_cons, not_or]
      exact ⟨hne.symm, hfresh⟩
    · exact .inr hstamps
  · exact .inr hstamps

theorem readParts_frames (form : AudioForm) (hboundary : (13 : UInt8) ∉ boundary)
    (hfile : FileReadable boundary form.fileHeaders form.file) {texts : List (Text × Text)}
    (htexts : TextsFit boundary seen texts) (hnew : fileField ∉ seen.names) {n : Nat}
    (hn : texts.length < n) :
    readParts boundary n seen (framesFrom boundary form texts) =
      .ok ((texts.foldl Parts.withText seen).withFile form) := by
  induction texts generalizing seen n with
  | nil =>
    obtain ⟨m, rfl⟩ := Nat.exists_eq_add_one_of_ne_zero (Nat.ne_of_gt hn)
    rw [readParts, framesFrom, readPart_fileFrame hfile hnew]
    rfl
  | cons p texts ih =>
    obtain ⟨m, rfl⟩ := Nat.exists_eq_add_one_of_ne_zero (Nat.ne_zero_of_lt hn)
    obtain ⟨hfits, hnofile, hnostamps⟩ := htexts.fits p List.mem_cons_self
    have hpart := readPart_text hboundary hfits hnofile hnostamps
      (htexts.fresh p List.mem_cons_self) (htexts.clean p List.mem_cons_self)
      (htexts.short p List.mem_cons_self) (endsPart_crlf (framesFrom boundary form texts))
    have hnames : fileField ∉ (seen.withText p).names := by
      simp only [Parts.withText, List.mem_cons, not_or]
      exact ⟨hnofile.symm, hnew⟩
    have hmore := ih htexts.tail hnames (Nat.lt_of_succ_lt_succ hn)
    have hdrop : (crlf ++ framesFrom boundary form texts).drop 2 =
        framesFrom boundary form texts := List.drop_left' rfl
    rw [readParts, framesFrom, List.append_assoc, hpart]
    simp only [bind, Except.bind, dashes_crlf, Bool.false_eq_true, if_false, hdrop, hmore,
      List.foldl_cons]

end

theorem foldl_withText (texts : List (Text × Text)) (seen : Parts) :
    (texts.foldl Parts.withText seen).fields = texts.foldl addField seen.fields := by
  induction texts generalizing seen with
  | nil => rfl
  | cons p texts ih => exact ih (seen.withText p)

theorem get_addField (fields : KeyMap Text Json) (p : Text × Text) (name : Text) :
    (addField fields p).get name =
      if p.1 = stampsPart then
        if name = stampsField then some (pushText p.2 (fields.get stampsField)) else fields.get name
      else if name = p.1 then some (.string p.2) else fields.get name := by
  unfold addField
  split
  · rw [KeyMap.get_alter]
    congr
  · rw [KeyMap.get_insert]
    congr

theorem get_foldl_field {name : Text} (hstamps : name ≠ stampsField) (hpart : name ≠ stampsPart)
    (texts : List (Text × Text)) :
    (texts.foldl addField .empty).get name =
      (KeyMap.valuesAt name texts).getLast?.map Json.string := by
  induction texts using List.reverseRecOn with
  | nil => rfl
  | append_singleton texts p ih =>
    rw [List.foldl_append, List.foldl_cons, List.foldl_nil, get_addField, KeyMap.valuesAt_append,
      KeyMap.valuesAt_cons, KeyMap.valuesAt_nil]
    by_cases hname : p.1 = name
    · simp [hname, hpart]
    · by_cases hp : p.1 = stampsPart
      · simp [hp, hstamps, hpart.symm, ih]
      · simp [hp, hname, Ne.symm hname, ih]

theorem get_foldl_stampsPart {texts : List (Text × Text)} :
    (texts.foldl addField .empty).get stampsPart = none := by
  induction texts using List.reverseRecOn with
  | nil => rfl
  | append_singleton texts p ih =>
    rw [List.foldl_append, List.foldl_cons, List.foldl_nil, get_addField, ih]
    by_cases hp : p.1 = stampsPart
    · rw [if_pos hp, if_neg (by decide)]
    · rw [if_neg hp, if_neg (Ne.symm hp)]

theorem get_foldl_stamps {texts : List (Text × Text)} (h : ∀ p ∈ texts, p.1 ≠ stampsField) :
    (texts.foldl addField .empty).get stampsField =
      if KeyMap.valuesAt stampsPart texts = [] then none
      else some (.array ((KeyMap.valuesAt stampsPart texts).map .string)) := by
  induction texts using List.reverseRecOn with
  | nil => rfl
  | append_singleton texts p ih =>
    have hmore := ih fun q hq => h q (List.mem_append_left _ hq)
    rw [List.foldl_append, List.foldl_cons, List.foldl_nil, get_addField, KeyMap.valuesAt_append,
      KeyMap.valuesAt_cons, KeyMap.valuesAt_nil, hmore]
    by_cases hp : p.1 = stampsPart
    · by_cases hnone : KeyMap.valuesAt stampsPart texts = []
      · simp [hp, hnone, pushText]
      · simp [hp, hnone, pushText, Json.asArray]
    · have hne : stampsField ≠ p.1 := (h p (by simp)).symm
      simp [hp, hne]

def fieldValues : Json → List Json
  | .array values => values
  | value => [value]

def textParts (floatText : Float → Text) (fields : KeyMap Text Json) : List (Text × Text) :=
  fields.entries.flatMap fun e =>
    (fieldValues e.2).map fun value => (partName e.1, fieldText floatText value)

def opening (boundary : Bytes) : Bytes := dashes ++ boundary ++ crlf

def textBlock (boundary : Bytes) (p : Text × Text) : Bytes :=
  opening boundary ++ textHeaders p.1 ++ blankLine ++ encode p.2 ++ crlf

theorem adaptedValues_ok {name : Text} {value : Json} {values : List Json}
    (h : adaptedValues name value = .ok values) :
    values = fieldValues value ∧ (name ≠ stampsField → fieldValues value = [value]) := by
  unfold adaptedValues at h
  split at h
  · split at h
    · rename_i hname
      cases h
      exact ⟨rfl, fun hne => absurd hname hne⟩
    · cases h
  · cases h
  · cases h
  · cases h
    cases value <;> simp_all [fieldValues]

theorem encodeText_ok {boundary bytes : Bytes} {field text : Text}
    (h : encodeText boundary field text = .ok bytes) :
    bytes = textBlock boundary (field, text) ∧ ¬ boundary <:+: encode text := by
  simp only [encodeText, bind_eq_ok, require_eq_ok, Option.isNone_iff_eq_none, find_eq_none_iff,
    pure, Except.pure, Except.ok.injEq] at h
  obtain ⟨-, hclean, rfl⟩ := h
  exact ⟨by simp only [textBlock, opening, List.append_assoc], hclean⟩

theorem encodeField_ok {floatText : Float → Text} {boundary bytes : Bytes} {e : Text × Json}
    (h : encodeField floatText boundary e = .ok bytes) :
    bytes = ((fieldValues e.2).map fun value =>
        (partName e.1, fieldText floatText value)).flatMap (textBlock boundary) ∧
      (∀ value ∈ fieldValues e.2, ¬ boundary <:+: encode (fieldText floatText value)) ∧
      (e.1 ≠ stampsField → fieldValues e.2 = [e.2]) := by
  simp only [encodeField, bind_eq_ok, pure, Except.pure, Except.ok.injEq] at h
  obtain ⟨values, hvalues, parts, hparts, rfl⟩ := h
  obtain ⟨rfl, hscalar⟩ := adaptedValues_ok hvalues
  obtain ⟨hbytes, hclean⟩ := mapM_flatten (fun value bytes h => encodeText_ok h) hparts
  exact ⟨by rw [hbytes, List.flatMap_map], hclean, hscalar⟩

theorem blocks_framesFrom (boundary : Bytes) (form : AudioForm) (texts : List (Text × Text)) :
    texts.flatMap (textBlock boundary) ++ (opening boundary ++ fileFrame boundary form) =
      opening boundary ++ framesFrom boundary form texts := by
  induction texts with
  | nil => rfl
  | cons p texts ih =>
    rw [List.flatMap_cons, List.append_assoc, ih, framesFrom]
    simp only [textBlock, textFrame, marker, opening, List.append_assoc]

theorem encode_ok {floatText : Float → Text} {form : AudioForm} {body : Bytes}
    (h : form.encode floatText = .ok body) :
    body = opening (encode form.boundary) ++
        framesFrom (encode form.boundary) form (textParts floatText form.fields) ∧
      (∀ p ∈ textParts floatText form.fields, ¬ encode form.boundary <:+: encode p.2) ∧
      ∀ e ∈ form.fields.entries, e.1 ≠ stampsField → fieldValues e.2 = [e.2] := by
  simp only [AudioForm.encode, bind_eq_ok, pure, Except.pure, Except.ok.injEq] at h
  obtain ⟨fields, hfields, rfl⟩ := h
  obtain ⟨hbytes, hparts⟩ := mapM_flatten (fun e bytes h => encodeField_ok h) hfields
  refine ⟨?_, ?_, fun e he => (hparts e he).2⟩
  · rw [← blocks_framesFrom, textParts, hbytes, List.flatMap_assoc]
    simp only [opening, fileFrame, marker, List.append_assoc]
  · intro p hp
    obtain ⟨e, he, hp⟩ := List.mem_flatMap.mp hp
    obtain ⟨value, hvalue, rfl⟩ := List.mem_map.mp hp
    exact (hparts e he).1 value hvalue

theorem partName_eq_iff {key name : Text} (hstamps : name ≠ stampsField) (hpart : name ≠ stampsPart) :
    partName key = name ↔ key = name := by
  unfold partName
  split
  · rename_i hkey
    subst hkey
    exact iff_of_false hpart.symm hstamps.symm
  · rfl

theorem partName_stamps_iff {key : Text} :
    partName key = stampsPart ↔ key = stampsField ∨ key = stampsPart := by
  unfold partName
  split <;> simp_all

theorem partName_ne {key : Text} : partName key ≠ stampsField := by
  unfold partName
  split
  · decide
  · assumption

section

variable {floatText : Float → Text} {fields : KeyMap Text Json}

def stampTexts (floatText : Float → Text) (fields : KeyMap Text Json) : List Text :=
  let texts (name : Text) : List Text :=
    ((fields.get name).map fun v => (fieldValues v).map (fieldText floatText)).getD []
  texts stampsField ++ texts stampsPart

theorem valuesAt_textParts (name : Text) : KeyMap.valuesAt name (textParts floatText fields) =
    fields.entries.flatMap fun e =>
      if partName e.1 = name then (fieldValues e.2).map (fieldText floatText) else [] := by
  rw [textParts, KeyMap.valuesAt_flatMap]
  simp only [KeyMap.valuesAt_map]

theorem valuesAt_stamps :
    KeyMap.valuesAt stampsPart (textParts floatText fields) = stampTexts floatText fields := by
  rw [valuesAt_textParts]
  simp only [partName_stamps_iff]
  exact fields.flatMap_keys (by decide : stampsField < stampsPart)
    fun v => (fieldValues v).map (fieldText floatText)

theorem valuesAt_field {name : Text} (hstamps : name ≠ stampsField) (hpart : name ≠ stampsPart)
    (hscalar : ∀ e ∈ fields.entries, e.1 ≠ stampsField → fieldValues e.2 = [e.2]) :
    KeyMap.valuesAt name (textParts floatText fields) =
      ((fields.get name).map (fieldText floatText)).toList := by
  rw [valuesAt_textParts]
  simp only [partName_eq_iff hstamps hpart]
  have hkey := fields.flatMap_key name fun v => (fieldValues v).map (fieldText floatText)
  rw [hkey]
  cases hvalue : fields.get name with
  | none => rfl
  | some value =>
    have hone := hscalar (name, value) (KeyMap.get_eq_some.mp hvalue) hstamps
    simp only at hone
    simp [hone]

theorem textParts_fit {boundary : Bytes}
    (hnames : ∀ name value, fields.get name = some value → fieldFits name ∧ name ≠ fileField)
    (hscalar : ∀ e ∈ fields.entries, e.1 ≠ stampsField → fieldValues e.2 = [e.2])
    (hclean : ∀ p ∈ textParts floatText fields, ¬ boundary <:+: encode p.2)
    (hshort : ∀ p ∈ textParts floatText fields, (encode p.2).length ≤ maxTextBytes) :
    TextsFit boundary ⟨[], .empty, none⟩ (textParts floatText fields) := by
  refine ⟨?_, fun _ _ => .inl List.not_mem_nil, ?_, hclean, hshort⟩
  · intro p hp
    obtain ⟨e, he, hp⟩ := List.mem_flatMap.mp hp
    obtain ⟨value, -, rfl⟩ := List.mem_map.mp hp
    obtain ⟨hfits, hfile⟩ := hnames e.1 e.2 (KeyMap.get_eq_some.mpr he)
    simp only
    refine ⟨?_, ?_, partName_ne⟩
    · unfold partName
      split
      · decide
      · exact hfits
    · unfold partName
      split
      · decide
      · exact hfile
  · rw [textParts, List.pairwise_flatMap]
    refine ⟨?_, ?_⟩
    · intro e he
      by_cases hstamps : e.1 = stampsField
      · refine List.pairwise_map.mpr (List.pairwise_of_forall fun _ _ => .inr ?_)
        exact partName_stamps_iff.mpr (.inl hstamps)
      · rw [hscalar e he hstamps]
        exact List.pairwise_singleton _ _
    · refine fields.sorted.imp fun {a b} hlt => ?_
      intro p hp q hq
      obtain ⟨v, -, rfl⟩ := List.mem_map.mp hp
      obtain ⟨w, -, rfl⟩ := List.mem_map.mp hq
      by_cases hb : b.1 = stampsField ∨ b.1 = stampsPart
      · exact .inr (partName_stamps_iff.mpr hb)
      · rw [not_or] at hb
        have hname : partName b.1 = b.1 := if_neg hb.1
        refine .inl ?_
        simp only [hname, ne_eq, partName_eq_iff hb.1 hb.2]
        exact hlt.ne

end

theorem trim_of_no_blank {t : Text} (h : ∀ c ∈ t, Text.isWhitespace c = false) : t.trim = t := by
  obtain ⟨before, after, hsplit, hbefore, hafter⟩ := Text.trim_split t
  have hnil : ∀ cut : Text, (∀ c ∈ cut, Text.isWhitespace c = true) → (∀ c ∈ cut, c ∈ t) →
      cut = [] := by
    intro cut hblank hmem
    refine List.eq_nil_iff_forall_not_mem.mpr fun c hc => ?_
    exact absurd (hblank c hc) (by simp [h c (hmem c hc)])
  have hbefore' : before = [] := hnil before hbefore fun c hc => by rw [hsplit]; simp [hc]
  have hafter' : after = [] := hnil after hafter fun c hc => by rw [hsplit]; simp [hc]
  rw [hbefore', hafter', List.nil_append, List.append_nil] at hsplit
  exact hsplit.symm

theorem trim_space (t : Text) : Text.trim (' ' :: t) = t.trim := by
  have hspace : Text.isWhitespace ' ' = true := by decide
  simp only [Text.trim, Text.trimStart, List.dropWhile_cons, hspace, if_true]

section

variable {boundary : Text}

theorem boundary_ascii (h : boundaryFits boundary) :
    ∀ c ∈ boundary, 0x20 < c.toNat ∧ c.toNat < 0x7F := by
  intro c hc
  simp only [boundaryFits, Bool.and_eq_true] at h
  exact boundaryChar_ascii (List.all_eq_true.mp h.2 c hc)

theorem parameters_contentType (h : boundaryFits boundary) :
    parameters ("multipart/form-data; boundary=".toList ++ boundary) =
      .ok ["multipart/form-data".toList, "boundary=".toList ++ boundary] := by
  have hplain : ∀ c ∈ boundary, plainChar c = true := by
    intro c hc
    simp only [boundaryFits, Bool.and_eq_true] at h
    exact boundaryChar_plain (List.all_eq_true.mp h.2 c hc)
  have hwords : "multipart/form-data; boundary=".toList =
      "multipart/form-data".toList ++ ';' :: ' ' :: "boundary=".toList := by decide
  have hblank : ∀ c ∈ "boundary=".toList ++ boundary, Text.isWhitespace c = false := by
    intro c hc
    have hword : ∀ c ∈ "boundary=".toList, Text.isWhitespace c = false :=
      List.all_iff_forall_prop.mp (by decide)
    obtain hc | hc := List.mem_append.mp hc
    · exact hword c hc
    · obtain ⟨hlo, hhi⟩ := boundary_ascii h c hc
      exact not_isWhitespace_ascii hlo hhi
  have hplain' : ∀ c ∈ ' ' :: ("boundary=".toList ++ boundary), plainChar c = true := by
    have hword : ∀ c ∈ ' ' :: "boundary=".toList, plainChar c = true :=
      List.all_iff_forall_prop.mp (by decide)
    rw [← List.cons_append]
    exact List.forall_mem_append.mpr ⟨hword, hplain⟩
  have hlast := parametersFrom_plain false hplain' [] []
  rw [List.append_nil, List.nil_append] at hlast
  rw [parameters, hwords]
  simp only [List.append_assoc, List.cons_append]
  rw [parametersFrom_plain _ (List.all_iff_forall_prop.mp (by decide)), parametersFrom_semicolon, hlast, parametersFrom,
    if_neg (by decide), trim_space, trim_of_no_blank hblank]
  rfl

theorem parameter_boundary (h : boundaryFits boundary) :
    parameter ["multipart/form-data".toList, "boundary=".toList ++ boundary] "boundary".toList =
      .ok (some boundary) := by
  have hword : "boundary=".toList ++ boundary = "boundary".toList ++ '=' :: boundary := by
    have hequals : "boundary=".toList = "boundary".toList ++ ['='] := by decide
    rw [hequals, List.append_assoc]
    rfl
  have hsplit := Text.splitOnce_append (by decide : '=' ∉ "boundary".toList) boundary
  have hkey : Text.eqIgnoreAsciiCase (Text.trim "boundary".toList) "boundary".toList := by decide
  have htrim : boundary.trim = boundary := trim_of_no_blank fun c hc => by
    obtain ⟨hlo, hhi⟩ := boundary_ascii h c hc
    exact not_isWhitespace_ascii hlo hhi
  have hunquoted : Text.stripPrefix ['"'] boundary = none := by
    rw [Text.stripPrefix_eq_none]
    intro hquote
    have hmem : '"' ∈ boundary := hquote.subset (by simp)
    simp only [boundaryFits, Bool.and_eq_true] at h
    exact absurd (List.all_eq_true.mp h.2 _ hmem) (by decide)
  simp only [parameter, List.tail_cons, parameterFrom, hword, hsplit, hkey, if_true,
    Option.isNone_none, require, htrim, unquoteParameter, hunquoted, bind, Except.bind]

end

/-- A parsed form that is given other fields and encoded parses again to the
same file and exactly the texts of the new fields. -/
theorem reparse_encoded (floatText : Float → Text) {contentType : Text} {bytes body : Bytes}
    {form : AudioForm} {fields : KeyMap Text Json}
    (hparse : AudioForm.parse contentType bytes = .ok form)
    (hnames : ∀ name value, fields.get name = some value → fieldFits name ∧ name ≠ fileField)
    (hencode : AudioForm.encode floatText { form with fields := fields } = .ok body)
    (hcount : (textParts floatText fields).length + 1 ≤ maxParts)
    (hshort : ∀ p ∈ textParts floatText fields, (encode p.2).length ≤ maxTextBytes) :
    ∃ again, AudioForm.parse (AudioForm.contentType { form with fields := fields }) body =
        .ok again ∧
      again.boundary = form.boundary ∧ again.fileHeaders = form.fileHeaders ∧
      again.file = form.file ∧
      (∀ name, name ≠ stampsField → name ≠ stampsPart → again.fields.get name =
        (fields.get name).map fun value => .string (fieldText floatText value)) ∧
      again.fields.get stampsPart = none ∧
      again.fields.get stampsField =
        if stampTexts floatText fields = [] then none
        else some (.array ((stampTexts floatText fields).map .string)) := by
  obtain ⟨hfits, hfile⟩ := parse_ok hparse
  obtain ⟨hbody, hclean, hscalar⟩ := encode_ok hencode
  simp only at hbody hclean hscalar
  have hreturn : (13 : UInt8) ∉ encode form.boundary := by
    refine return_not_mem_encode fun c hc => ?_
    have hascii := boundary_ascii hfits c hc
    omega
  have htexts := textParts_fit hnames hscalar hclean hshort
  have hparts := readParts_frames { form with fields := fields } hreturn hfile htexts
    List.not_mem_nil hcount
  generalize hseen : (textParts floatText fields).foldl Parts.withText ⟨[], .empty, none⟩ = seen
    at hparts
  have hfields : seen.fields = (textParts floatText fields).foldl addField .empty := by
    rw [← hseen, foldl_withText]
  have hstamps : ∀ p ∈ textParts floatText fields, p.1 ≠ stampsField :=
    fun p hp => (htexts.fits p hp).2.2
  have hopening : (opening (encode form.boundary)).isPrefixOf body := by
    rw [hbody]
    exact List.isPrefixOf_iff_prefix.mpr (List.prefix_append _ _)
  have hdrop : body.drop (opening (encode form.boundary)).length =
      framesFrom (encode form.boundary) { form with fields := fields }
        (textParts floatText fields) := by
    rw [hbody, List.drop_left]
  have hkind : Text.eqIgnoreAsciiCase "multipart/form-data".toList
      "multipart/form-data".toList := by decide
  refine ⟨⟨form.boundary, form.fileHeaders, form.file, seen.fields⟩, ?_, rfl, rfl, rfl, ?_, ?_, ?_⟩
  · unfold opening at hopening hdrop
    unfold AudioForm.parse AudioForm.contentType
    simp only [parameters_contentType hfits, parameter_boundary hfits, List.headD_cons, hkind,
      require, if_true, orError_some, hfits, hopening, hdrop, hparts, Parts.withFile, bind,
      Except.bind, pure, Except.pure]
  · intro name hname hpart
    simp only [hfields, get_foldl_field hname hpart, valuesAt_field hname hpart hscalar]
    cases fields.get name <;> rfl
  · rw [hfields, get_foldl_stampsPart]
  · rw [hfields, get_foldl_stamps hstamps, valuesAt_stamps]

def clipType : Text := "multipart/form-data; boundary=b".toList

def clipBytes : Bytes :=
  ascii "--b\r\nContent-Disposition: form-data; name=\"file\"; filename=\"a\"\r\n\r\nRIFF\r\n--b--"

def clipForm : AudioForm where
  boundary := ['b']
  fileHeaders := ascii "Content-Disposition: form-data; name=\"file\"; filename=\"a\""
  file := ascii "RIFF"
  fields := .empty

def clipFields : KeyMap Text Json := KeyMap.empty.insert "model".toList (.text "tiny")

def plainFloat (_ : Float) : Text := []

theorem parse_clip : AudioForm.parse clipType clipBytes = .ok clipForm := by
  have hparts : (AudioForm.parse clipType clipBytes).toOption.map
      (fun f => (f.boundary, f.fileHeaders, f.file, f.fields.entries.length)) =
        some (['b'], clipForm.fileHeaders, clipForm.file, 0) := by
    decide +kernel
  cases hparse : AudioForm.parse clipType clipBytes with
  | error message =>
    rw [hparse] at hparts
    cases hparts
  | ok form =>
    rw [hparse] at hparts
    obtain ⟨boundary, headers, file, fields⟩ := form
    simp only [Except.toOption, Option.map_some, Option.some.injEq, Prod.mk.injEq,
      List.length_eq_zero_iff] at hparts
    obtain ⟨rfl, rfl, rfl, hfields⟩ := hparts
    have hempty : fields = .empty := by
      cases fields
      cases hfields
      rfl
    rw [hempty]
    rfl

theorem reparse_encoded_clip : ∃ body again,
    AudioForm.encode plainFloat { clipForm with fields := clipFields } = .ok body ∧
      AudioForm.parse (AudioForm.contentType { clipForm with fields := clipFields }) body =
        .ok again ∧
      again.file = ascii "RIFF" ∧ again.fields.get "model".toList = some (.text "tiny") := by
  have hok : (AudioForm.encode plainFloat { clipForm with fields := clipFields }).isOk := by
    decide +kernel
  cases hencode : AudioForm.encode plainFloat { clipForm with fields := clipFields } with
  | error message =>
    rw [hencode] at hok
    cases hok
  | ok body =>
    have hnames : ∀ name value, clipFields.get name = some value →
        fieldFits name ∧ name ≠ fileField := by
      intro name value h
      rw [clipFields, KeyMap.get_insert] at h
      split at h
      · rename_i hname
        subst hname
        decide
      · cases h
    obtain ⟨again, hagain, -, -, hfile, hfields, -, -⟩ := reparse_encoded plainFloat parse_clip
      hnames hencode (by decide) (by decide)
    refine ⟨body, again, rfl, hagain, hfile, ?_⟩
    rw [hfields _ (by decide) (by decide)]
    rfl

/-- The file's own name passes the check of field names, but a text part of that
name is no file: the encoded form is refused. -/
theorem file_field_refused : ∃ (contentType : Text) (bytes : Bytes) (form : AudioForm)
    (fields : KeyMap Text Json) (body : Bytes),
    AudioForm.parse contentType bytes = .ok form ∧
      (∀ name value, fields.get name = some value → fieldFits name ∧ value.isString) ∧
      AudioForm.encode plainFloat { form with fields := fields } = .ok body ∧
      (textParts plainFloat fields).length + 1 ≤ maxParts ∧
      (∀ p ∈ textParts plainFloat fields, (encode p.2).length ≤ maxTextBytes) ∧
      ¬ (AudioForm.parse (AudioForm.contentType { form with fields := fields }) body).isOk := by
  have hok : (AudioForm.encode plainFloat
      { clipForm with fields := KeyMap.empty.insert fileField (.text "x") }).isOk := by
    decide +kernel
  have hrefused : ((AudioForm.encode plainFloat
      { clipForm with fields := KeyMap.empty.insert fileField (.text "x") }).toOption.map
        fun body => (AudioForm.parse clipForm.contentType body).isOk) = some false := by
    decide +kernel
  cases hencode : AudioForm.encode plainFloat
      { clipForm with fields := KeyMap.empty.insert fileField (.text "x") } with
  | error message =>
    rw [hencode] at hok
    cases hok
  | ok body =>
    rw [hencode] at hrefused
    refine ⟨clipType, clipBytes, clipForm, _, body, parse_clip, ?_, hencode, by decide, by decide,
      ?_⟩
    · intro name value h
      rw [KeyMap.get_insert] at h
      split at h
      · rename_i hname
        subst hname
        cases h
        decide
      · cases h
    · have hsame : (AudioForm.contentType { clipForm with
          fields := KeyMap.empty.insert fileField (.text "x") }) = clipForm.contentType := rfl
      simp only [Except.toOption, Option.map_some, Option.some.injEq] at hrefused
      rw [hsame, hrefused]
      decide

end AioLM.Gateway
