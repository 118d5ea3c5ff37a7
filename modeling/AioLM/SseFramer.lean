import AioLM.Framing
import AioLM.TextBytes
import Mathlib.Data.List.Induction

/-!
The strict framer of an event stream works byte by byte, with what it has not
dispatched yet kept between the chunks. A reference reading of the whole stream
cuts it into lines, the lines into blocks at the blank ones, and makes an event
of each block.
-/

set_option autoImplicit false

namespace AioLM.Sse

open Framing

def EVENT_LIMIT : Nat := 64 * 1024
def usizeMax : Nat := 2 ^ 64 - 1

def cr : UInt8 := 13
def lf : UInt8 := 10
def bom : Bytes := [0xEF, 0xBB, 0xBF]

structure Framer where
  pending : Bytes := []
  data : Text := []
  hasData : Bool := false
  eventType : Option Text := none
  total : Nat := 0
  skipLf : Bool := false
  started : Bool := false

/-- The data of an event and its type. -/
abbrev Emitted := Text × Option Text

structure Session where
  framer : Framer := {}
  emitted : List Emitted := []

/-- The callback, on all it has been given; it may stop the stream or fail. -/
abbrev Emit := List Emitted → Except Text Bool

def notUtf8 : Text := "SSE stream is not UTF-8".toList
def longEvent : Text := "SSE event exceeds 64 KiB".toList
def longLine : Text := "SSE line exceeds 64 KiB".toList
def longStream : Text := "SSE stream exceeds its response size limit".toList

def errorType : Text := "error".toList
def dataField : Text := "data".toList
def eventField : Text := "event".toList

def Framer.clear (framer : Framer) : Framer :=
  { framer with data := [], hasData := false, eventType := none }

def Session.event (emit : Emit) (s : Session) : Session × Except Text Bool :=
  if s.framer.hasData || s.framer.eventType = some errorType then
    let emitted := s.emitted ++ [(s.framer.data, s.framer.eventType)]
    match emit emitted with
    | .error message => ({ s with emitted }, .error message)
    | .ok stop => (⟨s.framer.clear, emitted⟩, .ok stop)
  else ({ s with framer := s.framer.clear }, .ok false)

def dropBom (line : Bytes) : Bytes := if bom.isPrefixOf line then line.drop bom.length else line

/-- A line at its first colon, without one blank before the value. -/
def splitField (line : Text) : Text × Text :=
  let (field, value) := (Text.splitOnce ':' line).getD (line, [])
  (field, (Text.stripPrefix [' '] value).getD value)

/-- A line that is not blank: comments, IDs and retry hints do nothing. -/
def Framer.field (line : Text) (framer : Framer) : Except Text Framer :=
  let (field, value) := splitField line
  if field = dataField then
    let separator := if framer.hasData then 1 else 0
    if EVENT_LIMIT < framer.data.utf8Len + separator + value.utf8Len then .error longEvent
    else
      .ok { framer with
        data := (if framer.hasData then framer.data ++ ['\n'] else framer.data) ++ value
        hasData := true }
  else if field = eventField then .ok { framer with eventType := some value }
  else .ok framer

def Session.line (emit : Emit) (s : Session) : Session × Except Text Bool :=
  let line := if s.framer.started then s.framer.pending else dropBom s.framer.pending
  let s : Session := { s with framer := { s.framer with started := true } }
  match TextBytes.decode line with
  | none => (s, .error notUtf8)
  | some [] => Session.event emit { s with framer := { s.framer with pending := [] } }
  | some line =>
    match s.framer.field line with
    | .error message => (s, .error message)
    | .ok framer => ({ s with framer := { framer with pending := [] } }, .ok false)

def Session.byte (emit : Emit) (limit : Nat) (byte : UInt8) (s : Session) :
    Session × Except Text Bool :=
  let total := min (s.framer.total + 1) usizeMax
  let s : Session := { s with framer := { s.framer with total } }
  if limit < total then (s, .error longStream)
  else if s.framer.skipLf && byte = lf then
    ({ s with framer := { s.framer with skipLf := false } }, .ok false)
  else
    let s : Session := { s with framer := { s.framer with skipLf := false } }
    if byte = cr ∨ byte = lf then
      match s.line emit with
      | (s, .ok stop) => ({ s with framer := { s.framer with skipLf := byte = cr } }, .ok stop)
      | (s, .error message) => (s, .error message)
    else
      let pending := s.framer.pending ++ [byte]
      let s : Session := { s with framer := { s.framer with pending } }
      if EVENT_LIMIT < pending.length then (s, .error longLine) else (s, .ok false)

def Session.push (emit : Emit) (limit : Nat) : Bytes → Session → Session × Except Text Bool
  | [], s => (s, .ok false)
  | byte :: chunk, s =>
    match s.byte emit limit byte with
    | (s, .ok false) => s.push emit limit chunk
    | stopped => stopped

/-- The chunks of a stream, as long as nothing stops it. -/
def Session.pushAll (emit : Emit) (limit : Nat) : List Bytes → Session → Session × Except Text Bool
  | [], s => (s, .ok false)
  | chunk :: chunks, s =>
    match s.push emit limit chunk with
    | (s, .ok false) => s.pushAll emit limit chunks
    | stopped => stopped

def unifyEnds : Bytes → Bytes
  | [] => []
  | [byte] => [if byte = cr then lf else byte]
  | byte :: next :: rest =>
    if byte = cr ∧ next = lf then lf :: unifyEnds rest
    else (if byte = cr then lf else byte) :: unifyEnds (next :: rest)

def rawLines (bytes : Bytes) : List Bytes := lines lf (unifyEnds bytes)

def pendingLine (bytes : Bytes) : Bytes := rest lf (unifyEnds bytes)

/-- Only the first line can open with a byte order mark. -/
def stripBom : List Bytes → List Bytes
  | [] => []
  | line :: lines => dropBom line :: lines

def decoded (bytes : Bytes) : Option (List Text) :=
  (stripBom (rawLines bytes)).mapM TextBytes.decode

def values (field : Text) (block : List Text) : List Text :=
  block.filterMap fun line => if (splitField line).1 = field then some (splitField line).2 else none

def blockData (block : List Text) : Text := List.intercalate ['\n'] (values dataField block)

def blockType (block : List Text) : Option Text := (values eventField block).getLast?

def dispatch (block : List Text) : Option Emitted :=
  if values dataField block ≠ [] ∨ blockType block = some errorType then
    some (blockData block, blockType block)
  else none

def blocks (texts : List Text) : List (List Text) := lines [] texts

/-- The lines since the last blank one. -/
def openBlock (texts : List Text) : List Text := rest [] texts

def events (texts : List Text) : List Emitted := (blocks texts).filterMap dispatch

/-- A stream within its limits, read as these lines. -/
structure Fits (limit : Nat) (bytes : Bytes) (texts : List Text) : Prop where
  total_le : min bytes.length usizeMax ≤ limit
  line_le : ∀ line ∈ rawLines bytes ++ [pendingLine bytes], line.length ≤ EVENT_LIMIT
  decoded_eq : decoded bytes = some texts
  event_le : ∀ block ∈ blocks texts ++ [openBlock texts], (blockData block).utf8Len ≤ EVENT_LIMIT

theorem unifyEnds_snoc (bytes : Bytes) (byte : UInt8) :
    unifyEnds (bytes ++ [byte]) =
      if byte = lf ∧ bytes.getLast? = some cr then unifyEnds bytes
      else unifyEnds bytes ++ [if byte = cr then lf else byte] := by
  induction bytes using unifyEnds.induct with
  | case1 => simp [unifyEnds]
  | case2 first =>
    by_cases hpair : first = cr ∧ byte = lf
    · simp [unifyEnds, hpair]
    · have hlast : ¬(byte = lf ∧ first = cr) := fun h => hpair ⟨h.2, h.1⟩
      simp [unifyEnds, hpair, hlast]
  | case3 first next rest hpair ih =>
    obtain ⟨rfl, rfl⟩ := hpair
    have hlast : (cr :: lf :: rest).getLast? = some cr ↔ rest.getLast? = some cr := by
      cases rest <;> simp [cr, lf]
    simp only [List.cons_append, unifyEnds, and_self, if_true, ih, hlast]
    split <;> rfl
  | case4 first next rest hpair ih =>
    simp only [List.cons_append, unifyEnds, hpair, if_false] at ih ⊢
    rw [ih, List.getLast?_cons_cons]
    by_cases hlast : byte = lf ∧ (next :: rest).getLast? = some cr <;> simp [hlast]

theorem lines_sep {α : Type} [DecidableEq α] (sep : α) (xs : List α) :
    lines sep (xs ++ [sep]) = lines sep xs ++ [rest sep xs] ∧ rest sep (xs ++ [sep]) = [] := by
  obtain ⟨hlines, hrest⟩ := frames_append sep xs [sep]
  rw [hlines, hrest, lines_line (rest_not_mem xs), rest_line (rest_not_mem xs)]
  exact ⟨rfl, rfl⟩

theorem lines_other {α : Type} [DecidableEq α] {sep x : α} (hx : x ≠ sep) (xs : List α) :
    lines sep (xs ++ [x]) = lines sep xs ∧ rest sep (xs ++ [x]) = rest sep xs ++ [x] := by
  have hnot : sep ∉ rest sep xs ++ [x] := by
    simp [rest_not_mem xs, Ne.symm hx]
  obtain ⟨hlines, hrest⟩ := frames_append sep xs [x]
  rw [hlines, hrest, lines_of_not_mem hnot, rest_of_not_mem hnot]
  exact ⟨List.append_nil _, rfl⟩

section

variable {bytes : Bytes} {byte : UInt8}

theorem cut_skipped (h : bytes.getLast? = some cr) :
    rawLines (bytes ++ [lf]) = rawLines bytes ∧ pendingLine (bytes ++ [lf]) = pendingLine bytes := by
  have hends : unifyEnds (bytes ++ [lf]) = unifyEnds bytes := by
    rw [unifyEnds_snoc, if_pos ⟨rfl, h⟩]
  simp only [rawLines, pendingLine, hends, and_self]

theorem cut_ended (hskip : ¬(byte = lf ∧ bytes.getLast? = some cr)) (hend : byte = cr ∨ byte = lf) :
    rawLines (bytes ++ [byte]) = rawLines bytes ++ [pendingLine bytes] ∧
      pendingLine (bytes ++ [byte]) = [] := by
  have hlf : (if byte = cr then lf else byte) = lf := by
    rcases hend with rfl | rfl <;> rfl
  simp only [rawLines, pendingLine, unifyEnds_snoc, hskip, if_false, hlf, lines_sep, and_self]

theorem cut_other (hend : ¬(byte = cr ∨ byte = lf)) :
    rawLines (bytes ++ [byte]) = rawLines bytes ∧
      pendingLine (bytes ++ [byte]) = pendingLine bytes ++ [byte] := by
  obtain ⟨hcr, hlf⟩ := not_or.mp hend
  simp only [rawLines, pendingLine, unifyEnds_snoc, hlf, hcr, false_and, if_false, ne_eq,
    not_false_eq_true, lines_other, and_self]

end

def lineBody (before : List Bytes) (line : Bytes) : Bytes :=
  if before = [] then dropBom line else line

theorem stripBom_snoc (before : List Bytes) (line : Bytes) :
    stripBom (before ++ [line]) = stripBom before ++ [lineBody before line] := by
  cases before <;> rfl

theorem decoded_ended {bytes bytes' : Bytes} {texts : List Text}
    (h : rawLines bytes' = rawLines bytes ++ [pendingLine bytes]) (hdecoded : decoded bytes = some texts) :
    decoded bytes' = (TextBytes.decode (lineBody (rawLines bytes) (pendingLine bytes))).map
      fun line => texts ++ [line] := by
  rw [decoded, h, stripBom_snoc, List.mapM_append]
  rw [decoded] at hdecoded
  rw [hdecoded]
  cases hline : TextBytes.decode (lineBody (rawLines bytes) (pendingLine bytes)) <;>
    simp [hline]

theorem intercalate_snoc {α : Type} (sep x : List α) (xs : List (List α)) :
    List.intercalate sep (xs ++ [x]) =
      if xs = [] then x else List.intercalate sep xs ++ sep ++ x := by
  induction xs with
  | nil => simp [List.intercalate]
  | cons y xs ih =>
    cases xs with
    | nil => simp [List.intercalate]
    | cons z xs => simpa [List.intercalate] using ih

theorem values_snoc (field : Text) (block : List Text) (line : Text) :
    values field (block ++ [line]) =
      if (splitField line).1 = field then values field block ++ [(splitField line).2]
      else values field block := by
  simp only [values, List.filterMap_append]
  split <;> simp_all

/-- What the framer keeps of the lines since the last blank one. -/
structure Collects (block : List Text) (framer : Framer) : Prop where
  data_eq : framer.data = blockData block
  hasData_iff : framer.hasData = true ↔ values dataField block ≠ []
  eventType_eq : framer.eventType = blockType block

theorem Collects.clear (framer : Framer) : Collects [] framer.clear :=
  ⟨rfl, by simp [Framer.clear, values], rfl⟩

theorem blockData_snoc (block : List Text) (line : Text) :
    blockData (block ++ [line]) =
      if (splitField line).1 = dataField then
        (if values dataField block ≠ [] then blockData block ++ ['\n'] else []) ++
          (splitField line).2
      else blockData block := by
  simp only [blockData, values_snoc]
  split
  · rw [intercalate_snoc]
    by_cases hnil : values dataField block = [] <;> simp [hnil]
  · rfl

theorem blockType_snoc (block : List Text) (line : Text) :
    blockType (block ++ [line]) =
      if (splitField line).1 = eventField then some (splitField line).2 else blockType block := by
  simp only [blockType, values_snoc]
  split <;> simp

theorem dataField_ne_eventField : dataField ≠ eventField := by decide

theorem Collects.field {block : List Text} {framer : Framer} (h : Collects block framer)
    (hlimit : (blockData block).utf8Len ≤ EVENT_LIMIT) (line : Text) :
    (∃ data hasData eventType, framer.field line = .ok { framer with data, hasData, eventType } ∧
      Collects (block ++ [line]) { framer with data, hasData, eventType } ∧
        (blockData (block ++ [line])).utf8Len ≤ EVENT_LIMIT) ∨
    ((∃ message, framer.field line = .error message) ∧
      EVENT_LIMIT < (blockData (block ++ [line])).utf8Len) := by
  obtain ⟨hdata, hhas, htype⟩ := h
  have hsnoc := blockData_snoc block line
  by_cases hfield : (splitField line).1 = dataField
  · have hevent : (splitField line).1 ≠ eventField := fun h =>
      dataField_ne_eventField (hfield.symm.trans h)
    have hnext : (if framer.hasData then framer.data ++ ['\n'] else framer.data) ++
        (splitField line).2 = blockData (block ++ [line]) := by
      rw [hsnoc, if_pos hfield, hdata]
      by_cases hvalues : values dataField block = []
      · have hempty : blockData block = [] := by simp [blockData, hvalues, List.intercalate]
        simp [hhas, hvalues, hempty]
      · simp [hhas, hvalues]
    have hlen : framer.data.utf8Len + (if framer.hasData then 1 else 0) +
        (splitField line).2.utf8Len = (blockData (block ++ [line])).utf8Len := by
      rw [← hnext]
      split <;> simp [show '\n'.utf8Size = 1 from rfl, Nat.add_assoc]
    by_cases hlong : EVENT_LIMIT < (blockData (block ++ [line])).utf8Len
    · refine .inr ⟨⟨longEvent, ?_⟩, hlong⟩
      simp only [Framer.field, hfield, if_true, hlen, hlong]
    · refine .inl ⟨blockData (block ++ [line]), true, framer.eventType, ?_, ⟨rfl, ?_, ?_⟩,
        Nat.le_of_not_lt hlong⟩
      · simp only [Framer.field, hfield, if_true, hlen, hlong, if_false, hnext]
      · simp [values_snoc, hfield]
      · rw [blockType_snoc, if_neg hevent, htype]
  · have hkept : blockData (block ++ [line]) = blockData block := by rw [hsnoc, if_neg hfield]
    refine .inl ⟨framer.data, framer.hasData,
      if (splitField line).1 = eventField then some (splitField line).2 else framer.eventType,
      ?_, ⟨?_, ?_, ?_⟩, ?_⟩
    · simp only [Framer.field, hfield, if_false]
      split <;> rfl
    · exact hdata.trans hkept.symm
    · simpa only [values_snoc, hfield, if_false] using hhas
    · rw [blockType_snoc, htype]
    · rwa [hkept]

/-- The framer after the bytes read so far, which hold these lines. -/
structure Shows (bytes : Bytes) (texts : List Text) (s : Session) : Prop where
  pending_eq : s.framer.pending = pendingLine bytes
  started_iff : s.framer.started = true ↔ rawLines bytes ≠ []
  skipLf_iff : s.framer.skipLf = true ↔ bytes.getLast? = some cr
  total_eq : s.framer.total = min bytes.length usizeMax
  collects : Collects (openBlock texts) s.framer
  emitted_eq : s.emitted = events texts

theorem shows_fresh : Shows [] [] {} :=
  ⟨rfl, by simp [rawLines, unifyEnds, lines, frames], by simp, rfl,
    ⟨rfl, by simp [openBlock, rest, frames, values], rfl⟩, rfl⟩

theorem fits_nil (limit : Nat) : Fits limit [] [] := by
  refine ⟨by simp, fun line hline => ?_, rfl, fun block hblock => ?_⟩
  · obtain rfl : line = [] := by
      simpa [rawLines, pendingLine, unifyEnds, lines, rest, frames] using hline
    exact Nat.zero_le _
  · obtain rfl : block = [] := by
      simpa [blocks, openBlock, lines, rest, frames] using hblock
    exact Nat.zero_le _

theorem events_blank (texts : List Text) :
    events (texts ++ [[]]) = events texts ++ (dispatch (openBlock texts)).toList := by
  rw [events, blocks, (lines_sep ([] : Text) texts).1, List.filterMap_append]
  rw [openBlock]
  cases hdispatch : dispatch (rest [] texts) <;> simp [events, blocks, hdispatch]

theorem events_other {line : Text} (h : line ≠ []) (texts : List Text) :
    events (texts ++ [line]) = events texts := by
  rw [events, blocks, (lines_other h texts).1]
  rfl

theorem event_shows {emit : Emit} (hemit : ∀ emitted, emit emitted = .ok false) {texts : List Text}
    {s : Session} (hcollects : Collects (openBlock texts) s.framer)
    (hemitted : s.emitted = events texts) :
    s.event emit = (⟨s.framer.clear, events (texts ++ [[]])⟩, .ok false) := by
  have hevent : (s.framer.hasData || s.framer.eventType = some errorType) =
      decide (values dataField (openBlock texts) ≠ [] ∨
        blockType (openBlock texts) = some errorType) := by
    rw [Bool.eq_iff_iff]
    simp [hcollects.hasData_iff, hcollects.eventType_eq]
  rw [Session.event, hevent, events_blank, dispatch, hemitted, hcollects.data_eq,
    hcollects.eventType_eq]
  split <;> simp_all

theorem line_shows {emit : Emit} (hemit : ∀ emitted, emit emitted = .ok false) {limit : Nat}
    {bytes : Bytes} {texts : List Text} {s : Session} (hfits : Fits limit bytes texts)
    (hpending : s.framer.pending = pendingLine bytes)
    (hstarted : s.framer.started = true ↔ rawLines bytes ≠ [])
    (hcollects : Collects (openBlock texts) s.framer) (hemitted : s.emitted = events texts) :
    (∃ line framer, TextBytes.decode (lineBody (rawLines bytes) (pendingLine bytes)) = some line ∧
      (∀ block ∈ blocks (texts ++ [line]) ++ [openBlock (texts ++ [line])],
        (blockData block).utf8Len ≤ EVENT_LIMIT) ∧
      Collects (openBlock (texts ++ [line])) framer ∧ framer.pending = [] ∧
      framer.started = true ∧ framer.total = s.framer.total ∧
      s.line emit = (⟨framer, events (texts ++ [line])⟩, .ok false)) ∨
    ((∃ message framer, s.line emit = (⟨framer, s.emitted⟩, .error message) ∧
      framer.total = s.framer.total) ∧
      ∀ line, TextBytes.decode (lineBody (rawLines bytes) (pendingLine bytes)) = some line →
        ¬ ∀ block ∈ blocks (texts ++ [line]) ++ [openBlock (texts ++ [line])],
          (blockData block).utf8Len ≤ EVENT_LIMIT) := by
  have hbody : (if s.framer.started then s.framer.pending else dropBom s.framer.pending) =
      lineBody (rawLines bytes) (pendingLine bytes) := by
    rw [lineBody, hpending]
    by_cases hnil : rawLines bytes = [] <;> simp [hstarted, hnil]
  cases hdecode : TextBytes.decode (lineBody (rawLines bytes) (pendingLine bytes)) with
  | none =>
    refine .inr ⟨⟨notUtf8, { s.framer with started := true }, ?_, rfl⟩, fun line h => nomatch h⟩
    simp only [Session.line, hbody, hdecode]
  | some line =>
    have hevents := hfits.event_le
    by_cases hblank : line = []
    · subst hblank
      obtain ⟨hblocks, hopen⟩ := lines_sep ([] : Text) texts
      refine .inl ⟨[], Framer.clear { s.framer with started := true, pending := [] }, rfl, ?_, ?_,
        rfl, rfl, rfl, ?_⟩
      · rw [blocks, hblocks, openBlock, hopen, List.forall_mem_append]
        exact ⟨hevents, by simp [blockData, values, List.intercalate]⟩
      · rw [openBlock, hopen]
        exact Collects.clear _
      · simp only [Session.line, hbody, hdecode]
        have hcollects' : Collects (openBlock texts) { s.framer with started := true, pending := [] } :=
          ⟨hcollects.data_eq, hcollects.hasData_iff, hcollects.eventType_eq⟩
        exact event_shows (s := ⟨_, s.emitted⟩) hemit hcollects' hemitted
    · obtain ⟨hblocks, hopen⟩ := lines_other hblank texts
      have hcollects' : Collects (openBlock texts) { s.framer with started := true } :=
        ⟨hcollects.data_eq, hcollects.hasData_iff, hcollects.eventType_eq⟩
      obtain ⟨hbefore, hlast⟩ := List.forall_mem_append.mp hevents
      have hline : s.line emit =
          match Framer.field line { s.framer with started := true } with
          | .error message => (⟨{ s.framer with started := true }, s.emitted⟩, .error message)
          | .ok framer => (⟨{ framer with pending := [] }, s.emitted⟩, .ok false) := by
        simp only [Session.line, hbody, hdecode]
      rcases hcollects'.field (hlast _ (by simp)) line with
        ⟨data, hasData, eventType, hfield, hnext, hlength⟩ | ⟨⟨message, hfield⟩, hlong⟩
      · refine .inl ⟨line, { s.framer with
            started := true, pending := [], data, hasData, eventType }, rfl, ?_, ?_, rfl, rfl, rfl, ?_⟩
        · rw [blocks, hblocks, openBlock, hopen]
          exact List.forall_mem_append.mpr ⟨hbefore, by simpa [openBlock] using hlength⟩
        · rw [openBlock, hopen]
          exact ⟨hnext.data_eq, hnext.hasData_iff, hnext.eventType_eq⟩
        · rw [hline, hfield, events_other hblank, hemitted]
      · refine .inr ⟨⟨message, { s.framer with started := true }, by rw [hline, hfield], rfl⟩,
          fun line' hline' hall => ?_⟩
        cases hline'
        have hlast' := hall (openBlock texts ++ [line]) (by simp [openBlock, hopen])
        omega

/-- The limits and the text of a stream that goes on do not depend on the byte itself where
the lines stay as they are. -/
theorem Fits.skipped {limit : Nat} {bytes bytes' : Bytes} {texts : List Text}
    (hfits : Fits limit bytes texts) (hlines : rawLines bytes' = rawLines bytes)
    (hpending : (pendingLine bytes').length ≤ EVENT_LIMIT)
    (htotal : min bytes'.length usizeMax ≤ limit) : Fits limit bytes' texts := by
  refine ⟨htotal, ?_, by rw [decoded, hlines]; exact hfits.decoded_eq, hfits.event_le⟩
  rw [hlines]
  exact List.forall_mem_append.mpr
    ⟨(List.forall_mem_append.mp hfits.line_le).1, by simpa using hpending⟩

/-- After one more byte the framer shows the longer stream, or has failed at this byte and
the longer stream does not fit. -/
def Continues (limit : Nat) (bytes : Bytes) (s : Session) (outcome : Session × Except Text Bool) :
    Prop :=
  (∃ texts, Fits limit bytes texts ∧ Shows bytes texts outcome.1 ∧ outcome.2 = .ok false) ∨
    ((∀ texts, ¬ Fits limit bytes texts) ∧ (∃ message, outcome.2 = .error message) ∧
      outcome.1.emitted = s.emitted ∧ outcome.1.framer.total = min bytes.length usizeMax)

theorem byte_shows {emit : Emit} (hemit : ∀ emitted, emit emitted = .ok false) {limit : Nat}
    {bytes : Bytes} {texts : List Text} {s : Session} (hfits : Fits limit bytes texts)
    (hshows : Shows bytes texts s) (byte : UInt8) :
    Continues limit (bytes ++ [byte]) s (s.byte emit limit byte) := by
  obtain ⟨hpending, hstarted, hskip, htotal, hcollects, hemitted⟩ := hshows
  have hlength : min (s.framer.total + 1) usizeMax = min (bytes ++ [byte]).length usizeMax := by
    rw [htotal, List.length_append, List.length_singleton]
    omega
  have hlast : (bytes ++ [byte]).getLast? = some byte := List.getLast?_concat
  by_cases hlong : limit < min (bytes ++ [byte]).length usizeMax
  · refine .inr ⟨fun texts' hfits' => Nat.not_lt_of_le hfits'.total_le hlong, ⟨longStream, ?_⟩, ?_, ?_⟩ <;>
      simp only [Session.byte, hlength, if_pos hlong]
  have hfit := Nat.le_of_not_lt hlong
  by_cases hpair : byte = lf ∧ bytes.getLast? = some cr
  · obtain ⟨rfl, hcr⟩ := hpair
    obtain ⟨hlines, hrest⟩ := cut_skipped hcr
    have hbyte : s.byte emit limit lf =
        ({ s with framer := { s.framer with
            total := min (bytes ++ [lf]).length usizeMax, skipLf := false } }, .ok false) := by
      simp only [Session.byte, hlength, if_neg hlong, hskip.mpr hcr, decide_true, Bool.and_self,
        if_true]
    have hcase := (List.forall_mem_append.mp hfits.line_le).2 (pendingLine bytes) (by simp)
    refine .inl ⟨texts, hfits.skipped hlines (by rwa [hrest]) hfit, ?_, by rw [hbyte]⟩
    rw [hbyte]
    exact ⟨by rw [hrest]; exact hpending, by rw [hlines]; exact hstarted, by rw [hlast]; simp [lf, cr],
      rfl, ⟨hcollects.data_eq, hcollects.hasData_iff, hcollects.eventType_eq⟩, hemitted⟩
  have hnoskip : (s.framer.skipLf && decide (byte = lf)) = false := by
    by_contra h
    simp [hskip] at h
    exact hpair ⟨h.2, h.1⟩
  by_cases hend : byte = cr ∨ byte = lf
  · obtain ⟨hlines, hrest⟩ := cut_ended hpair hend
    have hdecoded : decoded (bytes ++ [byte]) =
        (TextBytes.decode (lineBody (rawLines bytes) (pendingLine bytes))).map
          fun line => texts ++ [line] := decoded_ended hlines hfits.decoded_eq
    let s₀ : Session := { s with framer := { s.framer with
      total := min (bytes ++ [byte]).length usizeMax, skipLf := false } }
    have hbyte : s.byte emit limit byte =
        match s₀.line emit with
        | (s, .ok stop) => ({ s with framer := { s.framer with skipLf := byte = cr } }, .ok stop)
        | (s, .error message) => (s, .error message) := by
      simp only [Session.byte, hlength, if_neg hlong, hnoskip, if_pos hend, Bool.false_eq_true,
        if_false, s₀]
    rw [hbyte]
    rcases line_shows (s := s₀) hemit hfits hpending hstarted
        ⟨hcollects.data_eq, hcollects.hasData_iff, hcollects.eventType_eq⟩ hemitted with
      ⟨line, framer, hline, hevents, hcollects', hempty, hstart, htotal', hrun⟩ |
        ⟨⟨message, framer, hrun, htotal'⟩, hnone⟩
    · rw [hrun]
      refine .inl ⟨texts ++ [line], ⟨hfit, ?_, by rw [hdecoded, hline]; rfl, hevents⟩, ?_, rfl⟩
      · rw [hlines, hrest]
        exact List.forall_mem_append.mpr ⟨hfits.line_le, by simp⟩
      · exact ⟨hempty.trans hrest.symm, by simp [hstart, hlines], by simp [hlast], htotal',
          ⟨hcollects'.data_eq, hcollects'.hasData_iff, hcollects'.eventType_eq⟩, rfl⟩
    · rw [hrun]
      refine .inr ⟨fun texts' hfits' => ?_, ⟨message, rfl⟩, rfl, htotal'⟩
      have htexts := hdecoded.symm.trans hfits'.decoded_eq
      obtain ⟨line, hline, rfl⟩ := Option.map_eq_some_iff.mp htexts
      exact hnone line hline hfits'.event_le
  · obtain ⟨hlines, hrest⟩ := cut_other hend
    have hbyte : s.byte emit limit byte =
        (let framer := { s.framer with
          total := min (bytes ++ [byte]).length usizeMax, skipLf := false,
          pending := pendingLine bytes ++ [byte] }
         if EVENT_LIMIT < (pendingLine bytes ++ [byte]).length then
           (⟨framer, s.emitted⟩, .error longLine)
         else (⟨framer, s.emitted⟩, .ok false)) := by
      simp only [Session.byte, hlength, if_neg hlong, hnoskip, if_neg hend, hpending,
        Bool.false_eq_true, if_false]
    rw [hbyte]
    by_cases hline : EVENT_LIMIT < (pendingLine bytes ++ [byte]).length
    · simp only [if_pos hline]
      refine .inr ⟨fun texts' hfits' => ?_, ⟨longLine, rfl⟩, rfl, rfl⟩
      have hle := hfits'.line_le (pendingLine (bytes ++ [byte])) (by simp)
      rw [hrest] at hle
      omega
    · simp only [if_neg hline]
      refine .inl ⟨texts, hfits.skipped hlines (by rw [hrest]; omega) hfit, ?_, rfl⟩
      exact ⟨hrest.symm, by rw [hlines]; exact hstarted,
        by rw [hlast]; simpa using fun h => hend (.inl h), rfl,
        ⟨hcollects.data_eq, hcollects.hasData_iff, hcollects.eventType_eq⟩, hemitted⟩

section

variable (emit : Emit) (limit : Nat)

theorem push_append (xs ys : Bytes) (s : Session) :
    s.push emit limit (xs ++ ys) =
      match s.push emit limit xs with
      | (s, .ok false) => s.push emit limit ys
      | stopped => stopped := by
  induction xs generalizing s with
  | nil => rfl
  | cons byte xs ih =>
    simp only [List.cons_append, Session.push]
    rcases s.byte emit limit byte with ⟨s', result⟩
    match result with
    | .ok false => exact ih s'
    | .ok true => rfl
    | .error message => rfl

theorem pushAll_eq_push (chunks : List Bytes) (s : Session) :
    s.pushAll emit limit chunks = s.push emit limit chunks.flatten := by
  induction chunks generalizing s with
  | nil => rfl
  | cons chunk chunks ih =>
    rw [List.flatten_cons, push_append, Session.pushAll]
    rcases s.push emit limit chunk with ⟨s', result⟩
    match result with
    | .ok false => exact ih s'
    | .ok true => rfl
    | .error message => rfl

end

def FitsThroughout (limit : Nat) (bytes : Bytes) : Prop :=
  ∀ before, before <+: bytes → ∃ texts, Fits limit before texts

theorem FitsThroughout.snoc {limit : Nat} {bytes : Bytes} {byte : UInt8} {texts : List Text}
    (h : FitsThroughout limit bytes) (hfits : Fits limit (bytes ++ [byte]) texts) :
    FitsThroughout limit (bytes ++ [byte]) := by
  intro before hbefore
  rcases List.prefix_concat_iff.mp hbefore with rfl | hshort
  · exact ⟨texts, hfits⟩
  · exact h before hshort

/-- The stream fits up to a byte and not with it: there the framer fails, with the events
before it. -/
structure FailsAt (limit : Nat) (before : Bytes) (byte : UInt8)
    (outcome : Session × Except Text Bool) : Prop where
  fits_before : FitsThroughout limit before
  not_fits : ∀ texts, ¬ Fits limit (before ++ [byte]) texts
  error : ∃ message, outcome.2 = .error message
  emitted_eq : ∃ texts, Fits limit before texts ∧ outcome.1.emitted = events texts
  total_eq : outcome.1.framer.total = min (before.length + 1) usizeMax

theorem push_reference {emit : Emit} (hemit : ∀ emitted, emit emitted = .ok false) (limit : Nat)
    (bytes : Bytes) :
    (FitsThroughout limit bytes ∧ ∃ texts, Fits limit bytes texts ∧
      Shows bytes texts (Session.push emit limit bytes {}).1 ∧
        (Session.push emit limit bytes {}).2 = .ok false) ∨
    ∃ before byte after, bytes = before ++ byte :: after ∧
      FailsAt limit before byte (Session.push emit limit bytes {}) := by
  induction bytes using List.reverseRecOn with
  | nil =>
    refine .inl ⟨fun before hbefore => ?_, [], fits_nil limit, shows_fresh, rfl⟩
    rw [List.prefix_nil.mp hbefore]
    exact ⟨[], fits_nil limit⟩
  | append_singleton bytes byte ih =>
    rw [push_append]
    rcases ih with ⟨hthroughout, texts, hfits, hshows, hok⟩ | ⟨before, first, after, hbytes, hfails⟩
    · generalize hrun : Session.push emit limit bytes {} = run at hshows hok
      obtain ⟨s, result⟩ := run
      obtain rfl : result = .ok false := hok
      have hstep := byte_shows hemit hfits hshows byte
      simp only [Session.push]
      generalize s.byte emit limit byte = outcome at hstep
      obtain ⟨s', result⟩ := outcome
      rcases hstep with ⟨texts', hfits', hshows', hok'⟩ | ⟨hnot, ⟨message, herror⟩, hemitted, htotal⟩
      · obtain rfl : result = .ok false := hok'
        exact .inl ⟨hthroughout.snoc hfits', texts', hfits', hshows', rfl⟩
      · obtain rfl : result = .error message := herror
        refine .inr ⟨bytes, byte, [], rfl, hthroughout, hnot, ⟨message, rfl⟩, ⟨texts, hfits, ?_⟩, ?_⟩
        · exact hemitted.trans hshows.emitted_eq
        · simpa using htotal
    · obtain ⟨message, herror⟩ := hfails.error
      generalize Session.push emit limit bytes {} = run at hfails herror
      obtain ⟨s, result⟩ := run
      obtain rfl : result = .error message := herror
      exact .inr ⟨before, first, after ++ [byte], by rw [hbytes]; simp, hfails⟩

theorem blockData_le_snoc (block : List Text) (line : Text) :
    (blockData block).utf8Len ≤ (blockData (block ++ [line])).utf8Len := by
  rw [blockData_snoc]
  split
  · by_cases hvalues : values dataField block = []
    · simp [blockData, hvalues, List.intercalate]
    · simp [hvalues]
  · exact Nat.le_refl _

theorem event_le_of_snoc {texts : List Text} {line : Text}
    (h : ∀ block ∈ blocks (texts ++ [line]) ++ [openBlock (texts ++ [line])],
      (blockData block).utf8Len ≤ EVENT_LIMIT) :
    ∀ block ∈ blocks texts ++ [openBlock texts], (blockData block).utf8Len ≤ EVENT_LIMIT := by
  by_cases hblank : line = []
  · subst hblank
    obtain ⟨hblocks, -⟩ := lines_sep ([] : Text) texts
    rw [blocks, hblocks] at h
    exact (List.forall_mem_append.mp h).1
  · obtain ⟨hblocks, hopen⟩ := lines_other hblank texts
    rw [blocks, hblocks, openBlock, hopen] at h
    obtain ⟨hbefore, hlast⟩ := List.forall_mem_append.mp h
    refine List.forall_mem_append.mpr ⟨hbefore, ?_⟩
    simpa [openBlock] using (blockData_le_snoc _ line).trans (hlast _ (by simp))

theorem Fits.before {limit : Nat} {bytes : Bytes} {byte : UInt8} {texts : List Text}
    (h : Fits limit (bytes ++ [byte]) texts) : ∃ texts, Fits limit bytes texts := by
  obtain ⟨htotal, hline, hdecoded, hevent⟩ := h
  have htotal' : min bytes.length usizeMax ≤ limit := by
    rw [List.length_append] at htotal
    omega
  by_cases hpair : byte = lf ∧ bytes.getLast? = some cr
  · obtain ⟨rfl, hcr⟩ := hpair
    obtain ⟨hlines, hrest⟩ := cut_skipped hcr
    rw [hlines, hrest] at hline
    rw [decoded, hlines] at hdecoded
    exact ⟨texts, htotal', hline, hdecoded, hevent⟩
  by_cases hend : byte = cr ∨ byte = lf
  · obtain ⟨hlines, hrest⟩ := cut_ended hpair hend
    rw [hlines] at hline
    cases hbefore : decoded bytes with
    | none =>
      rw [decoded, hlines, stripBom_snoc, List.mapM_append] at hdecoded
      rw [decoded] at hbefore
      rw [hbefore] at hdecoded
      cases hdecoded
    | some texts' =>
      have hmap := (decoded_ended hlines hbefore).symm.trans hdecoded
      obtain ⟨line, -, rfl⟩ := Option.map_eq_some_iff.mp hmap
      exact ⟨texts', htotal', (List.forall_mem_append.mp hline).1, hbefore, event_le_of_snoc hevent⟩
  · obtain ⟨hlines, hrest⟩ := cut_other hend
    rw [hlines, hrest] at hline
    rw [decoded, hlines] at hdecoded
    obtain ⟨hfirst, hlast⟩ := List.forall_mem_append.mp hline
    refine ⟨texts, htotal', List.forall_mem_append.mpr ⟨hfirst, ?_⟩, hdecoded, hevent⟩
    have hlength := hlast _ (List.mem_singleton_self _)
    rw [List.length_append] at hlength
    simp only [List.mem_singleton, forall_eq]
    omega

theorem Fits.of_prefix {limit : Nat} {before after : Bytes} {texts : List Text}
    (h : Fits limit (before ++ after) texts) : ∃ texts, Fits limit before texts := by
  induction after using List.reverseRecOn generalizing texts with
  | nil => exact ⟨texts, by simpa using h⟩
  | append_singleton after byte ih =>
    rw [← List.append_assoc] at h
    obtain ⟨texts', h'⟩ := h.before
    exact ih h'

/-- A stream in any chunks, with a callback that never stops it: while it fits the framer emits
the events of the reference, otherwise it fails at the first byte with which the
stream does not fit. -/
theorem framer_reference (emit : Emit) (hemit : ∀ emitted, emit emitted = .ok false) (limit : Nat)
    (chunks : List Bytes) :
    (∀ texts, Fits limit chunks.flatten texts →
      (Session.pushAll emit limit chunks {}).2 = .ok false ∧
        (Session.pushAll emit limit chunks {}).1.emitted = events texts) ∧
    ((∀ texts, ¬ Fits limit chunks.flatten texts) →
      ∃ before byte after, chunks.flatten = before ++ byte :: after ∧
        FailsAt limit before byte (Session.pushAll emit limit chunks {})) := by
  rw [pushAll_eq_push]
  rcases push_reference hemit limit chunks.flatten with
    ⟨-, texts, hfits, hshows, hok⟩ | ⟨before, byte, after, hbytes, hfails⟩
  · refine ⟨fun texts' hfits' => ⟨hok, ?_⟩, fun hnone => absurd hfits (hnone texts)⟩
    rw [hshows.emitted_eq, Option.some.inj (hfits.decoded_eq.symm.trans hfits'.decoded_eq)]
  · refine ⟨fun texts hfits => ?_, fun _ => ⟨before, byte, after, hbytes, hfails⟩⟩
    rw [hbytes, ← List.singleton_append, ← List.append_assoc] at hfits
    obtain ⟨texts', hfits'⟩ := hfits.of_prefix
    exact absurd hfits' (hfails.not_fits texts')

/-- A pair of ends cut between its bytes, a mark, a comment and two lines of data. -/
def spokenChunks : List Bytes :=
  [bom ++ TextBytes.ascii "data: a\r", TextBytes.ascii "\n:\ndata:b\n", TextBytes.ascii "\r\n"]

def spokenLines : List Text := ["data: a".toList, ":".toList, "data:b".toList, []]

theorem fits_spoken : Fits 64 spokenChunks.flatten spokenLines where
  total_le := by decide
  line_le := by decide
  decoded_eq := by decide
  event_le := by decide

theorem framer_reference_spoken :
    (Session.pushAll (fun _ => .ok false) 64 spokenChunks {}).1.emitted =
      [("a\nb".toList, none)] := by
  rw [((framer_reference (fun _ => .ok false) (fun _ => rfl) 64 spokenChunks).1 _ fits_spoken).2]
  decide

end AioLM.Sse
