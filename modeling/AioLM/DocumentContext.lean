import AioLM.ChatHistory
import Mathlib.Algebra.Order.Floor.Ring
import Mathlib.Data.Rat.Floor
import Mathlib.Data.List.Forall2
import Mathlib.Order.WithBot

/-!
The documents of a message as a part of its text: excerpts in the order of attachment, cut to a
budget of characters.
-/

set_option autoImplicit false

namespace AioLM.ChatUtils

open ChatHistory (JsString units)

structure DocumentAttachment where
  name : JsString
  path : JsString
  text : JsString
  deriving DecidableEq

structure DocumentChunk where
  document : DocumentAttachment
  text : JsString
  score : Nat
  order : Nat
  offset : Nat
  deriving DecidableEq

/-- Built-in functions that go by the locale or by Unicode properties: `toLocaleLowerCase`,
the matches of `/[\\p{L}\\p{N}_-]{2,}/gu`, and `localeCompare`. -/
structure Locale where
  lower : JsString → JsString
  words : JsString → List JsString
  compare : JsString → JsString → Int

def documentChunkSize : Nat := 1800

def queryTerms (locale : Locale) (query : JsString) : List JsString :=
  ((locale.words (locale.lower query)).take 32).eraseDups

/-- The matches that do not overlap, from behind the units still to be skipped. -/
def countFrom (term : JsString) : Nat → JsString → Nat
  | _, [] => 0
  | skip + 1, _ :: rest => countFrom term skip rest
  | 0, unit :: rest =>
    if term.isPrefixOf (unit :: rest) then 1 + countFrom term (term.length - 1) rest
    else countFrom term 0 rest

def countTerm (text term : JsString) : Nat := countFrom term 0 text

def splitDocument (size : Nat) (document : DocumentAttachment) : List DocumentChunk :=
  (List.range ((document.text.length + size - 1) / size)).map fun order =>
    ⟨document, (document.text.drop (order * size)).take size, 0, order, order * size⟩

def splitDocumentChunks (documents : List DocumentAttachment) (size : Nat) : List DocumentChunk :=
  documents.flatMap (splitDocument size)

/-- The comparison of `sort`. -/
def rankOrder (locale : Locale) (left right : DocumentChunk) : Int :=
  if right.score ≠ left.score then (right.score : Int) - left.score
  else if locale.compare left.document.name right.document.name ≠ 0 then
    locale.compare left.document.name right.document.name
  else (left.order : Int) - right.order

def rankDocumentChunks (locale : Locale) (documents : List DocumentAttachment) (query : JsString) :
    List DocumentChunk :=
  let terms := queryTerms locale query
  ((splitDocumentChunks documents documentChunkSize).map fun chunk =>
      { chunk with score := (terms.map (countTerm (locale.lower chunk.text))).sum }).mergeSort
    fun left right => decide (rankOrder locale left right ≤ 0)

def sectionStart (document : DocumentAttachment) : JsString :=
  units "\n\n[Attached document: " ++ document.name ++ units "]\n"

def sectionEnd : JsString := units "\n[/Attached document]"

def truncationNote : JsString := units "\n[document excerpt truncated]"

/-- `Math.floor` of a number or of `Infinity`, which is `none`. -/
def floorOf (maxChars : WithTop ℚ) : Option Nat :=
  match maxChars with
  | none => none
  | some limit => some ⌊limit⌋.toNat

def budgetOf (maxChars : WithTop ℚ) : Option Nat := (floorOf maxChars).map (max 256)

/-- What is left for the text of a section; `some 0` also when the rest is negative. -/
def remaining (budget : Option Nat) (used : Nat) (document : DocumentAttachment) : Option Nat :=
  budget.map fun budget => budget - used - (sectionStart document).length - sectionEnd.length

def sliceTo (limit : Option Nat) (text : JsString) : JsString :=
  match limit with
  | none => text
  | some limit => text.take limit

def sectionOf (document : DocumentAttachment) (chunk : DocumentChunk) (text : JsString) : JsString :=
  sectionStart document ++ text ++
    (if text.length < chunk.text.length ∨ chunk.text.length < chunk.document.text.length then
      truncationNote else []) ++ sectionEnd

def addChunks (budget : Option Nat) (document : DocumentAttachment) :
    JsString → List DocumentChunk → JsString × Bool
  | context, [] => (context, false)
  | context, chunk :: rest =>
    let left := remaining budget context.length document
    if left = some 0 then (context, true)
    else addChunks budget document (context ++ sectionOf document chunk (sliceTo left chunk.text)) rest

def wholeChunk (document : DocumentAttachment) : DocumentChunk := ⟨document, document.text, 0, 0, 0⟩

def chunksOf (locale : Locale) (budget : Option Nat) (query : JsString)
    (document : DocumentAttachment) : List DocumentChunk :=
  if budget.all fun budget => decide (document.text.length ≤ budget) then [wholeChunk document]
  else rankDocumentChunks locale [document] query

def addDocuments (locale : Locale) (budget : Option Nat) (query : JsString) :
    JsString → List DocumentAttachment → JsString
  | context, [] => context
  | context, document :: rest =>
    if remaining budget context.length document = some 0 then context
    else
      match addChunks budget document context (chunksOf locale budget query document) with
      | (context, true) => context
      | (context, false) => addDocuments locale budget query context rest

def buildDocumentContext (locale : Locale) (documents : List DocumentAttachment)
    (maxChars : WithTop ℚ) (query : JsString) : JsString :=
  addDocuments locale (budgetOf maxChars) query [] documents

def excerptSection (document : DocumentAttachment) (excerpt : JsString) : JsString :=
  sectionStart document ++ excerpt ++ (if excerpt = document.text then [] else truncationNote) ++
    sectionEnd

def wholeSections (documents : List DocumentAttachment) : JsString :=
  documents.flatMap fun document => excerptSection document document.text

/-- No more characters than the limit, excerpts of the documents in the order of attachment, and
all documents as a whole when these are no more characters than the limit. -/
structure Faithful (documents : List DocumentAttachment) (limit : Option Nat)
    (context : JsString) : Prop where
  short : ∀ n, limit = some n → context.length ≤ n
  sections : ∃ excerpts : List (List JsString),
    List.Forall₂ (fun document texts => ∀ text ∈ texts, text <:+: document.text)
      documents excerpts ∧
    context = (documents.zip excerpts).flatMap fun entry => entry.2.flatMap (excerptSection entry.1)
  whole : (∀ n, limit = some n → (wholeSections documents).length ≤ n) →
    context = wholeSections documents

def sectionSize (chunk : DocumentChunk) : Nat :=
  (excerptSection chunk.document chunk.text).length

def Fits (limit : Nat) : Nat → List DocumentChunk → Prop
  | _, [] => True
  | used, chunk :: rest =>
    remaining (some limit) used chunk.document ≠ some 0 →
      used + sectionSize chunk ≤ limit ∧ Fits limit (used + sectionSize chunk) rest

def decidableFits (limit : Nat) : (used : Nat) → (chunks : List DocumentChunk) →
    Decidable (Fits limit used chunks)
  | _, [] => inferInstanceAs (Decidable True)
  | used, chunk :: rest =>
    have := decidableFits limit (used + sectionSize chunk) rest
    inferInstanceAs (Decidable (remaining (some limit) used chunk.document ≠ some 0 →
      used + sectionSize chunk ≤ limit ∧ Fits limit (used + sectionSize chunk) rest))

instance (limit used : Nat) (chunks : List DocumentChunk) : Decidable (Fits limit used chunks) :=
  decidableFits limit used chunks

def EmptyAtLimit (limit : Nat) (documents : List DocumentAttachment) : Prop :=
  (wholeSections documents).length = limit ∧ ∃ last, documents.getLast? = some last ∧ last.text = []

section Chunks

variable {locale : Locale} {budget : Option Nat} {query : JsString} {document : DocumentAttachment}
  {chunk : DocumentChunk} {chunks more : List DocumentChunk} {context : JsString}

def DocumentChunk.Within (chunk : DocumentChunk) : Prop := chunk.text <:+: chunk.document.text

theorem prefix_sliceTo (limit : Option Nat) (text : JsString) : sliceTo limit text <+: text := by
  cases limit with
  | none => exact List.prefix_rfl
  | some n => exact List.take_prefix n text

theorem sectionOf_eq {text : JsString} (hwithin : chunk.Within) (htext : text <+: chunk.text) :
    sectionOf chunk.document chunk text = excerptSection chunk.document text := by
  have hwhole : (text.length < chunk.text.length ∨
      chunk.text.length < chunk.document.text.length) ↔ text ≠ chunk.document.text := by
    have hshort := htext.length_le
    have hlong := List.IsInfix.length_le hwithin
    constructor
    · rintro h rfl
      omega
    · intro hne
      by_contra hsame
      rw [not_or, not_lt, not_lt] at hsame
      have hchunk : text = chunk.text := htext.eq_of_length_le hsame.1
      have hdocument : chunk.text = chunk.document.text :=
        List.IsInfix.eq_of_length_le hwithin hsame.2
      exact hne (hchunk.trans hdocument)
  rw [sectionOf, excerptSection]
  by_cases h : text = chunk.document.text
  · rw [if_neg (fun hlengths => hwhole.mp hlengths h), if_pos h]
  · rw [if_pos (hwhole.mpr h), if_neg h]

theorem mem_rankDocumentChunks (h : chunk ∈ rankDocumentChunks locale [document] query) :
    chunk.document = document ∧ chunk.Within := by
  obtain ⟨split, hsplit, rfl⟩ := List.mem_map.mp ((List.mergeSort_perm _ _).mem_iff.mp h)
  simp only [splitDocumentChunks, List.flatMap_cons, List.flatMap_nil, List.append_nil] at hsplit
  obtain ⟨order, -, rfl⟩ := List.mem_map.mp hsplit
  exact ⟨rfl, (List.take_prefix _ _).isInfix.trans (List.drop_suffix _ _).isInfix⟩

theorem mem_chunksOf (h : chunk ∈ chunksOf locale budget query document) :
    chunk.document = document ∧ chunk.Within := by
  unfold chunksOf at h
  split at h
  · obtain rfl := List.mem_singleton.mp h
    exact ⟨rfl, List.infix_rfl⟩
  · exact mem_rankDocumentChunks h

theorem chunksOf_ne_nil : chunksOf locale budget query document ≠ [] := by
  unfold chunksOf
  split
  · exact List.cons_ne_nil _ _
  · rename_i hlong
    have hlength : 0 < document.text.length := by
      cases budget with
      | none => simp at hlong
      | some n =>
        simp only [Option.all_some, decide_eq_true_eq, not_le] at hlong
        omega
    intro hnil
    have hlengths := (List.mergeSort_perm ((splitDocumentChunks [document] documentChunkSize).map
      fun chunk => { chunk with score := ((queryTerms locale query).map
        (countTerm (locale.lower chunk.text))).sum })
      fun left right => decide (rankOrder locale left right ≤ 0)).length_eq
    rw [rankDocumentChunks] at hnil
    rw [hnil] at hlengths
    simp only [List.length_nil, List.length_map, splitDocumentChunks, splitDocument,
      List.flatMap_cons, List.flatMap_nil, List.append_nil, List.length_range] at hlengths
    have hpos : 0 < (document.text.length + documentChunkSize - 1) / documentChunkSize :=
      Nat.div_pos (by unfold documentChunkSize; omega) (by decide)
    omega

def place (budget : Option Nat) : JsString → List DocumentChunk → JsString
  | context, [] => context
  | context, chunk :: rest =>
    if remaining budget context.length chunk.document = some 0 then context
    else place budget
      (context ++ excerptSection chunk.document
        (sliceTo (remaining budget context.length chunk.document) chunk.text)) rest

theorem addChunks_place (hchunks : ∀ chunk ∈ chunks, chunk.document = document ∧ chunk.Within) :
    place budget context (chunks ++ more) =
      match addChunks budget document context chunks with
      | (context, true) => context
      | (context, false) => place budget context more := by
  induction chunks generalizing context with
  | nil => rfl
  | cons chunk rest ih =>
    obtain ⟨rfl, hwithin⟩ := hchunks chunk List.mem_cons_self
    rw [List.cons_append, place, addChunks]
    by_cases hleft : remaining budget context.length chunk.document = some 0
    · simp only [hleft, if_true]
    · simp only [hleft, if_false]
      rw [ih (fun other hother => hchunks other (List.mem_cons_of_mem _ hother)),
        sectionOf_eq hwithin (prefix_sliceTo _ _)]

theorem addDocuments_place (documents : List DocumentAttachment) :
    addDocuments locale budget query context documents =
      place budget context (documents.flatMap (chunksOf locale budget query)) := by
  induction documents generalizing context with
  | nil => rfl
  | cons document rest ih =>
    rw [addDocuments, List.flatMap_cons, addChunks_place (fun _ h => mem_chunksOf h)]
    by_cases hleft : remaining budget context.length document = some 0
    · rw [if_pos hleft]
      cases hchunks : chunksOf locale budget query document with
      | nil => exact absurd hchunks chunksOf_ne_nil
      | cons chunk chunks => simp only [addChunks, hleft, if_true]
    · rw [if_neg hleft]
      split
      · rfl
      · exact ih

end Chunks

section Lengths

variable {document : DocumentAttachment} {chunk : DocumentChunk} {chunks : List DocumentChunk}
  {context : JsString} {limit used : Nat}

theorem length_excerptSection (document : DocumentAttachment) (excerpt : JsString) :
    (excerptSection document excerpt).length =
      (sectionStart document).length + excerpt.length +
        (if excerpt = document.text then 0 else truncationNote.length) + sectionEnd.length := by
  rw [excerptSection]
  split <;> simp only [List.length_append, List.length_nil]

theorem length_truncationNote : truncationNote.length = 29 := rfl

theorem place_grows (budget : Option Nat) (context : JsString) (chunks : List DocumentChunk) :
    context.length ≤ (place budget context chunks).length := by
  induction chunks generalizing context with
  | nil => exact le_rfl
  | cons chunk rest ih =>
    rw [place]
    split
    · exact le_rfl
    · refine le_trans ?_ (ih _)
      rw [List.length_append]
      omega

/-- With room for a text, the section that is placed fits exactly when the whole section does, and
then it is the whole section. -/
theorem placed_section (hwithin : chunk.Within)
    (hleft : remaining (some limit) used chunk.document ≠ some 0) :
    (used + sectionSize chunk ≤ limit →
      sliceTo (remaining (some limit) used chunk.document) chunk.text = chunk.text) ∧
    (limit < used + sectionSize chunk →
      limit < used + (excerptSection chunk.document
        (sliceTo (remaining (some limit) used chunk.document) chunk.text)).length) := by
  have hlong := List.IsInfix.length_le hwithin
  simp only [remaining, Option.map_some, ne_eq, Option.some.injEq, sliceTo] at hleft ⊢
  generalize hroom : limit - used - (sectionStart chunk.document).length - sectionEnd.length = room
    at hleft ⊢
  rw [sectionSize, length_excerptSection]
  by_cases hfits : chunk.text.length ≤ room
  · rw [List.take_of_length_le hfits, length_excerptSection]
    exact ⟨fun _ => rfl, id⟩
  · have hcut : chunk.text.take room ≠ chunk.document.text := by
      intro heq
      have hlength := congrArg List.length heq
      rw [List.length_take] at hlength
      omega
    rw [length_excerptSection, if_neg hcut, List.length_take, length_truncationNote]
    constructor
    · intro hle
      omega
    · intro _
      omega

theorem place_short_iff (context : JsString) (hchunks : ∀ chunk ∈ chunks, chunk.Within)
    (hcontext : context.length ≤ limit) :
    (place (some limit) context chunks).length ≤ limit ↔ Fits limit context.length chunks := by
  induction chunks generalizing context with
  | nil => simp [place, Fits, hcontext]
  | cons chunk rest ih =>
    rw [place, Fits]
    by_cases hleft : remaining (some limit) context.length chunk.document = some 0
    · simp [hleft, hcontext]
    · rw [if_neg hleft]
      obtain ⟨hwhole, hover⟩ := placed_section (hchunks chunk List.mem_cons_self) hleft
      by_cases hfits : context.length + sectionSize chunk ≤ limit
      · rw [hwhole hfits]
        have hlength : (context ++ excerptSection chunk.document chunk.text).length =
            context.length + sectionSize chunk := by rw [List.length_append, sectionSize]
        rw [ih _ (fun other hother => hchunks other (List.mem_cons_of_mem _ hother))
          (hlength.trans_le hfits), hlength]
        simp [hleft, hfits]
      · have hlong := hover (not_le.mp hfits)
        rw [← List.length_append] at hlong
        constructor
        · intro hshort
          exact absurd (hlong.trans_le (place_grows _ _ rest)) (not_lt.mpr hshort)
        · intro h
          exact absurd (h hleft).1 hfits

theorem length_wholeSection (document : DocumentAttachment) :
    (excerptSection document document.text).length =
      (sectionStart document).length + document.text.length + sectionEnd.length := by
  rw [length_excerptSection, if_pos rfl, Nat.add_zero]

theorem sectionEnd_pos : 0 < sectionEnd.length := by decide

theorem wholeSections_cons (document : DocumentAttachment) (rest : List DocumentAttachment) :
    wholeSections (document :: rest) =
      excerptSection document document.text ++ wholeSections rest := List.flatMap_cons

theorem place_wholes (context : JsString) (documents : List DocumentAttachment)
    (hfit : context.length + (wholeSections documents).length ≤ limit)
    (hroom : ∀ last, documents.getLast? = some last → last.text = [] →
      context.length + (wholeSections documents).length ≠ limit) :
    place (some limit) context (documents.map wholeChunk) = context ++ wholeSections documents := by
  induction documents generalizing context with
  | nil => simp [place, wholeSections]
  | cons document rest ih =>
    rw [wholeSections_cons, List.length_append, length_wholeSection] at hfit
    have hleft : remaining (some limit) context.length document ≠ some 0 := by
      simp only [remaining, Option.map_some, ne_eq, Option.some.injEq]
      intro hzero
      have hend := sectionEnd_pos
      have hempty : document.text = [] := List.length_eq_zero_iff.mp (by omega)
      have hlast : rest = [] := by
        cases rest with
        | nil => rfl
        | cons next more =>
          rw [wholeSections_cons, List.length_append, length_wholeSection] at hfit
          omega
      subst hlast
      refine hroom document rfl hempty ?_
      rw [wholeSections_cons, List.length_append, length_wholeSection]
      omega
    have hslice : sliceTo (remaining (some limit) context.length document) document.text =
        document.text := by
      simp only [remaining, Option.map_some, sliceTo]
      exact List.take_of_length_le (by omega)
    rw [List.map_cons, place]
    simp only [wholeChunk, hleft, if_false, hslice]
    rw [wholeSections_cons, ← List.append_assoc]
    refine ih _ ?_ ?_
    · rw [List.length_append, length_wholeSection]
      omega
    · intro last hlast hempty heq
      refine hroom last ?_ hempty ?_
      · cases rest with
        | nil => cases hlast
        | cons next more => simpa using hlast
      · rw [wholeSections_cons, List.length_append, ← Nat.add_assoc]
        rwa [List.length_append] at heq

theorem place_empty_at_limit (context : JsString) (documents : List DocumentAttachment)
    {last : DocumentAttachment}
    (hempty : last.text = [])
    (hfit : context.length + (wholeSections (documents ++ [last])).length = limit) :
    place (some limit) context ((documents ++ [last]).map wholeChunk) =
      context ++ wholeSections documents := by
  induction documents generalizing context with
  | nil =>
    have hleft : remaining (some limit) context.length last = some 0 := by
      rw [List.nil_append, wholeSections_cons, List.length_append, length_wholeSection, hempty] at hfit
      simp only [wholeSections, List.flatMap_nil, List.length_nil] at hfit
      simp only [remaining, Option.map_some, Option.some.injEq]
      omega
    simp only [List.nil_append, List.map_cons, List.map_nil, place, wholeChunk, hleft, if_true,
      wholeSections, List.flatMap_nil, List.append_nil]
  | cons document rest ih =>
    rw [List.cons_append, wholeSections_cons, List.length_append, length_wholeSection] at hfit
    have hlast : 0 < (wholeSections (rest ++ [last])).length := by
      have hend := sectionEnd_pos
      have hsplit : wholeSections (rest ++ [last]) = wholeSections rest ++ wholeSections [last] :=
        List.flatMap_append
      rw [hsplit, List.length_append, wholeSections_cons, List.length_append, length_wholeSection]
      omega
    have hleft : remaining (some limit) context.length document ≠ some 0 := by
      simp only [remaining, Option.map_some, ne_eq, Option.some.injEq]
      omega
    have hslice : sliceTo (remaining (some limit) context.length document) document.text =
        document.text := by
      simp only [remaining, Option.map_some, sliceTo]
      exact List.take_of_length_le (by omega)
    rw [List.cons_append, List.map_cons, place]
    simp only [wholeChunk, hleft, if_false, hslice]
    rw [wholeSections_cons, ← List.append_assoc]
    refine ih _ ?_
    rw [List.length_append, length_wholeSection]
    omega

end Lengths

section Sections

variable {locale : Locale} {query : JsString} {document : DocumentAttachment}
  {chunks more : List DocumentChunk} {context : JsString}

theorem place_document (budget : Option Nat) (more : List DocumentChunk) (context : JsString)
    (hchunks : ∀ chunk ∈ chunks, chunk.document = document ∧ chunk.Within) :
    ∃ texts : List JsString, (∀ text ∈ texts, text <:+: document.text) ∧
      (place budget context (chunks ++ more) = context ++ texts.flatMap (excerptSection document) ∨
        place budget context (chunks ++ more) =
          place budget (context ++ texts.flatMap (excerptSection document)) more) := by
  induction chunks generalizing context with
  | nil => exact ⟨[], by simp, .inr (by simp)⟩
  | cons chunk rest ih =>
    obtain ⟨rfl, hwithin⟩ := hchunks chunk List.mem_cons_self
    rw [List.cons_append, place]
    by_cases hleft : remaining budget context.length chunk.document = some 0
    · exact ⟨[], by simp, .inl (by simp [hleft])⟩
    · rw [if_neg hleft]
      obtain ⟨texts, htexts, hplace⟩ := ih (context ++ excerptSection chunk.document
        (sliceTo (remaining budget context.length chunk.document) chunk.text))
        (fun other hother => hchunks other (List.mem_cons_of_mem _ hother))
      refine ⟨sliceTo (remaining budget context.length chunk.document) chunk.text :: texts, ?_, ?_⟩
      · intro text htext
        rcases List.mem_cons.mp htext with rfl | hrest
        · exact (prefix_sliceTo _ _).isInfix.trans hwithin
        · exact htexts text hrest
      · rw [List.flatMap_cons, ← List.append_assoc]
        exact hplace

theorem zip_nil_sections (documents : List DocumentAttachment) :
    (documents.zip (documents.map fun _ => ([] : List JsString))).flatMap
      (fun entry => entry.2.flatMap (excerptSection entry.1)) = [] := by
  induction documents with
  | nil => rfl
  | cons document rest ih => simpa using ih

theorem place_documents (locale : Locale) (budget : Option Nat) (query : JsString)
    (documents : List DocumentAttachment) (context : JsString) :
    ∃ excerpts : List (List JsString),
      List.Forall₂ (fun document texts => ∀ text ∈ texts, text <:+: document.text)
        documents excerpts ∧
      place budget context (documents.flatMap (chunksOf locale budget query)) = context ++
        (documents.zip excerpts).flatMap fun entry => entry.2.flatMap (excerptSection entry.1) := by
  induction documents generalizing context with
  | nil => exact ⟨[], .nil, by simp [place]⟩
  | cons document rest ih =>
    obtain ⟨texts, htexts, hplace⟩ := place_document budget
      (rest.flatMap (chunksOf locale budget query)) context
      (fun chunk (h : chunk ∈ chunksOf locale budget query document) => mem_chunksOf h)
    rw [← List.flatMap_cons] at hplace
    rcases hplace with hstop | hgo
    · refine ⟨texts :: rest.map fun _ => [], .cons htexts ?_, ?_⟩
      · rw [List.forall₂_map_right_iff, List.forall₂_same]
        intro other _ text htext
        cases htext
      · rw [hstop, List.zip_cons_cons, List.flatMap_cons, zip_nil_sections, List.append_nil]
    · obtain ⟨excerpts, hexcerpts, hrest⟩ :=
        ih (context ++ texts.flatMap (excerptSection document))
      exact ⟨texts :: excerpts, .cons htexts hexcerpts, by
        rw [hgo, hrest, List.zip_cons_cons, List.flatMap_cons, List.append_assoc]⟩

theorem chunksOf_wholes (locale : Locale) (query : JsString) (documents : List DocumentAttachment)
    {budget : Option Nat} (hfit : ∀ n, budget = some n → (wholeSections documents).length ≤ n) :
    documents.flatMap (chunksOf locale budget query) = documents.map wholeChunk := by
  induction documents with
  | nil => rfl
  | cons document rest ih =>
    have hwhole : chunksOf locale budget query document = [wholeChunk document] := by
      refine if_pos ?_
      cases budget with
      | none => rfl
      | some n =>
        have hlength := hfit n rfl
        rw [wholeSections_cons, List.length_append, length_wholeSection] at hlength
        simp only [Option.all_some, decide_eq_true_eq]
        omega
    have hrest : ∀ n, budget = some n → (wholeSections rest).length ≤ n := by
      intro n hn
      have hlength := hfit n hn
      rw [wholeSections_cons, List.length_append] at hlength
      omega
    rw [List.flatMap_cons, hwhole, ih hrest, List.map_cons, List.singleton_append]

theorem place_unlimited (context : JsString) (documents : List DocumentAttachment) :
    place none context (documents.map wholeChunk) = context ++ wholeSections documents := by
  induction documents generalizing context with
  | nil => simp [place, wholeSections]
  | cons document rest ih =>
    rw [List.map_cons, place]
    simp only [remaining, Option.map_none, reduceCtorEq, if_false, sliceTo, wholeChunk]
    rw [wholeSections_cons, ← List.append_assoc]
    exact ih _

end Sections

section Contexts

variable {locale : Locale} {query : JsString} {documents : List DocumentAttachment}
  {maxChars : WithTop ℚ}

theorem budgetOf_eq (h : 256 ≤ maxChars) : budgetOf maxChars = floorOf maxChars := by
  unfold budgetOf floorOf
  cases maxChars with
  | top => rfl
  | coe limit =>
    have hlimit : (256 : ℚ) ≤ limit :=
      WithTop.coe_le_coe.mp (show ((256 : ℚ) : WithTop ℚ) ≤ limit from h)
    have hfloor : (256 : Int) ≤ ⌊limit⌋ := Int.le_floor.mpr (by exact_mod_cast hlimit)
    show some (max 256 ⌊limit⌋.toNat) = some ⌊limit⌋.toNat
    rw [max_eq_right (by omega)]

/-- A context is faithful exactly when the sections fit as a whole up to the first that finds no
room, and no empty document stands at the limit. -/
theorem buildDocumentContext_faithful_iff (locale : Locale) (documents : List DocumentAttachment)
    (maxChars : WithTop ℚ) (query : JsString) (h : 256 ≤ maxChars) :
    Faithful documents (floorOf maxChars) (buildDocumentContext locale documents maxChars query) ↔
      ∀ n, floorOf maxChars = some n →
        Fits n 0 (documents.flatMap (chunksOf locale (some n) query)) ∧
          ¬ EmptyAtLimit n documents := by
  have hplace : buildDocumentContext locale documents maxChars query =
      place (floorOf maxChars) [] (documents.flatMap (chunksOf locale (floorOf maxChars) query)) := by
    rw [buildDocumentContext, addDocuments_place, budgetOf_eq h]
  have hsections := place_documents locale (floorOf maxChars) query documents []
  simp only [← hplace, List.nil_append] at hsections
  have hwithin : ∀ limit, ∀ chunk ∈ documents.flatMap (chunksOf locale limit query),
      chunk.Within := by
    intro limit chunk hchunk
    obtain ⟨document, -, hmem⟩ := List.mem_flatMap.mp hchunk
    exact (mem_chunksOf hmem).2
  cases hfloor : floorOf maxChars with
  | none =>
    rw [hfloor] at hplace
    constructor
    · intro _ n hn
      cases hn
    · intro _
      refine ⟨?_, hsections, ?_⟩
      · intro n hn
        cases hn
      · intro hfit
        rw [hplace, chunksOf_wholes locale query documents hfit, place_unlimited, List.nil_append]
  | some n =>
    rw [hfloor] at hplace
    have hshort := place_short_iff [] (hwithin (some n)) (Nat.zero_le n)
    rw [← hplace, List.length_nil] at hshort
    constructor
    · rintro ⟨hlength, -, hwhole⟩ m ⟨⟩
      refine ⟨hshort.mp (hlength n rfl), ?_⟩
      rintro ⟨htotal, last, hlast, hempty⟩
      have hfit : ∀ m, some n = some m → (wholeSections documents).length ≤ m := by
        rintro m ⟨⟩
        exact htotal.le
      have hsplit := List.dropLast_append_getLast? last hlast
      have hcut := place_empty_at_limit [] documents.dropLast hempty
        (show _ = n by rw [hsplit, htotal, List.length_nil, Nat.zero_add])
      rw [hsplit, ← chunksOf_wholes locale query documents hfit, ← hplace, hwhole hfit, List.nil_append] at hcut
      have hend := sectionEnd_pos
      have htail : wholeSections documents =
          wholeSections documents.dropLast ++ wholeSections [last] := by
        exact (congrArg wholeSections hsplit).symm.trans List.flatMap_append
      have hlengths := congrArg List.length (htail.symm.trans hcut)
      rw [List.length_append, wholeSections_cons, List.length_append, length_wholeSection] at hlengths
      omega
    · intro hcondition
      obtain ⟨hfits, hroom⟩ := hcondition n rfl
      refine ⟨?_, hsections, ?_⟩
      · rintro m ⟨⟩
        exact hshort.mpr hfits
      · intro hfit
        rw [hplace, chunksOf_wholes locale query documents hfit]
        refine place_wholes [] documents ?_ ?_
        · rw [List.length_nil, Nat.zero_add]
          exact hfit n rfl
        · intro last hlast hempty heq
          rw [List.length_nil, Nat.zero_add] at heq
          exact hroom ⟨heq, last, hlast, hempty⟩

/-- A locale for texts of ASCII letters without a query. -/
def plainLocale : Locale := ⟨id, fun _ => [], fun _ _ => 0⟩

def noteDocument (length : Nat) : DocumentAttachment :=
  ⟨units "notes.md", units "/notes.md", List.replicate length 97⟩

theorem faithful_two_documents :
    (buildDocumentContext plainLocale [noteDocument 20, noteDocument 30] (some 256) []).length =
        156 ∧
      Faithful [noteDocument 20, noteDocument 30] (floorOf (some 256))
        (buildDocumentContext plainLocale [noteDocument 20, noteDocument 30] (some 256) []) := by
  refine ⟨by decide +kernel, (buildDocumentContext_faithful_iff plainLocale _ (some 256) []
    (WithTop.coe_le_coe.mpr (le_refl (256 : ℚ)))).mpr ?_⟩
  have hfloor : floorOf (some 256) = some 256 := by decide +kernel
  have hfits : Fits 256 0 ([noteDocument 20, noteDocument 30].flatMap
      (chunksOf plainLocale (some 256) [])) := by decide +kernel
  rw [hfloor]
  rintro n ⟨⟩
  refine ⟨hfits, fun hempty => ?_⟩
  exact absurd hempty.1 (by decide +kernel)

/-- The note is added to a text that already fills the budget. -/
theorem note_overruns_budget :
    (buildDocumentContext plainLocale [noteDocument 240] (some 256) []).length = 285 ∧
      ¬ Faithful [noteDocument 240] (floorOf (some 256))
        (buildDocumentContext plainLocale [noteDocument 240] (some 256) []) := by
  have hlength : (buildDocumentContext plainLocale [noteDocument 240] (some 256) []).length = 285 := by
    decide +kernel
  refine ⟨hlength, ?_⟩
  intro h
  have hshort := h.short 256 (by decide +kernel)
  rw [hlength] at hshort
  exact absurd hshort (by decide)

end Contexts

end AioLM.ChatUtils
