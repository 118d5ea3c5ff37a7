import AioLM.CommandEntry
import AioLM.OptionPlan
import AioLM.ScopeSections

/-!
The command line of a registered entry. The launch template keeps its tokens,
each resolved section is put before the next declared subcommand, and the
tokens a positional layout lifts leave the template.
-/

set_option autoImplicit false

namespace AioLM.Options

open Fallible

def unlifted (lift : List Nat) (start : Nat) (tokens : List Text) : List Text :=
  ((tokens.zipIdx start).filter fun e => !lift.contains e.2).map (·.1)

namespace CommandLayout

def leaf (layout : CommandLayout) : Nat := layout.subcommands.getLast?.elim 0 (· + 1)

/-- The loop of `assemble` over the subcommands, from a start index. -/
def assembleFrom (template : List Text) (lift : List Nat) :
    Nat → List Nat → List (List Text) → List Text
  | start, index :: subcommands, words :: sections =>
    (template.take index).drop start ++ words ++ template[index]?.toList ++
      assembleFrom template lift (index + 1) subcommands sections
  | start, _, sections => unlifted lift start (template.drop start) ++ sections.getLast?.getD []

def withinArgumentLimit (argv : List Text) : Prop :=
  argv.length ≤ 4096 ∧ (argv.map Text.utf8Len).sum ≤ 512 * 1024

instance (argv : List Text) : Decidable (withinArgumentLimit argv) :=
  inferInstanceAs (Decidable (_ ∧ _))

/-- Each resolved scope section goes before its next declared subcommand and the
last one after the bindings the app owns. -/
def assemble (layout : CommandLayout) (tokens template : List Text) (sections : List (List Text))
    (lift : List Nat) : Except Text (List Text) := do
  layout.validate tokens
  require (tokens <+: template ∧ sections.length = layout.subcommands.length + 1)
    "the resolved options do not match the declared command layout".toList
  require (∀ index ∈ lift, layout.leaf ≤ index ∧ index < template.length)
    "only the leaf command's own tokens can move to positional slots".toList
  let argv := assembleFrom template lift 0 layout.subcommands sections
  require (withinArgumentLimit argv) "assembled command exceeds its argument limit".toList
  return argv

theorem checkSubcommand_eq_ok {tokens : List Text} {occupied : List Nat} {previous : Option Nat}
    {index : Nat} {next : Option Nat}
    (h : checkSubcommand tokens occupied previous index = .ok next) :
    index < tokens.length ∧ previous.all (· < index) ∧ next = some index := by
  unfold checkSubcommand at h
  split at h
  · cases h
  · rename_i word hword
    simp only [bind_eq_ok, require_eq_ok, pure, Except.pure, Except.ok.injEq] at h
    obtain ⟨-, ⟨-, hprevious, -⟩, rfl⟩ := h
    exact ⟨(List.getElem?_eq_some_iff.mp hword).1, hprevious, rfl⟩

theorem subcommands_of_check {tokens : List Text} {occupied subcommands : List Nat}
    {previous last : Option Nat}
    (h : subcommands.foldlM (checkSubcommand tokens occupied) previous = .ok last) :
    (∀ index ∈ subcommands, index < tokens.length ∧ previous.all (· < index)) ∧
      subcommands.Pairwise (· < ·) := by
  induction subcommands generalizing previous with
  | nil => simp
  | cons index subcommands ih =>
    simp only [List.foldlM_cons, bind_eq_ok] at h
    obtain ⟨next, hindex, hmore⟩ := h
    obtain ⟨hinside, hprevious, rfl⟩ := checkSubcommand_eq_ok hindex
    obtain ⟨hall, hpairwise⟩ := ih hmore
    have hlt : ∀ later ∈ subcommands, index < later := by
      intro later hlater
      simpa using (hall later hlater).2
    refine ⟨List.forall_mem_cons.mpr ⟨⟨hinside, hprevious⟩, ?_⟩, ?_⟩
    · intro later hlater
      refine ⟨(hall later hlater).1, ?_⟩
      have := hlt later hlater
      cases previous with
      | none => rfl
      | some old =>
        simp only [Option.all_some, decide_eq_true_eq] at hprevious ⊢
        omega
    · exact List.pairwise_cons.mpr ⟨hlt, hpairwise⟩

variable {layout : CommandLayout} {tokens template : List Text} {sections : List (List Text)}
  {lift : List Nat}

theorem subcommands_of_validate (h : layout.validate tokens = .ok ()) :
    (∀ index ∈ layout.subcommands, index < tokens.length) ∧
      layout.subcommands.Pairwise (· < ·) := by
  simp only [validate, bind_eq_ok, require_eq_ok] at h
  obtain ⟨-, -, occupied, -, last, hcheck, -⟩ := h
  obtain ⟨hinside, hpairwise⟩ := subcommands_of_check hcheck
  exact ⟨fun index hindex => (hinside index hindex).1, hpairwise⟩

theorem scope_of_validate (h : layout.validate tokens = .ok ()) :
    layout.scope tokens = .ok (layout.subcommands.filterMap fun index => tokens[index]?) := by
  rw [scope, h]
  rfl

theorem length_scope (h : layout.validate tokens = .ok ()) :
    (layout.subcommands.filterMap fun index => tokens[index]?).length =
      layout.subcommands.length := by
  rw [List.filterMap_length_eq_length]
  intro index hindex
  rw [List.getElem?_eq_getElem ((subcommands_of_validate h).1 index hindex)]
  rfl

/-- A template token with its index: a declared subcommand follows its section,
and a lifted token is left out. -/
def place (lift : List Nat) (before : List (Nat × List Text)) (e : Text × Nat) : List Text :=
  (before.lookup e.2).getD [] ++ if e.2 ∈ lift then [] else [e.1]

/-- The template token by token: without its lifted tokens, each section before
its subcommand, the last section at the end. -/
def assembled (layout : CommandLayout) (template : List Text) (sections : List (List Text))
    (lift : List Nat) : List Text :=
  template.zipIdx.flatMap (place lift (layout.subcommands.zip sections)) ++
    sections.getLast?.getD []

theorem place_of_lt {lift : List Nat} {before : List (Nat × List Text)} {e : Text × Nat}
    (hbefore : ∀ p ∈ before, e.2 < p.1) :
    place lift before e = if e.2 ∈ lift then [] else [e.1] := by
  have hnone : before.lookup e.2 = none := by
    rw [List.lookup_eq_none_iff]
    intro p hp
    have := hbefore p hp
    simp only [bne_iff_ne]
    omega
  rw [place, hnone]
  rfl

theorem place_cons_of_ne {lift : List Nat} {before : List (Nat × List Text)} {e : Text × Nat}
    {index : Nat} {words : List Text} (h : e.2 ≠ index) :
    place lift ((index, words) :: before) e = place lift before e := by
  rw [place, List.lookup_cons, beq_eq_false_iff_ne.mpr h]
  rfl

theorem flatMap_place_unlifted {lift : List Nat} {before : List (Nat × List Text)} {start : Nat}
    {part : List Text} (hbefore : ∀ p ∈ before, start + part.length ≤ p.1) :
    (part.zipIdx start).flatMap (place lift before) = unlifted lift start part := by
  rw [unlifted, ← List.flatMap_singleton' (List.map _ _), List.flatMap_map, Lists.flatMap_filter]
  refine List.flatMap_congr fun e he => ?_
  have hindex := List.mem_zipIdx he
  rw [place_of_lt fun p hp => by have := hbefore p hp; omega]
  by_cases hlift : e.2 ∈ lift <;> simp [hlift]

theorem unlifted_eq_self {lift : List Nat} {start : Nat} {part : List Text}
    (h : ∀ index ∈ lift, start + part.length ≤ index) : unlifted lift start part = part := by
  have hall : (part.zipIdx start).filter (fun e => !lift.contains e.2) = part.zipIdx start := by
    rw [List.filter_eq_self]
    intro e he
    have hindex := List.mem_zipIdx he
    simp only [List.contains_eq_mem, Bool.not_eq_true', decide_eq_false_iff_not]
    intro hlift
    have := h _ hlift
    omega
  rw [unlifted, hall, List.zipIdx_map_fst]

theorem drop_eq_split {template : List Text} {start index : Nat} (hle : start ≤ index)
    (hlt : index < template.length) :
    template.drop start =
      (template.take index).drop start ++ template[index] :: template.drop (index + 1) := by
  rw [List.getElem_cons_drop, ← List.drop_append_of_le_length (by simp; omega),
    List.take_append_drop]

theorem unlifted_append (lift : List Nat) (start : Nat) (part rest : List Text) :
    unlifted lift start (part ++ rest) =
      unlifted lift start part ++ unlifted lift (start + part.length) rest := by
  rw [unlifted, List.zipIdx_append, List.filter_append, List.map_append]
  rfl

theorem unlifted_cons {lift : List Nat} {start : Nat} (token : Text) (rest : List Text) :
    unlifted lift start (token :: rest) =
      if start ∈ lift then unlifted lift (start + 1) rest
      else token :: unlifted lift (start + 1) rest := by
  by_cases h : start ∈ lift <;> simp [unlifted, List.zipIdx_cons, h]

/-- Subcommand indexes from a start index, before every lifted token. -/
structure Declared (template : List Text) (lift : List Nat) (start : Nat)
    (subcommands : List Nat) : Prop where
  inside : ∀ index ∈ subcommands, start ≤ index ∧ index < template.length
  rise : subcommands.Pairwise (· < ·)
  before : ∀ index ∈ lift, ∀ subcommand ∈ subcommands, subcommand < index

namespace Declared

variable {start index : Nat} {subcommands : List Nat}

theorem tail (h : Declared template lift start (index :: subcommands)) :
    Declared template lift (index + 1) subcommands where
  inside later hlater :=
    ⟨(List.pairwise_cons.mp h.rise).1 later hlater, (h.inside later (List.mem_cons_of_mem _ hlater)).2⟩
  rise := (List.pairwise_cons.mp h.rise).2
  before i hi later hlater := h.before i hi later (List.mem_cons_of_mem _ hlater)

theorem length_piece (h : Declared template lift start (index :: subcommands)) :
    start + ((template.take index).drop start).length = index := by
  obtain ⟨hle, hlt⟩ := h.inside index List.mem_cons_self
  simp only [List.length_drop, List.length_take]
  omega

theorem not_lifted (h : Declared template lift start (index :: subcommands)) : index ∉ lift := by
  intro hmem
  have := h.before index hmem index List.mem_cons_self
  omega

theorem unlifted_piece (h : Declared template lift start (index :: subcommands)) :
    unlifted lift start ((template.take index).drop start) = (template.take index).drop start := by
  refine unlifted_eq_self fun i hi => ?_
  have := h.before i hi index List.mem_cons_self
  have := h.length_piece
  omega

theorem unlifted_drop (h : Declared template lift start (index :: subcommands)) :
    unlifted lift start (template.drop start) =
      (template.take index).drop start ++ template[index]?.toList ++
        unlifted lift (index + 1) (template.drop (index + 1)) := by
  obtain ⟨hle, hlt⟩ := h.inside index List.mem_cons_self
  rw [drop_eq_split hle hlt, unlifted_append, h.unlifted_piece, h.length_piece, unlifted_cons,
    if_neg h.not_lifted, List.getElem?_eq_getElem hlt, Option.toList_some, List.append_cons]

end Declared

theorem assembleFrom_eq {start : Nat} {subcommands : List Nat} {sections : List (List Text)}
    (h : Declared template lift start subcommands)
    (hlength : sections.length = subcommands.length + 1) :
    assembleFrom template lift start subcommands sections =
      ((template.drop start).zipIdx start).flatMap (place lift (subcommands.zip sections)) ++
        sections.getLast?.getD [] := by
  induction subcommands generalizing start sections with
  | nil =>
    rw [List.zip_nil_left, flatMap_place_unlifted (by simp)]
    rfl
  | cons index subcommands ih =>
    obtain _ | ⟨words, sections⟩ := sections
    · simp at hlength
    obtain ⟨hstart, hlt⟩ := h.inside index List.mem_cons_self
    have hlast : (words :: sections).getLast? = sections.getLast? := by
      cases sections with
      | nil => simp at hlength
      | cons next sections => rw [List.getLast?_cons_cons]
    have hpiece : (((template.take index).drop start).zipIdx start).flatMap
          (place lift ((index :: subcommands).zip (words :: sections))) =
        (template.take index).drop start := by
      rw [flatMap_place_unlifted, h.unlifted_piece]
      intro p hp
      rw [h.length_piece]
      obtain heq | hlater := List.mem_cons.mp (List.of_mem_zip hp).1
      · omega
      · have := (h.tail.inside _ hlater).1
        omega
    have hword : place lift ((index :: subcommands).zip (words :: sections))
        (template[index], index) = words ++ [template[index]] := by
      simp [place, h.not_lifted]
    have hrest : ((template.drop (index + 1)).zipIdx (index + 1)).flatMap
          (place lift ((index :: subcommands).zip (words :: sections))) =
        ((template.drop (index + 1)).zipIdx (index + 1)).flatMap
          (place lift (subcommands.zip sections)) := by
      refine List.flatMap_congr fun e he => ?_
      have := List.mem_zipIdx he
      rw [List.zip_cons_cons, place_cons_of_ne (by omega)]
    rw [assembleFrom, ih h.tail (by simpa using hlength), drop_eq_split hstart hlt,
      List.zipIdx_append, List.zipIdx_cons, List.flatMap_append, List.flatMap_cons, h.length_piece,
      hpiece, hword, hrest, hlast, List.getElem?_eq_getElem hlt]
    simp

theorem subcommand_lt_of_leaf_le (hrise : layout.subcommands.Pairwise (· < ·)) {index : Nat}
    (h : layout.leaf ≤ index) : ∀ subcommand ∈ layout.subcommands, subcommand < index := by
  intro subcommand hmem
  have hne := List.ne_nil_of_mem hmem
  rw [leaf, List.getLast?_eq_getLast_of_ne_nil hne] at h
  rw [← List.dropLast_append_getLast hne] at hmem hrise
  obtain hinit | hlast := List.mem_append.mp hmem
  · have := (List.pairwise_append.mp hrise).2.2 _ hinit _ List.mem_cons_self
    simp only [Option.elim_some] at h
    omega
  · simp only [Option.elim_some, List.mem_singleton] at h hlast
    omega

theorem declared_of_validate (hvalid : layout.validate tokens = .ok ())
    (hentry : tokens <+: template)
    (hlift : ∀ index ∈ lift, layout.leaf ≤ index ∧ index < template.length) :
    Declared template lift 0 layout.subcommands := by
  obtain ⟨hinside, hrise⟩ := subcommands_of_validate hvalid
  have hle := hentry.length_le
  refine ⟨fun index h => ?_, hrise, fun index h => subcommand_lt_of_leaf_le hrise (hlift index h).1⟩
  have := hinside index h
  omega

theorem assemble_eq (hvalid : layout.validate tokens = .ok ()) (hentry : tokens <+: template)
    (hsections : sections.length = layout.subcommands.length + 1)
    (hlift : ∀ index ∈ lift, layout.leaf ≤ index ∧ index < template.length) :
    layout.assemble tokens template sections lift =
      if withinArgumentLimit (layout.assembled template sections lift) then
        .ok (layout.assembled template sections lift)
      else .error "assembled command exceeds its argument limit".toList := by
  have hargv : assembleFrom template lift 0 layout.subcommands sections =
      layout.assembled template sections lift :=
    assembleFrom_eq (declared_of_validate hvalid hentry hlift) hsections
  simp only [assemble, hvalid, hargv]
  rw [require, if_pos ⟨hentry, hsections⟩, require, if_pos hlift, require]
  split <;> rfl

def withoutSections : Nat → List Nat → List (List Text) → List Text → List Text
  | start, index :: subcommands, words :: sections, argv =>
    let rest := argv.drop (index - start + words.length)
    argv.take (index - start) ++ rest.take 1 ++
      withoutSections (index + 1) subcommands sections (rest.drop 1)
  | _, _, sections, argv => argv.take (argv.length - (sections.getLast?.getD []).length)

def putBack (lifted : List (Text × Nat)) (tokens : List Text) : List Text :=
  lifted.foldl (fun tokens e => tokens.insertIdx e.2 e.1) tokens

def liftedFrom (lift : List Nat) (start : Nat) (tokens : List Text) : List (Text × Nat) :=
  (tokens.zipIdx start).filter fun e => lift.contains e.2

theorem putBack_unlifted (lift : List Nat) (before part : List Text) :
    putBack (liftedFrom lift before.length part) (before ++ unlifted lift before.length part) =
      before ++ part := by
  induction part generalizing before with
  | nil => rfl
  | cons token part ih =>
    have hmore := ih (before ++ [token])
    rw [List.length_append, List.length_singleton, ← List.append_cons, ← List.append_cons] at hmore
    rw [unlifted_cons]
    by_cases hlift : before.length ∈ lift
    · have hfrom : liftedFrom lift before.length (token :: part) =
          (token, before.length) :: liftedFrom lift (before.length + 1) part := by
        simp [liftedFrom, List.zipIdx_cons, hlift]
      rw [if_pos hlift, hfrom, putBack, List.foldl_cons, Lists.insertIdx_length_append]
      exact hmore
    · have hfrom : liftedFrom lift before.length (token :: part) =
          liftedFrom lift (before.length + 1) part := by
        simp [liftedFrom, List.zipIdx_cons, hlift]
      rw [if_neg hlift, hfrom, hmore]

theorem withoutSections_assembleFrom {start : Nat} {subcommands : List Nat}
    {sections : List (List Text)} (h : Declared template lift start subcommands)
    (hlength : sections.length = subcommands.length + 1) :
    withoutSections start subcommands sections
        (assembleFrom template lift start subcommands sections) =
      unlifted lift start (template.drop start) := by
  induction subcommands generalizing start sections with
  | nil => simp [withoutSections, assembleFrom]
  | cons index subcommands ih =>
    obtain _ | ⟨words, sections⟩ := sections
    · simp at hlength
    have hmore := ih h.tail (by simpa using hlength)
    have hpiece : ((template.take index).drop start).length = index - start := by
      have := h.length_piece
      omega
    have hlt := (h.inside index List.mem_cons_self).2
    rw [h.unlifted_drop, assembleFrom, withoutSections, ← hmore, ← hpiece,
      List.getElem?_eq_getElem hlt]
    generalize (template.take index).drop start = piece
    generalize assembleFrom template lift (index + 1) subcommands sections = more
    have htaken : (piece ++ words ++ (some template[index]).toList ++ more).take piece.length =
        piece := by
      rw [List.append_assoc, List.append_assoc, List.take_left]
    have hrest : (piece ++ words ++ (some template[index]).toList ++ more).drop
        (piece.length + words.length) = template[index] :: more := by
      rw [← List.length_append, List.append_assoc (piece ++ words), List.drop_left]
      rfl
    rw [htaken, hrest]
    rfl

/-- Every way the program resolves options for a selected scope. -/
inductive Resolved (serde : Serde) (schema : OptionSchema) :
    List Text → ResolvedOptions → Prop where
  | occurrences {selected : List Text} {overrides : KeyMap Text (List Occurrence)}
      {r : ResolvedOptions} (h : schema.resolveOccurrences serde selected overrides = .ok r) :
      Resolved serde schema selected r
  | plan {selected : List Text} {plan : OrderedPlan} {r : ResolvedOptions}
      (h : schema.resolvePlan serde selected plan = .ok r) : Resolved serde schema selected r
  -- nothing saved and nothing to place: no scope is asked for
  | nothing : Resolved serde schema [] ⟨[], [], .empty⟩

theorem Resolved.of_grouped {serde : Serde} {schema : OptionSchema} {selected : List Text}
    {overrides : Overrides} {r : ResolvedOptions}
    (h : schema.resolve serde selected overrides = .ok r) : Resolved serde schema selected r :=
  .occurrences h

theorem Resolved.of_saved {serde : Serde} {schema : OptionSchema} {selected : List Text}
    {values : KeyMap Text Json} {r : ResolvedOptions}
    (h : schema.resolveSaved serde selected values = .ok r) : Resolved serde schema selected r := by
  unfold OptionSchema.resolveSaved at h
  split at h
  · cases h
  · exact .occurrences h
  · split at h
    · cases h
    · exact .plan h

theorem Resolved.layOut {serde : Serde} {schema : OptionSchema} {selected : List Text}
    {r : ResolvedOptions} (h : Resolved serde schema selected r) :
    ∃ sections : Nat → List Text, r.argv = (Options.layOut selected sections).argv ∧
      r.scopeBoundaries = (Options.layOut selected sections).scopeBoundaries := by
  cases h with
  | occurrences h =>
    simp only [OptionSchema.resolveOccurrences, bind_eq_ok] at h
    obtain ⟨-, -, h⟩ := h
    exact ⟨_, (OptionSchema.resolveValidated_eq_ok h).2⟩
  | plan h =>
    simp only [OptionSchema.resolvePlan, bind_eq_ok, require_eq_ok, pure, Except.pure,
      Except.ok.injEq] at h
    obtain ⟨-, -, -, -, -, -, placed, -, rfl⟩ := h
    exact ⟨_, rfl, rfl⟩
  | nothing => exact ⟨fun _ => [], rfl, rfl⟩

/-- The pieces between the scope words, the words put back. -/
def interleaved (sections : List (List Text)) (scope : List Text) : List Text :=
  sections.headD [] ++ joined (scope.zip sections.tail)

theorem sections_of_resolved {serde : Serde} {schema : OptionSchema} {selected : List Text}
    {r : ResolvedOptions} (h : Resolved serde schema selected r) :
    ∃ sections, r.sections selected = .ok sections ∧ sections.length = selected.length + 1 ∧
      interleaved sections selected = r.argv := by
  obtain ⟨sections, hargv, hboundaries⟩ := h.layOut
  refine ⟨_, sections_layOut hargv hboundaries, by simp, ?_⟩
  have hpairs : selected.zip ((List.range' 1 selected.length).map sections) =
      scopePairs sections 0 selected :=
    (List.zip_of_prod (map_fst_scopePairs sections selected 0)
      (map_snd_scopePairs sections selected 0)).symm
  rw [hargv, layOut_eq, interleaved, List.range_eq_range', List.range'_succ, List.map_cons,
    List.headD_cons, List.tail_cons, hpairs]

/-- Assembly preserves the registered entry: the template stays but for its
lifted tokens, each section stands whole before its subcommand and the last at
the end, and the resolved words split into as many sections. -/
theorem entry_preserved (hvalid : layout.validate tokens = .ok ()) (hentry : tokens <+: template)
    (hsections : sections.length = layout.subcommands.length + 1)
    (hlift : ∀ index ∈ lift, layout.leaf ≤ index ∧ index < template.length) :
    (layout.assemble tokens template sections lift =
      if withinArgumentLimit (layout.assembled template sections lift) then
        .ok (layout.assembled template sections lift)
      else .error "assembled command exceeds its argument limit".toList) ∧
    putBack (liftedFrom lift 0 template) (withoutSections 0 layout.subcommands sections
      (layout.assembled template sections lift)) = template ∧
    ∀ (serde : Serde) (schema : OptionSchema) (scope : List Text) (r : ResolvedOptions),
      layout.scope tokens = .ok scope → Resolved serde schema scope r →
      ∃ pieces, r.sections scope = .ok pieces ∧
        pieces.length = layout.subcommands.length + 1 ∧ interleaved pieces scope = r.argv := by
  have hdeclared := declared_of_validate hvalid hentry hlift
  refine ⟨assemble_eq hvalid hentry hsections hlift, ?_, ?_⟩
  · have hassembled := assembleFrom_eq hdeclared hsections
    have hkept := withoutSections_assembleFrom hdeclared hsections
    rw [hassembled] at hkept
    have hback := putBack_unlifted lift [] template
    simp only [List.drop_zero, List.nil_append, List.length_nil] at hkept hback
    rw [assembled, hkept, hback]
  · intro serde schema scope r hscope hr
    rw [scope_of_validate hvalid] at hscope
    cases hscope
    obtain ⟨pieces, hpieces, hlength, hargv⟩ := sections_of_resolved hr
    rw [length_scope hvalid] at hlength
    exact ⟨pieces, hpieces, hlength, hargv⟩

/-- A fixed option whose value is a subcommand's word, two adjacent subcommands
and a lifted model path. -/
def serveLayout : CommandLayout := ⟨1, [3, 4], [⟨1, 1⟩]⟩

def serveTokens : List Text := ["run", "--mode", "api", "serve", "api"].map String.toList

def serveTemplate : List Text := serveTokens ++ ["m.gguf", "--port"].map String.toList

def serveSections : List (List Text) :=
  [["-v"].map String.toList, [], ["serve", "m.gguf"].map String.toList]

theorem entry_preserved_serve :
    serveLayout.assemble serveTokens serveTemplate serveSections [5] =
        .ok (["run", "--mode", "api", "-v", "serve", "api", "--port", "serve", "m.gguf"].map
          String.toList) ∧
      putBack (liftedFrom [5] 0 serveTemplate) (withoutSections 0 [3, 4] serveSections
        (serveLayout.assembled serveTemplate serveSections [5])) = serveTemplate ∧
      ∃ pieces, (ResolvedOptions.mk [0, 1] (["serve", "api"].map String.toList) .empty).sections
          (["serve", "api"].map String.toList) = .ok pieces ∧ pieces.length = 3 ∧
        interleaved pieces (["serve", "api"].map String.toList) =
          ["serve", "api"].map String.toList := by
  have hvalid : serveLayout.validate serveTokens = .ok () := by decide +kernel
  have hsections : serveSections.length = serveLayout.subcommands.length + 1 := rfl
  have hlift : ∀ index ∈ [5], serveLayout.leaf ≤ index ∧ index < serveTemplate.length := by decide
  have hresolved : Resolved .plain (.ofOptions []) (["serve", "api"].map String.toList)
      ⟨[0, 1], ["serve", "api"].map String.toList, .empty⟩ :=
    .of_grouped (show (OptionSchema.ofOptions []).resolve .plain _ .empty = _ by rfl)
  have hentry := entry_preserved hvalid (List.prefix_append ..) hsections hlift
  exact ⟨hentry.1.trans (by decide +kernel), hentry.2.1,
    hentry.2.2 _ _ _ _ (by decide +kernel) hresolved⟩

end CommandLayout

end AioLM.Options
