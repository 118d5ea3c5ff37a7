import AioLM.Recognizer

/-!
The import of a pasted command. The recognizer's spans tile the words behind the
head, so that every word is imported, managed or left for review once.
-/

set_option autoImplicit false

namespace AioLM.Options

open Fallible

structure ImportedPlan where
  plan : OrderedPlan
  managed : List Text
  unrecognized : List Text

def maxSafeInteger : Nat := 9007199254740991

mutual

def hasSafeIntegers : Json → Bool
  | .number n =>
    match (Json.number n).asI64, (Json.number n).asU64 with
    | some i, _ => decide (i.natAbs ≤ maxSafeInteger)
    | none, some u => decide (u ≤ maxSafeInteger)
    | none, none => true
  | .array items => itemsHaveSafeIntegers items
  | .object fields => fieldsHaveSafeIntegers fields
  | _ => true

def itemsHaveSafeIntegers : List Json → Bool
  | [] => true
  | v :: rest => hasSafeIntegers v && itemsHaveSafeIntegers rest

def fieldsHaveSafeIntegers : List (Text × Json) → Bool
  | [] => true
  | (_, v) :: rest => hasSafeIntegers v && fieldsHaveSafeIntegers rest

end

def importedValue (serde : Serde) (kind : ValueKind) (value : Json) : Option Json := do
  let text ← value.asStr
  match kind with
  | .integer => (parseI64 text).map Json.int
  | .number => ((scanDecimal text).filter Decimal.finite).map fun d => .number (.float d.toFloat)
  | .boolean =>
    if text = "true".toList then some (.bool true)
    else if text = "false".toList then some (.bool false)
    else none
  | .json => (serde.parse text).filter hasSafeIntegers
  | .text | .tokens => some value

/-- Unknown facts retain literal values for later review. -/
def importedValues (serde : Serde) (option : OptionDefinition) (values : List Json) :
    Option (List Json) :=
  match option.kind.supported, option.arity.supported with
  | none, _ | _, none | some .text, _ | some .tokens, _ => some values
  | some kind, some _ => values.mapM (importedValue serde kind)

def plannedOf (serde : Serde) (words : List Text) (occurrence : TokenOccurrence) :
    Option PlannedOccurrence :=
  let values :=
    if occurrence.valid then
      match occurrence.boolean with
      | some value => some [.bool value]
      | none => importedValues serde occurrence.option (occurrence.values words)
    else none
  values.map fun values => ⟨occurrence.option.key, occurrence.spelling, values⟩

def occurrencesOf (tiles : List Tile) : List TokenOccurrence :=
  tiles.filterMap fun tile =>
    match tile.token with
    | .occurrence o => some o
    | _ => none

def managedOf (tiles : List Tile) : List Span :=
  tiles.filterMap fun tile =>
    match tile.token with
    | .managed => some tile.span
    | _ => none

def unrecognizedOf (tiles : List Tile) : List Span :=
  tiles.filterMap fun tile =>
    match tile.token with
    | .unrecognized => some tile.span
    | _ => none

def rejectedOf (serde : Serde) (words : List Text) (tiles : List Tile) : List Span :=
  ((occurrencesOf tiles).filter fun o => (plannedOf serde words o).isNone).map (·.span)

def importPlanTokensForEntry (windows : Bool) (serde : Serde) (schema : OptionSchema)
    (selected : List Text) (entry : Option CommandEntry) (words : List Text) :
    Except Text ImportedPlan := do
  let tiles ← recognizeTokens windows serde schema selected entry false words
  let plan := (occurrencesOf tiles).filterMap (plannedOf serde words)
  let unrecognized := (rejectedOf serde words tiles ++ unrecognizedOf tiles).insertionSort
    fun a b => a.start ≤ b.start
  require (plan.length ≤ maxPlan) "too many planned option occurrences".toList
  return ⟨plan, (managedOf tiles).flatMap (·.slice words),
    unrecognized.flatMap (·.slice words)⟩

namespace Tile

def planned (serde : Serde) (words : List Text) (tile : Tile) : Option PlannedOccurrence :=
  match tile.token with
  | .occurrence o => plannedOf serde words o
  | _ => none

def managedSpan (tile : Tile) : Option Span :=
  match tile.token with
  | .managed => some tile.span
  | _ => none

def reviewSpan (serde : Serde) (words : List Text) (tile : Tile) : Option Span :=
  match tile.token with
  | .unrecognized => some tile.span
  | .occurrence o => if (plannedOf serde words o).isNone then some tile.span else none
  | _ => none

/-- Words that belong to the registered entry or its subcommands. -/
def skipped (tile : Tile) : Bool :=
  match tile.token with
  | .scopeWord | .separator | .entryToken _ _ => true
  | _ => false

end Tile

theorem plan_tiles (serde : Serde) (words : List Text) (tiles : List Tile) :
    (occurrencesOf tiles).filterMap (plannedOf serde words) =
      tiles.filterMap (·.planned serde words) := by
  rw [occurrencesOf, List.filterMap_filterMap]
  refine List.filterMap_congr fun tile _ => ?_
  unfold Tile.planned
  split <;> simp_all

theorem review_perm {serde : Serde} {selected : List Text} {entry : Option CommandEntry}
    {words : List Text} {tiles : List Tile}
    (h : ∀ tile ∈ tiles, tile.token.Justified selected entry words tile.span) :
    (rejectedOf serde words tiles ++ unrecognizedOf tiles).Perm
      (tiles.filterMap (·.reviewSpan serde words)) := by
  induction tiles with
  | nil => exact .refl _
  | cons tile tiles ih =>
    obtain ⟨htile, htiles⟩ := List.forall_mem_cons.mp h
    have hmore := ih htiles
    cases htoken : tile.token with
    | occurrence o =>
      rw [htoken] at htile
      have hspan : o.span = tile.span := htile.1
      cases hplanned : plannedOf serde words o with
      | none =>
        simpa [rejectedOf, unrecognizedOf, occurrencesOf, Tile.reviewSpan, htoken, hplanned,
          hspan] using hmore
      | some planned =>
        simpa [rejectedOf, unrecognizedOf, occurrencesOf, Tile.reviewSpan, htoken, hplanned]
          using hmore
    | unrecognized =>
      have hfirst : (rejectedOf serde words (tile :: tiles) ++ unrecognizedOf (tile :: tiles)) =
          rejectedOf serde words tiles ++ tile.span :: unrecognizedOf tiles := by
        simp [rejectedOf, unrecognizedOf, occurrencesOf, htoken]
      have hlater : (tile :: tiles).filterMap (·.reviewSpan serde words) =
          tile.span :: tiles.filterMap (·.reviewSpan serde words) := by
        simp [Tile.reviewSpan, htoken]
      rw [hfirst, hlater]
      exact List.perm_middle.trans (hmore.cons _)
    | _ =>
      simpa [rejectedOf, unrecognizedOf, occurrencesOf, Tile.reviewSpan, htoken] using hmore

theorem reviewSpan_eq {serde : Serde} {words : List Text} {tile : Tile} {span : Span}
    (h : tile.reviewSpan serde words = some span) : span = tile.span := by
  unfold Tile.reviewSpan at h
  split at h
  · exact (Option.some.inj h).symm
  · split at h
    · exact (Option.some.inj h).symm
    · cases h
  · cases h

theorem review_sorted {serde : Serde} {selected : List Text} {entry : Option CommandEntry}
    {words : List Text} {tiles : List Tile} {start stop : Nat}
    (htiles : Span.Tiles start stop (tiles.map (·.span)))
    (h : ∀ tile ∈ tiles, tile.token.Justified selected entry words tile.span) :
    (rejectedOf serde words tiles ++ unrecognizedOf tiles).insertionSort
        (fun a b => a.start ≤ b.start) = tiles.filterMap (·.reviewSpan serde words) := by
  have hreview : (rejectedOf serde words tiles ++ unrecognizedOf tiles).Perm
      (tiles.filterMap (·.reviewSpan serde words)) := review_perm h
  have hperm := (List.perm_insertionSort (fun a b : Span => a.start ≤ b.start) _).trans hreview
  have hordered : (tiles.filterMap (·.reviewSpan serde words)).Pairwise
      fun a b => a.start < b.start := by
    have hpairs : tiles.Pairwise fun a b => a.span.start < b.span.start := by
      refine (List.pairwise_map.mp htiles.pairwise).imp_of_mem ?_
      intro a b ha _ hle
      have hbounds := htiles.bounds (List.mem_map.mpr ⟨a, ha, rfl⟩)
      omega
    refine hpairs.filterMap _ ?_
    intro a b hlt span hspan span' hspan'
    rw [reviewSpan_eq hspan, reviewSpan_eq hspan']
    exact hlt
  have hle := hordered.imp fun {a b : Span} => @Nat.le_of_lt a.start b.start
  refine List.Perm.eq_of_pairwise ?_ (List.pairwise_insertionSort _ _) hle hperm
  intro a b ha hb hab hba
  have hstarts : ((tiles.filterMap (·.reviewSpan serde words)).map (·.start)).Nodup :=
    List.pairwise_map.mpr (hordered.imp Nat.ne_of_lt)
  exact Lists.eq_of_key_eq hstarts (hperm.mem_iff.mp ha) hb (Nat.le_antisymm hab hba)

/-- An accepted occurrence stands for exactly the words of its tile: its own
spelling, and the texts its values are read from. -/
def Represents (serde : Serde) (words : List Text) (tile : Tile)
    (planned : PlannedOccurrence) : Prop :=
  ∃ o, tile.token = .occurrence o ∧ planned.key = o.option.key ∧ planned.spelling = o.spelling ∧
    o.spelled words = tile.span.slice words ∧
    ((∃ value, o.boolean = some value ∧ o.texts words = [] ∧ planned.values = [.bool value]) ∨
      importedValues serde o.option ((o.texts words).map .string) = some planned.values)

theorem represents_of_planned {serde : Serde} {selected : List Text}
    {entry : Option CommandEntry} {words : List Text} {tile : Tile} {planned : PlannedOccurrence}
    (h : tile.token.Justified selected entry words tile.span)
    (hplanned : tile.planned serde words = some planned) : Represents serde words tile planned := by
  unfold Tile.planned at hplanned
  split at hplanned
  · rename_i o htoken
    rw [htoken] at h
    obtain ⟨hspan, hspelled, hboolean⟩ := h
    simp only [plannedOf, Option.map_eq_some_iff] at hplanned
    obtain ⟨values, hvalues, rfl⟩ := hplanned
    refine ⟨o, htoken, rfl, rfl, hspelled, ?_⟩
    split at hvalues
    · rename_i hvalid
      split at hvalues
      · rename_i value hvalue
        cases hvalues
        exact .inl ⟨value, hvalue, hboolean (by simp [hvalue]) hvalid, rfl⟩
      · exact .inr hvalues
    · cases hvalues
  · cases hplanned

/-- Importing a command loses and duplicates nothing: the recognizer's spans tile
the words behind the head, every skipped tile is the entry's own, and the others
become the plan, the managed and the unrecognized words in the order they have. -/
theorem import_tiles {windows : Bool} {serde : Serde} {schema : OptionSchema}
    {selected : List Text} {entry : Option CommandEntry} {words : List Text}
    {imported : ImportedPlan}
    (h : importPlanTokensForEntry windows serde schema selected entry words = .ok imported) :
    ∃ head tiles, startIndex windows selected entry words = .ok head ∧
      recognizeTokens windows serde schema selected entry false words = .ok tiles ∧
      Span.Tiles head words.length (tiles.map (·.span)) ∧
      (∀ i < words.length, i < head ∨ ∃! k : Nat, ∃ span, (tiles.map (·.span))[k]? = some span ∧
        span.Contains i) ∧
      (∀ tile ∈ tiles, tile.token.Justified selected entry words tile.span) ∧
      tiles.countP (·.token.isSeparator) ≤
        (if (entry.bind (·.separator)).isSome then 1 else 0) ∧
      imported.plan = tiles.filterMap (·.planned serde words) ∧
      (∀ tile ∈ tiles, ∀ planned, tile.planned serde words = some planned →
        Represents serde words tile planned) ∧
      imported.managed = (tiles.filterMap (·.managedSpan)).flatMap (·.slice words) ∧
      imported.unrecognized =
        (tiles.filterMap (·.reviewSpan serde words)).flatMap (·.slice words) ∧
      ∀ tile ∈ tiles, (tile.skipped.toNat + (tile.planned serde words).isSome.toNat +
        tile.managedSpan.isSome.toNat + (tile.reviewSpan serde words).isSome.toNat) = 1 := by
  simp only [importPlanTokensForEntry, bind_eq_ok, pure, Except.pure, Except.ok.injEq] at h
  obtain ⟨tiles, htokens, -, -, rfl⟩ := h
  have hrecognized := htokens
  simp only [recognizeTokens, bind_eq_ok, pure, Except.pure, Except.ok.injEq] at hrecognized
  obtain ⟨cursor, hstart, found, hfound, -, -, rfl⟩ := hrecognized
  simp only [recognizeStart, bind_eq_ok, pure, Except.pure, Except.ok.injEq] at hstart
  obtain ⟨-, -, -, -, head, hhead, rfl⟩ := hstart
  have hle := startIndex_le hhead
  obtain ⟨htiles, hjustified, hseparator⟩ := recognizeFrom_spec hle hfound
  refine ⟨head, found, hhead, htokens, htiles, ?_, hjustified, hseparator, plan_tiles _ _ _, ?_,
    rfl, ?_, ?_⟩
  · intro i hi
    by_cases hbefore : i < head
    · exact .inl hbefore
    · exact .inr (htiles.existsUnique (Nat.not_lt.mp hbefore) hi)
  · intro tile htile planned hplanned
    exact represents_of_planned (hjustified tile htile) hplanned
  · rw [review_sorted htiles hjustified]
  · intro tile htile
    cases htoken : tile.token with
    | occurrence o =>
      cases hplanned : plannedOf serde words o <;>
        simp [Tile.skipped, Tile.planned, Tile.managedSpan, Tile.reviewSpan, htoken, hplanned]
    | _ => simp [Tile.skipped, Tile.planned, Tile.managedSpan, Tile.reviewSpan, htoken]

def taggedSchema : OptionSchema := .ofOptions [.ofFlag "tag" "--tag" 1]

def taggedWords : List Text := ["--tag".toList, "b".toList, "--other".toList, "x".toList]

theorem import_tiles_tagged :
    ∃ (imported : ImportedPlan) (tiles : List Tile), importPlanTokensForEntry false .plain taggedSchema [] none taggedWords =
        .ok imported ∧
      Span.Tiles 0 4 (tiles.map (·.span)) ∧
      imported.plan = tiles.filterMap (·.planned .plain taggedWords) ∧
      imported.unrecognized =
        (tiles.filterMap (·.reviewSpan .plain taggedWords)).flatMap (·.slice taggedWords) := by
  have hok : (importPlanTokensForEntry false .plain taggedSchema [] none taggedWords).isOk := by
    decide +kernel
  cases h : importPlanTokensForEntry false .plain taggedSchema [] none taggedWords with
  | error message =>
    rw [h] at hok
    cases hok
  | ok imported =>
    obtain ⟨head, tiles, hhead, -, htiles, -, -, -, hplan, -, -, hreview, -⟩ := import_tiles h
    obtain rfl : 0 = head := Except.ok.inj ((by decide : startIndex false [] none taggedWords =
      .ok 0).symm.trans hhead)
    exact ⟨imported, tiles, rfl, htiles, hplan, hreview⟩

end AioLM.Options
