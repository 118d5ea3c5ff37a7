import AioLM.OptionResolve

/-!
The scope sections of resolved arguments. The boundaries recorded while the
words are emitted split them back into the words of each depth.
-/

set_option autoImplicit false

namespace AioLM.Options

/-- The loop of `sections` over the boundaries, from a start index. -/
def splitSections (argv : List Text) :
    Nat → List Nat → List Text → Except Text (List (List Text))
  | start, index :: boundaries, word :: scope =>
    if index < start ∨ argv[index]? ≠ some word then
      .error "resolved scope boundary is invalid".toList
    else do
      let more ← splitSections argv (index + 1) boundaries scope
      return (argv.take index).drop start :: more
  | start, _, _ => .ok [argv.drop start]

def ResolvedOptions.sections (r : ResolvedOptions) (scope : List Text) :
    Except Text (List (List Text)) :=
  if r.scopeBoundaries.length ≠ scope.length then
    .error "resolved scope boundaries do not match the command layout".toList
  else splitSections r.argv 0 r.scopeBoundaries scope

def scopePairs (sections : Nat → List Text) : Nat → List Text → List (Text × List Text)
  | _, [] => []
  | depth, word :: scope =>
    (word, sections (depth + 1)) :: scopePairs sections (depth + 1) scope

def joined (pairs : List (Text × List Text)) : List Text := pairs.flatMap fun p => p.1 :: p.2

def boundaries : Nat → List (Text × List Text) → List Nat
  | _, [] => []
  | start, (_, words) :: pairs => start :: boundaries (start + 1 + words.length) pairs

theorem layOut_from (selected : List Text) (sections : Nat → List Text) (scope : List Text)
    (depth : Nat) (hscope : selected.drop depth = scope) (out : Layout) :
    (List.range' depth scope.length).foldl
        (fun out i => Layout.push selected sections out (i + 1)) out =
      ⟨out.argv ++ joined (scopePairs sections depth scope),
        out.scopeBoundaries ++ boundaries out.argv.length (scopePairs sections depth scope)⟩ := by
  induction scope generalizing depth out with
  | nil => simp [scopePairs, joined, boundaries]
  | cons word scope ih =>
    have hword : selected[depth]? = some word := by
      rw [← List.head?_drop, hscope, List.head?_cons]
    have hrest : selected.drop (depth + 1) = scope := by
      rw [← List.tail_drop, hscope, List.tail_cons]
    rw [List.length_cons, List.range'_succ, List.foldl_cons, ih (depth + 1) hrest]
    simp [Layout.push, hword, scopePairs, joined, boundaries, Nat.add_assoc, Nat.add_comm 1]

theorem layOut_eq (selected : List Text) (sections : Nat → List Text) :
    layOut selected sections =
      ⟨sections 0 ++ joined (scopePairs sections 0 selected),
        boundaries (sections 0).length (scopePairs sections 0 selected)⟩ := by
  rw [layOut, List.range_succ_eq_map, List.foldl_cons, List.foldl_map, List.range_eq_range']
  rw [layOut_from selected sections selected 0 rfl]
  simp [Layout.push]

@[simp] theorem map_fst_scopePairs (sections : Nat → List Text) (scope : List Text)
    (depth : Nat) : (scopePairs sections depth scope).map (·.1) = scope := by
  induction scope generalizing depth with
  | nil => rfl
  | cons word scope ih => simp [scopePairs, ih]

theorem map_snd_scopePairs (sections : Nat → List Text) (scope : List Text) (depth : Nat) :
    (scopePairs sections depth scope).map (·.2) =
      (List.range' (depth + 1) scope.length).map sections := by
  induction scope generalizing depth with
  | nil => rfl
  | cons word scope ih => simp [scopePairs, ih, List.range'_succ]

theorem length_boundaries (start : Nat) (pairs : List (Text × List Text)) :
    (boundaries start pairs).length = pairs.length := by
  induction pairs generalizing start with
  | nil => rfl
  | cons p pairs ih => simp [boundaries, ih]

theorem splitSections_joined (before words : List Text) (pairs : List (Text × List Text)) :
    splitSections (before ++ words ++ joined pairs) before.length
        (boundaries (before.length + words.length) pairs) (pairs.map (·.1)) =
      .ok (words :: pairs.map (·.2)) := by
  induction pairs generalizing before words with
  | nil => simp [splitSections, boundaries, joined]
  | cons p pairs ih =>
    obtain ⟨word, next⟩ := p
    have hargv : before ++ words ++ joined ((word, next) :: pairs) =
        (before ++ words ++ [word]) ++ next ++ joined pairs := by simp [joined]
    have hword : (before ++ words ++ joined ((word, next) :: pairs))[before.length +
        words.length]? = some word := by
      rw [← List.length_append, List.getElem?_append_right (Nat.le_refl _)]
      simp [joined]
    have hsection : ((before ++ words ++ joined ((word, next) :: pairs)).take
        (before.length + words.length)).drop before.length = words := by
      rw [← List.length_append, List.take_left, List.drop_left]
    have hlength : before.length + words.length + 1 = (before ++ words ++ [word]).length := by
      simp only [List.length_append, List.length_cons, List.length_nil]
    have hmore := ih (before ++ words ++ [word]) next
    rw [← hargv, ← hlength] at hmore
    have hinside : ¬ (before.length + words.length < before.length ∨
        (before ++ words ++ joined ((word, next) :: pairs))[before.length + words.length]? ≠
          some word) := by
      intro hout
      obtain hlt | hne := hout
      · omega
      · exact hne hword
    simp only [List.map_cons, boundaries, splitSections, hsection]
    rw [if_neg hinside, hmore]
    rfl

theorem sections_layOut {selected : List Text} {sections : Nat → List Text} {r : ResolvedOptions}
    (hargv : r.argv = (layOut selected sections).argv)
    (hboundaries : r.scopeBoundaries = (layOut selected sections).scopeBoundaries) :
    r.sections selected = .ok ((List.range (selected.length + 1)).map sections) := by
  have hsplit := splitSections_joined [] (sections 0) (scopePairs sections 0 selected)
  rw [map_fst_scopePairs, map_snd_scopePairs] at hsplit
  simp only [List.nil_append, List.length_nil, Nat.zero_add] at hsplit
  have hlength : (boundaries (sections 0).length (scopePairs sections 0 selected)).length =
      selected.length := by
    rw [length_boundaries, ← List.length_map (·.1), map_fst_scopePairs]
  rw [layOut_eq] at hargv hboundaries
  rw [ResolvedOptions.sections, hargv, hboundaries, if_neg (by simp [hlength]), hsplit,
    List.range_eq_range', List.range'_succ]
  rfl

end AioLM.Options
