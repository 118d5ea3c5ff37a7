import Mathlib.Algebra.Order.Ring.Int
import Mathlib.Data.List.Sort
import Mathlib.Data.List.Nodup

/-!
General facts about lists that have distinct or sorted keys.
-/

set_option autoImplicit false

namespace AioLM.Lists

variable {α κ : Type}

theorem filter_key_eq [DecidableEq κ] {key : α → κ} {xs : List α} (hkeys : (xs.map key).Nodup)
    {x : α} (hx : x ∈ xs) : xs.filter (fun y => key y = key x) = [x] := by
  induction xs with
  | nil => simp at hx
  | cons y ys ih =>
    obtain ⟨hy, hys⟩ := List.nodup_cons.mp hkeys
    rcases List.mem_cons.mp hx with rfl | hx
    · have hnone : ys.filter (fun y => key y = key x) = [] := by
        rw [List.filter_eq_nil_iff]
        intro z hz hkey
        exact hy (List.mem_map.mpr ⟨z, hz, by simpa using hkey⟩)
      simp [hnone]
    · have hne : key y ≠ key x := fun h => hy (List.mem_map.mpr ⟨x, hx, h.symm⟩)
      simp [hne, ih hys hx]

theorem find_key_eq [DecidableEq κ] {key : α → κ} {xs : List α} (hkeys : (xs.map key).Nodup)
    {x : α} (hx : x ∈ xs) : xs.find? (fun y => key y = key x) = some x := by
  rw [← List.head?_filter, filter_key_eq hkeys hx, List.head?_cons]

theorem eq_of_key_eq {key : α → κ} {xs : List α} (hkeys : (xs.map key).Nodup) {x y : α}
    (hx : x ∈ xs) (hy : y ∈ xs) (h : key x = key y) : x = y :=
  List.inj_on_of_nodup_map hkeys hx hy h

theorem find_key_perm [DecidableEq κ] {key : α → κ} {xs ys : List α} (hperm : xs.Perm ys)
    (hkeys : (ys.map key).Nodup) (k : κ) :
    xs.find? (fun x => key x = k) = ys.find? (fun x => key x = k) := by
  cases hfind : ys.find? (fun x => key x = k) with
  | none =>
    rw [List.find?_eq_none] at hfind ⊢
    exact fun x hx => hfind x (hperm.mem_iff.mp hx)
  | some y =>
    have hy := List.mem_of_find?_eq_some hfind
    have hk : key y = k := by simpa using List.find?_some hfind
    rw [← hk]
    exact find_key_eq ((hperm.map key).nodup_iff.mpr hkeys) (hperm.mem_iff.mpr hy)

theorem getElem?_set_eq_some {xs : List α} {i j : Nat} {x y z : α} (h : xs[i]? = some x) :
    (xs.set i y)[j]? = some z ↔ (j = i ∧ z = y) ∨ (j ≠ i ∧ xs[j]? = some z) := by
  obtain ⟨hlt, -⟩ := List.getElem?_eq_some_iff.mp h
  rw [List.getElem?_set]
  by_cases hij : i = j
  · subst hij
    simp [hlt, eq_comm]
  · simp [hij, Ne.symm hij]

theorem getElem?_concat {xs : List α} {x y : α} {i : Nat} (h : (xs ++ [x])[i]? = some y) :
    xs[i]? = some y ∨ (i = xs.length ∧ y = x) := by
  rcases Nat.lt_or_ge i xs.length with hlt | hge
  · rw [List.getElem?_append_left hlt] at h
    exact .inl h
  · rw [List.getElem?_append_right hge] at h
    obtain ⟨hlt, heq⟩ := List.getElem?_eq_some_iff.mp h
    rw [List.length_singleton] at hlt
    exact .inr ⟨by omega, by simpa using heq.symm⟩

theorem getElem?_concat_of_some {xs : List α} {x y : α} {i : Nat} (h : xs[i]? = some y) :
    (xs ++ [x])[i]? = some y := by
  obtain ⟨hlt, -⟩ := List.getElem?_eq_some_iff.mp h
  rw [List.getElem?_append_left hlt, h]

theorem foldl_view_eq {σ π : Type} {step : σ → α → σ} {view : σ → π} {xs : List α}
    (h : ∀ s, ∀ x ∈ xs, view (step s x) = view s) (s : σ) : view (xs.foldl step s) = view s := by
  induction xs generalizing s with
  | nil => rfl
  | cons x xs ih =>
    rw [List.foldl_cons, ih (fun s y hy => h s y (List.mem_cons_of_mem _ hy)),
      h s x List.mem_cons_self]

theorem foldl_keyed [DecidableEq κ] {σ π : Type} {key : α → κ} {step : σ → α → σ} {k : κ}
    (view : σ → π) (update : π → α → π)
    (hstep : ∀ s x, view (step s x) = if key x = k then update (view s) x else view s)
    {xs : List α} (hkeys : (xs.map key).Nodup) (s : σ) :
    view (xs.foldl step s) =
      ((xs.find? fun x => key x = k).map (update (view s))).getD (view s) := by
  induction xs generalizing s with
  | nil => rfl
  | cons x xs ih =>
    obtain ⟨hx, hxs⟩ := List.nodup_cons.mp hkeys
    rw [List.foldl_cons]
    by_cases hk : key x = k
    · have hrest (s : σ) (y : α) (hy : y ∈ xs) : view (step s y) = view s := by
        have hne : key y ≠ k := fun h => hx (List.mem_map.mpr ⟨y, hy, h.trans hk.symm⟩)
        rw [hstep, if_neg hne]
      rw [foldl_view_eq hrest, hstep, if_pos hk, List.find?_cons_of_pos (by simpa using hk)]
      rfl
    · rw [ih hxs, hstep, if_neg hk, List.find?_cons_of_neg (by simpa using hk)]

/-- In a sorted list an element shares its key with some other element exactly
when it shares it with a neighbour. -/
theorem neighbour_key_iff [PartialOrder κ] {key : α → κ} {xs : List α}
    (hsorted : xs.Pairwise (fun x y => key x ≤ key y)) {i : Nat} (hi : i < xs.length) :
    ((0 < i ∧ (xs[i - 1]?.map key = some (key xs[i]))) ∨
        xs[i + 1]?.map key = some (key xs[i])) ↔
      ∃ j, ∃ hj : j < xs.length, j ≠ i ∧ key xs[j] = key xs[i] := by
  rw [List.pairwise_iff_getElem] at hsorted
  constructor
  · rintro (⟨hpos, h⟩ | h)
    · obtain ⟨y, hy, hkey⟩ := Option.map_eq_some_iff.mp h
      obtain ⟨hlt, rfl⟩ := List.getElem?_eq_some_iff.mp hy
      exact ⟨i - 1, hlt, by omega, hkey⟩
    · obtain ⟨y, hy, hkey⟩ := Option.map_eq_some_iff.mp h
      obtain ⟨hlt, rfl⟩ := List.getElem?_eq_some_iff.mp hy
      exact ⟨i + 1, hlt, by omega, hkey⟩
  · rintro ⟨j, hj, hne, hkey⟩
    rcases Nat.lt_or_gt_of_ne hne with hlt | hgt
    · left
      have hprev : i - 1 < xs.length := by omega
      have hle : key xs[i - 1] ≤ key xs[i] := hsorted _ _ _ hi (by omega)
      have hge : key xs[i] ≤ key xs[i - 1] := by
        rw [← hkey]
        rcases Nat.eq_or_lt_of_le (show j ≤ i - 1 by omega) with rfl | hbefore
        · exact le_refl _
        · exact hsorted _ _ _ _ hbefore
      exact ⟨by omega, by simp [hprev, le_antisymm hle hge]⟩
    · right
      have hnext : i + 1 < xs.length := by omega
      have hge : key xs[i] ≤ key xs[i + 1] := hsorted _ _ _ _ (by omega)
      have hle : key xs[i + 1] ≤ key xs[i] := by
        rw [← hkey]
        rcases Nat.eq_or_lt_of_le (show i + 1 ≤ j by omega) with rfl | hafter
        · exact le_refl _
        · exact hsorted _ _ _ _ hafter
      simp [hnext, le_antisymm hle hge]

theorem insertIdx_length_append (before rest : List α) (x : α) :
    (before ++ rest).insertIdx before.length x = before ++ x :: rest := by
  induction before with
  | nil => rfl
  | cons y before ih => rw [List.cons_append, List.length_cons, List.insertIdx_succ_cons, ih]; rfl

theorem flatMap_filterMap {β γ : Type} (f : α → Option β) (g : β → List γ) (xs : List α) :
    (xs.filterMap f).flatMap g = xs.flatMap fun x => (f x).elim [] g := by
  induction xs with
  | nil => rfl
  | cons x xs ih => cases hx : f x <;> simp [hx, ih]

theorem flatMap_filter {γ : Type} (p : α → Bool) (g : α → List γ) (xs : List α) :
    (xs.filter p).flatMap g = xs.flatMap fun x => if p x then g x else [] := by
  induction xs with
  | nil => rfl
  | cons x xs ih => cases hx : p x <;> simp [hx, ih]

theorem filterMap_eq_map_filter {β : Type} {f : α → Option β} {p : α → Bool} {g : α → β}
    (h : ∀ x, f x = if p x then some (g x) else none) (xs : List α) :
    xs.filterMap f = (xs.filter p).map g := by
  induction xs with
  | nil => rfl
  | cons x xs ih => cases hx : p x <;> simp [h x, hx, ih]

/-- What is kept of a list beyond the first `n` kept, by its place in the list. -/
theorem mem_drop_filterMap_iff {β : Type} {f : α → Option β} {xs : List α} {n : Nat} {y : β} :
    y ∈ (xs.filterMap f).drop n ↔
      ∃ before x after, xs = before ++ x :: after ∧ f x = some y ∧
        n ≤ (before.filterMap f).length := by
  constructor
  · intro h
    induction xs generalizing n with
    | nil => simp at h
    | cons x xs ih =>
      cases hx : f x with
      | none =>
        rw [List.filterMap_cons_none hx] at h
        obtain ⟨before, z, after, rfl, hz, hn⟩ := ih h
        exact ⟨x :: before, z, after, rfl, hz, by rwa [List.filterMap_cons_none hx]⟩
      | some w =>
        rw [List.filterMap_cons_some hx] at h
        cases n with
        | zero =>
          rcases List.mem_cons.mp h with rfl | hrest
          · exact ⟨[], x, xs, rfl, hx, Nat.zero_le _⟩
          · obtain ⟨before, z, after, rfl, hz, -⟩ := ih (n := 0) hrest
            exact ⟨x :: before, z, after, rfl, hz, Nat.zero_le _⟩
        | succ n =>
          obtain ⟨before, z, after, rfl, hz, hn⟩ := ih h
          exact ⟨x :: before, z, after, rfl, hz,
            by rw [List.filterMap_cons_some hx, List.length_cons]; omega⟩
  · rintro ⟨before, x, after, rfl, hx, hn⟩
    rw [List.filterMap_append, List.drop_append, List.filterMap_cons_some hx,
      Nat.sub_eq_zero_of_le hn]
    simp

variable {β : Type} [LinearOrder κ] {key : α → κ}

theorem orderedInsert_append {y : α} {us : List α} (h : ∀ u ∈ us, key u < key y) (L : List α) :
    (us ++ L).orderedInsert (fun a b => key a ≤ key b) y =
      us ++ L.orderedInsert (fun a b => key a ≤ key b) y := by
  induction us with
  | nil => rfl
  | cons u us ih =>
    obtain ⟨hu, hus⟩ := List.forall_mem_cons.mp h
    rw [List.cons_append, List.orderedInsert_cons, if_neg (not_le_of_gt hu), ih hus,
      List.cons_append]

theorem insertRun_before {k : κ} {ys : List α} (hys : ∀ y ∈ ys, key y = k) {L : List α}
    (hL : ∀ b ∈ L.head?, k ≤ key b) :
    ys.foldr (List.orderedInsert fun a b => key a ≤ key b) L = ys ++ L := by
  induction ys with
  | nil => rfl
  | cons y ys ih =>
    obtain ⟨hy, hys⟩ := List.forall_mem_cons.mp hys
    rw [List.foldr_cons, ih hys]
    cases ys with
    | nil =>
      cases L with
      | nil => rfl
      | cons b L =>
        have hb : key y ≤ key b := hy ▸ hL b rfl
        simp [hb]
    | cons z zs =>
      have hz : key y ≤ key z := by rw [hy, hys z List.mem_cons_self]
      simp [hz]

theorem insertRun_after {k : κ} {ys us : List α} (hys : ∀ y ∈ ys, key y = k)
    (hus : ∀ u ∈ us, key u < k) (L : List α) :
    ys.foldr (List.orderedInsert fun a b => key a ≤ key b) (us ++ L) =
      us ++ ys.foldr (List.orderedInsert fun a b => key a ≤ key b) L := by
  induction ys with
  | nil => rfl
  | cons y ys ih =>
    obtain ⟨hy, hys⟩ := List.forall_mem_cons.mp hys
    rw [List.foldr_cons, ih hys, orderedInsert_append (fun u hu => hy ▸ hus u hu),
      List.foldr_cons]

theorem insertRun_flatMap {groupKey : β → κ} {expand : β → List α} {S : List β}
    (hkey : ∀ x, ∀ y ∈ expand x, key y = groupKey x) (hne : ∀ x ∈ S, expand x ≠ []) (x : β) :
    (expand x).foldr (List.orderedInsert fun a b => key a ≤ key b) (S.flatMap expand) =
      (S.orderedInsert (fun a b => groupKey a ≤ groupKey b) x).flatMap expand := by
  induction S with
  | nil => simpa using insertRun_before (hkey x) (L := []) (by simp)
  | cons b S ih =>
    obtain ⟨hb, hS⟩ := List.forall_mem_cons.mp hne
    rw [List.orderedInsert_cons]
    split
    · rename_i hle
      have hsplit : (x :: b :: S).flatMap expand = expand x ++ (b :: S).flatMap expand :=
        List.flatMap_cons
      rw [hsplit]
      refine insertRun_before (hkey x) ?_
      intro y hy
      have hmem : y ∈ expand b := by
        cases hexpand : expand b with
        | nil => exact absurd hexpand hb
        | cons z zs => simp_all
      rw [hkey b y hmem]
      exact hle
    · rename_i hlt
      rw [List.flatMap_cons, List.flatMap_cons,
        insertRun_after (hkey x) (fun u hu => hkey b u hu ▸ lt_of_not_ge hlt), ih hS]

theorem insertionSort_flatMap {groupKey : β → κ} {expand : β → List α} {xs : List β}
    (hkey : ∀ x, ∀ y ∈ expand x, key y = groupKey x) (hne : ∀ x ∈ xs, expand x ≠ []) :
    (xs.flatMap expand).insertionSort (fun a b => key a ≤ key b) =
      (xs.insertionSort fun a b => groupKey a ≤ groupKey b).flatMap expand := by
  induction xs with
  | nil => rfl
  | cons x xs ih =>
    obtain ⟨-, hxs⟩ := List.forall_mem_cons.mp hne
    rw [List.flatMap_cons, List.insertionSort, List.foldr_append]
    rw [List.insertionSort_cons, ← insertRun_flatMap hkey, ← ih hxs]
    · rfl
    · intro y hy
      exact hxs y ((List.mem_insertionSort _).mp hy)

theorem orderedInsert_of_le {y : α} {L : List α} (h : ∀ b ∈ L, key y ≤ key b) :
    L.orderedInsert (fun a b => key a ≤ key b) y = y :: L := by
  cases L with
  | nil => rfl
  | cons b L => rw [List.orderedInsert_cons, if_pos (h b List.mem_cons_self)]

theorem filter_orderedInsert (p : α → Bool) (y : α) {L : List α}
    (hsorted : L.Pairwise fun a b => key a ≤ key b) :
    (L.orderedInsert (fun a b => key a ≤ key b) y).filter p =
      if p y then (L.filter p).orderedInsert (fun a b => key a ≤ key b) y else L.filter p := by
  induction L with
  | nil => cases hy : p y <;> simp [hy]
  | cons b L ih =>
    obtain ⟨hb, hL⟩ := List.pairwise_cons.mp hsorted
    by_cases hle : key y ≤ key b
    · have hall : ∀ c ∈ (b :: L).filter p, key y ≤ key c := by
        intro c hc
        rcases List.mem_cons.mp (List.mem_of_mem_filter hc) with rfl | hc
        · exact hle
        · exact hle.trans (hb c hc)
      rw [List.orderedInsert_cons, if_pos hle, orderedInsert_of_le hall, List.filter_cons]
    · rw [List.orderedInsert_cons, if_neg hle]
      cases hpb : p b <;> cases hpy : p y <;> simp [hpb, hpy, ih hL, hle]

theorem filter_insertionSort (p : α → Bool) (xs : List α) :
    (xs.insertionSort fun a b => key a ≤ key b).filter p =
      (xs.filter p).insertionSort fun a b => key a ≤ key b := by
  induction xs with
  | nil => rfl
  | cons x xs ih =>
    have hsorted := List.pairwise_insertionSort (fun a b => key a ≤ key b) xs
    rw [List.insertionSort_cons, filter_orderedInsert p x hsorted, ih, List.filter_cons]
    cases p x <;> simp

end AioLM.Lists
