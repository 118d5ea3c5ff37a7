import Mathlib.Algebra.Order.BigOperators.Group.List
import Mathlib.Algebra.Order.Ring.Int

/-!
Reading a sorted table page by page when some of its rows cannot be read: a page keeps
one readable row more than it returns, gives up behind a number of unreadable rows, and
is followed from the key of its last row.
-/

set_option autoImplicit false

namespace AioLM.Paging

variable {κ α : Type}

def readable (rows : List (κ × Option α)) : List (κ × α) :=
  rows.filterMap fun row => row.2.map (row.1, ·)

theorem mem_readable {key : κ} {a : α} {rows : List (κ × Option α)} :
    (key, a) ∈ readable rows ↔ (key, some a) ∈ rows := by
  simp [readable, Option.map_eq_some_iff]

@[simp] theorem readable_nil : readable ([] : List (κ × Option α)) = [] := rfl

@[simp] theorem readable_none (key : κ) (rows : List (κ × Option α)) :
    readable ((key, none) :: rows) = readable rows := rfl

@[simp] theorem readable_some (key : κ) (a : α) (rows : List (κ × Option α)) :
    readable ((key, some a) :: rows) = (key, a) :: readable rows := rfl

/-- How many unreadable rows stand right before each readable one, behind as many of
them already seen. -/
def gaps : Nat → List (κ × Option α) → List Nat
  | _, [] => []
  | seen, (_, none) :: rows => gaps (seen + 1) rows
  | seen, (_, some _) :: rows => seen :: gaps 0 rows

theorem length_gaps (seen : Nat) (rows : List (κ × Option α)) :
    (gaps seen rows).length = (readable rows).length := by
  induction rows generalizing seen with
  | nil => rfl
  | cons row rows ih =>
    obtain ⟨key, value⟩ := row
    cases value with
    | none => simpa [gaps] using ih (seen + 1)
    | some a => simpa [gaps] using ih 0

theorem sum_take_gaps (seen n : Nat) (rows : List (κ × Option α)) :
    ((gaps seen rows).take (n + 1)).sum =
      (if readable rows = [] then 0 else seen) + ((gaps 0 rows).take (n + 1)).sum := by
  induction rows generalizing seen with
  | nil => simp [gaps]
  | cons row rows ih =>
    obtain ⟨key, value⟩ := row
    cases value with
    | none =>
      simp only [gaps, readable_none]
      rw [ih (seen + 1), ih 1]
      by_cases hreadable : readable rows = []
      · simp [hreadable]
      · simp only [hreadable, if_false]
        omega
    | some a => simp [gaps]

/-- One reading of the rows: up to one readable row more than the limit, as long as no
more than the budget could not be read. -/
def scan (limit budget : Nat) : List (κ × α) → Nat → List (κ × Option α) → List (κ × α)
  | kept, _, [] => kept
  | kept, skips, row :: rows =>
    if limit < kept.length then kept
    else if budget < skips then kept
    else
      match row.2 with
      | some a => scan limit budget (kept ++ [(row.1, a)]) skips rows
      | none => scan limit budget kept (skips + 1) rows

section Scan

variable {limit budget skips : Nat} {kept : List (κ × α)} {rows : List (κ × Option α)}

theorem scan_full (h : limit < kept.length) : scan limit budget kept skips rows = kept := by
  cases rows with
  | nil => rfl
  | cons row rows => simp [scan, h]

theorem scan_spent (h : budget < skips) : scan limit budget kept skips rows = kept := by
  cases rows with
  | nil => rfl
  | cons row rows => simp [scan, h]

theorem scan_unreadable (h : readable rows = []) : scan limit budget kept skips rows = kept := by
  induction rows generalizing skips with
  | nil => rfl
  | cons row rows ih =>
    obtain ⟨key, value⟩ := row
    cases value with
    | none =>
      simp only [scan]
      split
      · rfl
      · split
        · rfl
        · exact ih h
    | some a => simp at h

/-- A page that meets few unreadable rows is as full as it can be. -/
theorem scan_of_le {room : Nat} (hroom : kept.length + room = limit + 1)
    (h : skips + ((gaps 0 rows).take room).sum ≤ budget) :
    scan limit budget kept skips rows = kept ++ (readable rows).take room := by
  induction rows generalizing kept skips room with
  | nil => simp [scan]
  | cons row rows ih =>
    cases room with
    | zero => simpa using scan_full (by omega)
    | succ room =>
      have hlimit : ¬ limit < kept.length := by omega
      have hbudget : ¬ budget < skips := by omega
      obtain ⟨key, value⟩ := row
      cases value with
      | none =>
        simp only [scan, hlimit, hbudget, if_false, readable_none]
        by_cases hreadable : readable rows = []
        · rw [scan_unreadable hreadable, hreadable]
          simp
        · simp only [gaps, Nat.zero_add] at h
          rw [sum_take_gaps, if_neg hreadable] at h
          exact ih hroom (by omega)
      | some a =>
        simp only [scan, hlimit, hbudget, if_false, readable_some, List.take_succ_cons]
        simp only [gaps, List.take_succ_cons, List.sum_cons, Nat.zero_add] at h
        rw [ih (by simp; omega) h, List.append_assoc, List.singleton_append]

theorem scan_of_gt {room : Nat} (hroom : kept.length + room = limit + 1) (hskips : skips ≤ budget)
    (h : budget < skips + ((gaps 0 rows).take room).sum) :
    ∃ n, n < room ∧ n < (readable rows).length ∧
      scan limit budget kept skips rows = kept ++ (readable rows).take n := by
  induction rows generalizing kept skips room with
  | nil => simp [gaps] at h; omega
  | cons row rows ih =>
    cases room with
    | zero => simp at h; omega
    | succ room =>
      have hlimit : ¬ limit < kept.length := by omega
      have hbudget : ¬ budget < skips := by omega
      obtain ⟨key, value⟩ := row
      cases value with
      | none =>
        simp only [scan, hlimit, hbudget, if_false, readable_none]
        simp only [gaps, Nat.zero_add] at h
        rw [sum_take_gaps] at h
        by_cases hreadable : readable rows = []
        · have hgaps : gaps 0 rows = [] := by
            rw [← List.length_eq_zero_iff, length_gaps, hreadable, List.length_nil]
          rw [if_pos hreadable, hgaps] at h
          simp at h
          omega
        · rw [if_neg hreadable] at h
          by_cases hspent : budget < skips + 1
          · refine ⟨0, by omega, List.length_pos_iff.mpr hreadable, ?_⟩
            rw [scan_spent hspent]
            simp
          · exact ih hroom (by omega) (by omega)
      | some a =>
        simp only [scan, hlimit, hbudget, if_false, readable_some]
        simp only [gaps, List.take_succ_cons, List.sum_cons, Nat.zero_add] at h
        have hmore : (kept ++ [(key, a)]).length + room = limit + 1 := by
          rw [List.length_append, List.length_singleton]
          omega
        obtain ⟨n, hn, hlength, hscan⟩ := ih hmore hskips h
        refine ⟨n + 1, by omega, by simpa using hlength, ?_⟩
        rw [hscan, List.take_succ_cons, List.append_assoc, List.singleton_append]

theorem mem_scan {row : κ × α} (h : row ∈ scan limit budget kept skips rows) :
    row ∈ kept ∨ row ∈ readable rows := by
  induction rows generalizing kept skips with
  | nil => exact .inl h
  | cons first rows ih =>
    obtain ⟨key, value⟩ := first
    simp only [scan] at h
    split at h
    · exact .inl h
    · split at h
      · exact .inl h
      · cases value with
        | none => exact ih h
        | some a =>
          rcases ih h with hkept | hrows
          · rcases List.mem_append.mp hkept with hkept | hnew
            · exact .inl hkept
            · rw [List.mem_singleton.mp hnew]
              exact .inr List.mem_cons_self
          · exact .inr (List.mem_cons_of_mem _ hrows)

end Scan

theorem exists_behind {n : Nat} {rows : List (κ × Option α)} (h : n < (readable rows).length)
    (seen : Nat) : ∃ before key a rest, rows = before ++ (key, some a) :: rest ∧
      (readable rows)[n]? = some (key, a) ∧ readable rest = (readable rows).drop (n + 1) ∧
      gaps 0 rest = (gaps seen rows).drop (n + 1) := by
  induction rows generalizing n seen with
  | nil => cases h
  | cons row rows ih =>
    obtain ⟨key, value⟩ := row
    cases value with
    | none =>
      obtain ⟨before, found, a, rest, hrows, hrest⟩ := ih (n := n) h (seen + 1)
      exact ⟨(key, none) :: before, found, a, rest, congrArg _ hrows, hrest⟩
    | some a =>
      cases n with
      | zero => exact ⟨[], key, a, rows, rfl, rfl, rfl, rfl⟩
      | succ n =>
        obtain ⟨before, found, b, rest, hrows, hrest⟩ := ih (n := n) (by simpa using h) 0
        exact ⟨(key, some a) :: before, found, b, rest, congrArg _ hrows, hrest⟩

section Page

variable {limit : Nat}

/-- The rows a page returns, and the key to follow it from when there are more. -/
def page (limit : Nat) (kept : List (κ × α)) : List α × Option κ :=
  if limit < kept.length then
    (kept.dropLast.map (·.2), kept.dropLast.getLast?.map (·.1))
  else (kept.map (·.2), none)

theorem key_of_page {kept : List (κ × α)} {items : List α} {key : κ}
    (h : page limit kept = (items, some key)) : ∃ a, (key, a) ∈ kept := by
  unfold page at h
  split at h
  · simp only [Prod.mk.injEq, Option.map_eq_some_iff] at h
    obtain ⟨-, row, hrow, rfl⟩ := h
    exact ⟨row.2, (List.dropLast_sublist _).subset (List.mem_of_getLast? hrow)⟩
  · cases h

theorem page_of_le {kept : List (κ × α)} (h : kept.length ≤ limit) :
    page limit kept = (kept.map (·.2), none) := if_neg (not_lt.mpr h)

theorem page_of_lt {rows : List (κ × α)} {key : κ} {a : α} (h : limit < rows.length)
    (hlimit : 0 < limit) (hlast : rows[limit - 1]? = some (key, a)) :
    page limit (rows.take (limit + 1)) = ((rows.take limit).map (·.2), some key) := by
  have hlength : (rows.take (limit + 1)).length = limit + 1 :=
    List.length_take_of_le (Nat.succ_le_of_lt h)
  have hkept : (rows.take (limit + 1)).dropLast = rows.take limit := by
    rw [List.dropLast_eq_take, hlength, List.take_take, Nat.add_sub_cancel,
      Nat.min_eq_left (Nat.le_succ limit)]
  have hkey : (rows.take limit).getLast? = some (key, a) := by
    rw [List.getLast?_eq_getElem?, List.length_take_of_le h.le,
      List.getElem?_take_of_lt (Nat.sub_lt hlimit Nat.one_pos), hlast]
  rw [page, if_pos (by omega), hkept, hkey, Option.map_some]

end Page

section Follow

variable [LinearOrder κ] {limit budget : Nat}

def behind (after : Option κ) (rows : List (κ × Option α)) : List (κ × Option α) :=
  match after with
  | none => rows
  | some key => rows.dropWhile fun row => decide (row.1 ≤ key)

/-- What the pages return together, `none` when there are more of them than asked for. -/
def follow (limit budget : Nat) (rows : List (κ × Option α)) : Nat → Option κ → Option (List α)
  | 0, _ => none
  | calls + 1, after =>
    let result := page limit (scan limit budget [] 0 (behind after rows))
    match result.2 with
    | none => some result.1
    | some key => (follow limit budget rows calls (some key)).map (result.1 ++ ·)

/-- Among the readable rows of each page and the one behind them, no more than the budget
cannot be read. -/
def Few (limit budget : Nat) (gaps : List Nat) : Prop :=
  ∀ k, ((gaps.drop (k * limit)).take (limit + 1)).sum ≤ budget

theorem behind_suffix (after : Option κ) (rows : List (κ × Option α)) :
    behind after rows <:+ rows := by
  cases after with
  | none => exact List.suffix_refl rows
  | some key => exact List.dropWhile_suffix _

theorem few_iff {gaps : List Nat} :
    Few limit budget gaps ↔
      (gaps.take (limit + 1)).sum ≤ budget ∧ Few limit budget (gaps.drop limit) := by
  constructor
  · intro h
    refine ⟨by simpa using h 0, fun k => ?_⟩
    have hk := h (k + 1)
    rwa [Nat.succ_mul, Nat.add_comm (k * limit), ← List.drop_drop] at hk
  · rintro ⟨hfirst, hrest⟩ k
    cases k with
    | zero => simpa using hfirst
    | succ k =>
      rw [Nat.succ_mul, Nat.add_comm (k * limit), ← List.drop_drop]
      exact hrest k

section

variable {rows : List (κ × Option α)} {after : Option κ} {items rest : List α} {calls : Nat}

theorem follow_last (h : page limit (scan limit budget [] 0 (behind after rows)) = (items, none)) :
    follow limit budget rows (calls + 1) after = some items := by
  rw [follow, h]

theorem follow_next {key : κ}
    (h : page limit (scan limit budget [] 0 (behind after rows)) = (items, some key))
    (hrest : follow limit budget rows calls (some key) = some rest) :
    follow limit budget rows (calls + 1) after = some (items ++ rest) := by
  rw [follow, h]
  simp only [hrest, Option.map_some]

end

theorem follow_succ {rows : List (κ × Option α)} {calls : Nat} {after : Option κ} {items : List α}
    (h : follow limit budget rows calls after = some items) :
    follow limit budget rows (calls + 1) after = some items := by
  induction calls generalizing after items with
  | zero => cases h
  | succ calls ih =>
    rw [follow] at h ⊢
    cases hnext : (page limit (scan limit budget [] 0 (behind after rows))).2 with
    | none => simpa only [hnext] using h
    | some key =>
      simp only [hnext] at h ⊢
      obtain ⟨rest, hrest, hitems⟩ := Option.map_eq_some_iff.mp h
      rw [ih hrest]
      exact congrArg some hitems

theorem follow_unique {rows : List (κ × Option α)} {m n : Nat} {after : Option κ}
    {items items' : List α} (h : follow limit budget rows m after = some items)
    (h' : follow limit budget rows n after = some items') : items = items' := by
  have hgrow {m : Nat} {items : List α} (h : follow limit budget rows m after = some items)
      (k : Nat) : follow limit budget rows (m + k) after = some items := by
    induction k with
    | zero => exact h
    | succ k ih => exact follow_succ ih
  have hm := hgrow h n
  have hn := hgrow h' m
  rw [Nat.add_comm, hn] at hm
  exact (Option.some.inj hm).symm

theorem behind_of_sorted {before rest : List (κ × Option α)} {row : κ × Option α}
    (hsorted : ((before ++ row :: rest).map (·.1)).Pairwise (· < ·)) :
    behind (some row.1) (before ++ row :: rest) = rest := by
  simp only [List.map_append, List.map_cons, List.pairwise_append, List.pairwise_cons] at hsorted
  obtain ⟨-, ⟨hrest, -⟩, hbefore⟩ := hsorted
  have hdropped : ∀ r ∈ before ++ [row], decide (r.1 ≤ row.1) = true := by
    intro r hr
    rcases List.mem_append.mp hr with hr | hr
    · exact decide_eq_true (hbefore r.1 (List.mem_map_of_mem hr) row.1 (by simp)).le
    · rw [List.mem_singleton.mp hr]
      exact decide_eq_true le_rfl
  have hkept : rest.dropWhile (fun r => decide (r.1 ≤ row.1)) = rest := by
    cases rest with
    | nil => rfl
    | cons r rest =>
      have hr : ¬ r.1 ≤ row.1 := not_le.mpr (hrest r.1 (by simp))
      simp [List.dropWhile, hr]
  have hsplit : before ++ row :: rest = (before ++ [row]) ++ rest := by simp
  rw [behind, hsplit, List.dropWhile_append_of_pos hdropped, hkept]

/-- Following the pages from a place ends, with a beginning of what can be read behind it,
and with all of it exactly when no page meets too many unreadable rows. -/
theorem follow_behind (hlimit : 0 < limit) {rows : List (κ × Option α)}
    (hsorted : (rows.map (·.1)).Pairwise (· < ·)) {after : Option κ} {before : List (κ × Option α)}
    (hbefore : rows = before ++ behind after rows) :
    ∃ calls items, follow limit budget rows calls after = some items ∧
      items <+: (readable (behind after rows)).map (·.2) ∧
      (items = (readable (behind after rows)).map (·.2) ↔
        Few limit budget (gaps 0 (behind after rows))) := by
  induction hn : (behind after rows).length using Nat.strong_induction_on generalizing after before with
  | _ n ih =>
    generalize hsuffix : behind after rows = suffix at hbefore hn ⊢
    rcases Nat.lt_or_ge budget (((gaps 0 suffix).take (limit + 1)).sum) with hmany | hfew
    · -- the page is given up before a readable row and nothing leads behind it
      obtain ⟨m, hm, hlength, hscan⟩ : ∃ m, m < limit + 1 ∧ m < (readable suffix).length ∧
          scan limit budget [] 0 suffix = (readable suffix).take m :=
        scan_of_gt (Nat.zero_add (limit + 1)) (Nat.zero_le budget) (by rwa [Nat.zero_add])
      have htaken : ((readable suffix).take m).length = m := List.length_take_of_le hlength.le
      refine ⟨1, ((readable suffix).take m).map (·.2), follow_last ?_, ?_, iff_of_false ?_ ?_⟩
      · rw [hsuffix, hscan, page_of_le (by omega)]
      · rw [List.map_take]
        exact List.take_prefix _ _
      · intro heq
        have hlengths := congrArg List.length heq
        rw [List.length_map, List.length_map, htaken] at hlengths
        omega
      · intro hfew
        exact absurd (few_iff.mp hfew).1 (not_le.mpr hmany)
    · have hscan : scan limit budget [] 0 suffix = (readable suffix).take (limit + 1) :=
        scan_of_le (Nat.zero_add (limit + 1)) (by rwa [Nat.zero_add])
      by_cases hmore : limit < (readable suffix).length
      · -- the page is full: the rest starts behind its last row
        obtain ⟨skipped, key, a, rest, hsplit, hlast, hreadable, hgaps⟩ :=
          exists_behind (show limit - 1 < (readable suffix).length by omega) 0
        rw [Nat.sub_add_cancel hlimit] at hreadable hgaps
        have hwhole : rows = (before ++ skipped) ++ (key, some a) :: rest := by
          rw [hbefore, hsplit, List.append_assoc]
        have hrest : behind (some key) rows = rest := by
          rw [hwhole] at hsorted ⊢
          exact behind_of_sorted hsorted
        have hlonger : (behind (some key) rows).length < n := by
          rw [hrest, ← hn, hsplit]
          simp
          omega
        have hbefore' : rows = (before ++ skipped ++ [(key, some a)]) ++ behind (some key) rows := by
          rw [hrest, List.append_assoc _ [_] rest]
          exact hwhole
        obtain ⟨calls, items, hfollow, hprefix, hall⟩ := ih _ hlonger hbefore' rfl
        rw [hrest, hreadable] at hprefix hall
        rw [hgaps] at hall
        have hparts : (readable suffix).map (·.2) =
            ((readable suffix).take limit).map (·.2) ++ ((readable suffix).drop limit).map (·.2) := by
          rw [← List.map_append, List.take_append_drop]
        refine ⟨calls + 1, ((readable suffix).take limit).map (·.2) ++ items,
          follow_next ?_ hfollow, ?_, ?_⟩
        · rw [hsuffix, hscan, page_of_lt hmore hlimit hlast]
        · rw [hparts]
          exact (List.prefix_append_right_inj _).mpr hprefix
        · rw [hparts, List.append_cancel_left_eq, few_iff]
          exact hall.trans (iff_and_self.mpr fun _ => hfew)
      · have htake : (readable suffix).take (limit + 1) = readable suffix :=
          List.take_of_length_le (by omega)
        refine ⟨1, (readable suffix).map (·.2), follow_last ?_, List.prefix_refl _, iff_of_true rfl ?_⟩
        · rw [hsuffix, hscan, htake, page_of_le (not_lt.mp hmore)]
        · have hlength : (gaps 0 suffix).length ≤ limit := by
            rw [length_gaps]
            exact not_lt.mp hmore
          rw [few_iff, List.drop_eq_nil_of_le hlength]
          exact ⟨hfew, fun k => by simp⟩

/-- The pages from the start return every readable row once, in order, exactly when no
page meets too many unreadable ones. -/
theorem follow_all_iff (hlimit : 0 < limit) {rows : List (κ × Option α)}
    (hsorted : (rows.map (·.1)).Pairwise (· < ·)) :
    (∃ calls, follow limit budget rows calls none = some ((readable rows).map (·.2))) ↔
      Few limit budget (gaps 0 rows) := by
  have hbefore : rows = [] ++ behind none rows := rfl
  obtain ⟨calls, items, hfollow, -, hall⟩ := follow_behind hlimit hsorted hbefore
  constructor
  · rintro ⟨n, hn⟩
    exact hall.mp (follow_unique hfollow hn)
  · intro hfew
    exact ⟨calls, by rw [hfollow, hall.mpr hfew]; rfl⟩

end Follow

end AioLM.Paging
