import Mathlib.Algebra.Order.Ring.Int
import Mathlib.Data.List.Induction
import Mathlib.Data.List.Nodup
import Mathlib.Data.List.Pairwise

/-!
Maps with ordered keys, held as their entries in strictly ascending key order,
so that two maps with the same lookups are the same map.
-/

set_option autoImplicit false

namespace AioLM

structure KeyMap (κ α : Type) [LinearOrder κ] where
  entries : List (κ × α)
  sorted : entries.Pairwise (fun a b => a.1 < b.1)

namespace KeyMap

variable {κ α β : Type} [LinearOrder κ]

def find (key : κ) : List (κ × α) → Option α
  | [] => none
  | (k, v) :: rest => if k = key then some v else find key rest

def alterEntries (key : κ) (f : Option α → α) : List (κ × α) → List (κ × α)
  | [] => [(key, f none)]
  | (k, v) :: rest =>
    if key < k then (key, f none) :: (k, v) :: rest
    else if k < key then (k, v) :: alterEntries key f rest
    else (k, f (some v)) :: rest

theorem find_eq_none {key : κ} {xs : List (κ × α)} (h : ∀ e ∈ xs, e.1 ≠ key) :
    find key xs = none := by
  induction xs with
  | nil => rfl
  | cons e xs ih =>
    obtain ⟨hk, hxs⟩ := List.forall_mem_cons.mp h
    simp only [find, if_neg hk, ih hxs]

theorem mem_of_find {key : κ} {v : α} {xs : List (κ × α)} (h : find key xs = some v) :
    (key, v) ∈ xs := by
  induction xs with
  | nil => simp [find] at h
  | cons e xs ih =>
    obtain ⟨k, w⟩ := e
    by_cases hk : k = key
    · simp only [find, if_pos hk, Option.some.injEq] at h
      simp [hk, h]
    · simp only [find, if_neg hk] at h
      exact List.mem_cons_of_mem _ (ih h)

theorem find_of_mem_nodup {key : κ} {v : α} {xs : List (κ × α)} (hkeys : (xs.map (·.1)).Nodup)
    (h : (key, v) ∈ xs) : find key xs = some v := by
  induction xs with
  | nil => cases h
  | cons e xs ih =>
    rw [List.map_cons, List.nodup_cons] at hkeys
    rcases List.mem_cons.mp h with rfl | hmem
    · simp [find]
    · have hk : e.1 ≠ key := fun hk => hkeys.1 (List.mem_map.mpr ⟨_, hmem, hk.symm⟩)
      rw [find, if_neg hk]
      exact ih hkeys.2 hmem

theorem exists_find_of_mem {key : κ} {xs : List (κ × α)} (h : key ∈ xs.map (·.1)) :
    ∃ v, find key xs = some v := by
  induction xs with
  | nil => cases h
  | cons x xs ih =>
    obtain ⟨k, v⟩ := x
    rw [find]
    split
    · exact ⟨v, rfl⟩
    · rename_i hk
      exact ih ((List.mem_cons.mp h).resolve_left (Ne.symm hk))

theorem find_of_mem {key : κ} {v : α} {xs : List (κ × α)}
    (hsorted : xs.Pairwise (fun a b => a.1 < b.1)) (h : (key, v) ∈ xs) :
    find key xs = some v :=
  find_of_mem_nodup (List.pairwise_map.mpr (hsorted.imp fun hlt => hlt.ne)) h

theorem fst_mem_alterEntries {key : κ} {f : Option α → α} {e : κ × α} {xs : List (κ × α)}
    (h : e ∈ alterEntries key f xs) : e.1 = key ∨ ∃ e' ∈ xs, e'.1 = e.1 := by
  induction xs with
  | nil => simp_all [alterEntries]
  | cons x xs ih =>
    obtain ⟨k, v⟩ := x
    simp only [alterEntries] at h
    split at h
    · rcases List.mem_cons.mp h with rfl | h
      · exact .inl rfl
      · exact .inr ⟨e, h, rfl⟩
    · split at h
      · rcases List.mem_cons.mp h with rfl | h
        · exact .inr ⟨_, List.mem_cons_self, rfl⟩
        · obtain hkey | ⟨e', he', heq⟩ := ih h
          · exact .inl hkey
          · exact .inr ⟨e', List.mem_cons_of_mem _ he', heq⟩
      · rcases List.mem_cons.mp h with rfl | h
        · exact .inr ⟨_, List.mem_cons_self, rfl⟩
        · exact .inr ⟨e, List.mem_cons_of_mem _ h, rfl⟩

theorem sorted_alterEntries {key : κ} {f : Option α → α} {xs : List (κ × α)}
    (h : xs.Pairwise (fun a b => a.1 < b.1)) :
    (alterEntries key f xs).Pairwise (fun a b => a.1 < b.1) := by
  induction h with
  | nil => simp [alterEntries]
  | @cons x xs hlt hxs ih =>
    obtain ⟨k, v⟩ := x
    simp only [alterEntries]
    split
    · rename_i hkey
      refine List.Pairwise.cons ?_ (List.Pairwise.cons hlt hxs)
      intro e he
      rcases List.mem_cons.mp he with rfl | he
      · exact hkey
      · exact hkey.trans (hlt e he)
    · split
      · rename_i hkey
        refine List.Pairwise.cons ?_ ih
        intro e he
        obtain heq | ⟨e', he', heq⟩ := fst_mem_alterEntries he
        · exact heq ▸ hkey
        · exact heq ▸ hlt e' he'
      · exact List.Pairwise.cons hlt hxs

theorem find_alterEntries {f : Option α → α} {xs : List (κ × α)}
    (h : xs.Pairwise (fun a b => a.1 < b.1)) (key k : κ) :
    find k (alterEntries key f xs) = if k = key then some (f (find key xs)) else find k xs := by
  induction h with
  | nil =>
    by_cases hk : k = key
    · simp [alterEntries, find, hk]
    · simp [alterEntries, find, hk, Ne.symm hk]
  | @cons x xs hlt hxs ih =>
    obtain ⟨l, v⟩ := x
    rcases lt_trichotomy key l with hkey | rfl | hkey
    · have hnone : find key xs = none :=
        find_eq_none fun e he => (hkey.trans (hlt e he)).ne'
      by_cases hk : k = key
      · simp [alterEntries, find, hkey, hkey.ne', hk, hnone]
      · simp [alterEntries, find, hkey, hk, Ne.symm hk]
    · by_cases hk : k = key
      · simp [alterEntries, find, hk]
      · simp [alterEntries, find, hk, Ne.symm hk]
    · by_cases hk : k = key
      · subst hk
        simp [alterEntries, find, hkey, hkey.ne, not_lt_of_gt hkey, ih]
      · simp [alterEntries, find, hkey, not_lt_of_gt hkey, ih, hk]

def empty : KeyMap κ α := ⟨[], .nil⟩

def get (m : KeyMap κ α) (key : κ) : Option α := find key m.entries

/-- The entry at a key becomes what `f` makes of it. -/
def alter (m : KeyMap κ α) (key : κ) (f : Option α → α) : KeyMap κ α :=
  ⟨alterEntries key f m.entries, sorted_alterEntries m.sorted⟩

def insert (m : KeyMap κ α) (key : κ) (value : α) : KeyMap κ α := m.alter key fun _ => value

def filterMap (m : KeyMap κ α) (f : κ → α → Option β) : KeyMap κ β where
  entries := m.entries.filterMap fun e => (f e.1 e.2).map (e.1, ·)
  sorted := by
    refine List.Pairwise.filterMap _ ?_ m.sorted
    intro e e' hlt b hb b' hb'
    obtain ⟨v, -, rfl⟩ := Option.map_eq_some_iff.mp hb
    obtain ⟨v', -, rfl⟩ := Option.map_eq_some_iff.mp hb'
    exact hlt

def erase (m : KeyMap κ α) (key : κ) : KeyMap κ α :=
  m.filterMap fun k v => if k = key then none else some v

def map (m : KeyMap κ α) (f : α → β) : KeyMap κ β := m.filterMap fun _ v => some (f v)

@[simp] theorem get_empty (key : κ) : (empty : KeyMap κ α).get key = none := rfl

theorem get_eq_some {m : KeyMap κ α} {key : κ} {v : α} :
    m.get key = some v ↔ (key, v) ∈ m.entries :=
  ⟨mem_of_find, find_of_mem m.sorted⟩

theorem get_alter (m : KeyMap κ α) (key k : κ) (f : Option α → α) :
    (m.alter key f).get k = if k = key then some (f (m.get key)) else m.get k :=
  find_alterEntries m.sorted key k

theorem get_insert (m : KeyMap κ α) (key k : κ) (value : α) :
    (m.insert key value).get k = if k = key then some value else m.get k :=
  get_alter m key k _

theorem get_filterMap (m : KeyMap κ α) (f : κ → α → Option β) (key : κ) :
    (m.filterMap f).get key = (m.get key).bind (f key) := by
  apply Option.ext
  intro v
  rw [get_eq_some, Option.bind_eq_some_iff]
  constructor
  · intro h
    obtain ⟨e, he, hv⟩ := List.mem_filterMap.mp h
    obtain ⟨w, hw, heq⟩ := Option.map_eq_some_iff.mp hv
    cases heq
    exact ⟨e.2, get_eq_some.mpr he, hw⟩
  · intro h
    obtain ⟨w, hw, hv⟩ := h
    exact List.mem_filterMap.mpr ⟨(key, w), get_eq_some.mp hw, by simp [hv]⟩

theorem get_erase (m : KeyMap κ α) (key k : κ) :
    (m.erase key).get k = if k = key then none else m.get k := by
  rw [erase, get_filterMap]
  by_cases hk : k = key <;> cases m.get k <;> simp [hk]

theorem get_map (m : KeyMap κ α) (f : α → β) (key : κ) :
    (m.map f).get key = (m.get key).map f := by
  rw [map, get_filterMap]
  cases m.get key <;> rfl

theorem get_foldl_insert {xs : List (κ × α)} (h : (xs.map (·.1)).Nodup) (m : KeyMap κ α)
    (k : κ) :
    (xs.foldl (fun m e => m.insert e.1 e.2) m).get k = (find k xs).or (m.get k) := by
  induction xs generalizing m with
  | nil => rfl
  | cons e xs ih =>
    rw [List.map_cons, List.nodup_cons] at h
    rw [List.foldl_cons, ih h.2, get_insert, find]
    by_cases hk : k = e.1
    · subst hk
      have hnone : find e.1 xs = none :=
        find_eq_none fun e' he' heq => h.1 (List.mem_map.mpr ⟨e', he', heq⟩)
      simp [hnone]
    · rw [if_neg hk, if_neg (Ne.symm hk)]

theorem keys_nodup (m : KeyMap κ α) : (m.entries.map (·.1)).Nodup :=
  List.pairwise_map.mpr (m.sorted.imp fun hlt => hlt.ne)

theorem entries_nodup (m : KeyMap κ α) : m.entries.Nodup := m.keys_nodup.of_map _

theorem ext_get {m n : KeyMap κ α} (h : ∀ key, m.get key = n.get key) : m = n := by
  have hmem : ∀ e : κ × α, e ∈ m.entries ↔ e ∈ n.entries := by
    intro e
    rw [← get_eq_some, ← get_eq_some, h]
  have hentries : m.entries = n.entries := by
    refine List.Perm.eq_of_pairwise ?_ m.sorted n.sorted ?_
    · intro a b _ _ hab hba
      exact absurd hab (not_lt_of_gt hba)
    · exact (List.perm_ext_iff_of_nodup m.entries_nodup n.entries_nodup).mpr hmem
  cases m
  cases n
  simp_all

theorem length_erase {m : KeyMap κ α} {key : κ} (h : (m.get key).isSome) :
    (m.erase key).entries.length + 1 = m.entries.length := by
  obtain ⟨entries, hsorted⟩ := m
  simp only [get, erase, filterMap] at h ⊢
  induction hsorted with
  | nil => cases h
  | @cons e xs hlt hxs ih =>
    obtain ⟨k, v⟩ := e
    by_cases hk : k = key
    · subst hk
      have hkeep : xs.filterMap (fun e => (if e.1 = k then none else some e.2).map (e.1, ·)) =
          xs := by
        refine (List.filterMap_congr fun e he => ?_).trans List.filterMap_some
        simp [(hlt e he).ne']
      simp [hkeep]
    · simp only [find, if_neg hk] at h
      simp [hk, ih h]

theorem erase_of_none {m : KeyMap κ α} {key : κ} (h : m.get key = none) : m.erase key = m := by
  refine ext_get fun k => ?_
  rw [get_erase]
  split
  · rename_i hk
    rw [hk, h]
  · rfl

theorem length_insert (m : KeyMap κ α) (key : κ) (value : α) :
    (m.insert key value).entries.length =
      if (m.get key).isSome then m.entries.length else m.entries.length + 1 := by
  have hinside : ((m.insert key value).get key).isSome := by simp [get_insert]
  have herase := length_erase hinside
  have hback : (m.insert key value).erase key = m.erase key := by
    refine ext_get fun k => ?_
    rw [get_erase, get_erase, get_insert]
    split <;> rfl
  rw [hback] at herase
  by_cases h : (m.get key).isSome
  · rw [if_pos h, ← herase, length_erase h]
  · rw [if_neg h, ← herase, erase_of_none (Option.not_isSome_iff_eq_none.mp h)]

theorem get_foldl_erase {keys : List κ} (m : KeyMap κ α) {k : κ} :
    (k ∈ keys → (keys.foldl (fun m key => m.erase key) m).get k = none) ∧
      (k ∉ keys → (keys.foldl (fun m key => m.erase key) m).get k = m.get k) := by
  induction keys generalizing m with
  | nil => exact ⟨fun h => by simp at h, fun _ => rfl⟩
  | cons key keys ih =>
    obtain ⟨herased, hkept⟩ := ih (m.erase key)
    rw [get_erase] at hkept
    rw [List.foldl_cons]
    by_cases hmem : k ∈ keys
    · exact ⟨fun _ => herased hmem, fun h => absurd (List.mem_cons_of_mem _ hmem) h⟩
    · rw [hkept hmem]
      by_cases hk : k = key
      · exact ⟨fun _ => if_pos hk, fun h => absurd (hk ▸ List.mem_cons_self) h⟩
      · refine ⟨fun h => ?_, fun _ => if_neg hk⟩
        rcases List.mem_cons.mp h with h | h
        · exact absurd h hk
        · exact absurd h hmem

theorem filterMap_insert (m : KeyMap κ α) (f : κ → α → Option β) (key : κ) (value : α) :
    (m.insert key value).filterMap f =
      match f key value with
      | some v => (m.filterMap f).insert key v
      | none => (m.filterMap f).erase key := by
  refine ext_get fun k => ?_
  rw [get_filterMap, get_insert]
  cases hv : f key value with
  | none =>
    simp only [get_erase, get_filterMap]
    split
    · rename_i hk
      rw [hk, Option.bind_some, hv]
    · rfl
  | some v =>
    simp only [get_insert, get_filterMap]
    split
    · rename_i hk
      rw [hk, Option.bind_some, hv]
    · rfl

theorem filterMap_erase (m : KeyMap κ α) (f : κ → α → Option β) (key : κ) :
    (m.erase key).filterMap f = (m.filterMap f).erase key := by
  refine ext_get fun k => ?_
  rw [get_filterMap, get_erase, get_erase, get_filterMap]
  split <;> rfl

theorem length_erase_le (m : KeyMap κ α) (key : κ) :
    (m.erase key).entries.length ≤ m.entries.length := by
  cases h : m.get key with
  | none => rw [erase_of_none h]
  | some v =>
    have hinside : (m.get key).isSome := Option.isSome_of_eq_some h
    have hlength := length_erase hinside
    omega

theorem flatMap_key [DecidableEq κ] {β : Type} (m : KeyMap κ α) (key : κ) (f : α → List β) :
    m.entries.flatMap (fun e => if e.1 = key then f e.2 else []) = ((m.get key).map f).getD [] := by
  obtain ⟨entries, hsorted⟩ := m
  simp only [get]
  induction hsorted with
  | nil => rfl
  | @cons e xs hlt hxs ih =>
    obtain ⟨k, v⟩ := e
    rw [List.flatMap_cons, find]
    by_cases hk : k = key
    · subst hk
      have hnone : find k xs = none := find_eq_none fun e he => (hlt e he).ne'
      rw [hnone] at ih
      simp [ih]
    · simp [hk, ih]

theorem flatMap_keys [DecidableEq κ] {β : Type} (m : KeyMap κ α) {a b : κ} (hab : a < b)
    (f : α → List β) :
    m.entries.flatMap (fun e => if e.1 = a ∨ e.1 = b then f e.2 else []) =
      ((m.get a).map f).getD [] ++ ((m.get b).map f).getD [] := by
  obtain ⟨entries, hsorted⟩ := m
  simp only [get]
  induction hsorted with
  | nil => rfl
  | @cons e xs hlt hxs ih =>
    obtain ⟨k, v⟩ := e
    rw [List.flatMap_cons, find, find]
    by_cases ha : k = a
    · subst ha
      have hnone : find k xs = none := find_eq_none fun e he => (hlt e he).ne'
      rw [hnone] at ih
      simp [ih, hab.ne]
    · by_cases hb : k = b
      · subst hb
        have hnone : find k xs = none := find_eq_none fun e he => (hlt e he).ne'
        have hnone' : find a xs = none := find_eq_none fun e he => (hab.trans (hlt e he)).ne'
        rw [hnone, hnone'] at ih
        simp [ih, ha, hnone']
      · simp [ha, hb, ih]

def group (xs : List (κ × α)) : KeyMap κ (List α) :=
  xs.foldl (fun m x => m.alter x.1 fun vs => vs.getD [] ++ [x.2]) empty

def valuesAt (key : κ) (xs : List (κ × α)) : List α :=
  xs.filterMap fun x => if x.1 = key then some x.2 else none

@[simp] theorem valuesAt_nil (key : κ) : valuesAt key ([] : List (κ × α)) = [] := rfl

theorem valuesAt_append (key : κ) (xs ys : List (κ × α)) :
    valuesAt key (xs ++ ys) = valuesAt key xs ++ valuesAt key ys := List.filterMap_append

theorem valuesAt_cons (key : κ) (x : κ × α) (xs : List (κ × α)) :
    valuesAt key (x :: xs) = (if x.1 = key then [x.2] else []) ++ valuesAt key xs := by
  rw [valuesAt, List.filterMap_cons]
  split <;> simp_all [valuesAt]

theorem valuesAt_flatMap {γ : Type} (key : κ) (f : γ → List (κ × α)) (xs : List γ) :
    valuesAt key (xs.flatMap f) = xs.flatMap fun x => valuesAt key (f x) := by
  rw [valuesAt, List.filterMap_flatMap]
  rfl

theorem valuesAt_map [DecidableEq κ] {γ : Type} (key k : κ) (f : γ → α) (xs : List γ) :
    valuesAt key (xs.map fun x => (k, f x)) = if k = key then xs.map f else [] := by
  induction xs with
  | nil => simp
  | cons x xs ih =>
    rw [List.map_cons, valuesAt_cons, ih]
    by_cases hk : k = key <;> simp [hk]

theorem get_group (xs : List (κ × α)) (key : κ) :
    (group xs).get key = if valuesAt key xs = [] then none else some (valuesAt key xs) := by
  induction xs using List.reverseRecOn with
  | nil => rfl
  | append_singleton xs x ih =>
    have hgroup : group (xs ++ [x]) = (group xs).alter x.1 fun vs => vs.getD [] ++ [x.2] := by
      simp [group, List.foldl_append]
    rw [hgroup, get_alter, valuesAt_append]
    by_cases hkey : key = x.1
    · subst hkey
      have hlast : valuesAt x.1 [x] = [x.2] := by simp [valuesAt]
      rw [if_pos rfl, ih, hlast]
      by_cases hnone : valuesAt x.1 xs = [] <;> simp [hnone]
    · have hlast : valuesAt key [x] = [] := by simp [valuesAt, Ne.symm hkey]
      rw [if_neg hkey, hlast, List.append_nil, ih]

end KeyMap

end AioLM
