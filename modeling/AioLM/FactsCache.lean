import AioLM.KeyMap

/-!
The cache of header facts: a map by path and a queue of its paths, least recently
used first.
-/

set_option autoImplicit false

namespace AioLM.Estimate

def MAX_CACHED_FACTS : Nat := 64

structure CachedFacts (Time Facts : Type) where
  len : Nat
  modified : Option Time
  facts : Facts

structure FactsCache (Path Time Facts : Type) [LinearOrder Path] where
  entries : KeyMap Path (CachedFacts Time Facts) := .empty
  order : List Path := []

namespace FactsCache

variable {Path Time Facts : Type} [LinearOrder Path]

def touchFacts (cache : FactsCache Path Time Facts) (canonical : Path) :
    FactsCache Path Time Facts :=
  if cache.order.getLast? = some canonical then cache
  else
    match cache.order.idxOf? canonical with
    | some position => { cache with order := cache.order.eraseIdx position ++ [canonical] }
    | none => { cache with order := cache.order ++ [canonical] }

/-- The entry to be replaced makes room before the map could grow past its bound. -/
def makeRoom (cache : FactsCache Path Time Facts) (canonical : Path) :
    FactsCache Path Time Facts :=
  if MAX_CACHED_FACTS ≤ cache.entries.entries.length ∧ (cache.entries.get canonical).isNone then
    match cache.order with
    | [] => cache
    | oldest :: order => ⟨cache.entries.erase oldest, order⟩
  else cache

def insert (cache : FactsCache Path Time Facts) (canonical : Path) (len : Nat)
    (modified : Option Time) (facts : Facts) : FactsCache Path Time Facts :=
  let cache := cache.makeRoom canonical
  { cache with entries := cache.entries.insert canonical ⟨len, modified, facts⟩ }.touchFacts canonical

variable [DecidableEq Time]

def found (cache : FactsCache Path Time Facts) (canonical : Path) (len : Nat)
    (modified : Option Time) : Option Facts :=
  (cache.entries.get canonical).bind fun entry =>
    if entry.len = len ∧ entry.modified = modified then some entry.facts else none

def hit (cache : FactsCache Path Time Facts) (canonical : Path) (len : Nat)
    (modified : Option Time) : Option Facts × FactsCache Path Time Facts :=
  let hit := cache.found canonical len modified
  (hit, if hit.isSome then cache.touchFacts canonical else cache)

end FactsCache

inductive CacheCall (Path Time Facts : Type) where
  | hit (canonical : Path) (len : Nat) (modified : Option Time)
  | insert (canonical : Path) (len : Nat) (modified : Option Time) (facts : Facts)

section

variable {Path Time Facts : Type} [LinearOrder Path] [DecidableEq Time]

namespace FactsCache

def call (cache : FactsCache Path Time Facts) :
    CacheCall Path Time Facts → FactsCache Path Time Facts
  | .hit canonical len modified => (cache.hit canonical len modified).2
  | .insert canonical len modified facts => cache.insert canonical len modified facts

def run (cache : FactsCache Path Time Facts) (calls : List (CacheCall Path Time Facts)) :
    FactsCache Path Time Facts := calls.foldl call cache

def used (cache : FactsCache Path Time Facts) : CacheCall Path Time Facts → List Path
  | .hit canonical len modified =>
    if (cache.found canonical len modified).isSome then [canonical] else []
  | .insert canonical _ _ _ => [canonical]

def uses (cache : FactsCache Path Time Facts) : List (CacheCall Path Time Facts) → List Path
  | [] => []
  | call :: calls => cache.used call ++ uses (cache.call call) calls

def Evicts (cache : FactsCache Path Time Facts) (call : CacheCall Path Time Facts)
    (path : Path) : Prop :=
  (cache.entries.get path).isSome ∧ (cache.call call).entries.get path = none

end FactsCache

def CacheCall.inserts (path : Path) : CacheCall Path Time Facts → Prop
  | .hit _ _ _ => False
  | .insert canonical _ _ _ => canonical = path

def Held (calls : List (CacheCall Path Time Facts)) (path : Path)
    (entry : CachedFacts Time Facts) : Prop :=
  ∃ before after, calls = before ++ .insert path entry.len entry.modified entry.facts :: after ∧
    (∀ call ∈ after, ¬ call.inserts path) ∧
    ∀ kept call rest, after = kept ++ call :: rest →
      ¬ (FactsCache.run {} (before ++ .insert path entry.len entry.modified entry.facts ::
        kept)).Evicts call path

end

/-- A list with a last element, taken apart at one of its elements. -/
theorem concat_eq_append_cons {α : Type} {xs before after : List α} {x y : α}
    (h : xs ++ [y] = before ++ x :: after) :
    (after = [] ∧ before = xs ∧ x = y) ∨
      ∃ init, after = init ++ [y] ∧ xs = before ++ x :: init := by
  rcases List.eq_nil_or_concat after with rfl | ⟨init, last, rfl⟩
  · obtain ⟨rfl, hlast⟩ := List.append_inj' h rfl
    exact .inl ⟨rfl, rfl, (List.cons.inj hlast).1.symm⟩
  · have hsplit : xs ++ [y] = (before ++ x :: init) ++ [last] := by simpa using h
    obtain ⟨rfl, hlast⟩ := List.append_inj' hsplit rfl
    obtain rfl := (List.cons.inj hlast).1
    exact .inr ⟨init, by simp, rfl⟩

section

variable {Path : Type} {uses : List Path} {first second path : Path}

def UsedAfter (uses : List Path) (first second : Path) : Prop :=
  ∃ before after, uses = before ++ first :: after ∧ first ∉ after ∧ second ∈ after

theorem UsedAfter.append (h : UsedAfter uses first second) (hne : first ≠ path) :
    UsedAfter (uses ++ [path]) first second := by
  obtain ⟨before, after, rfl, hlast, hmem⟩ := h
  refine ⟨before, after ++ [path], by simp, ?_, List.mem_append_left _ hmem⟩
  simp [hlast, hne]

theorem usedAfter_last (h : first ∈ uses) (hne : first ≠ path) :
    UsedAfter (uses ++ [path]) first path := by
  obtain ⟨rest, before, hsplit, hlast⟩ := List.eq_append_cons_of_mem (List.mem_reverse.mpr h)
  have huses : uses = before.reverse ++ first :: rest.reverse := by
    rw [← List.reverse_reverse uses, hsplit]
    simp
  refine ⟨before.reverse, rest.reverse ++ [path], by simp [huses], ?_, by simp⟩
  simp [hlast, hne]

end

namespace FactsCache

variable {Path Time Facts : Type} [LinearOrder Path]
  {cache : FactsCache Path Time Facts} {path : Path} {past : List Path}

@[simp] theorem entries_touchFacts : (cache.touchFacts path).entries = cache.entries := by
  unfold touchFacts
  split
  · rfl
  · split <;> rfl

theorem order_touchFacts (h : cache.order.Nodup) :
    (cache.touchFacts path).order = cache.order.erase path ++ [path] := by
  unfold touchFacts
  split
  · rename_i hlast
    obtain ⟨init, hinit⟩ := List.getLast?_eq_some_iff.mp hlast
    rw [hinit] at h ⊢
    have hnot : path ∉ init := by
      intro hmem
      exact (List.nodup_append.mp h).2.2 path hmem path (by simp) rfl
    rw [List.erase_append_right _ hnot, List.erase_cons_head, List.append_nil]
  · rw [List.erase_eq_eraseIdx]
    split <;> rename_i heq <;> rw [heq]

/-- The queue holds the paths of the map, each once, in the order of their last uses. -/
structure Faithful (cache : FactsCache Path Time Facts) (past : List Path) : Prop where
  nodup : cache.order.Nodup
  keys : ∀ path, path ∈ cache.order ↔ (cache.entries.get path).isSome
  bound : cache.entries.entries.length ≤ MAX_CACHED_FACTS
  used : ∀ path ∈ cache.order, path ∈ past
  recency : cache.order.Pairwise (UsedAfter past)

theorem Faithful.perm (h : Faithful cache past) :
    cache.order.Perm (cache.entries.entries.map (·.1)) := by
  refine (List.perm_ext_iff_of_nodup h.nodup cache.entries.keys_nodup).mpr fun path => ?_
  rw [h.keys, Option.isSome_iff_exists, List.mem_map]
  constructor
  · rintro ⟨entry, hentry⟩
    exact ⟨_, KeyMap.get_eq_some.mp hentry, rfl⟩
  · rintro ⟨⟨path, entry⟩, hmem, rfl⟩
    exact ⟨entry, KeyMap.get_eq_some.mpr hmem⟩

theorem Faithful.length (h : Faithful cache past) :
    cache.order.length = cache.entries.entries.length := by
  rw [h.perm.length_eq, List.length_map]

theorem faithful_touch (hnodup : cache.order.Nodup)
    (hkeys : ∀ other, other ≠ path → (other ∈ cache.order ↔ (cache.entries.get other).isSome))
    (hpath : (cache.entries.get path).isSome)
    (hbound : cache.entries.entries.length ≤ MAX_CACHED_FACTS)
    (hused : ∀ other ∈ cache.order, other ∈ past)
    (hrecency : cache.order.Pairwise (UsedAfter past)) :
    Faithful (cache.touchFacts path) (past ++ [path]) := by
  have horder : (cache.touchFacts path).order = cache.order.erase path ++ [path] :=
    order_touchFacts hnodup
  have hmem (other : Path) : other ∈ cache.order.erase path ↔ other ≠ path ∧ other ∈ cache.order :=
    hnodup.mem_erase_iff
  constructor
  · rw [horder, List.nodup_append]
    refine ⟨hnodup.erase path, List.nodup_singleton path, fun other hother last hlast => ?_⟩
    rw [List.mem_singleton.mp hlast]
    exact ((hmem other).mp hother).1
  · intro other
    rw [horder, entries_touchFacts, List.mem_append, List.mem_singleton, hmem]
    by_cases hother : other = path
    · simp [hother, hpath]
    · simp [hother, hkeys other hother]
  · rw [entries_touchFacts]
    exact hbound
  · intro other hother
    rw [horder, List.mem_append, hmem] at hother
    rcases hother with ⟨-, hother⟩ | hother
    · exact List.mem_append_left _ (hused other hother)
    · exact List.mem_append_right _ hother
  · rw [horder, List.pairwise_append]
    refine ⟨(hrecency.sublist List.erase_sublist).imp_of_mem fun hfirst _ h => ?_,
      List.pairwise_singleton _ _, fun other hother last hlast => ?_⟩
    · exact h.append ((hmem _).mp hfirst).1
    · obtain ⟨hne, hin⟩ := (hmem other).mp hother
      rw [List.mem_singleton.mp hlast]
      exact usedAfter_last (hused other hin) hne

theorem Faithful.touch (h : Faithful cache past) (hpath : (cache.entries.get path).isSome) :
    Faithful (cache.touchFacts path) (past ++ [path]) :=
  faithful_touch h.nodup (fun other _ => h.keys other) hpath h.bound h.used h.recency

/-- The path in the map whose last use is the furthest back. -/
def LeastRecentlyUsed (cache : FactsCache Path Time Facts) (past : List Path) (oldest : Path) :
    Prop :=
  (cache.entries.get oldest).isSome ∧
    ∀ other, (cache.entries.get other).isSome → other ≠ oldest → UsedAfter past oldest other

theorem Faithful.makeRoom_full (h : Faithful cache past)
    (hfull : cache.entries.entries.length = MAX_CACHED_FACTS)
    (hnew : cache.entries.get path = none) :
    ∃ oldest, cache.LeastRecentlyUsed past oldest ∧
      (cache.makeRoom path).entries = cache.entries.erase oldest ∧
      Faithful (cache.makeRoom path) past ∧
      (cache.makeRoom path).entries.entries.length < MAX_CACHED_FACTS := by
  have hlength := h.length
  obtain ⟨oldest, order, horder⟩ := List.exists_cons_of_length_pos
    (show 0 < cache.order.length by rw [hlength, hfull]; decide)
  have hroom : cache.makeRoom path = ⟨cache.entries.erase oldest, order⟩ := by
    simp only [makeRoom, hfull, hnew, horder]
    rfl
  have holdest : (cache.entries.get oldest).isSome := (h.keys oldest).mp (by simp [horder])
  have hnodup := h.nodup
  have hrecency := h.recency
  rw [horder, List.nodup_cons] at hnodup
  rw [horder, List.pairwise_cons] at hrecency
  have herase := KeyMap.length_erase holdest
  rw [hroom]
  refine ⟨oldest, ⟨holdest, fun other hother hne => ?_⟩, rfl, ⟨hnodup.2, fun other => ?_, ?_,
    fun other hother => ?_, hrecency.2⟩, ?_⟩
  · have hin := (h.keys other).mpr hother
    rw [horder] at hin
    exact hrecency.1 other ((List.mem_cons.mp hin).resolve_left hne)
  · have hkeys := h.keys other
    rw [horder, List.mem_cons] at hkeys
    rw [KeyMap.get_erase]
    by_cases hother : other = oldest
    · simp [hother, hnodup.1]
    · simpa [hother] using hkeys
  · simp only
    omega
  · exact h.used other (by simp [horder, hother])
  · simp only
    omega

theorem makeRoom_of_room
    (hroom : cache.entries.entries.length < MAX_CACHED_FACTS ∨ (cache.entries.get path).isSome) :
    cache.makeRoom path = cache := by
  unfold makeRoom
  rw [if_neg]
  rintro ⟨hfull, hnone⟩
  rcases hroom with hroom | hroom
  · omega
  · rw [Option.isNone_iff_eq_none.mp hnone] at hroom
    cases hroom

theorem Faithful.insert_of_room {len : Nat} {modified : Option Time} {facts : Facts}
    (h : Faithful (cache.makeRoom path) past)
    (hroom : (cache.makeRoom path).entries.entries.length < MAX_CACHED_FACTS ∨
      ((cache.makeRoom path).entries.get path).isSome) :
    Faithful (cache.insert path len modified facts) (past ++ [path]) := by
  have hbound := h.bound
  refine faithful_touch h.nodup (fun other hother => ?_) ?_ ?_ h.used h.recency
  · rw [KeyMap.get_insert, if_neg hother]
    exact h.keys other
  · rw [KeyMap.get_insert, if_pos rfl]
    rfl
  · rw [KeyMap.length_insert]
    rcases hroom with hroom | hroom
    · split <;> omega
    · rw [if_pos hroom]
      exact hbound

theorem Faithful.insert (h : Faithful cache past) (path : Path) (len : Nat)
    (modified : Option Time) (facts : Facts) :
    Faithful (cache.insert path len modified facts) (past ++ [path]) := by
  by_cases hroom : cache.entries.entries.length < MAX_CACHED_FACTS ∨
      (cache.entries.get path).isSome
  · have hsame := makeRoom_of_room hroom
    exact insert_of_room (hsame.symm ▸ h) (hsame.symm ▸ hroom)
  · rw [not_or, Nat.not_lt, Option.not_isSome_iff_eq_none] at hroom
    obtain ⟨oldest, -, -, hfaithful, hlength⟩ :=
      h.makeRoom_full (Nat.le_antisymm h.bound hroom.1) hroom.2
    exact hfaithful.insert_of_room (.inl hlength)

theorem get_insert_path {len : Nat} {modified : Option Time} {facts : Facts} :
    (cache.insert path len modified facts).entries.get path = some ⟨len, modified, facts⟩ := by
  rw [insert, entries_touchFacts, KeyMap.get_insert, if_pos rfl]

theorem get_makeRoom (other : Path) : (cache.makeRoom path).entries.get other =
    cache.entries.get other ∨ (cache.makeRoom path).entries.get other = none := by
  unfold makeRoom
  split
  · split
    · exact .inl rfl
    · rw [KeyMap.get_erase]
      split
      · exact .inr rfl
      · exact .inl rfl
  · exact .inl rfl

variable [DecidableEq Time]

theorem Faithful.call (h : Faithful cache past) (call : CacheCall Path Time Facts) :
    Faithful (cache.call call) (past ++ cache.used call) := by
  cases call with
  | hit canonical len modified =>
    simp only [FactsCache.call, FactsCache.hit, FactsCache.used]
    by_cases hfound : (cache.found canonical len modified).isSome
    · rw [if_pos hfound, if_pos hfound]
      obtain ⟨facts, hfacts⟩ := Option.isSome_iff_exists.mp hfound
      obtain ⟨entry, hentry, -⟩ := Option.bind_eq_some_iff.mp hfacts
      exact h.touch (Option.isSome_of_eq_some hentry)
    · rw [if_neg hfound, if_neg hfound, List.append_nil]
      exact h
  | insert canonical len modified facts => exact h.insert canonical len modified facts

theorem uses_append (cache : FactsCache Path Time Facts) (calls : List (CacheCall Path Time Facts))
    (call : CacheCall Path Time Facts) :
    cache.uses (calls ++ [call]) = cache.uses calls ++ (cache.run calls).used call := by
  induction calls generalizing cache with
  | nil => simp [uses, run]
  | cons first calls ih =>
    rw [List.cons_append, uses, ih, uses, List.append_assoc]
    rfl

theorem run_append (cache : FactsCache Path Time Facts) (calls : List (CacheCall Path Time Facts))
    (call : CacheCall Path Time Facts) :
    cache.run (calls ++ [call]) = (cache.run calls).call call := by
  rw [run, List.foldl_append]
  rfl

theorem faithful_run (calls : List (CacheCall Path Time Facts)) :
    Faithful (run {} calls) (uses {} calls) := by
  induction calls using List.reverseRecOn with
  | nil =>
    exact ⟨List.nodup_nil, by simp [run], Nat.zero_le _, by simp [run], List.Pairwise.nil⟩
  | append_singleton calls call ih =>
    rw [run_append, uses_append]
    exact ih.call call

theorem hit_eq_some {len : Nat} {modified : Option Time} {facts : Facts} :
    (cache.hit path len modified).1 = some facts ↔
      cache.entries.get path = some ⟨len, modified, facts⟩ := by
  simp only [hit, found, Option.bind_eq_some_iff, Option.ite_none_right_eq_some, Option.some.injEq]
  constructor
  · rintro ⟨entry, hentry, ⟨rfl, rfl⟩, rfl⟩
    exact hentry
  · intro hentry
    exact ⟨_, hentry, ⟨rfl, rfl⟩, rfl⟩

theorem get_call {call : CacheCall Path Time Facts} (h : ¬ call.inserts path)
    {entry : CachedFacts Time Facts} : (cache.call call).entries.get path = some entry ↔
      cache.entries.get path = some entry ∧ ¬ cache.Evicts call path := by
  have hcall : (cache.call call).entries.get path = cache.entries.get path ∨
      (cache.call call).entries.get path = none := by
    cases call with
    | hit canonical len modified =>
      left
      simp only [FactsCache.call, hit]
      split
      · rw [entries_touchFacts]
      · rfl
    | insert canonical len modified facts =>
      have hne : path ≠ canonical := fun heq => h heq.symm
      rw [FactsCache.call, insert, entries_touchFacts, KeyMap.get_insert, if_neg hne]
      exact get_makeRoom path
  unfold Evicts
  rcases hcall with hcall | hcall
  · rw [hcall]
    constructor
    · intro hget
      exact ⟨hget, fun ⟨_, hnone⟩ => by rw [hget] at hnone; cases hnone⟩
    · exact And.left
  · rw [hcall]
    constructor
    · intro hget
      cases hget
    · rintro ⟨hget, hkept⟩
      exact absurd ⟨Option.isSome_of_eq_some hget, rfl⟩ hkept

theorem held_insert {calls : List (CacheCall Path Time Facts)} {len : Nat}
    {modified : Option Time} {facts : Facts} {entry : CachedFacts Time Facts} :
    Held (calls ++ [.insert path len modified facts]) path entry ↔
      entry = ⟨len, modified, facts⟩ := by
  constructor
  · rintro ⟨before, after, hsplit, hlast, -⟩
    rcases concat_eq_append_cons hsplit with ⟨-, -, hcall⟩ | ⟨init, rfl, -⟩
    · injection hcall with _ hlen hmodified hfacts
      rw [← hlen, ← hmodified, ← hfacts]
    · exact absurd rfl (hlast _ (List.mem_append_right _ List.mem_cons_self))
  · rintro rfl
    exact ⟨calls, [], rfl, by simp, by simp⟩

theorem held_append {calls : List (CacheCall Path Time Facts)} {call : CacheCall Path Time Facts}
    (h : ¬ call.inserts path) {entry : CachedFacts Time Facts} :
    Held (calls ++ [call]) path entry ↔
      Held calls path entry ∧ ¬ (run {} calls).Evicts call path := by
  constructor
  · rintro ⟨before, after, hsplit, hlast, hkept⟩
    rcases concat_eq_append_cons hsplit with ⟨-, -, rfl⟩ | ⟨init, rfl, rfl⟩
    · exact absurd rfl h
    · refine ⟨⟨before, init, rfl, fun c hc => hlast c (by simp [hc]), ?_⟩, hkept init call [] rfl⟩
      rintro kept c rest rfl
      exact hkept kept c (rest ++ [call]) (by simp)
  · rintro ⟨⟨before, after, rfl, hlast, hkept⟩, hevicts⟩
    refine ⟨before, after ++ [call], by simp, ?_, ?_⟩
    · intro c hc
      rcases List.mem_append.mp hc with hc | hc
      · exact hlast c hc
      · rwa [List.mem_singleton.mp hc]
    · intro kept c rest hsplit
      rcases concat_eq_append_cons hsplit with ⟨-, rfl, rfl⟩ | ⟨init, -, rfl⟩
      · exact hevicts
      · exact hkept kept c init rfl

theorem get_run (calls : List (CacheCall Path Time Facts)) {entry : CachedFacts Time Facts} :
    (run {} calls).entries.get path = some entry ↔ Held calls path entry := by
  induction calls using List.reverseRecOn generalizing entry with
  | nil =>
    constructor
    · intro h
      cases h
    · rintro ⟨before, after, hsplit, -⟩
      simp at hsplit
  | append_singleton calls call ih =>
    rw [run_append]
    by_cases hcall : call.inserts path
    · cases call with
      | hit => cases hcall
      | insert canonical len modified facts =>
        obtain rfl : canonical = path := hcall
        rw [FactsCache.call, get_insert_path, held_insert, Option.some.injEq, eq_comm]
    · rw [get_call hcall, held_append hcall, ih]

/-- After any calls on the empty cache the queue holds the paths of the map, each once,
and there are at most 64; a hit answers with what was last inserted under the same
length and time and not evicted since; and a new path in a full map evicts the least
recently used path and no other, while no other call evicts anything. -/
theorem facts_cache_lru (calls : List (CacheCall Path Time Facts)) :
    let cache := run {} calls
    (cache.order.Nodup ∧ cache.order.Perm (cache.entries.entries.map (·.1)) ∧
      cache.entries.entries.length ≤ 64) ∧
    (∀ path len modified facts, (cache.hit path len modified).1 = some facts ↔
      Held calls path ⟨len, modified, facts⟩) ∧
    (∀ path len modified facts, cache.entries.entries.length = 64 → cache.entries.get path = none →
      ∃ oldest, cache.LeastRecentlyUsed (uses {} calls) oldest ∧
        (cache.insert path len modified facts).entries =
          (cache.entries.erase oldest).insert path ⟨len, modified, facts⟩) ∧
    (∀ path len modified facts,
      cache.entries.entries.length < 64 ∨ (cache.entries.get path).isSome →
        (cache.insert path len modified facts).entries =
          cache.entries.insert path ⟨len, modified, facts⟩) ∧
    ∀ path len modified, (cache.hit path len modified).2.entries = cache.entries := by
  have h := faithful_run calls
  refine ⟨⟨h.nodup, h.perm, h.bound⟩, fun path len modified facts => ?_,
    fun path len modified facts hfull hnew => ?_, fun path len modified facts hroom => ?_,
    fun path len modified => ?_⟩
  · rw [hit_eq_some, get_run]
  · obtain ⟨oldest, holdest, herased, -, -⟩ := h.makeRoom_full hfull hnew
    exact ⟨oldest, holdest, by rw [insert, entries_touchFacts, herased]⟩
  · rw [insert, entries_touchFacts, makeRoom_of_room hroom]
  · simp only [hit]
    split
    · exact entries_touchFacts
    · rfl

end FactsCache

end AioLM.Estimate
