import AioLM.ServerState
import AioLM.Lists

/-!
Request-time model resolution for the external API: which sessions a snapshot
advertises, under which ids, and which session a requested id selects.
-/

set_option autoImplicit false

namespace AioLM.Routing

def defaultSessionId : Text := "default".toList

/-- `file_name`: the last segment of a path of either style. -/
def fileName (path : Text) : Text :=
  (path.reverse.takeWhile (fun c => c ≠ '/' ∧ c ≠ '\\')).reverse

structure Candidate where
  sessionId : Text
  modelId : Text
  advertised : Text
  url : Text
  key : Text
  deriving DecidableEq

/-- A session as the snapshot meets it: its state, and what inspecting its
process would say. -/
structure Tracked where
  server : ServerState
  probe : Probe
  tail : Text

/-- A crashed worker is noticed first; a session without a process is not. -/
def Tracked.observe (t : Tracked) : ServerState :=
  if t.server.child.isSome then t.server.reapIfExited t.probe t.tail else t.server

structure ModelSource where
  default : Tracked
  sessions : List (Text × Tracked)

def ModelSource.targets (source : ModelSource) : List (Text × Tracked) :=
  (defaultSessionId, source.default) :: source.sessions

def modelIdOf (sessionId : Text) (state : ServerState) : Text :=
  if fileName state.model = [] then sessionId else fileName state.model

def candidateOf (sessionId : Text) (state : ServerState) : Option Candidate :=
  if state.lifecycle = .ready ∧ state.url ≠ [] ∧ state.apiKey ≠ [] then
    some { sessionId, modelId := modelIdOf sessionId state,
           advertised := modelIdOf sessionId state, url := state.url, key := state.apiKey }
  else none

def ModelSource.ready (source : ModelSource) : List Candidate :=
  source.targets.filterMap (fun target => candidateOf target.1 target.2.observe)

structure Catalog where
  ready : List Candidate
  loading : Nat

/-- The sort order of a catalog: model id, then session id. -/
def Candidate.before (a b : Candidate) : Prop :=
  a.modelId < b.modelId ∨ (a.modelId = b.modelId ∧ a.sessionId ≤ b.sessionId)

instance : DecidableRel Candidate.before := fun a b =>
  inferInstanceAs (Decidable (a.modelId < b.modelId ∨
    (a.modelId = b.modelId ∧ a.sessionId ≤ b.sessionId)))

/-- A model id with the session that serves it. -/
def address (c : Candidate) : Text := c.modelId ++ '@' :: c.sessionId

/-- The loop of `snapshot` over the sorted list. -/
def markShared (ready : List Candidate) : List Candidate :=
  ready.mapIdx (fun index c =>
    if (0 < index ∧ (ready[index - 1]?.map Candidate.modelId = some c.modelId)) ∨
        ready[index + 1]?.map Candidate.modelId = some c.modelId then
      { c with advertised := address c }
    else c)

def ModelSource.snapshot (source : ModelSource) : Catalog where
  ready := markShared (source.ready.insertionSort Candidate.before)
  loading := (source.targets.filter
    (fun target => target.2.observe.lifecycle = .starting)).length

inductive RouteError where
  | noModel (loading : Bool)
  | required (available : List Text)
  | notFound (requested : Text) (available : List Text)
  | ambiguous (requested : Text) (candidates : List Text)
  | changed
  deriving DecidableEq

namespace Catalog

def advertised (catalog : Catalog) : List Text := catalog.ready.map Candidate.advertised

/-- A request without a model goes to the default session, or to the only one. -/
def selectUnnamed (catalog : Catalog) : Except RouteError Candidate :=
  match catalog.ready.find? (fun c => c.sessionId = defaultSessionId) with
  | some c => .ok c
  | none =>
    match catalog.ready with
    | [only] => .ok only
    | _ => .error (.required catalog.advertised)

def selectNamed (catalog : Catalog) (name : Text) : Except RouteError Candidate :=
  let exact := catalog.ready.filter (fun c => c.advertised = name)
  match exact with
  | [only] => .ok only
  | _ =>
    -- A bare file name that several sessions share matches nothing exactly.
    let candidates :=
      if exact.isEmpty then catalog.ready.filter (fun c => c.modelId = name) else exact
    if 1 < candidates.length then
      .error (.ambiguous name (candidates.map Candidate.advertised))
    else .error (.notFound name catalog.advertised)

def select (catalog : Catalog) (requested : Option Text) : Except RouteError Candidate :=
  if catalog.ready.isEmpty then .error (.noModel (0 < catalog.loading))
  else
    match (requested.map Text.trim).filter (fun name => !name.isEmpty) with
    | none => catalog.selectUnnamed
    | some name => catalog.selectNamed name

end Catalog

/-- Another ready session serves a file of the same name. -/
def Shared (ready : List Candidate) (c : Candidate) : Prop :=
  ∃ d ∈ ready, d.sessionId ≠ c.sessionId ∧ d.modelId = c.modelId

instance (ready : List Candidate) (c : Candidate) : Decidable (Shared ready c) :=
  inferInstanceAs (Decidable (∃ d ∈ ready, d.sessionId ≠ c.sessionId ∧ d.modelId = c.modelId))

def label (ready : List Candidate) (c : Candidate) : Candidate :=
  if Shared ready c then { c with advertised := address c } else c

@[simp] theorem label_sessionId (ready : List Candidate) (c : Candidate) :
    (label ready c).sessionId = c.sessionId := by
  unfold label
  split <;> rfl

@[simp] theorem label_modelId (ready : List Candidate) (c : Candidate) :
    (label ready c).modelId = c.modelId := by
  unfold label
  split <;> rfl

theorem label_of_shared {ready : List Candidate} {c : Candidate} (h : Shared ready c) :
    (label ready c).advertised = address c := by simp [label, h]

theorem label_of_not_shared {ready : List Candidate} {c : Candidate} (h : ¬ Shared ready c) :
    (label ready c).advertised = c.advertised := by simp [label, h]

theorem shared_perm {xs ys : List Candidate} (h : xs.Perm ys) (c : Candidate) :
    Shared xs c ↔ Shared ys c := by simp [Shared, h.mem_iff]

theorem label_perm {xs ys : List Candidate} (h : xs.Perm ys) : label xs = label ys := by
  funext c
  simp [label, shared_perm h c]

theorem markShared_eq {xs : List Candidate}
    (hsorted : xs.Pairwise (fun a b => a.modelId ≤ b.modelId))
    (hids : (xs.map Candidate.sessionId).Nodup) : markShared xs = xs.map (label xs) := by
  apply List.ext_getElem (by simp [markShared])
  intro i h₁ h₂
  have hi : i < xs.length := by simpa [markShared] using h₁
  have hshared : ((0 < i ∧ (xs[i - 1]?.map Candidate.modelId = some xs[i].modelId)) ∨
      xs[i + 1]?.map Candidate.modelId = some xs[i].modelId) ↔ Shared xs xs[i] := by
    rw [Lists.neighbour_key_iff hsorted hi]
    constructor
    · rintro ⟨j, hj, hne, hkey⟩
      refine ⟨xs[j], List.getElem_mem hj, fun hsame => hne ?_, hkey⟩
      have hj' : j < (xs.map Candidate.sessionId).length := by simpa using hj
      have hi' : i < (xs.map Candidate.sessionId).length := by simpa using hi
      have hkeys : (xs.map Candidate.sessionId)[j] = (xs.map Candidate.sessionId)[i] := by
        simpa using hsame
      exact (List.Nodup.getElem_inj_iff hids).mp hkeys
    · rintro ⟨d, hd, hne, hkey⟩
      obtain ⟨j, hj, rfl⟩ := List.getElem_of_mem hd
      exact ⟨j, hj, fun hji => hne (by subst hji; rfl), hkey⟩
  simp only [markShared, List.getElem_mapIdx, List.getElem_map, label, hshared]

theorem Candidate.before_total (a b : Candidate) : a.before b ∨ b.before a := by
  unfold Candidate.before
  rcases lt_trichotomy a.modelId b.modelId with h | h | h
  · exact .inl (.inl h)
  · rcases le_total a.sessionId b.sessionId with hs | hs
    · exact .inl (.inr ⟨h, hs⟩)
    · exact .inr (.inr ⟨h.symm, hs⟩)
  · exact .inr (.inl h)

theorem Candidate.before_trans {a b c : Candidate} (hab : a.before b) (hbc : b.before c) :
    a.before c := by
  rcases hab with hab | ⟨hab, hsab⟩ <;> rcases hbc with hbc | ⟨hbc, hsbc⟩
  · exact .inl (hab.trans hbc)
  · exact .inl (hbc ▸ hab)
  · exact .inl (hab ▸ hbc)
  · exact .inr ⟨hab.trans hbc, hsab.trans hsbc⟩

theorem Candidate.before_modelId {a b : Candidate} (h : a.before b) : a.modelId ≤ b.modelId := by
  rcases h with h | ⟨h, -⟩
  · exact h.le
  · exact h.le

theorem candidateOf_sessionId {id : Text} {state : ServerState} {c : Candidate}
    (h : candidateOf id state = some c) : c.sessionId = id := by
  unfold candidateOf at h
  split at h
  · cases h
    rfl
  · simp at h

theorem ready_sessionIds (targets : List (Text × Tracked)) :
    ((targets.filterMap (fun target => candidateOf target.1 target.2.observe)).map
      Candidate.sessionId).Sublist (targets.map Prod.fst) := by
  induction targets with
  | nil => simp
  | cons target rest ih =>
    cases hc : candidateOf target.1 target.2.observe with
    | none => simpa [List.filterMap_cons, hc] using ih.trans (List.sublist_cons_self _ _)
    | some c =>
      have hid := candidateOf_sessionId hc
      simpa [List.filterMap_cons, hc, hid] using ih.cons_cons target.1

theorem snapshot_ready_perm {source : ModelSource}
    (hids : (source.targets.map Prod.fst).Nodup) :
    source.snapshot.ready.Perm (source.ready.map (label source.ready)) := by
  have hperm := List.perm_insertionSort Candidate.before source.ready
  have hready : (source.ready.map Candidate.sessionId).Nodup :=
    hids.sublist (ready_sessionIds source.targets)
  have : Std.Total Candidate.before := ⟨Candidate.before_total⟩
  have : IsTrans Candidate Candidate.before := ⟨fun _ _ _ => Candidate.before_trans⟩
  have hsorted := (List.pairwise_insertionSort Candidate.before source.ready).imp
    Candidate.before_modelId
  have hmark := markShared_eq hsorted ((hperm.map Candidate.sessionId).nodup_iff.mpr hready)
  rw [ModelSource.snapshot, hmark, label_perm hperm]
  exact hperm.map _

theorem select_some {catalog : Catalog} (hne : catalog.ready ≠ []) (name : Text) :
    catalog.select (some name) =
      if Text.trim name = [] then catalog.selectUnnamed
      else catalog.selectNamed (Text.trim name) := by
  have hready : catalog.ready.isEmpty = false := by simpa using hne
  by_cases hblank : Text.trim name = []
  · simp [Catalog.select, hready, hblank, Option.filter]
  · simp [Catalog.select, hready, hblank, Option.filter]

theorem selectUnnamed_eq_ok_iff {catalog : Catalog} {c : Candidate}
    (hids : (catalog.ready.map Candidate.sessionId).Nodup) (hc : c ∈ catalog.ready) :
    catalog.selectUnnamed = .ok c ↔ c.sessionId = defaultSessionId ∨ catalog.ready = [c] := by
  unfold Catalog.selectUnnamed
  cases hfind : catalog.ready.find? (fun c => c.sessionId = defaultSessionId) with
  | some d =>
    have hd : d ∈ catalog.ready := List.mem_of_find?_eq_some hfind
    have hdid : d.sessionId = defaultSessionId := by simpa using List.find?_some hfind
    simp only [Except.ok.injEq]
    constructor
    · rintro rfl
      exact .inl hdid
    · rintro (h | h)
      · exact Lists.eq_of_key_eq hids hd hc (hdid.trans h.symm)
      · simpa [h] using hd
  | none =>
    have hnone : c.sessionId ≠ defaultSessionId := by
      simpa using List.find?_eq_none.mp hfind c hc
    cases hready : catalog.ready with
    | nil => simp [hready] at hc
    | cons d rest =>
      cases rest with
      | nil => simp [hnone]
      | cons e rest => simp [hnone]

theorem selectNamed_eq_ok {catalog : Catalog} {name : Text} {c : Candidate}
    (h : catalog.selectNamed name = .ok c) : c.advertised = name := by
  simp only [Catalog.selectNamed] at h
  split at h
  · rename_i only honly
    obtain rfl : only = c := by simpa using h
    have hmem : only ∈ catalog.ready.filter (fun c => c.advertised = name) := by simp [honly]
    simpa using (List.mem_filter.mp hmem).2
  · split at h <;> split at h <;> simp at h

theorem selectNamed_own {catalog : Catalog} (hadv : catalog.advertised.Nodup) {c : Candidate}
    (hc : c ∈ catalog.ready) : catalog.selectNamed c.advertised = .ok c := by
  simp [Catalog.selectNamed, Lists.filter_key_eq hadv hc]

theorem select_own_iff {catalog : Catalog}
    (hids : (catalog.ready.map Candidate.sessionId).Nodup) (hadv : catalog.advertised.Nodup)
    {c : Candidate} (hc : c ∈ catalog.ready) :
    catalog.select (some c.advertised) = .ok c ↔
      (Text.trim c.advertised ≠ [] ∧ Text.trim c.advertised = c.advertised) ∨
      (Text.trim c.advertised = [] ∧
        (c.sessionId = defaultSessionId ∨ catalog.ready = [c])) := by
  rw [select_some (List.ne_nil_of_mem hc)]
  by_cases hblank : Text.trim c.advertised = []
  · simp [hblank, selectUnnamed_eq_ok_iff hids hc]
  · simp only [hblank, if_false, ne_eq, not_false_eq_true, true_and, false_and, or_false]
    constructor
    · exact fun h => (selectNamed_eq_ok h).symm
    · intro h
      rw [h]
      exact selectNamed_own hadv hc

/-- The advertised ids are distinct and each selects its own session. -/
def Routable (catalog : Catalog) : Prop :=
  catalog.advertised.Nodup ∧
    ∀ c ∈ catalog.ready, catalog.select (some c.advertised) = .ok c

/-- No id of a ready session is taken by another session or lost to trimming. -/
structure Addressable (ready : List Candidate) : Prop where
  /-- A file name used once is not the address of a session with a shared name. -/
  file : ∀ c ∈ ready, ∀ d ∈ ready, Shared ready c → ¬ Shared ready d → d.modelId ≠ address c
  session : ∀ c ∈ ready, ∀ d ∈ ready, Shared ready c → Shared ready d →
    address c = address d → c.sessionId = d.sessionId
  /-- Only the session a nameless request reaches may have a blank name. -/
  name : ∀ c ∈ ready, ¬ Shared ready c →
    (Text.trim c.modelId ≠ [] ∧ Text.trim c.modelId = c.modelId) ∨
    (Text.trim c.modelId = [] ∧ (c.sessionId = defaultSessionId ∨ ready = [c]))
  trimmed : ∀ c ∈ ready, Shared ready c → Text.trim (address c) = address c

theorem address_ne_nil (c : Candidate) : address c ≠ [] := by simp [address]

theorem trim_address_ne_nil (c : Candidate) : Text.trim (address c) ≠ [] := by
  intro h
  have := Text.trim_eq_nil_iff.mp h '@' (by simp [address])
  exact absurd this (by decide)

theorem ready_advertised {source : ModelSource} {c : Candidate} (hc : c ∈ source.ready) :
    c.advertised = c.modelId := by
  obtain ⟨target, -, h⟩ := List.mem_filterMap.mp hc
  unfold candidateOf at h
  split at h
  · cases h
    rfl
  · simp at h

theorem not_shared_unique {ready : List Candidate}
    (hids : (ready.map Candidate.sessionId).Nodup) {c d : Candidate} (hc : c ∈ ready)
    (hd : d ∈ ready) (hshared : ¬ Shared ready c) (h : d.modelId = c.modelId) : c = d := by
  by_contra hne
  refine hshared ⟨d, hd, fun hsame => hne ?_, h⟩
  exact Lists.eq_of_key_eq hids hc hd hsame.symm

/-- Labels are distinct exactly when the two clash conditions are met. -/
theorem labels_nodup_iff {ready : List Candidate}
    (hids : (ready.map Candidate.sessionId).Nodup)
    (hadv : ∀ c ∈ ready, c.advertised = c.modelId) :
    (ready.map (fun c => (label ready c).advertised)).Nodup ↔
      (∀ c ∈ ready, ∀ d ∈ ready, Shared ready c → ¬ Shared ready d →
        d.modelId ≠ address c) ∧
      (∀ c ∈ ready, ∀ d ∈ ready, Shared ready c → Shared ready d →
        address c = address d → c.sessionId = d.sessionId) := by
  constructor
  · intro hnodup
    refine ⟨fun c hc d hd hsc hsd heq => ?_, fun c hc d hd hsc hsd heq => ?_⟩
    · have hsame : c = d := Lists.eq_of_key_eq hnodup hc hd (by
        rw [label_of_shared hsc, label_of_not_shared hsd, hadv d hd, heq])
      exact hsd (hsame ▸ hsc)
    · exact congrArg Candidate.sessionId (Lists.eq_of_key_eq hnodup hc hd (by
        rw [label_of_shared hsc, label_of_shared hsd, heq]))
  · rintro ⟨hfile, hsession⟩
    refine List.Nodup.map_on ?_ (List.Nodup.of_map _ hids)
    intro c hc d hd heq
    by_cases hsc : Shared ready c <;> by_cases hsd : Shared ready d
    · rw [label_of_shared hsc, label_of_shared hsd] at heq
      exact Lists.eq_of_key_eq hids hc hd (hsession c hc d hd hsc hsd heq)
    · rw [label_of_shared hsc, label_of_not_shared hsd, hadv d hd] at heq
      exact absurd heq.symm (hfile c hc d hd hsc hsd)
    · rw [label_of_shared hsd, label_of_not_shared hsc, hadv c hc] at heq
      exact absurd heq (hfile d hd c hc hsd hsc)
    · rw [label_of_not_shared hsc, label_of_not_shared hsd, hadv c hc, hadv d hd] at heq
      exact not_shared_unique hids hc hd hsc heq.symm

theorem map_eq_singleton {ready : List Candidate} {c : Candidate} (hc : c ∈ ready) :
    ready.map (label ready) = [label ready c] ↔ ready = [c] := by
  constructor
  · intro h
    cases ready with
    | nil => simp at hc
    | cons d rest =>
      have hrest : rest = [] := by simpa using (List.cons.inj h).2
      subst hrest
      simp_all
  · rintro rfl
    simp

theorem perm_eq_singleton {α : Type} {xs ys : List α} (h : xs.Perm ys) (x : α) :
    xs = [x] ↔ ys = [x] :=
  ⟨fun hx => List.perm_singleton.mp (hx ▸ h.symm), fun hy => List.perm_singleton.mp (hy ▸ h)⟩

/-- Every advertised id is routable exactly when no name clashes with another
session's address and none is changed by trimming. -/
theorem advertised_routable_iff (source : ModelSource)
    (hids : (source.targets.map Prod.fst).Nodup) :
    Routable source.snapshot ↔ Addressable source.ready := by
  have hperm := snapshot_ready_perm hids
  have hready : (source.ready.map Candidate.sessionId).Nodup :=
    hids.sublist (ready_sessionIds source.targets)
  have hadv : ∀ c ∈ source.ready, c.advertised = c.modelId := fun _ => ready_advertised
  have hsnap : (source.snapshot.ready.map Candidate.sessionId).Nodup := by
    rw [(hperm.map Candidate.sessionId).nodup_iff]
    simpa [Function.comp_def] using hready
  have hlabels : source.snapshot.advertised.Nodup ↔
      (source.ready.map (fun c => (label source.ready c).advertised)).Nodup := by
    rw [Catalog.advertised, (hperm.map Candidate.advertised).nodup_iff, List.map_map]
    rfl
  have hselect : ∀ c ∈ source.ready, source.snapshot.advertised.Nodup →
      (source.snapshot.select (some (label source.ready c).advertised) =
          .ok (label source.ready c) ↔
        (Text.trim (label source.ready c).advertised ≠ [] ∧
          Text.trim (label source.ready c).advertised = (label source.ready c).advertised) ∨
        (Text.trim (label source.ready c).advertised = [] ∧
          (c.sessionId = defaultSessionId ∨ source.ready = [c]))) := by
    intro c hc hnodup
    have hmem : label source.ready c ∈ source.snapshot.ready :=
      hperm.mem_iff.mpr (List.mem_map_of_mem hc)
    rw [select_own_iff hsnap hnodup hmem, perm_eq_singleton hperm, map_eq_singleton hc,
      label_sessionId]
  have hall : (∀ c ∈ source.snapshot.ready,
      source.snapshot.select (some c.advertised) = .ok c) ↔
      ∀ c ∈ source.ready, source.snapshot.select (some (label source.ready c).advertised) =
        .ok (label source.ready c) := by
    constructor
    · exact fun h c hc => h _ (hperm.mem_iff.mpr (List.mem_map_of_mem hc))
    · intro h c hc
      obtain ⟨d, hd, rfl⟩ := List.mem_map.mp (hperm.mem_iff.mp hc)
      exact h d hd
  rw [Routable, hall, hlabels]
  constructor
  · rintro ⟨hnodup, hown⟩
    obtain ⟨hfile, hsession⟩ := (labels_nodup_iff hready hadv).mp hnodup
    refine ⟨hfile, hsession, fun c hc hs => ?_, fun c hc hs => ?_⟩
    · have := (hselect c hc (hlabels.mpr hnodup)).mp (hown c hc)
      rwa [label_of_not_shared hs, hadv c hc] at this
    · have := (hselect c hc (hlabels.mpr hnodup)).mp (hown c hc)
      rw [label_of_shared hs] at this
      rcases this with ⟨-, h⟩ | ⟨h, -⟩
      · exact h
      · exact absurd h (trim_address_ne_nil c)
  · rintro ⟨hfile, hsession, hname, htrim⟩
    have hnodup := (labels_nodup_iff hready hadv).mpr ⟨hfile, hsession⟩
    refine ⟨hnodup, fun c hc => (hselect c hc (hlabels.mpr hnodup)).mpr ?_⟩
    by_cases hs : Shared source.ready c
    · rw [label_of_shared hs, htrim c hc hs]
      exact .inl ⟨address_ne_nil c, rfl⟩
    · rw [label_of_not_shared hs, hadv c hc]
      exact hname c hc hs

/-- A ready session that serves the model at `path`. -/
def serving (path : String) : Tracked where
  server := { lifecycle := .ready, url := "http://127.0.0.1:1/v1".toList,
              apiKey := "lb-1".toList, model := path.toList }
  probe := .running
  tail := []

def twoCopies : ModelSource where
  default := serving "/models/qwen.gguf"
  sessions := [("work".toList, serving "C:\\models\\qwen.gguf")]

theorem advertised_routable_iff_twoCopies :
    (twoCopies.targets.map Prod.fst).Nodup ∧
      (Routable twoCopies.snapshot ↔ Addressable twoCopies.ready) :=
  ⟨by decide, advertised_routable_iff twoCopies (by decide)⟩

/-- A file called `qwen.gguf@work` next to two copies of `qwen.gguf`. -/
def lookalike : ModelSource :=
  { twoCopies with
    sessions := twoCopies.sessions ++ [("bench".toList, serving "/models/qwen.gguf@work")] }

theorem lookalike_not_routable :
    (lookalike.targets.map Prod.fst).Nodup ∧ ¬ Routable lookalike.snapshot :=
  ⟨by decide, fun h => absurd h.1 (by decide)⟩

end AioLM.Routing
