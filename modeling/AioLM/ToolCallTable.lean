import Mathlib.Data.Char
import Mathlib.Data.List.Lex
import Mathlib.Data.List.Perm.Subperm
import Mathlib.Data.List.Sort
import AioLM.KeyMap
import AioLM.Text

/-!
The table of running tool calls and of cancels that came before their call: what each
function does under one acquisition of its lock.
-/

set_option autoImplicit false

namespace AioLM.Mcp

def cancelledCallRetention : Nat := 60000000000

def maxCancelledCalls : Nat := 256

def maxActiveCalls : Nat := 32

def toolCallCancelled : Text := "MCP tool call cancelled".toList

/-- `sender` is the call that observes the signal. -/
inductive CallSlot where
  | active (sender : Nat)
  | cancelled (since : Nat)
  deriving DecidableEq

abbrev Calls := KeyMap Text CallSlot

def CallSlot.sender : CallSlot → Option Nat
  | .active sender => some sender
  | .cancelled _ => none

def CallSlot.cancelledAt : CallSlot → Option Nat
  | .active _ => none
  | .cancelled since => some since

def actives (calls : Calls) : KeyMap Text Nat := calls.filterMap fun _ slot => slot.sender

def tombstones (calls : Calls) : KeyMap Text Nat := calls.filterMap fun _ slot => slot.cancelledAt

/-- Pairs of an instant and an id, in order. -/
def Before (a b : Nat × Text) : Prop := a.1 < b.1 ∨ (a.1 = b.1 ∧ a.2 ≤ b.2)

instance : DecidableRel Before := fun a b =>
  inferInstanceAs (Decidable (a.1 < b.1 ∨ (a.1 = b.1 ∧ a.2 ≤ b.2)))

def retained (now : Nat) (slot : CallSlot) : Option CallSlot :=
  match slot with
  | .active _ => some slot
  | .cancelled since => if now - since < cancelledCallRetention then some slot else none

def oldestFirst (calls : Calls) : List (Nat × Text) :=
  ((tombstones calls).entries.map Prod.swap).insertionSort Before

def pruneCancelledCalls (calls : Calls) (keep now : Nat) : Calls :=
  let calls := calls.filterMap fun _ slot => retained now slot
  let tombstones := oldestFirst calls
  (tombstones.take (tombstones.length - keep)).foldl (fun calls t => calls.erase t.2) calls

def recordCancel (calls : Calls) (callId : Text) (pruneAt now : Nat) : Calls × Option Nat :=
  match calls.get callId with
  | some (.active sender) => (calls, some sender)
  | some (.cancelled _) => (calls, none)
  | none =>
    ((pruneCancelledCalls calls (maxCancelledCalls - 1) pruneAt).insert callId (.cancelled now),
      none)

def cancelActiveCalls (calls : Calls) : List Nat := (actives calls).entries.map Prod.snd

def dropRegistration (calls : Calls) (callId : Text) : Calls :=
  match calls.get callId with
  | some (.active _) => calls.erase callId
  | _ => calls

def admitCall (calls : Calls) (callId : Text) (sender now : Nat) : Except Text Unit × Calls :=
  let calls := pruneCancelledCalls calls maxCancelledCalls now
  match calls.get callId with
  | some (.active _) => (.error "MCP tool call id is already in use".toList, calls)
  | some (.cancelled _) => (.error toolCallCancelled, calls.erase callId)
  | none =>
    if maxActiveCalls ≤ (actives calls).entries.length then
      (.error "too many MCP tool calls are already running".toList, calls)
    else (.ok (), calls.insert callId (.active sender))

variable {calls : Calls} {keep now since : Nat} {callId k : Text}

theorem get_actives {sender : Nat} :
    (actives calls).get k = some sender ↔ calls.get k = some (.active sender) := by
  rw [actives, KeyMap.get_filterMap]
  cases calls.get k with
  | none => simp
  | some slot => cases slot <;> simp [CallSlot.sender]

theorem get_tombstones :
    (tombstones calls).get k = some since ↔ calls.get k = some (.cancelled since) := by
  rw [tombstones, KeyMap.get_filterMap]
  cases calls.get k with
  | none => simp
  | some slot => cases slot <;> simp [CallSlot.cancelledAt]

theorem mem_oldestFirst : (since, k) ∈ oldestFirst calls ↔ calls.get k = some (.cancelled since) := by
  rw [oldestFirst, List.mem_insertionSort, List.mem_map, ← get_tombstones, KeyMap.get_eq_some]
  constructor
  · rintro ⟨⟨k', since'⟩, hmem, heq⟩
    cases heq
    exact hmem
  · exact fun hmem => ⟨(k, since), hmem, rfl⟩

theorem length_oldestFirst : (oldestFirst calls).length = (tombstones calls).entries.length := by
  rw [oldestFirst, List.length_insertionSort, List.length_map]

theorem nodup_oldestFirst (calls : Calls) : (oldestFirst calls).Nodup := by
  rw [oldestFirst, (List.perm_insertionSort _ _).nodup_iff]
  exact (tombstones calls).entries_nodup.map Prod.swap_injective

instance : Std.Total Before := ⟨fun a b => by
  unfold Before
  rcases Nat.lt_trichotomy a.1 b.1 with h | h | h
  · exact .inl (.inl h)
  · exact (le_total a.2 b.2).imp (fun hle => .inr ⟨h, hle⟩) fun hle => .inr ⟨h.symm, hle⟩
  · exact .inr (.inl h)⟩

instance : IsTrans (Nat × Text) Before := ⟨fun a b c hab hbc => by
  unfold Before at *
  rcases hab with hab | ⟨hab, hle⟩
  · rcases hbc with hbc | ⟨hbc, -⟩
    · exact .inl (hab.trans hbc)
    · exact .inl (hbc ▸ hab)
  · rcases hbc with hbc | ⟨hbc, hle'⟩
    · exact .inl (hab ▸ hbc)
    · exact .inr ⟨hab.trans hbc, hle.trans hle'⟩⟩

theorem sorted_oldestFirst (calls : Calls) : (oldestFirst calls).Pairwise Before :=
  List.pairwise_insertionSort Before _

/-- The slots that an expiry leaves. -/
def unexpired (calls : Calls) (now : Nat) : Calls :=
  calls.filterMap fun _ slot => retained now slot

theorem retained_eq_some {slot slot' : CallSlot} (h : retained now slot = some slot') :
    slot' = slot := by
  cases slot with
  | active sender =>
    cases h
    rfl
  | cancelled since =>
    rw [retained] at h
    split at h
    · cases h
      rfl
    · cases h

theorem get_unexpired {slot : CallSlot} (h : (unexpired calls now).get k = some slot) :
    calls.get k = some slot := by
  rw [unexpired, KeyMap.get_filterMap] at h
  obtain ⟨slot', hslot', hretained⟩ := Option.bind_eq_some_iff.mp h
  rw [hslot', retained_eq_some hretained]

def pruned (calls : Calls) (keep now : Nat) : List (Nat × Text) :=
  (oldestFirst (unexpired calls now)).take ((oldestFirst (unexpired calls now)).length - keep)

theorem get_prune_of_mem (h : k ∈ (pruned calls keep now).map Prod.snd) :
    (pruneCancelledCalls calls keep now).get k = none := by
  have herased := (KeyMap.get_foldl_erase (unexpired calls now)).1 h
  rwa [List.foldl_map] at herased

theorem get_prune_of_not_mem (h : k ∉ (pruned calls keep now).map Prod.snd) :
    (pruneCancelledCalls calls keep now).get k = (unexpired calls now).get k := by
  have hkept := (KeyMap.get_foldl_erase (unexpired calls now)).2 h
  rwa [List.foldl_map] at hkept

theorem get_of_get_prune {slot : CallSlot}
    (h : (pruneCancelledCalls calls keep now).get k = some slot) : calls.get k = some slot := by
  by_cases hmem : k ∈ (pruned calls keep now).map Prod.snd
  · rw [get_prune_of_mem hmem] at h
    cases h
  · rw [get_prune_of_not_mem hmem] at h
    exact get_unexpired h

theorem cancelled_of_mem_pruned (h : k ∈ (pruned calls keep now).map Prod.snd) :
    ∃ since, (since, k) ∈ pruned calls keep now ∧
      (unexpired calls now).get k = some (.cancelled since) := by
  obtain ⟨⟨since, _⟩, hmem, rfl⟩ := List.mem_map.mp h
  exact ⟨since, hmem, mem_oldestFirst.mp (List.mem_of_mem_take hmem)⟩

variable (calls keep now) in
@[simp] theorem get_prune_active {sender : Nat} :
    (pruneCancelledCalls calls keep now).get k = some (.active sender) ↔
      calls.get k = some (.active sender) := by
  refine ⟨get_of_get_prune, fun h => ?_⟩
  have hkept : (unexpired calls now).get k = some (.active sender) := by
    rw [unexpired, KeyMap.get_filterMap, h]
    rfl
  rw [get_prune_of_not_mem, hkept]
  intro hmem
  obtain ⟨since, -, hcancelled⟩ := cancelled_of_mem_pruned hmem
  rw [hkept] at hcancelled
  cases hcancelled

theorem actives_prune : actives (pruneCancelledCalls calls keep now) = actives calls := by
  refine KeyMap.ext_get fun k => Option.ext fun sender => ?_
  rw [get_actives, get_prune_active, get_actives]

variable (calls keep now) in
theorem length_tombstones_prune :
    (tombstones (pruneCancelledCalls calls keep now)).entries.length ≤ keep := by
  have hsubset : oldestFirst (pruneCancelledCalls calls keep now) ⊆
      (oldestFirst (unexpired calls now)).drop
        ((oldestFirst (unexpired calls now)).length - keep) := by
    rintro ⟨since, k⟩ hmem
    rw [mem_oldestFirst] at hmem
    by_cases hnot : k ∈ (pruned calls keep now).map Prod.snd
    · rw [get_prune_of_mem hnot] at hmem
      cases hmem
    · rw [get_prune_of_not_mem hnot] at hmem
      have hall := mem_oldestFirst.mpr hmem
      rw [← List.take_append_drop ((oldestFirst (unexpired calls now)).length - keep)
        (oldestFirst (unexpired calls now)), List.mem_append] at hall
      exact hall.resolve_left fun htake => hnot (List.mem_map.mpr ⟨_, htake, rfl⟩)
  rw [← length_oldestFirst]
  refine ((nodup_oldestFirst _).subperm hsubset).length_le.trans ?_
  rw [List.length_drop]
  omega

theorem later_of_mem_pruned {t : Nat × Text} (h : t ∈ pruned calls keep now) :
    ∃ later : List (Nat × Text), later.Nodup ∧ later.length = keep ∧
      ∀ u ∈ later, Before t u ∧ u ≠ t ∧ (unexpired calls now).get u.2 = some (.cancelled u.1) := by
  have hlength : keep ≤ (oldestFirst (unexpired calls now)).length := by
    by_contra hfew
    have hnone : (oldestFirst (unexpired calls now)).length - keep = 0 := by omega
    rw [pruned, hnone, List.take_zero] at h
    cases h
  have hsplit := List.take_append_drop ((oldestFirst (unexpired calls now)).length - keep)
    (oldestFirst (unexpired calls now))
  have hsorted := sorted_oldestFirst (unexpired calls now)
  have hnodup := nodup_oldestFirst (unexpired calls now)
  rw [← hsplit] at hsorted hnodup
  refine ⟨(oldestFirst (unexpired calls now)).drop
    ((oldestFirst (unexpired calls now)).length - keep), ?_, ?_, fun u hu => ⟨?_, ?_, ?_⟩⟩
  · exact (List.drop_sublist _ _).nodup (nodup_oldestFirst _)
  · rw [List.length_drop]
    omega
  · exact (List.pairwise_append.mp hsorted).2.2 t h u hu
  · exact fun heq => (List.nodup_append.mp hnodup).2.2 t h u hu heq.symm
  · exact mem_oldestFirst.mp (List.mem_of_mem_drop hu)

theorem get_prune_cancelled (h : calls.get k = some (.cancelled since))
    (hlive : now - since < cancelledCallRetention)
    (hfew : ∀ later : List (Nat × Text), later.Nodup →
      (∀ u ∈ later, Before (since, k) u ∧ u.2 ≠ k ∧ calls.get u.2 = some (.cancelled u.1)) →
        later.length < keep) :
    (pruneCancelledCalls calls keep now).get k = some (.cancelled since) := by
  have hkept : (unexpired calls now).get k = some (.cancelled since) := by
    rw [unexpired, KeyMap.get_filterMap, h, Option.bind_some, retained, if_pos hlive]
  rw [get_prune_of_not_mem, hkept]
  intro hmem
  obtain ⟨since', hpruned, hcancelled⟩ := cancelled_of_mem_pruned hmem
  rw [hkept] at hcancelled
  cases hcancelled
  obtain ⟨later, hnodup, hlength, hlater⟩ := later_of_mem_pruned hpruned
  refine absurd (hfew later hnodup fun u hu => ?_) (by omega)
  obtain ⟨hbefore, hne, hget⟩ := hlater u hu
  refine ⟨hbefore, fun heq => hne ?_, get_unexpired hget⟩
  rw [heq, hkept] at hget
  cases hget
  exact Prod.ext rfl heq

/-- At most so many calls run and so many cancels wait. -/
structure Bounded (calls : Calls) : Prop where
  actives : (actives calls).entries.length ≤ maxActiveCalls
  tombstones : (tombstones calls).entries.length ≤ maxCancelledCalls

theorem Bounded.empty : Bounded .empty := ⟨Nat.zero_le _, Nat.zero_le _⟩

theorem Bounded.erase (h : Bounded calls) (k : Text) : Bounded (calls.erase k) := by
  refine ⟨?_, ?_⟩
  · rw [Mcp.actives, KeyMap.filterMap_erase]
    exact (KeyMap.length_erase_le _ _).trans h.actives
  · rw [Mcp.tombstones, KeyMap.filterMap_erase]
    exact (KeyMap.length_erase_le _ _).trans h.tombstones

variable (now) in
theorem Bounded.prune (h : Bounded calls) (hkeep : keep ≤ maxCancelledCalls) :
    Bounded (pruneCancelledCalls calls keep now) := by
  refine ⟨?_, (length_tombstones_prune _ _ _).trans hkeep⟩
  rw [actives_prune]
  exact h.actives

theorem length_insert_le (m : KeyMap Text Nat) (k : Text) (v : Nat) :
    (m.insert k v).entries.length ≤ m.entries.length + 1 := by
  rw [KeyMap.length_insert]
  split <;> omega

theorem Bounded.recordCancel (h : Bounded calls) (callId : Text) (pruneAt now : Nat) :
    Bounded (recordCancel calls callId pruneAt now).1 := by
  rw [Mcp.recordCancel]
  split
  · exact h
  · exact h
  · refine ⟨?_, ?_⟩
    · rw [Mcp.actives, KeyMap.filterMap_insert]
      refine (KeyMap.length_erase_le _ _).trans ?_
      exact (h.prune _ (Nat.sub_le _ _)).actives
    · rw [Mcp.tombstones, KeyMap.filterMap_insert]
      refine (length_insert_le _ _ _).trans ?_
      have hkept := length_tombstones_prune calls (maxCancelledCalls - 1) pruneAt
      have hmax : maxCancelledCalls = 256 := rfl
      rw [Mcp.tombstones] at hkept
      omega

theorem Bounded.dropRegistration (h : Bounded calls) (callId : Text) :
    Bounded (dropRegistration calls callId) := by
  rw [Mcp.dropRegistration]
  split
  · exact h.erase callId
  · exact h

theorem Bounded.admitCall (h : Bounded calls) (callId : Text) (sender now : Nat) :
    Bounded (admitCall calls callId sender now).2 := by
  have hpruned : Bounded (pruneCancelledCalls calls maxCancelledCalls now) :=
    h.prune now (Nat.le_refl _)
  unfold Mcp.admitCall
  generalize pruneCancelledCalls calls maxCancelledCalls now = kept at hpruned
  dsimp only
  split
  · exact hpruned
  · exact hpruned.erase callId
  · split
    · exact hpruned
    · rename_i hroom
      refine ⟨?_, ?_⟩
      · rw [Mcp.actives, KeyMap.filterMap_insert]
        have hinsert := length_insert_le (Mcp.actives kept) callId sender
        rw [Mcp.actives] at hinsert hroom
        exact hinsert.trans (by omega)
      · rw [Mcp.tombstones, KeyMap.filterMap_insert]
        exact (KeyMap.length_erase_le _ _).trans hpruned.tombstones

theorem get_recordCancel_active {pruneAt sender : Nat} :
    (recordCancel calls callId pruneAt now).1.get k = some (.active sender) ↔
      calls.get k = some (.active sender) := by
  rw [recordCancel]
  split
  · rfl
  · rfl
  · rename_i hnone
    rw [KeyMap.get_insert]
    split
    · rename_i hk
      simp [hk, hnone]
    · exact get_prune_active _ _ _

theorem recordCancel_signal {pruneAt sender : Nat}
    (h : calls.get callId = some (.active sender)) :
    recordCancel calls callId pruneAt now = (calls, some sender) := by
  simp only [recordCancel, h]

theorem mem_recordCancel_signal {pruneAt sender : Nat} :
    (recordCancel calls callId pruneAt now).2 = some sender ↔
      calls.get callId = some (.active sender) := by
  rw [recordCancel]
  split
  · rename_i other hget
    simp [hget]
  · rename_i since hget
    simp [hget]
  · rename_i hget
    simp [hget]

theorem mem_cancelActiveCalls {sender : Nat} :
    sender ∈ cancelActiveCalls calls ↔ ∃ k, calls.get k = some (.active sender) := by
  rw [cancelActiveCalls, List.mem_map]
  constructor
  · rintro ⟨⟨k, _⟩, hmem, rfl⟩
    exact ⟨k, get_actives.mp (KeyMap.get_eq_some.mpr hmem)⟩
  · rintro ⟨k, hk⟩
    exact ⟨(k, sender), KeyMap.get_eq_some.mp (get_actives.mpr hk), rfl⟩

variable {sender : Nat} {table : Calls} {error : Text}

theorem get_of_refused (h : admitCall calls callId sender now = (.error error, table)) {s : Nat} :
    table.get k = some (.active s) ↔ calls.get k = some (.active s) := by
  rw [← get_prune_active calls maxCancelledCalls now]
  unfold admitCall at h
  generalize pruneCancelledCalls calls maxCancelledCalls now = kept at h
  dsimp only at h
  split at h
  · cases h
    rfl
  · rename_i hcancelled
    cases h
    rw [KeyMap.get_erase]
    split
    · rename_i hk
      simp [hk, hcancelled]
    · rfl
  · split at h
    · cases h
      rfl
    · cases h

theorem get_of_admitted (h : admitCall calls callId sender now = (.ok (), table)) {s : Nat} :
    table.get k = some (.active s) ↔
      (k = callId ∧ s = sender) ∨ (k ≠ callId ∧ calls.get k = some (.active s)) := by
  rw [← get_prune_active calls maxCancelledCalls now]
  unfold admitCall at h
  generalize pruneCancelledCalls calls maxCancelledCalls now = kept at h
  dsimp only at h
  split at h
  · cases h
  · cases h
  · split at h
    · cases h
    · cases h
      rw [KeyMap.get_insert]
      by_cases hk : k = callId
      · simp [hk, eq_comm]
      · simp [hk]

theorem not_active_of_admitted (h : admitCall calls callId sender now = (.ok (), table)) {s : Nat} :
    calls.get callId ≠ some (.active s) := by
  rw [ne_eq, ← get_prune_active calls maxCancelledCalls now]
  unfold admitCall at h
  generalize pruneCancelledCalls calls maxCancelledCalls now = kept at h
  dsimp only at h
  split at h
  · cases h
  · cases h
  · rename_i hnone
    simp [hnone]

theorem get_dropRegistration_cancelled {since : Nat} :
    (dropRegistration calls callId).get k = some (.cancelled since) ↔
      calls.get k = some (.cancelled since) := by
  rw [dropRegistration]
  split
  · rename_i sender hactive
    rw [KeyMap.get_erase]
    split
    · rename_i hk
      simp [hk, hactive]
    · rfl
  · rfl

theorem Before.antisymm {a b : Nat × Text} (h : Before a b) (h' : Before b a) : a = b := by
  rcases h with h | ⟨h, hle⟩ <;> rcases h' with h' | ⟨h', hle'⟩
  · exact absurd h' h.asymm
  · exact absurd h' h.ne'
  · exact absurd h h'.ne'
  · exact Prod.ext h (le_antisymm hle hle')

theorem get_dropRegistration (h : calls.get callId = some (.active sender)) :
    (dropRegistration calls callId).get k = if k = callId then none else calls.get k := by
  simp only [dropRegistration, h]
  by_cases hk : k = callId
  · rw [KeyMap.get_erase, if_pos hk, if_pos hk]
  · rw [KeyMap.get_erase, if_neg hk, if_neg hk]

theorem get_admitCall {answer : Except Text Unit}
    (hadmission : admitCall calls callId sender now = (answer, table)) (h : k ≠ callId) :
    table.get k = (pruneCancelledCalls calls maxCancelledCalls now).get k := by
  unfold admitCall at hadmission
  generalize pruneCancelledCalls calls maxCancelledCalls now = kept at hadmission ⊢
  dsimp only at hadmission
  split at hadmission
  · cases hadmission
    rfl
  · cases hadmission
    rw [KeyMap.get_erase, if_neg h]
  · split at hadmission
    · cases hadmission
      rfl
    · cases hadmission
      rw [KeyMap.get_insert, if_neg h]

theorem get_admitCall_cancelled {answer : Except Text Unit}
    (hadmission : admitCall calls callId sender now = (answer, table))
    (h : table.get k = some (.cancelled since)) : calls.get k = some (.cancelled since) := by
  by_cases hk : k = callId
  · subst hk
    refine get_of_get_prune (?_ : (pruneCancelledCalls calls maxCancelledCalls now).get k = _)
    unfold admitCall at hadmission
    generalize pruneCancelledCalls calls maxCancelledCalls now = kept at hadmission ⊢
    dsimp only at hadmission
    split at hadmission
    · cases hadmission
      exact h
    · cases hadmission
      rw [KeyMap.get_erase, if_pos rfl] at h
      cases h
    · split at hadmission
      · cases hadmission
        exact h
      · cases hadmission
        rw [KeyMap.get_insert, if_pos rfl] at h
        cases h
  · rw [get_admitCall hadmission hk] at h
    exact get_of_get_prune h

variable (sender) in
theorem admitCall_of_cancelled
    (h : (pruneCancelledCalls calls maxCancelledCalls now).get callId = some (.cancelled since)) :
    (admitCall calls callId sender now).1 = .error toolCallCancelled := by
  unfold admitCall
  generalize pruneCancelledCalls calls maxCancelledCalls now = kept at h ⊢
  simp only [h]

theorem get_recordCancel_cancelled {pruneAt : Nat}
    (h : (recordCancel calls callId pruneAt now).1.get k = some (.cancelled since)) :
    (k = callId ∧ calls.get callId = none) ∨ calls.get k = some (.cancelled since) := by
  rw [recordCancel] at h
  split at h
  · exact .inr h
  · exact .inr h
  · rename_i hnone
    rw [KeyMap.get_insert] at h
    split at h
    · rename_i hk
      exact .inl ⟨hk, hnone⟩
    · exact .inr (get_of_get_prune h)

end AioLM.Mcp
