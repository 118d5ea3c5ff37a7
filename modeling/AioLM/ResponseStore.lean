import AioLM.Json
import AioLM.KeyMap
import Mathlib.Data.Char
import Mathlib.Data.List.Lex

/-!
The store of Responses answers. Histories are linked nodes that several answers
share; the store is a hash map of bounded size that evicts what it yields first.
-/

set_option autoImplicit false

namespace AioLM.Gateway

def maxResponses : Nat := 128

inductive HistoryNode where
  | mk (parent : Option HistoryNode) (turn : List Json)

namespace HistoryNode

def turn : HistoryNode → List Json
  | mk _ turn => turn

def append (parent : Option HistoryNode) (turn : List Json) (assistant : Json) : HistoryNode :=
  mk parent (turn ++ [assistant])

def nodes : HistoryNode → List HistoryNode
  | mk none turn => [mk none turn]
  | mk (some parent) turn => mk (some parent) turn :: parent.nodes

def flatten (self : HistoryNode) : List Json := self.nodes.reverse.flatMap turn

theorem flatten_append (parent : Option HistoryNode) (turn : List Json) (assistant : Json) :
    (append parent turn assistant).flatten =
      (parent.map flatten).getD [] ++ turn ++ [assistant] := by
  cases parent with
  | none => simp [append, flatten, nodes, HistoryNode.turn]
  | some parent => simp [append, flatten, nodes, HistoryNode.turn]

end HistoryNode

structure StoredResponse where
  response : Json
  history : HistoryNode

abbrev Responses := KeyMap Text StoredResponse

/-- `keys().next()` of a hash map: some key of it, in an order of its own. -/
structure IterationOrder where
  first : Responses → Option Text
  inside : ∀ responses key, first responses = some key → (responses.get key).isSome
  total : ∀ responses, first responses = none → responses.entries = []

set_option linter.unusedVariables false in
def evict (order : IterationOrder) (responses : Responses) : Responses :=
  if maxResponses < responses.entries.length then
    match h : order.first responses with
    | some key => evict order (responses.erase key)
    | none => responses
  else responses
termination_by responses.entries.length
decreasing_by
  have hlength := KeyMap.length_erase (order.inside _ _ h)
  omega

def rememberResponse (order : IterationOrder) (responses : Responses) (id : Text)
    (stored : StoredResponse) : Responses :=
  evict order (responses.insert id stored)

theorem evict_of_le {order : IterationOrder} {responses : Responses}
    (h : responses.entries.length ≤ maxResponses) : evict order responses = responses := by
  rw [evict, if_neg (by omega)]

theorem evict_of_lt (order : IterationOrder) {responses : Responses}
    (h : maxResponses < responses.entries.length) :
    ∃ key, order.first responses = some key ∧ (responses.get key).isSome ∧
      evict order responses = evict order (responses.erase key) := by
  cases hfirst : order.first responses with
  | none =>
    rw [order.total _ hfirst] at h
    cases h
  | some key =>
    refine ⟨key, rfl, order.inside _ _ hfirst, ?_⟩
    rw [evict, if_pos h]
    split
    · rename_i found hfound
      rw [hfirst] at hfound
      cases hfound
      rfl
    · simp_all

/-- Eviction leaves the store within its bound and adds nothing. -/
theorem evict_spec (order : IterationOrder) (responses : Responses) :
    (evict order responses).entries.length ≤ maxResponses ∧
      ∀ id stored, (evict order responses).get id = some stored →
        responses.get id = some stored := by
  induction hn : responses.entries.length using Nat.strongRecOn generalizing responses with
  | ind n ih =>
    by_cases h : responses.entries.length ≤ maxResponses
    · rw [evict_of_le h]
      exact ⟨h, fun _ _ => id⟩
    · obtain ⟨key, -, hinside, hevict⟩ := evict_of_lt order (Nat.not_le.mp h)
      have hlength := KeyMap.length_erase hinside
      obtain ⟨hbound, hkept⟩ := ih _ (by omega) (responses.erase key) rfl
      rw [hevict]
      refine ⟨hbound, fun id stored hget => ?_⟩
      have herased := hkept id stored hget
      rw [KeyMap.get_erase] at herased
      split at herased
      · cases herased
      · exact herased

/-- The answer that was just stored is still there unless the store was full of
others and the map yields the new id first. -/
theorem remember_response_iff (order : IterationOrder) (responses : Responses) (id : Text)
    (stored : StoredResponse) (h : responses.entries.length ≤ maxResponses) :
    ((rememberResponse order responses id stored).entries.length ≤ maxResponses ∧
        (rememberResponse order responses id stored).get id = some stored) ↔
      ((responses.get id).isSome ∨ responses.entries.length < maxResponses ∨
        order.first (responses.insert id stored) ≠ some id) := by
  have hstored : (responses.insert id stored).get id = some stored := by
    rw [KeyMap.get_insert, if_pos rfl]
  have hlength := responses.length_insert id stored
  refine (and_iff_right (evict_spec order _).1).trans ?_
  rw [rememberResponse]
  by_cases hroom : (responses.insert id stored).entries.length ≤ maxResponses
  · rw [evict_of_le hroom]
    refine iff_of_true hstored ?_
    by_cases hinside : (responses.get id).isSome
    · exact .inl hinside
    · rw [if_neg hinside] at hlength
      exact .inr (.inl (by omega))
  · have hnew : ¬ (responses.get id).isSome := by
      intro hinside
      rw [if_pos hinside] at hlength
      omega
    rw [if_neg hnew] at hlength
    obtain ⟨key, hfirst, hinside, hevict⟩ := evict_of_lt order (Nat.not_le.mp hroom)
    have herase := KeyMap.length_erase hinside
    rw [hevict, evict_of_le (by omega), hfirst, KeyMap.get_erase, hstored]
    by_cases hkey : id = key
    · subst hkey
      simp only [if_true, reduceCtorEq, ne_eq, not_true_eq_false, or_false, false_iff, not_or]
      exact ⟨hnew, by omega⟩
    · simp [hkey, Ne.symm hkey]

def yieldsFirst (id : Text) : IterationOrder where
  first responses :=
    if (responses.get id).isSome then some id else responses.entries.head?.map (·.1)
  inside responses key h := by
    split at h
    · rename_i hinside
      cases h
      exact hinside
    · obtain ⟨e, he, rfl⟩ := Option.map_eq_some_iff.mp h
      exact Option.isSome_iff_exists.mpr
        ⟨e.2, KeyMap.get_eq_some.mpr (List.mem_of_head? he)⟩
  total responses h := by
    split at h
    · cases h
    · simpa using h

def responseId (n : Nat) : Text :=
  "resp_".toList ++ [Nat.digitChar (n / 16), Nat.digitChar (n % 16)]

def blankResponse : StoredResponse := ⟨.null, .append none [] .null⟩

theorem digitChar_lt {m n : Nat} (h : m < n) (hn : n < 16) : Nat.digitChar m < Nat.digitChar n := by
  have hall : ∀ n : Fin 16, ∀ m : Fin n, Nat.digitChar m < Nat.digitChar n := by decide +kernel
  exact hall ⟨n, hn⟩ ⟨m, h⟩

theorem responseId_lt {m n : Nat} (h : m < n) (hn : n < 256) : responseId m < responseId n := by
  refine List.append_left_lt ?_
  rcases Nat.lt_or_ge (m / 16) (n / 16) with hhigh | hhigh
  · exact List.Lex.rel (digitChar_lt hhigh (by omega))
  · have hsame : m / 16 = n / 16 := by omega
    rw [hsame]
    exact List.Lex.cons (List.Lex.rel (digitChar_lt (by omega) (by omega)))

def fullStore : Responses where
  entries := (List.range maxResponses).map fun n => (responseId n, blankResponse)
  sorted := by
    refine List.pairwise_map.mpr (List.Pairwise.imp_of_mem ?_ List.pairwise_lt_range)
    intro m n _ hn h
    have hn' : n < 128 := List.mem_range.mp hn
    exact responseId_lt h (by omega)

/-- A full store that yields an older answer first keeps the new one. -/
theorem remember_response_first :
    (rememberResponse (yieldsFirst (responseId 0)) fullStore (responseId 255)
        blankResponse).entries.length ≤ maxResponses ∧
      (rememberResponse (yieldsFirst (responseId 0)) fullStore (responseId 255)
        blankResponse).get (responseId 255) = some blankResponse := by
  have hlength : fullStore.entries.length ≤ maxResponses := by decide +kernel
  have hfirst : (yieldsFirst (responseId 0)).first
      (fullStore.insert (responseId 255) blankResponse) ≠ some (responseId 255) := by
    decide +kernel
  exact (remember_response_iff (yieldsFirst (responseId 0)) fullStore (responseId 255)
    blankResponse hlength).mpr (.inr (.inr hfirst))

/-- In a full store the new answer itself may be the one that is evicted. -/
theorem full_store_forgets : ∃ (order : IterationOrder) (responses : Responses) (id : Text)
    (stored : StoredResponse), responses.entries.length ≤ maxResponses ∧
      (rememberResponse order responses id stored).get id = none := by
  have hlength : fullStore.entries.length ≤ maxResponses := by decide +kernel
  have hfull : maxResponses <
      (fullStore.insert (responseId 255) blankResponse).entries.length := by decide +kernel
  have hroom : ((fullStore.insert (responseId 255) blankResponse).erase
      (responseId 255)).entries.length ≤ maxResponses := by decide +kernel
  refine ⟨yieldsFirst (responseId 255), fullStore, responseId 255, blankResponse, hlength, ?_⟩
  have hinserted : ((fullStore.insert (responseId 255) blankResponse).get (responseId 255)) =
      some blankResponse := by
    rw [KeyMap.get_insert, if_pos rfl]
  have hfirst : (yieldsFirst (responseId 255)).first
      (fullStore.insert (responseId 255) blankResponse) = some (responseId 255) := by
    simp [yieldsFirst, hinserted]
  obtain ⟨key, hkey, -, hevict⟩ := evict_of_lt (yieldsFirst (responseId 255)) hfull
  obtain rfl := Option.some.inj (hfirst.symm.trans hkey)
  rw [rememberResponse, hevict, evict_of_le hroom, KeyMap.get_erase, if_pos rfl]

end AioLM.Gateway
