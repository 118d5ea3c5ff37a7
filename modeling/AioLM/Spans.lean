import Mathlib.Algebra.Order.Ring.Int
import Mathlib.Data.List.Basic

/-!
Spans of positions in a list, and runs of spans that tile a stretch of it: each
begins where the one before it ends.
-/

set_option autoImplicit false

namespace AioLM

structure Span where
  start : Nat
  stop : Nat
  deriving DecidableEq

namespace Span

variable {α : Type}

def slice (span : Span) (xs : List α) : List α := (xs.drop span.start).take (span.stop - span.start)

def Contains (span : Span) (i : Nat) : Prop := span.start ≤ i ∧ i < span.stop

theorem getElem?_slice {span : Span} {xs : List α} {i : Nat} (h : span.Contains i) :
    (span.slice xs)[i - span.start]? = xs[i]? := by
  obtain ⟨hstart, hstop⟩ := h
  rw [slice, List.getElem?_take_of_lt (by omega), List.getElem?_drop,
    Nat.add_sub_cancel' hstart]

theorem slice_congr {span : Span} {xs ys : List α}
    (h : ∀ i, span.Contains i → xs[i]? = ys[i]?) : span.slice xs = span.slice ys := by
  refine List.ext_getElem? fun k => ?_
  by_cases hk : k < span.stop - span.start
  · have hat : span.Contains (span.start + k) := ⟨by omega, by omega⟩
    have hsame := h _ hat
    rw [← getElem?_slice hat, ← getElem?_slice hat, Nat.add_sub_cancel_left] at hsame
    exact hsame
  · have hlength (zs : List α) : (span.slice zs).length ≤ k := by
      rw [slice, List.length_take]
      omega
    rw [List.getElem?_eq_none (hlength xs), List.getElem?_eq_none (hlength ys)]

/-- Non-empty spans from `start` to `stop` without a gap. -/
def Tiles (start stop : Nat) : List Span → Prop
  | [] => start = stop
  | span :: spans => span.start = start ∧ start < span.stop ∧ Tiles span.stop stop spans

variable {start stop : Nat} {spans : List Span}

theorem Tiles.le (h : Tiles start stop spans) : start ≤ stop := by
  induction spans generalizing start with
  | nil => exact Nat.le_of_eq h
  | cons span spans ih =>
    obtain ⟨-, hlt, hrest⟩ := h
    have hle := ih hrest
    omega

theorem Tiles.bounds (h : Tiles start stop spans) {span : Span} (hspan : span ∈ spans) :
    start ≤ span.start ∧ span.start < span.stop ∧ span.stop ≤ stop := by
  induction spans generalizing start with
  | nil => simp at hspan
  | cons first spans ih =>
    obtain ⟨hstart, hlt, hrest⟩ := h
    have hle := hrest.le
    rcases List.mem_cons.mp hspan with rfl | hspan
    · omega
    · have hbounds := ih hrest hspan
      omega

theorem Tiles.pairwise (h : Tiles start stop spans) :
    spans.Pairwise fun a b => a.stop ≤ b.start := by
  induction spans generalizing start with
  | nil => exact .nil
  | cons first spans ih =>
    obtain ⟨-, -, hrest⟩ := h
    exact .cons (fun span hspan => (hrest.bounds hspan).1) (ih hrest)

theorem Tiles.existsUnique (h : Tiles start stop spans) {i : Nat} (hstart : start ≤ i)
    (hstop : i < stop) : ∃! k : Nat, ∃ span, spans[k]? = some span ∧ span.Contains i := by
  induction spans generalizing start with
  | nil =>
    have hnone : start = stop := h
    omega
  | cons first spans ih =>
    obtain ⟨hfirst, hlt, hrest⟩ := h
    by_cases hin : i < first.stop
    · refine ⟨0, ⟨first, rfl, by omega, hin⟩, ?_⟩
      intro k hk
      obtain ⟨span, hspan, hcontains⟩ := hk
      cases k with
      | zero => rfl
      | succ k =>
        have hbounds := hrest.bounds (List.mem_of_getElem? hspan)
        obtain ⟨hle, -⟩ := hcontains
        omega
    · obtain ⟨k, ⟨span, hspan, hcontains⟩, hunique⟩ := ih hrest (by omega)
      refine ⟨k + 1, ⟨span, hspan, hcontains⟩, ?_⟩
      intro l hl
      obtain ⟨other, hother, hcontained⟩ := hl
      cases l with
      | zero =>
        obtain rfl : first = other := Option.some.inj hother
        exact absurd hcontained.2 hin
      | succ l => rw [hunique l ⟨other, hother, hcontained⟩]

end Span

end AioLM
