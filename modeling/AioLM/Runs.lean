import Mathlib.Algebra.Order.Ring.Int
import Mathlib.Data.List.Basic

/-!
Runs of a machine given by a partial step function, and the induction that
turns what one step preserves into what a whole run preserves.
-/

set_option autoImplicit false

namespace AioLM.Runs

variable {σ α : Type}

/-- States reached from `s₀` by steps that each meet `ok` in the state they
start from. With `ok` always true these are all reachable states. -/
inductive Reaches (step : σ → α → Option σ) (ok : σ → α → Prop) (s₀ : σ) : σ → Prop
  | start : Reaches step ok s₀ s₀
  | next {s s' : σ} {a : α} : Reaches step ok s₀ s → ok s a →
      step s a = some s' → Reaches step ok s₀ s'

theorem Reaches.invariant {step : σ → α → Option σ} {ok : σ → α → Prop} {s₀ s : σ}
    {Inv : σ → Prop} (h : Reaches step ok s₀ s) (hstart : Inv s₀)
    (hstep : ∀ s s' a, Inv s → ok s a → step s a = some s' → Inv s') : Inv s := by
  induction h with
  | start => exact hstart
  | next _ hok hs ih => exact hstep _ _ _ ih hok hs

theorem Reaches.mono {step : σ → α → Option σ} {ok ok' : σ → α → Prop} {s₀ s : σ}
    (h : Reaches step ok s₀ s) (himp : ∀ s a, ok s a → ok' s a) :
    Reaches step ok' s₀ s := by
  induction h with
  | start => exact .start
  | next _ hok hs ih => exact .next ih (himp _ _ hok) hs

theorem Reaches.trans {step : σ → α → Option σ} {ok : σ → α → Prop} {s₀ s₁ s : σ}
    (h₁ : Reaches step ok s₀ s₁) (h₂ : Reaches step ok s₁ s) : Reaches step ok s₀ s := by
  induction h₂ with
  | start => exact h₁
  | next _ hok hs ih => exact .next ih hok hs

def run (step : σ → α → Option σ) : σ → List α → Option σ
  | s, [] => some s
  | s, a :: as =>
    match step s a with
    | some s' => run step s' as
    | none => none

theorem Reaches.of_run {step : σ → α → Option σ} {ok : σ → α → Prop} (as : List α)
    (hok : ∀ s, ∀ a ∈ as, ok s a) {s s' : σ} (h : run step s as = some s') :
    Reaches step ok s s' := by
  induction as generalizing s with
  | nil =>
    simp only [run, Option.some.injEq] at h
    subst h
    exact .start
  | cons a as ih =>
    cases hs : step s a with
    | none => simp [run, hs] at h
    | some t =>
      have ht : run step t as = some s' := by simpa [run, hs] using h
      have hrest := ih (fun s b hb => hok s b (List.mem_cons_of_mem a hb)) ht
      exact (Reaches.next .start (hok s a (by simp)) hs).trans hrest

theorem Reaches.of_run_passed {step : σ → α → Option σ} {ok : σ → α → Prop} {as : List α} {s s' : σ}
    (hok : ∀ before a after, as = before ++ a :: after →
      ∀ t, run step s before = some t → ok t a)
    (h : run step s as = some s') : Reaches step ok s s' := by
  induction as generalizing s with
  | nil =>
    simp only [run, Option.some.injEq] at h
    subst h
    exact .start
  | cons a as ih =>
    cases hs : step s a with
    | none => simp [run, hs] at h
    | some t =>
      have ht : run step t as = some s' := by simpa [run, hs] using h
      have hfirst : ok s a := hok [] a as rfl s rfl
      refine (Reaches.next .start hfirst hs).trans (ih (fun before b after hsplit u hu => ?_) ht)
      exact hok (a :: before) b after (by rw [hsplit]; rfl) u (by simpa [run, hs] using hu)

theorem Reaches.of_checked_run {step : σ → α → Option σ} {ok : σ → α → Bool} {as : List α}
    {s s' : σ} (h : run (fun t a => if ok t a then step t a else none) s as = some s') :
    Reaches step (fun t a => ok t a = true) s s' := by
  induction as generalizing s with
  | nil =>
    simp only [run, Option.some.injEq] at h
    subst h
    exact .start
  | cons a as ih =>
    by_cases hok : ok s a = true
    · cases hs : step s a with
      | none => simp [run, hok, hs] at h
      | some t =>
        have hfirst : Reaches step (fun t a => ok t a = true) s t := .next .start hok hs
        exact hfirst.trans (ih (by simpa [run, hok, hs] using h))
    · simp [run, hok] at h

end AioLM.Runs
