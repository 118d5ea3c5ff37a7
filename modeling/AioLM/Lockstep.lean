import Mathlib.Algebra.Order.Ring.Int

/-!
Computations with a state that may fail: loops over them, and two of them run in
lockstep, with a relation between the states before and one between the results
and states after.
-/

set_option autoImplicit false

namespace AioLM

variable {σ τ ε α β γ δ : Type}

/-- `n` times a step on a value carried along. -/
def loopM {m : Type → Type} [Monad m] (step : α → m α) : Nat → α → m α
  | 0, a => pure a
  | n + 1, a => step a >>= loopM step n

/-- The results of `n` runs. -/
def collectM {m : Type → Type} [Monad m] (x : m α) : Nat → m (List α)
  | 0 => pure []
  | n + 1 => x >>= fun a => collectM x n >>= fun as => pure (a :: as)

theorem run_bind_ok {x : StateT σ (Except ε) α} {f : α → StateT σ (Except ε) β} {s s' : σ} {a : α}
    (h : x s = .ok (a, s')) : (x >>= f) s = f a s' := by
  change (x s >>= fun p => f p.1 p.2) = _
  rw [h]
  rfl

theorem run_bind_eq_ok {x : StateT σ (Except ε) α} {f : α → StateT σ (Except ε) β} {s s'' : σ}
    {b : β} (h : (x >>= f) s = .ok (b, s'')) :
    ∃ a s', x s = .ok (a, s') ∧ f a s' = .ok (b, s'') := by
  change (x s >>= fun p => f p.1 p.2) = _ at h
  match x s, h with
  | .ok (a, s'), h => exact ⟨a, s', rfl, h⟩
  | .error _, h => cases h

theorem length_collectM {x : StateT σ (Except ε) α} {n : Nat} {s s' : σ} {as : List α}
    (h : collectM x n s = .ok (as, s')) : as.length = n := by
  induction n generalizing s as s' with
  | zero =>
    cases h
    rfl
  | succ n ih =>
    obtain ⟨a, s₁, -, hrest⟩ := run_bind_eq_ok h
    obtain ⟨more, s₂, hmore, hlast⟩ := run_bind_eq_ok hrest
    cases hlast
    rw [List.length_cons, ih hmore]

def Agree (Q : α → β → σ → τ → Prop) : Except ε (α × σ) → Except ε (β × τ) → Prop
  | .ok (a, s), .ok (b, t) => Q a b s t
  | .error e, .error e' => e = e'
  | _, _ => False

/-- From related states the two computations agree. -/
def Lockstep (P : σ → τ → Prop) (Q : α → β → σ → τ → Prop) (x : StateT σ (Except ε) α)
    (y : StateT τ (Except ε) β) : Prop :=
  ∀ s t, P s t → Agree Q (x s) (y t)

namespace Agree

variable {Q Q' : α → β → σ → τ → Prop}

theorem mono (hQ : ∀ a b s t, Q a b s t → Q' a b s t) {x : Except ε (α × σ)}
    {y : Except ε (β × τ)} (h : Agree Q x y) : Agree Q' x y := by
  match x, y, h with
  | .ok (a, s), .ok (b, t), h => exact hQ a b s t h
  | .error _, .error _, h => exact h

theorem bind {R : γ → δ → σ → τ → Prop} {x : Except ε (α × σ)} {y : Except ε (β × τ)}
    (h : Agree Q x y) {f : α × σ → Except ε (γ × σ)} {g : β × τ → Except ε (δ × τ)}
    (hf : ∀ a b s t, Q a b s t → Agree R (f (a, s)) (g (b, t))) :
    Agree R (x >>= f) (y >>= g) := by
  match x, y, h with
  | .ok (a, s), .ok (b, t), h => exact hf a b s t h
  | .error _, .error _, h => exact h

theorem ok_left {x : Except ε (α × σ)} {y : Except ε (β × τ)} (h : Agree Q x y) {a : α} {s : σ}
    (hx : x = .ok (a, s)) : ∃ b t, y = .ok (b, t) ∧ Q a b s t := by
  rw [hx] at h
  match y, h with
  | .ok (b, t), h => exact ⟨b, t, rfl, h⟩

theorem ok_right {x : Except ε (α × σ)} {y : Except ε (β × τ)} (h : Agree Q x y) {b : β} {t : τ}
    (hy : y = .ok (b, t)) : ∃ a s, x = .ok (a, s) ∧ Q a b s t := by
  rw [hy] at h
  match x, h with
  | .ok (a, s), h => exact ⟨a, s, rfl, h⟩

theorem error_right {x : Except ε (α × σ)} {y : Except ε (β × τ)} (h : Agree Q x y) {e : ε}
    (hy : y = .error e) : x = .error e := by
  rw [hy] at h
  match x, h with
  | .error _, h => exact congrArg _ h

end Agree

namespace Lockstep

variable {P P' : σ → τ → Prop} {Q Q' : α → β → σ → τ → Prop}

theorem mono (hP : ∀ s t, P' s t → P s t) (hQ : ∀ a b s t, Q a b s t → Q' a b s t)
    {x : StateT σ (Except ε) α} {y : StateT τ (Except ε) β} (h : Lockstep P Q x y) :
    Lockstep P' Q' x y :=
  fun s t hst => (h s t (hP s t hst)).mono hQ

theorem pure {a : α} {b : β} (h : ∀ s t, P s t → Q a b s t) :
    Lockstep P Q (Pure.pure a : StateT σ (Except ε) α) (Pure.pure b) :=
  fun s t hst => h s t hst

theorem bind {R : γ → δ → σ → τ → Prop} {x : StateT σ (Except ε) α} {y : StateT τ (Except ε) β}
    (h : Lockstep P Q x y) {f : α → StateT σ (Except ε) γ} {g : β → StateT τ (Except ε) δ}
    (hf : ∀ a b, Lockstep (Q a b) R (f a) (g b)) : Lockstep P R (x >>= f) (y >>= g) :=
  fun s t hst => (h s t hst).bind fun a b s' t' hab => hf a b s' t' hab

theorem bind_left {R : γ → δ → σ → τ → Prop} {x : StateT σ (Except ε) α} {b : β}
    (h : Lockstep P Q x (Pure.pure b)) {f : α → StateT σ (Except ε) γ}
    {y : StateT τ (Except ε) δ} (hf : ∀ a, Lockstep (Q a b) R (f a) y) :
    Lockstep P R (x >>= f) y := by
  intro s t hst
  have hx := h s t hst
  match hrun : x s, hx with
  | .ok (a, s'), hx =>
    rw [run_bind_ok hrun]
    exact hf a s' t hx

theorem map_right {R : α → δ → σ → τ → Prop} {x : StateT σ (Except ε) α}
    {y : StateT τ (Except ε) β} (h : Lockstep P Q x y) {g : β → δ}
    (hg : ∀ a b s t, Q a b s t → R a (g b) s t) :
    Lockstep P R x (y >>= fun b => Pure.pure (g b)) := by
  intro s t hst
  have hxy := h s t hst
  have hbind : (y >>= fun b => (Pure.pure (g b) : StateT τ (Except ε) δ)) t =
      y t >>= fun p => .ok (g p.1, p.2) := rfl
  rw [hbind]
  match x s, y t, hxy with
  | .ok (a, s'), .ok (b, t'), hxy => exact hg a b s' t' hxy
  | .error _, .error _, hxy => exact hxy

theorem ite {p : Prop} [Decidable p] {x x' : StateT σ (Except ε) α}
    {y y' : StateT τ (Except ε) β} (h : p → Lockstep P Q x y) (h' : ¬ p → Lockstep P Q x' y') :
    Lockstep P Q (if p then x else x') (if p then y else y') := by
  split
  · rename_i hp
    exact h hp
  · rename_i hp
    exact h' hp

theorem of_pre {p : Prop} {x : StateT σ (Except ε) α} {y : StateT τ (Except ε) β}
    (h : p → Lockstep P Q x y) : Lockstep (fun s t => p ∧ P s t) Q x y :=
  fun s t hst => h hst.1 s t hst.2

end Lockstep

end AioLM
