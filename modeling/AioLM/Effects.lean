import Mathlib.Algebra.Order.Ring.Int
import Mathlib.Data.List.Forall2

/-!
Computations that may fail and keep the state they failed in: what every run of
one does to the state, and what a successful run over a list returns.
-/

set_option autoImplicit false

namespace AioLM

abbrev Effect (ε σ : Type) : Type → Type := ExceptT ε (StateM σ)

namespace Effect

variable {ε σ α β : Type}

def exec (x : Effect ε σ α) (s : σ) : Except ε α × σ := x.run.run s

def ofExcept (x : Except ε α) : Effect ε σ α := ExceptT.mk (pure x)

/-- A condition of going on. -/
def demand (p : Prop) [Decidable p] (error : ε) : Effect ε σ Unit :=
  ofExcept (if p then .ok () else .error error)

@[simp] theorem exec_pure (a : α) (s : σ) : exec (pure a : Effect ε σ α) s = (.ok a, s) := rfl

@[simp] theorem exec_ofExcept (x : Except ε α) (s : σ) : exec (ofExcept x) s = (x, s) := rfl

@[simp] theorem exec_throw (e : ε) (s : σ) :
    exec (throw e : Effect ε σ α) s = (.error e, s) := rfl

@[simp] theorem exec_get (s : σ) : exec (get : Effect ε σ σ) s = (.ok s, s) := rfl

@[simp] theorem exec_modify (f : σ → σ) (s : σ) :
    exec (modify f : Effect ε σ PUnit) s = (.ok ⟨⟩, f s) := rfl

theorem demand_ok {p : Prop} [Decidable p] {error : ε} {s t : σ} {u : Unit} :
    exec (demand p error) s = (.ok u, t) ↔ p ∧ t = s := by
  rw [demand, exec_ofExcept]
  by_cases hp : p <;> simp [hp, eq_comm]

theorem exec_bind (x : Effect ε σ α) (f : α → Effect ε σ β) (s : σ) :
    exec (x >>= f) s =
      match exec x s with
      | (.ok a, t) => exec (f a) t
      | (.error e, t) => (.error e, t) := by
  unfold exec ExceptT.run StateT.run
  simp only [bind, ExceptT.bind, ExceptT.mk, StateT.bind, ExceptT.bindCont]
  cases x s with
  | mk result t =>
    cases result with
    | error e => rfl
    | ok a => rfl

theorem exec_map (f : α → β) (x : Effect ε σ α) (s : σ) :
    exec (f <$> x) s = ((exec x s).1.map f, (exec x s).2) := by
  have hmap : f <$> x = x >>= fun a => pure (f a) := (bind_pure_comp f x).symm
  rw [hmap, exec_bind]
  cases exec x s with
  | mk result t => cases result <;> rfl

theorem bind_ok {x : Effect ε σ α} {f : α → Effect ε σ β} {s u : σ} {b : β} :
    exec (x >>= f) s = (.ok b, u) ↔
      ∃ a t, exec x s = (.ok a, t) ∧ exec (f a) t = (.ok b, u) := by
  rw [exec_bind]
  cases h : exec x s with
  | mk result t => cases result <;> simp

theorem bind_error {x : Effect ε σ α} {f : α → Effect ε σ β} {s u : σ} {e : ε} :
    exec (x >>= f) s = (.error e, u) ↔ exec x s = (.error e, u) ∨
      ∃ a t, exec x s = (.ok a, t) ∧ exec (f a) t = (.error e, u) := by
  rw [exec_bind]
  cases h : exec x s with
  | mk result t => cases result <;> simp

/-- A failure taken as a value. -/
def observe (x : Effect ε σ α) : Effect ε σ (Except ε α) := ExceptT.lift x.run

def mapError (f : ε → ε) (x : Effect ε σ α) : Effect ε σ α :=
  ExceptT.mk ((·.mapError f) <$> x.run)

@[simp] theorem exec_observe (x : Effect ε σ α) (s : σ) :
    exec (observe x) s = (.ok (exec x s).1, (exec x s).2) := rfl

@[simp] theorem exec_mapError (f : ε → ε) (x : Effect ε σ α) (s : σ) :
    exec (mapError f x) s = ((exec x s).1.mapError f, (exec x s).2) := rfl

theorem observe_eq {x : Effect ε σ α} {s t : σ} {result : Except ε α} :
    exec (observe x) s = (.ok result, t) ↔ exec x s = (result, t) := by
  rw [exec_observe]
  cases exec x s
  simp

theorem mapError_ok {f : ε → ε} {x : Effect ε σ α} {s t : σ} {a : α} :
    exec (mapError f x) s = (.ok a, t) ↔ exec x s = (.ok a, t) := by
  rw [exec_mapError]
  cases exec x s with
  | mk result u => cases result <;> simp [Except.mapError]

theorem ofExcept_ok {x : Except ε α} {s t : σ} {a : α} :
    exec (ofExcept x) s = (.ok a, t) ↔ x = .ok a ∧ t = s := by
  simp [eq_comm]

/-- A run of two steps ends in the first when it fails, else in the second. -/
theorem bind_cases {x : Effect ε σ α} {f : α → Effect ε σ β} {s : σ}
    {P : Except ε β × σ → Prop} (herror : ∀ e t, exec x s = (.error e, t) → P (.error e, t))
    (hok : ∀ a t, exec x s = (.ok a, t) → P (exec (f a) t)) : P (exec (x >>= f) s) := by
  rw [exec_bind]
  cases h : exec x s with
  | mk result t =>
    cases result with
    | error e => exact herror e t h
    | ok a => exact hok a t h

/-- Every run, also a failing one, relates the state before to the state after. -/
def Moves (R : σ → σ → Prop) (x : Effect ε σ α) : Prop := ∀ s, R s (exec x s).2

section Moves

variable {R : σ → σ → Prop}

theorem Moves.run {x : Effect ε σ α} (hx : Moves R x) {s t : σ} {result : Except ε α}
    (h : exec x s = (result, t)) : R s t := by
  have hmoved := hx s
  rwa [h] at hmoved

theorem Moves.bind {x : Effect ε σ α} {f : α → Effect ε σ β} (hx : Moves R x)
    (hf : ∀ a, Moves R (f a)) (htrans : ∀ s t u, R s t → R t u → R s u) : Moves R (x >>= f) := by
  intro s
  have hfirst := hx s
  rw [exec_bind]
  cases h : exec x s with
  | mk result t =>
    rw [h] at hfirst
    cases result with
    | error e => exact hfirst
    | ok a => exact htrans s t _ hfirst (hf a t)

theorem Moves.pure (hrefl : ∀ s, R s s) (a : α) : Moves R (Pure.pure a : Effect ε σ α) := hrefl

theorem Moves.throw (hrefl : ∀ s, R s s) (e : ε) :
    Moves R (MonadExcept.throw e : Effect ε σ α) := hrefl

theorem Moves.ofExcept (hrefl : ∀ s, R s s) (x : Except ε α) :
    Moves R (Effect.ofExcept x : Effect ε σ α) := hrefl

theorem Moves.demand (hrefl : ∀ s, R s s) (p : Prop) [Decidable p] (error : ε) :
    Moves R (Effect.demand p error : Effect ε σ Unit) := hrefl

theorem Moves.map {x : Effect ε σ α} (hx : Moves R x) (f : α → β) : Moves R (f <$> x) := by
  intro s
  rw [exec_map]
  exact hx s

theorem Moves.observe {x : Effect ε σ α} (hx : Moves R x) : Moves R (Effect.observe x) := hx

theorem Moves.mapError {x : Effect ε σ α} (hx : Moves R x) (f : ε → ε) :
    Moves R (Effect.mapError f x) := hx

theorem Moves.ite {x y : Effect ε σ α} {p : Prop} [Decidable p] (hx : Moves R x)
    (hy : Moves R y) : Moves R (if p then x else y) := by
  split
  · exact hx
  · exact hy

theorem Moves.forM {f : α → Effect ε σ PUnit} {xs : List α} (hf : ∀ x ∈ xs, Moves R (f x))
    (hrefl : ∀ s, R s s) (htrans : ∀ s t u, R s t → R t u → R s u) : Moves R (xs.forM f) := by
  induction xs with
  | nil => exact hrefl
  | cons x xs ih =>
    obtain ⟨hx, hxs⟩ := List.forall_mem_cons.mp hf
    exact hx.bind (fun _ => ih hxs) htrans

theorem Moves.mono {S : σ → σ → Prop} {x : Effect ε σ α} (hx : Moves R x)
    (h : ∀ s t, R s t → S s t) : Moves S x := fun s => h _ _ (hx s)

theorem Moves.mapM {f : α → Effect ε σ β} {xs : List α} (hf : ∀ x ∈ xs, Moves R (f x))
    (hrefl : ∀ s, R s s) (htrans : ∀ s t u, R s t → R t u → R s u) : Moves R (xs.mapM f) := by
  induction xs with
  | nil => exact hrefl
  | cons x xs ih =>
    obtain ⟨hx, hxs⟩ := List.forall_mem_cons.mp hf
    rw [List.mapM_cons]
    exact hx.bind (fun y => (ih hxs).bind (fun ys => hrefl) htrans) htrans

/-- What a successful pass over a list leaves: each result keeps its relation to
its item while the rest of the list is worked on. -/
theorem mapM_ok {f : α → Effect ε σ β} {P : α → β → σ → Prop} {xs : List α} {s u : σ}
    {ys : List β} (hf : ∀ x ∈ xs, Moves R (f x)) (hrefl : ∀ s, R s s)
    (htrans : ∀ s t u, R s t → R t u → R s u) (hlater : ∀ x y s t, R s t → P x y s → P x y t)
    (hstep : ∀ x ∈ xs, ∀ s y t, exec (f x) s = (.ok y, t) → P x y t)
    (h : exec (xs.mapM f) s = (.ok ys, u)) : List.Forall₂ (fun x y => P x y u) xs ys := by
  induction xs generalizing s ys with
  | nil =>
    cases h
    exact .nil
  | cons x xs ih =>
    obtain ⟨hx, hxs⟩ := List.forall_mem_cons.mp hf
    obtain ⟨hone, hmore⟩ := List.forall_mem_cons.mp hstep
    rw [List.mapM_cons, bind_ok] at h
    obtain ⟨y, t, hy, hrest⟩ := h
    obtain ⟨ys', t', hys, hlast⟩ := bind_ok.mp hrest
    cases hlast
    have hmoved : R t u := by
      have hall := Moves.mapM hxs hrefl htrans t
      rwa [hys] at hall
    exact .cons (hlater x y t u hmoved (hone s y t hy)) (ih hxs hmore hys)

end Moves

end Effect

end AioLM
