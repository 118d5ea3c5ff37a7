import Mathlib.Algebra.Order.Ring.Int
import Mathlib.Data.List.Forall2

/-!
Fallible computations that check conditions in order and stop at the first
failure, with the inversion lemmas that take a successful run apart.
-/

set_option autoImplicit false

namespace AioLM.Fallible

variable {ε α β σ : Type}

/-- A guard with its message. -/
def require (p : Prop) [Decidable p] (error : ε) : Except ε Unit :=
  if p then .ok () else .error error

@[simp] theorem require_eq_ok {p : Prop} [Decidable p] {error : ε} {u : Unit} :
    require p error = .ok u ↔ p := by
  simp [require]

/-- A value that must be there, or its message. -/
def orError (x : Option α) (error : ε) : Except ε α :=
  match x with
  | some a => .ok a
  | none => .error error

@[simp] theorem orError_some (a : α) (error : ε) : orError (some a) error = .ok a := rfl

@[simp] theorem orError_eq_ok {x : Option α} {error : ε} {a : α} :
    orError x error = .ok a ↔ x = some a := by
  cases x <;> simp [orError]

theorem bind_eq_ok {x : Except ε α} {f : α → Except ε β} {b : β} :
    (x >>= f) = .ok b ↔ ∃ a, x = .ok a ∧ f a = .ok b := by
  cases x with
  | error e => simp [bind, Except.bind]
  | ok a => simp [bind, Except.bind]

theorem exists_of_isOk {x : Except ε α} (h : x.isOk = true) : ∃ a, x = .ok a := by
  cases x with
  | error e => cases h
  | ok a => exact ⟨a, rfl⟩

theorem forM_eq_ok {f : α → Except ε Unit} {xs : List α} :
    xs.forM f = .ok () ↔ ∀ x ∈ xs, f x = .ok () := by
  induction xs with
  | nil => simp [List.forM, pure, Except.pure]
  | cons x xs ih =>
    have hcons : (x :: xs).forM f = (f x >>= fun _ => xs.forM f) := rfl
    rw [hcons, bind_eq_ok, List.forall_mem_cons, ← ih]
    exact ⟨fun ⟨_, hx, hxs⟩ => ⟨hx, hxs⟩, fun ⟨hx, hxs⟩ => ⟨(), hx, hxs⟩⟩

theorem mapM_eq_ok {f : α → Except ε β} {xs : List α} {ys : List β} :
    xs.mapM f = .ok ys ↔ List.Forall₂ (fun x y => f x = .ok y) xs ys := by
  induction xs generalizing ys with
  | nil => simp [pure, Except.pure, eq_comm]
  | cons x xs ih =>
    cases ys with
    | nil => simp [bind_eq_ok, pure, Except.pure]
    | cons y ys => simp [bind_eq_ok, pure, Except.pure, ih, and_comm]

theorem mem_of_mapM {f : α → Except ε β} {xs : List α} {ys : List β} {y : β}
    (h : xs.mapM f = .ok ys) (hy : y ∈ ys) : ∃ x ∈ xs, f x = .ok y := by
  obtain ⟨i, hi, rfl⟩ := List.mem_iff_getElem.mp hy
  have hall := mapM_eq_ok.mp h
  exact ⟨_, List.getElem_mem (hall.length_eq.symm ▸ hi), hall.get _ hi⟩

theorem mapM_flatten {f : α → Except ε (List β)} {g : α → List β} {P : α → Prop}
    (hf : ∀ x y, f x = .ok y → y = g x ∧ P x) {xs : List α} {ys : List (List β)}
    (h : xs.mapM f = .ok ys) : ys.flatten = xs.flatMap g ∧ ∀ x ∈ xs, P x := by
  rw [mapM_eq_ok] at h
  induction h with
  | nil => simp
  | @cons x y xs ys hx hxs ih =>
    obtain ⟨rfl, hp⟩ := hf x y hx
    rw [List.flatten_cons, List.flatMap_cons, ih.1]
    exact ⟨rfl, List.forall_mem_cons.mpr ⟨hp, ih.2⟩⟩

/-- When a pass over what became of the items gives each the answer wanted for it. -/
theorem mapM_eq_map_iff {γ : Type} {f : β → Except ε γ} {g : α → γ} {Q : α → Prop}
    {xs : List α} {ys : List β}
    (h : List.Forall₂ (fun x y => f y = .ok (g x) ↔ Q x) xs ys) :
    ys.mapM f = .ok (xs.map g) ↔ ∀ x ∈ xs, Q x := by
  rw [mapM_eq_ok]
  induction h with
  | nil => simp
  | cons hx hxs ih => rw [List.map_cons, List.forall₂_cons, List.forall_mem_cons, hx, ih]

end AioLM.Fallible
