import AioLM.Framing

/-!
A log of lines that each end in a separator, with a torn piece of a further line behind it.
-/

set_option autoImplicit false

namespace AioLM.Framing

variable {α : Type} {sep : α}

def joinLines (sep : α) (log : List (List α)) : List α := log.flatMap (· ++ [sep])

@[simp] theorem joinLines_nil : joinLines sep [] = [] := rfl

@[simp] theorem joinLines_cons (line : List α) (log : List (List α)) :
    joinLines sep (line :: log) = line ++ sep :: joinLines sep log := by
  simp [joinLines]

variable (sep) in
theorem frames_joinLines [DecidableEq α] (log : List (List α)) (tail : List α)
    (hlog : ∀ line ∈ log, sep ∉ line) (htail : sep ∉ tail) :
    lines sep (joinLines sep log ++ tail) = log ∧ rest sep (joinLines sep log ++ tail) = tail := by
  induction log with
  | nil => exact ⟨lines_of_not_mem htail, rest_of_not_mem htail⟩
  | cons line log ih =>
    obtain ⟨hline, hmore⟩ := List.forall_mem_cons.mp hlog
    rw [joinLines_cons, List.append_assoc, List.cons_append, lines_line hline, rest_line hline,
      (ih hmore).1, (ih hmore).2]
    exact ⟨rfl, rfl⟩

end AioLM.Framing
