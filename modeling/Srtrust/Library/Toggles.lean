import Mathlib.Data.List.Perm.Basic

/-! Accumulators whose steps commute and undo themselves, as a running XOR does. What a list of steps has
put in, the same steps take out in any order; when one of them is left out, its own step is what remains. -/
namespace Toggles
set_option autoImplicit false

variable {α β : Type}

/-- Steps commute, and a step taken twice is none. -/
structure Toggle (op : β → α → β) : Prop where
  comm : ∀ b x y, op (op b x) y = op (op b y) x
  undo : ∀ b x, op (op b x) x = b

namespace Toggle
variable {op : β → α → β}

theorem foldl_step (h : Toggle op) (b : β) (x : α) (xs : List α) :
    xs.foldl op (op b x) = op (xs.foldl op b) x := by
  induction xs generalizing b with
  | nil => rfl
  | cons y ys ih =>
    rw [List.foldl_cons, List.foldl_cons, h.comm b x y]
    exact ih (op b y)

theorem foldl_undo (h : Toggle op) (b : β) (xs : List α) : xs.foldl op (xs.foldl op b) = b := by
  induction xs generalizing b with
  | nil => rfl
  | cons x xs ih =>
    rw [List.foldl_cons, List.foldl_cons, ← h.foldl_step, h.undo]
    exact ih b

/-- All members put in and all but one taken out. -/
theorem foldl_missing (h : Toggle op) (b : β) {x : α} {members present : List α}
    (hperm : members.Perm (x :: present)) : present.foldl op (members.foldl op b) = op b x := by
  have hmembers : members.foldl op b = (x :: present).foldl op b :=
    hperm.foldl_eq' (fun y _ z _ c => h.comm c y z) b
  rw [hmembers, List.foldl_cons]
  exact h.foldl_undo (op b x) present

end Toggle

end Toggles
