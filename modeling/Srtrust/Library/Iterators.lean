import Mathlib.Tactic

/-! Iterators given by a state and a function that produces the next item or ends. `Yields` says
which items come out before the end, so that it also says that the end is reached; `collect` runs
the iterator for a bounded number of items. An iterator that makes progress in some measure ends,
and the bound is the measure of its start. -/
namespace Iterators
set_option autoImplicit false

variable {σ α : Type*}

/-- Started in `s`, the iterator produces exactly `xs` and then ends. -/
inductive Yields (next : σ → Option (α × σ)) : σ → List α → Prop
  | done {s : σ} (h : next s = none) : Yields next s []
  | turn {s s' : σ} {x : α} {xs : List α} (h : next s = some (x, s')) (rest : Yields next s' xs) :
      Yields next s (x :: xs)

/-- The first items, at most `fuel` of them. -/
def collect (next : σ → Option (α × σ)) : ℕ → σ → List α
  | 0, _ => []
  | fuel + 1, s =>
    match next s with
    | none => []
    | some (x, s') => x :: collect next fuel s'

variable {next : σ → Option (α × σ)}

theorem Yields.collect {s : σ} {xs : List α} (h : Yields next s xs) {fuel : ℕ}
    (hfuel : xs.length ≤ fuel) : collect next fuel s = xs := by
  induction h generalizing fuel with
  | done hnone =>
    cases fuel with
    | zero => rfl
    | succ fuel => simp only [Iterators.collect, hnone]
  | turn hsome _ ih =>
    cases fuel with
    | zero => simp at hfuel
    | succ fuel =>
      rw [List.length_cons] at hfuel
      simp only [Iterators.collect, hsome]
      rw [ih (by omega)]

/-- An iterator whose measure falls with every item ends, after at most that many items. -/
theorem yields_collect (measure : σ → ℕ)
    (hprogress : ∀ s x s', next s = some (x, s') → measure s' < measure s) (fuel : ℕ) (s : σ)
    (hfuel : measure s ≤ fuel) : Yields next s (collect next fuel s) := by
  induction fuel generalizing s with
  | zero =>
    cases hnext : next s with
    | none => exact .done hnext
    | some turn =>
      have hlt := hprogress s turn.1 turn.2 hnext
      omega
  | succ fuel ih =>
    cases hnext : next s with
    | none =>
      simp only [collect, hnext]
      exact .done hnext
    | some turn =>
      have hlt := hprogress s turn.1 turn.2 hnext
      simp only [collect, hnext]
      exact .turn hnext (ih turn.2 (by omega))

end Iterators
