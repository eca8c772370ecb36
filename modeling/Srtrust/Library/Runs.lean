import Mathlib.Tactic

/-! Runs of a deterministic machine: a step function on states and inputs, the state a
list of inputs leads to, and guards that every input has to meet in the state it is
given in. The rules here are the two inductions every safety argument uses: an invariant
carried along a guarded run, and the guard of a run read off its prefixes. -/
namespace Runs
set_option autoImplicit false

variable {σ α : Type*}

/-- The state after the inputs `xs`, given one at a time. -/
def run (step : σ → α → σ) (s : σ) (xs : List α) : σ := xs.foldl step s

/-- Every input of the list meets `ok` in the state it is given in. -/
def Meets (step : σ → α → σ) (ok : σ → α → Prop) : σ → List α → Prop
  | _, [] => True
  | s, x :: xs => ok s x ∧ Meets step ok (step s x) xs

instance Meets.decidable (step : σ → α → σ) (ok : σ → α → Prop) [∀ s x, Decidable (ok s x)] :
    ∀ (s : σ) (xs : List α), Decidable (Meets step ok s xs)
  | _, [] => .isTrue trivial
  | s, x :: xs =>
    match decEq (decide (ok s x)) true, Meets.decidable step ok (step s x) xs with
    | .isTrue h, .isTrue h' => .isTrue ⟨of_decide_eq_true h, h'⟩
    | .isFalse h, _ => .isFalse fun hm => h (decide_eq_true hm.1)
    | _, .isFalse h' => .isFalse fun hm => h' hm.2

variable {step : σ → α → σ} {ok : σ → α → Prop}

@[simp] theorem run_nil (s : σ) : run step s [] = s := rfl

@[simp] theorem run_cons (s : σ) (x : α) (xs : List α) :
    run step s (x :: xs) = run step (step s x) xs := rfl

theorem run_append (s : σ) (xs ys : List α) :
    run step s (xs ++ ys) = run step (run step s xs) ys := by
  simp [run, List.foldl_append]

theorem meets_append (s : σ) (xs ys : List α) :
    Meets step ok s (xs ++ ys) ↔ Meets step ok s xs ∧ Meets step ok (run step s xs) ys := by
  induction xs generalizing s with
  | nil => simp [Meets]
  | cons x xs ih => simp [Meets, ih, and_assoc]

theorem Meets.mono {ok' : σ → α → Prop} (himp : ∀ s x, ok s x → ok' s x) {s : σ} {xs : List α}
    (h : Meets step ok s xs) : Meets step ok' s xs := by
  induction xs generalizing s with
  | nil => trivial
  | cons x xs ih => exact ⟨himp s x h.1, ih h.2⟩

theorem meets_of_forall (h : ∀ s x, ok s x) (s : σ) (xs : List α) : Meets step ok s xs := by
  induction xs generalizing s with
  | nil => trivial
  | cons x xs ih => exact ⟨h s x, ih _⟩

theorem meets_of_mem {fine : α → Prop} {xs : List α} (h : ∀ x ∈ xs, fine x) (s : σ) :
    Meets step (fun _ x => fine x) s xs := by
  induction xs generalizing s with
  | nil => trivial
  | cons x xs ih => exact ⟨h x List.mem_cons_self, ih (fun y hy => h y (List.mem_cons_of_mem x hy)) _⟩

theorem Meets.and {ok' : σ → α → Prop} {s : σ} {xs : List α} (h : Meets step ok s xs) (h' : Meets step ok' s xs) :
    Meets step (fun s x => ok s x ∧ ok' s x) s xs := by
  induction xs generalizing s with
  | nil => trivial
  | cons x xs ih => exact ⟨⟨h.1, h'.1⟩, ih h.2 h'.2⟩

/-- An invariant that holds at the start and that every guarded step keeps holds at the end. -/
theorem invariant {inv : σ → Prop} (hstep : ∀ s x, inv s → ok s x → inv (step s x))
    {s : σ} {xs : List α} (h0 : inv s) (hm : Meets step ok s xs) : inv (run step s xs) := by
  induction xs generalizing s with
  | nil => exact h0
  | cons x xs ih => exact ih (hstep s x h0 hm.1) hm.2

/-- What an invariant and the guard say about each step holds at every step of a guarded run. -/
theorem Meets.along {inv : σ → Prop} {ok' : σ → α → Prop}
    (hstep : ∀ s x, inv s → ok s x → inv (step s x)) (himp : ∀ s x, inv s → ok s x → ok' s x)
    {s : σ} {xs : List α} (h0 : inv s) (hm : Meets step ok s xs) : Meets step ok' s xs := by
  induction xs generalizing s with
  | nil => trivial
  | cons x xs ih => exact ⟨himp s x h0 hm.1, ih (hstep s x h0 hm.1) hm.2⟩

/-- A guard on what a machine projects to can be met there. -/
theorem Meets.lift {τ : Type*} {step' : τ → α → τ} (f : τ → σ)
    (hf : ∀ t x, f (step' t x) = step (f t) x) {t : τ} {xs : List α} (h : Meets step ok (f t) xs) :
    Meets step' (fun t x => ok (f t) x) t xs := by
  induction xs generalizing t with
  | nil => trivial
  | cons x xs ih => exact ⟨h.1, ih (by rw [hf]; exact h.2)⟩

/-! ## Counting steps -/

/-- The number of inputs that meet `hit` in the state they are given in. -/
def hits (step : σ → α → σ) (hit : σ → α → Prop) [∀ s x, Decidable (hit s x)] : σ → List α → ℕ
  | _, [] => 0
  | s, x :: xs => (if hit s x then 1 else 0) + hits step hit (step s x) xs

variable (hit : σ → α → Prop) [∀ s x, Decidable (hit s x)]

theorem hits_eq_zero_iff (s : σ) (xs : List α) :
    hits step hit s xs = 0 ↔ Meets step (fun s x => ¬ hit s x) s xs := by
  induction xs generalizing s with
  | nil => simp [hits, Meets]
  | cons x xs ih => by_cases h : hit s x <;> simp [hits, Meets, h, ih]

/-- A quantity that a guarded step raises exactly when it is a hit counts the hits. -/
theorem tally {inv : σ → Prop} (hinv : ∀ s x, inv s → ok s x → inv (step s x)) {f g : σ → ℕ}
    (hstep : ∀ s x, inv s → ok s x → f (step s x) + g s = f s + g (step s x) + if hit s x then 1 else 0)
    {s : σ} {xs : List α} (h0 : inv s) (hm : Meets step ok s xs) :
    f (run step s xs) + g s = f s + g (run step s xs) + hits step hit s xs := by
  induction xs generalizing s with
  | nil => simp [hits]
  | cons x xs ih =>
    have h1 := hstep s x h0 hm.1
    have h2 := ih (hinv s x h0 hm.1) hm.2
    rw [run_cons, hits]
    omega

/-- Where every hit leads into a set that guarded steps never leave, a run with a hit ends
there. -/
theorem absorbed (b : σ → Prop) {inv : σ → Prop} (hinv : ∀ s x, inv s → ok s x → inv (step s x))
    (henter : ∀ s x, inv s → ok s x → hit s x → b (step s x))
    (hkeep : ∀ s x, inv s → ok s x → b s → b (step s x))
    {s : σ} {xs : List α} (h0 : inv s) (hm : Meets step ok s xs) (hpos : hits step hit s xs ≠ 0) :
    b (run step s xs) := by
  induction xs generalizing s with
  | nil => exact absurd rfl hpos
  | cons x xs ih =>
    have h1 := hinv s x h0 hm.1
    by_cases hx : hit s x
    · have hboth : ∀ t y, inv t ∧ b t → ok t y → inv (step t y) ∧ b (step t y) :=
        fun t y h ho => ⟨hinv t y h.1 ho, hkeep t y h.1 ho h.2⟩
      exact (invariant hboth ⟨h1, henter s x h0 hm.1 hx⟩ hm.2).2
    · exact ih h1 hm.2 (by simpa [hits, hx] using hpos)

end Runs
