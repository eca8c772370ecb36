import Mathlib.Tactic

/-! A bounded first-in-first-out channel between a producer that does not wait and a consumer that may
take a value at any moment. The channel keeps what the consumer has taken, so that everything ever put
into it can be named. -/
namespace Channels
set_option autoImplicit false

structure Channel (α : Type*) where
  capacity : ℕ
  taken : List α
  queue : List α
  bounded : queue.length ≤ capacity

namespace Channel

variable {α : Type*}

def empty (capacity : ℕ) : Channel α := ⟨capacity, [], [], Nat.zero_le capacity⟩

/-- Everything put into the channel, in order. -/
def put (c : Channel α) : List α := c.taken ++ c.queue

/-- Puts a value into the channel unless it is full. -/
def trySend (c : Channel α) (x : α) : Option (Channel α) :=
  if h : c.queue.length < c.capacity then
    some { c with queue := c.queue ++ [x], bounded := by simpa using h }
  else none

/-- The consumer takes the oldest value, if there is one. -/
def recv (c : Channel α) : Channel α :=
  { c with
    taken := c.taken ++ c.queue.take 1
    queue := c.queue.drop 1
    bounded := by
      have hc := c.bounded
      rw [List.length_drop]
      omega }

/-- The consumer takes up to `n` values. -/
def recvMany : ℕ → Channel α → Channel α
  | 0, c => c
  | n + 1, c => recvMany n c.recv

@[simp] theorem put_recv (c : Channel α) : c.recv.put = c.put := by
  unfold put recv
  rw [List.append_assoc, List.take_append_drop]

@[simp] theorem put_recvMany (n : ℕ) (c : Channel α) : (recvMany n c).put = c.put := by
  induction n generalizing c with
  | zero => rfl
  | succ n ih => rw [recvMany, ih, put_recv]

theorem put_trySend {c c' : Channel α} {x : α} (h : c.trySend x = some c') : c'.put = c.put ++ [x] := by
  unfold trySend at h
  split at h
  · obtain rfl := Option.some.inj h
    simp [put]
  · cases h

end Channel

end Channels
