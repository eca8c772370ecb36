import Srtrust.Wire.Packet

/-! # The send buffer (`send_buffer.rs`)

Sent packets wait here for acknowledgement, oldest first. Lookup by sequence number is an
index by circular offset from the front, which finds a packet only because the buffer is
contiguous; `SendBuffer.Contiguous` says so, and the connection keeps it. -/
namespace Srtrust
set_option autoImplicit false

/-- One sent packet and the time of its last retransmission. -/
structure Sent where
  packet : DataPacket
  lastRetransmit : Option Instant
deriving DecidableEq, Repr

structure SendBuffer where
  packets : List Sent
deriving DecidableEq, Repr

namespace SendBuffer

def new : SendBuffer := ⟨[]⟩

def isEmpty (b : SendBuffer) : Bool := b.packets.isEmpty

def len (b : SendBuffer) : ℕ := b.packets.length

def firstSeq (b : SendBuffer) : Option SeqNumber := b.packets.head?.map (·.packet.seq)

def lastSeq (b : SendBuffer) : Option SeqNumber := b.packets.getLast?.map (·.packet.seq)

/-- `push`; contiguity is a debug assertion of the source, not a check. -/
def push (b : SendBuffer) (packet : DataPacket) : SendBuffer := ⟨b.packets ++ [⟨packet, none⟩]⟩

/-- `ack`: drops the front while it is circularly before `nextExpected`. -/
def ack (b : SendBuffer) (nextExpected : SeqNumber) : SendBuffer :=
  ⟨b.packets.dropWhile fun s => s.packet.seq.circularCmp nextExpected = .less⟩

/-- `index_of`: the circular offset past the front, if it falls inside the buffer. -/
def indexOf (b : SendBuffer) (seq : SeqNumber) : Option ℕ := do
  let front ← b.firstSeq
  if 0 ≤ seq.offsetFrom front ∧ (seq.offsetFrom front).toNat < b.packets.length then
    some (seq.offsetFrom front).toNat
  else none

def get (b : SendBuffer) (seq : SeqNumber) : Option DataPacket := do
  let i ← b.indexOf seq
  let sent ← b.packets[i]?
  some sent.packet

def lastRetransmitted (b : SendBuffer) (seq : SeqNumber) : Option Instant := do
  let i ← b.indexOf seq
  let sent ← b.packets[i]?
  sent.lastRetransmit

def markRetransmitted (b : SendBuffer) (seq : SeqNumber) (now : Instant) : SendBuffer :=
  match b.indexOf seq with
  | some i => ⟨b.packets.modify i fun s => { s with lastRetransmit := some now }⟩
  | none => b

/-! ## Content -/

/-- The stored packets, oldest first: what every operation but the retransmission stamps
works on. -/
def content (b : SendBuffer) : List DataPacket := b.packets.map (·.packet)

@[simp] theorem content_push (b : SendBuffer) (p : DataPacket) :
    (b.push p).content = b.content ++ [p] := by
  simp [content, push]

@[simp] theorem content_markRetransmitted (b : SendBuffer) (seq : SeqNumber) (now : Instant) :
    (b.markRetransmitted seq now).content = b.content := by
  unfold markRetransmitted
  split
  · rename_i i _
    apply List.ext_getElem?
    intro j
    simp only [content, List.getElem?_map, List.getElem?_modify]
    split
    · cases b.packets[j]? <;> rfl
    · cases b.packets[j]? <;> rfl
  · rfl

theorem content_ack (b : SendBuffer) (nextExpected : SeqNumber) :
    (b.ack nextExpected).content =
      b.content.dropWhile fun p => p.seq.circularCmp nextExpected = .less := by
  simp only [content, ack, List.dropWhile_map]
  rfl

theorem len_eq (b : SendBuffer) : b.len = b.content.length := by
  simp [len, content]

/-! ## Contiguity -/

/-- Each packet follows the one before it. -/
def Contiguous (b : SendBuffer) : Prop := b.content.IsChain fun p p' => p'.seq = p.seq.next

instance (b : SendBuffer) : Decidable b.Contiguous := inferInstanceAs (Decidable (List.IsChain _ _))

theorem Contiguous.seq_eq {b : SendBuffer} (h : b.Contiguous) {first : SeqNumber} (hf : b.firstSeq = some first)
    {i : ℕ} {s : Sent} (hi : b.packets[i]? = some s) : s.packet.seq = first.add i := by
  induction i generalizing s with
  | zero =>
    rw [firstSeq, List.head?_eq_getElem?, hi, Option.map_some, Option.some.injEq] at hf
    rw [SeqNumber.add_zero, hf]
  | succ i ih =>
    obtain ⟨hlt, hs⟩ := List.getElem?_eq_some_iff.mp hi
    have hprev := ih (List.getElem?_eq_getElem (Nat.lt_of_succ_lt hlt))
    have hstep := List.isChain_iff_getElem.mp h i (by simpa [content] using hlt)
    simp only [content, List.getElem_map] at hstep
    rw [← hs, hstep, hprev, SeqNumber.next_add]

/-- In a contiguous buffer of at most half the sequence space, lookup finds every packet at its
place. -/
theorem Contiguous.indexOf_eq {b : SendBuffer} (h : b.Contiguous) (hlen : b.len ≤ 0x40000000) {i : ℕ}
    {s : Sent} (hi : b.packets[i]? = some s) : b.indexOf s.packet.seq = some i := by
  obtain ⟨hlt, -⟩ := List.getElem?_eq_some_iff.mp hi
  obtain ⟨first, hf⟩ : ∃ first, b.firstSeq = some first := by
    cases hp : b.packets with
    | nil => simp [hp] at hlt
    | cons s rest => exact ⟨s.packet.seq, by simp [firstSeq, hp]⟩
  rw [len] at hlen
  have hlo : ((0 : ℕ) : ℤ) - i ≤ 0x40000000 := by omega
  have hhi : (i : ℤ) - (0 : ℕ) < 0x40000000 := by omega
  have hoff := SeqNumber.offsetFrom_add first i 0 hlo hhi
  rw [SeqNumber.add_zero, Nat.cast_zero, sub_zero] at hoff
  have hin : (0 : ℤ) ≤ i ∧ (i : ℤ).toNat < b.packets.length := ⟨by omega, by omega⟩
  rw [h.seq_eq hf hi, indexOf, hf, Option.bind_eq_bind, Option.bind_some, hoff, if_pos hin, Int.toNat_natCast]

/-- What the index of a sequence number names is the packet with that number. -/
theorem Contiguous.seq_of_indexOf {b : SendBuffer} (h : b.Contiguous) {seq : SeqNumber} {i : ℕ}
    (hi : b.indexOf seq = some i) : ∃ s, b.packets[i]? = some s ∧ s.packet.seq = seq := by
  obtain ⟨first, hf, hrest⟩ := Option.bind_eq_some_iff.mp hi
  split_ifs at hrest with hin
  obtain rfl := Option.some.inj hrest
  have hnat : seq.offsetFrom first = ((seq.offsetFrom first).toNat : ℕ) := by omega
  have hget := List.getElem?_eq_getElem hin.2
  exact ⟨_, hget, (h.seq_eq hf hget).trans (SeqNumber.eq_add_of_offsetFrom _ _ _ hnat).symm⟩

/-- Lookup by index is search by sequence number. -/
theorem Contiguous.lookup_eq {b : SendBuffer} (h : b.Contiguous) (hlen : b.len ≤ 0x40000000)
    (seq : SeqNumber) :
    (b.indexOf seq).bind (b.packets[·]?) = b.packets.find? (·.packet.seq = seq) := by
  cases hi : b.indexOf seq with
  | none =>
    rw [Option.bind_none, eq_comm, List.find?_eq_none]
    intro s hs hseq
    obtain ⟨j, hj⟩ := List.mem_iff_getElem?.mp hs
    have hindex := h.indexOf_eq hlen hj
    rw [of_decide_eq_true hseq, hi] at hindex
    exact absurd hindex (by simp)
  | some i =>
    obtain ⟨s, hs, hseq⟩ := h.seq_of_indexOf hi
    rw [Option.bind_some, hs, eq_comm, List.find?_eq_some_iff_getElem]
    obtain ⟨hlt, hget⟩ := List.getElem?_eq_some_iff.mp hs
    refine ⟨by simpa using hseq, i, hlt, hget, fun j hj => ?_⟩
    have hother := h.indexOf_eq hlen (List.getElem?_eq_getElem (hj.trans hlt))
    by_contra hsame
    have hsame : (b.packets[j]).packet.seq = seq := by simpa using hsame
    rw [hsame, hi] at hother
    have := Option.some.inj hother
    omega

theorem Contiguous.get_eq {b : SendBuffer} (h : b.Contiguous) (hlen : b.len ≤ 0x40000000)
    (seq : SeqNumber) : b.get seq = (b.packets.find? (·.packet.seq = seq)).map (·.packet) := by
  rw [← h.lookup_eq hlen, get]
  cases b.indexOf seq with
  | none => rfl
  | some i =>
    rw [Option.bind_some, Option.bind_eq_bind, Option.bind_some]
    cases b.packets[i]? <;> rfl

theorem Contiguous.lastRetransmitted_eq {b : SendBuffer} (h : b.Contiguous) (hlen : b.len ≤ 0x40000000)
    (seq : SeqNumber) :
    b.lastRetransmitted seq = (b.packets.find? (·.packet.seq = seq)).bind (·.lastRetransmit) := by
  rw [← h.lookup_eq hlen, lastRetransmitted]
  cases b.indexOf seq with
  | none => rfl
  | some i =>
    rw [Option.bind_some, Option.bind_eq_bind, Option.bind_some]
    cases b.packets[i]? <;> rfl

theorem dropWhile_eq_drop {α : Type} (p : α → Bool) (xs : List α) (n : ℕ)
    (hlt : ∀ i x, i < n → xs[i]? = some x → p x = true) (hat : ∀ x, xs[n]? = some x → p x = false) :
    xs.dropWhile p = xs.drop n := by
  induction xs generalizing n with
  | nil => simp
  | cons x xs ih =>
    cases n with
    | zero => rw [List.dropWhile_cons_of_neg (by simp [hat x rfl]), List.drop_zero]
    | succ n =>
      rw [List.dropWhile_cons_of_pos (hlt 0 x (by omega) rfl), List.drop_succ_cons]
      exact ih n (fun i y hi hy => hlt (i + 1) y (by omega) hy) hat

/-- An ACK point ahead of the front drops the packets before it. -/
theorem Contiguous.ack_ahead {b : SendBuffer} (h : b.Contiguous) {first : SeqNumber}
    (hf : b.firstSeq = some first) {d : ℕ} (hd : d ≤ 0x40000000) :
    (b.ack (first.add d)).packets = b.packets.drop d := by
  refine dropWhile_eq_drop _ _ d (fun i s hi hs => ?_) fun s hs => ?_
  · have hlo : (d : ℤ) - i ≤ 0x40000000 := by omega
    have hhi : (i : ℤ) - d < 0x40000000 := by omega
    rw [decide_eq_true_eq, SeqNumber.circularCmp_less_iff, h.seq_eq hf hs,
      SeqNumber.offsetFrom_add first i d hlo hhi]
    omega
  · have hlo : (d : ℤ) - d ≤ 0x40000000 := by omega
    have hhi : (d : ℤ) - d < 0x40000000 := by omega
    rw [decide_eq_false_iff_not, SeqNumber.circularCmp_less_iff, h.seq_eq hf hs,
      SeqNumber.offsetFrom_add first d d hlo hhi]
    omega

/-- An ACK point behind the front drops nothing. -/
theorem ack_behind {b : SendBuffer} {point : SeqNumber} {d : ℕ} (hf : b.firstSeq = some (point.add d))
    (hd : d < 0x40000000) : b.ack point = b := by
  have hlo : ((0 : ℕ) : ℤ) - d ≤ 0x40000000 := by omega
  have hhi : (d : ℤ) - (0 : ℕ) < 0x40000000 := by omega
  have hoff := SeqNumber.offsetFrom_add point d 0 hlo hhi
  rw [SeqNumber.add_zero] at hoff
  obtain ⟨s, hs, hseq⟩ := Option.map_eq_some_iff.mp hf
  obtain ⟨rest, hp⟩ := List.head?_eq_some_iff.mp hs
  have hdrop : b.packets.dropWhile (fun s => s.packet.seq.circularCmp point = .less) = b.packets := by
    rw [hp, List.dropWhile_cons_of_neg]
    rw [decide_eq_true_eq, SeqNumber.circularCmp_less_iff, hseq, hoff]
    omega
  rw [ack, hdrop]

/-- A stored packet found by sequence number is one of the content. -/
theorem get_mem (b : SendBuffer) (seq : SeqNumber) (p : DataPacket) (h : b.get seq = some p) :
    p ∈ b.content := by
  unfold get at h
  obtain ⟨i, -, h⟩ := Option.bind_eq_some_iff.mp h
  obtain ⟨sent, hs, hp⟩ := Option.bind_eq_some_iff.mp h
  simp only [Option.some.injEq] at hp
  exact List.mem_map.mpr ⟨sent, List.mem_of_getElem? hs, hp⟩

end SendBuffer

end Srtrust
