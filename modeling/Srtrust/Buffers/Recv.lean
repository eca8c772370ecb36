import Srtrust.Wire.Packet

/-! # The receive buffer (`recv_buffer.rs`)

Received packets sit at their sequence offset from a moving `base`; absent slots are
losses or packets still in flight. The buffer's invariant is part of its type: the packet
in slot `i` has sequence number `base + i`, the last slot is present, `received` counts
the present slots, and the span fits the half of the sequence space in which offsets are
nonnegative. -/
namespace Srtrust
set_option autoImplicit false

/-- `u32::try_from(n).unwrap_or(u32::MAX)`. -/
def clampU32 (n : ℕ) : ℕ := min n 0xFFFFFFFF

structure RecvBuffer where
  base : SeqNumber
  slots : List (Option DataPacket)
  received : ℕ
  slot_seq : ∀ i p, slots[i]? = some (some p) → p.seq = base.add i
  back_present : slots[slots.length - 1]? ≠ some none
  received_eq : received = slots.countP Option.isSome
  span_le : slots.length ≤ 0x40000000
deriving DecidableEq

namespace RecvBuffer

def new (initialSeq : SeqNumber) : RecvBuffer where
  base := initialSeq
  slots := []
  received := 0
  slot_seq := by simp
  back_present := by simp
  received_eq := by simp
  span_le := by simp

def ackPoint (b : RecvBuffer) : SeqNumber := b.base

def occupancy (b : RecvBuffer) : ℕ := b.received

/-- Slots present from the base on. -/
def contiguous (b : RecvBuffer) : ℕ := (b.slots.takeWhile Option.isSome).length

/-- `received_ack_point`: one past the last contiguously received packet. -/
def receivedAckPoint (b : RecvBuffer) : SeqNumber := b.base.add (clampU32 b.contiguous)

def hasGaps (b : RecvBuffer) : Bool := b.received != b.slots.length

/-! ## Inserting -/

/-- `resize_with(n, || None)` for a growing `n`. -/
def resize (slots : List (Option DataPacket)) (n : ℕ) : List (Option DataPacket) :=
  slots ++ List.replicate (n - slots.length) none

theorem getElem?_resize_set (slots : List (Option DataPacket)) (k i : ℕ) (p : DataPacket) :
    ((resize slots (k + 1)).set k (some p))[i]? =
      if i = k then some (some p)
      else if i < slots.length then slots[i]?
      else if i < k then some none else none := by
  unfold resize
  by_cases hk : i = k
  · subst hk
    rw [if_pos rfl, List.getElem?_set_self]
    simp only [List.length_append, List.length_replicate]
    omega
  · rw [if_neg hk, List.getElem?_set_ne (Ne.symm hk)]
    by_cases hi : i < slots.length
    · rw [if_pos hi, List.getElem?_append_left hi]
    · rw [if_neg hi, List.getElem?_append_right (by omega), List.getElem?_replicate]
      by_cases hik : i < k
      · rw [if_pos hik, if_pos (by omega)]
      · rw [if_neg hik, if_neg (by omega)]

theorem length_resize_set (slots : List (Option DataPacket)) (k : ℕ) (p : DataPacket) :
    ((resize slots (k + 1)).set k (some p)).length = max slots.length (k + 1) := by
  simp only [resize, List.length_set, List.length_append, List.length_replicate]
  omega

theorem countP_resize_set (slots : List (Option DataPacket)) (k : ℕ) (p : DataPacket)
    (habs : slots[k]?.join.isSome = false) :
    ((resize slots (k + 1)).set k (some p)).countP Option.isSome =
      slots.countP Option.isSome + 1 := by
  have hlen : k < (resize slots (k + 1)).length := by
    simp only [resize, List.length_append, List.length_replicate]
    omega
  have hget : (resize slots (k + 1))[k]? = if k < slots.length then slots[k]? else some none := by
    unfold resize
    by_cases hk : k < slots.length
    · rw [if_pos hk, List.getElem?_append_left hk]
    · rw [if_neg hk, List.getElem?_append_right (by omega), List.getElem?_replicate,
        if_pos (by omega)]
  have hat : ¬ ((resize slots (k + 1))[k]).isSome = true := by
    intro hsome
    rw [List.getElem?_eq_getElem hlen] at hget
    split_ifs at hget with hk
    · rw [← hget] at habs
      simp only [Option.join_some] at habs
      rw [habs] at hsome
      exact absurd hsome (by decide)
    · rw [Option.some_inj.mp hget] at hsome
      exact absurd hsome (by decide)
  rw [List.countP_set hlen, if_neg hat]
  simp [resize, List.countP_replicate]

/-- `insert`: the flag says whether the packet was newly stored. -/
def insert (b : RecvBuffer) (packet : DataPacket) : Bool × RecvBuffer :=
  if h : 0 ≤ packet.seq.offsetFrom b.base then
    let offset := (packet.seq.offsetFrom b.base).toNat
    if hp : b.slots[offset]?.join.isSome = false then
      (true,
        { base := b.base
          slots := (resize b.slots (offset + 1)).set offset (some packet)
          received := b.received + 1
          slot_seq := by
            intro i p hi
            rw [getElem?_resize_set] at hi
            split_ifs at hi with hk hlt hlt'
            · obtain rfl : packet = p := by simpa using hi
              rw [hk]
              exact SeqNumber.eq_add_of_offsetFrom _ _ _ (by omega)
            · exact b.slot_seq i p hi
            · simp at hi
          back_present := by
            rw [length_resize_set, getElem?_resize_set]
            have hb := b.back_present
            split_ifs with hk hlt hlt'
            · simp
            · have e : max b.slots.length (offset + 1) = b.slots.length := by omega
              rw [e]
              exact hb
            · omega
            · simp
          received_eq := by rw [countP_resize_set _ _ _ hp, b.received_eq]
          span_le := by
            have hb := b.span_le
            have ho := (packet.seq.offsetFrom_bounds b.base).2
            rw [length_resize_set]
            omega })
    else (false, b) -- duplicate
  else (false, b) -- at or below the delivered point

/-! ## Taking packets out -/

/-- Drops the first `n` slots and moves the base past them. -/
def dropFront (b : RecvBuffer) (n : ℕ) (base : SeqNumber) (hb : base = b.base.add n) :
    RecvBuffer where
  base := base
  slots := b.slots.drop n
  received := b.received - (b.slots.take n).countP Option.isSome
  slot_seq := by
    intro i p hi
    rw [List.getElem?_drop] at hi
    rw [hb, SeqNumber.add_add]
    exact b.slot_seq _ p hi
  back_present := by
    by_cases hn : n < b.slots.length
    · rw [List.getElem?_drop, List.length_drop,
        show n + (b.slots.length - n - 1) = b.slots.length - 1 by omega]
      exact b.back_present
    · rw [List.drop_of_length_le (by omega)]
      simp
  received_eq := by
    have h : b.slots.countP Option.isSome
        = (b.slots.take n).countP Option.isSome + (b.slots.drop n).countP Option.isSome := by
      rw [← List.countP_append, List.take_append_drop]
    rw [b.received_eq]
    omega
  span_le := by
    have h := b.span_le
    rw [List.length_drop]
    omega

/-- Index of the earliest present slot (the number of slots if there is none). -/
def firstPresent (b : RecvBuffer) : ℕ := b.slots.findIdx Option.isSome

/-- `peek`: the earliest buffered packet's sequence number and timestamp. -/
def peek (b : RecvBuffer) : Option (SeqNumber × Timestamp) :=
  match b.slots[b.firstPresent]? with
  | some (some packet) => some (packet.seq, packet.timestamp)
  | _ => none

/-- `pop`: the earliest buffered packet; the leading gap in front of it is dropped. -/
def pop (b : RecvBuffer) : Option (DataPacket × RecvBuffer) :=
  match h : b.slots[b.firstPresent]? with
  | some (some packet) =>
    some (packet, b.dropFront (b.firstPresent + 1) packet.seq.next
      (by rw [b.slot_seq _ _ h, SeqNumber.next_add]))
  | _ => none

/-- `pop_in_order`: pops only a packet that sits at the ACK point. -/
def popInOrder (b : RecvBuffer) : Option (DataPacket × RecvBuffer) :=
  match b.slots.head? with
  | some (some _) => b.pop
  | _ => none

/-- `drop_range`: moves the ACK point past `last` when the range reaches it. -/
def dropRange (b : RecvBuffer) (first last : SeqNumber) : RecvBuffer :=
  if h : last.circularCmp b.base = .less then b -- already delivered or dropped
  else if first.circularCmp b.base = .greater then b -- an interior range
  else
    b.dropFront ((last.offsetFrom b.base).toNat + 1) last.next (by
      rw [SeqNumber.circularCmp_less_iff] at h
      have hn : last.offsetFrom b.base = ((last.offsetFrom b.base).toNat : ℕ) := by omega
      rw [SeqNumber.next_eq_add, ← SeqNumber.add_add]
      exact congrArg (SeqNumber.add · 1) (SeqNumber.eq_add_of_offsetFrom _ _ _ hn))

/-! ## Loss lists -/

/-- Index of the highest present slot. -/
def highestPresent (b : RecvBuffer) : Option ℕ :=
  (b.slots.reverse.findIdx? Option.isSome).map (b.slots.length - 1 - ·)

/-- The walk of `missing`: `run` is the start of an open run of absent slots. -/
def missingLoop : List (Option DataPacket) → SeqNumber → Option SeqNumber →
    List (SeqNumber × SeqNumber)
  | [], _, _ => []
  | none :: rest, seq, run => missingLoop rest seq.next (some (run.getD seq))
  | some _ :: rest, seq, some start => (start, seq.prev) :: missingLoop rest seq.next none
  | some _ :: rest, seq, none => missingLoop rest seq.next none

/-- `missing`: the absent ranges below the highest received packet. -/
def missing (b : RecvBuffer) : List (SeqNumber × SeqNumber) :=
  match b.highestPresent with
  | none => []
  | some highest => missingLoop (b.slots.take (highest + 1)) b.base none

/-- `missing_aged`: the part of each gap at least `tolerance` below the highest received. -/
def missingAged (b : RecvBuffer) (tolerance : ℕ) : List (SeqNumber × SeqNumber) :=
  if tolerance = 0 then b.missing
  else
    match b.highestPresent with
    | none => []
    | some idx =>
      let highest := b.base.add (clampU32 idx)
      let threshold := SeqNumber.new (highest.value - UInt32.ofNat tolerance)
      b.missing.filterMap fun (start, stop) =>
        if start.circularCmp threshold = .greater then none
        else some (start, if stop.circularCmp threshold = .greater then threshold else stop)

/-! ## What the queries and operations say -/

theorem contiguous_le (b : RecvBuffer) : b.contiguous ≤ b.slots.length :=
  (List.takeWhile_prefix _).length_le

theorem receivedAckPoint_eq (b : RecvBuffer) : b.receivedAckPoint = b.base.add b.contiguous := by
  have h := b.contiguous_le
  have hs := b.span_le
  rw [receivedAckPoint, clampU32, Nat.min_eq_left (by omega)]

/-- What storing a new packet does. -/
theorem insert_spec (b : RecvBuffer) (p : DataPacket) (h : (b.insert p).1 = true) :
    0 ≤ p.seq.offsetFrom b.base ∧ b.slots[(p.seq.offsetFrom b.base).toNat]?.join = none
      ∧ (b.insert p).2.base = b.base ∧ (b.insert p).2.received = b.received + 1
      ∧ (b.insert p).2.slots =
        (resize b.slots ((p.seq.offsetFrom b.base).toNat + 1)).set (p.seq.offsetFrom b.base).toNat
          (some p) := by
  unfold insert at h ⊢
  by_cases h0 : 0 ≤ p.seq.offsetFrom b.base
  · rw [dif_pos h0] at h ⊢
    by_cases hp : b.slots[(p.seq.offsetFrom b.base).toNat]?.join.isSome = false
    · dsimp only
      rw [dif_pos hp]
      exact ⟨h0, by simpa using hp, rfl, rfl, rfl⟩
    · dsimp only at h
      rw [dif_neg hp] at h
      exact absurd h Bool.false_ne_true
  · rw [dif_neg h0] at h
    exact absurd h Bool.false_ne_true

/-- A packet at or ahead of the base whose slot is empty is stored. -/
theorem insert_new {b : RecvBuffer} {p : DataPacket} (h : 0 ≤ p.seq.offsetFrom b.base)
    (hp : b.slots[(p.seq.offsetFrom b.base).toNat]?.join = none) : (b.insert p).1 = true := by
  unfold insert
  rw [dif_pos h]
  dsimp only
  rw [dif_pos (by rw [hp]; rfl)]

theorem mem_insert {b : RecvBuffer} {p q : DataPacket} (h : (b.insert p).1 = true)
    (hq : some q ∈ (b.insert p).2.slots) : q = p ∨ some q ∈ b.slots := by
  obtain ⟨-, -, -, -, hslots⟩ := b.insert_spec p h
  rw [hslots] at hq
  obtain ⟨i, hi⟩ := List.mem_iff_getElem?.mp hq
  rw [getElem?_resize_set] at hi
  split_ifs at hi with hk hlt hlt'
  · exact .inl (by simpa using hi.symm)
  · exact .inr (List.mem_of_getElem? hi)
  · simp at hi

/-- The earliest present slot, when there is one, and the absent slots before it. -/
theorem firstPresent_spec (b : RecvBuffer) (h : b.slots ≠ []) :
    ∃ p, b.slots[b.firstPresent]? = some (some p)
      ∧ ∀ i < b.firstPresent, b.slots[i]? = some none := by
  have hlast : ∃ s ∈ b.slots, Option.isSome s = true := by
    have hpos := List.length_pos_iff.mpr h
    have hb := b.back_present
    have hg := List.getElem?_eq_getElem (l := b.slots) (i := b.slots.length - 1) (by omega)
    rw [hg] at hb
    refine ⟨_, List.getElem_mem (by omega : b.slots.length - 1 < b.slots.length), ?_⟩
    rw [Option.isSome_iff_ne_none]
    intro hn
    exact hb (by rw [hn])
  have hlt : b.firstPresent < b.slots.length := List.findIdx_lt_length.mpr hlast
  have hat : (b.slots[b.firstPresent]).isSome = true := List.findIdx_getElem
  obtain ⟨p, hp⟩ := Option.isSome_iff_exists.mp hat
  refine ⟨p, by rw [List.getElem?_eq_getElem hlt, hp], ?_⟩
  intro i hi
  have hn : ¬ (b.slots[i]).isSome = true := by
    have := List.not_of_lt_findIdx hi
    simpa using this
  rw [List.getElem?_eq_getElem (by omega)]
  simpa using hn

theorem peek_eq_none_iff (b : RecvBuffer) : b.peek = none ↔ b.slots = [] := by
  constructor
  · intro h
    by_contra hne
    obtain ⟨p, hp, -⟩ := b.firstPresent_spec hne
    simp [peek, hp] at h
  · intro h
    simp [peek, h]

theorem pop_eq_none_iff (b : RecvBuffer) : b.pop = none ↔ b.slots = [] := by
  rw [← peek_eq_none_iff, peek, pop]
  split <;> split <;> simp_all

/-- What a successful `pop` does: it takes the earliest present packet and moves the base one
past it. -/
theorem pop_spec (b : RecvBuffer) (p : DataPacket) (b' : RecvBuffer) (h : b.pop = some (p, b')) :
    b.slots[b.firstPresent]? = some (some p) ∧ b'.slots = b.slots.drop (b.firstPresent + 1)
      ∧ b'.base = b.base.add (b.firstPresent + 1) ∧ p.seq = b.base.add b.firstPresent := by
  unfold pop at h
  split at h
  · rename_i packet hp
    simp only [Option.some.injEq, Prod.mk.injEq] at h
    obtain ⟨rfl, rfl⟩ := h
    have hseq := b.slot_seq _ _ hp
    refine ⟨hp, rfl, ?_, hseq⟩
    show packet.seq.next = _
    rw [hseq, SeqNumber.next_add]
  · simp at h

theorem pop_received (b : RecvBuffer) (p : DataPacket) (b' : RecvBuffer) (h : b.pop = some (p, b')) :
    b'.received + 1 = b.received := by
  obtain ⟨hp, hslots, -, -⟩ := b.pop_spec p b' h
  obtain ⟨hlt, hget⟩ := List.getElem?_eq_some_iff.mp hp
  have hsplit : b.slots = b.slots.take b.firstPresent ++ some p :: b.slots.drop (b.firstPresent + 1) := by
    rw [← hget, List.getElem_cons_drop, List.take_append_drop]
  have hbefore : (b.slots.take b.firstPresent).countP Option.isSome = 0 := by
    rw [List.countP_eq_zero]
    intro x hx
    obtain ⟨i, hi, rfl⟩ := List.mem_take_iff_getElem.mp hx
    simpa using List.not_of_lt_findIdx (show i < b.firstPresent by omega)
  rw [b'.received_eq, b.received_eq, hslots]
  conv_rhs => rw [hsplit]
  simp [List.countP_append, hbefore]

theorem popInOrder_spec (b : RecvBuffer) (p : DataPacket) (b' : RecvBuffer)
    (h : b.popInOrder = some (p, b')) : b.pop = some (p, b') ∧ b.firstPresent = 0 := by
  unfold popInOrder at h
  split at h
  · rename_i packet hp
    refine ⟨h, ?_⟩
    obtain ⟨rest, hr⟩ : ∃ rest, b.slots = some packet :: rest := by
      cases hb : b.slots with
      | nil => rw [hb] at hp; simp at hp
      | cons x xs => rw [hb] at hp; exact ⟨xs, by simp at hp; rw [hp]⟩
    simp [firstPresent, hr, List.findIdx_cons]
  · simp at h

/-- A drop request that starts at or before the base moves the base past its end. -/
theorem dropRange_acts {b : RecvBuffer} {first last : SeqNumber} (hl : last.circularCmp b.base ≠ .less)
    (hf : first.circularCmp b.base ≠ .greater) :
    ∃ n : ℕ, (n : ℤ) = last.offsetFrom b.base + 1 ∧ (b.dropRange first last).slots = b.slots.drop n
      ∧ (b.dropRange first last).base = b.base.add n := by
  rw [dropRange, dif_neg hl, if_neg hf]
  rw [ne_eq, SeqNumber.circularCmp_less_iff] at hl
  refine ⟨(last.offsetFrom b.base).toNat + 1, by omega, rfl, ?_⟩
  change last.next = _
  rw [SeqNumber.next_eq_add, ← SeqNumber.add_add]
  exact congrArg (SeqNumber.add · 1) (SeqNumber.eq_add_of_offsetFrom _ _ _ (by omega))

/-- A drop request moves the base forward, or does nothing. -/
theorem dropRange_cases (b : RecvBuffer) (first last : SeqNumber) :
    b.dropRange first last = b ∨
      ∃ n, 0 < n ∧ n ≤ 0x40000000 ∧ (b.dropRange first last).slots = b.slots.drop n
        ∧ (b.dropRange first last).base = b.base.add n := by
  by_cases hl : last.circularCmp b.base = .less
  · exact .inl (by rw [dropRange, dif_pos hl])
  · by_cases hf : first.circularCmp b.base = .greater
    · exact .inl (by rw [dropRange, dif_neg hl, if_pos hf])
    · obtain ⟨n, hn, hslots, hbase⟩ := dropRange_acts hl hf
      have hhi := (last.offsetFrom_bounds b.base).2
      rw [SeqNumber.circularCmp_less_iff] at hl
      exact .inr ⟨n, by omega, by omega, hslots, hbase⟩

theorem mem_of_pop {b b' : RecvBuffer} {p : DataPacket} (h : b.pop = some (p, b')) :
    some p ∈ b.slots ∧ ∀ q, some q ∈ b'.slots → some q ∈ b.slots := by
  obtain ⟨hp, hslots, -, -⟩ := b.pop_spec p b' h
  refine ⟨List.mem_of_getElem? hp, fun q hq => ?_⟩
  rw [hslots] at hq
  exact List.mem_of_mem_drop hq

theorem mem_of_mem_dropRange {b : RecvBuffer} {first last : SeqNumber} {q : DataPacket}
    (hq : some q ∈ (b.dropRange first last).slots) : some q ∈ b.slots := by
  rcases b.dropRange_cases first last with h | ⟨n, -, -, hslots, -⟩
  · rwa [h] at hq
  · rw [hslots] at hq
    exact List.mem_of_mem_drop hq

theorem dropRange_received_le (b : RecvBuffer) (first last : SeqNumber) :
    (b.dropRange first last).received ≤ b.received := by
  rcases b.dropRange_cases first last with h | ⟨n, -, -, hslots, -⟩
  · rw [h]
  · rw [received_eq, received_eq, hslots]
    exact (List.drop_sublist n b.slots).countP_le

-- the lemmas above are how later modules see these; comparing states must not unfold them
attribute [irreducible] insert pop popInOrder dropRange missing missingAged

end RecvBuffer

end Srtrust
