import Srtrust.Connection.Machine

/-! # Fragments and messages

`fragment_message` cuts a message into packets, `Reassembler::push` puts it together again. Of a
numbered stream of fragments any may be missing: the messages that come out are those whose packets
are all there. The reassembler carries one thing from message to message, the sequence number it
expects next, and that number always lies inside the message it belongs to. -/
namespace Srtrust
open BigEndian
set_option autoImplicit false

/-! ## The shape of a fragmented message -/

/-- What the reassembler reads of a packet besides its number. -/
def DataPacket.part (p : DataPacket) : PacketPosition × Bytes := (p.position, p.payload)

def Fragment.part (f : Fragment) : PacketPosition × Bytes := (f.position, f.payload)

/-- What follows the first fragment: middles, then the last. -/
inductive Continuation : List (PacketPosition × Bytes) → Prop
  | last (bytes : Bytes) : Continuation [(.last, bytes)]
  | middle (bytes : Bytes) {rest : List (PacketPosition × Bytes)} :
      Continuation rest → Continuation ((.middle, bytes) :: rest)

theorem Continuation.position {parts : List (PacketPosition × Bytes)} (h : Continuation parts) :
    ∀ part ∈ parts, part.1 = .middle ∨ part.1 = .last := by
  induction h with
  | last bytes => simp
  | middle bytes _ ih => simpa using ih

/-- The fragments of one message: a single one, or a first with its continuation. -/
inductive Spells (message : Bytes) : List (PacketPosition × Bytes) → Prop
  | single : Spells message [(.single, message)]
  | split (bytes : Bytes) {rest : List (PacketPosition × Bytes)} :
      Continuation rest → bytes ++ rest.flatMap (·.2) = message → Spells message ((.first, bytes) :: rest)

theorem Continuation.cut {parts : List (PacketPosition × Bytes)} (h : Continuation parts)
    {front rest : List (PacketPosition × Bytes)} (hcut : front ++ rest = parts) (hrest : rest ≠ []) :
    ∀ part ∈ front, part.1 = .middle := by
  induction h generalizing front with
  | last bytes =>
    cases front with
    | nil => simp
    | cons part front =>
      obtain ⟨-, hnil⟩ := List.cons.inj hcut
      exact absurd (List.append_eq_nil_iff.mp hnil).2 hrest
  | middle bytes _ ih =>
    cases front with
    | nil => simp
    | cons part front =>
      obtain ⟨rfl, hnext⟩ := List.cons.inj hcut
      intro part hp
      rcases List.mem_cons.mp hp with rfl | hp
      · rfl
      · exact ih hnext part hp

/-- A message cut short is neither a single packet nor ended. -/
theorem Spells.cut {message : Bytes} {parts front rest : List (PacketPosition × Bytes)} (h : Spells message parts)
    (hcut : front ++ rest = parts) (hrest : rest ≠ []) : ∀ part ∈ front, part.1 = .first ∨ part.1 = .middle := by
  cases front with
  | nil => simp
  | cons part front =>
    cases h with
    | single =>
      obtain ⟨-, hnil⟩ := List.cons.inj hcut
      exact absurd (List.append_eq_nil_iff.mp hnil).2 hrest
    | split bytes hcont _ =>
      obtain ⟨rfl, hnext⟩ := List.cons.inj hcut
      intro part hp
      rcases List.mem_cons.mp hp with rfl | hp
      · exact .inl rfl
      · exact .inr (hcont.cut hnext hrest part hp)

namespace Connection

section Fragments

variable (max : ℕ) (payload : Bytes) (message : UInt32)

/-- One turn of the splitting loop. -/
theorem fragmentLoop_turn (fuel offset : ℕ) (hlt : offset < payload.length) :
    fragmentLoop max payload message (fuel + 1) offset =
      { payload := (payload.drop offset).take max
        position := if offset = 0 then .first else if payload.length ≤ offset + max then .last else .middle
        message } :: fragmentLoop max payload message fuel (min (offset + max) payload.length) := by
  have htake : (payload.drop offset).take (min (offset + max) payload.length - offset)
      = (payload.drop offset).take max := by
    rcases Nat.le_total (offset + max) payload.length with hle | hle
    · rw [Nat.min_eq_left hle, Nat.add_sub_cancel_left]
    · rw [Nat.min_eq_right hle, List.take_of_length_le (by simp), List.take_of_length_le]
      rw [List.length_drop]
      omega
  have hstop : min (offset + max) payload.length = payload.length ↔ payload.length ≤ offset + max := by
    omega
  rw [fragmentLoop, if_pos hlt]
  dsimp only
  rw [htake, if_congr hstop rfl rfl]

theorem fragmentLoop_done (fuel : ℕ) : fragmentLoop max payload message fuel payload.length = [] := by
  cases fuel with
  | zero => rfl
  | succ fuel => rw [fragmentLoop, if_neg (lt_irrefl _)]

variable {max} (hmax : 1 ≤ max)
include hmax

/-- The loop past its first turn. -/
theorem fragmentLoop_continuation (fuel offset : ℕ) (hpos : offset ≠ 0) (hlt : offset < payload.length)
    (hfuel : payload.length ≤ fuel + offset) :
    Continuation ((fragmentLoop max payload message fuel offset).map Fragment.part) ∧
      (fragmentLoop max payload message fuel offset).flatMap (·.payload) = payload.drop offset ∧
      ∀ f ∈ fragmentLoop max payload message fuel offset, f.payload.length ≤ max := by
  induction fuel generalizing offset with
  | zero => omega
  | succ fuel ih =>
    rw [fragmentLoop_turn max payload message fuel offset hlt, if_neg hpos]
    by_cases hend : payload.length ≤ offset + max
    · have htake : (payload.drop offset).take max = payload.drop offset :=
        List.take_of_length_le (by rw [List.length_drop]; omega)
      rw [if_pos hend, Nat.min_eq_right hend, fragmentLoop_done, htake]
      refine ⟨.last _, by simp, ?_⟩
      intro f hf
      rw [List.mem_singleton.mp hf, List.length_drop]
      omega
    · obtain ⟨hrest, hbytes, hshort⟩ := ih (offset + max) (by omega) (by omega) (by omega)
      rw [if_neg hend, Nat.min_eq_left (by omega)]
      refine ⟨.middle _ hrest, ?_, ?_⟩
      · rw [List.flatMap_cons, hbytes, ← List.drop_drop, List.take_append_drop]
      · intro f hf
        rcases List.mem_cons.mp hf with rfl | hf
        · exact List.length_take_le _ _
        · exact hshort f hf

/-- `fragment_message` spells its message, in fragments of at most `max` bytes. -/
theorem fragmentPayload_spells :
    Spells payload ((fragmentPayload max payload message).map Fragment.part) ∧
      ∀ f ∈ fragmentPayload max payload message, f.payload.length ≤ max := by
  unfold fragmentPayload
  by_cases hfits : payload.length ≤ max
  · rw [if_pos hfits]
    refine ⟨.single, ?_⟩
    intro f hf
    rw [List.mem_singleton.mp hf]
    exact hfits
  · have hfirst : fragmentLoop max payload message payload.length 0
        = ⟨payload.take max, .first, message⟩ ::
          fragmentLoop max payload message (payload.length - 1) max := by
      have hturn := fragmentLoop_turn max payload message (payload.length - 1) 0 (by omega)
      rw [Nat.sub_add_cancel (by omega), Nat.zero_add, Nat.min_eq_left (by omega)] at hturn
      exact hturn
    obtain ⟨hrest, hbytes, hshort⟩ := fragmentLoop_continuation payload message hmax (payload.length - 1) max
      (by omega) (by omega) (by omega)
    rw [if_neg hfits, hfirst]
    refine ⟨.split _ hrest ?_, ?_⟩
    · rw [List.flatMap_map]
      change payload.take max ++ (fragmentLoop max payload message (payload.length - 1) max).flatMap (·.payload) = _
      rw [hbytes, List.take_append_drop]
    · intro f hf
      rcases List.mem_cons.mp hf with rfl | hf
      · exact List.length_take_le _ _
      · exact hshort f hf

end Fragments

end Connection

/-! ## Numbered streams -/

/-- Consecutive sequence numbers from `start` on. -/
def Numbered (start : SeqNumber) (stream : List DataPacket) : Prop :=
  ∀ i p, stream[i]? = some p → p.seq = start.add i

namespace Numbered

variable {start : SeqNumber} {packet : DataPacket} {stream later : List DataPacket}

theorem head (h : Numbered start (packet :: stream)) : packet.seq = start := by
  rw [h 0 packet rfl, SeqNumber.add_zero]

theorem tail (h : Numbered start (packet :: stream)) : Numbered start.next stream := by
  intro i p hi
  rw [h (i + 1) p hi, SeqNumber.next_eq_add, SeqNumber.add_add, Nat.add_comm]

theorem left (h : Numbered start (stream ++ later)) : Numbered start stream := by
  intro i p hi
  refine h i p ?_
  rw [List.getElem?_append_left (List.getElem?_eq_some_iff.mp hi).1]
  exact hi

theorem right (h : Numbered start (stream ++ later)) : Numbered (start.add stream.length) later := by
  intro i p hi
  rw [SeqNumber.add_add]
  refine h (stream.length + i) p ?_
  rw [List.getElem?_append_right (Nat.le_add_right _ _), Nat.add_sub_cancel_left]
  exact hi

/-- Up to one full turn of the sequence space no number comes twice. -/
theorem nodup (h : Numbered start stream) (hlen : stream.length ≤ 0x80000000) : (stream.map (·.seq)).Nodup := by
  rw [List.nodup_iff_getElem?_ne_getElem?]
  intro i j hij hj heq
  rw [List.length_map] at hj
  rw [List.getElem?_map, List.getElem?_map, List.getElem?_eq_getElem (hij.trans hj),
    List.getElem?_eq_getElem hj, Option.map_some, Option.map_some, Option.some.injEq,
    h i _ (List.getElem?_eq_getElem (hij.trans hj)), h j _ (List.getElem?_eq_getElem hj)] at heq
  have := SeqNumber.add_inj start i j (by rw [abs_lt]; omega) heq
  omega

theorem iff_map (start : SeqNumber) (stream : List DataPacket) :
    stream.map (·.seq) = (List.range stream.length).map start.add ↔ Numbered start stream := by
  constructor
  · intro h i p hi
    have hlt := (List.getElem?_eq_some_iff.mp hi).1
    have hat := congrArg (·[i]?) h
    simpa [hi, List.getElem?_range hlt] using hat
  · intro h
    refine List.ext_getElem (by simp) fun i hi _ => ?_
    rw [List.length_map] at hi
    simpa using h i stream[i] (List.getElem?_eq_getElem hi)

instance (start : SeqNumber) (stream : List DataPacket) : Decidable (Numbered start stream) :=
  decidable_of_iff _ (iff_map start stream)

end Numbered

/-! ## Reassembly -/

namespace Reassembler

/-- The messages a list of packets completes, and the partial message it leaves. -/
def pushAll : Reassembler → List DataPacket → List Bytes × Reassembler
  | r, [] => ([], r)
  | r, packet :: rest =>
    ((r.push packet).1.toList ++ ((r.push packet).2.pushAll rest).1, ((r.push packet).2.pushAll rest).2)

theorem pushAll_append (r : Reassembler) (ps qs : List DataPacket) :
    r.pushAll (ps ++ qs) =
      ((r.pushAll ps).1 ++ ((r.pushAll ps).2.pushAll qs).1, ((r.pushAll ps).2.pushAll qs).2) := by
  induction ps generalizing r with
  | nil => rfl
  | cons p ps ih => simp [pushAll, ih]

/-- Nothing is completed before a last fragment. -/
theorem pushAll_open {r : Reassembler} {ps : List DataPacket}
    (hpos : ∀ p ∈ ps, p.position = .first ∨ p.position = .middle) : (r.pushAll ps).1 = [] := by
  induction ps generalizing r with
  | nil => rfl
  | cons p ps ih =>
    have hpush : (r.push p).1 = none := by
      unfold push
      rcases hpos p List.mem_cons_self with hp | hp
      · rw [hp]
      · rw [hp]
        dsimp only
        split <;> rfl
    rw [pushAll, hpush, ih fun p hp => hpos p (List.mem_cons_of_mem _ hp)]
    rfl

/-- The next fragment is none of these. -/
def Past (r : Reassembler) (packets : List DataPacket) : Prop := ∀ p ∈ packets, r.nextSeq ≠ some p.seq

/-- Fragments that do not continue the message in progress complete nothing. -/
theorem pushAll_past {r : Reassembler} {ps : List DataPacket}
    (hpos : ∀ p ∈ ps, p.position = .middle ∨ p.position = .last) (hpast : r.Past ps) :
    (r.pushAll ps).1 = [] ∧ ∀ q, (r.pushAll ps).2.nextSeq = some q → r.nextSeq = some q := by
  induction ps generalizing r with
  | nil => exact ⟨rfl, fun q hq => hq⟩
  | cons p ps ih =>
    have hpush : r.push p = (none, empty) := by
      have hne := hpast p List.mem_cons_self
      rcases hpos p List.mem_cons_self with hp | hp <;> rw [push, hp] <;> dsimp only <;> rw [if_pos hne]
    have hempty : empty.Past ps := fun _ _ => by simp [empty]
    obtain ⟨hout, hnext⟩ := ih (fun p hp => hpos p (List.mem_cons_of_mem _ hp)) hempty
    unfold pushAll
    rw [hpush]
    refine ⟨hout, fun q hq => ?_⟩
    exact absurd (hnext q hq) (by simp [empty])

/-- From the expected fragment on: with nothing missing the message is complete, otherwise it never is,
and what is expected in the end is a fragment of it. -/
theorem pushAll_continuation {parts : List (PacketPosition × Bytes)} (hrest : Continuation parts)
    {r : Reassembler} {start : SeqNumber} {fragments ps : List DataPacket}
    (hparts : fragments.map DataPacket.part = parts) (hnum : Numbered start fragments)
    (hnodup : (fragments.map (·.seq)).Nodup) (hsync : r.nextSeq = some start) (hsub : ps.Sublist fragments) :
    (ps = fragments → r.pushAll ps = ([(r.fragments ++ fragments.map (·.payload)).flatten], empty)) ∧
      (ps ≠ fragments → (r.pushAll ps).1 = [] ∧
        ∀ q, (r.pushAll ps).2.nextSeq = some q → q ∈ fragments.map (·.seq)) := by
  induction hrest generalizing r start fragments ps with
  | last bytes =>
    obtain ⟨p, rfl, hp⟩ := List.map_eq_singleton_iff.mp hparts
    have hposition : p.position = .last := congrArg Prod.fst hp
    rcases List.sublist_singleton.mp hsub with rfl | rfl
    · refine ⟨fun h => absurd h (by simp), fun _ => ⟨rfl, fun q hq => ?_⟩⟩
      rw [pushAll, hsync] at hq
      rw [List.map_singleton, List.mem_singleton, hnum.head]
      exact (Option.some.inj hq).symm
    · refine ⟨fun _ => ?_, fun h => absurd rfl h⟩
      have hpush : r.push p = (some (r.fragments ++ [p.payload]).flatten, empty) := by
        rw [push, hposition]
        dsimp only
        rw [hsync, hnum.head, if_neg (by simp)]
      rw [pushAll, hpush]
      rfl
  | @middle bytes rest hrest ih =>
    obtain ⟨p, later, rfl, hp, hlater⟩ := List.map_eq_cons_iff.mp hparts
    have hposition : p.position = .middle := congrArg Prod.fst hp
    rw [List.map_cons, List.nodup_cons] at hnodup
    cases hsub with
    | cons _ hsub =>
      -- the expected fragment is missing
      have hpast : r.Past ps := by
        intro q hq
        rw [hsync, ← hnum.head]
        intro heq
        rw [Option.some.inj heq] at hnodup
        exact hnodup.1 (List.mem_map_of_mem (hsub.subset hq))
      have hpos : ∀ q ∈ ps, q.position = .middle ∨ q.position = .last := fun q hq =>
        hrest.position q.part (hlater ▸ List.mem_map_of_mem (hsub.subset hq))
      obtain ⟨hout, hnext⟩ := pushAll_past hpos hpast
      refine ⟨fun h => ?_, fun _ => ⟨hout, fun q hq => ?_⟩⟩
      · have := hsub.length_le
        rw [h, List.length_cons] at this
        omega
      · have := hnext q hq
        rw [hsync] at this
        rw [List.map_cons, hnum.head]
        exact List.mem_cons.mpr (.inl (Option.some.inj this).symm)
    | cons_cons _ hsub =>
      rename_i ps
      have hpush : r.push p = (none, ⟨r.fragments ++ [p.payload], some start.next⟩) := by
        rw [push, hposition]
        dsimp only
        rw [hsync, hnum.head, if_neg (by simp)]
      obtain ⟨hall, hsome⟩ := ih hlater hnum.tail hnodup.2 (r := ⟨r.fragments ++ [p.payload], some start.next⟩) rfl hsub
      rw [pushAll, hpush]
      refine ⟨fun h => ?_, fun h => ?_⟩
      · rw [hall (List.cons.inj h).2]
        simp
      · obtain ⟨hout, hnext⟩ := hsome fun he => h (by rw [he])
        exact ⟨hout, fun q hq => List.mem_cons_of_mem _ (hnext q hq)⟩

/-- The packets of one message, any of which may be missing. -/
theorem pushAll_message {message : Bytes} {r : Reassembler} {start : SeqNumber} {packets ps : List DataPacket}
    (hspells : Spells message (packets.map DataPacket.part)) (hnum : Numbered start packets)
    (hnodup : (packets.map (·.seq)).Nodup) (hpast : r.Past packets) (hsub : ps.Sublist packets) :
    (r.pushAll ps).1 = (if ps = packets then [message] else []) ∧
      ∀ q, (r.pushAll ps).2.nextSeq = some q → r.nextSeq = some q ∨ q ∈ packets.map (·.seq) := by
  generalize hparts : packets.map DataPacket.part = parts at hspells
  cases hspells with
  | single =>
    obtain ⟨p, rfl, hp⟩ := List.map_eq_singleton_iff.mp hparts
    have hposition : p.position = .single := congrArg Prod.fst hp
    have hpayload : p.payload = message := congrArg Prod.snd hp
    have hpush : r.push p = (some message, empty) := by rw [push, hposition, hpayload]
    rcases List.sublist_singleton.mp hsub with rfl | rfl
    · rw [if_neg (by simp)]
      exact ⟨rfl, fun q hq => .inl hq⟩
    · rw [pushAll, hpush, if_pos rfl]
      exact ⟨rfl, fun q hq => absurd hq (by simp [pushAll, empty])⟩
  | @split bytes rest hrest hbytes =>
    obtain ⟨p, later, rfl, hp, hlater⟩ := List.map_eq_cons_iff.mp hparts
    have hposition : p.position = .first := congrArg Prod.fst hp
    have hpayload : p.payload = bytes := congrArg Prod.snd hp
    rw [List.map_cons, List.nodup_cons] at hnodup
    cases hsub with
    | cons _ hsub =>
      have hpos : ∀ q ∈ ps, q.position = .middle ∨ q.position = .last := fun q hq =>
        hrest.position q.part (hlater ▸ List.mem_map_of_mem (hsub.subset hq))
      have hne : ps ≠ p :: later := by
        rintro rfl
        have := hsub.length_le
        rw [List.length_cons] at this
        omega
      obtain ⟨hout, hnext⟩ := pushAll_past hpos fun q hq =>
        hpast q (List.mem_cons_of_mem _ (hsub.subset hq))
      rw [if_neg hne]
      exact ⟨hout, fun q hq => .inl (hnext q hq)⟩
    | @cons_cons ps _ _ hsub =>
      have hpush : r.push p = (none, ⟨[p.payload], some start.next⟩) := by
        rw [push, hposition, hnum.head]
      obtain ⟨hall, hsome⟩ := pushAll_continuation hrest hlater hnum.tail hnodup.2
        (r := ⟨[p.payload], some start.next⟩) rfl hsub
      rw [pushAll, hpush]
      by_cases hps : ps = later
      · have hflat : ([p.payload] ++ later.map (·.payload)).flatten = message := by
          rw [← hbytes, ← hpayload, ← hlater, List.flatMap_map]
          simp [DataPacket.part, List.flatMap_def]
        rw [if_pos (by rw [hps]), hall hps, hflat]
        exact ⟨rfl, fun q hq => absurd hq (by simp [empty])⟩
      · obtain ⟨hout, hnext⟩ := hsome hps
        rw [if_neg fun h => hps (List.cons.inj h).2]
        exact ⟨hout, fun q hq => .inr (List.mem_cons_of_mem _ (hnext q hq))⟩

end Reassembler

/-! ## Messages over a lossy stream -/

/-- A message and the packets it travels in. -/
structure Parcel (Makes : Bytes → List DataPacket → Prop) where
  payload : Bytes
  packets : List DataPacket
  makes : Makes payload packets

namespace Parcel

variable {Makes Makes' : Bytes → List DataPacket → Prop}

/-- The packets of some messages, in order. -/
def stream (messages : List (Parcel Makes)) : List DataPacket := messages.flatMap (·.packets)

/-- The messages of which no packet is missing. -/
def complete (messages : List (Parcel Makes)) (received : List DataPacket) : List Bytes :=
  (messages.filter fun m => ∀ p ∈ m.packets, p ∈ received).map (·.payload)

/-- The same message and packets, for a weaker reason. -/
def mono (himp : ∀ payload packets, Makes payload packets → Makes' payload packets) (m : Parcel Makes) :
    Parcel Makes' :=
  ⟨m.payload, m.packets, himp m.payload m.packets m.makes⟩

theorem stream_mono (himp : ∀ payload packets, Makes payload packets → Makes' payload packets)
    (messages : List (Parcel Makes)) : stream (messages.map (mono himp)) = stream messages := by
  rw [stream, List.flatMap_map]
  rfl

theorem complete_mono (himp : ∀ payload packets, Makes payload packets → Makes' payload packets)
    (messages : List (Parcel Makes)) (received : List DataPacket) :
    complete (messages.map (mono himp)) received = complete messages received := by
  rw [complete, List.filter_map, List.map_map]
  rfl

theorem complete_sublist (messages : List (Parcel Makes)) (received : List DataPacket) :
    (complete messages received).Sublist (messages.map (·.payload)) :=
  List.filter_sublist.map _

theorem complete_stream (messages : List (Parcel Makes)) :
    complete messages (stream messages) = messages.map (·.payload) := by
  have hall : ∀ m ∈ messages, decide (∀ p ∈ m.packets, p ∈ stream messages) = true := fun m hm =>
    decide_eq_true fun p hp => List.mem_flatMap.mpr ⟨m, hm, hp⟩
  rw [complete, List.filter_eq_self.mpr hall]

/-- Whether a message is complete depends on its own packets only. -/
theorem complete_cons {m : Parcel Makes} {rest : List (Parcel Makes)} {ps qs : List DataPacket}
    (hps : ps.Sublist m.packets) (hqs : qs.Sublist (stream rest)) (hnodup : m.packets.Nodup)
    (hapart : ∀ p ∈ m.packets, p ∉ stream rest) :
    complete (m :: rest) (ps ++ qs)
      = (if ps = m.packets then [m.payload] else []) ++ complete rest qs := by
  have hown : (∀ p ∈ m.packets, p ∈ ps ++ qs) ↔ ps = m.packets := by
    constructor
    · intro hall
      have hsubset : m.packets ⊆ ps := by
        intro p hp
        rcases List.mem_append.mp (hall p hp) with h | h
        · exact h
        · exact absurd (hqs.subset h) (hapart p hp)
      exact hps.eq_of_length_le (List.subperm_of_subset hnodup hsubset).length_le
    · rintro rfl p hp
      exact List.mem_append_left _ hp
  have hothers : rest.filter (fun m' => decide (∀ p ∈ m'.packets, p ∈ ps ++ qs))
      = rest.filter fun m' => decide (∀ p ∈ m'.packets, p ∈ qs) := by
    refine List.filter_congr fun m' hm' => decide_eq_decide.mpr (forall₂_congr fun p hp => ?_)
    have hstream : p ∈ stream rest := List.mem_flatMap.mpr ⟨m', hm', hp⟩
    rw [List.mem_append, or_iff_right fun h => hapart p (hps.subset h) hstream]
  rw [complete, List.filter_cons, hothers]
  by_cases h : ps = m.packets
  · rw [if_pos (decide_eq_true (hown.mpr h)), if_pos h]
    rfl
  · rw [if_neg (by rw [decide_eq_true_iff]; exact fun ha => h (hown.mp ha)), if_neg h]
    rfl

end Parcel

/-- A message and packets that spell it. -/
abbrev Spelled : Type := Parcel fun payload packets => Spells payload (packets.map DataPacket.part)

namespace Spelled
open Parcel

theorem pushAll_stream (messages : List Spelled) {start : SeqNumber}
    (hnum : Numbered start (stream messages)) (hnodup : ((stream messages).map (·.seq)).Nodup)
    {r : Reassembler} (hpast : r.Past (stream messages)) {received : List DataPacket}
    (hsub : received.Sublist (stream messages)) :
    (r.pushAll received).1 = complete messages received := by
  induction messages generalizing start r received with
  | nil =>
    obtain rfl := List.sublist_nil.mp hsub
    rfl
  | cons m rest ih =>
    have hstream : stream (m :: rest) = m.packets ++ stream rest := rfl
    rw [hstream] at hnum hnodup hpast hsub
    rw [List.map_append, List.nodup_append] at hnodup
    obtain ⟨ps, qs, rfl, hps, hqs⟩ := List.sublist_append_iff.mp hsub
    obtain ⟨hnodup, hnodup', hdisjoint⟩ := hnodup
    have hapart : ∀ p ∈ m.packets, p ∉ stream rest := fun p hp hp' =>
      hdisjoint _ (List.mem_map_of_mem hp) _ (List.mem_map_of_mem hp') rfl
    obtain ⟨hout, hnext⟩ := Reassembler.pushAll_message m.makes hnum.left hnodup
      (fun p hp => hpast p (List.mem_append_left _ hp)) hps
    have hpast' : (r.pushAll ps).2.Past (stream rest) := by
      intro p hp he
      rcases hnext _ he with h | h
      · exact hpast p (List.mem_append_right _ hp) h
      · exact hdisjoint _ h _ (List.mem_map_of_mem hp) rfl
    rw [Reassembler.pushAll_append, hout, ih hnum.right hnodup' hpast' hqs,
      complete_cons hps hqs hnodup.of_map hapart]

/-- The packets sent so far, as messages that are all there and the beginning of the next. -/
theorem exists_cut {plan : List (Bytes × List (PacketPosition × Bytes))} (hplan : ∀ m ∈ plan, Spells m.1 m.2)
    {sent : List DataPacket} {rest : List (PacketPosition × Bytes)}
    (h : sent.map DataPacket.part ++ rest = plan.flatMap (·.2)) :
    ∃ (messages : List Spelled) (tail : List DataPacket), sent = stream messages ++ tail
      ∧ messages.map (·.payload) <+: plan.map (·.1)
      ∧ (∀ p ∈ tail, p.position = .first ∨ p.position = .middle)
      ∧ (rest = [] → tail = [] ∧ messages.map (·.payload) = plan.map (·.1)) := by
  induction plan generalizing sent with
  | nil =>
    obtain ⟨hsent, -⟩ := List.append_eq_nil_iff.mp h
    obtain rfl := List.map_eq_nil_iff.mp hsent
    exact ⟨[], [], rfl, List.prefix_rfl, by simp, fun _ => ⟨rfl, rfl⟩⟩
  | cons m plan ih =>
    rw [List.flatMap_cons] at h
    have hspells := hplan m List.mem_cons_self
    by_cases hlen : m.2.length ≤ sent.length
    · have hsplit : (sent.take m.2.length).map DataPacket.part ++ ((sent.drop m.2.length).map DataPacket.part ++ rest)
          = m.2 ++ plan.flatMap (·.2) := by
        rw [← List.append_assoc, ← List.map_append, List.take_append_drop]
        exact h
      obtain ⟨hfront, hback⟩ := List.append_inj hsplit (by simp [hlen])
      obtain ⟨messages, tail, hsent, hprefix, htail, hdone⟩ :=
        ih (fun m hm => hplan m (List.mem_cons_of_mem _ hm)) hback
      have hown : Spells m.1 ((sent.take m.2.length).map DataPacket.part) := by
        rw [hfront]
        exact hspells
      refine ⟨⟨m.1, sent.take m.2.length, hown⟩ :: messages, tail, ?_, ?_, htail, ?_⟩
      · change sent = (sent.take m.2.length ++ stream messages) ++ tail
        rw [List.append_assoc, ← hsent, List.take_append_drop]
      · rw [List.map_cons, List.map_cons]
        exact List.cons_prefix_cons.mpr ⟨rfl, hprefix⟩
      · intro hnil
        obtain ⟨htail, hpayloads⟩ := hdone hnil
        exact ⟨htail, by rw [List.map_cons, List.map_cons, hpayloads]⟩
    · have hcut : sent.map DataPacket.part ++ m.2.drop sent.length = m.2 := by
        have htake := congrArg (List.take sent.length) h
        rw [List.take_left' (by simp), List.take_append_of_le_length (by omega)] at htake
        rw [htake, List.take_append_drop]
      have hopen := hspells.cut hcut (by rw [ne_eq, List.drop_eq_nil_iff]; exact hlen)
      refine ⟨[], sent, rfl, List.nil_prefix, fun p hp => hopen p.part (List.mem_map_of_mem hp), ?_⟩
      rintro rfl
      have hcount := congrArg List.length h
      simp only [List.append_nil, List.length_map, List.length_append] at hcount
      omega

/-- Of packets sent so far the reassembler makes messages of which all packets were sent. -/
theorem pushAll_cut {messages : List Spelled} {tail : List DataPacket} {start : SeqNumber}
    (hnum : Numbered start (stream messages ++ tail)) (hlen : (stream messages).length ≤ 0x80000000)
    (htail : ∀ p ∈ tail, p.position = .first ∨ p.position = .middle) {received : List DataPacket}
    (hsub : received.Sublist (stream messages ++ tail)) :
    (Reassembler.empty.pushAll received).1.Sublist (messages.map (·.payload)) := by
  obtain ⟨ps, qs, rfl, hps, hqs⟩ := List.sublist_append_iff.mp hsub
  rw [Reassembler.pushAll_append, Reassembler.pushAll_open fun p hp => htail p (hqs.subset hp), List.append_nil,
    pushAll_stream messages hnum.left (hnum.left.nodup hlen) (fun _ _ => by simp [Reassembler.empty]) hps]
  exact complete_sublist messages ps

end Spelled

/-- A message and the packets its fragments travel in. -/
abbrev Carried (max : ℕ) : Type :=
  Parcel fun payload packets => ∃ message, packets.map DataPacket.part
    = (Connection.fragmentPayload max payload message).map Fragment.part

namespace Carried
open Parcel

variable {max : ℕ}

/-- The packets of a fragmented message spell it. -/
theorem spells (hmax : 1 ≤ max) (payload : Bytes) (packets : List DataPacket)
    (h : ∃ message, packets.map DataPacket.part
      = (Connection.fragmentPayload max payload message).map Fragment.part) :
    Spells payload (packets.map DataPacket.part) := by
  obtain ⟨message, hfragments⟩ := h
  rw [hfragments]
  exact (Connection.fragmentPayload_spells payload message hmax).1

/-- Fragmentation and reassembly are exact under loss: of the numbered fragments of some messages, any of
which may be missing, the reassembler makes exactly the messages whose fragments are all there, in
order; and no fragment is longer than the limit. -/
theorem reassembled_eq_complete (hmax : 1 ≤ max) (messages : List (Carried max)) (start : SeqNumber)
    (hnum : Numbered start (stream messages)) (hlen : (stream messages).length ≤ 2 ^ 31)
    (received : List DataPacket) (hsub : received.Sublist (stream messages)) :
    (Reassembler.empty.pushAll received).1 = complete messages received ∧
      ∀ (payload : Bytes) (message : UInt32), ∀ f ∈ Connection.fragmentPayload max payload message,
        f.payload.length ≤ max := by
  refine ⟨?_, fun payload message => (Connection.fragmentPayload_spells payload message hmax).2⟩
  have hnodup := hnum.nodup hlen
  rw [← stream_mono (spells hmax)] at hnum hnodup hsub
  rw [← complete_mono (spells hmax)]
  exact Spelled.pushAll_stream _ hnum hnodup (fun _ _ => by simp [Reassembler.empty]) hsub

/-- A packet of a stream. -/
def samplePacket (seq : UInt32) (position : PacketPosition) (payload : Bytes) : DataPacket where
  seq := SeqNumber.new seq
  position := position
  inOrder := true
  encryption := .none
  retransmitted := false
  messageNumber := MsgNumber.new 1
  timestamp := ⟨0⟩
  destSocketId := ⟨2⟩
  payload := payload

/-- Three messages in fragments of two bytes, across the end of the sequence space. -/
def sampleMessages : List (Carried 2) :=
  [⟨[1, 2, 3, 4, 5], [samplePacket 2147483646 .first [1, 2], samplePacket 2147483647 .middle [3, 4],
      samplePacket 0 .last [5]], 1, by decide⟩,
    ⟨[6], [samplePacket 1 .single [6]], 2, by decide⟩,
    ⟨[7, 8, 9], [samplePacket 2 .first [7, 8], samplePacket 3 .last [9]], 3, by decide⟩]

/-- The middle of the first message is lost. -/
theorem reassembled_without_middle :
    (Reassembler.empty.pushAll ((stream sampleMessages).eraseIdx 1)).1
        = complete sampleMessages ((stream sampleMessages).eraseIdx 1) ∧
      ∀ (payload : Bytes) (message : UInt32), ∀ f ∈ Connection.fragmentPayload 2 payload message,
        f.payload.length ≤ 2 :=
  reassembled_eq_complete (by decide) sampleMessages (SeqNumber.new 2147483646) (by decide) (by decide) _
    (List.eraseIdx_sublist _ _)

example : complete sampleMessages ((stream sampleMessages).eraseIdx 1) = [[6], [7, 8, 9]] := by decide

end Carried

end Srtrust
