import Srtrust.Connection.Feedback
import Srtrust.Buffers.Loss

/-! # Retransmission

What a loss report makes the sender do: walking a contiguous buffer sends each packet of a range
once, unless it was sent again too recently, and disjoint ranges do not disturb each other. With
what the receiver reports this closes the loop. -/
namespace Srtrust
open BigEndian
set_option autoImplicit false

/-! ## The `R` flag -/

/-- An encoded data packet with its `R` bit set and nothing else changed. -/
def setR (datagram : Bytes) : Bytes :=
  datagram.take 4 ++ putU32 ((getU32 (datagram.drop 4)).1 ||| 0x04000000) ++ datagram.drop 8

theorem word1_retransmitted (position : PacketPosition) (inOrder : Bool) (encryption : Encryption)
    (retransmitted : Bool) (messageNumber : MsgNumber) :
    UInt32.ofNat (DataPacket.word1 position inOrder encryption true messageNumber)
      = UInt32.ofNat (DataPacket.word1 position inOrder encryption retransmitted messageNumber) ||| 0x04000000 := by
  have hflag : (0x04000000 : UInt32) = UInt32.ofNat (true.toNat <<< 26) := rfl
  unfold DataPacket.word1
  rw [hflag, ← UInt32.ofNat_or]
  generalize position.toBits <<< 30 ||| inOrder.toNat <<< 29 ||| encryption.toBits <<< 27 = high
  congr 1
  have hself : retransmitted.toNat <<< 26 ||| true.toNat <<< 26 = true.toNat <<< 26 := by
    cases retransmitted <;> rfl
  rw [Nat.or_right_comm _ messageNumber.value, Nat.or_assoc high (retransmitted.toNat <<< 26), hself]

theorem Connection.encodeRetransmit_eq (packet : DataPacket) :
    encodeRetransmit packet = setR packet.encode := by
  have hseq : ∀ rest, (putU32 packet.seq.value ++ rest).take 4 = putU32 packet.seq.value := fun rest =>
    List.take_left' (length_putU32 _)
  have hrest : ∀ v rest, (putU32 v ++ rest).drop 4 = rest := fun v rest => List.drop_left' (length_putU32 _)
  have htail : ∀ v w rest, (putU32 v ++ (putU32 w ++ rest)).drop 8 = rest := by
    intro v w rest
    rw [← List.drop_drop (i := 4) (j := 4), hrest, hrest]
  simp only [encodeRetransmit, DataPacket.encode, setR, List.append_assoc]
  rw [hseq, hrest, getU32_put, htail,
    word1_retransmitted packet.position packet.inOrder packet.encryption packet.retransmitted]

/-- The sequence number lies in one of the ranges. -/
def names (ranges : List (SeqNumber × SeqNumber)) (n : SeqNumber) : Bool :=
  ranges.any fun r => Connection.inRange n r.1 r.2

namespace Connection

/-! ## Walking the buffer -/

theorem walk_eq (n : ℕ) (seq : SeqNumber) : walk n seq = (List.range n).map seq.add := by
  induction n generalizing seq with
  | zero => rfl
  | succ n ih =>
    rw [walk, ih, List.range_succ_eq_map, List.map_cons, List.map_map, SeqNumber.add_zero]
    congr 1
    refine List.map_congr_left fun k _ => ?_
    rw [Function.comp_apply, SeqNumber.next_eq_add, SeqNumber.add_add, Nat.add_comm]

/-- The retransmission loop visits the buffered packets, in order and once each. -/
theorem visited_eq {b : SendBuffer} (h : b.Contiguous) (hlen : b.len ≤ 0x40000000) {first last : SeqNumber}
    (hf : b.firstSeq = some first) (hl : b.lastSeq = some last) :
    visited first last = b.packets.map (·.packet.seq) := by
  obtain ⟨s, hs, hseq⟩ := Option.map_eq_some_iff.mp hl
  rw [List.getLast?_eq_getElem?] at hs
  have hlt := (List.getElem?_eq_some_iff.mp hs).1
  have hlast : last = first.add (b.packets.length - 1) := hseq.symm.trans (h.seq_eq hf hs)
  rw [SendBuffer.len] at hlen
  have hcount : (last.val + 0x80000000 - first.val) % 0x80000000 + 1 = b.packets.length := by
    have := first.lt
    simp only [hlast, SeqNumber.add]
    omega
  rw [visited, hcount, walk_eq]
  refine List.ext_getElem? fun i => ?_
  rw [List.getElem?_map, List.getElem?_map]
  by_cases hi : i < b.packets.length
  · have hget := List.getElem?_eq_getElem hi
    rw [List.getElem?_range hi, hget, Option.map_some, Option.map_some, h.seq_eq hf hget]
  · rw [List.getElem?_eq_none (by simpa using hi), List.getElem?_eq_none (by simpa using hi)]
    rfl

/-- Whether a loss range asks for a packet that was not sent again just now. -/
def wanted (gate : Duration) (now : Instant) (start stop : SeqNumber) (s : Sent) : Bool :=
  inRange s.packet.seq start stop && !(s.lastRetransmit.any fun t => now.saturatingDurationSince t < gate)

/-- A packet after the loop: sent again if it was due. -/
def stamp (now : Instant) (wanted : Sent → Bool) (s : Sent) : Sent :=
  if wanted s then { s with lastRetransmit := some now } else s

/-- A packet sent again. -/
def resent (s : Sent) : Output := .sendDatagram (encodeRetransmit s.packet)

@[simp] theorem stamp_packet (now : Instant) (wanted : Sent → Bool) (s : Sent) :
    (stamp now wanted s).packet = s.packet := by
  unfold stamp
  split <;> rfl

section Loop

variable {gate : Duration} {now : Instant} {start stop : SeqNumber}

theorem modify_append_cons {α : Type} (xs ys : List α) (y : α) (f : α → α) :
    (xs ++ y :: ys).modify xs.length f = xs ++ f y :: ys := by
  induction xs with
  | nil => rfl
  | cons x xs ih => rw [List.cons_append, List.length_cons, List.modify_succ_cons, ih, List.cons_append]

/-- One turn of the loop, at the packet after those it has dealt with. -/
theorem retransmitOne_eq {d : Connection} {before after : List Sent} {s : Sent}
    (hcont : d.tx.sendBuffer.Contiguous) (hlen : d.tx.sendBuffer.len ≤ 0x40000000)
    (hb : d.tx.sendBuffer.packets = before ++ s :: after) :
    (d.retransmitOne gate start stop s.packet.seq now).outputs
        = d.outputs ++ ([s].filter (wanted gate now start stop)).map resent ∧
      (d.retransmitOne gate start stop s.packet.seq now).tx.sendBuffer.packets
        = before ++ stamp now (wanted gate now start stop) s :: after := by
  have hget : d.tx.sendBuffer.packets[before.length]? = some s := by rw [hb]; simp
  have hindex := hcont.indexOf_eq hlen hget
  have hfind : d.tx.sendBuffer.get s.packet.seq = some s.packet := by
    simp only [SendBuffer.get, hindex, hget, Option.bind_eq_bind, Option.bind_some]
  have hlast : d.tx.sendBuffer.lastRetransmitted s.packet.seq = s.lastRetransmit := by
    simp only [SendBuffer.lastRetransmitted, hindex, hget, Option.bind_eq_bind, Option.bind_some]
  have hcond : (inRange s.packet.seq start stop && !d.resentRecently gate s.packet.seq now)
      = wanted gate now start stop s := by
    rw [resentRecently, hlast, wanted]
  unfold retransmitOne
  rw [hcond, hfind]
  cases hwanted : wanted gate now start stop s with
  | false =>
    have hstamp : stamp now (wanted gate now start stop) s = s := by simp [stamp, hwanted]
    rw [hstamp, List.filter_cons_of_neg (by simp [hwanted])]
    exact ⟨by simp, hb⟩
  | true =>
    have hstamp : stamp now (wanted gate now start stop) s = { s with lastRetransmit := some now } := by
      simp [stamp, hwanted]
    rw [hstamp, List.filter_cons_of_pos hwanted]
    refine ⟨rfl, ?_⟩
    change (d.tx.sendBuffer.markRetransmitted s.packet.seq now).packets = _
    rw [SendBuffer.markRetransmitted, hindex, hb]
    exact modify_append_cons before after s _

theorem retransmitLoop_eq (before after : List Sent) {d : Connection}
    (hcont : d.tx.sendBuffer.Contiguous) (hlen : d.tx.sendBuffer.len ≤ 0x40000000)
    (hb : d.tx.sendBuffer.packets = before ++ after) :
    ((after.map (·.packet.seq)).foldl (fun d seq => d.retransmitOne gate start stop seq now) d).outputs
        = d.outputs ++ (after.filter (wanted gate now start stop)).map resent ∧
      ((after.map (·.packet.seq)).foldl (fun d seq => d.retransmitOne gate start stop seq now) d).tx.sendBuffer.packets
        = before ++ after.map (stamp now (wanted gate now start stop)) := by
  induction after generalizing before d with
  | nil => exact ⟨by simp, hb⟩
  | cons s after ih =>
    obtain ⟨hout, hbuf⟩ := @retransmitOne_eq gate now start stop d before after s hcont hlen hb
    have hcontent : (d.retransmitOne gate start stop s.packet.seq now).tx.sendBuffer.content
        = d.tx.sendBuffer.content := by
      rw [SendBuffer.content, SendBuffer.content, hbuf, hb]
      simp
    rw [List.map_cons, List.foldl_cons]
    generalize d.retransmitOne gate start stop s.packet.seq now = e at hout hbuf hcontent ⊢
    have hcont' : e.tx.sendBuffer.Contiguous := by
      rw [SendBuffer.Contiguous, hcontent]
      exact hcont
    have hlen' : e.tx.sendBuffer.len ≤ 0x40000000 := by
      rw [SendBuffer.len_eq, hcontent, ← SendBuffer.len_eq]
      exact hlen
    obtain ⟨hout', hbuf'⟩ := ih (before ++ [stamp now (wanted gate now start stop) s]) hcont' hlen'
      (by rw [hbuf, List.append_assoc, List.singleton_append])
    refine ⟨?_, ?_⟩
    · rw [hout', hout, List.append_assoc, ← List.map_append, ← List.filter_append, List.singleton_append]
    · rw [hbuf', List.append_assoc, List.singleton_append, List.map_cons]

/-- What a loss range makes the sender do. -/
theorem retransmitRange_eq {c : Connection} (hcont : c.tx.sendBuffer.Contiguous)
    (hlen : c.tx.sendBuffer.len ≤ 0x40000000) (start stop : SeqNumber) (now : Instant) :
    (c.retransmitRange start stop now).outputs
        = c.outputs ++ (c.tx.sendBuffer.packets.filter (wanted c.rtt.rtt now start stop)).map resent ∧
      (c.retransmitRange start stop now).tx.sendBuffer.packets
        = c.tx.sendBuffer.packets.map (stamp now (wanted c.rtt.rtt now start stop)) := by
  unfold retransmitRange
  split
  · next first last hf hl =>
    rw [visited_eq hcont hlen hf hl]
    exact retransmitLoop_eq [] c.tx.sendBuffer.packets hcont hlen rfl
  · next hnone =>
    have hempty : c.tx.sendBuffer.packets = [] := by
      cases hp : c.tx.sendBuffer.packets with
      | nil => rfl
      | cons s rest =>
        refine absurd ?_ (hnone s.packet.seq ((s :: rest).getLast (by simp)).packet.seq
          (by simp [SendBuffer.firstSeq, hp]))
        rw [SendBuffer.lastSeq, hp, List.getLast?_eq_getLast_of_ne_nil (by simp), Option.map_some]
    rw [hempty]
    simp

end Loop

/-! ## Loss reports -/

theorem filter_append_filter_perm {α : Type} {p q : α → Bool} {xs : List α}
    (h : ∀ x ∈ xs, p x = true → q x = false) :
    (xs.filter p ++ xs.filter q).Perm (xs.filter fun x => p x || q x) := by
  have hsplit := List.filter_append_perm p (xs.filter fun x => p x || q x)
  rw [List.filter_filter, List.filter_filter] at hsplit
  have hp : xs.filter (fun x => p x && (p x || q x)) = xs.filter p :=
    List.filter_congr fun x _ => by cases p x <;> simp
  have hq : xs.filter (fun x => (!p x) && (p x || q x)) = xs.filter q := by
    refine List.filter_congr fun x hx => ?_
    cases hpx : p x with
    | false => simp
    | true => simp [h x hx hpx]
  rwa [hp, hq] at hsplit

section Report

variable {now : Instant}

/-- No packet of the buffer lies in two of the ranges. -/
def Apart (packets : List Sent) (loss : List LossRange) : Prop :=
  ∀ s ∈ packets, loss.Pairwise fun r r' =>
    inRange s.packet.seq r.start r.stop = true → inRange s.packet.seq r'.start r'.stop = false

/-- A packet that one range has sent again is not asked for by the others. -/
theorem filter_wanted_stamp {gate : Duration} {packets : List Sent} {r r' : LossRange}
    (h : ∀ s ∈ packets, inRange s.packet.seq r.start r.stop = true →
      inRange s.packet.seq r'.start r'.stop = false) :
    ((packets.map (stamp now (wanted gate now r.start r.stop))).filter (wanted gate now r'.start r'.stop)).map resent
      = (packets.filter (wanted gate now r'.start r'.stop)).map resent := by
  have hresent : ∀ s, resent (stamp now (wanted gate now r.start r.stop) s) = resent s := fun s => by
    rw [resent, stamp_packet, resent]
  rw [List.filter_map, List.map_map]
  have hwanted : ∀ s ∈ packets, (wanted gate now r'.start r'.stop ∘ stamp now (wanted gate now r.start r.stop)) s
      = wanted gate now r'.start r'.stop s := by
    intro s hs
    rw [Function.comp_apply]
    by_cases hr : wanted gate now r.start r.stop s
    · have hout := h s hs (Bool.and_eq_true_iff.mp hr).1
      rw [wanted, wanted, stamp_packet, hout, Bool.false_and, Bool.false_and]
    · rw [stamp, if_neg hr]
  rw [List.filter_congr hwanted]
  exact List.map_congr_left fun s _ => hresent s

/-- What a loss report makes the sender emit: for each range, the packets of that range that are
due. -/
theorem retransmitRanges_outputs (loss : List LossRange) {c : Connection}
    (hcont : c.tx.sendBuffer.Contiguous) (hlen : c.tx.sendBuffer.len ≤ 0x40000000)
    (hapart : Apart c.tx.sendBuffer.packets loss) :
    (loss.foldl (fun c range => c.retransmitRange range.start range.stop now) c).outputs
      = c.outputs ++ loss.flatMap fun r =>
        (c.tx.sendBuffer.packets.filter (wanted c.rtt.rtt now r.start r.stop)).map resent := by
  induction loss generalizing c with
  | nil => simp
  | cons r loss ih =>
    obtain ⟨hout, hbuf⟩ := retransmitRange_eq hcont hlen r.start r.stop now
    have hrtt := (retransmitRange_feedback c r.start r.stop now).rtt
    rw [List.foldl_cons]
    generalize c.retransmitRange r.start r.stop now = d at hout hbuf hrtt ⊢
    have hcontent : d.tx.sendBuffer.content = c.tx.sendBuffer.content := by
      simp only [SendBuffer.content, hbuf, List.map_map, Function.comp_def, stamp_packet]
    have hcont' : d.tx.sendBuffer.Contiguous := by
      rw [SendBuffer.Contiguous, hcontent]
      exact hcont
    have hlen' : d.tx.sendBuffer.len ≤ 0x40000000 := by
      rw [SendBuffer.len_eq, hcontent, ← SendBuffer.len_eq]
      exact hlen
    have hapart' : Apart d.tx.sendBuffer.packets loss := by
      intro s hs
      rw [hbuf] at hs
      obtain ⟨s', hs', rfl⟩ := List.mem_map.mp hs
      rw [stamp_packet]
      exact (List.pairwise_cons.mp (hapart s' hs')).2
    have hrest : ∀ r' ∈ loss,
        (d.tx.sendBuffer.packets.filter (wanted c.rtt.rtt now r'.start r'.stop)).map resent
          = (c.tx.sendBuffer.packets.filter (wanted c.rtt.rtt now r'.start r'.stop)).map resent := by
      intro r' hr'
      rw [hbuf]
      exact filter_wanted_stamp fun s hs => (List.pairwise_cons.mp (hapart s hs)).1 r' hr'
    rw [ih hcont' hlen' hapart', hout, hrtt, List.append_assoc, List.flatMap_cons, List.flatMap_congr hrest]

/-- Over all ranges, each packet that is due in one of them is due once. -/
theorem flatMap_wanted_perm {gate : Duration} {packets : List Sent} {loss : List LossRange}
    (h : Apart packets loss) :
    (loss.flatMap fun r => packets.filter (wanted gate now r.start r.stop)).Perm
      (packets.filter fun s => loss.any fun r => wanted gate now r.start r.stop s) := by
  induction loss with
  | nil => simp
  | cons r loss ih =>
    have hrest := ih fun s hs => (List.pairwise_cons.mp (h s hs)).2
    simp only [List.flatMap_cons, List.any_cons]
    refine (hrest.append_left _).trans (filter_append_filter_perm fun s hs hwanted => ?_)
    rw [List.any_eq_false]
    intro r' hr' hwanted'
    have hin := (Bool.and_eq_true_iff.mp hwanted).1
    have hout := (List.pairwise_cons.mp (h s hs)).1 r' hr' hin
    rw [wanted, hout, Bool.false_and] at hwanted'
    exact Bool.noConfusion hwanted'

theorem any_wanted (gate : Duration) (loss : List LossRange) (s : Sent) :
    (loss.any fun r => wanted gate now r.start r.stop s) = (loss.any (fun r => inRange s.packet.seq r.start r.stop)
      && !(s.lastRetransmit.any fun t => now.saturatingDurationSince t < gate)) := by
  induction loss with
  | nil => rfl
  | cons r loss ih => rw [List.any_cons, List.any_cons, ih, wanted, ← Bool.and_or_distrib_right]

/-- The datagram an output sends, if it is a data packet. -/
def dataOf : Output → Option Bytes
  | .sendDatagram d =>
    match Packet.decode d with
    | .ok (.data _) => some d
    | _ => none
  | _ => none

theorem dataOf_resent (s : Sent) : dataOf (resent s) = some (setR s.packet.encode) := by
  rw [resent, dataOf, ← encodeRetransmit_eq, encodeRetransmit, Packet.decode_data]

theorem filterMap_resent (xs : List Sent) :
    (xs.map resent).filterMap dataOf = xs.map fun s => setR s.packet.encode := by
  induction xs with
  | nil => rfl
  | cons s xs ih => rw [List.map_cons, List.filterMap_cons, dataOf_resent, List.map_cons, ih]

/-- Shedding late packets announces them, and sends no data. -/
theorem dropTooLate_outputs (c : Connection) (now : Instant) :
    ∃ os, (c.dropTooLate now).outputs = c.outputs ++ os ∧ os.filterMap dataOf = [] := by
  unfold dropTooLate
  split
  · next first last _ _ =>
    have hclear : ∀ d : Connection, ∃ os, d.clearExpIfEmpty.outputs = d.outputs ++ os ∧ os.filterMap dataOf = [] := by
      intro d
      unfold clearExpIfEmpty
      split
      · exact ⟨[.clearTimer .exp], rfl, rfl⟩
      · exact ⟨[], by simp, rfl⟩
    obtain ⟨datagram, hemit, hdecode⟩ := @emitControl_conforming (c.dropShed now)
      (.dropReq (UInt32.ofNat last.packet.messageNumber.value) first.packet.seq last.packet.seq) trivial now
    rw [hemit]
    obtain ⟨os, hos, hdata⟩ := hclear ((c.dropShed now).emit datagram now)
    refine ⟨.sendDatagram datagram :: os, ?_, ?_⟩
    · rw [hos]
      exact List.append_assoc _ _ _
    · rw [List.filterMap_cons, dataOf, hdecode]
      exact hdata
  · exact ⟨[], by simp, rfl⟩

end Report

end Connection

/-! ## The loop closed -/

namespace RecvBuffer

theorem inRange_add {base : SeqNumber} {i j : ℕ} (hle : i ≤ j) (hj : j < 0x40000000) (n : SeqNumber) :
    Connection.inRange n (base.add i) (base.add j) = true ↔ ∃ p, i ≤ p ∧ p ≤ j ∧ n = base.add p := by
  rw [Connection.inRange, decide_eq_true_eq]
  constructor
  · rintro ⟨hlo, hhi⟩
    obtain ⟨k, hk⟩ : ∃ k : ℕ, n.offsetFrom (base.add i) = k := ⟨_, (Int.toNat_of_nonneg hlo).symm⟩
    have hbound := (n.offsetFrom_bounds (base.add i)).2
    have hn : n = base.add (i + k) := by
      rw [← SeqNumber.add_add]
      exact SeqNumber.eq_add_of_offsetFrom _ _ _ hk
    rw [hn, SeqNumber.offsetFrom_add base j (i + k) (by omega) (by omega)] at hhi
    exact ⟨i + k, by omega, by omega, hn⟩
  · rintro ⟨p, hlo, hhi, rfl⟩
    rw [SeqNumber.offsetFrom_add base p i (by omega) (by omega),
      SeqNumber.offsetFrom_add base j p (by omega) (by omega)]
    omega

theorem names_span {base : SeqNumber} {gs : List (ℕ × ℕ)} (n : SeqNumber)
    (h : ∀ g ∈ gs, g.1 ≤ g.2 ∧ g.2 < 0x40000000) :
    names (gs.map (span base)) n = true ↔ ∃ p, (∃ g ∈ gs, g.1 ≤ p ∧ p ≤ g.2) ∧ n = base.add p := by
  have hrange : ∀ g ∈ gs, Connection.inRange n (base.add g.1) (base.add g.2) = true
      ↔ ∃ p, g.1 ≤ p ∧ p ≤ g.2 ∧ n = base.add p := fun g hg => inRange_add (h g hg).1 (h g hg).2 n
  simp only [names, List.any_eq_true, List.mem_map, exists_exists_and_eq_and, span]
  constructor
  · rintro ⟨g, hg, hin⟩
    obtain ⟨p, hlo, hhi, hn⟩ := (hrange g hg).mp hin
    exact ⟨p, ⟨g, hg, hlo, hhi⟩, hn⟩
  · rintro ⟨p, ⟨g, hg, hlo, hhi⟩, hn⟩
    exact ⟨g, hg, (hrange g hg).mpr ⟨p, hlo, hhi, hn⟩⟩

/-- The sequence number is a missing one, at least `t` below the highest received, which the last
slot holds. -/
def Lost (b : RecvBuffer) (t : ℕ) (n : SeqNumber) : Prop :=
  ∃ p < b.slots.length, b.slots[p]? = some none ∧ p + t < b.slots.length ∧ n = b.base.add p

instance (b : RecvBuffer) (t : ℕ) (n : SeqNumber) : Decidable (b.Lost t n) :=
  inferInstanceAs (Decidable (∃ p < b.slots.length, _))

/-- The ranges of a report, as they travel. -/
def report (b : RecvBuffer) (t : ℕ) : List LossRange := (b.missingAged t).map fun r => ⟨r.1, r.2⟩

theorem report_inRange (b : RecvBuffer) {t : ℕ} (ht : t ≤ 32) (n : SeqNumber) :
    (b.report t).any (fun r => Connection.inRange n r.start r.stop) = true ↔ b.Lost t n := by
  obtain ⟨gs, hgs, hwithin, -, hcovers⟩ := b.missingAged_spec ht
  have hspan := b.span_le
  have hnames : (b.report t).any (fun r => Connection.inRange n r.start r.stop) = names (gs.map (span b.base)) n := by
    rw [report, hgs, List.any_map]
    rfl
  rw [hnames, names_span n fun g hg => ⟨(hwithin g hg).1, by have := (hwithin g hg).2; omega⟩]
  simp only [hcovers, Lost]
  constructor
  · rintro ⟨p, ⟨habsent, haged⟩, hn⟩
    exact ⟨p, by omega, habsent, haged, hn⟩
  · rintro ⟨p, -, habsent, haged, hn⟩
    exact ⟨p, ⟨habsent, haged⟩, hn⟩

/-- The ranges of a report do not overlap, wherever the sequence numbers wrap. -/
theorem report_apart (b : RecvBuffer) {t : ℕ} (ht : t ≤ 32) (packets : List Sent) :
    Connection.Apart packets (b.report t) := by
  obtain ⟨gs, hgs, hwithin, hascending, -⟩ := b.missingAged_spec ht
  have hspan := b.span_le
  intro s _
  rw [report, hgs, List.map_map, List.pairwise_map]
  refine hascending.imp_of_mem fun {g g'} hg hg' hlt hin => ?_
  have hw := hwithin g hg
  have hw' := hwithin g' hg'
  rw [Bool.eq_false_iff]
  intro hin'
  obtain ⟨p, hp1, hp2, hp⟩ := (inRange_add hw.1 (by omega) _).mp hin
  obtain ⟨p', hp1', hp2', hp'⟩ := (inRange_add hw'.1 (by omega) _).mp hin'
  have heq := SeqNumber.add_inj b.base p p' (by rw [abs_lt]; omega) (hp.symm.trans hp')
  omega

end RecvBuffer

namespace Connection

/-- A loss report closes the loop: through its encoding it makes the sender send again, once and with
only the `R` bit changed, exactly the packets it still holds that are missing and old enough and that
it has not sent again within a round trip. -/
theorem report_retransmits_exactly (b : RecvBuffer) {t : ℕ} (ht : t ≤ 32) (c : Connection)
    (hcont : c.tx.sendBuffer.Contiguous) (hlen : c.tx.sendBuffer.len ≤ 2 ^ 30) (now : Instant) :
    ∃ loss sent, LossList.decode (LossList.encode (b.report t)) = .ok loss ∧
      (c.onNak loss now).outputs = c.outputs ++ sent ∧
      (sent.filterMap dataOf).Perm
        (((c.dropTooLate now).tx.sendBuffer.packets.filter fun s => b.Lost t s.packet.seq ∧
          s.lastRetransmit.all fun u => c.rtt.rtt ≤ now.saturatingDurationSince u).map
            fun s => setR s.packet.encode) := by
  have hpackets : (c.countNak.dropTooLate now).tx.sendBuffer.packets
      = (c.dropTooLate now).tx.sendBuffer.packets := by
    rw [dropTooLate_packets, dropTooLate_packets]
    rfl
  have hfeedback := dropTooLate_feedback c.countNak now
  have hrtt : (c.countNak.dropTooLate now).rtt = c.rtt := hfeedback.rtt
  obtain ⟨front, hfront⟩ := hfeedback.outstanding
  have hcontent : front ++ (c.countNak.dropTooLate now).tx.sendBuffer.content = c.tx.sendBuffer.content := hfront
  obtain ⟨os, hos, hnone⟩ := dropTooLate_outputs c.countNak now
  have hnak : c.onNak (b.report t) now = (b.report t).foldl
      (fun c range => c.retransmitRange range.start range.stop now) (c.countNak.dropTooLate now) := rfl
  rw [← hpackets]
  generalize c.countNak.dropTooLate now = d at hrtt hcontent hos hnak
  have hcont' : d.tx.sendBuffer.Contiguous := by
    rw [SendBuffer.Contiguous, ← hcontent] at hcont
    exact hcont.right_of_append
  have hlen' : d.tx.sendBuffer.len ≤ 0x40000000 := by
    have hle := congrArg List.length hcontent
    rw [List.length_append, ← SendBuffer.len_eq, ← SendBuffer.len_eq] at hle
    omega
  have hout := @retransmitRanges_outputs now (b.report t) d hcont' hlen' (b.report_apart ht _)
  refine ⟨b.report t, os ++ (b.report t).flatMap fun r =>
    (d.tx.sendBuffer.packets.filter (wanted d.rtt.rtt now r.start r.stop)).map resent,
    LossList.decode_encode _, ?_, ?_⟩
  · rw [hnak, hout, hos, List.append_assoc]
    rfl
  · rw [List.filterMap_append, hnone, List.nil_append, ← List.map_flatMap, filterMap_resent]
    refine List.Perm.map _ ((flatMap_wanted_perm (b.report_apart ht _)).trans (.of_eq ?_))
    refine List.filter_congr fun s _ => ?_
    rw [any_wanted, Bool.eq_iff_iff, Bool.and_eq_true_iff, b.report_inRange ht, decide_eq_true_eq, hrtt]
    exact and_congr_right fun _ => by
      cases s.lastRetransmit <;> simp

/-- One of two packets around the wrap of the sequence numbers. -/
def wrapPacket (n : UInt32) : DataPacket where
  seq := SeqNumber.new n
  position := .single
  inOrder := true
  encryption := .none
  retransmitted := false
  messageNumber := MsgNumber.new 1
  timestamp := ⟨0⟩
  destSocketId := ⟨1⟩
  payload := [7]

/-- A receiver that has only the second. -/
def wrapBuffer : RecvBuffer := ((RecvBuffer.new (SeqNumber.new 0x7FFFFFFF)).insert (wrapPacket 0)).2

/-- A sender that holds both. -/
def wrapSender : Connection :=
  ((newBase Config.default ⟨2⟩ (SeqNumber.new 0x7FFFFFFF) 0 .acceptor .connected).storePacket
    (wrapPacket 0x7FFFFFFF)).storePacket (wrapPacket 0)

theorem report_retransmits_exactly_wrap :
    wrapBuffer.Lost 0 (SeqNumber.new 0x7FFFFFFF) ∧
      ∃ loss sent, LossList.decode (LossList.encode (wrapBuffer.report 0)) = .ok loss ∧
        (wrapSender.onNak loss 0).outputs = wrapSender.outputs ++ sent ∧
        (sent.filterMap dataOf).Perm
          (((wrapSender.dropTooLate 0).tx.sendBuffer.packets.filter fun s => wrapBuffer.Lost 0 s.packet.seq ∧
            s.lastRetransmit.all fun u => wrapSender.rtt.rtt ≤ Instant.saturatingDurationSince 0 u).map
              fun s => setR s.packet.encode) :=
  ⟨by decide +kernel, report_retransmits_exactly wrapBuffer (by decide) wrapSender (by decide +kernel)
    (by decide +kernel) 0⟩

end Connection

end Srtrust
