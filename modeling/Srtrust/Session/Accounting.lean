import Srtrust.Session.Retention

/-! # The receiver's books

Four counters say what became of a packet offered to the receive buffer, and `packets_dropped` counts
the sequence numbers skipped. Together with the packets taken out they say how far the buffer's base
has moved from the peer's initial sequence number. -/
namespace Srtrust
open BigEndian
set_option autoImplicit false

/-- What can become of a packet offered to the receive buffer. -/
inductive Fate
  | received
  | duplicate
  | undecryptable
  | droppedFull
deriving DecidableEq, Repr

/-- The counter of a fate. -/
def ReceiverStats.count (stats : ReceiverStats) : Fate → ℕ
  | .received => stats.packetsReceived
  | .duplicate => stats.packetsDuplicate
  | .undecryptable => stats.packetsUndecryptable
  | .droppedFull => stats.packetsDroppedFull

namespace Connection

/-! ## Fates -/

/-- The four counters stay. -/
structure Uncounted (c c' : Connection) : Prop where
  received : c'.rx.stats.packetsReceived = c.rx.stats.packetsReceived
  duplicate : c'.rx.stats.packetsDuplicate = c.rx.stats.packetsDuplicate
  undecryptable : c'.rx.stats.packetsUndecryptable = c.rx.stats.packetsUndecryptable
  droppedFull : c'.rx.stats.packetsDroppedFull = c.rx.stats.packetsDroppedFull

namespace Uncounted

theorem refl (c : Connection) : Uncounted c c := ⟨rfl, rfl, rfl, rfl⟩

theorem trans {a b c : Connection} (h : Uncounted a b) (h' : Uncounted b c) : Uncounted a c :=
  ⟨h'.received.trans h.received, h'.duplicate.trans h.duplicate,
    h'.undecryptable.trans h.undecryptable, h'.droppedFull.trans h.droppedFull⟩

theorem ofRx {c c' : Connection} (h : c'.rx = c.rx) : Uncounted c c' :=
  ⟨by rw [h], by rw [h], by rw [h], by rw [h]⟩

theorem count {c c' : Connection} (h : Uncounted c c') (fate : Fate) :
    c'.rx.stats.count fate = c.rx.stats.count fate := by
  cases fate with
  | received => exact h.received
  | duplicate => exact h.duplicate
  | undecryptable => exact h.undecryptable
  | droppedFull => exact h.droppedFull

theorem emitControl (c : Connection) (body : ControlBody) (now : Instant) :
    Uncounted c (c.emitControl body now) := ofRx (LinkStep.emitControl c body now).rx

end Uncounted

theorem deliverPacket_uncounted (c : Connection) (packet : DataPacket) :
    Uncounted c (c.deliverPacket packet) := by
  unfold deliverPacket
  dsimp only
  split <;> exact ⟨rfl, rfl, rfl, rfl⟩

theorem deliverPopped_uncounted (c : Connection) (packet : DataPacket) (rest : RecvBuffer) :
    Uncounted c (c.deliverPopped packet rest) := by
  have hskip : ∀ n, Uncounted c { c with
      rx := { c.rx with recvBuffer := rest, stats := { c.rx.stats with packetsDropped := n } } } :=
    fun _ => ⟨rfl, rfl, rfl, rfl⟩
  exact (hskip _).trans (deliverPacket_uncounted _ packet)

theorem deliverTsbpd_uncounted (c : Connection) (now : Instant) : Uncounted c (c.deliverTsbpd now) :=
  deliverTsbpd_rule (fun _ _ _ h => h.trans (.ofRx rfl))
    (fun d packet rest _ h => h.trans (deliverPopped_uncounted d packet rest)) now (.refl c)

theorem lightAckIfDue_uncounted (c : Connection) (now : Instant) :
    Uncounted c (c.lightAckIfDue now) := by
  have hcount : Uncounted c c.countTowardsAck := ⟨rfl, rfl, rfl, rfl⟩
  have hnote : ∀ c : Connection, Uncounted c c.noteLightAck := fun _ => ⟨rfl, rfl, rfl, rfl⟩
  unfold lightAckIfDue
  split
  · exact (hcount.trans (hnote _)).trans (.emitControl _ _ now)
  · exact hcount

theorem reportGaps_uncounted (c : Connection) (now : Instant) : Uncounted c (c.reportGaps now) := by
  have hcount : Uncounted c c.countNakSent := ⟨rfl, rfl, rfl, rfl⟩
  have hnote : ∀ c : Connection, Uncounted c (c.noteNak now) := fun _ => ⟨rfl, rfl, rfl, rfl⟩
  have hloss : ∀ (c : Connection) missing, Uncounted c (c.setReportedLoss missing) := fun _ _ => ⟨rfl, rfl, rfl, rfl⟩
  unfold reportGaps
  dsimp only
  split
  · split
    · exact ((hcount.trans (.emitControl _ _ now)).trans (hnote _)).trans (hloss _ _)
    · exact .refl c
  · exact hloss c _

theorem trackReorder_stats (rx : Receiver) (seq : SeqNumber) (retransmitted : Bool) :
    (trackReorder rx seq retransmitted).stats = rx.stats := by
  obtain ⟨_, _, _, h⟩ := trackReorder_eq rx seq retransmitted
  rw [h]

/-- A packet newly stored is counted as received, and as nothing else. -/
theorem afterInsert_count (c : Connection) (data : DataPacket) (b : RecvBuffer) (now : Instant)
    (fate : Fate) : (c.afterInsert data b now).rx.stats.count fate
      = c.rx.stats.count fate + if fate = .received then 1 else 0 := by
  have harrive : (c.recordArrival data b now).rx.stats.count fate
      = c.rx.stats.count fate + if fate = .received then 1 else 0 := by
    unfold recordArrival
    dsimp only
    rw [trackReorder_stats]
    cases fate <;> rfl
  have hanchor : ∀ c : Connection, Uncounted c (c.anchorTsbpd data.timestamp now) := by
    intro c
    unfold anchorTsbpd
    split <;> exact ⟨rfl, rfl, rfl, rfl⟩
  have hdrift : ∀ c : Connection, Uncounted c (c.sampleDrift data now) := by
    intro c
    unfold sampleDrift
    split <;> exact ⟨rfl, rfl, rfl, rfl⟩
  rw [← harrive]
  have hrest := ((hanchor (c.recordArrival data b now)).trans (hdrift _)).trans
    ((deliverTsbpd_uncounted _ now).trans ((lightAckIfDue_uncounted _ now).trans
      (reportGaps_uncounted _ now)))
  exact hrest.count fate

/-- Every packet offered to `insert_data` meets one fate. -/
theorem insertData_count (P : Primitives) (c : Connection) (data : DataPacket) (now : Instant) :
    ∃ fate, ∀ f, (c.insertData P data now).rx.stats.count f
      = c.rx.stats.count f + if f = fate then 1 else 0 := by
  have hfull : ∀ (c : Connection) f, c.countDroppedFull.rx.stats.count f
      = c.rx.stats.count f + if f = .droppedFull then 1 else 0 := fun _ f => by cases f <;> rfl
  have hundec : ∀ (c : Connection) f, c.countUndecryptable.rx.stats.count f
      = c.rx.stats.count f + if f = .undecryptable then 1 else 0 := fun _ f => by cases f <;> rfl
  have hdup : ∀ (c : Connection) f, c.countDuplicate.rx.stats.count f
      = c.rx.stats.count f + if f = .duplicate then 1 else 0 := fun _ f => by cases f <;> rfl
  unfold insertData
  by_cases havail : c.availableRecvBuffer = 0
  · rw [if_pos havail]
    exact ⟨.droppedFull, hfull c⟩
  · rw [if_neg havail]
    cases c.openPacket P data with
    | none => exact ⟨.undecryptable, hundec c⟩
    | some result =>
      have hrecord : (c.record result.2).rx.stats = c.rx.stats := rfl
      dsimp only
      rw [← hrecord]
      generalize c.record result.2 = c
      generalize c.rx.recvBuffer.insert result.1 = inserted
      split
      · exact ⟨.received, afterInsert_count c result.1 inserted.2 now⟩
      · exact ⟨.duplicate, hdup c⟩

/-! ## The base -/

/-- A packet that, if it is stored, lies less than `2^30 - 1` ahead of the ACK point. -/
def StoredNear (P : Primitives) (c : Connection) (data : DataPacket) : Prop :=
  c.availableRecvBuffer ≠ 0 → ∀ result ∈ c.openPacket P data,
    (c.rx.recvBuffer.insert result.1).1 = true →
      data.seq.offsetFrom c.rx.recvBuffer.ackPoint < 0x3FFFFFFF

/-- A range that, if `drop_range` acts on it, ends less than `2^30 - 1` ahead of the ACK point. -/
def SkippedNear (c : Connection) (range : SeqNumber × SeqNumber) : Prop :=
  range.2.circularCmp c.rx.recvBuffer.ackPoint ≠ .less →
    range.1.circularCmp c.rx.recvBuffer.ackPoint ≠ .greater →
      range.2.offsetFrom c.rx.recvBuffer.ackPoint < 0x3FFFFFFF

instance (P : Primitives) (c : Connection) (data : DataPacket) : Decidable (c.StoredNear P data) :=
  inferInstanceAs (Decidable (_ → ∀ result ∈ c.openPacket P data, _))

instance (c : Connection) (range : SeqNumber × SeqNumber) : Decidable (c.SkippedNear range) :=
  inferInstanceAs (Decidable (_ → _ → _))

/-- Sequence numbers taken out of the buffer or skipped. -/
def passed (c : Connection) : ℕ := (popped c.trace).length + c.rx.stats.packetsDropped

/-- How far the base has moved from the initial sequence number that the connected event names;
`earlier` are the events already polled. -/
structure Ledger (earlier : List Event) (c : Connection) : Prop where
  span : c.rx.recvBuffer.slots.length < 0x40000000
  unopened : ¬ c.Established →
    c.rx.recvBuffer.slots = [] ∧ c.passed = 0 ∧ ∀ n, .connected n ∉ earlier ++ c.events
  base : ∀ n, .connected n ∈ earlier ++ c.events → c.rx.recvBuffer.base = n.peerInitialSeq.add c.passed

theorem Quiet.connected_mem_iff {c c' : Connection} (h : Quiet c c') (earlier : List Event)
    (n : Negotiated) : .connected n ∈ earlier ++ c'.events ↔ .connected n ∈ earlier ++ c.events := by
  obtain ⟨es, he, hes⟩ := h.events
  have hnot : .connected n ∉ es := fun hm => hes _ hm trivial
  rw [he, ← List.append_assoc, List.mem_append, or_iff_left hnot]

theorem Quiet.passed_eq {c c' : Connection} (h : Quiet c c') : c'.passed = c.passed := by
  rw [passed, passed, h.popped, h.dropped]

/-- What a jump of the base ahead by fewer than `2^30` counts as skipped. -/
theorem offsetFrom_base {b b' : RecvBuffer} {n : ℕ} (h : b'.base = b.base.add n) (hn : n < 0x40000000) :
    b'.ackPoint.offsetFrom b.ackPoint = n := by
  have hlo : ((0 : ℕ) : ℤ) - n ≤ 0x40000000 := by omega
  have hhi : (n : ℤ) - (0 : ℕ) < 0x40000000 := by omega
  have hadd := SeqNumber.offsetFrom_add b.base n 0 hlo hhi
  rw [SeqNumber.add_zero, Nat.cast_zero, sub_zero] at hadd
  rw [RecvBuffer.ackPoint, RecvBuffer.ackPoint, h, hadd]

theorem deliverPopped_dropped (c : Connection) (packet : DataPacket) (rest : RecvBuffer) :
    (c.deliverPopped packet rest).rx.stats.packetsDropped = c.rx.stats.packetsDropped
      + (rest.ackPoint.offsetFrom c.rx.recvBuffer.ackPoint - 1).toNat := by
  unfold deliverPopped deliverPacket
  dsimp only
  split <;> rfl

theorem Ledger.mono {earlier : List Event} {c c' : Connection} (hq : Ledger earlier c)
    (hlink : c.Established → c'.Established) (hspan : c'.rx.recvBuffer.slots.length < 0x40000000)
    (hunopened : ¬ c.Established → c'.rx.recvBuffer.slots = [] ∧ c'.passed = 0)
    (hevents : ∀ n, .connected n ∈ earlier ++ c'.events ↔ .connected n ∈ earlier ++ c.events)
    (hbase : ∃ k, c'.rx.recvBuffer.base = c.rx.recvBuffer.base.add k ∧ c'.passed = c.passed + k) :
    Ledger earlier c' := by
  refine ⟨hspan, ?_, ?_⟩
  · intro hs
    have hs' : ¬ c.Established := fun h => hs (hlink h)
    obtain ⟨hslots, hpassed⟩ := hunopened hs'
    exact ⟨hslots, hpassed, fun n hn => (hq.unopened hs').2.2 n ((hevents n).mp hn)⟩
  · intro n hn
    obtain ⟨k, hk, hpassed⟩ := hbase
    rw [hk, hpassed, hq.base n ((hevents n).mp hn), SeqNumber.add_add]

/-- A popped packet moves the base past the gap in front of it and the packet itself. -/
theorem deliverPopped_passed {c : Connection} {packet : DataPacket} {rest : RecvBuffer}
    (hspan : c.rx.recvBuffer.slots.length < 0x40000000)
    (hpop : c.rx.recvBuffer.pop = some (packet, rest)) :
    rest.base = c.rx.recvBuffer.base.add (c.rx.recvBuffer.firstPresent + 1) ∧
      (c.deliverPopped packet rest).passed = c.passed + (c.rx.recvBuffer.firstPresent + 1) := by
  obtain ⟨hp, -, hbase, -⟩ := RecvBuffer.pop_spec _ _ _ hpop
  have hlt := (List.getElem?_eq_some_iff.mp hp).1
  have hoffset := offsetFrom_base hbase (by omega)
  refine ⟨hbase, ?_⟩
  rw [passed, passed, deliverPopped_popped, deliverPopped_dropped, hoffset, List.length_append,
    List.length_singleton]
  omega

/-- What a skipped range counts is how far it moves the base. -/
theorem skipRange_passed_add {c : Connection} {first last : SeqNumber} {n : ℕ} (hn : n < 0x40000000)
    (hbase : (c.rx.recvBuffer.dropRange first last).base = c.rx.recvBuffer.base.add n) :
    (c.skipRange first last).passed = c.passed + n := by
  have hdropped : (c.skipRange first last).rx.stats.packetsDropped = c.rx.stats.packetsDropped
      + ((c.rx.recvBuffer.dropRange first last).ackPoint.offsetFrom c.rx.recvBuffer.ackPoint).toNat := rfl
  rw [passed, passed, hdropped, skipRange_trace, offsetFrom_base hbase hn]
  omega

/-- A skipped range moves the base past its end. -/
theorem skipRange_passed {c : Connection} {first last : SeqNumber} (h : c.SkippedNear (first, last)) :
    ∃ k, (c.rx.recvBuffer.dropRange first last).base = c.rx.recvBuffer.base.add k ∧
      (c.skipRange first last).passed = c.passed + k := by
  have hadvance : ∃ k : ℕ, k < 0x40000000 ∧
      (c.rx.recvBuffer.dropRange first last).base = c.rx.recvBuffer.base.add k := by
    by_cases hl : last.circularCmp c.rx.recvBuffer.base = .less
    · exact ⟨0, by omega, by rw [RecvBuffer.dropRange, dif_pos hl, SeqNumber.add_zero]⟩
    · by_cases hf : first.circularCmp c.rx.recvBuffer.base = .greater
      · exact ⟨0, by omega, by rw [RecvBuffer.dropRange, dif_neg hl, if_pos hf, SeqNumber.add_zero]⟩
      · have hnear : last.offsetFrom c.rx.recvBuffer.base < 0x3FFFFFFF := h hl hf
        rcases RecvBuffer.dropRange_acts hl hf with ⟨n, hn, -, hbase⟩
        exact ⟨n, by omega, hbase⟩
  obtain ⟨k, hk, hbase⟩ := hadvance
  exact ⟨k, hbase, skipRange_passed_add hk hbase⟩

theorem ledger_receipt (P : Primitives) (earlier : List Event) :
    Receipt P (fun c data => c.Established ∧ c.StoredNear P data)
      (fun c range => c.Established ∧ c.SkippedNear range) (Ledger earlier) where
  quiet c c' h hq := by
    refine hq.mono h.established ?_ ?_ (h.connected_mem_iff earlier) ⟨0, ?_, h.passed_eq⟩
    · rw [h.recvBuffer]
      exact hq.span
    · intro hs
      obtain ⟨hslots, hpassed, -⟩ := hq.unopened hs
      exact ⟨by rw [h.recvBuffer, hslots], by rw [h.passed_eq, hpassed]⟩
    · rw [h.recvBuffer, SeqNumber.add_zero]
  store c data result hq hok havail hopen hnew := by
    have hquiet := Quiet.record c result.2 (openPacket_quiet hopen)
    obtain ⟨hpos, -, hbase, -, hslots⟩ := RecvBuffer.insert_spec _ _ hnew
    have hseq := openPacket_seq hopen
    have hnear : data.seq.offsetFrom c.rx.recvBuffer.base < 0x3FFFFFFF := hok.2 havail result hopen hnew
    have hset : ∀ (c : Connection) b, (c.setRecvBuffer b).passed = c.passed := fun _ _ => rfl
    have hlink : ∀ (c : Connection) b, c.Established → (c.setRecvBuffer b).Established := fun _ _ => id
    refine hq.mono (fun h => hlink _ _ (hquiet.established h)) ?_ (fun hs => absurd hok.1 hs) ?_
      ⟨0, ?_, by rw [hset, hquiet.passed_eq, Nat.add_zero]⟩
    · have hspan := hq.span
      rw [hseq] at hpos hslots
      rw [setRecvBuffer_recvBuffer, hslots, RecvBuffer.length_resize_set]
      omega
    · intro n
      rw [setRecvBuffer_events]
      exact hquiet.connected_mem_iff earlier n
    · rw [setRecvBuffer_recvBuffer, hbase, SeqNumber.add_zero]
  pop c packet rest hq hpop := by
    obtain ⟨-, hslots, -, -⟩ := RecvBuffer.pop_spec _ _ _ hpop
    obtain ⟨hbase, hpassed⟩ := deliverPopped_passed hq.span hpop
    have hstep := deliverPopped_rxStep c packet rest
    obtain ⟨es, hes, hdata⟩ := hstep.grows.events
    have hevents : ∀ n, .connected n ∈ earlier ++ (c.deliverPopped packet rest).events
        ↔ .connected n ∈ earlier ++ c.events := by
      intro n
      have hnot : .connected n ∉ es := fun hm => hdata _ hm
      rw [hes, ← List.append_assoc, List.mem_append, or_iff_left hnot]
    refine hq.mono ?_ ?_ ?_ hevents ⟨_, by rw [deliverPopped_recvBuffer, hbase], hpassed⟩
    · rw [Established, Established, hstep.link]
      exact id
    · have hspan := hq.span
      rw [deliverPopped_recvBuffer, hslots, List.length_drop]
      omega
    · intro hs
      rw [(RecvBuffer.pop_eq_none_iff _).mpr (hq.unopened hs).1] at hpop
      exact absurd hpop (by simp)
  skip c first last hq hdrop := by
    obtain ⟨k, hbase, hpassed⟩ := skipRange_passed hdrop.2
    have hlink : ∀ (c : Connection) b n, (c.replaceBuffer b n).link = c.link := fun _ _ _ => rfl
    refine hq.mono ?_ ?_ (fun hs => absurd hdrop.1 hs) ?_ ⟨k, by rw [skipRange_recvBuffer, hbase], hpassed⟩
    · rw [Established, Established, skipRange, hlink]
      exact id
    · have hspan := hq.span
      rw [skipRange_recvBuffer]
      rcases c.rx.recvBuffer.dropRange_cases first last with h | ⟨n, -, -, h, -⟩
      · rw [h]
        exact hspan
      · rw [h, List.length_drop]
        omega
    · intro n
      rw [skipRange_events]
  connects c negotiated now hconc hq := by
    have hs : ¬ c.Established := by simp [Established, hconc]
    obtain ⟨-, hpassed, hnone⟩ := hq.unopened hs
    obtain ⟨-, hbuffer, -, hstats, hevents, htrace⟩ := enterConnected_data c negotiated now
    have hpassed' : (c.enterConnected negotiated now).passed = 0 := by
      rw [passed, hstats, htrace]
      exact hpassed
    refine ⟨?_, fun h => absurd (.inl rfl) h, ?_⟩
    · rw [hbuffer]
      simp [RecvBuffer.new]
    · intro n hn
      rw [hevents, ← List.append_assoc, List.mem_append, or_iff_right (hnone n), List.mem_singleton] at hn
      rw [Event.connected.inj hn, hpassed', SeqNumber.add_zero, hbuffer]
      rfl

theorem injections_link (P : Primitives) (now : Instant) (recovered : List RecoveredPacket)
    (c : Connection) : ∀ x ∈ injections P now c recovered, x.1.link = c.link := by
  induction recovered generalizing c with
  | nil => simp [injections]
  | cons rp rest ih =>
    intro x hx
    unfold injections at hx
    split at hx
    · exact ih c x hx
    · next packet _ =>
      rcases List.mem_cons.mp hx with rfl | hx
      · rfl
      · rw [ih _ x hx, (insertData_rxStep P c.countRecovered packet now).link]
        rfl

theorem insertions_link (P : Primitives) (now : Instant) (c : Connection) (data : DataPacket) :
    ∀ x ∈ c.insertions P data now, x.1.link = c.link := by
  intro x hx
  unfold insertions at hx
  split at hx
  · rw [List.mem_singleton.mp hx]
  · dsimp only at hx
    split at hx
    · rw [injections_link P now _ _ x hx]
      rfl
    · rcases List.mem_cons.mp hx with rfl | hx
      · rfl
      · exact (injections_link P now _ _ x hx).trans (insertData_rxStep P (c.setFecRecv _) data now).link

/-- What a call does with the packets it hands over leaves the link as it is. -/
theorem handed_link (P : Primitives) (now : Instant) (c : Connection) (call : Call) :
    ∀ x ∈ c.handed P call now, x.1.link = c.link := by
  intro x hx
  unfold handed at hx
  split at hx
  · split at hx
    · next data _ _ => exact insertions_link P now { c with lastRecvAny := now } data x hx
    · exact absurd hx List.not_mem_nil
  · exact absurd hx List.not_mem_nil

/-- Packets are handed over in the connected phase only. -/
theorem handed_established {P : Primitives} {c : Connection} {call : Call} {now : Instant}
    {x : Connection × DataPacket} (hx : x ∈ c.handed P call now) : x.1.Established := by
  rw [Established, handed_link P now c call x hx]
  unfold handed at hx
  split at hx
  · split at hx
    · next hs _ => exact .inl hs
    · exact absurd hx List.not_mem_nil
  · exact absurd hx List.not_mem_nil

theorem givenUp_established {c : Connection} {call : Call} {now : Instant}
    {x : Connection × SeqNumber × SeqNumber} (hx : x ∈ c.givenUp call now) : x.1.Established := by
  unfold givenUp at hx
  split at hx
  · split at hx
    · next ctrl hs _ =>
      obtain ⟨range, -, rfl⟩ := Option.map_eq_some_iff.mp hx
      exact .inl hs
    · simp at hx
  · simp at hx

end Connection

namespace Session

/-- While packets stored and ranges skipped lie less than `2^30 - 1` ahead of the ACK point, every
packet offered to the receive buffer meets one fate, and the ACK point is the peer's initial sequence
number plus the packets taken out plus the sequence numbers dropped. -/
theorem receiver_accounts (P : Primitives) (s : Session) (hs : Started P s)
    (inputs : List (Call × Instant))
    (hnear : Runs.Meets (step P)
      (fun s input => (∀ x ∈ s.conn.handed P input.1 input.2, x.1.StoredNear P x.2) ∧
        ∀ x ∈ s.conn.givenUp input.1 input.2, x.1.SkippedNear x.2) s inputs) :
    (∀ (call : Call) (now : Instant),
      ∀ x ∈ (Runs.run (step P) s inputs).conn.handed P call now, ∃ fate, ∀ f,
        (x.1.insertData P x.2 now).rx.stats.count f
          = x.1.rx.stats.count f + if f = fate then 1 else 0) ∧
      ∀ n, .connected n ∈ (Runs.run (step P) s inputs).pushed →
        (Runs.run (step P) s inputs).conn.rx.recvBuffer.ackPoint
          = n.peerInitialSeq.add ((popped (Runs.run (step P) s inputs).conn.trace).length
            + (Runs.run (step P) s inputs).conn.rx.stats.packetsDropped) := by
  refine ⟨fun call now x _ => Connection.insertData_count P x.1 x.2 now, ?_⟩
  have hstart : s.conn.Ledger s.polled := by
    obtain ⟨hrx, -, hpopped⟩ := hs.empty
    have hpassed : s.conn.passed = 0 := by
      rw [Connection.passed, hpopped, hrx]
      rfl
    obtain ⟨c, now, hc, rfl⟩ := hs.fresh
    refine ⟨?_, ?_, ?_⟩
    · rw [hrx]
      simp [Receiver.new, RecvBuffer.new]
    · intro hopen
      refine ⟨by rw [hrx]; rfl, hpassed, ?_⟩
      rcases hc.phase with ⟨-, he⟩ | ⟨hconn, -⟩
      · intro n hn
        change Event.connected n ∈ c.events at hn
        simp [he] at hn
      · exact absurd (.inl hconn) hopen
    · intro n hn
      change Event.connected n ∈ c.events at hn
      rcases hc.phase with ⟨-, he⟩ | ⟨-, ⟨m, he, hseq⟩, -⟩
      · simp [he] at hn
      · rw [he, List.mem_singleton] at hn
        rw [Event.connected.inj hn, hseq, hpassed, SeqNumber.add_zero, hrx]
        rfl
  have hledger := run_receipt_pushed (Connection.ledger_receipt P) ?_ hstart
    (hnear.mono fun s input h => ⟨fun x hx => ⟨Connection.handed_established hx, h.1 x hx⟩,
      fun x hx => ⟨Connection.givenUp_established hx, h.2 x hx⟩⟩)
  · exact hledger.base
  · intro earlier c hq
    have hevents : (earlier ++ c.events.take 1) ++ c.events.drop 1 = earlier ++ c.events := by
      rw [List.append_assoc, List.take_append_drop]
    refine ⟨hq.span, ?_, ?_⟩
    · intro h
      obtain ⟨hslots, hpassed, hnone⟩ := hq.unopened h
      exact ⟨hslots, hpassed, by rw [hevents]; exact hnone⟩
    · intro n hn
      rw [hevents] at hn
      exact hq.base n hn

/-- A caller's DROPREQ. -/
def plainDropreq (first last : ℕ) : Call :=
  .feedRecvBuf ((Packet.encode (.control
    { timestamp := ⟨0⟩, destSocketId := ⟨2⟩
      body := .dropReq 1 (SeqNumber.new (UInt32.ofNat first)) (SeqNumber.new (UInt32.ofNat last)) })).getD [])

/-- A packet, a duplicate, a gap and a range given up. -/
def shortStream : List (Call × Instant) :=
  [(plainData 0 .single, 0), (plainData 0 .single, 0), (plainData 2 .single, 0),
    (.handleTimer .tsbpd, 120000000), (plainDropreq 3 4, 120000000)]

theorem receiver_accounts_shortStream :
    (∀ (call : Call) (now : Instant),
      ∀ x ∈ (Runs.run (step Primitives.absent) plainAcceptor shortStream).conn.handed Primitives.absent
          call now, ∃ fate, ∀ f,
        (x.1.insertData Primitives.absent x.2 now).rx.stats.count f
          = x.1.rx.stats.count f + if f = fate then 1 else 0) ∧
      ∀ n, .connected n ∈ (Runs.run (step Primitives.absent) plainAcceptor shortStream).pushed →
        (Runs.run (step Primitives.absent) plainAcceptor shortStream).conn.rx.recvBuffer.ackPoint
          = n.peerInitialSeq.add
            ((popped (Runs.run (step Primitives.absent) plainAcceptor shortStream).conn.trace).length
            + (Runs.run (step Primitives.absent) plainAcceptor shortStream).conn.rx.stats.packetsDropped) :=
  receiver_accounts Primitives.absent plainAcceptor plainAcceptor_started shortStream (by decide +kernel)

end Session

end Srtrust
