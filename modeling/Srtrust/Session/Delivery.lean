import Srtrust.Session.Timeline

/-! # What timed delivery hands over

`deliver_tsbpd` looks at the earliest buffered packet, whatever gap lies in front of it, and stops at
the first whose play time has not come. So it takes out the longest prefix of the buffered packets
that are due, and nothing else leaves the buffer before its play time but by the flush on SHUTDOWN. -/
namespace Srtrust
open BigEndian
set_option autoImplicit false

namespace RecvBuffer

/-- The packets a buffer holds, in sequence order. -/
def buffered (b : RecvBuffer) : List DataPacket := b.slots.filterMap id

theorem buffered_ordered (b : RecvBuffer) :
    b.buffered.Pairwise fun p p' => p.seq.offsetFrom b.base < p'.seq.offsetFrom b.base := by
  have hoff : ∀ (i : ℕ) (p : DataPacket), b.slots[i]? = some (some p) → p.seq.offsetFrom b.base = i := by
    intro i p hp
    have hlt := (List.getElem?_eq_some_iff.mp hp).1
    have hspan := b.span_le
    have hlo : ((0 : ℕ) : ℤ) - i ≤ 0x40000000 := by omega
    have hhi : (i : ℤ) - (0 : ℕ) < 0x40000000 := by omega
    have hadd := SeqNumber.offsetFrom_add b.base i 0 hlo hhi
    rw [SeqNumber.add_zero, Nat.cast_zero, sub_zero] at hadd
    rw [b.slot_seq i p hp, hadd]
  rw [buffered, List.pairwise_filterMap, List.pairwise_iff_getElem]
  intro i j hi hj hij p hp p' hp'
  have hp : b.slots[i]? = some (some p) := by rw [List.getElem?_eq_getElem hi]; exact congrArg some hp
  have hp' : b.slots[j]? = some (some p') := by rw [List.getElem?_eq_getElem hj]; exact congrArg some hp'
  rw [hoff i p hp, hoff j p' hp']
  omega

/-- The earliest present slot splits the slots. -/
theorem slots_split (b : RecvBuffer) {p : DataPacket} (h : b.slots[b.firstPresent]? = some (some p)) :
    b.slots = b.slots.take b.firstPresent ++ some p :: b.slots.drop (b.firstPresent + 1)
      ∧ (b.slots.take b.firstPresent).filterMap id = [] := by
  obtain ⟨hlt, hget⟩ := List.getElem?_eq_some_iff.mp h
  refine ⟨?_, ?_⟩
  · rw [← hget, List.getElem_cons_drop, List.take_append_drop]
  · rw [List.filterMap_eq_nil_iff]
    intro x hx
    obtain ⟨i, hi, rfl⟩ := List.mem_take_iff_getElem.mp hx
    have := List.not_of_lt_findIdx (show i < b.firstPresent by omega)
    simpa using this

theorem buffered_of_pop {b rest : RecvBuffer} {p : DataPacket} (h : b.pop = some (p, rest)) :
    b.buffered = p :: rest.buffered := by
  obtain ⟨hp, hslots, -, -⟩ := b.pop_spec p rest h
  obtain ⟨hsplit, hnone⟩ := b.slots_split hp
  rw [buffered, buffered, hslots, hsplit, List.filterMap_append, hnone]
  simp only [List.nil_append, List.filterMap_cons, id]
  congr 2
  rw [← hsplit]

theorem peek_eq (b : RecvBuffer) : b.peek = b.buffered.head?.map fun p => (p.seq, p.timestamp) := by
  by_cases hne : b.slots = []
  · rw [(peek_eq_none_iff b).mpr hne, buffered, hne]
    rfl
  · obtain ⟨p, hp, -⟩ := b.firstPresent_spec hne
    obtain ⟨hsplit, hnone⟩ := b.slots_split hp
    have hbuffered : b.buffered = p :: (b.slots.drop (b.firstPresent + 1)).filterMap id := by
      rw [buffered]
      conv_lhs => rw [hsplit]
      rw [List.filterMap_append, hnone]
      rfl
    rw [hbuffered, peek, hp]
    rfl

end RecvBuffer

namespace Connection

/-- The packet's play time has come. -/
def due (c : Connection) (now : Instant) (packet : DataPacket) : Bool :=
  (c.tsbpdPlayTime packet.timestamp).any (· ≤ now)

/-- The longest prefix of the buffered packets that are due. -/
def duePrefix (c : Connection) (now : Instant) : List DataPacket :=
  c.rx.recvBuffer.buffered.takeWhile (c.due now)

/-- What timed delivery does: it takes out the due prefix, moves the ACK point past its last packet
only, and leaves a packet in front that is not due. -/
structure DeliversDue (c c' : Connection) (now : Instant) : Prop where
  popped : popped c'.trace = popped c.trace ++ c.duePrefix now
  rest : c'.rx.recvBuffer.buffered = c.rx.recvBuffer.buffered.dropWhile (c.due now)
  ackPoint : c'.rx.recvBuffer.ackPoint
    = ((c.duePrefix now).getLast?.map (·.seq.next)).getD c.rx.recvBuffer.ackPoint
  timeline : c'.timeline.2 = c.timeline.2
  held : ∀ packet ∈ c'.rx.recvBuffer.buffered.head?, ∀ t,
    c'.tsbpdPlayTime packet.timestamp = some t → now < t

theorem due_congr {c c' : Connection} (h : c'.timeline.2 = c.timeline.2) (now : Instant) :
    c'.due now = c.due now := by
  funext packet
  simp only [timeline, Prod.mk.injEq] at h
  obtain ⟨hbase, hwrap, hdrift, hlatency⟩ := h
  simp only [due, tsbpdPlayTime, tsbpdExpectedArrival, hbase, hwrap, hdrift, hlatency]

/-- Delivery stops when the earliest packet is not due. -/
theorem DeliversDue.stop {c c' : Connection} {now : Instant} (ht : c'.trace = c.trace)
    (hline : c'.timeline = c.timeline)
    (hhead : ∀ packet ∈ c.rx.recvBuffer.buffered.head?, c.due now packet = false) :
    DeliversDue c c' now := by
  have hbuffer : c'.rx.recvBuffer = c.rx.recvBuffer := congrArg Prod.fst hline
  have hnone : c.duePrefix now = [] ∧
      c.rx.recvBuffer.buffered.dropWhile (c.due now) = c.rx.recvBuffer.buffered := by
    rw [duePrefix]
    cases hb : c.rx.recvBuffer.buffered with
    | nil => exact ⟨rfl, rfl⟩
    | cons packet rest =>
      have hnot : ¬ c.due now packet = true := by simp [hhead packet (by simp [hb])]
      exact ⟨List.takeWhile_cons_of_neg hnot, List.dropWhile_cons_of_neg hnot⟩
  refine ⟨by rw [ht, hnone.1, List.append_nil], by rw [hbuffer, hnone.2], by rw [hbuffer, hnone.1]; rfl,
    congrArg Prod.snd hline, fun packet hp t hplay => ?_⟩
  rw [hbuffer] at hp
  have hnot := hhead packet hp
  rw [tsbpdPlayTime_congr hline] at hplay
  rw [due, hplay] at hnot
  simpa using hnot

/-- A due packet is taken out, and delivery goes on. -/
theorem DeliversDue.next {c c' : Connection} {now : Instant} {packet : DataPacket} {rest : RecvBuffer}
    (hpop : c.rx.recvBuffer.pop = some (packet, rest)) (hdue : c.due now packet = true)
    (h : DeliversDue (c.deliverPopped packet rest) c' now) : DeliversDue c c' now := by
  have hline : (c.deliverPopped packet rest).timeline.2 = c.timeline.2 := by
    rw [deliverPopped_timeline]
  have hbuffered := RecvBuffer.buffered_of_pop hpop
  obtain ⟨-, -, hbase, hseq⟩ := RecvBuffer.pop_spec _ _ _ hpop
  have hprefix : c.duePrefix now = packet :: (c.deliverPopped packet rest).duePrefix now := by
    rw [duePrefix, hbuffered, List.takeWhile_cons_of_pos hdue, duePrefix, due_congr hline,
      deliverPopped_recvBuffer]
  refine ⟨?_, ?_, ?_, h.timeline.trans hline, h.held⟩
  · rw [h.popped, deliverPopped_popped, hprefix, List.append_assoc]
    rfl
  · rw [h.rest, due_congr hline, deliverPopped_recvBuffer, hbuffered, List.dropWhile_cons_of_pos hdue]
  · rw [h.ackPoint, hprefix, deliverPopped_recvBuffer]
    cases hlast : (c.deliverPopped packet rest).duePrefix now with
    | nil =>
      change rest.base = packet.seq.next
      rw [hbase, hseq, SeqNumber.next_add]
    | cons first more =>
      rw [List.getLast?_cons_cons]
      cases hl : (first :: more).getLast? with
      | none => simp at hl
      | some last => rfl

theorem deliverLoop_due (now : Instant) (fuel : ℕ) (c : Connection)
    (hfuel : c.rx.recvBuffer.slots.length < fuel) : DeliversDue c (deliverLoop now fuel c) now := by
  induction fuel generalizing c with
  | zero => omega
  | succ fuel ih =>
    have hpeek := c.rx.recvBuffer.peek_eq
    unfold deliverLoop
    split
    · next hnone =>
      rw [hnone, eq_comm, Option.map_eq_none_iff] at hpeek
      exact .stop rfl rfl (by simp [hpeek])
    · next seq timestamp hsome =>
      rw [hsome, eq_comm] at hpeek
      obtain ⟨packet, hhead, hpair⟩ := Option.map_eq_some_iff.mp hpeek
      obtain rfl : packet.timestamp = timestamp := congrArg Prod.snd hpair
      have hfirst : ∀ b : Bool, c.due now packet = b → ∀ p ∈ c.rx.recvBuffer.buffered.head?, c.due now p = b := by
        intro b hb p hp
        rw [← Option.some.inj (hhead.symm.trans hp), hb]
      split
      · next hplay => exact .stop rfl rfl (hfirst false (by simp [due, hplay]))
      · next playTime hplay =>
        split
        · next hlt => exact .stop rfl rfl (hfirst false (by simpa [due, hplay] using hlt))
        · next hlt =>
          split
          · next hpop =>
            have hnil := (RecvBuffer.pop_eq_none_iff _).mp hpop
            rw [(RecvBuffer.peek_eq_none_iff _).mpr hnil] at hsome
            exact absurd hsome (by simp)
          · next popped rest hpop =>
            obtain ⟨hp, hslots, -, -⟩ := RecvBuffer.pop_spec _ _ _ hpop
            have hlt' := (List.getElem?_eq_some_iff.mp hp).1
            have hsame : popped = packet := by
              rw [RecvBuffer.buffered_of_pop hpop] at hhead
              exact Option.some.inj hhead
            refine .next hpop ?_ (ih _ ?_)
            · rw [hsame, due, hplay]
              simpa using hlt
            · rw [deliverPopped_recvBuffer, hslots, List.length_drop]
              omega

theorem deliverTsbpd_due (c : Connection) (now : Instant) : DeliversDue c (c.deliverTsbpd now) now :=
  deliverLoop_due now _ c (Nat.lt_succ_self _)

/-! ## Where packets leave the buffer -/

/-- The state in which `insert_data` delivers, if it stores the packet. -/
def presented (P : Primitives) (c : Connection) (data : DataPacket) (now : Instant) : Option Connection :=
  if c.availableRecvBuffer = 0 then none
  else
    match c.openPacket P data with
    | none => none
    | some (data, calls) =>
      let inserted := (c.record calls).rx.recvBuffer.insert data
      if inserted.1 then some ((c.record calls).arrived data inserted.2 now) else none

/-- The state in which a control packet runs `deliver_tsbpd`. -/
def skipped (c : Connection) : ControlBody → List Connection
  | .dropReq _ first last => [c.skipRange first last]
  | _ => []

/-- The states in which a call runs `deliver_tsbpd`. -/
def deliveries (P : Primitives) (c : Connection) (call : Call) (now : Instant) : List Connection :=
  match call with
  | .handleTimer .tsbpd => [c]
  | .feedRecvBuf datagram =>
    match c.link.state, Packet.decode datagram with
    | .connected, .ok (.data data) =>
      (insertions P { c with lastRecvAny := now } data now).filterMap fun x => x.1.presented P x.2 now
    | .connected, .ok (.control ctrl) => { c with lastRecvAny := now }.skipped ctrl.body
    | _, _ => []
  | _ => []

/-- A received SHUTDOWN flushes the buffer. -/
def Flushes (c : Connection) (call : Call) : Prop :=
  ∃ datagram timestamp destSocketId, call = .feedRecvBuf datagram ∧ c.link.state = .connected ∧
    Packet.decode datagram = .ok (.control { timestamp, destSocketId, body := .shutdown })

theorem arrived_popped (c : Connection) (data : DataPacket) (b : RecvBuffer) (now : Instant) :
    popped (c.arrived data b now).trace = popped c.trace := by
  have hquiet := ((recordArrival_quiet c data b now).trans (anchorTsbpd_quiet _ data.timestamp now)).trans
    (sampleDrift_quiet _ data now)
  exact hquiet.popped

theorem insertData_popped (P : Primitives) (c : Connection) (data : DataPacket) (now : Instant) :
    popped (c.insertData P data now).trace
      = popped c.trace ++ (c.presented P data now).toList.flatMap (·.duePrefix now) := by
  unfold insertData presented
  by_cases havail : c.availableRecvBuffer = 0
  · rw [if_pos havail, if_pos havail]
    simp [countDroppedFull]
  · rw [if_neg havail, if_neg havail]
    cases hopen : c.openPacket P data with
    | none => simp [countUndecryptable]
    | some result =>
      have hrecord := (Quiet.record c result.2 (openPacket_quiet hopen)).popped
      dsimp only
      generalize (c.record result.2).rx.recvBuffer.insert result.1 = inserted
      by_cases hnew : inserted.1 = true
      · rw [if_pos hnew, if_pos hnew, afterInsert_eq]
        rw [((lightAckIfDue_clerical _ now).quiet.trans (reportGaps_quiet _ now)).popped,
          (deliverTsbpd_due _ now).popped, arrived_popped, hrecord]
        simp
      · rw [if_neg hnew, if_neg hnew]
        simpa [countDuplicate] using hrecord

theorem injectAll_popped (P : Primitives) (c : Connection) (recovered : List RecoveredPacket) (now : Instant) :
    popped (c.injectAll P recovered now).trace
      = popped c.trace ++ ((injections P now c recovered).filterMap fun x => x.1.presented P x.2 now).flatMap
        (·.duePrefix now) := by
  unfold injectAll
  induction recovered generalizing c with
  | nil => simp [injections]
  | cons rp rest ih =>
    rw [List.foldl_cons, ih]
    unfold injectRecovered
    cases hr : rebuilt c.link.peerSocketId rp with
    | none => simp only [injections, hr]
    | some packet =>
      have hcount : popped c.countRecovered.trace = popped c.trace := rfl
      simp only [injections, hr]
      rw [insertData_popped, hcount, List.filterMap_cons, List.append_assoc]
      cases c.countRecovered.presented P packet now <;> simp

theorem onData_popped (P : Primitives) (c : Connection) (data : DataPacket) (now : Instant) :
    popped (c.onData P data now).trace
      = popped c.trace ++ ((insertions P c data now).filterMap fun x => x.1.presented P x.2 now).flatMap
        (·.duePrefix now) := by
  have hfec : ∀ fec, popped (c.setFecRecv fec).trace = popped c.trace := fun _ => rfl
  unfold onData insertions
  cases c.rx.fecRecv with
  | none =>
    dsimp only
    rw [insertData_popped]
    cases hp : c.presented P data now <;> simp [hp]
  | some fec =>
    dsimp only
    split
    · rw [injectAll_popped, hfec]
    · rw [injectAll_popped, insertData_popped, hfec, List.filterMap_cons, List.append_assoc]
      cases (c.setFecRecv (fec.observeData data.seq (fecData data)).1).presented P data now <;> simp

theorem onControl_popped (P : Primitives) (c : Connection) (ctrl : ControlPacket) (now : Instant)
    (hflush : ctrl.body ≠ .shutdown) :
    popped (c.onConnectedPacket P (.control ctrl) now).trace
      = popped c.trace ++ (c.skipped ctrl.body).flatMap (·.duePrefix now) := by
  have quiet {c'} (h : Quiet c c') : popped c'.trace = popped c.trace ++ [] := by rw [h.popped, List.append_nil]
  obtain ⟨timestamp, destSocketId, body⟩ := ctrl
  cases body with
  | ack a => exact quiet (onAck_clerical c a now).quiet
  | ackAck number => exact quiet (onAckack_quiet c number now)
  | nak loss => exact quiet (onNak_feedback c loss now).txStep.quiet
  | shutdown => exact absurd rfl hflush
  | dropReq message first last =>
    change popped ((c.skipRange first last).deliverTsbpd now).trace
      = popped c.trace ++ [c.skipRange first last].flatMap (·.duePrefix now)
    rw [(deliverTsbpd_due _ now).popped, skipRange_trace, List.flatMap_singleton]
  | keepalive => exact quiet (.refl c)
  | congestionWarning => exact quiet (.refl c)
  | peerError _ => exact quiet (.refl c)
  | raw ctype subtype info cif =>
    cases ctype with
    | userDefined =>
      simp only [onConnectedPacket]
      split
      · exact quiet (onKmReq_keyStep P c cif now).quiet
      · split
        · exact quiet (onKmRsp_keyStep c cif).quiet
        · exact quiet (.refl c)
    | _ => exact quiet (.refl c)
  | handshake hs =>
    simp only [onConnectedPacket]
    split
    · split
      · exact quiet (.output c _)
      · exact quiet (.refl c)
    · exact quiet (.refl c)

theorem handleTimer_popped (P : Primitives) (c : Connection) (id : TimerId) (now : Instant) :
    popped (c.handleTimer P id now).trace
      = popped c.trace ++ (c.deliveries P (.handleTimer id) now).flatMap (·.duePrefix now) := by
  have quiet {c'} (h : Quiet c c') : popped c'.trace = popped c.trace ++ [] := by rw [h.popped, List.append_nil]
  cases id with
  | handshake => exact quiet (onHandshakeTimer_linkStep c now).quiet
  | ack => exact quiet (onAckTimer_clerical c now).quiet
  | nak => exact quiet (onNakTimer_clerical c now).quiet
  | exp => exact quiet (onExpTimer_feedback c now).txStep.quiet
  | tsbpd =>
    change popped (c.deliverTsbpd now).trace = popped c.trace ++ [c].flatMap (·.duePrefix now)
    rw [(deliverTsbpd_due c now).popped, List.flatMap_singleton]
  | sndPacing => exact quiet (pace_clerical P c now).quiet
  | linger => exact quiet (onLingerTimer_linkStep c now).quiet
  | keepalive => exact quiet (onKeepaliveTimer_clerical c now).quiet
  | peerIdle => exact quiet (onPeerIdleTimer_linkStep c now).quiet

theorem feedRecvBuf_popped (P : Primitives) (c : Connection) (datagram : Bytes) (now : Instant)
    (hflush : ¬ c.Flushes (.feedRecvBuf datagram)) :
    popped (c.feedRecvBuf P datagram now).trace
      = popped c.trace ++ (c.deliveries P (.feedRecvBuf datagram) now).flatMap (·.duePrefix now) := by
  unfold feedRecvBuf deliveries
  dsimp only
  cases hd : Packet.decode datagram with
  | error _ => cases c.link.state <;> simp
  | ok packet =>
    have hhand : c.link.state = .induction ∨ c.link.state = .conclusion →
        popped (c.onHandshakePacket packet now).trace = popped c.trace ++ [] := by
      intro hs
      rw [List.append_nil]
      rcases onHandshakePacket_linkStep c packet now hs with hlink | ⟨negotiated, -, he⟩
      · exact hlink.quiet.popped
      · rw [he, (enterConnected_data _ negotiated now).2.2.2.2.2]
        rfl
    cases hs : c.link.state with
    | induction => exact hhand (.inl hs)
    | conclusion => exact hhand (.inr hs)
    | failed => simp
    | connected =>
      cases packet with
      | data data => exact onData_popped P { c with lastRecvAny := now } data now
      | control ctrl =>
        refine onControl_popped P { c with lastRecvAny := now } ctrl now fun hbody => hflush ?_
        obtain ⟨timestamp, destSocketId, body⟩ := ctrl
        dsimp only at hbody
        exact ⟨datagram, timestamp, destSocketId, rfl, hs, by rw [hd, hbody]⟩

/-- Packets leave the buffer when they are due, but for the flush. -/
theorem perform_popped (P : Primitives) (c : Connection) (call : Call) (now : Instant)
    (hflush : ¬ c.Flushes call) :
    popped (c.perform P call now).trace
      = popped c.trace ++ (c.deliveries P call now).flatMap (·.duePrefix now) := by
  have quiet {c'} (h : Quiet c c') : popped c'.trace = popped c.trace ++ [] := by rw [h.popped, List.append_nil]
  cases call with
  | feedRecvBuf datagram => exact feedRecvBuf_popped P c datagram now hflush
  | handleTimer id => exact handleTimer_popped P c id now
  | send payload => exact quiet (send_clerical P c payload now).quiet
  | close => exact quiet (close_linkStep c now).quiet
  | provideRekey sek => exact quiet (provideRekey_keyStep P c sek now).quiet
  | pollEvent => exact (List.append_nil _).symm

/-- At every time, timed delivery takes out the due prefix of the buffered packets, which are in
sequence order from the ACK point and have play times, and leaves a packet in front whose play time
is still to come; and whatever a call takes out, the flush apart, is such a prefix. -/
structure PlaysOnTime (P : Primitives) (c : Connection) : Prop where
  delivers : ∀ now, DeliversDue c (c.deliverTsbpd now) now
  ordered : c.rx.recvBuffer.buffered.Pairwise fun p p' =>
    p.seq.offsetFrom c.rx.recvBuffer.ackPoint < p'.seq.offsetFrom c.rx.recvBuffer.ackPoint
  playTime : ∀ packet ∈ c.rx.recvBuffer.buffered, ∃ t, c.tsbpdPlayTime packet.timestamp = some t
  neverEarly : ∀ call now, ¬ c.Flushes call →
    popped (c.perform P call now).trace
      = popped c.trace ++ (c.deliveries P call now).flatMap (·.duePrefix now)

end Connection

namespace Session

theorem run_anchored {P : Primitives} {s : Session} (hs : Started P s) (inputs : List (Call × Instant)) :
    (Runs.run (step P) s inputs).conn.Anchored := by
  have hstart : s.conn.Anchored := by
    obtain ⟨hrx, -⟩ := hs.empty
    constructor
    · intro hne
      rw [hrx] at hne
      exact absurd rfl hne
    · intro hbase
      rw [hrx] at hbase
      exact absurd hbase (by simp [Receiver.new])
  refine @Runs.invariant _ _ _ (fun _ _ => True) (fun s : Session => s.conn.Anchored) ?_ _ _ hstart
    (Runs.meets_of_forall (fun _ _ => trivial) s inputs)
  intro s input hq _
  have hperform : (s.conn.perform P input.1 input.2).Anchored :=
    (Connection.anchored_timed P).perform input.1 hq (fun _ _ => trivial) (fun _ _ => trivial)
  exact ⟨hperform.base, hperform.wrap⟩

/-- In every state of every run packets play on time. -/
theorem run_playsOnTime (P : Primitives) (s : Session) (hs : Started P s) (inputs : List (Call × Instant)) :
    (Runs.run (step P) s inputs).conn.PlaysOnTime P := by
  have hanchored := run_anchored hs inputs
  generalize (Runs.run (step P) s inputs).conn = c at hanchored ⊢
  refine ⟨fun now => c.deliverTsbpd_due now, c.rx.recvBuffer.buffered_ordered, fun packet hp => ?_,
    fun call now => Connection.perform_popped P c call now⟩
  refine hanchored.playTime (fun hnil => ?_) packet.timestamp
  rw [RecvBuffer.buffered, hnil] at hp
  exact absurd hp List.not_mem_nil

/-- Two packets held back, with a gap between them. -/
theorem plainAcceptor_playsOnTime :
    (Runs.run (step Primitives.absent) plainAcceptor
      [(plainData 0 .single, 0), (plainData 2 .single, 0)]).conn.PlaysOnTime Primitives.absent :=
  run_playsOnTime Primitives.absent plainAcceptor plainAcceptor_started _

end Session

end Srtrust
