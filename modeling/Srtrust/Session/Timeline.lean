import Srtrust.Session.Reception
import Srtrust.Session.Playout

/-! # The receiver's timeline over whole runs

The anchor, the wrap tracker, the drift estimate and the round-trip time change in two places: when
a packet is newly stored, and when an ACKACK answers a full ACK. `Timed` collects what a property of
them has to survive, and the rules below carry it along every run. -/
namespace Srtrust
open BigEndian
set_option autoImplicit false

namespace Connection

/-- Work that moves neither the timeline nor the round-trip time, and stores nothing. -/
structure Still (c c' : Connection) : Prop where
  tsbpdBase : c'.rx.tsbpdBase = c.rx.tsbpdBase
  tsWrap : c'.rx.tsWrap = c.rx.tsWrap
  drift : c'.rx.drift = c.rx.drift
  rtt : c'.rtt = c.rtt
  slots : c'.rx.recvBuffer.slots ≠ [] → c.rx.recvBuffer.slots ≠ []

namespace Still

theorem refl (c : Connection) : Still c c := ⟨rfl, rfl, rfl, rfl, id⟩

theorem trans {a b c : Connection} (h : Still a b) (h' : Still b c) : Still a c :=
  ⟨h'.tsbpdBase.trans h.tsbpdBase, h'.tsWrap.trans h.tsWrap, h'.drift.trans h.drift, h'.rtt.trans h.rtt,
    h.slots ∘ h'.slots⟩

theorem same {c c' : Connection} (hrx : c'.rx = c.rx) (hrtt : c'.rtt = c.rtt) : Still c c' :=
  ⟨by rw [hrx], by rw [hrx], by rw [hrx], hrtt, by rw [hrx]; exact id⟩

end Still

theorem Clerical.still {c c' : Connection} (h : Clerical c c') : Still c c' := by
  have hkept := h.kept
  simp only [Receiver.kept, Prod.mk.injEq] at hkept
  obtain ⟨⟨hbuffer, -, -⟩, ⟨hbase, hwrap, hdrift⟩, -⟩ := hkept
  exact ⟨hbase, hwrap, hdrift, h.rtt, by rw [hbuffer]; exact id⟩

theorem LinkStep.still {c c' : Connection} (h : LinkStep c c') : Still c c' := h.clerical.still

theorem TxStep.still {c c' : Connection} (h : TxStep c c') : Still c c' := h.clerical.still

theorem KeyStep.still {c c' : Connection} (h : KeyStep c c') : Still c c' := h.clerical.still

/-! ## Handlers that move no timeline -/

theorem deliverPopped_still {c : Connection} {packet : DataPacket} {rest : RecvBuffer}
    (h : c.rx.recvBuffer.pop = some (packet, rest)) : Still c (c.deliverPopped packet rest) := by
  have hne : c.rx.recvBuffer.slots ≠ [] := by
    intro he
    rw [(RecvBuffer.pop_eq_none_iff _).mpr he] at h
    exact absurd h (by simp)
  have htimeline := deliverPopped_timeline c packet rest
  have hrtt : (c.deliverPopped packet rest).rtt = c.rtt := by
    unfold deliverPopped deliverPacket
    dsimp only
    split <;> rfl
  simp only [timeline, Prod.mk.injEq] at htimeline
  obtain ⟨-, hbase, hwrap, hdrift, -⟩ := htimeline
  exact ⟨hbase, hwrap, hdrift, hrtt, fun _ => hne⟩

theorem deliverTsbpd_still (c : Connection) (now : Instant) : Still c (c.deliverTsbpd now) :=
  deliverTsbpd_rule (fun d o _ h => h.trans (LinkStep.output d o).still)
    (fun _ _ _ hpop h => h.trans (deliverPopped_still hpop)) now (.refl c)

theorem flushLoop_still (fuel : ℕ) (c : Connection) : Still c (flushLoop fuel c) :=
  flushLoop_rule (fun _ _ _ hpop h => h.trans (deliverPopped_still hpop)) fuel (.refl c)

theorem onShutdown_still (c : Connection) : Still c c.onShutdown :=
  (flushLoop_still _ c).trans
    (((fail_linkStep _).trans (clearArqTimers_linkStep _)).trans (.event _ _ id)).still

theorem reportGaps_still (c : Connection) (now : Instant) : Still c (c.reportGaps now) := by
  have h1 : ∀ (c : Connection) missing, Still c (c.setReportedLoss missing) :=
    fun _ _ => ⟨rfl, rfl, rfl, rfl, id⟩
  unfold reportGaps
  dsimp only
  split
  · split
    · exact (sendNak_clerical c _ now).still.trans (h1 _ _)
    · exact .refl c
  · exact h1 c _

theorem replaceBuffer_still {c : Connection} {b : RecvBuffer} (skipped : ℕ)
    (hb : b.slots ≠ [] → c.rx.recvBuffer.slots ≠ []) : Still c (c.replaceBuffer b skipped) :=
  ⟨rfl, rfl, rfl, rfl, hb⟩

theorem skipRange_still (c : Connection) (first last : SeqNumber) : Still c (c.skipRange first last) := by
  refine replaceBuffer_still _ fun h he => h ?_
  rcases RecvBuffer.dropRange_cases c.rx.recvBuffer first last with hs | ⟨n, -, -, hs, -⟩
  · rw [hs, he]
  · rw [hs, he, List.drop_nil]

theorem enterConnected_still (c : Connection) (negotiated : Negotiated) (now : Instant) :
    Still c (c.enterConnected negotiated now) :=
  ⟨rfl, rfl, rfl, rfl, fun h => absurd rfl h⟩

/-! ## The rules -/

/-- The state in which a newly stored packet is followed by timed delivery. -/
def arrived (c : Connection) (data : DataPacket) (b : RecvBuffer) (now : Instant) : Connection :=
  ((c.recordArrival data b now).anchorTsbpd data.timestamp now).sampleDrift data now

theorem afterInsert_eq (c : Connection) (data : DataPacket) (b : RecvBuffer) (now : Instant) :
    c.afterInsert data b now = (((c.arrived data b now).deliverTsbpd now).lightAckIfDue now).reportGaps now :=
  rfl

/-- A packet that `insert_data` newly stores. -/
def Stores (P : Primitives) (c : Connection) (data : DataPacket) : Prop :=
  c.availableRecvBuffer ≠ 0 ∧ ∃ result ∈ c.openPacket P data, (c.rx.recvBuffer.insert result.1).1 = true

instance (P : Primitives) (c : Connection) (data : DataPacket) : Decidable (c.Stores P data) :=
  inferInstanceAs (Decidable (_ ∧ ∃ result ∈ c.openPacket P data, _))

/-- What a property of the timeline has to survive; `stored` is what is known of the packets handed
over, `acked` of the ACKACKs received. -/
structure Timed (P : Primitives) (stored : Connection → DataPacket → Instant → Prop)
    (acked : Connection → UInt32 → Instant → Prop) (Q : Instant → Connection → Prop) : Prop where
  later : ∀ t t' c, t ≤ t' → Q t c → Q t' c
  still : ∀ t c c', Still c c' → Q t c → Q t c'
  arrive : ∀ c data now result b, stored c data now → c.Stores P data → c.openPacket P data = some result →
    Q now c → Q now ((c.record result.2).arrived result.1 b now)
  ackack : ∀ c number now, acked c number now → Q now c → Q now (c.onAckack number now)
  /-- The assumption on ACKACKs does not depend on the clock. -/
  ackedFrame : ∀ c number now, acked c number now → acked { c with lastRecvAny := now } number now

/-- The ACKACK a call delivers. -/
def ackackOf (c : Connection) : Call → Option UInt32
  | .feedRecvBuf datagram =>
    match c.link.state, Packet.decode datagram with
    | .connected, .ok (.control { body := .ackAck number, .. }) => some number
    | _, _ => none
  | _ => none

namespace Timed

variable {P : Primitives} {stored : Connection → DataPacket → Instant → Prop}
  {acked : Connection → UInt32 → Instant → Prop} {Q : Instant → Connection → Prop}
  (h : Timed P stored acked Q) {c : Connection} {now : Instant}
include h

theorem insertData (data : DataPacket) (hq : Q now c) (hok : stored c data now) :
    Q now (c.insertData P data now) := by
  have hcount : ∀ (c c' : Connection), c'.rx.tsbpdBase = c.rx.tsbpdBase → c'.rx.tsWrap = c.rx.tsWrap →
      c'.rx.drift = c.rx.drift → c'.rtt = c.rtt → c'.rx.recvBuffer = c.rx.recvBuffer → Still c c' :=
    fun _ _ h1 h2 h3 h4 h5 => ⟨h1, h2, h3, h4, by rw [h5]; exact id⟩
  unfold Connection.insertData
  by_cases havail : c.availableRecvBuffer = 0
  · rw [if_pos havail]
    exact h.still _ _ _ (hcount c _ rfl rfl rfl rfl rfl) hq
  · rw [if_neg havail]
    cases hopen : c.openPacket P data with
    | none => exact h.still _ _ _ (hcount c _ rfl rfl rfl rfl rfl) hq
    | some result =>
      have hbuffer : (c.record result.2).rx.recvBuffer = c.rx.recvBuffer := rfl
      have hstores : (c.rx.recvBuffer.insert result.1).1 = true → c.Stores P data :=
        fun hnew => ⟨havail, result, hopen, hnew⟩
      dsimp only
      rw [hbuffer]
      generalize c.rx.recvBuffer.insert result.1 = inserted at hstores ⊢
      split
      · next hnew =>
        rw [afterInsert_eq]
        refine h.still _ _ _ ?_ (h.arrive c data now result inserted.2 hok (hstores hnew) hopen hq)
        exact ((deliverTsbpd_still _ now).trans (lightAckIfDue_clerical _ now).still).trans (reportGaps_still _ now)
      · have hrecord : Still c (c.record result.2) := hcount c _ rfl rfl rfl rfl rfl
        exact h.still _ _ _ (hrecord.trans (hcount _ _ rfl rfl rfl rfl rfl)) hq

theorem injectAll (recovered : List RecoveredPacket) (hq : Q now c)
    (hok : ∀ x ∈ injections P now c recovered, stored x.1 x.2 now) : Q now (c.injectAll P recovered now) := by
  unfold Connection.injectAll
  induction recovered generalizing c with
  | nil => exact hq
  | cons rp rest ih =>
    rw [List.foldl_cons]
    unfold injectRecovered
    cases hr : rebuilt c.link.peerSocketId rp with
    | none =>
      simp only [injections, hr] at hok
      exact ih hq hok
    | some packet =>
      simp only [injections, hr] at hok
      have hcount : Still c c.countRecovered := ⟨rfl, rfl, rfl, rfl, id⟩
      exact ih (h.insertData packet (h.still _ _ _ hcount hq) (hok _ List.mem_cons_self))
        (fun x hx => hok x (List.mem_cons_of_mem _ hx))

theorem onData (data : DataPacket) (hq : Q now c)
    (hok : ∀ x ∈ insertions P c data now, stored x.1 x.2 now) : Q now (c.onData P data now) := by
  have hfec : ∀ fec, Q now (c.setFecRecv fec) := fun fec =>
    h.still now c _ ⟨rfl, rfl, rfl, rfl, id⟩ hq
  unfold Connection.onData
  unfold insertions at hok
  cases hr : c.rx.fecRecv with
  | none =>
    simp only [hr] at hok
    exact h.insertData data hq (hok (c, data) List.mem_cons_self)
  | some fec =>
    simp only [hr] at hok
    dsimp only
    split
    · next hm =>
      rw [if_pos hm] at hok
      exact h.injectAll _ (hfec _) hok
    · next hm =>
      rw [if_neg hm] at hok
      exact h.injectAll _ (h.insertData data (hfec _) (hok (_, data) List.mem_cons_self))
        (fun x hx => hok x (List.mem_cons_of_mem _ hx))

theorem onControl (ctrl : ControlPacket) (hq : Q now c)
    (hacked : ∀ number, ctrl.body = .ackAck number → acked c number now) :
    Q now (c.onConnectedPacket P (.control ctrl) now) := by
  have still {c'} (hc : Still c c') : Q now c' := h.still now c c' hc hq
  obtain ⟨timestamp, destSocketId, body⟩ := ctrl
  cases body with
  | ack a => exact still (onAck_clerical c a now).still
  | ackAck number => exact h.ackack c number now (hacked number rfl) hq
  | nak loss => exact still (onNak_feedback c loss now).txStep.still
  | shutdown => exact still (onShutdown_still c)
  | dropReq message first last => exact still ((skipRange_still c first last).trans (deliverTsbpd_still _ now))
  | keepalive => exact hq
  | congestionWarning => exact hq
  | peerError _ => exact hq
  | raw ctype subtype info cif =>
    cases ctype with
    | userDefined =>
      simp only [onConnectedPacket]
      split
      · exact still (onKmReq_keyStep P c cif now).still
      · split
        · exact still (onKmRsp_keyStep c cif).still
        · exact hq
    | _ => exact hq
  | handshake hs =>
    simp only [onConnectedPacket]
    split
    · split
      · exact still (LinkStep.output c _).still
      · exact hq
    · exact hq

theorem feedRecvBuf (datagram : Bytes) (hq : Q now c)
    (hstored : ∀ x ∈ c.handed P (.feedRecvBuf datagram) now, stored x.1 x.2 now)
    (hacked : ∀ number, c.ackackOf (.feedRecvBuf datagram) = some number → acked c number now) :
    Q now (c.feedRecvBuf P datagram now) := by
  have hrecv : Q now { c with lastRecvAny := now } := h.still now c _ ⟨rfl, rfl, rfl, rfl, id⟩ hq
  unfold Connection.feedRecvBuf
  unfold handed at hstored
  unfold ackackOf at hacked
  cases hd : Packet.decode datagram with
  | error _ => exact hq
  | ok packet =>
    have hhand : c.link.state = .induction ∨ c.link.state = .conclusion →
        Q now (c.onHandshakePacket packet now) := by
      intro hs
      rcases onHandshakePacket_linkStep c packet now hs with hlink | ⟨negotiated, -, he⟩
      · exact h.still _ _ _ hlink.still hq
      · rw [he]
        exact h.still _ _ _ ((LinkStep.output c _).still.trans (enterConnected_still _ negotiated now)) hq
    cases hs : c.link.state with
    | induction => exact hhand (.inl hs)
    | conclusion => exact hhand (.inr hs)
    | failed => exact hq
    | connected =>
      simp only [hd, hs] at hstored hacked
      cases packet with
      | data data => exact h.onData data hrecv hstored
      | control ctrl =>
        refine h.onControl ctrl hrecv fun number hbody => h.ackedFrame c number now (hacked number ?_)
        obtain ⟨timestamp, destSocketId, body⟩ := ctrl
        dsimp only at hbody
        rw [hbody]

theorem handleTimer (id : TimerId) (hq : Q now c) : Q now (c.handleTimer P id now) := by
  have still {c'} (hc : Still c c') : Q now c' := h.still now c c' hc hq
  cases id with
  | handshake => exact still (onHandshakeTimer_linkStep c now).still
  | ack => exact still (onAckTimer_clerical c now).still
  | nak => exact still (onNakTimer_clerical c now).still
  | exp => exact still (onExpTimer_feedback c now).txStep.still
  | tsbpd => exact still (deliverTsbpd_still c now)
  | sndPacing => exact still (pace_clerical P c now).still
  | linger => exact still (onLingerTimer_linkStep c now).still
  | keepalive => exact still (onKeepaliveTimer_clerical c now).still
  | peerIdle => exact still (onPeerIdleTimer_linkStep c now).still

theorem perform (call : Call) (hq : Q now c) (hstored : ∀ x ∈ c.handed P call now, stored x.1 x.2 now)
    (hacked : ∀ number, c.ackackOf call = some number → acked c number now) :
    Q now (c.perform P call now) := by
  cases call with
  | feedRecvBuf datagram => exact h.feedRecvBuf datagram hq hstored hacked
  | handleTimer id => exact h.handleTimer id hq
  | send payload => exact h.still _ _ _ (send_clerical P c payload now).still hq
  | close => exact h.still _ _ _ (close_linkStep c now).still hq
  | provideRekey sek => exact h.still _ _ _ (provideRekey_keyStep P c sek now).still hq
  | pollEvent => exact h.still now c _ (.same rfl rfl) hq

theorem injections (recovered : List RecoveredPacket) (hq : Q now c)
    (hok : ∀ x ∈ Connection.injections P now c recovered, stored x.1 x.2 now) :
    ∀ x ∈ Connection.injections P now c recovered, Q now x.1 := by
  induction recovered generalizing c with
  | nil => simp [Connection.injections]
  | cons rp rest ih =>
    cases hr : rebuilt c.link.peerSocketId rp with
    | none =>
      simp only [Connection.injections, hr] at hok ⊢
      exact ih hq hok
    | some packet =>
      simp only [Connection.injections, hr] at hok ⊢
      have hcount : Q now c.countRecovered := h.still now c _ ⟨rfl, rfl, rfl, rfl, id⟩ hq
      intro x hx
      rcases List.mem_cons.mp hx with rfl | hx
      · exact hcount
      · exact ih (h.insertData packet hcount (hok _ List.mem_cons_self))
          (fun x hx => hok x (List.mem_cons_of_mem _ hx)) x hx

theorem insertions (data : DataPacket) (hq : Q now c)
    (hok : ∀ x ∈ Connection.insertions P c data now, stored x.1 x.2 now) :
    ∀ x ∈ Connection.insertions P c data now, Q now x.1 := by
  have hfec : ∀ fec, Q now (c.setFecRecv fec) := fun fec =>
    h.still now c _ ⟨rfl, rfl, rfl, rfl, id⟩ hq
  unfold Connection.insertions at hok ⊢
  cases hr : c.rx.fecRecv with
  | none =>
    intro x hx
    obtain rfl := List.mem_singleton.mp hx
    exact hq
  | some fec =>
    simp only [hr] at hok ⊢
    split
    · next hm =>
      rw [if_pos hm] at hok
      exact h.injections _ (hfec _) hok
    · next hm =>
      rw [if_neg hm] at hok
      intro x hx
      rcases List.mem_cons.mp hx with rfl | hx
      · exact hfec _
      · exact h.injections _ (h.insertData data (hfec _) (hok (_, data) List.mem_cons_self))
          (fun x hx => hok x (List.mem_cons_of_mem _ hx)) x hx

/-- The property also holds inside a call, where a packet is handed to `insert_data`. -/
theorem handed (call : Call) (hq : Q now c) (hstored : ∀ x ∈ c.handed P call now, stored x.1 x.2 now) :
    ∀ x ∈ c.handed P call now, Q now x.1 := by
  have hrecv : Q now { c with lastRecvAny := now } := h.still now c _ ⟨rfl, rfl, rfl, rfl, id⟩ hq
  unfold Connection.handed at hstored ⊢
  split
  · next datagram =>
    split
    · next data hs hd =>
      simp only [hs, hd] at hstored
      exact h.insertions data hrecv hstored
    · simp
  · simp

end Timed

end Connection

namespace Session

/-- A property of the timeline holds along every run of a clock that does not go back, whose packets
and ACKACKs are as assumed. -/
theorem run_timed {P : Primitives} {stored : Connection → DataPacket → Instant → Prop}
    {acked : Connection → UInt32 → Instant → Prop} {Q : Instant → Connection → Prop}
    (h : Connection.Timed P stored acked Q) {s : Session} {inputs : List (Call × Instant)}
    (h0 : Q s.clock s.conn)
    (hm : Runs.Meets (step P) (fun s input => s.clock ≤ input.2 ∧
      (∀ x ∈ s.conn.handed P input.1 input.2, stored x.1 x.2 input.2) ∧
      ∀ number, s.conn.ackackOf input.1 = some number → acked s.conn number input.2) s inputs) :
    Q (Runs.run (step P) s inputs).clock (Runs.run (step P) s inputs).conn := by
  refine @Runs.invariant _ _ _ _ (fun s : Session => Q s.clock s.conn) ?_ _ _ h0 hm
  intro s input hq hok
  have hperform := h.perform input.1 (h.later _ _ _ hok.1 hq) hok.2.1 hok.2.2
  exact h.still input.2 (s.conn.perform P input.1 input.2) _ ⟨rfl, rfl, rfl, rfl, id⟩ hperform

end Session

namespace Connection

theorem recordArrival_timeline (c : Connection) (data : DataPacket) (b : RecvBuffer) (now : Instant) :
    (c.recordArrival data b now).rx.tsbpdBase = c.rx.tsbpdBase ∧
      (c.recordArrival data b now).rx.tsWrap = c.rx.tsWrap ∧
      (c.recordArrival data b now).rx.drift = c.rx.drift ∧ (c.recordArrival data b now).rtt = c.rtt := by
  unfold recordArrival
  dsimp only
  obtain ⟨highest, streak, tolerance, h⟩ := trackReorder_eq
    { c.rx with
      recvBuffer := b
      stats :=
        { c.rx.stats with
          packetsReceived := c.rx.stats.packetsReceived + 1
          bytesReceived := c.rx.stats.bytesReceived + data.payload.length } }
    data.seq data.retransmitted
  rw [h]
  exact ⟨rfl, rfl, rfl, rfl⟩

/-- Buffered packets have a timeline in every state of every run. -/
theorem anchored_timed (P : Primitives) :
    Timed P (fun _ _ _ => True) (fun _ _ _ => True) fun _ c => c.Anchored where
  later _ _ _ _ hc := hc
  still _ c c' h hc := by
    refine ⟨fun hne => ?_, ?_⟩
    · rw [h.tsbpdBase]
      exact hc.base (h.slots hne)
    · rw [h.tsbpdBase, h.tsWrap]
      exact hc.wrap
  arrive c data now result b _ _ _ hc := by
    obtain ⟨hbase, hwrap, -⟩ := recordArrival_timeline (c.record result.2) result.1 b now
    refine sampleDrift_anchored _ now (anchorTsbpd_anchored _ now ?_)
    rw [hbase, hwrap]
    exact hc.wrap
  ackack c number now _ hc := by
    unfold onAckack
    split
    · exact hc
    · split
      · exact hc
      · exact ⟨hc.base, hc.wrap⟩
  ackedFrame _ _ _ h := h

end Connection

end Srtrust
