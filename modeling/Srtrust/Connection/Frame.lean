import Srtrust.Connection.Machine

/-! # What a handler may touch

Each handler belongs to one half of the connection. `RxStep`, `TxStep` and `KeyStep` say
once what a handler of the receiving half, the sending half and the key exchange leaves
alone and what it may append to the queues and the history; everything later that is not
about the half itself follows from these three relations. -/
namespace Srtrust
open BigEndian
set_option autoImplicit false

/-- Datagrams of the given kind, and requests for the given timers. -/
def Output.Touches (ids : List TimerId) (said : Bytes → Prop) : Output → Prop
  | .sendDatagram d => said d
  | .setTimer id _ => id ∈ ids
  | .clearTimer id => id ∈ ids

/-- The datagram encodes a packet of the given kind. -/
def Encodes (kind : Packet → Prop) (d : Bytes) : Prop := ∃ packet, kind packet ∧ packet.encode = some d

/-- Acknowledgements and loss reports. -/
def Packet.IsReport : Packet → Prop
  | .control { body := .ack _, .. } => True
  | .control { body := .nak _, .. } => True
  | _ => False

def ControlBody.IsDropReq : ControlBody → Prop
  | .dropReq _ _ _ => True
  | _ => False

/-- Data and drop requests. -/
def Packet.IsSending : Packet → Prop
  | .data _ => True
  | .control ctrl => ctrl.body.IsDropReq

/-- Key Material and the other messages that answer or keep alive. -/
def Packet.IsSignal : Packet → Prop
  | .control { body := .raw .userDefined _ _ _, .. } => True
  | .control { body := .ackAck _, .. } => True
  | .control { body := .keepalive, .. } => True
  | _ => False

/-- Events that hand data to the application. -/
def Event.IsData : Event → Prop
  | .dataReceived _ => True
  | _ => False

/-- Events that ask for a fresh key. -/
def Event.IsKeyRefresh : Event → Prop
  | .keyRefreshNeeded _ => True
  | _ => False

/-- History the receiving half writes. -/
def Trace.IsRx : Trace → Prop
  | .popped _ => True
  | .decrypted _ => True
  | .panicked => True
  | _ => False

/-- History the sending half writes. -/
def Trace.IsTx : Trace → Prop
  | .originated _ => True
  | .encrypted _ => True
  | .panicked => True
  | _ => False

namespace Connection

/-- What never changes after a connection is made. -/
def ident (c : Connection) : Config × SocketId × SeqNumber × Instant × Side :=
  (c.config, c.localSocketId, c.initialSeq, c.start, c.side)

theorem config_of_ident {c c' : Connection} (h : c'.ident = c.ident) : c'.config = c.config :=
  congrArg Prod.fst h

/-- The queues and the history only grow, by entries of the given kinds. -/
structure Grows (ev : Event → Prop) (ids : List TimerId) (said : Bytes → Prop)
    (tr : Trace → Prop) (c c' : Connection) : Prop where
  events : ∃ es, c'.events = c.events ++ es ∧ ∀ e ∈ es, ev e
  outputs : ∃ os, c'.outputs = c.outputs ++ os ∧ ∀ o ∈ os, o.Touches ids said
  trace : ∃ ts, c'.trace = c.trace ++ ts ∧ ∀ t ∈ ts, tr t

namespace Grows

variable {ev : Event → Prop} {ids : List TimerId} {said : Bytes → Prop} {tr : Trace → Prop}

/-- Queues and history untouched. -/
theorem same {c c' : Connection} (he : c'.events = c.events) (ho : c'.outputs = c.outputs)
    (ht : c'.trace = c.trace) : Grows ev ids said tr c c' :=
  ⟨⟨[], by simp [he], by simp⟩, ⟨[], by simp [ho], by simp⟩, ⟨[], by simp [ht], by simp⟩⟩

theorem trans {a b c : Connection} (h : Grows ev ids said tr a b) (h' : Grows ev ids said tr b c) :
    Grows ev ids said tr a c := by
  obtain ⟨es, he, hes⟩ := h.events
  obtain ⟨es', he', hes'⟩ := h'.events
  obtain ⟨os, ho, hos⟩ := h.outputs
  obtain ⟨os', ho', hos'⟩ := h'.outputs
  obtain ⟨ts, ht, hts⟩ := h.trace
  obtain ⟨ts', ht', hts'⟩ := h'.trace
  refine ⟨⟨es ++ es', by rw [he', he, List.append_assoc], ?_⟩,
    ⟨os ++ os', by rw [ho', ho, List.append_assoc], ?_⟩,
    ⟨ts ++ ts', by rw [ht', ht, List.append_assoc], ?_⟩⟩
  · intro e hm
    exact (List.mem_append.mp hm).elim (hes e) (hes' e)
  · intro o hm
    exact (List.mem_append.mp hm).elim (hos o) (hos' o)
  · intro t hm
    exact (List.mem_append.mp hm).elim (hts t) (hts' t)

theorem mono {ev' : Event → Prop} {ids' : List TimerId} {said' : Bytes → Prop} {tr' : Trace → Prop}
    {c c' : Connection} (h : Grows ev ids said tr c c') (he : ∀ e, ev e → ev' e)
    (hi : ∀ id ∈ ids, id ∈ ids') (hs : ∀ d, said d → said' d)
    (ht : ∀ t, tr t → tr' t) : Grows ev' ids' said' tr' c c' := by
  obtain ⟨⟨es, hes, hev⟩, ⟨os, hos, hout⟩, ⟨ts, hts, htr⟩⟩ := h
  refine ⟨⟨es, hes, fun e hm => he e (hev e hm)⟩, ⟨os, hos, ?_⟩, ⟨ts, hts, fun t hm => ht t (htr t hm)⟩⟩
  intro o hm
  have := hout o hm
  cases o with
  | sendDatagram d => exact hs d this
  | setTimer id _ => exact hi id this
  | clearTimer id => exact hi id this

theorem emit (c : Connection) (d : Bytes) (now : Instant) (h : said d) :
    Grows ev ids said tr c (c.emit d now) :=
  ⟨⟨[], by simp [Connection.emit], by simp⟩, ⟨[.sendDatagram d], rfl, by simpa [Output.Touches] using h⟩,
    ⟨[], by simp [Connection.emit], by simp⟩⟩

theorem output (c : Connection) (o : Output) (h : o.Touches ids said) :
    Grows ev ids said tr c (c.output o) :=
  ⟨⟨[], by simp [Connection.output], by simp⟩, ⟨[o], rfl, by simpa using h⟩,
    ⟨[], by simp [Connection.output], by simp⟩⟩

theorem event (c : Connection) (e : Event) (h : ev e) : Grows ev ids said tr c (c.event e) :=
  ⟨⟨[e], rfl, by simpa using h⟩, ⟨[], by simp [Connection.event], by simp⟩,
    ⟨[], by simp [Connection.event], by simp⟩⟩

theorem record (c : Connection) (ts : List Trace) (h : ∀ t ∈ ts, tr t) :
    Grows ev ids said tr c (c.record ts) :=
  ⟨⟨[], by simp [Connection.record], by simp⟩, ⟨[], by simp [Connection.record], by simp⟩,
    ⟨ts, rfl, h⟩⟩

theorem emitControl {kind : Packet → Prop} (hp : tr .panicked) (c : Connection) (body : ControlBody)
    (now : Instant) (hs : ∀ timestamp destSocketId, kind (.control { timestamp, destSocketId, body })) :
    Grows ev ids (Encodes kind) tr c (c.emitControl body now) := by
  unfold Connection.emitControl
  split
  · next henc => exact emit c _ now ⟨_, hs _ _, henc⟩
  · exact record c _ (by simpa using hp)

end Grows

/-- A conforming control packet goes out, and reads as what it says. -/
theorem emitControl_conforming (c : Connection) {body : ControlBody} (h : body.Conforming) (now : Instant) :
    ∃ datagram, c.emitControl body now = c.emit datagram now ∧
      Packet.decode datagram = .ok (.control ⟨c.wireTs now, c.link.peerSocketId, body⟩) := by
  obtain ⟨datagram, hencode, hdecode⟩ :=
    Packet.decode_encode (.control ⟨c.wireTs now, c.link.peerSocketId, body⟩) h
  refine ⟨datagram, ?_, hdecode⟩
  unfold emitControl encodeControl
  rw [hencode]

/-! ## The receiving half -/

/-- Work of the receiving half: the link, the keys and the sender are left alone. -/
structure RxStep (c c' : Connection) : Prop where
  ident : c'.ident = c.ident
  link : c'.link = c.link
  keys : c'.keys = c.keys
  tx : c'.tx = c.tx
  lastRecvAny : c'.lastRecvAny = c.lastRecvAny
  grows : Grows Event.IsData [.tsbpd] (Encodes Packet.IsReport) Trace.IsRx c c'

namespace RxStep

theorem refl (c : Connection) : RxStep c c := ⟨rfl, rfl, rfl, rfl, rfl, .same rfl rfl rfl⟩

theorem trans {a b c : Connection} (h : RxStep a b) (h' : RxStep b c) : RxStep a c :=
  ⟨h'.ident.trans h.ident, h'.link.trans h.link, h'.keys.trans h.keys, h'.tx.trans h.tx,
    h'.lastRecvAny.trans h.lastRecvAny, h.grows.trans h'.grows⟩

/-- A change of the receiver's own state. -/
theorem ofRx (c : Connection) (rx : Receiver) : RxStep c { c with rx := rx } :=
  ⟨rfl, rfl, rfl, rfl, rfl, .same rfl rfl rfl⟩

theorem emitControl (c : Connection) (body : ControlBody) (now : Instant)
    (hb : ∀ timestamp destSocketId, (Packet.control { timestamp, destSocketId, body }).IsReport) :
    RxStep c (c.emitControl body now) := by
  refine ⟨?_, ?_, ?_, ?_, ?_, .emitControl trivial c body now hb⟩ <;>
    (unfold Connection.emitControl; split <;> rfl)

theorem tsbpdTimer (c : Connection) (o : Output) (h : o.Touches [.tsbpd] (Encodes Packet.IsReport)) :
    RxStep c (c.output o) := ⟨rfl, rfl, rfl, rfl, rfl, .output c o h⟩

theorem record (c : Connection) (ts : List Trace) (h : ∀ t ∈ ts, t.IsRx) :
    RxStep c (c.record ts) := ⟨rfl, rfl, rfl, rfl, rfl, .record c ts h⟩

end RxStep

theorem deliverPacket_rxStep (c : Connection) (packet : DataPacket) :
    RxStep c (c.deliverPacket packet) := by
  unfold deliverPacket
  have h1 := RxStep.ofRx c { c.rx with reassembler := (c.rx.reassembler.push packet).2 }
  refine h1.trans ((RxStep.record _ [.popped packet] (by simp [Trace.IsRx])).trans ?_)
  dsimp only
  split
  · exact ⟨rfl, rfl, rfl, rfl, rfl, .event _ _ trivial⟩
  · exact .refl _

theorem deliverPopped_rxStep (c : Connection) (packet : DataPacket) (rest : RecvBuffer) :
    RxStep c (c.deliverPopped packet rest) :=
  (RxStep.ofRx c _).trans (deliverPacket_rxStep _ packet)

/-- What the playout timer and every delivered packet keep, timed delivery keeps. -/
theorem deliverTsbpd_rule {Q : Connection → Prop}
    (htimer : ∀ c o, o.Touches [.tsbpd] (fun _ => False) → Q c → Q (c.output o))
    (hpop : ∀ c packet rest, c.rx.recvBuffer.pop = some (packet, rest) → Q c → Q (c.deliverPopped packet rest))
    {c : Connection} (now : Instant) (h : Q c) : Q (c.deliverTsbpd now) := by
  have hloop : ∀ (fuel : ℕ) (c : Connection), Q c → Q (deliverLoop now fuel c) := by
    intro fuel
    induction fuel with
    | zero => exact fun _ h => h
    | succ fuel ih =>
      intro c h
      unfold deliverLoop
      split
      · exact htimer c _ (by simp [Output.Touches]) h
      · split
        · exact h
        · split
          · exact htimer c _ (by simp [Output.Touches]) h
          · split
            · exact ih c h
            · next hp => exact ih _ (hpop c _ _ hp h)
  exact hloop _ c h

/-- A packet at the ACK point has no gap in front of it. -/
theorem deliverPopped_of_popInOrder {c : Connection} {packet : DataPacket} {rest : RecvBuffer}
    (h : c.rx.recvBuffer.popInOrder = some (packet, rest)) :
    c.deliverPopped packet rest = (c.setRecvBuffer rest).deliverPacket packet := by
  obtain ⟨hpop, hfirst⟩ := RecvBuffer.popInOrder_spec _ _ _ h
  obtain ⟨-, -, hbase, -⟩ := RecvBuffer.pop_spec _ _ _ hpop
  have hone : rest.ackPoint.offsetFrom c.rx.recvBuffer.ackPoint = 1 := by
    simp only [RecvBuffer.ackPoint, hbase, hfirst]
    simpa using SeqNumber.offsetFrom_add c.rx.recvBuffer.base 1 0 (by omega) (by omega)
  unfold deliverPopped
  rw [hone]
  rfl

theorem flushLoop_rule {Q : Connection → Prop}
    (hpop : ∀ c packet rest, c.rx.recvBuffer.pop = some (packet, rest) → Q c → Q (c.deliverPopped packet rest))
    (fuel : ℕ) {c : Connection} (h : Q c) : Q (flushLoop fuel c) := by
  induction fuel generalizing c with
  | zero => exact h
  | succ fuel ih =>
    unfold flushLoop
    split
    · exact h
    · next packet rest hp =>
      rw [← deliverPopped_of_popInOrder hp]
      exact ih (hpop c packet rest (RecvBuffer.popInOrder_spec _ _ _ hp).1 h)

theorem deliverTsbpd_rxStep (c : Connection) (now : Instant) : RxStep c (c.deliverTsbpd now) := by
  refine deliverTsbpd_rule (fun d o ho h => h.trans (.tsbpdTimer d o ?_))
    (fun d packet rest _ h => h.trans (deliverPopped_rxStep d packet rest)) now (.refl c)
  cases o with
  | sendDatagram datagram => exact False.elim ho
  | setTimer id after => exact ho
  | clearTimer id => exact ho

theorem flushLoop_rxStep (fuel : ℕ) (c : Connection) : RxStep c (flushLoop fuel c) :=
  flushLoop_rule (fun d packet rest _ h => h.trans (deliverPopped_rxStep d packet rest)) fuel (.refl c)

theorem sendLightAck_rxStep (c : Connection) (now : Instant) : RxStep c (c.sendLightAck now) := by
  have h1 : RxStep c c.noteLightAck := .ofRx c _
  exact h1.trans (.emitControl _ _ now fun _ _ => trivial)

theorem sendFullAck_rxStep (c : Connection) (now : Instant) : RxStep c (c.sendFullAck now) := by
  have h1 : RxStep c (c.noteFullAck now) := .ofRx c _
  exact h1.trans (.emitControl _ _ now fun _ _ => trivial)

theorem sendNak_rxStep (c : Connection) (missing : List (SeqNumber × SeqNumber)) (now : Instant) :
    RxStep c (c.sendNak missing now) := by
  have h1 : RxStep c c.countNakSent := .ofRx c _
  have h2 : ∀ (c : Connection) loss, RxStep c (c.emitControl (.nak loss) now) :=
    fun c loss => .emitControl c _ now fun _ _ => trivial
  have h3 : ∀ c : Connection, RxStep c (c.noteNak now) := fun c => .ofRx c _
  exact (h1.trans (h2 _ _)).trans (h3 _)

theorem lightAckIfDue_rxStep (c : Connection) (now : Instant) : RxStep c (c.lightAckIfDue now) := by
  have hc : RxStep c c.countTowardsAck := .ofRx c _
  unfold lightAckIfDue
  split
  · exact hc.trans (sendLightAck_rxStep _ now)
  · exact hc

theorem reportGaps_rxStep (c : Connection) (now : Instant) : RxStep c (c.reportGaps now) := by
  have hl : ∀ (c : Connection) missing, RxStep c (c.setReportedLoss missing) := fun c _ => .ofRx c _
  unfold reportGaps
  dsimp only
  split
  · split
    · exact (sendNak_rxStep c _ now).trans (hl _ _)
    · exact .refl c
  · exact hl c _

theorem afterInsert_rxStep (c : Connection) (data : DataPacket) (b : RecvBuffer) (now : Instant) :
    RxStep c (c.afterInsert data b now) := by
  have h1 : RxStep c (c.recordArrival data b now) := .ofRx c _
  have h2 : ∀ c : Connection, RxStep c (c.anchorTsbpd data.timestamp now) := by
    intro c
    unfold anchorTsbpd
    split <;> exact .ofRx c _
  have h3 : ∀ c : Connection, RxStep c (c.sampleDrift data now) := by
    intro c
    unfold sampleDrift
    split
    · exact .ofRx c _
    · exact .refl c
  exact ((((h1.trans (h2 _)).trans (h3 _)).trans (deliverTsbpd_rxStep _ now)).trans
    (lightAckIfDue_rxStep _ now)).trans (reportGaps_rxStep _ now)

/-- An opened packet differs from the one received in its payload only, and the history gains
decryptions only. -/
theorem openPacket_spec {P : Primitives} {c : Connection} {data : DataPacket}
    {result : DataPacket × List Trace} (h : c.openPacket P data = some result) :
    result.1 = { data with payload := result.1.payload } ∧ ∀ t ∈ result.2, ∃ call, t = .decrypted call := by
  unfold openPacket at h
  split at h
  · obtain rfl := Option.some.inj h
    exact ⟨rfl, by simp⟩
  · obtain ⟨crypto, -, h⟩ := Option.bind_eq_some_iff.mp h
    obtain ⟨⟨plaintext, keys⟩, -, h⟩ := Option.bind_eq_some_iff.mp h
    obtain rfl := Option.some.inj h
    exact ⟨rfl, by simp⟩

theorem openPacket_seq {P : Primitives} {c : Connection} {data : DataPacket}
    {result : DataPacket × List Trace} (h : c.openPacket P data = some result) : result.1.seq = data.seq := by
  rw [(openPacket_spec h).1]

theorem openPacket_trace {P : Primitives} {c : Connection} {data : DataPacket}
    {result : DataPacket × List Trace} (h : c.openPacket P data = some result) :
    ∀ t ∈ result.2, t.IsRx := by
  intro t ht
  obtain ⟨call, rfl⟩ := (openPacket_spec h).2 t ht
  trivial

theorem insertData_rxStep (P : Primitives) (c : Connection) (data : DataPacket) (now : Instant) :
    RxStep c (c.insertData P data now) := by
  unfold insertData
  by_cases hfull : c.availableRecvBuffer = 0
  · rw [if_pos hfull]
    exact .ofRx c _
  · rw [if_neg hfull]
    cases ho : c.openPacket P data with
    | none => exact .ofRx c _
    | some result =>
      obtain ⟨opened, calls⟩ := result
      have h1 := RxStep.record c calls (openPacket_trace ho)
      dsimp only
      split
      · exact h1.trans (afterInsert_rxStep _ _ _ now)
      · exact h1.trans (.ofRx _ _)

theorem injectRecovered_rxStep (P : Primitives) (c : Connection) (rp : RecoveredPacket)
    (now : Instant) : RxStep c (c.injectRecovered P rp now) := by
  unfold injectRecovered
  split
  · exact .refl c
  · have h : RxStep c c.countRecovered := .ofRx c _
    exact h.trans (insertData_rxStep P _ _ now)

theorem injectAll_rxStep (P : Primitives) (c : Connection) (recovered : List RecoveredPacket)
    (now : Instant) : RxStep c (c.injectAll P recovered now) := by
  unfold injectAll
  induction recovered generalizing c with
  | nil => exact .refl c
  | cons rp rest ih => exact (injectRecovered_rxStep P c rp now).trans (ih _)

theorem onData_rxStep (P : Primitives) (c : Connection) (data : DataPacket) (now : Instant) :
    RxStep c (c.onData P data now) := by
  have h : ∀ fec, RxStep c (c.setFecRecv fec) := fun _ => .ofRx c _
  unfold onData
  split
  · exact insertData_rxStep P c data now
  · split
    · exact (h _).trans (injectAll_rxStep P _ _ now)
    · exact ((h _).trans (insertData_rxStep P _ data now)).trans (injectAll_rxStep P _ _ now)

theorem onDropreq_rxStep (c : Connection) (first last : SeqNumber) (now : Instant) :
    RxStep c (c.onDropreq first last now) := by
  have h : RxStep c (c.skipRange first last) := .ofRx c _
  exact h.trans (deliverTsbpd_rxStep _ now)

theorem onAckack_rxStep (c : Connection) (ackNumber : UInt32) (now : Instant) :
    RxStep c (c.onAckack ackNumber now) := by
  unfold onAckack
  split
  · exact .refl c
  · split
    · exact .refl c
    · exact ⟨rfl, rfl, rfl, rfl, rfl, .same rfl rfl rfl⟩

/-! ## The sending half -/

/-- Work of the sending half: the link and the receiver are left alone. -/
structure TxStep (c c' : Connection) : Prop where
  ident : c'.ident = c.ident
  link : c'.link = c.link
  rx : c'.rx = c.rx
  rtt : c'.rtt = c.rtt
  lastRecvAny : c'.lastRecvAny = c.lastRecvAny
  grows : Grows Event.IsKeyRefresh [.exp] (Encodes Packet.IsSending) Trace.IsTx c c'

namespace TxStep

theorem refl (c : Connection) : TxStep c c := ⟨rfl, rfl, rfl, rfl, rfl, .same rfl rfl rfl⟩

theorem trans {a b c : Connection} (h : TxStep a b) (h' : TxStep b c) : TxStep a c :=
  ⟨h'.ident.trans h.ident, h'.link.trans h.link, h'.rx.trans h.rx, h'.rtt.trans h.rtt,
    h'.lastRecvAny.trans h.lastRecvAny, h.grows.trans h'.grows⟩

/-- A change of the sender's own state. -/
theorem ofTx (c : Connection) (tx : Sender) : TxStep c { c with tx := tx } :=
  ⟨rfl, rfl, rfl, rfl, rfl, .same rfl rfl rfl⟩

theorem ofKeys (c : Connection) (keys : Keys) : TxStep c { c with keys := keys } :=
  ⟨rfl, rfl, rfl, rfl, rfl, .same rfl rfl rfl⟩

theorem emit (c : Connection) (packet : DataPacket) (now : Instant) :
    TxStep c (c.emit packet.encode now) :=
  ⟨rfl, rfl, rfl, rfl, rfl, .emit c _ now ⟨.data packet, trivial, rfl⟩⟩

theorem output (c : Connection) (o : Output) (h : o.Touches [.exp] (Encodes Packet.IsSending)) :
    TxStep c (c.output o) := ⟨rfl, rfl, rfl, rfl, rfl, .output c o h⟩

theorem record (c : Connection) (ts : List Trace) (h : ∀ t ∈ ts, t.IsTx) :
    TxStep c (c.record ts) := ⟨rfl, rfl, rfl, rfl, rfl, .record c ts h⟩

end TxStep

theorem armExp_txStep (c : Connection) : TxStep c c.armExp :=
  .output c _ (by simp [Output.Touches])

theorem accountKeyAndMaybeRotate_txStep (c : Connection) : TxStep c c.accountKeyAndMaybeRotate := by
  unfold accountKeyAndMaybeRotate
  split
  · exact .refl c
  · rename_i crypto _
    have h1 : TxStep c (c.rotateIfDue crypto) := by
      unfold rotateIfDue
      split
      · exact .ofKeys c _
      · exact .refl c
    refine h1.trans ?_
    generalize c.rotateIfDue crypto = c
    unfold countAndAnnounce
    dsimp only
    split
    · split
      · exact ((TxStep.ofKeys c _).trans (.ofKeys _ _)).trans
          ⟨rfl, rfl, rfl, rfl, rfl, .event _ _ trivial⟩
      · exact .ofKeys c _
    · exact .ofKeys c _

theorem sealPacket_trace {P : Primitives} {c : Connection} {packet stored : DataPacket}
    {calls : List Trace} (h : c.sealPacket P packet = some (stored, calls)) :
    ∀ t ∈ calls, t.IsTx := by
  unfold sealPacket at h
  split at h
  · simp only [Option.some.injEq, Prod.mk.injEq] at h
    simp [← h.2]
  · obtain ⟨⟨ciphertext, keys⟩, -, h⟩ := Option.bind_eq_some_iff.mp h
    simp only [Option.some.injEq, Prod.mk.injEq] at h
    simp [← h.2, Trace.IsTx]

theorem transmit_txStep (c : Connection) (stored : DataPacket) (now : Instant) :
    TxStep c (c.transmit stored now) := by
  have h1 : TxStep c (c.storePacket stored) := .ofTx c _
  have h2 : ∀ (c : Connection) (parity : Option FecParity),
      TxStep c (c.emitParityIfFull stored.seq parity now) := by
    intro c parity
    unfold emitParityIfFull
    split
    · exact .emit _ _ now
    · exact .refl c
  have h3 : ∀ c : Connection, TxStep c (c.advanceSeq stored) := fun c =>
    (TxStep.ofTx c _).trans (.record _ [.originated stored] (by simp [Trace.IsTx]))
  unfold transmit
  refine (((h1.trans (.emit _ stored now)).trans
    (h2 _ (fecFeed c.tx stored).1)).trans (h3 _)).trans ?_
  split
  · exact armExp_txStep _
  · exact .refl _

theorem sendData_txStep (P : Primitives) (c : Connection) (fragment : Fragment) (now : Instant) :
    TxStep c (c.sendData P fragment now) := by
  unfold sendData
  dsimp only
  split
  · exact .record c _ (by simp [Trace.IsTx])
  · rename_i stored calls hs
    exact (accountKeyAndMaybeRotate_txStep c).trans ((TxStep.ofTx _ _).trans
      ((TxStep.record _ calls (sealPacket_trace hs)).trans (transmit_txStep _ stored now)))

theorem releaseOne_txStep (P : Primitives) (c : Connection) (fragment : Fragment)
    (rest : List Fragment) (period : Duration) (now : Instant) :
    TxStep c (c.releaseOne P fragment rest period now) := by
  have h1 : TxStep c (c.setQueue rest) := .ofTx c _
  have h2 : ∀ (c : Connection) t, TxStep c (c.setNextSend t) := fun c _ => .ofTx c _
  exact (h1.trans (sendData_txStep P _ fragment now)).trans (h2 _ _)

theorem paceLoop_txStep (P : Primitives) (period : Duration) (now : Instant) (budget : ℕ)
    (c : Connection) : TxStep c (paceLoop P period now budget c).1 := by
  induction budget generalizing c with
  | zero => exact .refl c
  | succ budget ih =>
    unfold paceLoop
    split
    · exact .refl c
    · split
      · exact .ofTx c _
      · exact (releaseOne_txStep P c _ _ period now).trans (ih _)

theorem release_txStep (P : Primitives) (c : Connection) (period : Duration) (now : Instant) :
    TxStep c (c.release P period now) := by
  have h := paceLoop_txStep P period now maxPaceBurst c
  unfold release
  generalize paceLoop P period now maxPaceBurst c = paced at h ⊢
  dsimp only
  split
  · exact h.trans (.ofTx _ _)
  · exact h

/-- A fold of steps is a step. -/
theorem TxStep.foldl {α : Type} {f : Connection → α → Connection}
    (hf : ∀ c x, TxStep c (f c x)) (xs : List α) (c : Connection) : TxStep c (xs.foldl f c) := by
  induction xs generalizing c with
  | nil => exact .refl c
  | cons x xs ih => exact (hf c x).trans (ih _)

/-! ## The key exchange -/

theorem emitKm_keys (c : Connection) (subtype : UInt16) (cif : Bytes) (now : Instant) :
    (c.emitKm subtype cif now).keys = c.keys := by
  unfold emitKm emitControl
  split <;> rfl

theorem sendInduction_keys (c : Connection) (now : Instant) : (c.sendInduction now).keys = c.keys := by
  unfold sendInduction emitHandshake
  split <;> rfl

/-- Counting a packet leaves the keys alone; at the refresh point the slots change places. -/
theorem accountKey_keys (c : Connection) :
    c.accountKeyAndMaybeRotate.keys.pendingKm = c.keys.pendingKm ∧
      ((c.accountKeyAndMaybeRotate.keys.crypto = c.keys.crypto
          ∧ c.accountKeyAndMaybeRotate.keys.nextKeyReady = c.keys.nextKeyReady)
        ∨ ∃ crypto, c.keys.crypto = some crypto ∧ c.keys.nextKeyReady = true
          ∧ c.accountKeyAndMaybeRotate.keys.crypto = some (crypto.activate crypto.nextFlags)
          ∧ c.accountKeyAndMaybeRotate.keys.nextKeyReady = false) := by
  have hcount : ∀ d : Connection, d.countAndAnnounce.keys.crypto = d.keys.crypto
      ∧ d.countAndAnnounce.keys.pendingKm = d.keys.pendingKm
      ∧ d.countAndAnnounce.keys.nextKeyReady = d.keys.nextKeyReady := by
    intro d
    unfold countAndAnnounce
    dsimp only
    split
    · split <;> exact ⟨rfl, rfl, rfl⟩
    · exact ⟨rfl, rfl, rfl⟩
  unfold accountKeyAndMaybeRotate
  split
  · exact ⟨rfl, .inl ⟨rfl, rfl⟩⟩
  · next crypto hcrypto =>
    obtain ⟨hsame, hpending, hready⟩ := hcount (c.rotateIfDue crypto)
    rw [hsame, hpending, hready]
    unfold rotateIfDue
    split
    · next hdue => exact ⟨rfl, .inr ⟨crypto, hcrypto, hdue.1, rfl, rfl⟩⟩
    · exact ⟨rfl, .inl ⟨rfl, rfl⟩⟩

/-- Work of the key exchange: only the keys change, and datagrams are queued. -/
structure KeyStep (c c' : Connection) : Prop where
  ident : c'.ident = c.ident
  link : c'.link = c.link
  tx : c'.tx = c.tx
  rx : c'.rx = c.rx
  rtt : c'.rtt = c.rtt
  lastRecvAny : c'.lastRecvAny = c.lastRecvAny
  events : c'.events = c.events
  grows : Grows (fun _ => False) [] (Encodes Packet.IsSignal) (· = .panicked) c c'

namespace KeyStep

theorem refl (c : Connection) : KeyStep c c :=
  ⟨rfl, rfl, rfl, rfl, rfl, rfl, rfl, .same rfl rfl rfl⟩

theorem trans {a b c : Connection} (h : KeyStep a b) (h' : KeyStep b c) : KeyStep a c :=
  ⟨h'.ident.trans h.ident, h'.link.trans h.link, h'.tx.trans h.tx, h'.rx.trans h.rx,
    h'.rtt.trans h.rtt, h'.lastRecvAny.trans h.lastRecvAny, h'.events.trans h.events,
    h.grows.trans h'.grows⟩

theorem ofKeys (c : Connection) (keys : Keys) : KeyStep c { c with keys := keys } :=
  ⟨rfl, rfl, rfl, rfl, rfl, rfl, rfl, .same rfl rfl rfl⟩

theorem emitControl (c : Connection) (body : ControlBody) (now : Instant)
    (hb : ∀ timestamp destSocketId, (Packet.control { timestamp, destSocketId, body }).IsSignal) :
    KeyStep c (c.emitControl body now) := by
  refine ⟨?_, ?_, ?_, ?_, ?_, ?_, ?_, @Grows.emitControl _ _ (· = .panicked) _ rfl c body now hb⟩ <;>
    (unfold Connection.emitControl; split <;> rfl)

end KeyStep

/-- The answer to an ACK is one datagram at most. -/
theorem answerAck_keyStep (c : Connection) (ack : Ack) (now : Instant) :
    KeyStep c (c.answerAck ack now) := by
  unfold answerAck
  split
  · exact .emitControl c _ now fun _ _ => trivial
  · exact .refl c

theorem emitKm_keyStep (c : Connection) (subtype : UInt16) (cif : Bytes) (now : Instant) :
    KeyStep c (c.emitKm subtype cif now) :=
  .emitControl c _ now fun _ _ => trivial

theorem provideRekey_keyStep (P : Primitives) (c : Connection) (sek : Bytes) (now : Instant) :
    KeyStep c (c.provideRekey P sek now) := by
  unfold provideRekey
  split
  · exact .refl c
  · split
    · split
      · exact .refl c
      · split
        · exact ⟨rfl, rfl, rfl, rfl, rfl, rfl, rfl, .record c _ (by simp)⟩
        · have h1 : ∀ crypto, KeyStep c (c.setCrypto crypto) := fun _ => .ofKeys c _
          have h2 : ∀ (c : Connection) km, KeyStep c (c.awaitKmRsp km) := fun c _ => .ofKeys c _
          exact ((h1 _).trans (emitKm_keyStep _ _ _ now)).trans (h2 _ _)
    · exact .refl c

theorem onKmRsp_keyStep (c : Connection) (cif : Bytes) : KeyStep c (c.onKmRsp cif) := by
  unfold onKmRsp
  split
  · exact .ofKeys c _
  · exact .refl c

theorem resendPendingKm_keyStep (c : Connection) (now : Instant) :
    KeyStep c (c.resendPendingKm now) := by
  unfold resendPendingKm
  split
  · exact .refl c
  · split
    · exact .ofKeys c _
    · exact (KeyStep.ofKeys c _).trans (emitKm_keyStep _ _ _ now)

theorem onKmReq_keyStep (P : Primitives) (c : Connection) (cif : Bytes) (now : Instant) :
    KeyStep c (c.onKmReq P cif now) := by
  unfold onKmReq
  split
  · split
    · exact .refl c
    · have h1 : ∀ crypto, KeyStep c (c.setCrypto crypto) := fun _ => .ofKeys c _
      exact (h1 _).trans (emitKm_keyStep _ _ _ now)
  · exact .refl c

/-! ## Control packets -/

/-- What a connected endpoint does with a control packet, one case a handler. -/
theorem onControl_cases (P : Primitives) (c : Connection) (ctrl : ControlPacket) (now : Instant)
    {R : Connection → Prop} (ack : ∀ ack, ctrl.body = .ack ack → R (c.onAck ack now))
    (ackAck : ∀ number, R (c.onAckack number now)) (nak : ∀ loss, ctrl.body = .nak loss → R (c.onNak loss now))
    (shutdown : R c.onShutdown)
    (dropReq : ∀ message first last, ctrl.body = .dropReq message first last →
      R (c.onDropreq first last now))
    (kmReq : ∀ cif, R (c.onKmReq P cif now)) (kmRsp : ∀ cif, R (c.onKmRsp cif))
    (again : ∀ bytes, c.link.lastHandshake = some bytes → R (c.output (.sendDatagram bytes)))
    (ignored : R c) : R (c.onConnectedPacket P (.control ctrl) now) := by
  obtain ⟨timestamp, destSocketId, body⟩ := ctrl
  cases body with
  | ack a => exact ack a rfl
  | ackAck number => exact ackAck number
  | nak loss => exact nak loss rfl
  | shutdown => exact shutdown
  | dropReq message first last => exact dropReq message first last rfl
  | keepalive => exact ignored
  | congestionWarning => exact ignored
  | peerError _ => exact ignored
  | raw ctype subtype info cif =>
    cases ctype with
    | userDefined =>
      simp only [onConnectedPacket]
      split
      · exact kmReq cif
      · split
        · exact kmRsp cif
        · exact ignored
    | _ => exact ignored
  | handshake hs =>
    simp only [onConnectedPacket]
    split
    · next hlast =>
      split
      · exact again _ hlast
      · exact ignored
    · exact ignored

/-! ## Seen from the link -/

/-- Work of any of the three, seen from the link: only the given timers are touched, and no
event reports a change of the link. -/
structure Inner (ids : List TimerId) (c c' : Connection) : Prop where
  link : c'.link = c.link
  grows : Grows (fun e => e.IsData ∨ e.IsKeyRefresh) ids (fun _ => True) (fun _ => True) c c'

theorem Inner.refl (ids : List TimerId) (c : Connection) : Inner ids c c :=
  ⟨rfl, .same rfl rfl rfl⟩

theorem Inner.trans {ids : List TimerId} {a b c : Connection} (h : Inner ids a b)
    (h' : Inner ids b c) : Inner ids a c :=
  ⟨h'.link.trans h.link, h.grows.trans h'.grows⟩

theorem Inner.output {ids : List TimerId} (c : Connection) (o : Output) (h : o.Touches ids fun _ => True) :
    Inner ids c (c.output o) :=
  ⟨rfl, .output c o h⟩

theorem Inner.mono {ids ids' : List TimerId} {c c' : Connection} (h : Inner ids c c')
    (hi : ∀ id ∈ ids, id ∈ ids') : Inner ids' c c' :=
  ⟨h.link, h.grows.mono (fun _ => id) hi (fun _ => id) (fun _ => id)⟩

/-- A control packet touches no timer. -/
theorem Inner.emitControl {ids : List TimerId} (c : Connection) (body : ControlBody) (now : Instant) :
    Inner ids c (c.emitControl body now) := by
  have h := @Grows.emitControl (fun e => e.IsData ∨ e.IsKeyRefresh) ids (fun _ => True) (fun _ => True)
    trivial c body now fun _ _ => trivial
  refine ⟨?_, h.mono (fun _ => id) (fun _ => id) (fun _ _ => trivial) (fun _ => id)⟩
  unfold Connection.emitControl
  split <;> rfl

theorem RxStep.inner {c c' : Connection} (h : RxStep c c') : Inner [.tsbpd] c c' :=
  ⟨h.link, h.grows.mono (fun _ => Or.inl) (fun _ => id) (fun _ _ => trivial)
    (fun _ _ => trivial)⟩

theorem TxStep.inner {c c' : Connection} (h : TxStep c c') : Inner [.exp] c c' :=
  ⟨h.link, h.grows.mono (fun _ => Or.inr) (fun _ => id) (fun _ _ => trivial)
    (fun _ _ => trivial)⟩

theorem KeyStep.inner {c c' : Connection} (h : KeyStep c c') : Inner [] c c' :=
  ⟨h.link, h.grows.mono (fun _ => False.elim) (fun _ => id) (fun _ _ => trivial)
    (fun _ _ => trivial)⟩

end Connection

end Srtrust
