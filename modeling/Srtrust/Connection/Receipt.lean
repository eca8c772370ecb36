import Srtrust.Connection.Origination

/-! # Received data

A data packet enters the receive buffer in one place, leaves it in one place, and is skipped in
two. `Receipt` collects what a property of buffered and delivered data has to survive: a packet
stored, a packet popped, a range skipped, and work that concerns no received data. The rules
below carry such a property through every handler of the receiving half. -/
namespace Srtrust
open BigEndian
set_option autoImplicit false

/-- A packet taken out of the receive buffer. -/
def Trace.IsPopped : Trace → Prop
  | .popped _ => True
  | _ => False

theorem Trace.IsTx.not_isPopped {t : Trace} (h : t.IsTx) : ¬ t.IsPopped := by
  cases t <;> simp_all [Trace.IsTx, Trace.IsPopped]

/-- The packet an entry of the history takes out of the receive buffer. -/
def Trace.popped? : Trace → Option DataPacket
  | .popped packet => some packet
  | _ => none

/-- The packets taken out of the receive buffer, in order. -/
def popped (trace : List Trace) : List DataPacket := trace.filterMap Trace.popped?

theorem popped_eq_nil {trace : List Trace} (h : ∀ t ∈ trace, ¬ t.IsPopped) : popped trace = [] := by
  rw [popped, List.filterMap_eq_nil_iff]
  intro t ht
  have := h t ht
  cases t <;> simp_all [Trace.IsPopped, Trace.popped?]

/-- An event that opens the received stream or carries data of it. -/
def Event.IsInbound : Event → Prop
  | .connected _ => True
  | .dataReceived _ => True
  | _ => False

/-- The message an event hands to the application. -/
def Event.message : Event → Option Bytes
  | .dataReceived message => some message
  | _ => none

/-- The messages among some events. -/
def messages (events : List Event) : List Bytes := events.filterMap Event.message

theorem messages_eq_nil {events : List Event} (h : ∀ e ∈ events, ¬ e.IsInbound) :
    messages events = [] := by
  rw [messages, List.filterMap_eq_nil_iff]
  intro e he
  have := h e he
  cases e <;> simp_all [Event.IsInbound, Event.message]

namespace Connection

/-- The handshake is over. -/
def Established (c : Connection) : Prop := c.link.state = .connected ∨ c.link.state = .failed

/-- Work that concerns no received data: the buffer, the partial message and the delivered
messages stay, and the history may grow. An FEC decoder is neither added nor removed. -/
structure Quiet (c c' : Connection) : Prop where
  established : c.Established → c'.Established
  config : c'.config = c.config
  recvBuffer : c'.rx.recvBuffer = c.rx.recvBuffer
  reassembler : c'.rx.reassembler = c.rx.reassembler
  dropped : c'.rx.stats.packetsDropped = c.rx.stats.packetsDropped
  fec : c'.rx.fecRecv.isSome = c.rx.fecRecv.isSome
  events : ∃ es, c'.events = c.events ++ es ∧ ∀ e ∈ es, ¬ e.IsInbound
  trace : ∃ ts, c'.trace = c.trace ++ ts ∧ ∀ t ∈ ts, ¬ t.IsPopped

namespace Quiet

theorem refl (c : Connection) : Quiet c c :=
  ⟨id, rfl, rfl, rfl, rfl, rfl, ⟨[], by simp, by simp⟩, ⟨[], by simp, by simp⟩⟩

theorem trans {a b c : Connection} (h : Quiet a b) (h' : Quiet b c) : Quiet a c := by
  obtain ⟨es, he, hes⟩ := h.events
  obtain ⟨es', he', hes'⟩ := h'.events
  obtain ⟨ts, ht, hts⟩ := h.trace
  obtain ⟨ts', ht', hts'⟩ := h'.trace
  refine ⟨h'.established ∘ h.established, h'.config.trans h.config, h'.recvBuffer.trans h.recvBuffer,
    h'.reassembler.trans h.reassembler, h'.dropped.trans h.dropped, h'.fec.trans h.fec,
    ⟨es ++ es', by rw [he', he, List.append_assoc], ?_⟩,
    ⟨ts ++ ts', by rw [ht', ht, List.append_assoc], ?_⟩⟩
  · intro e hm
    exact (List.mem_append.mp hm).elim (hes e) (hes' e)
  · intro t hm
    exact (List.mem_append.mp hm).elim (hts t) (hts' t)

/-- Receiver, events and history untouched. -/
theorem same {c c' : Connection} (hl : c.Established → c'.Established) (hc : c'.config = c.config)
    (hr : c'.rx = c.rx) (he : c'.events = c.events) (ht : c'.trace = c.trace) : Quiet c c' :=
  ⟨hl, hc, by rw [hr], by rw [hr], by rw [hr], by rw [hr], ⟨[], by simp [he], by simp⟩,
    ⟨[], by simp [ht], by simp⟩⟩

/-- A change of the receiver that leaves the data alone. -/
theorem ofRx (c : Connection) (rx : Receiver) (hb : rx.recvBuffer = c.rx.recvBuffer)
    (hr : rx.reassembler = c.rx.reassembler)
    (hd : rx.stats.packetsDropped = c.rx.stats.packetsDropped)
    (hf : rx.fecRecv.isSome = c.rx.fecRecv.isSome) : Quiet c { c with rx := rx } :=
  ⟨id, rfl, hb, hr, hd, hf, ⟨[], by simp, by simp⟩, ⟨[], by simp, by simp⟩⟩

theorem messages {c c' : Connection} (h : Quiet c c') : messages c'.events = messages c.events := by
  obtain ⟨es, he, hes⟩ := h.events
  rw [he, Srtrust.messages, List.filterMap_append]
  change _ ++ Srtrust.messages es = _
  rw [messages_eq_nil hes, List.append_nil]
  rfl

theorem popped {c c' : Connection} (h : Quiet c c') : popped c'.trace = popped c.trace := by
  obtain ⟨ts, ht, hts⟩ := h.trace
  rw [ht, Srtrust.popped, List.filterMap_append]
  change _ ++ Srtrust.popped ts = _
  rw [popped_eq_nil hts, List.append_nil]
  rfl

theorem output (c : Connection) (o : Output) : Quiet c (c.output o) := .same id rfl rfl rfl rfl

theorem record (c : Connection) (ts : List Trace) (h : ∀ t ∈ ts, ¬ t.IsPopped) :
    Quiet c (c.record ts) :=
  ⟨id, rfl, rfl, rfl, rfl, rfl, ⟨[], by simp [Connection.record], by simp⟩, ⟨ts, rfl, h⟩⟩

theorem event (c : Connection) (e : Event) (h : ¬ e.IsInbound) : Quiet c (c.event e) :=
  ⟨id, rfl, rfl, rfl, rfl, rfl, ⟨[e], rfl, by simpa using h⟩, ⟨[], by simp [Connection.event], by simp⟩⟩

theorem emitControl (c : Connection) (body : ControlBody) (now : Instant) :
    Quiet c (c.emitControl body now) := by
  unfold Connection.emitControl
  split
  · exact .same id rfl rfl rfl rfl
  · exact record c _ (by simp [Trace.IsPopped])

end Quiet

/-- What a receiver keeps while it does its bookkeeping. -/
def Receiver.kept (rx : Receiver) :=
  ((rx.recvBuffer, rx.reassembler, rx.stats.packetsDropped, rx.fecRecv.isSome), (rx.tsbpdBase, rx.tsWrap, rx.drift),
    rx.reportedLoss, rx.reorderTolerance)

/-- Work that concerns neither received data nor the timeline nor the last loss report. -/
structure Clerical (c c' : Connection) : Prop where
  established : c.Established → c'.Established
  config : c'.config = c.config
  rtt : c'.rtt = c.rtt
  kept : Receiver.kept c'.rx = Receiver.kept c.rx
  events : ∃ es, c'.events = c.events ++ es ∧ ∀ e ∈ es, ¬ e.IsInbound
  trace : ∃ ts, c'.trace = c.trace ++ ts ∧ ∀ t ∈ ts, ¬ t.IsPopped

namespace Clerical

variable {a b c c' : Connection}

theorem quiet (h : Clerical c c') : Quiet c c' := by
  have hkept := h.kept
  simp only [Receiver.kept, Prod.mk.injEq] at hkept
  obtain ⟨⟨hbuffer, hreassembler, hdropped, hfec⟩, -⟩ := hkept
  exact ⟨h.established, h.config, hbuffer, hreassembler, hdropped, hfec, h.events, h.trace⟩

theorem reportedLoss (h : Clerical c c') : c'.rx.reportedLoss = c.rx.reportedLoss :=
  congrArg (fun kept => kept.2.2.1) h.kept

theorem reorderTolerance (h : Clerical c c') : c'.rx.reorderTolerance = c.rx.reorderTolerance :=
  congrArg (fun kept => kept.2.2.2) h.kept

/-- A change of the receiver's counters. -/
theorem ofRx (c : Connection) (rx : Receiver) (h : Receiver.kept rx = Receiver.kept c.rx) :
    Clerical c { c with rx := rx } :=
  ⟨id, rfl, rfl, h, ⟨[], by simp, by simp⟩, ⟨[], by simp, by simp⟩⟩

theorem refl (c : Connection) : Clerical c c := ofRx c c.rx rfl

theorem trans (h : Clerical a b) (h' : Clerical b c) : Clerical a c :=
  ⟨h'.established ∘ h.established, h'.config.trans h.config, h'.rtt.trans h.rtt, h'.kept.trans h.kept,
    (h.quiet.trans h'.quiet).events, (h.quiet.trans h'.quiet).trace⟩

/-- Receiver and estimator untouched. -/
theorem ofQuiet (h : Quiet c c') (hrx : c'.rx = c.rx) (hrtt : c'.rtt = c.rtt) : Clerical c c' :=
  ⟨h.established, h.config, hrtt, by rw [hrx], h.events, h.trace⟩

theorem output (c : Connection) (o : Output) : Clerical c (c.output o) := .ofQuiet (.output c o) rfl rfl

theorem emitControl (c : Connection) (body : ControlBody) (now : Instant) :
    Clerical c (c.emitControl body now) := by
  refine .ofQuiet (.emitControl c body now) ?_ ?_ <;>
    · unfold Connection.emitControl
      split <;> rfl

end Clerical

theorem TxStep.clerical {c c' : Connection} (h : TxStep c c') : Clerical c c' := by
  obtain ⟨es, he, hes⟩ := h.grows.events
  obtain ⟨ts, ht, hts⟩ := h.grows.trace
  refine ⟨?_, config_of_ident h.ident, h.rtt, by rw [h.rx], ⟨es, he, ?_⟩,
    ⟨ts, ht, fun t hm => (hts t hm).not_isPopped⟩⟩
  · rw [Established, Established, h.link]
    exact id
  · intro e hm
    have := hes e hm
    cases e <;> simp_all [Event.IsKeyRefresh, Event.IsInbound]

theorem TxStep.quiet {c c' : Connection} (h : TxStep c c') : Quiet c c' := h.clerical.quiet

theorem KeyStep.clerical {c c' : Connection} (h : KeyStep c c') : Clerical c c' := by
  obtain ⟨ts, ht, hts⟩ := h.grows.trace
  refine ⟨?_, config_of_ident h.ident, h.rtt, by rw [h.rx], ⟨[], by simp [h.events], by simp⟩, ⟨ts, ht, ?_⟩⟩
  · rw [Established, Established, h.link]
    exact id
  · intro t hm
    rw [hts t hm]
    exact id

theorem KeyStep.quiet {c c' : Connection} (h : KeyStep c c') : Quiet c c' := h.clerical.quiet

/-! ## Stages that concern no data -/

theorem trackReorder_eq (rx : Receiver) (seq : SeqNumber) (retransmitted : Bool) :
    ∃ highest streak tolerance, trackReorder rx seq retransmitted =
      { rx with
        highestRecvSeq := highest, orderlyStreak := streak, reorderTolerance := tolerance } := by
  unfold trackReorder
  dsimp only
  split
  · exact ⟨rx.highestRecvSeq, rx.orderlyStreak, rx.reorderTolerance, rfl⟩
  · split
    · exact ⟨_, rx.orderlyStreak, rx.reorderTolerance, rfl⟩
    · split
      · split
        · exact ⟨_, _, _, rfl⟩
        · exact ⟨_, _, rx.reorderTolerance, rfl⟩
      · exact ⟨rx.highestRecvSeq, _, _, rfl⟩

theorem recordArrival_quiet (c : Connection) (data : DataPacket) (b : RecvBuffer) (now : Instant) :
    Quiet (c.setRecvBuffer b) (c.recordArrival data b now) := by
  unfold recordArrival
  dsimp only
  obtain ⟨highest, streak, tolerance, h⟩ := trackReorder_eq
    { c.rx with
      recvBuffer := b
      stats :=
        { c.rx.stats with
          packetsReceived := c.rx.stats.packetsReceived + 1
          bytesReceived := c.rx.stats.bytesReceived + data.payload.length } }
    data.seq data.retransmitted
  rw [h]
  exact ⟨id, rfl, rfl, rfl, rfl, rfl, ⟨[], by simp [setRecvBuffer], by simp⟩,
    ⟨[], by simp [setRecvBuffer], by simp⟩⟩

theorem anchorTsbpd_quiet (c : Connection) (timestamp : Timestamp) (now : Instant) :
    Quiet c (c.anchorTsbpd timestamp now) := by
  unfold anchorTsbpd
  split <;> exact .ofRx c _ rfl rfl rfl rfl

theorem sampleDrift_quiet (c : Connection) (data : DataPacket) (now : Instant) :
    Quiet c (c.sampleDrift data now) := by
  unfold sampleDrift
  split
  · exact .ofRx c _ rfl rfl rfl rfl
  · exact .refl c

theorem sendLightAck_clerical (c : Connection) (now : Instant) : Clerical c (c.sendLightAck now) := by
  have h1 : Clerical c c.noteLightAck := .ofRx c _ rfl
  exact h1.trans (.emitControl _ _ now)

theorem sendFullAck_clerical (c : Connection) (now : Instant) : Clerical c (c.sendFullAck now) := by
  have h1 : Clerical c (c.noteFullAck now) := .ofRx c _ rfl
  exact h1.trans (.emitControl _ _ now)

theorem sendNak_clerical (c : Connection) (missing : List (SeqNumber × SeqNumber)) (now : Instant) :
    Clerical c (c.sendNak missing now) := by
  have h1 : Clerical c c.countNakSent := .ofRx c _ rfl
  have h2 : ∀ c : Connection, Clerical c (c.noteNak now) := fun c => .ofRx c _ rfl
  exact (h1.trans (.emitControl _ _ now)).trans (h2 _)

theorem lightAckIfDue_clerical (c : Connection) (now : Instant) : Clerical c (c.lightAckIfDue now) := by
  have h1 : Clerical c c.countTowardsAck := .ofRx c _ rfl
  unfold lightAckIfDue
  split
  · exact h1.trans (sendLightAck_clerical _ now)
  · exact h1

theorem reportGaps_quiet (c : Connection) (now : Instant) : Quiet c (c.reportGaps now) := by
  have h1 : ∀ (c : Connection) missing, Quiet c (c.setReportedLoss missing) :=
    fun c _ => .ofRx c _ rfl rfl rfl rfl
  unfold reportGaps
  dsimp only
  split
  · split
    · exact (sendNak_clerical c _ now).quiet.trans (h1 _ _)
    · exact .refl c
  · exact h1 c _

theorem onAckTimer_clerical (c : Connection) (now : Instant) : Clerical c (c.onAckTimer now) := by
  unfold onAckTimer
  split
  · exact .refl c
  · refine (Clerical.output c (.setTimer .ack ackInterval)).trans ?_
    dsimp only
    split
    · exact .refl _
    · exact sendFullAck_clerical _ now

theorem onNakTimer_clerical (c : Connection) (now : Instant) : Clerical c (c.onNakTimer now) := by
  unfold onNakTimer
  split
  · exact .refl c
  · refine (Clerical.output c (.setTimer .nak c.nakInterval)).trans ?_
    dsimp only
    split
    · exact .refl _
    · split
      · exact .refl _
      · exact sendNak_clerical _ _ now

theorem onAckack_quiet (c : Connection) (ackNumber : UInt32) (now : Instant) :
    Quiet c (c.onAckack ackNumber now) := by
  unfold onAckack
  split
  · exact .refl c
  · split
    · exact .refl c
    · exact ⟨id, rfl, rfl, rfl, rfl, rfl, ⟨[], by simp, by simp⟩, ⟨[], by simp, by simp⟩⟩

/-- The decoder's next state. -/
theorem setFecRecv_clerical {c : Connection} (h : c.rx.fecRecv.isSome) (fec : FecReceiver) :
    Clerical c (c.setFecRecv fec) := by
  refine .ofRx c _ ?_
  simp only [Receiver.kept, h, Option.isSome_some]

/-- Opening a packet takes none out of the buffer. -/
theorem openPacket_quiet {P : Primitives} {c : Connection} {data : DataPacket}
    {result : DataPacket × List Trace} (h : c.openPacket P data = some result) :
    ∀ t ∈ result.2, ¬ t.IsPopped := by
  intro t ht
  obtain ⟨call, rfl⟩ := (openPacket_spec h).2 t ht
  exact id

/-! ## Putting a buffer in place -/

section Place

variable (c : Connection) (b : RecvBuffer) (first last : SeqNumber)

@[simp] theorem setRecvBuffer_recvBuffer : (c.setRecvBuffer b).rx.recvBuffer = b := rfl

@[simp] theorem setRecvBuffer_reassembler :
    (c.setRecvBuffer b).rx.reassembler = c.rx.reassembler := rfl

@[simp] theorem setRecvBuffer_config : (c.setRecvBuffer b).config = c.config := rfl

@[simp] theorem setRecvBuffer_events : (c.setRecvBuffer b).events = c.events := rfl

@[simp] theorem setRecvBuffer_trace : (c.setRecvBuffer b).trace = c.trace := rfl

-- stated for any buffer: with the buffer a drop request leaves, `rfl` would compute it
section Replace

variable (n : ℕ)

theorem replaceBuffer_recvBuffer : (c.replaceBuffer b n).rx.recvBuffer = b := rfl

theorem replaceBuffer_reassembler : (c.replaceBuffer b n).rx.reassembler = c.rx.reassembler := rfl

theorem replaceBuffer_config : (c.replaceBuffer b n).config = c.config := rfl

theorem replaceBuffer_events : (c.replaceBuffer b n).events = c.events := rfl

theorem replaceBuffer_trace : (c.replaceBuffer b n).trace = c.trace := rfl

end Replace

@[simp] theorem skipRange_recvBuffer :
    (c.skipRange first last).rx.recvBuffer = c.rx.recvBuffer.dropRange first last := by
  rw [skipRange, replaceBuffer_recvBuffer]

@[simp] theorem skipRange_reassembler :
    (c.skipRange first last).rx.reassembler = c.rx.reassembler := by
  rw [skipRange, replaceBuffer_reassembler]

@[simp] theorem skipRange_config : (c.skipRange first last).config = c.config := by
  rw [skipRange, replaceBuffer_config]

@[simp] theorem skipRange_events : (c.skipRange first last).events = c.events := by
  rw [skipRange, replaceBuffer_events]

@[simp] theorem skipRange_trace : (c.skipRange first last).trace = c.trace := by
  rw [skipRange, replaceBuffer_trace]

end Place

/-! ## Delivery -/

section Delivery

variable (c : Connection) (packet : DataPacket) (rest : RecvBuffer)

theorem deliverPopped_recvBuffer : (c.deliverPopped packet rest).rx.recvBuffer = rest := by
  unfold deliverPopped deliverPacket
  dsimp only
  split <;> rfl

theorem deliverPopped_reassembler :
    (c.deliverPopped packet rest).rx.reassembler = (c.rx.reassembler.push packet).2 := by
  unfold deliverPopped deliverPacket
  dsimp only
  split <;> rfl

theorem deliverPopped_trace :
    (c.deliverPopped packet rest).trace = c.trace ++ [.popped packet] := by
  unfold deliverPopped deliverPacket
  dsimp only
  split <;> rfl

theorem deliverPopped_config : (c.deliverPopped packet rest).config = c.config := by
  unfold deliverPopped deliverPacket
  dsimp only
  split <;> rfl

theorem deliverPopped_messages :
    messages (c.deliverPopped packet rest).events
      = messages c.events ++ (c.rx.reassembler.push packet).1.toList := by
  unfold deliverPopped deliverPacket
  dsimp only
  generalize c.rx.reassembler.push packet = pushed
  cases pushed.1 <;> simp [messages, record, event, Event.message]

end Delivery

theorem deliverPopped_popped (c : Connection) (packet : DataPacket) (rest : RecvBuffer) :
    popped (c.deliverPopped packet rest).trace = popped c.trace ++ [packet] := by
  rw [deliverPopped_trace, popped, List.filterMap_append]
  rfl

/-! ## Where packets are handed over -/

/-- The states in which `inject_recovered` hands packets to `insert_data`, with the packets. -/
def injections (P : Primitives) (now : Instant) :
    Connection → List RecoveredPacket → List (Connection × DataPacket)
  | _, [] => []
  | c, rp :: rest =>
    match rebuilt c.link.peerSocketId rp with
    | none => injections P now c rest
    | some packet =>
      (c.countRecovered, packet) :: injections P now (c.countRecovered.insertData P packet now) rest

/-- The states in which `on_data` hands packets to `insert_data`, with the packets. -/
def insertions (P : Primitives) (c : Connection) (data : DataPacket) (now : Instant) :
    List (Connection × DataPacket) :=
  match c.rx.fecRecv with
  | none => [(c, data)]
  | some fec =>
    if data.messageNumber.value = 0 then
      let observed := fec.observeParity data.seq data.payload data.timestamp.asMicros
      injections P now (c.setFecRecv observed.1) observed.2
    else
      let observed := fec.observeData data.seq (fecData data)
      (c.setFecRecv observed.1, data)
        :: injections P now ((c.setFecRecv observed.1).insertData P data now) observed.2

/-! ## The rules -/

/-- What a property of received data has to survive; `ok` is what is known of the packets
handed over and `drop` of the ranges the sender gives up. -/
structure Receipt (P : Primitives) (ok : Connection → DataPacket → Prop)
    (drop : Connection → SeqNumber × SeqNumber → Prop) (Q : Connection → Prop) : Prop where
  quiet : ∀ c c', Quiet c c' → Q c → Q c'
  store : ∀ c data result, Q c → ok c data → c.availableRecvBuffer ≠ 0 →
    c.openPacket P data = some result → (c.rx.recvBuffer.insert result.1).1 = true →
    Q ((c.record result.2).setRecvBuffer (c.rx.recvBuffer.insert result.1).2)
  pop : ∀ c packet rest, Q c → c.rx.recvBuffer.pop = some (packet, rest) →
    Q (c.deliverPopped packet rest)
  skip : ∀ c first last, Q c → drop c (first, last) → Q (c.skipRange first last)
  connects : ∀ c negotiated now, c.link.state = .conclusion → Q c → Q (c.enterConnected negotiated now)

namespace Receipt

variable {P : Primitives} {ok : Connection → DataPacket → Prop}
  {drop : Connection → SeqNumber × SeqNumber → Prop} {Q : Connection → Prop}
  (h : Receipt P ok drop Q) {c : Connection}
include h

theorem deliverTsbpd (now : Instant) (hq : Q c) : Q (c.deliverTsbpd now) :=
  deliverTsbpd_rule (fun d o _ hq => h.quiet _ _ (.output d o) hq)
    (fun d packet rest hpop hq => h.pop d packet rest hq hpop) now hq

theorem flushLoop (fuel : ℕ) (hq : Q c) : Q (flushLoop fuel c) :=
  flushLoop_rule (fun d packet rest hpop hq => h.pop d packet rest hq hpop) fuel hq

theorem onDropreq (first last : SeqNumber) (now : Instant) (hq : Q c) (hd : drop c (first, last)) :
    Q (c.onDropreq first last now) :=
  h.deliverTsbpd now (h.skip c first last hq hd)

theorem afterInsert (data : DataPacket) (b : RecvBuffer) (now : Instant)
    (hq : Q (c.setRecvBuffer b)) : Q (c.afterInsert data b now) := by
  have h1 := h.quiet _ _ (recordArrival_quiet c data b now) hq
  have h2 := h.quiet _ _ (anchorTsbpd_quiet _ data.timestamp now) h1
  have h3 := h.deliverTsbpd now (h.quiet _ _ (sampleDrift_quiet _ data now) h2)
  exact h.quiet _ _ ((lightAckIfDue_clerical _ now).quiet.trans (reportGaps_quiet _ now)) h3

theorem insertData (data : DataPacket) (now : Instant) (hq : Q c) (hok : ok c data) :
    Q (c.insertData P data now) := by
  have hfull : Quiet c c.countDroppedFull := .ofRx c _ rfl rfl rfl rfl
  have hundec : Quiet c c.countUndecryptable := .ofRx c _ rfl rfl rfl rfl
  have hdup : ∀ c : Connection, Quiet c c.countDuplicate := fun c => .ofRx c _ rfl rfl rfl rfl
  unfold Connection.insertData
  by_cases havail : c.availableRecvBuffer = 0
  · rw [if_pos havail]
    exact h.quiet _ _ hfull hq
  · rw [if_neg havail]
    cases hopen : c.openPacket P data with
    | none => exact h.quiet _ _ hundec hq
    | some result =>
      have hb : (c.record result.2).rx.recvBuffer = c.rx.recvBuffer := rfl
      dsimp only
      rw [hb]
      have hstore := h.store c data result hq hok havail hopen
      generalize c.rx.recvBuffer.insert result.1 = inserted at hstore ⊢
      split
      · next hnew => exact h.afterInsert _ _ now (hstore hnew)
      · exact h.quiet _ _ ((Quiet.record c result.2 (openPacket_quiet hopen)).trans (hdup _)) hq

theorem injectAll (recovered : List RecoveredPacket) (now : Instant) (hq : Q c)
    (hok : ∀ x ∈ injections P now c recovered, ok x.1 x.2) : Q (c.injectAll P recovered now) := by
  unfold Connection.injectAll
  induction recovered generalizing c with
  | nil => exact hq
  | cons rp rest ih =>
    rw [List.foldl_cons]
    unfold injectRecovered
    cases hr : rebuilt c.link.peerSocketId rp with
    | none =>
      simp only [injections, hr] at hok
      exact ih hq hok
    | some packet =>
      simp only [injections, hr] at hok
      have hcount : Quiet c c.countRecovered := .ofRx c _ rfl rfl rfl rfl
      have h1 := h.quiet _ _ hcount hq
      exact ih (h.insertData packet now h1 (hok _ List.mem_cons_self))
        (fun x hx => hok x (List.mem_cons_of_mem _ hx))

theorem onData (data : DataPacket) (now : Instant) (hq : Q c)
    (hok : ∀ x ∈ insertions P c data now, ok x.1 x.2) : Q (c.onData P data now) := by
  have hfec := fun hsome fec => h.quiet _ _ (setFecRecv_clerical hsome fec).quiet hq
  unfold Connection.onData
  unfold insertions at hok
  cases hr : c.rx.fecRecv with
  | none =>
    simp only [hr] at hok
    exact h.insertData data now hq (hok (c, data) List.mem_cons_self)
  | some fec =>
    simp only [hr] at hok
    dsimp only
    split
    · next hm =>
      rw [if_pos hm] at hok
      exact h.injectAll _ now (hfec (by rw [hr]; rfl) _) hok
    · next hm =>
      rw [if_neg hm] at hok
      exact h.injectAll _ now (h.insertData data now (hfec (by rw [hr]; rfl) _) (hok (_, data) List.mem_cons_self))
        (fun x hx => hok x (List.mem_cons_of_mem _ hx))

end Receipt

end Connection

end Srtrust
