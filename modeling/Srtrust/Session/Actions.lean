import Srtrust.Session.Provenance

/-! # The elementary actions of a connection

Every call is a sequence of elementary actions: a packet stored, popped or skipped, one originated, sent again
or shed, a report, a change of the link. `Act` lists them with what the code has checked when it takes them; a
property that every action keeps is kept by every call. -/
namespace Srtrust
open BigEndian
set_option autoImplicit false

/-- The packet a call brings. -/
def Call.packet : Call → Option Packet
  | .feedRecvBuf datagram => (Packet.decode datagram).toOption
  | _ => none

theorem Call.packet_eq_some {call : Call} {packet : Packet} :
    call.packet = some packet ↔ ∃ d, call = .feedRecvBuf d ∧ Packet.decode d = .ok packet := by
  unfold Call.packet
  constructor
  · intro h
    split at h
    · next d =>
      refine ⟨d, rfl, ?_⟩
      cases hdec : Packet.decode d with
      | error e =>
        rw [hdec] at h
        cases h
      | ok p =>
        rw [hdec] at h
        rw [Option.some.inj h]
    · cases h
  · rintro ⟨d, rfl, hdec⟩
    dsimp only
    rw [hdec]
    rfl

/-- Neither data nor the start of it, nor a request for a key. -/
def Event.IsEnd : Event → Prop
  | .closed => True
  | .failed _ => True
  | _ => False

/-- What a receiver keeps while it books an arrival: its buffer and reports, and the counters of data and
reports. -/
def Receiver.reports (rx : Receiver) :=
  ((rx.recvBuffer, rx.reassembler, rx.fecRecv.isSome), (rx.nextAckNumber, rx.pendingAcks, rx.lastAckedPoint,
    rx.lastAckedAvail, rx.reorderTolerance), rx.stats.packetsReceived, rx.stats.bytesReceived, rx.stats.packetsDropped,
    rx.stats.acksSent, rx.stats.naksSent)

namespace Connection

/-- One elementary action; `input` is the packet being processed, if any. -/
inductive Act (P : Primitives) (input : Option Packet) : Connection → Connection → Prop
  -- queues and clocks
  | timers (c : Connection) (os : List Output) (h : ∀ o ∈ os, ∀ d, o ≠ .sendDatagram d) :
      Act P input c { c with outputs := c.outputs ++ os }
  | drain (c : Connection) : Act P input c { c with outputs := [] }
  | poll (c : Connection) : Act P input c { c with events := c.events.drop 1 }
  | hear (c : Connection) (now : Instant) : Act P input c { c with lastRecvAny := now }
  | panic (c : Connection) : Act P input c c.panicked
  -- the link
  | relink (c : Connection) (link : Link) (hsaid : link.lastHandshake = c.link.lastHandshake)
      (hstate : link.state = c.link.state ∨ link.state = .failed
        ∨ c.link.state = .induction ∧ link.state = .conclusion) : Act P input c { c with link := link }
  | introduce (c : Connection) (dest : SocketId) (hs : Handshake) (now : Instant) :
      Act P input c (c.emitHandshake dest hs now)
  | again (c : Connection) (bytes : Bytes) (h : c.link.lastHandshake = some bytes) :
      Act P input c (c.output (.sendDatagram bytes))
  | connect (c : Connection) (ctrl : ControlPacket) (hs : Handshake) (now : Instant)
      (hinput : input = some (.control ctrl)) (hbody : ctrl.body = .handshake hs)
      (htype : hs.handshakeType = .conclusion) (hstate : c.link.state = .conclusion) :
      Act P input c (c.enterConnected (negotiate c.config.latency hs) now)
  | finish (c : Connection) (e : Event) (h : e.IsEnd) : Act P input c (c.event e)
  | sayShutdown (c : Connection) (now : Instant) : Act P input c (c.sayShutdown now)
  | signal (c c' : Connection) (h : KeyStep c c') : Act P input c c'
  -- the sender
  | originate (c c' : Connection) (fragment : Fragment) (now : Instant) (stored : DataPacket) (calls : List Trace)
      (h : Originates P fragment now stored calls c c') : Act P input c c'
  | reschedule (c : Connection) (sendQueue : List Fragment) (nextSend : Option Instant) (nextMessage : UInt32)
      (liveCc : Option LiveCc) (expCount : ℕ) :
      Act P input c { c with tx := { c.tx with sendQueue, nextSend, nextMessage, liveCc, expCount } }
  | release (c : Connection) (ctrl : ControlPacket) (ack : Ack) (hinput : input = some (.control ctrl))
      (hbody : ctrl.body = .ack ack) (hstate : c.link.state = .connected) : Act P input c (c.releaseAcked ack)
  | countNak (c : Connection) : Act P input c c.countNak
  | shed (c : Connection) (first last : Sent) (now : Instant) (hf : (c.shed now).head? = some first)
      (hl : (c.shed now).getLast? = some last) :
      Act P input c ((c.dropShed now).emitControl
        (.dropReq (UInt32.ofNat last.packet.messageNumber.value) first.packet.seq last.packet.seq) now)
  | resend (c : Connection) (packet : DataPacket) (seq : SeqNumber) (now : Instant)
      (h : c.tx.sendBuffer.get seq = some packet) : Act P input c (c.resend packet seq now)
  -- the receiver
  | book (c : Connection) (rx : Receiver) (h : rx.reports = c.rx.reports) : Act P input c { c with rx := rx }
  | opened (c : Connection) (calls : List Trace) (h : ∀ t ∈ calls, ∃ call, t = .decrypted call) :
      Act P input c (c.record calls)
  | store (c : Connection) (heard data : DataPacket) (now : Instant) (hinput : input = some (.data heard))
      (hdata : c.rx.fecRecv = none → ∃ calls, c.openPacket P heard = some (data, calls))
      (hstate : c.link.state = .connected) (havail : c.availableRecvBuffer ≠ 0)
      (hnew : (c.rx.recvBuffer.insert data).1 = true) :
      Act P input c (c.recordArrival data (c.rx.recvBuffer.insert data).2 now)
  | pop (c : Connection) (packet : DataPacket) (rest : RecvBuffer)
      (h : c.rx.recvBuffer.pop = some (packet, rest)) : Act P input c (c.deliverPopped packet rest)
  | skip (c : Connection) (ctrl : ControlPacket) (message : UInt32) (first last : SeqNumber)
      (hinput : input = some (.control ctrl)) (hbody : ctrl.body = .dropReq message first last)
      (hstate : c.link.state = .connected) : Act P input c (c.skipRange first last)
  | lightAck (c : Connection) (now : Instant) (hstate : c.link.state = .connected) : Act P input c (c.sendLightAck now)
  | fullAck (c : Connection) (now : Instant) (hstate : c.link.state = .connected) (hnew : c.ackRedundant = false) :
      Act P input c (c.sendFullAck now)
  | nak (c : Connection) (now : Instant) (hstate : c.link.state = .connected) :
      Act P input c (c.sendNak (c.rx.recvBuffer.missingAged c.rx.reorderTolerance) now)
  | measure (c : Connection) (number : UInt32) (now : Instant) : Act P input c (c.onAckack number now)

/-- An FEC decoder stays in place. -/
theorem decoder_receipt (P : Primitives) :
    Receipt P (fun _ _ => True) (fun _ _ => True) (fun c => c.rx.fecRecv.isSome = true) where
  quiet c c' h hq := h.fec.trans hq
  store c data result hq _ _ _ _ := by
    have hkept : ∀ (c : Connection) b, (c.setRecvBuffer b).rx.fecRecv = c.rx.fecRecv := fun _ _ => rfl
    rw [hkept]
    exact hq
  pop c packet rest hq _ := by
    unfold deliverPopped deliverPacket
    dsimp only
    split <;> exact hq
  skip c first last hq _ := by
    have hkept : ∀ (c : Connection) b n, (c.replaceBuffer b n).rx.fecRecv = c.rx.fecRecv := fun _ _ _ => rfl
    rw [skipRange, hkept]
    exact hq
  connects c negotiated now _ hq := hq

/-- Every action keeps the property. -/
def Act.Keeps (P : Primitives) (input : Option Packet) (Q : Connection → Prop) : Prop :=
  ∀ c c', Act P input c c' → Q c → Q c'

namespace Act.Keeps

variable {P : Primitives} {input : Option Packet} {Q : Connection → Prop} (h : Act.Keeps P input Q) {c : Connection}
include h

/-! ## Teardown -/

theorem output (o : Output) (ho : ∀ d, o ≠ .sendDatagram d) (hq : Q c) : Q (c.output o) :=
  h _ _ (.timers c [o] (by simpa using ho)) hq

theorem fail (hq : Q c) : Q c.fail := h _ _ (.relink c _ rfl (.inr (.inl rfl))) hq

theorem clearArqTimers (hq : Q c) : Q c.clearArqTimers := h _ _ (.timers c _ (by simp)) hq

theorem finalizeShutdown (now : Instant) (hq : Q c) : Q (c.finalizeShutdown now) := by
  have hsaid := h _ _ (.sayShutdown c now) hq
  have hcleared := h.output (.clearTimer .linger) (by simp) (h.clearArqTimers hsaid)
  have hclosing := h _ _ (.relink _ { ((c.sayShutdown now).clearArqTimers.output (.clearTimer .linger)).link with
    closing := false } rfl (.inl rfl)) hcleared
  exact h _ _ (.finish _ .closed trivial) (h.fail hclosing)

theorem finishCloseIfDrained (now : Instant) (hq : Q c) : Q (c.finishCloseIfDrained now) := by
  unfold Connection.finishCloseIfDrained
  split
  · exact h.finalizeShutdown now hq
  · exact hq

theorem close (now : Instant) (hq : Q c) : Q (c.close now) := by
  unfold Connection.close
  split
  · exact hq
  · split
    · exact h _ _ (.finish _ .closed trivial) (h.fail hq)
    · split
      · exact h.finalizeShutdown now hq
      · exact h.output _ (by simp) (h _ _ (.relink c { c.link with closing := true } rfl (.inl rfl)) hq)

/-! ## Sending -/

theorem sendData (fragment : Fragment) (now : Instant) (hq : Q c) : Q (c.sendData P fragment now) := by
  rcases sendData_cases P c fragment now with he | ⟨stored, calls, ho⟩
  · rw [he]
    exact h _ _ (.panic c) hq
  · exact h _ _ (.originate _ _ fragment now stored calls ho) hq

theorem sendAll (fragments : List Fragment) (now : Instant) (hq : Q c) :
    Q (fragments.foldl (fun c fragment => c.sendData P fragment now) c) := by
  induction fragments generalizing c with
  | nil => exact hq
  | cons fragment rest ih => exact ih (h.sendData fragment now hq)

theorem schedulePacing (now : Instant) (hq : Q c) : Q (c.schedulePacing now) := by
  unfold Connection.schedulePacing
  split
  · exact h.finishCloseIfDrained now (h.output _ (by simp) hq)
  · exact h.output _ (by simp) hq

theorem pace (now : Instant) (hq : Q c) : Q (c.pace P now) := by
  unfold Connection.pace
  split
  · exact hq
  · refine h.schedulePacing now (release_rule P _ now ?_ ?_ hq)
    · intro d t hd
      exact h _ _ (.reschedule d d.tx.sendQueue t d.tx.nextMessage d.tx.liveCc d.tx.expCount) hd
    · intro d fragment rest hd _
      exact h.sendData fragment now
        (h _ _ (.reschedule d rest d.tx.nextSend d.tx.nextMessage d.tx.liveCc d.tx.expCount) hd)

theorem send (payload : Bytes) (now : Instant) (hq : Q c) : Q (c.perform P (.send payload) now) := by
  rcases perform_send_cases P c payload now with he | ⟨-, -, he⟩
  · rw [he]
    exact hq
  · have hcount : Q c.countMessage :=
      h _ _ (.reschedule c c.tx.sendQueue c.tx.nextSend (followingMessage c.tx.nextMessage) c.tx.liveCc
        c.tx.expCount) hq
    rw [he]
    unfold submit
    dsimp only
    split
    · exact h.sendAll _ now hcount
    · exact h.pace now (h _ _ (.reschedule c.countMessage _ c.tx.nextSend (followingMessage c.tx.nextMessage)
        c.tx.liveCc c.tx.expCount) hcount)

/-! ## Feedback -/

theorem dropTooLate (now : Instant) (hq : Q c) : Q (c.dropTooLate now) := by
  unfold Connection.dropTooLate
  split
  · next first last hf hl =>
    have hshed := h _ _ (.shed c first last now hf hl) hq
    unfold clearExpIfEmpty
    split
    · exact h.output _ (by simp) hshed
    · exact hshed
  · exact hq

theorem retransmitRange (start stop : SeqNumber) (now : Instant) (hq : Q c) :
    Q (c.retransmitRange start stop now) := by
  have hloop : ∀ (gate : Duration) (seqs : List SeqNumber) (d : Connection), Q d →
      Q (seqs.foldl (fun d seq => d.retransmitOne gate start stop seq now) d) := by
    intro gate seqs
    induction seqs with
    | nil => exact fun _ hd => hd
    | cons seq rest ih =>
      intro d hd
      have hone : Q (d.retransmitOne gate start stop seq now) := by
        unfold retransmitOne
        split
        · split
          · exact hd
          · next packet hget => exact h _ _ (.resend d packet seq now hget) hd
        · exact hd
      exact ih _ hone
  unfold Connection.retransmitRange
  split
  · exact hloop _ _ _ hq
  · exact hq

theorem onNak (loss : List LossRange) (now : Instant) (hq : Q c) : Q (c.onNak loss now) := by
  have hloop : ∀ (loss : List LossRange) (d : Connection), Q d →
      Q (loss.foldl (fun c range => c.retransmitRange range.start range.stop now) d) := by
    intro loss
    induction loss with
    | nil => exact fun _ hd => hd
    | cons range rest ih => exact fun d hd => ih _ (h.retransmitRange _ _ now hd)
  exact hloop loss _ (h.dropTooLate now (h _ _ (.countNak c) hq))

theorem armExp (hq : Q c) : Q c.armExp := h.output _ (by simp) hq

theorem onExpTimer (now : Instant) (hq : Q c) : Q (c.onExpTimer now) := by
  unfold Connection.onExpTimer
  split
  · exact hq
  · have hdropped := h.dropTooLate now hq
    dsimp only
    split
    · exact hdropped
    · have hresent : Q ((c.dropTooLate now).retransmitAll now) := by
        unfold retransmitAll
        split
        · exact h.retransmitRange _ _ now hdropped
        · exact hdropped
      generalize (c.dropTooLate now).retransmitAll now = d at hresent
      exact h.armExp (h _ _ (.reschedule d d.tx.sendQueue d.tx.nextSend d.tx.nextMessage d.tx.liveCc
        (min (d.tx.expCount + 1) maxExpCount)) hresent)

theorem onAck (ctrl : ControlPacket) (ack : Ack) (hinput : input = some (.control ctrl)) (hbody : ctrl.body = .ack ack)
    (hs : c.link.state = .connected) (now : Instant) (hq : Q c) : Q (c.onAck ack now) := by
  have hdropped := h.dropTooLate now (h _ _ (.release c ctrl ack hinput hbody hs) hq)
  unfold Connection.onAck
  dsimp only
  generalize (c.releaseAcked ack).dropTooLate now = d at hdropped ⊢
  have hreset : Q d.resetBackoff := h _ _ (.reschedule d d.tx.sendQueue d.tx.nextSend d.tx.nextMessage
    (d.tx.liveCc.map LiveCc.onAck) 1) hdropped
  have harmed : Q d.resetBackoff.rearmExp := by
    unfold rearmExp
    split
    · exact h.output _ (by simp) hreset
    · exact h.armExp hreset
  exact h _ _ (.signal _ _ (answerAck_keyStep _ ack now)) (h.finishCloseIfDrained now harmed)

/-! ## Receiving -/

theorem deliverTsbpd (now : Instant) (hq : Q c) : Q (c.deliverTsbpd now) := by
  refine deliverTsbpd_rule (fun d o ho hd => h.output o ?_ hd)
    (fun d packet rest hpop hd => h _ _ (.pop d packet rest hpop) hd) now hq
  rintro datagram rfl
  exact ho

theorem onShutdown (hq : Q c) : Q c.onShutdown :=
  h _ _ (.finish _ .closed trivial) (h.clearArqTimers (h.fail
    (flushLoop_rule (fun d packet rest hpop hd => h _ _ (.pop d packet rest hpop) hd) _ hq)))

theorem book {rx : Receiver} (hrx : rx.reports = c.rx.reports) (hq : Q c) : Q { c with rx := rx } :=
  h _ _ (.book c rx hrx) hq

theorem reportGaps (now : Instant) (hs : c.link.state = .connected) (hq : Q c) : Q (c.reportGaps now) := by
  have hset : ∀ (d : Connection) missing, Q d → Q (d.setReportedLoss missing) := fun d _ hd => h.book rfl hd
  unfold Connection.reportGaps
  dsimp only
  split
  · split
    · exact hset _ _ (h _ _ (.nak c now hs) hq)
    · exact hq
  · exact hset _ _ hq

theorem lightAckIfDue (now : Instant) (hs : c.link.state = .connected) (hq : Q c) : Q (c.lightAckIfDue now) := by
  have hcount : Q c.countTowardsAck := h.book rfl hq
  unfold Connection.lightAckIfDue
  split
  · exact h _ _ (.lightAck _ now hs) hcount
  · exact hcount

theorem afterInsert (heard data : DataPacket) (now : Instant) (hinput : input = some (.data heard))
    (hdata : c.rx.fecRecv = none → ∃ calls, c.openPacket P heard = some (data, calls))
    (hs : c.link.state = .connected) (havail : c.availableRecvBuffer ≠ 0)
    (hnew : (c.rx.recvBuffer.insert data).1 = true) (hq : Q c) :
    Q (c.afterInsert data (c.rx.recvBuffer.insert data).2 now) := by
  have hstored := h _ _ (.store c heard data now hinput hdata hs havail hnew) hq
  have hlink : ∀ (c : Connection) b, (c.recordArrival data b now).link = c.link := fun _ _ => rfl
  have hs₁ := (congrArg Link.state (hlink c (c.rx.recvBuffer.insert data).2)).trans hs
  unfold Connection.afterInsert
  dsimp only
  generalize c.recordArrival data (c.rx.recvBuffer.insert data).2 now = d at hstored hs₁ ⊢
  have hanchored : Q (d.anchorTsbpd data.timestamp now)
      ∧ (d.anchorTsbpd data.timestamp now).link.state = .connected := by
    unfold anchorTsbpd
    split <;> exact ⟨h.book rfl hstored, hs₁⟩
  obtain ⟨hanchored, hs₂⟩ := hanchored
  generalize d.anchorTsbpd data.timestamp now = e at hanchored hs₂ ⊢
  have hsampled : Q (e.sampleDrift data now) ∧ (e.sampleDrift data now).link.state = .connected := by
    unfold sampleDrift
    split
    · exact ⟨h.book rfl hanchored, hs₂⟩
    · exact ⟨hanchored, hs₂⟩
  obtain ⟨hsampled, hs₃⟩ := hsampled
  generalize e.sampleDrift data now = f at hsampled hs₃ ⊢
  have hs₄ := (congrArg Link.state (deliverTsbpd_rxStep f now).link).trans hs₃
  have hs₅ := (congrArg Link.state (lightAckIfDue_rxStep (f.deliverTsbpd now) now).link).trans hs₄
  exact h.reportGaps now hs₅ (h.lightAckIfDue now hs₄ (h.deliverTsbpd now hsampled))

theorem insertData (heard data : DataPacket) (now : Instant) (hinput : input = some (.data heard))
    (hdata : c.rx.fecRecv = none → data = heard) (hs : c.link.state = .connected) (hq : Q c) :
    Q (c.insertData P data now) := by
  unfold Connection.insertData
  by_cases havail : c.availableRecvBuffer = 0
  · rw [if_pos havail]
    exact h.book rfl hq
  · rw [if_neg havail]
    cases hopen : c.openPacket P data with
    | none => exact h.book rfl hq
    | some result =>
      have hopened := h _ _ (.opened c result.2 (openPacket_spec hopen).2) hq
      have hsame : (c.record result.2).openPacket P data = c.openPacket P data := rfl
      have hfound : (c.record result.2).rx.fecRecv = none → ∃ calls, (c.record result.2).openPacket P heard
          = some (result.1, calls) := by
        intro hnone
        rw [← hdata hnone, hsame, hopen]
        exact ⟨result.2, rfl⟩
      have havail' : (c.record result.2).availableRecvBuffer ≠ 0 := havail
      have hs' : (c.record result.2).link.state = .connected := hs
      dsimp only
      generalize c.record result.2 = d at hopened hfound havail' hs' ⊢
      split
      · next hnew => exact h.afterInsert heard result.1 now hinput hfound hs' havail' hnew hopened
      · exact h.book rfl hopened

theorem injectAll (heard : DataPacket) (hinput : input = some (.data heard)) (recovered : List RecoveredPacket)
    (now : Instant) (hfec : c.rx.fecRecv.isSome) (hs : c.link.state = .connected) (hq : Q c) :
    Q (c.injectAll P recovered now) := by
  unfold Connection.injectAll
  induction recovered generalizing c with
  | nil => exact hq
  | cons rp rest ih =>
    rw [List.foldl_cons]
    unfold injectRecovered
    split
    · exact ih hfec hs hq
    · next packet _ =>
      have hcount : Q c.countRecovered := h.book rfl hq
      have hfec' : c.countRecovered.rx.fecRecv.isSome := hfec
      have hs' := (congrArg Link.state (insertData_rxStep P c.countRecovered packet now).link).trans hs
      refine ih ((decoder_receipt P).insertData packet now hfec' trivial) hs'
        (h.insertData heard packet now hinput (fun hnone => ?_) hs hcount)
      rw [hnone] at hfec'
      cases hfec'

theorem onData (data : DataPacket) (now : Instant) (hinput : input = some (.data data))
    (hs : c.link.state = .connected) (hq : Q c) : Q (c.onData P data now) := by
  unfold Connection.onData
  split
  · exact h.insertData data data now hinput (fun _ => rfl) hs hq
  · next fec hfec =>
    have hset : ∀ fec, Q (c.setFecRecv fec) := by
      intro fec
      refine h.book ?_ hq
      simp only [Receiver.reports, hfec, Option.isSome_some]
    dsimp only
    split
    · exact h.injectAll data hinput _ now rfl hs (hset _)
    · have hsome : ∀ fec, (c.setFecRecv fec).rx.fecRecv.isSome := fun _ => rfl
      have hs' : ∀ fec, ((c.setFecRecv fec).insertData P data now).link.state = .connected := fun fec =>
        (congrArg Link.state (insertData_rxStep P (c.setFecRecv fec) data now).link).trans hs
      exact h.injectAll data hinput _ now ((decoder_receipt P).insertData data now (hsome _) trivial) (hs' _)
        (h.insertData data data now hinput (fun _ => rfl) hs (hset _))

theorem onControl (ctrl : ControlPacket) (now : Instant) (hinput : input = some (.control ctrl))
    (hs : c.link.state = .connected) (hq : Q c) : Q (c.onConnectedPacket P (.control ctrl) now) :=
  onControl_cases P c ctrl now (fun ack hbody => h.onAck ctrl ack hinput hbody hs now hq)
    (fun number => h _ _ (.measure c number now) hq) (fun loss _ => h.onNak loss now hq) (h.onShutdown hq)
    (fun message first last hbody =>
      h.deliverTsbpd now (h _ _ (.skip c ctrl message first last hinput hbody hs) hq))
    (fun cif => h _ _ (.signal _ _ (onKmReq_keyStep P c cif now)) hq)
    (fun cif => h _ _ (.signal _ _ (onKmRsp_keyStep c cif)) hq) (fun bytes hb => h _ _ (.again c bytes hb) hq) hq

/-! ## Handshake and timers -/

theorem onHandshakePacket (packet : Packet) (now : Instant) (hinput : input = some packet)
    (hs : c.link.state = .induction ∨ c.link.state = .conclusion) (hq : Q c) :
    Q (c.onHandshakePacket packet now) := by
  unfold Connection.onHandshakePacket
  split
  · next hs' =>
    split
    · exact h _ _ (.finish _ _ trivial) (h.output _ (by simp) (h.fail hq))
    · split
      · next hinduction =>
        unfold onInductionResponse
        split
        · exact hq
        · exact h _ _ (.introduce _ _ _ now) (h _ _ (.relink c _ rfl (.inr (.inr ⟨hinduction, rfl⟩))) hq)
      · next hnot =>
        unfold onConclusionResponse
        split
        · exact hq
        · next hconclusion =>
          rw [not_or, not_not] at hconclusion
          exact h _ _ (.connect (c.output (.clearTimer .handshake)) _ hs' now hinput rfl hconclusion.1
            (hs.resolve_left hnot)) (h.output _ (by simp) hq)
  · exact hq

theorem onHandshakeTimer (now : Instant) (hq : Q c) : Q (c.onHandshakeTimer now) := by
  unfold Connection.onHandshakeTimer
  split
  · exact hq
  · split
    · exact h _ _ (.finish _ _ trivial) (h.output _ (by simp) (h.fail hq))
    · split
      · next bytes hb => exact h.output _ (by simp) (h _ _ (.again c bytes hb) hq)
      · exact hq

theorem onAckTimer (now : Instant) (hq : Q c) : Q (c.onAckTimer now) := by
  unfold Connection.onAckTimer
  split
  · exact hq
  · next hs =>
    have harmed := h.output (c := c) (.setTimer .ack ackInterval) (by simp) hq
    dsimp only
    split
    · exact harmed
    · next hnew => exact h _ _ (.fullAck _ now (not_not.mp hs) (by simpa using hnew)) harmed

theorem onNakTimer (now : Instant) (hq : Q c) : Q (c.onNakTimer now) := by
  unfold Connection.onNakTimer
  split
  · exact hq
  · next hs =>
    have harmed := h.output (c := c) (.setTimer .nak c.nakInterval) (by simp) hq
    dsimp only
    split
    · exact harmed
    · split
      · exact harmed
      · exact h _ _ (.nak _ now (not_not.mp hs)) harmed

theorem onKeepaliveTimer (now : Instant) (hq : Q c) : Q (c.onKeepaliveTimer now) := by
  unfold Connection.onKeepaliveTimer
  split
  · exact hq
  · have hresent := h _ _ (.signal _ _ (resendPendingKm_keyStep c now)) hq
    dsimp only
    refine h.output _ (by simp) ?_
    split
    · exact h _ _ (.signal _ _ (.emitControl _ _ now fun _ _ => trivial)) hresent
    · exact hresent

theorem onPeerIdleTimer (now : Instant) (hq : Q c) : Q (c.onPeerIdleTimer now) := by
  unfold Connection.onPeerIdleTimer
  split
  · exact hq
  · dsimp only
    split
    · exact h _ _ (.finish _ _ trivial) (h.clearArqTimers (h.fail hq))
    · exact h.output _ (by simp) hq

theorem onLingerTimer (now : Instant) (hq : Q c) : Q (c.onLingerTimer now) := by
  unfold Connection.onLingerTimer
  split
  · exact h.finalizeShutdown now hq
  · exact hq

theorem handleTimer (id : TimerId) (now : Instant) (hq : Q c) : Q (c.handleTimer P id now) := by
  cases id with
  | handshake => exact h.onHandshakeTimer now hq
  | ack => exact h.onAckTimer now hq
  | nak => exact h.onNakTimer now hq
  | exp => exact h.onExpTimer now hq
  | tsbpd => exact h.deliverTsbpd now hq
  | sndPacing => exact h.pace now hq
  | linger => exact h.onLingerTimer now hq
  | keepalive => exact h.onKeepaliveTimer now hq
  | peerIdle => exact h.onPeerIdleTimer now hq

end Act.Keeps

/-- What every action about the packet a call brings keeps, the call keeps. -/
theorem Act.Keeps.perform {P : Primitives} {call : Call} {Q : Connection → Prop} (h : Act.Keeps P call.packet Q)
    {c : Connection} (now : Instant) (hq : Q c) :
    Q (c.perform P call now) := by
  cases call with
  | feedRecvBuf datagram =>
    change Q (c.feedRecvBuf P datagram now)
    unfold feedRecvBuf
    split
    · exact hq
    · next packet hdecode =>
      have hinput : (Call.feedRecvBuf datagram).packet = some packet := Call.packet_eq_some.mpr ⟨datagram, rfl, hdecode⟩
      split
      · next hs => exact h.onHandshakePacket packet now hinput (.inl hs) hq
      · next hs => exact h.onHandshakePacket packet now hinput (.inr hs) hq
      · next hs =>
        have hheard := h _ _ (.hear c now) hq
        cases packet with
        | data data => exact h.onData data now hinput hs hheard
        | control ctrl => exact h.onControl ctrl now hinput hs hheard
      · exact hq
  | handleTimer id => exact h.handleTimer id now hq
  | send payload => exact h.send payload now hq
  | close => exact h.close now hq
  | provideRekey sek => exact h _ _ (.signal _ _ (provideRekey_keyStep P c sek now)) hq
  | pollEvent => exact h _ _ (.poll c) hq

end Connection

end Srtrust
