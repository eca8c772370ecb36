import Srtrust.Connection.Fragmentation
import Srtrust.Session.Teardown

/-! # Received data over whole runs

The rules of `Receipt` carried through every call of the embedder and along every run. What is
known of the packets handed over may be assumed of each call; nothing is assumed of the order
in which calls come. -/
namespace Srtrust
open BigEndian
set_option autoImplicit false

namespace Connection

/-! ## Calls that concern no data -/

theorem onAck_clerical (c : Connection) (ack : Ack) (now : Instant) : Clerical c (c.onAck ack now) := by
  rw [onAck_eq]
  exact (settleAck_feedback c ack now).txStep.clerical.trans
    ((finishCloseIfDrained_linkStep _ now).trans (answerAck_linkStep _ ack now)).clerical

theorem pace_clerical (P : Primitives) (c : Connection) (now : Instant) : Clerical c (c.pace P now) := by
  rcases pace_cases P c now with h | ⟨d, hd, h⟩
  · rw [h]
    exact .refl c
  · rw [h]
    exact hd.clerical.trans (schedulePacing_linkStep d now).clerical

theorem send_clerical (P : Primitives) (c : Connection) (payload : Bytes) (now : Instant) :
    Clerical c (c.perform P (.send payload) now) := by
  rcases perform_send_cases P c payload now with h | ⟨-, -, h⟩
  · rw [h]
    exact .refl c
  · rw [h]
    rcases submit_cases P c payload now with hd | ⟨d, hd, h⟩
    · exact hd.clerical
    · rw [h]
      exact hd.clerical.trans (schedulePacing_linkStep d now).clerical

theorem onKeepaliveTimer_clerical (c : Connection) (now : Instant) :
    Clerical c (c.onKeepaliveTimer now) := by
  rcases onKeepaliveTimer_eq c now with h | h
  · rw [h]
    exact .refl c
  · exact (resendPendingKm_keyStep c now).clerical.trans h.clerical

theorem enterConnected_data (c : Connection) (negotiated : Negotiated) (now : Instant) :
    (c.enterConnected negotiated now).config = c.config
      ∧ (c.enterConnected negotiated now).rx.recvBuffer = RecvBuffer.new negotiated.peerInitialSeq
      ∧ (c.enterConnected negotiated now).rx.reassembler = c.rx.reassembler
      ∧ (c.enterConnected negotiated now).rx.stats = c.rx.stats
      ∧ (c.enterConnected negotiated now).events = c.events ++ [.connected negotiated]
      ∧ (c.enterConnected negotiated now).trace = c.trace := ⟨rfl, rfl, rfl, rfl, rfl, rfl⟩

theorem messages_connected (events : List Event) (negotiated : Negotiated) :
    messages (events ++ [.connected negotiated]) = messages events := by
  simp [messages, Event.message]

/-! ## Calls -/

/-- The packets a call hands to `insert_data`, with the states they are handed over in. -/
def handed (P : Primitives) (c : Connection) (call : Call) (now : Instant) :
    List (Connection × DataPacket) :=
  match call with
  | .feedRecvBuf datagram =>
    match c.link.state, Packet.decode datagram with
    | .connected, .ok (.data data) => insertions P { c with lastRecvAny := now } data now
    | _, _ => []
  | _ => []

/-- The range a control packet asks to skip. -/
def dropreq? (ctrl : ControlPacket) : Option (SeqNumber × SeqNumber) :=
  match ctrl.body with
  | .dropReq _ first last => some (first, last)
  | _ => none

/-- The range a call asks to skip, with the state it is skipped in. -/
def givenUp (c : Connection) (call : Call) (now : Instant) :
    Option (Connection × SeqNumber × SeqNumber) :=
  match call with
  | .feedRecvBuf datagram =>
    match c.link.state, Packet.decode datagram with
    | .connected, .ok (.control ctrl) =>
      (dropreq? ctrl).map fun range => ({ c with lastRecvAny := now }, range)
    | _, _ => none
  | _ => none

namespace Receipt

variable {P : Primitives} {ok : Connection → DataPacket → Prop}
  {drop : Connection → SeqNumber × SeqNumber → Prop} {Q : Connection → Prop}
  (h : Receipt P ok drop Q) {c : Connection}
include h

theorem onShutdown (hq : Q c) : Q c.onShutdown :=
  h.quiet _ _ (((fail_linkStep _).trans (clearArqTimers_linkStep _)).trans (.event _ _ id)).quiet
    (h.flushLoop _ hq)

theorem onControl (ctrl : ControlPacket) (now : Instant) (hq : Q c)
    (hdrop : ∀ range ∈ dropreq? ctrl, drop c range) : Q (c.onConnectedPacket P (.control ctrl) now) := by
  have quiet {c'} (hc : Quiet c c') : Q c' := h.quiet c c' hc hq
  exact onControl_cases P c ctrl now (fun ack _ => quiet (onAck_clerical c ack now).quiet)
    (fun number => quiet (onAckack_quiet c number now))
    (fun loss _ => quiet (onNak_feedback c loss now).txStep.quiet) (h.onShutdown hq)
    (fun message first last hbody =>
      h.onDropreq first last now hq (hdrop (first, last) (by simp [dropreq?, hbody])))
    (fun cif => quiet (onKmReq_keyStep P c cif now).quiet)
    (fun cif => quiet (onKmRsp_keyStep c cif).quiet) (fun _ _ => quiet (.output c _)) hq

theorem onHandshakePacket (packet : Packet) (now : Instant)
    (hs : c.link.state = .induction ∨ c.link.state = .conclusion) (hq : Q c) :
    Q (c.onHandshakePacket packet now) := by
  rcases onHandshakePacket_linkStep c packet now hs with hlink | ⟨negotiated, hconc, he⟩
  · exact h.quiet _ _ hlink.quiet hq
  · rw [he]
    exact h.connects _ negotiated now hconc (h.quiet _ _ (.output c _) hq)

theorem feedRecvBuf (datagram : Bytes) (now : Instant) (hq : Q c)
    (hok : ∀ x ∈ c.handed P (.feedRecvBuf datagram) now, ok x.1 x.2)
    (hdrop : ∀ x ∈ c.givenUp (.feedRecvBuf datagram) now, drop x.1 x.2) :
    Q (c.feedRecvBuf P datagram now) := by
  have hrecv : Quiet c { c with lastRecvAny := now } := .same id rfl rfl rfl rfl
  unfold Connection.feedRecvBuf
  unfold handed at hok
  unfold givenUp at hdrop
  dsimp only at hok hdrop
  cases hd : Packet.decode datagram with
  | error _ => exact hq
  | ok packet =>
    cases hs : c.link.state with
    | induction => exact h.onHandshakePacket packet now (.inl hs) hq
    | conclusion => exact h.onHandshakePacket packet now (.inr hs) hq
    | failed => exact hq
    | connected =>
      simp only [hd, hs] at hok hdrop
      cases packet with
      | data data => exact h.onData data now (h.quiet _ _ hrecv hq) hok
      | control ctrl =>
        exact h.onControl ctrl now (h.quiet _ _ hrecv hq) fun range hr =>
          hdrop (_, range) (Option.mem_map_of_mem _ hr)

theorem handleTimer (id : TimerId) (now : Instant) (hq : Q c) : Q (c.handleTimer P id now) := by
  cases id with
  | handshake => exact h.quiet _ _ (onHandshakeTimer_linkStep c now).quiet hq
  | ack => exact h.quiet _ _ (onAckTimer_clerical c now).quiet hq
  | nak => exact h.quiet _ _ (onNakTimer_clerical c now).quiet hq
  | exp => exact h.quiet _ _ (onExpTimer_feedback c now).txStep.quiet hq
  | tsbpd => exact h.deliverTsbpd now hq
  | sndPacing => exact h.quiet _ _ (pace_clerical P c now).quiet hq
  | linger => exact h.quiet _ _ (onLingerTimer_linkStep c now).quiet hq
  | keepalive => exact h.quiet _ _ (onKeepaliveTimer_clerical c now).quiet hq
  | peerIdle => exact h.quiet _ _ (onPeerIdleTimer_linkStep c now).quiet hq

/-- Every call but a poll keeps what survives receipt. -/
theorem perform (call : Call) (now : Instant) (hq : Q c)
    (hok : ∀ x ∈ c.handed P call now, ok x.1 x.2) (hdrop : ∀ x ∈ c.givenUp call now, drop x.1 x.2)
    (hpoll : call = .pollEvent → Q { c with events := c.events.drop 1 }) :
    Q (c.perform P call now) := by
  cases call with
  | feedRecvBuf datagram => exact h.feedRecvBuf datagram now hq hok hdrop
  | handleTimer id => exact h.handleTimer id now hq
  | send payload => exact h.quiet _ _ (send_clerical P c payload now).quiet hq
  | close => exact h.quiet _ _ (close_linkStep c now).quiet hq
  | provideRekey sek => exact h.quiet _ _ (provideRekey_keyStep P c sek now).quiet hq
  | pollEvent => exact hpoll rfl

end Receipt

end Connection

/-! ## Delivered messages -/

namespace Reassembler

/-- A message is put together from payloads of packets pushed. -/
theorem push_payloads {r : Reassembler} {seen : List DataPacket} (packet : DataPacket)
    (h : ∃ qs ⊆ seen, r.fragments = qs.map (·.payload)) :
    (∃ qs ⊆ seen ++ [packet], (r.push packet).2.fragments = qs.map (·.payload)) ∧
      ∀ m ∈ (r.push packet).1, ∃ qs ⊆ seen ++ [packet], m = (qs.map (·.payload)).flatten := by
  obtain ⟨qs, hqs, hr⟩ := h
  have hone : [packet] ⊆ seen ++ [packet] := by simp
  have hmore : qs ++ [packet] ⊆ seen ++ [packet] := by
    intro q hq
    rw [List.mem_append] at hq ⊢
    exact hq.imp_left fun h => hqs h
  have hnone : ∃ qs ⊆ seen ++ [packet], empty.fragments = qs.map (·.payload) := ⟨[], by simp, rfl⟩
  unfold push
  split
  · exact ⟨hnone, by simpa using ⟨[packet], hone, by simp⟩⟩
  · exact ⟨⟨[packet], hone, rfl⟩, by simp⟩
  · split
    · exact ⟨hnone, by simp⟩
    · exact ⟨⟨qs ++ [packet], hmore, by simp [hr]⟩, by simp⟩
  · split
    · exact ⟨hnone, by simp⟩
    · exact ⟨hnone, by simpa using ⟨qs ++ [packet], hmore, by simp [hr]⟩⟩

theorem pushAll_payloads {r : Reassembler} {seen : List DataPacket} (ps : List DataPacket)
    (h : ∃ qs ⊆ seen, r.fragments = qs.map (·.payload)) :
    ∀ m ∈ (r.pushAll ps).1, ∃ qs ⊆ seen ++ ps, m = (qs.map (·.payload)).flatten := by
  induction ps generalizing r seen with
  | nil => simp [pushAll]
  | cons p ps ih =>
    obtain ⟨hnext, hdone⟩ := push_payloads p h
    intro m hm
    rcases List.mem_append.mp hm with hm | hm
    · obtain ⟨qs, hqs, rfl⟩ := hdone m (by simpa using hm)
      refine ⟨qs, fun q hq => ?_, rfl⟩
      have := hqs hq
      simp only [List.mem_append, List.mem_cons] at this ⊢
      tauto
    · obtain ⟨qs, hqs, rfl⟩ := ih hnext m hm
      exact ⟨qs, by simpa using hqs, rfl⟩

end Reassembler

namespace Connection

/-- What was delivered earlier and what is queued is what the packets taken out of the buffer
complete. -/
structure Delivers (earlier : List Bytes) (c : Connection) : Prop where
  messages : earlier ++ messages c.events = (Reassembler.empty.pushAll (popped c.trace)).1
  reassembler : c.rx.reassembler = (Reassembler.empty.pushAll (popped c.trace)).2

theorem delivers_receipt (P : Primitives) (earlier : List Bytes) :
    Receipt P (fun _ _ => True) (fun _ _ => True) (Delivers earlier) where
  quiet c c' h hq := ⟨by rw [h.messages, h.popped]; exact hq.messages,
    by rw [h.reassembler, h.popped]; exact hq.reassembler⟩
  store c data result hq _ _ hopen _ := by
    have h := Quiet.record c result.2 (openPacket_quiet hopen)
    refine ⟨?_, ?_⟩
    · rw [setRecvBuffer_events, setRecvBuffer_trace, h.messages, h.popped]
      exact hq.messages
    · rw [setRecvBuffer_reassembler, setRecvBuffer_trace, h.reassembler, h.popped]
      exact hq.reassembler
  pop c packet rest hq _ := by
    have hpush : Reassembler.empty.pushAll (popped c.trace ++ [packet])
        = ((Reassembler.empty.pushAll (popped c.trace)).1 ++ (c.rx.reassembler.push packet).1.toList,
          (c.rx.reassembler.push packet).2) := by
      rw [Reassembler.pushAll_append, ← hq.reassembler]
      simp [Reassembler.pushAll]
    refine ⟨?_, ?_⟩
    · rw [deliverPopped_messages, deliverPopped_popped, hpush, ← hq.messages, List.append_assoc]
    · rw [deliverPopped_reassembler, deliverPopped_popped, hpush]
  skip c first last hq _ := by
    refine ⟨?_, ?_⟩
    · rw [skipRange_events, skipRange_trace]
      exact hq.messages
    · rw [skipRange_reassembler, skipRange_trace]
      exact hq.reassembler
  connects c negotiated now _ hq := by
    obtain ⟨-, -, hreassembler, -, hevents, htrace⟩ := enterConnected_data c negotiated now
    refine ⟨?_, ?_⟩
    · rw [hevents, htrace, messages_connected]
      exact hq.messages
    · rw [hreassembler, htrace]
      exact hq.reassembler

end Connection

namespace Session

theorem settle_quiet (s : Session) (c : Connection) (now : Instant) :
    c.Quiet (s.settle c now).conn := .same id rfl rfl rfl rfl

/-- A property that survives receipt and polling holds along every run whose packets are as
assumed. -/
theorem run_receipt {P : Primitives} {ok : Connection → DataPacket → Prop} {Q : Connection → Prop}
    (h : Connection.Receipt P ok (fun _ _ => True) Q)
    (hpoll : ∀ c, Q c → Q { c with events := c.events.drop 1 })
    {s : Session} {inputs : List (Call × Instant)} (h0 : Q s.conn)
    (hm : Runs.Meets (step P) (fun s input => ∀ x ∈ s.conn.handed P input.1 input.2, ok x.1 x.2)
      s inputs) : Q (Runs.run (step P) s inputs).conn := by
  refine @Runs.invariant _ _ _ _ (fun s : Session => Q s.conn) ?_ _ _ h0 hm
  intro s input hq hok
  exact h.quiet _ _ (settle_quiet _ _ input.2)
    (h.perform input.1 input.2 hq hok (fun _ _ => trivial) fun _ => hpoll _ hq)

/-- A property of the events pushed and of received data holds along every run whose packets and
skipped ranges are as assumed. -/
theorem run_receipt_pushed {P : Primitives} {ok : Connection → DataPacket → Prop}
    {drop : Connection → SeqNumber × SeqNumber → Prop} {Q : List Event → Connection → Prop}
    (h : ∀ earlier, Connection.Receipt P ok drop (Q earlier))
    (hpoll : ∀ earlier c, Q earlier c →
      Q (earlier ++ c.events.take 1) { c with events := c.events.drop 1 })
    {s : Session} {inputs : List (Call × Instant)} (h0 : Q s.polled s.conn)
    (hm : Runs.Meets (step P) (fun s input => (∀ x ∈ s.conn.handed P input.1 input.2, ok x.1 x.2) ∧
      ∀ x ∈ s.conn.givenUp input.1 input.2, drop x.1 x.2) s inputs) :
    Q (Runs.run (step P) s inputs).polled (Runs.run (step P) s inputs).conn := by
  refine @Runs.invariant _ _ _ _ (fun s : Session => Q s.polled s.conn) ?_ _ _ h0 hm
  intro s input hq hok
  change Q (s.polled ++ s.conn.polledBy input.1) _
  refine (h _).quiet _ _ (settle_quiet _ _ input.2) ?_
  by_cases hcall : input.1 = .pollEvent
  · rw [hcall]
    exact hpoll s.polled s.conn hq
  · have hnone : s.conn.polledBy input.1 = [] := by
      rcases input with ⟨_ | _ | _ | _ | _ | _, now⟩ <;> first | rfl | exact absurd rfl hcall
    rw [hnone, List.append_nil]
    exact (h _).perform input.1 input.2 hq hok.1 hok.2 fun he => absurd he hcall

theorem Started.empty {P : Primitives} {s : Session} (h : Started P s) :
    s.conn.rx = Receiver.new s.conn.config s.conn.initialSeq ∧ messages s.conn.events = [] ∧
      popped s.conn.trace = [] := by
  obtain ⟨c, now, hc, rfl⟩ := h.fresh
  refine ⟨hc.rx, ?_, ?_⟩
  · change messages c.events = []
    rcases hc.phase with ⟨-, he⟩ | ⟨-, ⟨n, he⟩, -⟩ <;> simp [he, messages, Event.message]
  · refine popped_eq_nil fun t ht => ?_
    rw [hc.history t ht]
    exact id

/-- In every state of a run the messages pushed are what the packets taken out complete. -/
theorem run_delivers {P : Primitives} {s : Session} (hs : Started P s)
    (inputs : List (Call × Instant)) :
    (Runs.run (step P) s inputs).conn.Delivers (messages (Runs.run (step P) s inputs).polled) := by
  refine @run_receipt_pushed P _ _ (fun earlier c => c.Delivers (messages earlier))
    (fun earlier => Connection.delivers_receipt P (messages earlier)) ?_ s inputs ?_
    (Runs.meets_of_forall (fun _ _ => ⟨fun _ _ => trivial, fun _ _ => trivial⟩) s inputs)
  · intro earlier c hq
    refine ⟨?_, hq.reassembler⟩
    change messages (earlier ++ c.events.take 1) ++ messages (c.events.drop 1) = _
    rw [← hq.messages, messages, messages, messages, messages, List.filterMap_append,
      List.append_assoc, ← List.filterMap_append, List.take_append_drop]
  · obtain ⟨hrx, hevents, htrace⟩ := hs.empty
    have hpolled : s.polled = [] := by
      obtain ⟨c, now, -, rfl⟩ := hs.fresh
      rfl
    refine ⟨?_, ?_⟩
    · rw [htrace, hevents, hpolled]
      rfl
    · rw [htrace, hrx]
      rfl

/-- A caller's data packet. -/
def plainData (seq : ℕ) (position : PacketPosition) : Call :=
  .feedRecvBuf
    ({ seq := SeqNumber.new (UInt32.ofNat seq), position, inOrder := true, encryption := .none
       retransmitted := false, messageNumber := MsgNumber.new 1, timestamp := ⟨0⟩
       destSocketId := ⟨2⟩, payload := [7] } : DataPacket).encode

end Session

end Srtrust
