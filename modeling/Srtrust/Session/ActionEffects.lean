import Srtrust.Session.Actions

/-! # What the elementary actions do

An action seen from one side: what it changes for received data, what for the data the sender has
originated, and what it says to the peer. An invariant about one side has only the cases that concern it. -/
namespace Srtrust
open BigEndian
set_option autoImplicit false

namespace Connection

/-! ## Received data -/

theorem Originates.quiet {P : Primitives} {fragment : Fragment} {now : Instant} {stored : DataPacket}
    {calls : List Trace} {c c' : Connection} (h : Originates P fragment now stored calls c c') : Quiet c c' := by
  obtain ⟨keys, es, hacc, hes⟩ := accountKeyAndMaybeRotate_eq c
  have hcalls := (sealPacket_spec h.sealed).2
  have hrx := h.rx
  refine ⟨?_, config_of_ident h.ident, by rw [hrx], by rw [hrx], by rw [hrx], by rw [hrx], ⟨es, ?_, ?_⟩,
    ⟨_, h.trace, ?_⟩⟩
  · rw [Established, Established, h.link]
    exact id
  · rw [h.events, hacc]
  · intro e he
    have hkey := hes e he
    cases e <;> simp_all [Event.IsKeyRefresh, Event.IsInbound]
  · rcases hcalls with ⟨-, -, rfl⟩ | ⟨crypto, keys, -, -, rfl⟩ <;> simp [Trace.IsPopped]

theorem Act.Keeps.ofReceiver {P : Primitives} {input : Option Packet} {Q : Connection → Prop}
    (quiet : ∀ c c', Quiet c c' → Q c → Q c')
    (poll : ∀ c : Connection, Q c → Q { c with events := c.events.drop 1 })
    (store : ∀ (c : Connection) (heard data : DataPacket), input = some (.data heard) →
      (c.rx.fecRecv = none → ∃ calls, c.openPacket P heard = some (data, calls)) → c.link.state = .connected →
      (c.rx.recvBuffer.insert data).1 = true → Q c → Q (c.setRecvBuffer (c.rx.recvBuffer.insert data).2))
    (pop : ∀ (c : Connection) packet rest, c.rx.recvBuffer.pop = some (packet, rest) → Q c →
      Q (c.deliverPopped packet rest))
    (skip : ∀ (c : Connection) ctrl message first last, input = some (.control ctrl) →
      ctrl.body = .dropReq message first last → c.link.state = .connected → Q c → Q (c.skipRange first last))
    (connect : ∀ (c : Connection) ctrl hs now, input = some (.control ctrl) → ctrl.body = .handshake hs →
      hs.handshakeType = .conclusion → c.link.state = .conclusion → Q c →
      Q (c.enterConnected (negotiate c.config.latency hs) now)) : Act.Keeps P input Q := by
  intro c c' h hq
  cases h with
  | poll => exact poll c hq
  | connect ctrl hs now hinput hbody htype hstate => exact connect c ctrl hs now hinput hbody htype hstate hq
  | store heard data now hinput hdata hstate _ hnew =>
    exact quiet _ _ (recordArrival_quiet c data _ now) (store c heard data hinput hdata hstate hnew hq)
  | pop packet rest hpop => exact pop c packet rest hpop hq
  | skip ctrl message first last hinput hbody hstate => exact skip c ctrl message first last hinput hbody hstate hq
  | drain => exact quiet c _ (.same id rfl rfl rfl rfl) hq
  | timers os _ => exact quiet c _ (.same id rfl rfl rfl rfl) hq
  | hear now => exact quiet c _ (.same id rfl rfl rfl rfl) hq
  | panic => exact quiet c _ (.record c _ (by simp [Trace.IsPopped])) hq
  | relink link _ hstate =>
    refine quiet c _ (.same (fun he => ?_) rfl rfl rfl rfl) hq
    rcases hstate with hs | hs | ⟨hs, -⟩
    · rwa [Established, hs]
    · exact .inr hs
    · rcases he with he | he <;> rw [hs] at he <;> cases he
  | introduce dest hs now =>
    refine quiet c _ ?_ hq
    unfold emitHandshake
    split
    · exact .record c _ (by simp [Trace.IsPopped])
    · exact .same id rfl rfl rfl rfl
  | again bytes _ => exact quiet c _ (.output c _) hq
  | finish e he => exact quiet c _ (.event c e (by cases e <;> simp_all [Event.IsEnd, Event.IsInbound])) hq
  | sayShutdown now =>
    refine quiet c _ ?_ hq
    unfold Connection.sayShutdown
    split
    · exact .output c _
    · exact .record c _ (by simp [Trace.IsPopped])
  | signal _ h => exact quiet c _ h.quiet hq
  | originate _ fragment now stored calls h => exact quiet c _ h.quiet hq
  | reschedule => exact quiet c _ (.same id rfl rfl rfl rfl) hq
  | release => exact quiet c _ (.same id rfl rfl rfl rfl) hq
  | countNak => exact quiet c _ (.same id rfl rfl rfl rfl) hq
  | shed first last now _ _ =>
    have hdropped : Quiet c (c.dropShed now) := .same id rfl rfl rfl rfl
    exact quiet c _ (hdropped.trans (.emitControl _ _ now)) hq
  | resend => exact quiet c _ (.same id rfl rfl rfl rfl) hq
  | book rx hrx =>
    simp only [Receiver.reports, Prod.mk.injEq] at hrx
    obtain ⟨⟨hbuffer, hreassembler, hfec⟩, -, -, -, hdropped, -⟩ := hrx
    exact quiet c _ (.ofRx c rx hbuffer hreassembler hdropped hfec) hq
  | opened calls hcalls =>
    refine quiet c _ (.record c calls fun t ht => ?_) hq
    obtain ⟨call, rfl⟩ := hcalls t ht
    exact id
  | lightAck now _ => exact quiet c _ (sendLightAck_clerical c now).quiet hq
  | fullAck now _ _ => exact quiet c _ (sendFullAck_clerical c now).quiet hq
  | nak now _ => exact quiet c _ (sendNak_clerical c _ now).quiet hq
  | measure number now => exact quiet c _ (onAckack_quiet c number now) hq

theorem Act.established {P : Primitives} {input : Option Packet} {c c' : Connection} (h : Act P input c c')
    (hc : c.Established) : c'.Established := by
  have hkeeps : Act.Keeps P input Established := by
    refine .ofReceiver (fun c c' h => h.established) (fun c => id) ?_ ?_ ?_ (fun _ _ _ _ _ _ _ _ _ => .inl rfl)
    · intro c _ data _ _ _ _ hq
      have hlink : ∀ (c : Connection) b, (c.setRecvBuffer b).link = c.link := fun _ _ => rfl
      rw [Established, hlink]
      exact hq
    · intro c packet rest _ hq
      rw [Established, (deliverPopped_rxStep c packet rest).link]
      exact hq
    · intro c _ _ first last _ _ _ hq
      have hlink : ∀ (c : Connection) b n, (c.replaceBuffer b n).link = c.link := fun _ _ _ => rfl
      rw [Established, skipRange, hlink]
      exact hq
  exact hkeeps c c' h hc

/-! ## Originated data -/

/-- Nothing changes for the data the sender has originated. -/
structure Stays (c c' : Connection) : Prop where
  outstanding : c'.outstanding = c.outstanding
  originals : c'.originals = c.originals
  nextSendSeq : c'.tx.nextSendSeq = c.tx.nextSendSeq
  packetsSent : c'.tx.stats.packetsSent = c.tx.stats.packetsSent
  bytesSent : c'.tx.stats.bytesSent = c.tx.stats.bytesSent
  packetsDroppedSent : c'.tx.stats.packetsDroppedSent = c.tx.stats.packetsDroppedSent

namespace Stays

theorem ofTx {c c' : Connection} (htx : c'.tx = c.tx) (ht : ∃ ts, c'.trace = c.trace ++ ts ∧ ∀ t ∈ ts, ¬ t.IsSent) :
    Stays c c' := by
  obtain ⟨ts, ht, hts⟩ := ht
  refine ⟨?_, originals_append ht hts, by rw [htx], by rw [htx], by rw [htx], by rw [htx]⟩
  rw [Connection.outstanding, htx]
  rfl

theorem same {c c' : Connection} (htx : c'.tx = c.tx) (ht : c'.trace = c.trace) : Stays c c' :=
  .ofTx htx ⟨[], by rw [ht, List.append_nil], by simp⟩

theorem panicked (c : Connection) : Stays c c.panicked := .ofTx rfl ⟨_, rfl, by simp [Trace.IsSent]⟩

theorem rx {c c' : Connection} (h : RxStep c c') : Stays c c' := by
  obtain ⟨ts, ht, hts⟩ := h.grows.trace
  exact .ofTx h.tx ⟨ts, ht, fun t hm => (hts t hm).not_isSent⟩

end Stays

theorem Act.Keeps.ofSender {P : Primitives} {input : Option Packet} {Q : Connection → Prop}
    (stays : ∀ c c', Stays c c' → Q c → Q c')
    (originate : ∀ c c' fragment now stored calls, Originates P fragment now stored calls c c' → Q c → Q c')
    (release : ∀ (c : Connection) ctrl ack, input = some (.control ctrl) → ctrl.body = .ack ack → Q c →
      Q (c.releaseAcked ack))
    (shed : ∀ (c : Connection) now, Q c → Q (c.dropShed now)) : Act.Keeps P input Q := by
  have hset : ∀ (c : Connection) data b now, (c.recordArrival data b now).tx = c.tx ∧
      (c.recordArrival data b now).trace = c.trace := fun _ _ _ _ => ⟨rfl, rfl⟩
  have hreplace : ∀ (c : Connection) b n, (c.replaceBuffer b n).tx = c.tx ∧ (c.replaceBuffer b n).trace = c.trace :=
    fun _ _ _ => ⟨rfl, rfl⟩
  intro c c' h hq
  cases h with
  | originate _ fragment now stored calls ho => exact originate c c' fragment now stored calls ho hq
  | release ctrl ack hinput hbody => exact release c ctrl ack hinput hbody hq
  | shed first last now _ _ =>
    refine stays _ _ ?_ (shed c now hq)
    unfold emitControl
    split
    · exact .same rfl rfl
    · exact .panicked _
  | introduce dest hs now =>
    refine stays c _ ?_ hq
    unfold emitHandshake
    split
    · exact .panicked c
    · exact .same rfl rfl
  | sayShutdown now =>
    refine stays c _ ?_ hq
    unfold Connection.sayShutdown
    split
    · exact .same rfl rfl
    · exact .panicked c
  | panic => exact stays c _ (.panicked c) hq
  | signal _ h =>
    obtain ⟨ts, ht, hts⟩ := h.grows.trace
    exact stays c _ (.ofTx h.tx ⟨ts, ht, panicked_not_isSent hts⟩) hq
  | opened calls hcalls =>
    refine stays c _ (.ofTx rfl ⟨calls, rfl, fun t ht => ?_⟩) hq
    obtain ⟨call, rfl⟩ := hcalls t ht
    exact id
  | store heard data now => exact stays c _ (.same (hset c data _ now).1 (hset c data _ now).2) hq
  | skip ctrl message first last => exact stays c _ (.same (hreplace c _ _).1 (hreplace c _ _).2) hq
  | pop packet rest _ => exact stays c _ (.rx (deliverPopped_rxStep c packet rest)) hq
  | lightAck now _ => exact stays c _ (.rx (sendLightAck_rxStep c now)) hq
  | fullAck now _ _ => exact stays c _ (.rx (sendFullAck_rxStep c now)) hq
  | nak now _ => exact stays c _ (.rx (sendNak_rxStep c _ now)) hq
  | measure number now =>
    refine stays c _ ?_ hq
    unfold onAckack
    split
    · exact .same rfl rfl
    · split <;> exact .same rfl rfl
  | reschedule => exact stays c _ ⟨rfl, rfl, rfl, rfl, rfl, rfl⟩ hq
  | countNak => exact stays c _ ⟨rfl, rfl, rfl, rfl, rfl, rfl⟩ hq
  | resend packet seq now _ =>
    exact stays c _ ⟨SendBuffer.content_markRetransmitted _ seq now, rfl, rfl, rfl, rfl, rfl⟩ hq
  | _ => exact stays c _ (.same rfl rfl) hq

end Connection

/-! ## Datagrams -/

/-- What a connection may say in a control packet: the ACK point it has reached, the losses it sees. -/
structure ControlBody.Voices (c : Connection) (body : ControlBody) : Prop where
  formed : body.Formed
  ack : ∀ ack, body = .ack ack → c.link.state = .connected ∧ ack.lastAckSeq = c.rx.recvBuffer.receivedAckPoint
  nak : ∀ loss, body = .nak loss → c.link.state = .connected
    ∧ loss = (c.rx.recvBuffer.missingAged c.rx.reorderTolerance).map fun r => ⟨r.1, r.2⟩

def Packet.Voices (c : Connection) : Packet → Prop
  | .data _ => True
  | .control ctrl => ctrl.body.Voices c

/-- Bodies other than reports. -/
theorem ControlBody.Voices.plain (c : Connection) {body : ControlBody} (hformed : body.Formed)
    (hack : ∀ ack, body ≠ .ack ack) (hnak : ∀ loss, body ≠ .nak loss) : body.Voices c :=
  ⟨hformed, fun ack he => absurd he (hack ack), fun loss he => absurd he (hnak loss)⟩

namespace Connection

theorem emitHandshake_says {kind : Packet → Prop}
    (hk : ∀ timestamp dest hs, kind (.control ⟨timestamp, dest, .handshake hs⟩)) (c : Connection) (dest : SocketId)
    (hs : Handshake) (now : Instant) : Sends kind c (c.emitHandshake dest hs now) := by
  unfold emitHandshake
  split
  · exact .panicked c
  · next bytes henc =>
    have hnew : Encodes kind bytes := ⟨_, hk _ _ _, henc⟩
    intro d hd
    simp only [Said, output, List.mem_append, List.mem_singleton, Output.sendDatagram.injEq, reduceCtorEq,
      or_false, Option.some.injEq] at hd
    rcases hd with (hd | rfl) | rfl
    · exact .inl (.inl hd)
    · exact .inr hnew
    · exact .inr hnew

theorem Act.says {P : Primitives} {input : Option Packet} {c c' : Connection} (h : Act P input c c') :
    Sends (Packet.Voices c) c c' := by
  have hsame : ∀ {d d' : Connection}, d'.outputs = d.outputs → d'.link = d.link → Sends (Packet.Voices c) d d' :=
    fun ho hl => .same ho (by rw [hl])
  have hbody : ∀ {dest : SocketId} {timestamp : Timestamp} {body : ControlBody} {bytes : Bytes},
      encodeControl dest timestamp body = some bytes → body.Voices c → Encodes (Packet.Voices c) bytes := by
    intro dest timestamp body bytes henc hv
    exact ⟨.control ⟨timestamp, dest, body⟩, hv, henc⟩
  cases h with
  | timers os hos =>
    intro d hd
    rcases hd with hd | hd
    · rcases List.mem_append.mp hd with hd | hd
      · exact .inl (.inl hd)
      · exact absurd rfl (hos _ hd d)
    · exact .inl (.inr hd)
  | drain =>
    intro d hd
    rcases hd with hd | hd
    · cases hd
    · exact .inl (.inr hd)
  | relink link hsaid _ => exact .same rfl hsaid
  | introduce dest hs now =>
    exact emitHandshake_says (fun _ _ _ => .plain c trivial (by simp) (by simp)) c dest hs now
  | again bytes hb => exact .output c _ fun d hd => .inl (.inr (Output.sendDatagram.inj hd ▸ hb))
  | connect ctrl hs now =>
    intro d hd
    exact .inl (by simpa [Said, enterConnected, output, event] using hd)
  | sayShutdown now =>
    unfold Connection.sayShutdown
    split
    · next bytes henc =>
      refine .output c _ fun d hd => .inr ?_
      obtain rfl := Output.sendDatagram.inj hd
      exact hbody henc (.plain c trivial (by simp) (by simp))
    · exact .panicked c
  | signal _ hk =>
    refine .ofGrows hk.link hk.grows fun p hp => ?_
    cases p with
    | data _ => trivial
    | control ctrl =>
      obtain ⟨timestamp, dest, body⟩ := ctrl
      cases body with
      | raw controlType _ _ _ =>
        cases controlType with
        | userDefined => exact .plain c rfl (by simp) (by simp)
        | _ => exact hp.elim
      | ackAck _ => exact .plain c trivial (by simp) (by simp)
      | keepalive => exact .plain c trivial (by simp) (by simp)
      | _ => exact hp.elim
  | originate _ fragment now stored calls ho =>
    intro d hd
    rw [Said, ho.link, ho.outputs] at hd
    rcases hd with hd | hd
    · rcases List.mem_append.mp hd with hd | hd
      · exact .inl (.inl hd)
      · obtain ⟨p, rfl⟩ : ∃ p : DataPacket, d = p.encode := by
          rw [List.append_assoc, List.singleton_append, List.mem_cons, List.mem_append] at hd
          rcases hd with hd | hd | hd
          · exact ⟨stored, Output.sendDatagram.inj hd⟩
          · unfold parityOutputs at hd
            split at hd
            · exact ⟨_, Output.sendDatagram.inj (List.mem_singleton.mp hd)⟩
            · cases hd
          · unfold armOutputs at hd
            split at hd <;> simp at hd
        exact .inr ⟨.data p, trivial, rfl⟩
    · exact .inl (.inr hd)
  | shed first last now _ _ =>
    have hdropped : Sends (Packet.Voices c) c (c.dropShed now) := .same rfl rfl
    exact hdropped.trans (.emitControl _ _ now fun _ _ => .plain c trivial (by simp) (by simp))
  | resend packet seq now _ =>
    have hsent : Sends (Packet.Voices c) c
        ((c.countRetransmit packet).output (.sendDatagram (encodeRetransmit packet))) := by
      refine .output c _ fun d hd => .inr ⟨.data { packet with retransmitted := true }, trivial, ?_⟩
      rw [← Output.sendDatagram.inj hd]
      rfl
    exact hsent.trans (.same rfl rfl)
  | lightAck now hs =>
    have hnoted : Sends (Packet.Voices c) c c.noteLightAck := .same rfl rfl
    refine hnoted.trans (.emitControl _ _ now fun _ _ => ⟨trivial, fun ack he => ?_, by simp⟩)
    obtain rfl := ControlBody.ack.inj he
    exact ⟨hs, rfl⟩
  | fullAck now hs _ =>
    have hnoted : Sends (Packet.Voices c) c (c.noteFullAck now) := .same rfl rfl
    refine hnoted.trans (.emitControl _ _ now fun _ _ => ⟨trivial, fun ack he => ?_, by simp⟩)
    obtain rfl := ControlBody.ack.inj he
    exact ⟨hs, rfl⟩
  | nak now hs =>
    have hnoted : Sends (Packet.Voices c) c c.countNakSent := .same rfl rfl
    have hreport : (ControlBody.nak ((c.rx.recvBuffer.missingAged c.rx.reorderTolerance).map
        fun r => ⟨r.1, r.2⟩)).Voices c :=
      ⟨trivial, by simp, fun loss he => ⟨hs, (ControlBody.nak.inj he).symm⟩⟩
    exact (hnoted.trans (.emitControl _ _ now fun _ _ => hreport)).trans (.same rfl rfl)
  | measure number now =>
    unfold onAckack
    split
    · exact .refl c
    · split
      · exact .refl c
      · exact .same rfl rfl
  | pop packet rest _ =>
    unfold deliverPopped deliverPacket
    dsimp only
    split <;> exact .same rfl rfl
  | store heard data now =>
    have hquiet : ∀ (c : Connection) b, (c.recordArrival data b now).outputs = c.outputs
        ∧ (c.recordArrival data b now).link = c.link := fun _ _ => ⟨rfl, rfl⟩
    exact hsame (hquiet c _).1 (hquiet c _).2
  | skip ctrl message first last =>
    have hquiet : ∀ (c : Connection) b n, (c.replaceBuffer b n).outputs = c.outputs
        ∧ (c.replaceBuffer b n).link = c.link := fun _ _ _ => ⟨rfl, rfl⟩
    exact hsame (hquiet c _ _).1 (hquiet c _ _).2
  | _ => exact hsame rfl rfl

end Connection

namespace Session
open Connection

variable {P : Primitives} {Q : Connection → Prop}

theorem step_keeps {s : Session} {input : Call × Instant} (h : Act.Keeps P input.1.packet Q) (hq : Q s.conn) :
    Q (s.step P input).conn :=
  h _ _ (.drain (s.conn.perform P input.1 input.2)) (h.perform input.2 hq)

/-- A new session has said nothing but handshakes. -/
theorem Started.says {s : Session} (h : Started P s) {kind : Packet → Prop}
    (hk : ∀ timestamp dest hs, kind (.control ⟨timestamp, dest, .handshake hs⟩)) {d : Bytes}
    (hd : d ∈ s.emitted ∨ s.conn.Said d) : Encodes kind d := by
  have hstart : ∀ (c : Connection) (now : Instant), (∀ d, c.Said d → Encodes kind d) →
      d ∈ (start c now).emitted ∨ (start c now).conn.Said d → Encodes kind d := by
    intro c now hc hd
    rcases hd with hd | hd | hd
    · exact hc d (.inl (mem_datagrams.mp (by simpa [start, settle] using hd)))
    · cases hd
    · exact hc d (.inr hd)
  have hsay : ∀ (c : Connection) (now : Instant), c.outputs = [] → c.link.lastHandshake = none →
      ∀ d, (c.sendInduction now).Said d → Encodes kind d := by
    intro c now ho hl d hd
    rcases emitHandshake_says hk c _ _ now d hd with hold | hnew
    · simp [Said, ho, hl] at hold
    · exact hnew
  cases h with
  | caller config localSocketId initialSeq now salt sek =>
    refine hstart _ now (fun d h => ?_) hd
    unfold connect at h
    dsimp only at h
    split at h
    · exact hsay _ now rfl rfl d h
    · split at h
      · simp [Said, panicked, record, newBase] at h
      · exact hsay _ now rfl rfl d h
  | acceptor config localSocketId callerHs now c haccept =>
    refine hstart c now (fun d h => ?_) hd
    obtain ⟨timestamp, henc⟩ := (accept_spec haccept).2 d h
    exact ⟨_, hk timestamp callerHs.srtSocketId _, henc⟩

theorem run_keeps {s : Session} (h : ∀ packet, Act.Keeps P packet Q) (hq : Q s.conn)
    (inputs : List (Call × Instant)) : Q (Runs.run (step P) s inputs).conn :=
  @Runs.invariant _ _ _ (fun _ _ => True) (fun s : Session => Q s.conn) (fun _ _ hs _ => step_keeps (h _) hs) _ _ hq
    (Runs.meets_of_forall (fun _ _ => trivial) _ _)

end Session

end Srtrust
