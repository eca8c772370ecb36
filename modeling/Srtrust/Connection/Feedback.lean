import Srtrust.Connection.Frame

/-! # The sender between originations

Acknowledgements, loss reports and the retransmission timer work on what was sent before:
they originate nothing, they only take packets off the front of the send buffer, and the data
they emit is buffered data with the retransmission flag set. -/
namespace Srtrust
open BigEndian
set_option autoImplicit false

/-- What originating a packet moves, and feedback does not. -/
def Sender.origin (tx : Sender) :
    SeqNumber × UInt32 × List Fragment × Option Instant × Option FecEncoder × ℕ × Bool :=
  (tx.nextSendSeq, tx.nextMessage, tx.sendQueue, tx.nextSend, tx.fecSend, tx.stats.packetsSent,
    tx.liveCc.isSome)

/-- A drop request names the first and the last of some packets. -/
def ControlBody.Retracts (packets : List DataPacket) (body : ControlBody) : Prop :=
  ∀ message first last, body = .dropReq message first last →
    first ∈ packets.map (·.seq) ∧ last ∈ packets.map (·.seq)

theorem ControlBody.Retracts.mono {packets packets' : List DataPacket} (h : packets ⊆ packets')
    {body : ControlBody} (hb : body.Retracts packets) : body.Retracts packets' := by
  intro message first last he
  obtain ⟨hfirst, hlast⟩ := hb message first last he
  exact ⟨List.map_subset _ h hfirst, List.map_subset _ h hlast⟩

/-- Buffered data sent again, and drop requests for buffered data. -/
def Packet.Resends (buffered : List DataPacket) : Packet → Prop
  | .data packet => ∃ original ∈ buffered, packet = { original with retransmitted := true }
  | .control ctrl => ctrl.body.IsDropReq ∧ ctrl.body.Retracts buffered

namespace Connection

/-- The packets that wait for an acknowledgement. -/
def outstanding (c : Connection) : List DataPacket := c.tx.sendBuffer.content

structure Feedback (ids : List TimerId) (c c' : Connection) : Prop where
  ident : c'.ident = c.ident
  link : c'.link = c.link
  keys : c'.keys = c.keys
  rx : c'.rx = c.rx
  rtt : c'.rtt = c.rtt
  lastRecvAny : c'.lastRecvAny = c.lastRecvAny
  origin : c'.tx.origin = c.tx.origin
  outstanding : c'.outstanding <:+ c.outstanding
  grows : Grows (fun _ => False) ids (Encodes (Packet.Resends c.outstanding)) (· = .panicked) c c'

namespace Feedback

variable {ids : List TimerId}

theorem refl (c : Connection) : Feedback ids c c :=
  ⟨rfl, rfl, rfl, rfl, rfl, rfl, rfl, List.suffix_rfl, .same rfl rfl rfl⟩

theorem resends_mono {buffered buffered' : List DataPacket} (h : buffered' <:+ buffered) (d : Bytes)
    (hd : Encodes (Packet.Resends buffered') d) : Encodes (Packet.Resends buffered) d := by
  obtain ⟨packet, hp, henc⟩ := hd
  refine ⟨packet, ?_, henc⟩
  cases packet with
  | data packet =>
    obtain ⟨original, hm, rfl⟩ := hp
    exact ⟨original, h.subset hm, rfl⟩
  | control ctrl => exact ⟨hp.1, hp.2.mono h.subset⟩

theorem trans {a b c : Connection} (h : Feedback ids a b) (h' : Feedback ids b c) :
    Feedback ids a c :=
  ⟨h'.ident.trans h.ident, h'.link.trans h.link, h'.keys.trans h.keys, h'.rx.trans h.rx,
    h'.rtt.trans h.rtt, h'.lastRecvAny.trans h.lastRecvAny, h'.origin.trans h.origin,
    h'.outstanding.trans h.outstanding,
    h.grows.trans (h'.grows.mono (fun _ => id) (fun _ => id) (resends_mono h.outstanding) (fun _ => id))⟩

theorem mono {ids' : List TimerId} {c c' : Connection} (h : Feedback ids c c')
    (hi : ∀ id ∈ ids, id ∈ ids') : Feedback ids' c c' :=
  ⟨h.ident, h.link, h.keys, h.rx, h.rtt, h.lastRecvAny, h.origin, h.outstanding,
    h.grows.mono (fun _ => id) hi (fun _ => id) (fun _ => id)⟩

/-- A change of the sender that keeps its origin and only shortens the buffer. -/
theorem ofTx (c : Connection) (tx : Sender) (ho : tx.origin = c.tx.origin)
    (hb : tx.sendBuffer.content <:+ c.outstanding) : Feedback ids c { c with tx := tx } :=
  ⟨rfl, rfl, rfl, rfl, rfl, rfl, ho, hb, .same rfl rfl rfl⟩

theorem output (c : Connection) (o : Output)
    (h : o.Touches ids (Encodes (Packet.Resends c.outstanding))) : Feedback ids c (c.output o) :=
  ⟨rfl, rfl, rfl, rfl, rfl, rfl, rfl, List.suffix_rfl, .output c o h⟩

theorem foldl {α : Type} {f : Connection → α → Connection} (hf : ∀ c x, Feedback ids c (f c x))
    (xs : List α) (c : Connection) : Feedback ids c (xs.foldl f c) := by
  induction xs generalizing c with
  | nil => exact .refl c
  | cons x xs ih => exact (hf c x).trans (ih _)

theorem txStep {c c' : Connection} (h : Feedback [.exp] c c') : TxStep c c' := by
  refine ⟨h.ident, h.link, h.rx, h.rtt, h.lastRecvAny, h.grows.mono (fun _ => False.elim)
    (fun _ => id) ?_ ?_⟩
  · rintro d ⟨packet, hp, henc⟩
    refine ⟨packet, ?_, henc⟩
    cases packet with
    | data packet => trivial
    | control ctrl => exact hp.1
  · rintro t rfl
    trivial

end Feedback

/-! ## Retransmission -/

theorem resend_feedback (c : Connection) (packet : DataPacket) (seq : SeqNumber) (now : Instant)
    (hm : packet ∈ c.outstanding) : Feedback [] c (c.resend packet seq now) := by
  have h1 : Feedback [] c (c.countRetransmit packet) := .ofTx c _ rfl List.suffix_rfl
  have h2 : ∀ c : Connection, packet ∈ c.outstanding →
      Feedback [] c (c.emit (encodeRetransmit packet) now) := fun c hm =>
    ⟨rfl, rfl, rfl, rfl, rfl, rfl, rfl, List.suffix_rfl,
      .emit c _ now ⟨.data { packet with retransmitted := true }, ⟨packet, hm, rfl⟩, rfl⟩⟩
  have h3 : ∀ c : Connection, Feedback [] c (c.markRetransmitted seq now) := fun c =>
    .ofTx c _ rfl (by rw [SendBuffer.content_markRetransmitted]; exact List.suffix_rfl)
  exact (h1.trans (h2 _ hm)).trans (h3 _)

theorem retransmitOne_feedback (c : Connection) (gate : Duration) (start stop seq : SeqNumber)
    (now : Instant) : Feedback [] c (c.retransmitOne gate start stop seq now) := by
  unfold retransmitOne
  split
  · split
    · exact .refl c
    · next hget => exact resend_feedback c _ seq now (SendBuffer.get_mem _ _ _ hget)
  · exact .refl c

theorem retransmitRange_feedback (c : Connection) (start stop : SeqNumber) (now : Instant) :
    Feedback [] c (c.retransmitRange start stop now) := by
  unfold retransmitRange
  split
  · exact .foldl (fun d seq => retransmitOne_feedback d _ start stop seq now) _ c
  · exact .refl c

theorem retransmitAll_feedback (c : Connection) (now : Instant) :
    Feedback [] c (c.retransmitAll now) := by
  unfold retransmitAll
  split
  · exact retransmitRange_feedback c _ _ now
  · exact .refl c

theorem retransmitOne_outstanding (c : Connection) (gate : Duration) (start stop seq : SeqNumber)
    (now : Instant) : (c.retransmitOne gate start stop seq now).outstanding = c.outstanding := by
  unfold retransmitOne
  split
  · split
    · rfl
    · exact SendBuffer.content_markRetransmitted _ _ _
  · rfl

/-- Retransmission takes nothing out of the buffer. -/
theorem retransmitRange_outstanding (c : Connection) (start stop : SeqNumber) (now : Instant) :
    (c.retransmitRange start stop now).outstanding = c.outstanding := by
  unfold retransmitRange
  split
  · next first last hf hl =>
    clear hf hl
    generalize visited first last = seqs
    generalize c.rtt.rtt = gate
    induction seqs generalizing c with
    | nil => rfl
    | cons seq seqs ih => exact (ih _).trans (retransmitOne_outstanding c gate start stop seq now)
  · rfl

/-! ## Too-late drop -/

theorem dropShed_outstanding (c : Connection) (now : Instant) :
    (c.dropShed now).outstanding = c.outstanding.drop (c.shed now).length := by
  have h := List.takeWhile_append_dropWhile (p := c.tooLate now) (l := c.tx.sendBuffer.packets)
  change (c.tx.sendBuffer.packets.dropWhile (c.tooLate now)).map (·.packet)
    = (c.tx.sendBuffer.packets.map (·.packet)).drop (c.tx.sendBuffer.packets.takeWhile (c.tooLate now)).length
  conv_rhs => rw [← h]
  rw [List.map_append, List.drop_append_of_le_length (by simp), List.drop_of_length_le (by simp),
    List.nil_append]

/-- Shedding late packets takes them off the front. -/
theorem dropTooLate_packets (c : Connection) (now : Instant) :
    (c.dropTooLate now).tx.sendBuffer.packets = c.tx.sendBuffer.packets.dropWhile (c.tooLate now) := by
  unfold dropTooLate
  split
  · have hclear : ∀ d : Connection, d.clearExpIfEmpty.tx = d.tx := fun d => by
      unfold clearExpIfEmpty
      split <;> rfl
    have hemit : ∀ (d : Connection) body, (d.emitControl body now).tx = d.tx := fun d body => by
      unfold emitControl
      split <;> rfl
    rw [hclear, hemit]
    rfl
  · next hnone =>
    have hshed : c.tx.sendBuffer.packets.takeWhile (c.tooLate now) = [] := by
      cases hs : c.shed now with
      | nil => exact hs
      | cons s rest =>
        exact absurd (List.getLast?_eq_getLast_of_ne_nil (List.cons_ne_nil s rest))
          (hnone s _ (by rw [hs]; rfl) |> fun h => by rwa [hs] at h)
    have hsplit := List.takeWhile_append_dropWhile (p := c.tooLate now) (l := c.tx.sendBuffer.packets)
    rw [hshed, List.nil_append] at hsplit
    exact hsplit.symm

theorem dropShed_feedback {ids : List TimerId} (c : Connection) (now : Instant) :
    Feedback ids c (c.dropShed now) := by
  refine .ofTx c _ rfl ?_
  change (c.dropShed now).outstanding <:+ c.outstanding
  rw [dropShed_outstanding]
  exact List.drop_suffix _ _

theorem clearExpIfEmpty_feedback (c : Connection) : Feedback [.exp] c c.clearExpIfEmpty := by
  unfold clearExpIfEmpty
  split
  · exact .output _ _ (by simp [Output.Touches])
  · exact .refl _

/-- A drop request for what was outstanding at first. -/
theorem Feedback.retract {ids : List TimerId} {c d : Connection} (h : Feedback ids c d) (message : UInt32)
    {first last : DataPacket} (hfirst : first ∈ c.outstanding) (hlast : last ∈ c.outstanding) (now : Instant) :
    Feedback ids c (d.emitControl (.dropReq message first.seq last.seq) now) := by
  have hretracts : ControlBody.Retracts c.outstanding (.dropReq message first.seq last.seq) := by
    intro _ _ _ he
    obtain ⟨-, rfl, rfl⟩ := ControlBody.dropReq.inj he
    exact ⟨List.mem_map_of_mem hfirst, List.mem_map_of_mem hlast⟩
  unfold emitControl
  split
  · next bytes henc =>
    have hsaid : Encodes (Packet.Resends c.outstanding) bytes :=
      ⟨.control ⟨_, _, .dropReq message first.seq last.seq⟩, ⟨trivial, hretracts⟩, henc⟩
    exact ⟨h.ident, h.link, h.keys, h.rx, h.rtt, h.lastRecvAny, h.origin, h.outstanding,
      h.grows.trans (.emit d bytes now hsaid)⟩
  · exact ⟨h.ident, h.link, h.keys, h.rx, h.rtt, h.lastRecvAny, h.origin, h.outstanding,
      h.grows.trans (.record d _ (by simp))⟩

theorem shed_outstanding {c : Connection} {now : Instant} {s : Sent} (h : s ∈ c.shed now) :
    s.packet ∈ c.outstanding :=
  List.mem_map_of_mem ((List.takeWhile_prefix _).subset h)

theorem dropTooLate_feedback (c : Connection) (now : Instant) :
    Feedback [.exp] c (c.dropTooLate now) := by
  unfold dropTooLate
  split
  · next first last hfirst hlast =>
    exact ((dropShed_feedback c now).retract _ (shed_outstanding (List.mem_of_mem_head? hfirst))
      (shed_outstanding (List.mem_of_mem_getLast? hlast)) now).trans (clearExpIfEmpty_feedback _)
  · exact .refl c

/-! ## Handlers -/

theorem armExp_feedback (c : Connection) : Feedback [.exp] c c.armExp :=
  .output c _ (by simp [Output.Touches])

theorem onNak_feedback (c : Connection) (loss : List LossRange) (now : Instant) :
    Feedback [.exp] c (c.onNak loss now) := by
  have h1 : Feedback [.exp] c c.countNak := .ofTx c _ rfl List.suffix_rfl
  exact (h1.trans (dropTooLate_feedback _ now)).trans
    (.foldl (fun d range => (retransmitRange_feedback d _ _ now).mono (by simp)) loss _)

theorem backOff_feedback (c : Connection) : Feedback [.exp] c c.backOff :=
  .ofTx c _ rfl List.suffix_rfl

theorem onExpTimer_feedback (c : Connection) (now : Instant) :
    Feedback [.exp] c (c.onExpTimer now) := by
  unfold onExpTimer
  split
  · exact .refl c
  · refine (dropTooLate_feedback c now).trans ?_
    dsimp only
    split
    · exact .refl _
    · exact ((retransmitAll_feedback _ now).mono (by simp)).trans
        ((backOff_feedback _).trans (armExp_feedback _))

theorem releaseAcked_feedback (c : Connection) (ack : Ack) :
    Feedback [.exp] c (c.releaseAcked ack) := by
  refine .ofTx c _ rfl ?_
  change (c.tx.sendBuffer.ack ack.lastAckSeq).content <:+ _
  rw [SendBuffer.content_ack]
  exact List.dropWhile_suffix _

theorem resetBackoff_feedback (c : Connection) : Feedback [.exp] c c.resetBackoff :=
  .ofTx c _ (by simp [Sender.origin]) List.suffix_rfl

theorem rearmExp_feedback (c : Connection) : Feedback [.exp] c c.rearmExp := by
  unfold rearmExp
  split
  · exact .output _ _ (by simp [Output.Touches])
  · exact armExp_feedback c

/-- `on_ack` up to the close check. -/
def settleAck (c : Connection) (ack : Ack) (now : Instant) : Connection :=
  ((c.releaseAcked ack).dropTooLate now).resetBackoff.rearmExp

theorem onAck_eq (c : Connection) (ack : Ack) (now : Instant) :
    c.onAck ack now = ((c.settleAck ack now).finishCloseIfDrained now).answerAck ack now := rfl

theorem settleAck_feedback (c : Connection) (ack : Ack) (now : Instant) :
    Feedback [.exp] c (c.settleAck ack now) :=
  (((releaseAcked_feedback c ack).trans (dropTooLate_feedback _ now)).trans
    (resetBackoff_feedback _)).trans (rearmExp_feedback _)

end Connection

end Srtrust
