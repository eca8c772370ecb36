import Srtrust.Connection.Feedback

/-! # Originating a packet

`send_data` puts one packet on the wire and into the send buffer. `Originates` says what the
connection is afterwards; the pacing loop and an accepted message are sequences of such steps. -/
namespace Srtrust
open BigEndian
set_option autoImplicit false

namespace Connection

/-! ## Transmitting a sealed packet -/

section Transmit

variable (c : Connection) (stored : DataPacket) (now : Instant)

/-- The parity datagram of a completed FEC group. -/
def parityOutputs : List Output :=
  match (fecFeed c.tx stored).1 with
  | some parity =>
    [.sendDatagram
      (DataPacket.encode
        { seq := stored.seq
          position := .single
          inOrder := true
          encryption := .none
          retransmitted := false
          messageNumber := MsgNumber.new 0
          timestamp := ⟨parity.timestampClip⟩
          destSocketId := c.link.peerSocketId
          payload := parity.encode Fec.rowIndex })]
  | none => []

/-- The retransmission timer starts with the first outstanding packet. -/
def armOutputs : List Output :=
  if c.tx.sendBuffer.isEmpty then
    [.setTimer .exp (max (c.rtt.rto * c.tx.expCount) minExpInterval)]
  else []

/-- The sender after a sealed packet. -/
def sentTx : Sender :=
  { c.tx with
    sendBuffer := c.tx.sendBuffer.push stored
    fecSend := (fecFeed c.tx stored).2
    nextSendSeq := c.tx.nextSendSeq.next
    liveCc := c.tx.liveCc.map fun (cc : LiveCc) => cc.onPacketSent stored.payload.length }

theorem transmit_eq : c.transmit stored now =
    { c with
      tx := c.sentTx stored
      lastSent := now
      outputs := c.outputs ++ ([.sendDatagram stored.encode] ++ c.parityOutputs stored ++ c.armOutputs)
      trace := c.trace ++ [.originated stored] } := by
  unfold transmit emitParityIfFull parityOutputs armOutputs sentTx
  dsimp only
  generalize hf : fecFeed c.tx stored = fed
  cases fed.1 with
  | none =>
    split <;> simp only [armExp, output, advanceSeq, record, emit, storePacket, hf, List.append_assoc,
      List.cons_append, List.nil_append, List.append_nil]
  | some parity =>
    split <;> simp only [armExp, output, advanceSeq, record, emit, emitFecParity, storePacket, hf,
      List.append_assoc, List.cons_append, List.nil_append, List.append_nil]

end Transmit

/-! ## Sealing -/

/-- Key accounting works on the keys, and may ask for a fresh one. -/
theorem accountKeyAndMaybeRotate_eq (c : Connection) : ∃ keys es,
    c.accountKeyAndMaybeRotate = { c with keys := keys, events := c.events ++ es } ∧
      ∀ e ∈ es, e.IsKeyRefresh := by
  unfold accountKeyAndMaybeRotate
  cases c.keys.crypto with
  | none => exact ⟨c.keys, [], by simp, by simp⟩
  | some crypto =>
    obtain ⟨keys, hr⟩ : ∃ keys, c.rotateIfDue crypto = { c with keys := keys } := by
      unfold rotateIfDue
      split
      · exact ⟨_, rfl⟩
      · exact ⟨c.keys, rfl⟩
    dsimp only
    rw [hr]
    unfold countAndAnnounce
    dsimp only
    split
    · split
      · exact ⟨_, [_], rfl, by simp [Event.IsKeyRefresh]⟩
      · exact ⟨{ keys with packetsOnKey := min (keys.packetsOnKey + 1) 0xFFFFFFFF }, [], by simp, by simp⟩
    · exact ⟨{ keys with packetsOnKey := min (keys.packetsOnKey + 1) 0xFFFFFFFF }, [], by simp, by simp⟩

theorem accountKeyAndMaybeRotate_plain {c : Connection} (h : c.keys.crypto = none) :
    c.accountKeyAndMaybeRotate = c := by
  rw [accountKeyAndMaybeRotate, h]

/-- Sealing replaces the payload and makes at most one cipher call, for the packet's own
sequence number. -/
theorem sealPacket_spec {P : Primitives} {c : Connection} {packet stored : DataPacket}
    {calls : List Trace} (h : c.sealPacket P packet = some (stored, calls)) :
    stored = { packet with payload := stored.payload } ∧
      (c.keys.crypto = none ∧ stored = packet ∧ calls = [] ∨
        ∃ crypto keys, c.keys.crypto = some crypto ∧
          crypto.encrypt P packet.seq.value packet.headerAad packet.payload = some (stored.payload, keys) ∧
          calls = [.encrypted ⟨keys, packet.seq, packet.headerAad, packet.payload, stored.payload⟩]) := by
  unfold sealPacket at h
  cases hc : c.keys.crypto with
  | none =>
    rw [hc] at h
    simp only [Option.some.injEq, Prod.mk.injEq] at h
    obtain ⟨rfl, rfl⟩ := h
    exact ⟨rfl, .inl ⟨rfl, rfl, rfl⟩⟩
  | some crypto =>
    rw [hc] at h
    obtain ⟨⟨ciphertext, keys⟩, he, h⟩ := Option.bind_eq_some_iff.mp h
    simp only [Option.some.injEq, Prod.mk.injEq] at h
    obtain ⟨rfl, rfl⟩ := h
    exact ⟨rfl, .inr ⟨crypto, keys, rfl, he, rfl⟩⟩

/-! ## One packet -/

/-- One packet originated: `stored` is what went on the wire and into the send buffer. -/
structure Originates (P : Primitives) (fragment : Fragment) (now : Instant) (stored : DataPacket)
    (calls : List Trace) (c c' : Connection) : Prop where
  sealed : c.accountKeyAndMaybeRotate.sealPacket P (c.accountKeyAndMaybeRotate.dataPacket fragment now)
    = some (stored, calls)
  ident : c'.ident = c.ident
  link : c'.link = c.link
  rx : c'.rx = c.rx
  rtt : c'.rtt = c.rtt
  lastRecvAny : c'.lastRecvAny = c.lastRecvAny
  keys : c'.keys = c.accountKeyAndMaybeRotate.keys
  events : c'.events = c.accountKeyAndMaybeRotate.events
  tx : c'.tx =
    { c.sentTx stored with
      stats :=
        { c.tx.stats with
          packetsSent := c.tx.stats.packetsSent + 1
          bytesSent := c.tx.stats.bytesSent + fragment.payload.length } }
  outputs : c'.outputs =
    c.outputs ++ ([.sendDatagram stored.encode] ++ c.parityOutputs stored ++ c.armOutputs)
  trace : c'.trace = c.trace ++ (calls ++ [.originated stored])

/-- A packet that can be sealed is originated. -/
theorem sendData_sealed {P : Primitives} {c : Connection} {fragment : Fragment} {now : Instant}
    {stored : DataPacket} {calls : List Trace}
    (hs : c.accountKeyAndMaybeRotate.sealPacket P (c.accountKeyAndMaybeRotate.dataPacket fragment now)
      = some (stored, calls)) : Originates P fragment now stored calls c (c.sendData P fragment now) := by
  obtain ⟨keys, es, hacc, -⟩ := accountKeyAndMaybeRotate_eq c
  unfold sendData
  dsimp only
  rw [hs]
  dsimp only
  rw [transmit_eq]
  refine ⟨hs, ?_, ?_, ?_, ?_, ?_, rfl, rfl, ?_, ?_, ?_⟩
  all_goals rw [hacc]
  all_goals first | rfl | simp [record]

theorem sendData_cases (P : Primitives) (c : Connection) (fragment : Fragment) (now : Instant) :
    c.sendData P fragment now = c.panicked ∨
      ∃ stored calls, Originates P fragment now stored calls c (c.sendData P fragment now) := by
  cases hs : c.accountKeyAndMaybeRotate.sealPacket P (c.accountKeyAndMaybeRotate.dataPacket fragment now) with
  | none =>
    refine .inl ?_
    unfold sendData
    dsimp only
    rw [hs]
  | some sealed => exact .inr ⟨sealed.1, sealed.2, sendData_sealed hs⟩

/-- Without encryption no cipher can panic. -/
theorem sendData_plain (P : Primitives) {c : Connection} (fragment : Fragment) (now : Instant)
    (h : c.keys.crypto = none) :
    ∃ stored calls, Originates P fragment now stored calls c (c.sendData P fragment now) := by
  refine ⟨c.dataPacket fragment now, [], sendData_sealed ?_⟩
  rw [accountKeyAndMaybeRotate_plain h]
  simp only [sealPacket, h]

section Originates

variable {P : Primitives} {fragment : Fragment} {now : Instant} {stored : DataPacket}
  {calls : List Trace} {c c' : Connection}

theorem Originates.outstanding (h : Originates P fragment now stored calls c c') :
    c'.outstanding = c.outstanding ++ [stored] := by
  rw [Connection.outstanding, h.tx]
  exact SendBuffer.content_push _ _

/-- The header is the one built from the fragment, up to the encryption flag. -/
theorem Originates.header (h : Originates P fragment now stored calls c c') :
    stored = { c.dataPacket fragment now with
      payload := stored.payload, encryption := stored.encryption } := by
  obtain ⟨keys, es, hacc, -⟩ := accountKeyAndMaybeRotate_eq c
  have hs := (sealPacket_spec h.sealed).1
  rw [hacc] at hs
  rw [hs]
  rfl

theorem Originates.seq (h : Originates P fragment now stored calls c c') :
    stored.seq = c.tx.nextSendSeq := by
  rw [h.header]
  rfl

theorem Originates.liveCc (h : Originates P fragment now stored calls c c') :
    c'.tx.liveCc.isSome = c.tx.liveCc.isSome := by
  rw [h.tx]
  simp [sentTx]

/-- Without encryption the wire packet is the built one, and the keys are left alone. -/
theorem Originates.plain (h : Originates P fragment now stored calls c c')
    (hk : c.keys.crypto = none) :
    stored = c.dataPacket fragment now ∧ calls = [] ∧ c'.keys = c.keys ∧ c'.events = c.events := by
  have hs := (sealPacket_spec h.sealed).2
  have hkeys := h.keys
  have hevents := h.events
  rw [accountKeyAndMaybeRotate_plain hk] at hs hkeys hevents
  rcases hs with ⟨-, hstored, hcalls⟩ | ⟨crypto, -, hsome, -⟩
  · exact ⟨hstored, hcalls, hkeys, hevents⟩
  · simp [hk] at hsome

end Originates

/-! ## Sequences of packets -/

/-- What every released packet and every slot keeps, the pacing loop keeps. -/
theorem paceLoop_rule {Q : Connection → Prop} (P : Primitives) (period : Duration) (now : Instant)
    (hnext : ∀ c t, Q c → Q (c.setNextSend t))
    (hturn : ∀ c fragment rest, Q c → c.tx.sendQueue = fragment :: rest →
      Q ((c.setQueue rest).sendData P fragment now)) (budget : ℕ) {c : Connection} (h : Q c) :
    Q (paceLoop P period now budget c).1 := by
  induction budget generalizing c with
  | zero => exact h
  | succ budget ih =>
    unfold paceLoop
    split
    · exact h
    · split
      · exact hnext c _ h
      · next fragment rest hq => exact ih (hnext _ _ (hturn c fragment rest h hq))

theorem release_rule {Q : Connection → Prop} (P : Primitives) (period : Duration) (now : Instant)
    (hnext : ∀ c t, Q c → Q (c.setNextSend t))
    (hturn : ∀ c fragment rest, Q c → c.tx.sendQueue = fragment :: rest →
      Q ((c.setQueue rest).sendData P fragment now)) {c : Connection} (h : Q c) :
    Q (c.release P period now) := by
  have hl := paceLoop_rule P period now hnext hturn maxPaceBurst h
  unfold release
  generalize paceLoop P period now maxPaceBurst c = paced at hl ⊢
  dsimp only
  split
  · exact hnext _ _ hl
  · exact hl

end Connection

end Srtrust
