import Srtrust.Crypto.Recorded
import Srtrust.Session.Reception

/-! # Data on an encrypted connection

Every packet that carries a key flag passes through `SessionCrypto::decrypt` before it is stored.
A packet whose flag says it is not encrypted is stored as it is, also on a connection that
holds keys. -/
namespace Srtrust
open BigEndian
set_option autoImplicit false

/-- The history holds the cipher call that produced a packet's payload, under the key its flag
names. -/
def Authentic (P : Primitives) (trace : List Trace) (packet : DataPacket) : Prop :=
  packet.encryption ≠ .none ∧ ∃ (crypto : SessionCrypto) (call : CipherCall),
    .decrypted call ∈ trace ∧ call.seq = packet.seq ∧ call.output = packet.payload ∧
      crypto.decrypt P packet.seq.value packet.encryption call.aad call.input
        = some (packet.payload, call.keys)

theorem Authentic.mono {P : Primitives} {trace trace' : List Trace} {packet : DataPacket}
    (h : Authentic P trace packet) (hsub : trace ⊆ trace') : Authentic P trace' packet := by
  obtain ⟨hflag, crypto, call, hmem, hrest⟩ := h
  exact ⟨hflag, crypto, call, hsub hmem, hrest⟩

namespace Connection

theorem openPacket_authentic {P : Primitives} {c : Connection} {data : DataPacket}
    {result : DataPacket × List Trace} (h : c.openPacket P data = some result)
    (hflag : data.encryption ≠ .none) : Authentic P result.2 result.1 := by
  unfold openPacket at h
  split at h
  · contradiction
  · obtain ⟨crypto, -, h⟩ := Option.bind_eq_some_iff.mp h
    obtain ⟨⟨plaintext, keys⟩, hdecrypt, h⟩ := Option.bind_eq_some_iff.mp h
    obtain rfl := Option.some.inj h
    exact ⟨hflag, crypto, _, List.mem_singleton_self _, rfl, rfl, hdecrypt⟩

/-- Every packet buffered or taken out of the buffer was decrypted. -/
structure Vetted (P : Primitives) (c : Connection) : Prop where
  stored : ∀ packet, some packet ∈ c.rx.recvBuffer.slots → Authentic P c.trace packet
  popped : ∀ packet ∈ popped c.trace, Authentic P c.trace packet

theorem vetted_receipt (P : Primitives) :
    Receipt P (fun _ data => data.encryption ≠ .none) (fun _ _ => True) (Vetted P) where
  quiet c c' h hq := by
    obtain ⟨ts, ht, -⟩ := h.trace
    have hsub : c.trace ⊆ c'.trace := by simp [ht]
    refine ⟨?_, ?_⟩
    · rw [h.recvBuffer]
      exact fun p hp => (hq.stored p hp).mono hsub
    · rw [h.popped]
      exact fun p hp => (hq.popped p hp).mono hsub
  store c data result hq hflag _ hopen hnew := by
    have hquiet := Quiet.record c result.2 (openPacket_quiet hopen)
    have hold : c.trace ⊆ (c.record result.2).trace := List.subset_append_left _ _
    have hcall : result.2 ⊆ (c.record result.2).trace := List.subset_append_right _ _
    refine ⟨?_, ?_⟩
    · rw [setRecvBuffer_recvBuffer, setRecvBuffer_trace]
      intro p hp
      rcases RecvBuffer.mem_insert hnew hp with rfl | hp
      · exact (openPacket_authentic hopen hflag).mono hcall
      · exact (hq.stored p hp).mono hold
    · rw [setRecvBuffer_trace, hquiet.popped]
      exact fun p hp => (hq.popped p hp).mono hold
  pop c packet rest hq hpop := by
    obtain ⟨hp, hrest⟩ := RecvBuffer.mem_of_pop hpop
    have hsub : c.trace ⊆ (c.deliverPopped packet rest).trace := by
      rw [deliverPopped_trace]
      exact List.subset_append_left _ _
    refine ⟨?_, ?_⟩
    · rw [deliverPopped_recvBuffer]
      exact fun q hq' => (hq.stored q (hrest q hq')).mono hsub
    · rw [deliverPopped_popped]
      intro q hq'
      rcases List.mem_append.mp hq' with hq' | hq'
      · exact (hq.popped q hq').mono hsub
      · rw [List.mem_singleton.mp hq']
        exact (hq.stored packet hp).mono hsub
  skip c first last hq _ := by
    refine ⟨?_, ?_⟩
    · rw [skipRange_recvBuffer, skipRange_trace]
      exact fun p hp => hq.stored p (RecvBuffer.mem_of_mem_dropRange hp)
    · rw [skipRange_trace]
      exact hq.popped
  connects c negotiated now _ hq := by
    obtain ⟨-, hbuffer, -, -, -, htrace⟩ := enterConnected_data c negotiated now
    refine ⟨?_, ?_⟩
    · rw [hbuffer]
      simp [RecvBuffer.new]
    · rw [htrace]
      exact hq.popped

end Connection

namespace Session

/-- While no packet handed over says it is not encrypted, every payload stored is the output of
a decryption, and every message delivered is put together from such outputs. -/
theorem stored_and_delivered_authentic (P : Primitives) (s : Session) (hs : Started P s)
    (inputs : List (Call × Instant))
    (hflag : Runs.Meets (step P)
      (fun s input => ∀ x ∈ s.conn.handed P input.1 input.2, x.2.encryption ≠ .none) s inputs) :
    (∀ packet, some packet ∈ (Runs.run (step P) s inputs).conn.rx.recvBuffer.slots →
        Authentic P (Runs.run (step P) s inputs).conn.trace packet) ∧
      ∀ message ∈ messages (Runs.run (step P) s inputs).pushed, ∃ packets : List DataPacket,
        message = (packets.map (·.payload)).flatten ∧
          ∀ packet ∈ packets, Authentic P (Runs.run (step P) s inputs).conn.trace packet := by
  have hstart : s.conn.Vetted P := by
    obtain ⟨hrx, -, hpopped⟩ := hs.empty
    refine ⟨?_, ?_⟩
    · rw [hrx]
      simp [Receiver.new, RecvBuffer.new]
    · simp [hpopped]
  have hvetted := run_receipt (Connection.vetted_receipt P) (fun _ hq => ⟨hq.stored, hq.popped⟩)
    hstart hflag
  refine ⟨hvetted.stored, fun message hm => ?_⟩
  have hdelivers := (run_delivers hs inputs).messages
  rw [pushed, messages, List.filterMap_append] at hm
  change message ∈ messages _ ++ messages _ at hm
  rw [hdelivers] at hm
  obtain ⟨packets, hsub, rfl⟩ := Reassembler.pushAll_payloads _ ⟨[], List.nil_subset [], rfl⟩ message hm
  exact ⟨packets, rfl, fun p hp => hvetted.popped p (by simpa using hsub hp)⟩

/-! ## Sample sessions -/

/-- A configuration with the recorded passphrase. -/
def sealedConfig (cipher : CipherMode) : Config :=
  { Config.default with encryption := some ⟨Recorded.passphrase, .aes128, cipher⟩ }

/-- The conclusion of a caller with the recorded salt and first stream key. -/
def sealedConclusion (cipher : CipherMode) : Handshake :=
  (Connection.connect Recorded.primitives (sealedConfig cipher) ⟨1⟩ (SeqNumber.new 0) 0 Recorded.salt
    (Recorded.pad (Recorded.sek 0))).conclusion

def sealedAcceptor (cipher : CipherMode) : Session :=
  accepting Recorded.primitives (sealedConfig cipher) (sealedConclusion cipher)

theorem sealedAcceptor_started (cipher : CipherMode) :
    Started Recorded.primitives (sealedAcceptor cipher) :=
  accepting_started (by cases cipher <;> decide +kernel)

/-- A caller's packet with the given key flag. -/
def flaggedData (seq : ℕ) (encryption : Encryption) (payload : Bytes) : Call :=
  .feedRecvBuf
    ({ seq := SeqNumber.new (UInt32.ofNat seq), position := .single, inOrder := true, encryption
       retransmitted := false, messageNumber := MsgNumber.new 1, timestamp := ⟨0⟩
       destSocketId := ⟨2⟩, payload } : DataPacket).encode

/-- One packet delivered and one buffered, both encrypted by the caller under AES-CTR. -/
theorem delivered_authentic_ctr :
    (∀ packet, some packet ∈ (Runs.run (step Recorded.primitives) (sealedAcceptor .ctr)
          [(flaggedData 0 .even [224, 22], 0), (.handleTimer .tsbpd, 120000000),
            (flaggedData 2 .even [101, 161], 120000000)]).conn.rx.recvBuffer.slots →
        Authentic Recorded.primitives (Runs.run (step Recorded.primitives) (sealedAcceptor .ctr)
          [(flaggedData 0 .even [224, 22], 0), (.handleTimer .tsbpd, 120000000),
            (flaggedData 2 .even [101, 161], 120000000)]).conn.trace packet) ∧
      ∀ message ∈ messages (Runs.run (step Recorded.primitives) (sealedAcceptor .ctr)
          [(flaggedData 0 .even [224, 22], 0), (.handleTimer .tsbpd, 120000000),
            (flaggedData 2 .even [101, 161], 120000000)]).pushed, ∃ packets : List DataPacket,
        message = (packets.map (·.payload)).flatten ∧
          ∀ packet ∈ packets, Authentic Recorded.primitives
            (Runs.run (step Recorded.primitives) (sealedAcceptor .ctr)
              [(flaggedData 0 .even [224, 22], 0), (.handleTimer .tsbpd, 120000000),
                (flaggedData 2 .even [101, 161], 120000000)]).conn.trace packet :=
  stored_and_delivered_authentic Recorded.primitives (sealedAcceptor .ctr) (sealedAcceptor_started .ctr) _
    (by decide +kernel)

/-- An acceptor that holds AES-GCM keys delivers a packet that was never encrypted. -/
theorem delivered_unencrypted :
    Started Recorded.primitives (sealedAcceptor .gcm) ∧
      (sealedAcceptor .gcm).conn.keys.crypto.isSome ∧
      messages (Runs.run (step Recorded.primitives) (sealedAcceptor .gcm)
        [(flaggedData 0 .none [7], 0), (.handleTimer .tsbpd, 120000000)]).pushed = [[7]] ∧
      (Runs.run (step Recorded.primitives) (sealedAcceptor .gcm)
        [(flaggedData 0 .none [7], 0), (.handleTimer .tsbpd, 120000000)]).conn.trace
        = [.popped
          { seq := SeqNumber.new 0, position := .single, inOrder := true, encryption := .none
            retransmitted := false, messageNumber := MsgNumber.new 1, timestamp := ⟨0⟩
            destSocketId := ⟨2⟩, payload := [7] }] :=
  ⟨sealedAcceptor_started .gcm, by decide +kernel, by decide +kernel, by decide +kernel⟩

end Session

end Srtrust
