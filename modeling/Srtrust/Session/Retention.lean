import Srtrust.Session.Reception

/-! # What a receiver retains

`insert_data` refuses a packet once buffered packets and queued events fill the flow window.
That bounds the packets and messages held at any time. It bounds neither the slots that a
far-ahead packet opens nor the fragments of a message that never ends. -/
namespace Srtrust
open BigEndian
set_option autoImplicit false

theorem Reassembler.push_fragments_le (r : Reassembler) (packet : DataPacket) :
    (r.push packet).2.fragments.length ≤ r.fragments.length + 1 := by
  unfold push
  split
  · simp [empty]
  · simp
  · split <;> simp [empty]
  · split <;> simp [empty]

namespace Connection

theorem occupancy_lt_of_available {c : Connection} (h : c.availableRecvBuffer ≠ 0) :
    c.rx.recvBuffer.occupancy + c.events.length < c.config.flowWindow.toNat := by
  have hw := c.config.flowWindow.toNat_lt
  unfold availableRecvBuffer clampU32 at h
  omega

/-! ## Packets and messages -/

/-- Packets present in the buffer and messages not yet polled. -/
def retained (c : Connection) : ℕ :=
  c.rx.recvBuffer.slots.countP Option.isSome + (messages c.events).length

theorem retained_eq (c : Connection) :
    c.retained = c.rx.recvBuffer.received + (messages c.events).length := by
  rw [retained, RecvBuffer.received_eq]

theorem retained_receipt (P : Primitives) :
    Receipt P (fun _ _ => True) (fun _ _ => True) fun c => c.retained ≤ c.config.flowWindow.toNat where
  quiet c c' h hq := by
    rw [retained_eq] at hq ⊢
    rwa [h.recvBuffer, h.messages, h.config]
  store c data result _ _ havail _ hnew := by
    have hlt := occupancy_lt_of_available havail
    have hm : (messages c.events).length ≤ c.events.length := List.length_filterMap_le _ _
    obtain ⟨-, -, -, hreceived, -⟩ := RecvBuffer.insert_spec _ _ hnew
    rw [retained_eq, setRecvBuffer_recvBuffer, setRecvBuffer_events, setRecvBuffer_config, hreceived]
    simp only [RecvBuffer.occupancy, record] at hlt ⊢
    omega
  pop c packet rest hq hpop := by
    have hreceived := RecvBuffer.pop_received _ _ _ hpop
    have hone : (c.rx.reassembler.push packet).1.toList.length ≤ 1 := by
      cases (c.rx.reassembler.push packet).1 <;> simp
    rw [retained_eq] at hq ⊢
    rw [deliverPopped_recvBuffer, deliverPopped_messages, deliverPopped_config, List.length_append]
    omega
  skip c first last hq _ := by
    have hle := c.rx.recvBuffer.dropRange_received_le first last
    rw [retained_eq] at hq ⊢
    rw [skipRange_recvBuffer, skipRange_events, skipRange_config]
    omega
  connects c negotiated now _ hq := by
    obtain ⟨hconfig, hbuffer, -, -, hevents, -⟩ := enterConnected_data c negotiated now
    rw [retained_eq] at hq ⊢
    rw [hbuffer, hevents, hconfig, messages_connected]
    simp only [RecvBuffer.new]
    omega

/-! ## Slots and fragments -/

/-- The slots and the fragments held fit the window, and so do fragments and buffered packets
together. -/
structure Spans (c : Connection) : Prop where
  slots : c.rx.recvBuffer.slots.length ≤ c.config.flowWindow.toNat
  fragments : c.rx.reassembler.fragments.length + c.rx.recvBuffer.received ≤ c.config.flowWindow.toNat

/-- A packet that lands inside the window beyond the buffer's base, while the fragments and
packets held leave room for one more. -/
def Near (c : Connection) (data : DataPacket) : Prop :=
  data.seq.offsetFrom c.rx.recvBuffer.base < c.config.flowWindow.toNat
    ∧ c.rx.reassembler.fragments.length + c.rx.recvBuffer.received < c.config.flowWindow.toNat

instance (c : Connection) (data : DataPacket) : Decidable (c.Near data) :=
  inferInstanceAs (Decidable (_ ∧ _))

theorem spans_receipt (P : Primitives) : Receipt P Near (fun _ _ => True) Spans where
  quiet c c' h hq := by
    refine ⟨?_, ?_⟩
    · rw [h.recvBuffer, h.config]
      exact hq.slots
    · rw [h.recvBuffer, h.reassembler, h.config]
      exact hq.fragments
  store c data result hq hnear _ hopen hnew := by
    obtain ⟨hpos, -, -, hreceived, hslots⟩ := RecvBuffer.insert_spec _ _ hnew
    have hseq := openPacket_seq hopen
    obtain ⟨hoffset, hroom⟩ := hnear
    refine ⟨?_, ?_⟩
    · have := hq.slots
      rw [hseq] at hpos hslots
      rw [setRecvBuffer_recvBuffer, setRecvBuffer_config, hslots, RecvBuffer.length_resize_set]
      simp only [record]
      omega
    · rw [setRecvBuffer_recvBuffer, setRecvBuffer_reassembler, setRecvBuffer_config, hreceived]
      simp only [record]
      omega
  pop c packet rest hq hpop := by
    have hreceived := RecvBuffer.pop_received _ _ _ hpop
    obtain ⟨-, hslots, -, -⟩ := RecvBuffer.pop_spec _ _ _ hpop
    have hpush := c.rx.reassembler.push_fragments_le packet
    obtain ⟨hq1, hq2⟩ := hq
    refine ⟨?_, ?_⟩
    · rw [deliverPopped_recvBuffer, deliverPopped_config, hslots, List.length_drop]
      omega
    · rw [deliverPopped_recvBuffer, deliverPopped_reassembler, deliverPopped_config]
      omega
  skip c first last hq _ := by
    have hle := c.rx.recvBuffer.dropRange_received_le first last
    have hlen : (c.rx.recvBuffer.dropRange first last).slots.length ≤ c.rx.recvBuffer.slots.length := by
      rcases c.rx.recvBuffer.dropRange_cases first last with h | ⟨n, -, -, h, -⟩
      · rw [h]
      · rw [h, List.length_drop]
        omega
    obtain ⟨hq1, hq2⟩ := hq
    refine ⟨?_, ?_⟩
    · rw [skipRange_recvBuffer, skipRange_config]
      omega
    · rw [skipRange_recvBuffer, skipRange_reassembler, skipRange_config]
      omega
  connects c negotiated now _ hq := by
    obtain ⟨hconfig, hbuffer, hreassembler, -⟩ := enterConnected_data c negotiated now
    have hfragments := hq.fragments
    refine ⟨?_, ?_⟩
    · rw [hbuffer]
      exact Nat.zero_le _
    · rw [hbuffer, hreassembler, hconfig]
      simp only [RecvBuffer.new]
      omega

end Connection

namespace Session

/-- Buffered packets and undelivered messages never exceed the flow window, whatever the peer
sends and however slowly the application polls. -/
theorem retained_le_flowWindow (P : Primitives) (s : Session) (hs : Started P s)
    (inputs : List (Call × Instant)) :
    (Runs.run (step P) s inputs).conn.rx.recvBuffer.slots.countP Option.isSome
        + (messages (Runs.run (step P) s inputs).conn.events).length
      ≤ (Runs.run (step P) s inputs).conn.config.flowWindow.toNat := by
  have hpoll : ∀ c : Connection, c.retained ≤ c.config.flowWindow.toNat →
      ({ c with events := c.events.drop 1 } : Connection).retained ≤ c.config.flowWindow.toNat := by
    intro c hq
    have hsub : (messages (c.events.drop 1)).length ≤ (messages c.events).length :=
      ((List.drop_sublist 1 c.events).filterMap _).length_le
    rw [Connection.retained_eq] at hq ⊢
    exact (Nat.add_le_add_left hsub _).trans hq
  refine run_receipt (Connection.retained_receipt P) hpoll ?_ ?_
  · obtain ⟨hrx, hm, -⟩ := hs.empty
    rw [Connection.retained_eq, hrx, hm]
    exact Nat.zero_le _
  · exact Runs.meets_of_forall (fun _ _ _ _ => trivial) s inputs

/-- Two messages held back and one lost packet between them. -/
theorem retained_two_messages :
    (Runs.run (step Primitives.absent) plainAcceptor
        [(plainData 0 .single, 0), (plainData 2 .single, 0)]).conn.rx.recvBuffer.slots.countP Option.isSome
      + (messages (Runs.run (step Primitives.absent) plainAcceptor
        [(plainData 0 .single, 0), (plainData 2 .single, 0)]).conn.events).length
      ≤ (Runs.run (step Primitives.absent) plainAcceptor
        [(plainData 0 .single, 0), (plainData 2 .single, 0)]).conn.config.flowWindow.toNat :=
  retained_le_flowWindow Primitives.absent plainAcceptor plainAcceptor_started _

/-- While every packet handed over lands inside the window and leaves room for the fragments
held, the slots and the fragments stay within the window. -/
theorem storage_le_flowWindow (P : Primitives) (s : Session) (hs : Started P s)
    (inputs : List (Call × Instant))
    (hnear : Runs.Meets (step P)
      (fun s input => ∀ x ∈ s.conn.handed P input.1 input.2, x.1.Near x.2) s inputs) :
    (Runs.run (step P) s inputs).conn.rx.recvBuffer.slots.length
        ≤ (Runs.run (step P) s inputs).conn.config.flowWindow.toNat ∧
      (Runs.run (step P) s inputs).conn.rx.reassembler.fragments.length
        ≤ (Runs.run (step P) s inputs).conn.config.flowWindow.toNat := by
  have hstart : s.conn.Spans := by
    obtain ⟨hrx, -⟩ := hs.empty
    constructor <;> rw [hrx] <;> exact Nat.zero_le _
  have hspans := run_receipt (Connection.spans_receipt P)
    (fun _ hq => ⟨hq.slots, hq.fragments⟩) hstart hnear
  exact ⟨hspans.slots, (Nat.le_add_right _ _).trans hspans.fragments⟩

theorem storage_two_packets :
    (Runs.run (step Primitives.absent) plainAcceptor
        [(plainData 0 .first, 0), (plainData 2 .last, 0)]).conn.rx.recvBuffer.slots.length
      ≤ (Runs.run (step Primitives.absent) plainAcceptor
        [(plainData 0 .first, 0), (plainData 2 .last, 0)]).conn.config.flowWindow.toNat ∧
    (Runs.run (step Primitives.absent) plainAcceptor
        [(plainData 0 .first, 0), (plainData 2 .last, 0)]).conn.rx.reassembler.fragments.length
      ≤ (Runs.run (step Primitives.absent) plainAcceptor
        [(plainData 0 .first, 0), (plainData 2 .last, 0)]).conn.config.flowWindow.toNat :=
  storage_le_flowWindow Primitives.absent plainAcceptor plainAcceptor_started _ (by decide +kernel)

/-- The smallest window. -/
def narrowConfig : Config := { Config.default with flowWindow := 32 }

def narrowAcceptor : Session := acceptorWith narrowConfig

theorem narrowAcceptor_started : Started Primitives.absent narrowAcceptor :=
  accepting_started (by decide +kernel)

/-- A message of forty fragments without an end, played out twenty at a time. -/
def endlessMessage : List (Call × Instant) :=
  (plainData 0 .first, 0) :: (List.range 19).map (fun i => (plainData (i + 1) .middle, 0))
    ++ (.handleTimer .tsbpd, 120000000)
    :: (List.range 20).map (fun i => (plainData (i + 20) .middle, 120000000))

/-- One packet ahead of the window takes more slots than the window has, and a message that does
not end more fragments. -/
theorem storage_exceeds_flowWindow :
    Started Primitives.absent narrowAcceptor ∧
      narrowAcceptor.conn.config.validate = .ok () ∧
      narrowAcceptor.conn.config.flowWindow = 32 ∧
      (Runs.run (step Primitives.absent) narrowAcceptor
        [(plainData 40 .single, 0)]).conn.rx.recvBuffer.slots.length = 41 ∧
      Runs.Meets (step Primitives.absent) Legal narrowAcceptor endlessMessage ∧
      (Runs.run (step Primitives.absent) narrowAcceptor
        endlessMessage).conn.rx.reassembler.fragments.length = 40 :=
  ⟨narrowAcceptor_started, by decide +kernel, by decide +kernel, by decide +kernel, by decide +kernel,
    by decide +kernel⟩

end Session

end Srtrust
