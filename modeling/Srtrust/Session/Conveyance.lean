import Srtrust.Session.Pair
import Srtrust.Session.ActionEffects
import Srtrust.Session.Accounting
import Srtrust.Buffers.Loss

/-! # What one end delivers of what the other accepted

Without encryption and FEC, every data packet that reaches an end is an original of the other end, sent for
the first time or again, and a drop request names originals. The receive buffer then holds originals at
their own places, and what is taken out of it is a sublist of them. -/
namespace Srtrust
open BigEndian
set_option autoImplicit false

/-- A data packet as it was sent for the first time. -/
def DataPacket.firstSent (p : DataPacket) : DataPacket := { p with retransmitted := false }

theorem DataPacket.firstSent_seq (p : DataPacket) : p.firstSent.seq = p.seq := rfl

/-- Reassembly does not look at the retransmission flag. -/
theorem Reassembler.pushAll_firstSent (r : Reassembler) (ps : List DataPacket) :
    r.pushAll (ps.map DataPacket.firstSent) = r.pushAll ps := by
  induction ps generalizing r with
  | nil => rfl
  | cons p ps ih =>
    have hpush : r.push p.firstSent = r.push p := rfl
    rw [List.map_cons, pushAll, pushAll, hpush, ih]

/-! ## The first packet missing -/

namespace RecvBuffer

theorem le_contiguous_iff (b : RecvBuffer) (k : ℕ) :
    k ≤ b.contiguous ↔ ∀ i < k, ∃ packet, b.slots[i]? = some (some packet) := by
  obtain ⟨hpresent, hend⟩ := b.contiguous_spec
  refine ⟨fun hk i hi => hpresent i (by omega), fun h => ?_⟩
  by_contra hk
  obtain ⟨packet, hat⟩ := h b.contiguous (by omega)
  rcases hend with hnone | hlen
  · rw [hat] at hnone
    cases hnone
  · have := (List.getElem?_eq_some_iff.mp hat).1
    omega

/-- A new packet takes no other away. -/
theorem contiguous_insert_le {b : RecvBuffer} {p : DataPacket} (h : (b.insert p).1 = true) :
    b.contiguous ≤ (b.insert p).2.contiguous := by
  obtain ⟨-, -, -, -, hslots⟩ := b.insert_spec p h
  rw [le_contiguous_iff]
  intro i hi
  obtain ⟨packet, hat⟩ := (b.le_contiguous_iff _).mp le_rfl i hi
  have hlt := (List.getElem?_eq_some_iff.mp hat).1
  rw [hslots, getElem?_resize_set]
  split_ifs
  · exact ⟨p, rfl⟩
  · exact ⟨packet, hat⟩

/-- Slots taken off the front move the rest up. -/
theorem contiguous_le_drop {b b' : RecvBuffer} {n : ℕ} (h : b'.slots = b.slots.drop n) :
    b.contiguous ≤ n + b'.contiguous := by
  have hrest : b.contiguous - n ≤ b'.contiguous := by
    rw [le_contiguous_iff]
    intro i hi
    rw [h, List.getElem?_drop]
    exact (b.le_contiguous_iff _).mp le_rfl (n + i) (by omega)
  omega

end RecvBuffer

namespace Connection

/-! ## The sending end -/

theorem Settles.originals {c c' : Connection} (h : Settles c c') : c'.originals = c.originals := by
  obtain ⟨ts, ht, hts⟩ := h.trace
  exact originals_append ht hts

theorem KeyStep.originals {c c' : Connection} (h : KeyStep c c') : c'.originals = c.originals := by
  obtain ⟨ts, ht, hts⟩ := h.grows.trace
  exact originals_append ht (panicked_not_isSent hts)

/-- The originals are numbered from `isn` on, up to the next sequence number. -/
structure Sequenced (isn : SeqNumber) (c : Connection) : Prop where
  numbered : Numbered isn c.originals
  next : c.tx.nextSendSeq = isn.add c.originals.length

theorem Sequenced.originates {isn : SeqNumber} {P : Primitives} {fragment : Fragment} {now : Instant}
    {stored : DataPacket} {calls : List Trace} {c c' : Connection}
    (h : Originates P fragment now stored calls c c') (hc : c.Sequenced isn) : c'.Sequenced isn := by
  have hnext : c'.tx.nextSendSeq = c.tx.nextSendSeq.next := by
    rw [h.tx]
    rfl
  refine ⟨?_, ?_⟩
  · rw [h.originals]
    intro i p hi
    by_cases hlt : i < c.originals.length
    · rw [List.getElem?_append_left hlt] at hi
      exact hc.numbered i p hi
    · have hend : i = c.originals.length := by
        have := (List.getElem?_eq_some_iff.mp hi).1
        rw [List.length_append, List.length_singleton] at this
        omega
      rw [hend, List.getElem?_concat_length] at hi
      obtain rfl := Option.some.inj hi
      rw [h.seq, hc.next, hend]
  · rw [hnext, hc.next, h.originals, List.length_append, List.length_singleton, SeqNumber.next_add]

theorem sequenced_dispatch (P : Primitives) (isn : SeqNumber) :
    Dispatch P (fun _ _ => True) (fun _ _ => True) (Sequenced isn) := by
  refine .ofKeyStep ?_ (fun _ _ _ _ _ _ h hc => hc.originates h) ?_
  · intro c c' h hc
    exact ⟨h.originals ▸ hc.numbered, by rw [h.nextSendSeq, h.originals]; exact hc.next⟩
  · intro c c' h hc
    exact ⟨h.originals ▸ hc.numbered, by rw [h.tx, h.originals]; exact hc.next⟩

/-- No encryption, and no FEC on the sending side. -/
structure Bare (c : Connection) : Prop where
  encryption : c.config.encryption = none
  crypto : c.keys.crypto = none
  fec : c.tx.fecSend.isSome = false

theorem bare_dispatch (P : Primitives) : Dispatch P (fun _ _ => True) (fun _ _ => True) Bare where
  settles c c' h hc := ⟨by rw [h.config]; exact hc.encryption, by rw [h.keys]; exact hc.crypto,
    by rw [h.fec]; exact hc.fec⟩
  originates c c' fragment now stored calls h hc := by
    refine ⟨?_, ?_, h.fec.trans hc.fec⟩
    · rw [config_of_ident h.ident]
      exact hc.encryption
    · rw [(h.plain hc.crypto).2.2.1]
      exact hc.crypto
  provideRekey c sek now _ hc := by
    have hsame : c.provideRekey P sek now = c := by
      unfold Connection.provideRekey
      rw [hc.encryption]
      split <;> rfl
    rw [hsame]
    exact hc
  kmReq c cif now _ hc := by
    have hsame : c.onKmReq P cif now = c := by
      unfold onKmReq
      rw [hc.encryption]
    rw [hsame]
    exact hc
  kmRsp c cif hc := by
    unfold onKmRsp
    split
    · exact ⟨hc.encryption, hc.crypto, hc.fec⟩
    · exact hc
  resend c now hc := by
    have h := resendPendingKm_keyStep c now
    refine ⟨by rw [config_of_ident h.ident]; exact hc.encryption, ?_, by rw [h.tx]; exact hc.fec⟩
    unfold resendPendingKm
    split
    · exact hc.crypto
    · split
      · exact hc.crypto
      · rw [emitKm_keys]
        exact hc.crypto
  peerFrame _ _ _ _ := trivial

/-! ## The receiving end -/

/-- An end that has received nothing, and expects `isn`. -/
structure Untouched (isn : SeqNumber) (c : Connection) : Prop where
  plain : c.rx.fecRecv.isSome = false
  base : c.rx.recvBuffer.base = isn
  slots : c.rx.recvBuffer.slots = []
  passed : c.passed = 0

theorem Untouched.quiet {isn : SeqNumber} {c c' : Connection} (h : c.Untouched isn) (hq : Quiet c c') :
    c'.Untouched isn :=
  ⟨hq.fec.trans h.plain, by rw [hq.recvBuffer]; exact h.base, by rw [hq.recvBuffer]; exact h.slots,
    hq.passed_eq.trans h.passed⟩

theorem deliverPopped_fecRecv (c : Connection) (packet : DataPacket) (rest : RecvBuffer) :
    (c.deliverPopped packet rest).rx.fecRecv = c.rx.fecRecv := by
  unfold deliverPopped deliverPacket
  dsimp only
  split <;> rfl

/-- How many packets of the peer's stream are received or given up, up to the first that is missing. -/
def reach (c : Connection) : ℕ := c.passed + c.rx.recvBuffer.contiguous

/-- The receive buffer holds packets of the stream at their places, and what was taken out of it is a sublist
of the part in front of its base. Before the handshake is over there is none. -/
structure Follows (isn : SeqNumber) (stream : List DataPacket) (c : Connection) : Prop where
  waits : ¬ c.Established → c.Untouched isn
  plain : c.rx.fecRecv.isSome = false
  reached : c.passed ≤ stream.length
  base : c.rx.recvBuffer.base = isn.add c.passed
  slots : ∀ i p, c.rx.recvBuffer.slots[i]? = some (some p) → stream[c.passed + i]? = some p.firstSent
  taken : ((popped c.trace).map DataPacket.firstSent).Sublist (stream.take c.passed)

namespace Follows

variable {isn : SeqNumber} {stream : List DataPacket} {c : Connection}

theorem mono (h : c.Follows isn stream) {stream' : List DataPacket} (hp : stream <+: stream') :
    c.Follows isn stream' := by
  obtain ⟨more, rfl⟩ := hp
  have hreached := h.reached
  refine ⟨h.waits, h.plain, ?_, h.base, ?_, ?_⟩
  · rw [List.length_append]
    omega
  · intro i p hi
    have hat := h.slots i p hi
    rw [List.getElem?_append_left (List.getElem?_eq_some_iff.mp hat).1]
    exact hat
  · rw [List.take_append_of_le_length hreached]
    exact h.taken

/-- The buffer ends within the stream. -/
theorem length_le (h : c.Follows isn stream) : c.passed + c.rx.recvBuffer.slots.length ≤ stream.length := by
  have hreached := h.reached
  by_cases hempty : c.rx.recvBuffer.slots = []
  · rw [hempty]
    exact hreached
  · have hpos := List.length_pos_iff.mpr hempty
    have hback := c.rx.recvBuffer.back_present
    obtain ⟨p, hp⟩ : ∃ p, c.rx.recvBuffer.slots[c.rx.recvBuffer.slots.length - 1]? = some (some p) := by
      rw [List.getElem?_eq_getElem (by omega)] at hback ⊢
      cases hat : c.rx.recvBuffer.slots[c.rx.recvBuffer.slots.length - 1] with
      | none => exact absurd (congrArg some hat) hback
      | some p => exact ⟨p, rfl⟩
    have := (List.getElem?_eq_some_iff.mp (h.slots _ p hp)).1
    omega

theorem reach_le (h : c.Follows isn stream) : c.reach ≤ stream.length :=
  (Nat.add_le_add_left c.rx.recvBuffer.contiguous_le _).trans h.length_le

/-- The ACK point is the number of the first packet missing. -/
theorem receivedAckPoint (h : c.Follows isn stream) :
    c.rx.recvBuffer.receivedAckPoint = isn.add c.reach := by
  rw [RecvBuffer.receivedAckPoint_eq, h.base, SeqNumber.add_add, reach]

/-- A packet before the first missing one is buffered or behind the base. -/
theorem reached_packet (h : c.Follows isn stream) {i : ℕ} (hi : i < c.reach) :
    i < c.passed ∨ ∃ q, some q ∈ c.rx.recvBuffer.slots ∧ stream[i]? = some q.firstSent := by
  by_cases hpassed : i < c.passed
  · exact .inl hpassed
  · have hwithin : i - c.passed < c.rx.recvBuffer.contiguous := by
      rw [reach] at hi
      omega
    obtain ⟨q, hq⟩ := (c.rx.recvBuffer.le_contiguous_iff _).mp le_rfl (i - c.passed) hwithin
    have hat := h.slots _ q hq
    rw [show c.passed + (i - c.passed) = i by omega] at hat
    exact .inr ⟨q, List.mem_of_getElem? hq, hat⟩

/-- Where a packet of the stream stands from the base. -/
theorem offsetFrom_base (h : c.Follows isn stream) (hlen : stream.length < 2 ^ 30) {j : ℕ} (hj : j < stream.length) :
    (isn.add j).offsetFrom c.rx.recvBuffer.base = (j : ℤ) - c.passed := by
  have hreached := h.reached
  rw [h.base]
  exact SeqNumber.offsetFrom_add isn j c.passed (by omega) (by omega)

theorem quiet (h : c.Follows isn stream) {c' : Connection} (hq : Quiet c c') : c'.Follows isn stream := by
  refine ⟨fun he => (h.waits (he ∘ hq.established)).quiet hq, hq.fec.trans h.plain, ?_, ?_, ?_, ?_⟩
  · rw [hq.passed_eq]
    exact h.reached
  · rw [hq.recvBuffer, hq.passed_eq]
    exact h.base
  · rw [hq.recvBuffer, hq.passed_eq]
    exact h.slots
  · rw [hq.popped, hq.passed_eq]
    exact h.taken

theorem place (h : c.Follows isn stream) (hs : c.Established) {buffer : RecvBuffer}
    (hbase : buffer.base = c.rx.recvBuffer.base)
    (hslots : ∀ i p, buffer.slots[i]? = some (some p) → stream[c.passed + i]? = some p.firstSent) :
    (c.setRecvBuffer buffer).Follows isn stream :=
  ⟨fun hnot => absurd hs hnot, h.plain, h.reached, hbase.trans h.base, hslots, h.taken⟩

/-- A packet of the stream is stored at its place. -/
theorem store (h : c.Follows isn stream) (hnum : Numbered isn stream) (hlen : stream.length < 2 ^ 30)
    (hs : c.Established) {data : DataPacket} (hmem : data.firstSent ∈ stream)
    (hnew : (c.rx.recvBuffer.insert data).1 = true) :
    (c.setRecvBuffer (c.rx.recvBuffer.insert data).2).Follows isn stream := by
  obtain ⟨hpos, -, hbase, -, hslots⟩ := RecvBuffer.insert_spec _ _ hnew
  obtain ⟨j, hj⟩ := List.mem_iff_getElem?.mp hmem
  have hoffset : data.seq.offsetFrom c.rx.recvBuffer.base = (j : ℤ) - c.passed := by
    rw [← data.firstSent_seq, hnum j _ hj]
    exact h.offsetFrom_base hlen (List.getElem?_eq_some_iff.mp hj).1
  refine h.place hs hbase ?_
  intro i p hi
  rw [hslots, RecvBuffer.getElem?_resize_set] at hi
  split_ifs at hi with hat hlt hgap
  · obtain rfl := Option.some.inj (Option.some.inj hi)
    rw [show c.passed + i = j by omega]
    exact hj
  · exact h.slots i p hi
  · cases Option.some.inj hi

/-- A packet taken out is the next one of the stream that is there. -/
theorem pop (h : c.Follows isn stream) (hlen : stream.length < 2 ^ 30) {packet : DataPacket} {rest : RecvBuffer}
    (hpop : c.rx.recvBuffer.pop = some (packet, rest)) : (c.deliverPopped packet rest).Follows isn stream := by
  obtain ⟨hat, hslots, -, -⟩ := RecvBuffer.pop_spec _ _ _ hpop
  have hspan := h.length_le
  obtain ⟨hbase, hpassed⟩ := deliverPopped_passed (by omega) hpop
  have hplace := h.slots _ packet hat
  have hlt := (List.getElem?_eq_some_iff.mp hplace).1
  have hstep := deliverPopped_rxStep c packet rest
  generalize c.rx.recvBuffer.firstPresent = f at hat hslots hbase hpassed hplace hlt
  refine ⟨?_, ?_, ?_, ?_, ?_, ?_⟩
  · rw [Established, hstep.link]
    intro hnot
    rw [(RecvBuffer.pop_eq_none_iff _).mpr (h.waits hnot).slots] at hpop
    cases hpop
  · rw [deliverPopped_fecRecv]
    exact h.plain
  · rw [hpassed]
    omega
  · rw [deliverPopped_recvBuffer, hbase, hpassed, h.base, SeqNumber.add_add]
  · intro i p hi
    rw [deliverPopped_recvBuffer, hslots, List.getElem?_drop] at hi
    rw [hpassed, Nat.add_assoc]
    exact h.slots _ p hi
  · have hone : [packet.firstSent].Sublist ((stream.drop c.passed).take (f + 1)) := by
      rw [List.singleton_sublist]
      refine List.mem_of_getElem? (i := f) ?_
      rw [List.getElem?_take_of_lt (Nat.lt_succ_self f), List.getElem?_drop]
      exact hplace
    rw [deliverPopped_popped, hpassed, List.map_append, List.take_add]
    exact h.taken.append hone

/-- How far a request to skip a range of the stream moves the buffer. -/
theorem skipped (h : c.Follows isn stream) (hnum : Numbered isn stream) (hlen : stream.length < 2 ^ 30)
    (first : SeqNumber) {last : SeqNumber} (hlast : last ∈ stream.map (·.seq)) :
    ∃ n, c.passed + n ≤ stream.length ∧ (c.skipRange first last).passed = c.passed + n
      ∧ (c.rx.recvBuffer.dropRange first last).slots = c.rx.recvBuffer.slots.drop n
      ∧ (c.rx.recvBuffer.dropRange first last).base = c.rx.recvBuffer.base.add n := by
  obtain ⟨p, hp, rfl⟩ := List.mem_map.mp hlast
  obtain ⟨j, hj⟩ := List.mem_iff_getElem?.mp hp
  have hjlt := (List.getElem?_eq_some_iff.mp hj).1
  have hreached := h.reached
  obtain ⟨n, hn, hle, hslots, hbase⟩ : ∃ n, n < 0x40000000 ∧ c.passed + n ≤ stream.length
      ∧ (c.rx.recvBuffer.dropRange first p.seq).slots = c.rx.recvBuffer.slots.drop n
      ∧ (c.rx.recvBuffer.dropRange first p.seq).base = c.rx.recvBuffer.base.add n := by
    by_cases hl : p.seq.circularCmp c.rx.recvBuffer.base = .less
    · exact ⟨0, by omega, hreached, by rw [RecvBuffer.dropRange, dif_pos hl]; rfl,
        by rw [RecvBuffer.dropRange, dif_pos hl, SeqNumber.add_zero]⟩
    · by_cases hf : first.circularCmp c.rx.recvBuffer.base = .greater
      · exact ⟨0, by omega, hreached, by rw [RecvBuffer.dropRange, dif_neg hl, if_pos hf]; rfl,
          by rw [RecvBuffer.dropRange, dif_neg hl, if_pos hf, SeqNumber.add_zero]⟩
      · obtain ⟨n, hn, hslots, hbase⟩ := RecvBuffer.dropRange_acts hl hf
        rw [hnum j p hj, h.offsetFrom_base hlen hjlt] at hn
        exact ⟨n, by omega, by omega, hslots, hbase⟩
  exact ⟨n, hle, skipRange_passed_add hn hbase, hslots, hbase⟩

/-- A range of the stream that is given up. -/
theorem skip (h : c.Follows isn stream) (hnum : Numbered isn stream) (hlen : stream.length < 2 ^ 30)
    (hs : c.Established) (first : SeqNumber) {last : SeqNumber} (hlast : last ∈ stream.map (·.seq)) :
    (c.skipRange first last).Follows isn stream := by
  have hlink : ∀ (c : Connection) b n, (c.replaceBuffer b n).link = c.link := fun _ _ _ => rfl
  have hfec : ∀ (c : Connection) b n, (c.replaceBuffer b n).rx.fecRecv = c.rx.fecRecv := fun _ _ _ => rfl
  obtain ⟨n, hle, hpassed, hslots, hbase⟩ := h.skipped hnum hlen first hlast
  refine ⟨?_, ?_, by omega, ?_, ?_, ?_⟩
  · rw [Established, skipRange, hlink]
    exact fun hnot => absurd hs hnot
  · rw [skipRange, hfec]
    exact h.plain
  · rw [skipRange_recvBuffer, hbase, hpassed, h.base, SeqNumber.add_add]
  · intro i q hi
    rw [skipRange_recvBuffer, hslots, List.getElem?_drop] at hi
    rw [hpassed, Nat.add_assoc]
    exact h.slots _ q hi
  · rw [skipRange_trace, hpassed]
    exact h.taken.trans (List.take_sublist_take_left (Nat.le_add_right _ _))

end Follows

end Connection

/-- What an end may hear from one whose originals are `stream`: those in the clear, requests to skip some of them,
and handshakes that name `isn`. -/
def Packet.Fits (isn : SeqNumber) (stream : List DataPacket) : Packet → Prop
  | .data p => p.firstSent ∈ stream ∧ p.encryption = .none
  | .control ctrl => (∀ message first last, ctrl.body = .dropReq message first last → last ∈ stream.map (·.seq))
    ∧ ∀ hs, ctrl.body = .handshake hs → hs.handshakeType = .conclusion → hs.initialSeq = isn

namespace Connection

/-- The first packet of the stream is the one expected. -/
theorem Untouched.follows {c : Connection} {isn : SeqNumber} (h : c.Untouched isn) (stream : List DataPacket) :
    c.Follows isn stream := by
  have hpopped : popped c.trace = [] := by
    have hpassed := h.passed
    rw [Connection.passed, Nat.add_eq_zero_iff] at hpassed
    exact List.length_eq_zero_iff.mp hpassed.1
  refine ⟨fun _ => h, h.plain, ?_, ?_, ?_, ?_⟩
  · rw [h.passed]
    exact Nat.zero_le _
  · rw [h.passed, SeqNumber.add_zero]
    exact h.base
  · intro i p hi
    rw [h.slots] at hi
    cases hi
  · rw [hpopped]
    exact List.nil_sublist _

/-- What an end keeps as long as it hears what fits the stream; what is received or given up stays so. -/
theorem Follows.keeps {P : Primitives} {isn : SeqNumber} {stream : List DataPacket} (hnum : Numbered isn stream)
    (hlen : stream.length < 2 ^ 30) {input : Option Packet}
    (hfits : ∀ packet, input = some packet → packet.Fits isn stream) (n : ℕ) :
    Act.Keeps P input (fun c => c.Follows isn stream ∧ n ≤ c.reach) := by
  have hquiet : ∀ c c', Quiet c c' → c'.reach = c.reach := by
    intro c c' h
    rw [reach, reach, h.passed_eq, h.recvBuffer]
  refine .ofReceiver (fun c c' h hq => ⟨hq.1.quiet h, hquiet c c' h ▸ hq.2⟩) ?_ ?_ ?_ ?_ ?_
  · intro c ⟨hq, hn⟩
    exact ⟨⟨fun hnot => ⟨hq.plain, (hq.waits hnot).base, (hq.waits hnot).slots, (hq.waits hnot).passed⟩, hq.plain,
      hq.reached, hq.base, hq.slots, hq.taken⟩, hn⟩
  · intro c heard data hinput hdata hstate hnew ⟨hq, hn⟩
    have hset : ∀ (c : Connection) b, (c.setRecvBuffer b).reach = c.passed + b.contiguous := fun _ _ => rfl
    have hmore := RecvBuffer.contiguous_insert_le hnew
    obtain ⟨hmem, hclear⟩ := hfits _ hinput
    obtain ⟨calls, hopen⟩ := hdata (by simpa using hq.plain)
    have hsame : data = heard := by
      unfold openPacket at hopen
      rw [hclear] at hopen
      exact (congrArg Prod.fst (Option.some.inj hopen)).symm
    refine ⟨hq.store hnum hlen (.inl hstate) (hsame ▸ hmem) hnew, ?_⟩
    rw [hset]
    exact hn.trans (Nat.add_le_add_left hmore _)
  · intro c packet rest hpop ⟨hq, hn⟩
    obtain ⟨-, hslots, -, -⟩ := RecvBuffer.pop_spec _ _ _ hpop
    have hspan := hq.length_le
    obtain ⟨-, hpassed⟩ := deliverPopped_passed (by omega) hpop
    have hrest := RecvBuffer.contiguous_le_drop hslots
    refine ⟨hq.pop hlen hpop, ?_⟩
    rw [reach] at hn
    rw [reach, hpassed, deliverPopped_recvBuffer]
    omega
  · intro c ctrl message first last hinput hbody hstate ⟨hq, hn⟩
    have hlast := (hfits _ hinput).1 message first last hbody
    obtain ⟨k, -, hpassed, hslots, -⟩ := hq.skipped hnum hlen first hlast
    have hrest := RecvBuffer.contiguous_le_drop hslots
    refine ⟨hq.skip hnum hlen (.inl hstate) first hlast, ?_⟩
    rw [reach] at hn
    rw [reach, hpassed, skipRange_recvBuffer]
    omega
  · intro c ctrl hs now hinput hbody htype hstate ⟨hq, hn⟩
    have hwaits := hq.waits (by simp [Established, hstate])
    have hseq := (hfits _ hinput).2 hs hbody htype
    have huntouched : (c.enterConnected (negotiate c.config.latency hs) now).Untouched isn :=
      ⟨hwaits.plain, hseq, rfl, hwaits.passed⟩
    refine ⟨huntouched.follows stream, ?_⟩
    have hzero : c.reach = 0 := by
      rw [reach, hwaits.passed, RecvBuffer.contiguous, hwaits.slots]
      rfl
    omega

/-- Until the handshake is over nothing is received. -/
theorem untouched_keeps (P : Primitives) (isn : SeqNumber) (input : Option Packet) :
    Act.Keeps P input (fun c => ¬ c.Established → c.Untouched isn) := by
  refine .ofReceiver (fun c c' h hq hnot => (hq (hnot ∘ h.established)).quiet h) ?_ ?_ ?_ ?_ ?_
  · intro c hq hnot
    exact ⟨(hq hnot).plain, (hq hnot).base, (hq hnot).slots, (hq hnot).passed⟩
  · intro c heard data _ _ hstate _ _ hnot
    have hlink : ∀ (c : Connection) b, (c.setRecvBuffer b).link = c.link := fun _ _ => rfl
    rw [Established, hlink] at hnot
    exact absurd (.inl hstate) hnot
  · intro c packet rest hpop hq hnot
    rw [Established, (deliverPopped_rxStep c packet rest).link] at hnot
    rw [(RecvBuffer.pop_eq_none_iff _).mpr (hq hnot).slots] at hpop
    cases hpop
  · intro c ctrl message first last _ _ hstate _ hnot
    have hlink : ∀ (c : Connection) b n, (c.replaceBuffer b n).link = c.link := fun _ _ _ => rfl
    rw [Established, skipRange, hlink] at hnot
    exact absurd (.inl hstate) hnot
  · intro c ctrl hs now _ _ _ _ _ hnot
    exact absurd (.inl rfl) hnot

/-! ## Fresh connections -/

section Fresh

variable {c : Connection}

theorem Fresh.originals (h : c.Fresh) : c.originals = [] := by
  apply List.filterMap_eq_nil_iff.mpr
  intro t ht
  rw [h.history t ht]

theorem Fresh.sequenced (h : c.Fresh) : c.Sequenced c.initialSeq := by
  refine ⟨?_, ?_⟩
  · rw [h.originals]
    intro i p hi
    cases hi
  · rw [h.originals, h.tx, List.length_nil, SeqNumber.add_zero]
    rfl

theorem Fresh.bare (h : c.Fresh) (henc : c.config.encryption = none) (hcrypto : c.keys.crypto = none)
    (hfec : c.config.fec = none) : c.Bare := by
  refine ⟨henc, hcrypto, ?_⟩
  rw [h.tx, Sender.new, hfec]
  rfl

theorem Fresh.untouched (h : c.Fresh) (hfec : c.config.fec = none) : c.Untouched c.initialSeq := by
  refine ⟨?_, ?_, ?_, ?_⟩
  · rw [h.rx, Receiver.new, hfec]
    rfl
  · rw [h.rx]
    rfl
  · rw [h.rx]
    rfl
  · have hpopped : popped c.trace = [] := by
      refine popped_eq_nil fun t ht => ?_
      rw [h.history t ht]
      exact id
    rw [passed, hpopped, h.rx]
    rfl

end Fresh

end Connection

/-! ## What the network brings -/

namespace Session
open Connection

variable {P : Primitives} {s : Session}

theorem step_dispatch {own peer : Connection → Bytes → Prop} {Q : Connection → Prop} (h : Dispatch P own peer Q)
    {input : Call × Instant} (hq : Q s.conn) (hok : s.conn.KeyOk own peer input.1) : Q (s.step P input).conn :=
  h.settles (s.conn.perform P input.1 input.2) _ (.same rfl rfl rfl rfl) (h.perform input.1 input.2 hq hok)

/-- Originals are never taken back. -/
theorem originals_grow (P : Primitives) (s : Session) (call : Call) (now : Instant) :
    s.conn.originals <+: (s.step P (call, now)).conn.originals := by
  have hkeeps : Act.Keeps P call.packet (fun c => s.conn.originals <+: c.originals) := by
    refine .ofSender ?_ ?_ (fun c ctrl ack _ _ hq => hq) (fun c now hq => hq)
    · intro c c' h hc
      rw [h.originals]
      exact hc
    · intro c c' fragment now stored calls h hc
      rw [h.originals]
      exact hc.trans (List.prefix_append _ _)
  exact @step_keeps P _ s (call, now) hkeeps List.prefix_rfl

theorem Reached.traced (h : s.Reached P) : ∃ sent, s.Traced sent := by
  obtain ⟨s₀, inputs, hstarted, rfl⟩ := h
  exact run_traced hstarted inputs

/-- Originals of an end without encryption are first transmissions in the clear. -/
theorem Traced.original {sent : List (ℕ × Bytes)} (h : s.Traced sent) (hb : s.conn.Bare) {p : DataPacket}
    (hp : p ∈ s.conn.originals) : p.firstSent = p ∧ p.encryption = .none := by
  obtain ⟨carried, waiting, -, -, -, hcarried⟩ := h.manifest.fragments
  have hall : ∀ p ∈ s.conn.originals, p.firstSent = p ∧ p.encryption = .none := by
    have hflip : List.Forall₂
        (fun (p : DataPacket) (_ : ℕ × Fragment) => (p.firstSent = p ∧ p.encryption = .none) ∧ True)
        s.conn.originals carried := by
      refine hcarried.flip.imp ?_
      intro p f hf
      refine ⟨⟨?_, (hf.payload hb.crypto).1⟩, trivial⟩
      rw [DataPacket.firstSent, ← hf.original]
    exact ((List.forall₂_and_left _ _).mp hflip).1
  exact hall p hp

/-- A data packet that an end without encryption and FEC has sent. -/
theorem Reached.sent_data (h : s.Reached P) (hb : s.conn.Bare) {d : Bytes} (hd : d ∈ s.emitted) {p : DataPacket}
    (hdec : Packet.decode d = .ok (.data p)) : p.firstSent ∈ s.conn.originals ∧ p.encryption = .none := by
  obtain ⟨sent, htraced⟩ := h.traced
  rcases (htraced.manifest.said d (.inl hd)).data hdec with ⟨hfec, -⟩ | ⟨original, hm, hp⟩
  · rw [hb.fec] at hfec
    cases hfec
  · obtain ⟨hfirst, hclear⟩ := htraced.original hb hm
    rcases hp with rfl | rfl
    · rw [hfirst]
      exact ⟨hm, hclear⟩
    · refine ⟨?_, hclear⟩
      change original.firstSent ∈ _
      rw [hfirst]
      exact hm

/-- The originals of an end without encryption, as messages that are all out and the beginning of the next. -/
theorem Traced.spelled {sent : List (ℕ × Bytes)} (h : s.Traced sent) (hb : s.conn.Bare) :
    ∃ (messages : List Spelled) (tail : List DataPacket), s.conn.originals = Parcel.stream messages ++ tail
      ∧ messages.map (·.payload) <+: s.accepted
      ∧ (∀ p ∈ tail, p.position = .first ∨ p.position = .middle)
      ∧ (s.conn.tx.sendQueue = [] → tail = [] ∧ messages.map (·.payload) = s.accepted) := by
  obtain ⟨carried, waiting, -, hall, hqueue, hcarried⟩ := h.manifest.fragments
  let plan : List (Bytes × List (PacketPosition × Bytes)) := sent.zipIdx.map fun m =>
    (m.1.2, (fragmentPayload m.1.1 m.1.2 (messageCounter m.2)).map Fragment.part)
  have hplan : ∀ m ∈ plan, Spells m.1 m.2 := by
    intro m hm
    obtain ⟨x, hx, rfl⟩ := List.mem_map.mp hm
    exact (fragmentPayload_spells _ _ (h.manifest.sizes x.1 (List.fst_mem_of_mem_zipIdx hx)).1).1
  have hpayloads : plan.map (·.1) = s.accepted := by
    conv_rhs => rw [← h.accepted, ← List.zipIdx_map_fst 0 sent, List.map_map]
    rw [List.map_map]
    rfl
  have hparts : s.conn.originals.map DataPacket.part = carried.map (·.2.part) := by
    have hall : List.Forall₂ Eq (s.conn.originals.map DataPacket.part) (carried.map (·.2.part)) := by
      refine List.forall₂_map_left_iff.mpr (List.forall₂_map_right_iff.mpr (hcarried.flip.imp ?_))
      intro p f hf
      exact Prod.ext hf.position (hf.payload hb.crypto).2
    rwa [List.forall₂_eq_eq_eq] at hall
  have hstream : s.conn.originals.map DataPacket.part ++ waiting.map (·.2.part) = plan.flatMap (·.2) := by
    rw [hparts, ← List.map_append, hall (.inr hb.crypto), outgoing, List.map_flatMap, List.flatMap_map]
    simp only [List.map_map]
    rfl
  obtain ⟨messages, tail, hsent, hprefix, htail, hdone⟩ := Spelled.exists_cut hplan hstream
  refine ⟨messages, tail, hsent, hpayloads ▸ hprefix, htail, fun hempty => ?_⟩
  have hwaiting : waiting = [] := by
    rw [hempty] at hqueue
    exact List.map_eq_nil_iff.mp hqueue
  rw [← hpayloads]
  exact hdone (by rw [hwaiting]; rfl)

/-- What was pushed is what the packets taken out complete. -/
theorem Reached.delivers (h : s.Reached P) :
    messages s.pushed = (Reassembler.empty.pushAll (popped s.conn.trace)).1 := by
  obtain ⟨s₀, inputs, hstarted, rfl⟩ := h
  rw [← (run_delivers hstarted inputs).messages, pushed, messages, List.filterMap_append]
  rfl

/-- A drop request that an end has sent. -/
theorem Reached.sent_dropReq (h : s.Reached P) {d : Bytes} (hd : d ∈ s.emitted) {ctrl : ControlPacket}
    (hdec : Packet.decode d = .ok (.control ctrl)) {message : UInt32} {first last : SeqNumber}
    (hbody : ctrl.body = .dropReq message first last) : last ∈ s.conn.originals.map (·.seq) := by
  obtain ⟨sent, htraced⟩ := h.traced
  have hsaid := (htraced.manifest.said d (.inl hd)).control (fun ctrl hc => hc.1) hdec
    (by rw [hbody]; exact fun _ he => ControlBody.noConfusion he)
  exact (hsaid.2 message first last hbody).2

end Session

/-! ## The pair -/

namespace Pair
open Connection

/-- Both ends without encryption and FEC, each numbering its originals from the common initial sequence
number, and each with what it gets of the other's. -/
structure Sound (P : Primitives) (c₀ a₀ : Connection) (p : Pair) : Prop where
  kept : p.Kept P c₀ a₀
  bare : ∀ side, (p.party side).conn.Bare
  sequenced : ∀ side, (p.party side).conn.Sequenced c₀.initialSeq
  follows : ∀ side, (p.party side.other).conn.originals.length < 2 ^ 30 →
    (p.party side).conn.Follows c₀.initialSeq (p.party side.other).conn.originals

section Step

variable {P : Primitives} {c₀ a₀ : Connection} {p : Pair}

/-- What the network brings fits the originals of the other end. -/
theorem Sound.fits (h : p.Sound P c₀ a₀) (hm : Matched P c₀ a₀) {side : Side} {call : Call}
    (hheard : ∀ d, call = .feedRecvBuf d → d ∈ (p.party side.other).emitted) :
    ∀ packet, call.packet = some packet → packet.Fits c₀.initialSeq (p.party side.other).conn.originals := by
  intro packet hpacket
  obtain ⟨d, rfl, hdec⟩ := Call.packet_eq_some.mp hpacket
  have hmem := hheard d rfl
  cases packet with
  | data p => exact (h.kept.reached side.other).sent_data (h.bare side.other) hmem hdec
  | control ctrl =>
    refine ⟨fun message first last hbody => ?_, fun hs hbody htype => ?_⟩
    · exact (h.kept.reached side.other).sent_dropReq hmem hdec hbody
    · have hconcludes : Concludes d hs := ⟨ctrl, hdec, hbody, htype⟩
      cases side with
      | caller => exact (h.kept.tells.said d (.inl hmem) hs hconcludes).initialSeq.trans hm.initialSeq
      | acceptor => exact (h.kept.caller.tells.said d (.inl hmem) hs hconcludes).initialSeq

theorem Sound.receives (h : p.Sound P c₀ a₀) (hm : Matched P c₀ a₀) {side : Side} {call : Call} (now : Instant)
    (hheard : ∀ d, call = .feedRecvBuf d → d ∈ (p.party side.other).emitted)
    (hlen : (p.party side.other).conn.originals.length < 2 ^ 30) :
    ((p.party side).step P (call, now)).conn.Follows c₀.initialSeq (p.party side.other).conn.originals
      ∧ (p.party side).conn.reach ≤ ((p.party side).step P (call, now)).conn.reach := by
  have hkeeps := Follows.keeps (P := P) (h.sequenced side.other).numbered hlen (h.fits hm hheard)
    (p.party side).conn.reach
  exact @Session.step_keeps P _ (p.party side) (call, now) hkeeps ⟨h.follows side hlen, le_rfl⟩

theorem Sound.step (h : p.Sound P c₀ a₀) (hm : Matched P c₀ a₀) {x : Move × Instant} (hx : p.Honest x) :
    (p.step P x).Sound P c₀ a₀ := by
  have hkept := h.kept.step hm hx
  rcases step_cases hx with he | ⟨side, call, he, hheard⟩
  · rw [he]
    exact h
  · rw [he] at hkept ⊢
    have hanyKey : (p.party side).conn.KeyOk (fun _ _ => True) (fun _ _ => True) call :=
      ⟨fun _ _ => trivial, fun _ _ => trivial⟩
    have hgrown := (p.party side).originals_grow P call x.2
    refine ⟨hkept, ?_, ?_, ?_⟩
    · intro side'
      rcases Side.eq_or_eq_other side side' with rfl | rfl
      · rw [party_setParty]
        exact Session.step_dispatch (bare_dispatch P) (h.bare side') hanyKey
      · rw [party_setParty_other]
        exact h.bare _
    · intro side'
      rcases Side.eq_or_eq_other side side' with rfl | rfl
      · rw [party_setParty]
        exact Session.step_dispatch (sequenced_dispatch P _) (h.sequenced side') hanyKey
      · rw [party_setParty_other]
        exact h.sequenced _
    · intro side' hlen
      rcases Side.eq_or_eq_other side side' with rfl | rfl
      · rw [party_setParty, party_setParty_other] at *
        exact (h.receives hm x.2 hheard hlen).1
      · rw [Side.other_other, party_setParty] at hlen
        rw [party_setParty_other, Side.other_other, party_setParty]
        have hbefore := h.follows side.other
        rw [Side.other_other] at hbefore
        exact (hbefore (hgrown.length_le.trans_lt hlen)).mono hgrown

end Step

/-- Pairs without encryption and FEC. -/
def Plain (p : Pair) : Prop :=
  ∀ side, (p.party side).conn.config.encryption = none ∧ (p.party side).conn.config.fec = none

/-- At the start neither end has FEC or keys, and neither has received anything. -/
theorem Begins.sound {P : Primitives} {c₀ a₀ : Connection} {p : Pair} (h : Begins P c₀ a₀ p) (hplain : p.Plain) :
    p.Sound P c₀ a₀ := by
  obtain ⟨hm, hkept, hstate, ⟨opened, inputs, -, hcaller⟩, now, -, hacceptor⟩ := h
  obtain ⟨config, id, hs, t, hintroduces, haccept⟩ := hm.accepted
  have haccepts := (accept_spec haccept).1
  have hfresh := accept_fresh haccept
  have hanyKeys : Runs.Meets (Session.step P)
      (fun s input => s.conn.KeyOk (fun _ _ => True) (fun _ _ => True) input.1) (.start c₀ opened) inputs :=
    Runs.meets_of_forall (fun _ _ => ⟨fun _ _ => trivial, fun _ _ => trivial⟩) _ _
  obtain ⟨henc, hfec⟩ : c₀.config.encryption = none ∧ c₀.config.fec = none := by
    have hconfig : p.caller.conn.config = c₀.config := config_of_ident hkept.caller.ident
    rw [← hconfig]
    exact hplain .caller
  obtain ⟨henc', hfec'⟩ : a₀.config.encryption = none ∧ a₀.config.fec = none := by
    have hconfig : p.acceptor.conn.config = a₀.config := config_of_ident hkept.ident
    rw [← hconfig]
    exact hplain .acceptor
  have hbare : c₀.Bare := by
    refine hm.fresh.bare henc ?_ hfec
    cases hm.draws with
    | plain hc hk => exact hc
    | sealed enc salt sek keys km hsome => simp [henc] at hsome
  have hbare' : a₀.Bare := by
    refine hfresh.bare henc' ?_ hfec'
    have hconfig : a₀.config = config := congrArg (·.1) (accept_ident haccept)
    obtain ⟨km, hkm, hcrypto⟩ := haccepts.crypto
    rw [← hconfig, henc'] at hkm
    rw [hcrypto]
    unfold acceptCrypto at hkm
    split at hkm
    · cases hkm
    · obtain rfl := Except.ok.inj hkm
      rfl
    · next hsome _ => cases hsome
    · next hsome _ => cases hsome
  refine ⟨hkept, ?_, ?_, ?_⟩
  · intro side
    cases side with
    | caller =>
      change p.caller.conn.Bare
      rw [hcaller]
      exact Session.run_dispatch (bare_dispatch P) ⟨hbare.encryption, hbare.crypto, hbare.fec⟩ hanyKeys
    | acceptor =>
      change p.acceptor.conn.Bare
      rw [hacceptor]
      exact ⟨hbare'.encryption, hbare'.crypto, hbare'.fec⟩
  · intro side
    cases side with
    | caller =>
      change p.caller.conn.Sequenced c₀.initialSeq
      have hstart := hm.fresh.sequenced
      rw [hcaller]
      exact Session.run_dispatch (sequenced_dispatch P _) ⟨hstart.numbered, hstart.next⟩ hanyKeys
    | acceptor =>
      change p.acceptor.conn.Sequenced c₀.initialSeq
      have hstart := hfresh.sequenced
      rw [hacceptor, ← hm.initialSeq]
      exact ⟨hstart.numbered, hstart.next⟩
  · intro side _
    cases side with
    | caller =>
      have hnot : ¬ p.caller.conn.Established := by simp [Established, hstate]
      change p.caller.conn.Follows _ _
      rw [hcaller] at hnot ⊢
      have hstart := hm.fresh.untouched hfec
      exact (Session.run_keeps (fun input => untouched_keeps P c₀.initialSeq input)
        (fun _ => ⟨hstart.plain, hstart.base, hstart.slots, hstart.passed⟩) inputs hnot).follows _
    | acceptor =>
      have hstart := hfresh.untouched hfec'
      have huntouched : (Session.start a₀ now).conn.Untouched a₀.initialSeq :=
        ⟨hstart.plain, hstart.base, hstart.slots, hstart.passed⟩
      change p.acceptor.conn.Follows _ _
      rw [hacceptor, ← hm.initialSeq]
      exact huntouched.follows _

/-- What an end has delivered, with fewer than `2^30` packets sent by the other. -/
theorem Sound.delivers {P : Primitives} {c₀ a₀ : Connection} {p : Pair} (hsound : p.Sound P c₀ a₀) {side : Side}
    (hfew : (p.party side).conn.originals.length < 2 ^ 30) :
    (messages (p.party side.other).pushed).Sublist (p.party side).accepted := by
  obtain ⟨sent, htraced⟩ := (hsound.kept.reached side).traced
  obtain ⟨spelled, tail, horiginals, hprefix, htail, -⟩ := htraced.spelled (hsound.bare side)
  have hnumbered := (hsound.sequenced side).numbered
  have htaken : ((popped (p.party side.other).conn.trace).map DataPacket.firstSent).Sublist
      (p.party side).conn.originals := by
    have hfollows := hsound.follows side.other
    rw [Side.other_other] at hfollows
    exact (hfollows hfew).taken.trans (List.take_sublist _ _)
  rw [(hsound.kept.reached side.other).delivers, ← Reassembler.pushAll_firstSent]
  rw [horiginals] at hnumbered htaken hfew
  rw [List.length_append] at hfew
  exact (Spelled.pushAll_cut hnumbered (by omega) htail htaken).trans hprefix.sublist

/-- End-to-end safety. Over a network that loses, delays, repeats and reorders datagrams but makes none up,
what either end has delivered is a sublist of what the other has accepted: nothing out of order, nothing
twice, no byte changed, whatever the sizes of the messages and the calls of the two embedders. -/
theorem delivered_in_order {P : Primitives} {p₀ : Pair} (h : Opened P p₀) (hplain : p₀.Plain)
    (moves : List (Move × Instant)) (hhonest : Runs.Meets (step P) Honest p₀ moves) (p : Pair)
    (hp : p = Runs.run (step P) p₀ moves) (side : Side) (hfew : (p.party side).conn.originals.length < 2 ^ 30) :
    (messages (p.party side.other).pushed).Sublist (p.party side).accepted := by
  obtain ⟨c₀, a₀, hbegins⟩ := h.begins
  have hsound : p.Sound P c₀ a₀ := by
    rw [hp]
    exact Runs.invariant (fun _ _ hs hx => hs.step hbegins.matched hx) (hbegins.sound hplain) hhonest
  exact hsound.delivers hfew

/-- The default configuration on both ends. -/
def plainPair : Pair := sampleOf Primitives.absent Config.default Config.default

theorem plainPair_opened : Opened Primitives.absent plainPair :=
  sampleOf_opened (by decide +kernel) (by decide +kernel) (by decide +kernel)

theorem plainPair_plain : plainPair.Plain := by
  intro side
  cases side <;> decide +kernel

/-- The acceptor's answer, two messages that overtake one another, the first of them twice, and the time they
are played. -/
def crossing : List (Move × Instant) :=
  [(.hear .caller 0, 0), (.call .acceptor (.send [1]), 1000), (.call .acceptor (.send [2]), 2000),
    (.hear .caller 2, 3000), (.hear .caller 1, 4000), (.hear .caller 1, 5000),
    (.call .caller (.handleTimer .tsbpd), 1000000000)]

theorem delivered_in_order_crossing :
    messages ((Runs.run (step Primitives.absent) plainPair crossing).party .caller).pushed = [[1], [2]]
    ∧ (messages ((Runs.run (step Primitives.absent) plainPair crossing).party (Side.other .acceptor)).pushed).Sublist
      ((Runs.run (step Primitives.absent) plainPair crossing).party .acceptor).accepted :=
  ⟨by decide +kernel, delivered_in_order plainPair_opened plainPair_plain crossing (by decide +kernel) _ rfl .acceptor
    (by decide +kernel)⟩

end Pair

end Srtrust
