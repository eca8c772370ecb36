import Srtrust.Session.Conveyance

/-! # What an acknowledgement means

An ACK names the first packet its sender lacks. What lies before it was received, or given up after a
drop request or at its play time. The other end therefore releases nothing that is still missed, except what
it sheds for being late, and once it has drained without shedding, the peer has everything. -/
namespace Srtrust
open BigEndian
set_option autoImplicit false

/-- Acknowledgements that claim at most `n` packets. -/
def Packet.Vouches (isn : SeqNumber) (n : ℕ) : Packet → Prop
  | .data _ => True
  | .control ctrl => ctrl.body.Formed ∧ ∀ ack, ctrl.body = .ack ack → ∃ j ≤ n, ack.lastAckSeq = isn.add j

theorem Packet.Vouches.mono {isn : SeqNumber} {n n' : ℕ} (h : n ≤ n') {p : Packet} (hp : p.Vouches isn n) :
    p.Vouches isn n' := by
  cases p with
  | data _ => trivial
  | control ctrl =>
    refine ⟨hp.1, fun ack hbody => ?_⟩
    obtain ⟨j, hj, hseq⟩ := hp.2 ack hbody
    exact ⟨j, hj.trans h, hseq⟩

theorem Encodes.vouches {isn : SeqNumber} {n : ℕ} {d : Bytes} (h : Encodes (Packet.Vouches isn n) d) {packet : Packet}
    (hdec : Packet.decode d = .ok packet) : packet.Vouches isn n := by
  cases packet with
  | data _ => trivial
  | control ctrl =>
    by_cases hbody : ∃ hs, ctrl.body = .handshake hs
    · obtain ⟨hs, hbody⟩ := hbody
      rw [Packet.Vouches, hbody]
      exact ⟨trivial, fun _ he => ControlBody.noConfusion he⟩
    · exact h.control (fun _ hk => hk.1) hdec fun hs he => hbody ⟨hs, he⟩

/-- Lookup finds what is stored. -/
theorem SendBuffer.Contiguous.get_of_mem {b : SendBuffer} (h : b.Contiguous) (hlen : b.len ≤ 0x40000000)
    {q : DataPacket} (hq : q ∈ b.content) : b.get q.seq = some q := by
  obtain ⟨sent, hsent, rfl⟩ := List.mem_map.mp hq
  obtain ⟨k, hk⟩ := List.mem_iff_getElem?.mp hsent
  rw [SendBuffer.get, h.indexOf_eq hlen hk, Option.bind_eq_bind, Option.bind_some, hk]
  rfl

namespace Connection

/-! ## The end that acknowledges -/

/-- Every acknowledgement said so far, or among the earlier datagrams, is covered by what is received. -/
def Vouching (isn : SeqNumber) (earlier : List Bytes) (c : Connection) : Prop :=
  ∀ d, d ∈ earlier ∨ c.Said d → Encodes (Packet.Vouches isn c.reach) d

section Vouching

variable {P : Primitives} {isn : SeqNumber} {earlier : List Bytes} {c c' : Connection} {input : Option Packet}

theorem Vouching.act (h : c.Vouching isn earlier) (hact : Act P input c c')
    (hpoint : c.link.state = .connected → c.rx.recvBuffer.receivedAckPoint = isn.add c.reach)
    (hreach : c.reach ≤ c'.reach) : c'.Vouching isn earlier := by
  intro d hd
  have hold : d ∈ earlier ∨ c.Said d → Encodes (Packet.Vouches isn c'.reach) d := fun hd =>
    (h d hd).mono fun _ hp => hp.mono hreach
  rcases hd with hd | hd
  · exact hold (.inl hd)
  · rcases hact.says d hd with hd | hnew
    · exact hold (.inr hd)
    · refine hnew.mono fun packet hv => ?_
      cases packet with
      | data _ => trivial
      | control ctrl =>
        refine ⟨hv.formed, fun ack hbody => ?_⟩
        obtain ⟨hstate, hseq⟩ := hv.ack ack hbody
        exact ⟨c.reach, hreach, hseq.trans (hpoint hstate)⟩

theorem Vouching.settle (h : c.Vouching isn earlier) :
    ({ c with outputs := [] } : Connection).Vouching isn (earlier ++ Session.datagrams c.outputs) := by
  intro d hd
  refine h d ?_
  rcases hd with hd | hd | hd
  · rcases List.mem_append.mp hd with hd | hd
    · exact .inl hd
    · exact .inr (.inl (Session.mem_datagrams.mp hd))
  · cases hd
  · exact .inr (.inr hd)

/-- An end that follows a stream acknowledges what it has of it. -/
theorem vouching_keeps {stream : List DataPacket} (hnum : Numbered isn stream) (hlen : stream.length < 2 ^ 30)
    (hfits : ∀ packet, input = some packet → packet.Fits isn stream) :
    Act.Keeps P input (fun c => c.Follows isn stream ∧ c.Vouching isn earlier) := by
  intro c c' hact hq
  have hnext := Follows.keeps hnum hlen hfits c.reach c c' hact ⟨hq.1, le_rfl⟩
  exact ⟨hnext.1, hq.2.act hact (fun _ => hq.1.receivedAckPoint) hnext.2⟩

/-- Until the handshake is over nothing is acknowledged. -/
theorem unopened_keeps :
    Act.Keeps P input (fun c => ¬ c.Established → c.Untouched isn ∧ c.Vouching isn earlier) := by
  intro c c' hact hq hnot
  have hbefore : ¬ c.Established := fun he => hnot (hact.established he)
  have hnext := untouched_keeps P isn input c c' hact (fun hnot => (hq hnot).1) hnot
  have hzero : c.reach = 0 := by
    rw [reach, (hq hbefore).1.passed, RecvBuffer.contiguous, (hq hbefore).1.slots]
    rfl
  exact ⟨hnext, (hq hbefore).2.act hact (fun hs => absurd (.inl hs) hbefore) (by omega)⟩

end Vouching

/-! ## The end that is acknowledged -/

/-- The send buffer holds the latest originals. Those released number at most `n`, not counting the ones shed. -/
def Retains (n : ℕ) (c : Connection) : Prop :=
  ∃ m ≤ c.originals.length, c.outstanding = c.originals.drop m ∧ m ≤ n + c.tx.stats.packetsDroppedSent

theorem Retains.mono {n n' : ℕ} (h : n ≤ n') {c : Connection} (hc : c.Retains n) : c.Retains n' := by
  obtain ⟨m, hm, hout, hle⟩ := hc
  exact ⟨m, hm, hout, by omega⟩

/-- An ACK releases the packets in front of the one it names. -/
theorem Sequenced.dropWhile_less {isn : SeqNumber} {originals : List DataPacket} (hnum : Numbered isn originals)
    (hlen : originals.length < 2 ^ 30) (m : ℕ) {j : ℕ} (hj : j < 2 ^ 30) :
    (originals.drop m).dropWhile (fun p => p.seq.circularCmp (isn.add j) = .less) = originals.drop (m + (j - m)) := by
  have hless : ∀ i p, (originals.drop m)[i]? = some p →
      (p.seq.circularCmp (isn.add j) = .less ↔ m + i < j) := by
    intro i p hi
    rw [List.getElem?_drop] at hi
    have hlt := (List.getElem?_eq_some_iff.mp hi).1
    rw [hnum _ p hi, SeqNumber.circularCmp_less_iff, SeqNumber.offsetFrom_add isn (m + i) j (by omega) (by omega)]
    omega
  rw [SendBuffer.dropWhile_eq_drop _ _ (j - m), List.drop_drop]
  · intro i p hi hp
    rw [decide_eq_true_eq, hless i p hp]
    omega
  · intro p hp
    rw [decide_eq_false_iff_not, hless _ p hp]
    omega

theorem retains_keeps {P : Primitives} {isn : SeqNumber} {n : ℕ} (hn : n < 2 ^ 30) {input : Option Packet}
    (hvouches : ∀ packet, input = some packet → packet.Vouches isn n) :
    Act.Keeps P input (fun c => c.Sequenced isn ∧ (c.originals.length < 2 ^ 30 → c.Retains n)) := by
  refine .ofSender ?_ ?_ ?_ ?_
  · intro c c' h hq
    refine ⟨⟨h.originals ▸ hq.1.numbered, by rw [h.nextSendSeq, h.originals]; exact hq.1.next⟩, fun hlen => ?_⟩
    rw [h.originals] at hlen
    obtain ⟨m, hm, hout, hle⟩ := hq.2 hlen
    refine ⟨m, by rw [h.originals]; exact hm, by rw [h.outstanding, h.originals]; exact hout, ?_⟩
    rw [h.packetsDroppedSent]
    exact hle
  · intro c c' fragment now stored calls h hq
    refine ⟨hq.1.originates h, fun hlen => ?_⟩
    rw [h.originals, List.length_append] at hlen
    obtain ⟨m, hm, hout, hle⟩ := hq.2 (by omega)
    refine ⟨m, ?_, ?_, ?_⟩
    · rw [h.originals, List.length_append]
      omega
    · rw [h.outstanding, h.originals, hout, List.drop_append_of_le_length hm]
    · rw [h.tx]
      exact hle
  · intro c ctrl ack hinput hbody hq
    refine ⟨⟨hq.1.numbered, hq.1.next⟩, fun hlen => ?_⟩
    obtain ⟨m, hm, hout, hle⟩ := hq.2 hlen
    obtain ⟨j, hj, hseq⟩ := (hvouches _ hinput).2 ack hbody
    have hreleased : (c.releaseAcked ack).outstanding = c.originals.drop (m + (j - m)) := by
      change (c.tx.sendBuffer.ack ack.lastAckSeq).content = _
      rw [SendBuffer.content_ack, hseq]
      change (c.outstanding).dropWhile _ = _
      rw [hout]
      exact Sequenced.dropWhile_less hq.1.numbered hlen m (by omega)
    have hdropped : (c.releaseAcked ack).tx.stats.packetsDroppedSent = c.tx.stats.packetsDroppedSent := rfl
    refine ⟨min (m + (j - m)) c.originals.length, Nat.min_le_right _ _, ?_, ?_⟩
    · rw [hreleased]
      change _ = c.originals.drop _
      by_cases hpast : m + (j - m) ≤ c.originals.length
      · rw [Nat.min_eq_left hpast]
      · rw [Nat.min_eq_right (by omega), List.drop_length, List.drop_eq_nil_of_le (by omega)]
    · rw [hdropped]
      omega
  · intro c now hq
    refine ⟨⟨hq.1.numbered, hq.1.next⟩, fun hlen => ?_⟩
    obtain ⟨m, hm, hout, hle⟩ := hq.2 hlen
    have hshed : (c.shed now).length ≤ c.outstanding.length := by
      rw [Connection.outstanding, ← SendBuffer.len_eq]
      exact (List.takeWhile_prefix _).length_le
    have hcount : (c.dropShed now).tx.stats.packetsDroppedSent
        = c.tx.stats.packetsDroppedSent + (c.shed now).length := rfl
    have horiginals : (c.dropShed now).originals = c.originals := rfl
    rw [hout, List.length_drop] at hshed
    refine ⟨m + (c.shed now).length, by rw [horiginals]; omega, ?_, by omega⟩
    rw [dropShed_outstanding, hout, horiginals, List.drop_drop]

/-- A sender that has shed nothing holds every packet beyond what it was told of. -/
theorem Retains.released {n : ℕ} {c : Connection} (h : c.Retains n) (hshed : c.tx.stats.packetsDroppedSent = 0)
    {i : ℕ} {q : DataPacket} (hi : c.originals[i]? = some q) (hgone : q ∉ c.outstanding) : i < n := by
  obtain ⟨m, -, hout, hle⟩ := h
  by_contra hlater
  refine hgone ?_
  rw [hout]
  refine List.mem_of_getElem? (i := i - m) ?_
  rw [List.getElem?_drop, show m + (i - m) = i by omega]
  exact hi

/-! ## The flush on SHUTDOWN -/

theorem popInOrder_none {b : RecvBuffer} (h : b.popInOrder = none) : b.contiguous = 0 := by
  by_contra hpos
  obtain ⟨packet, hat⟩ := (b.le_contiguous_iff _).mp le_rfl 0 (by omega)
  have hpop : b.pop = none := by
    rwa [RecvBuffer.popInOrder, List.head?_eq_getElem?, hat] at h
  rw [(b.pop_eq_none_iff).mp hpop] at hat
  cases hat

/-- The flush stops at a gap, and skips none. -/
theorem flushLoop_spec (fuel : ℕ) (c : Connection) (hfuel : c.rx.recvBuffer.slots.length < fuel) :
    (flushLoop fuel c).rx.recvBuffer.contiguous = 0
      ∧ (flushLoop fuel c).rx.stats.packetsDropped = c.rx.stats.packetsDropped := by
  induction fuel generalizing c with
  | zero => omega
  | succ fuel ih =>
    unfold flushLoop
    split
    · next hnone => exact ⟨popInOrder_none hnone, rfl⟩
    · next packet rest hpop =>
      obtain ⟨hsome, hfirst⟩ := RecvBuffer.popInOrder_spec _ _ _ hpop
      obtain ⟨hat, hslots, -, -⟩ := RecvBuffer.pop_spec _ _ _ hsome
      have hlt := (List.getElem?_eq_some_iff.mp hat).1
      have hbuffer : ((c.setRecvBuffer rest).deliverPacket packet).rx.recvBuffer = rest := by
        unfold deliverPacket
        dsimp only
        split <;> rfl
      have hdropped : ((c.setRecvBuffer rest).deliverPacket packet).rx.stats.packetsDropped
          = c.rx.stats.packetsDropped := by
        unfold deliverPacket
        dsimp only
        split <;> rfl
      rw [← hdropped]
      refine ih _ ?_
      rw [hbuffer, hslots, List.length_drop]
      omega

end Connection

/-! ## Before the handshake is over -/

theorem Packet.Vouches.handshake {isn : SeqNumber} {n : ℕ} (timestamp : Timestamp) (dest : SocketId) (hs : Handshake) :
    (Packet.control ⟨timestamp, dest, .handshake hs⟩).Vouches isn n :=
  ⟨trivial, fun _ he => ControlBody.noConfusion he⟩

namespace Session
open Connection

variable {P : Primitives} {s : Session}

/-- A caller that waits: nothing received, nothing acknowledged, nothing accepted. -/
structure Unopened (isn : SeqNumber) (s : Session) : Prop where
  untouched : s.conn.Untouched isn
  vouching : s.conn.Vouching isn s.emitted
  accepted : s.accepted = []

theorem run_unopened {isn : SeqNumber} (h : s.Unopened isn) (inputs : List (Call × Instant))
    (hnot : ¬ (Runs.run (step P) s inputs).conn.Established) : (Runs.run (step P) s inputs).Unopened isn := by
  refine @Runs.invariant _ _ _ (fun _ _ => True) (fun s : Session => ¬ s.conn.Established → s.Unopened isn) ?_ _ _
    (fun _ => h) (Runs.meets_of_forall (fun _ _ => trivial) _ _) hnot
  intro s input hs _ hafter
  have hbefore : ¬ s.conn.Established := fun he => hafter (Calling.established_step he)
  have hnow := hs hbefore
  have hkeeps := @unopened_keeps P isn s.emitted input.1.packet
  obtain ⟨huntouched, hvouching⟩ := hkeeps.perform input.2 (fun _ => ⟨hnow.untouched, hnow.vouching⟩) hafter
  refine ⟨⟨huntouched.plain, huntouched.base, huntouched.slots, huntouched.passed⟩, hvouching.settle, ?_⟩
  have hrefused : s.conn.acceptedBy P input.1 input.2 = [] := by
    have hstate : s.conn.link.state ≠ .connected := fun he => hbefore (.inl he)
    unfold acceptedBy
    split
    · next payload _ =>
      have herror : s.conn.send P payload input.2 = .error .invalidState := if_pos (.inr hstate)
      rw [herror]
      rfl
    · rfl
  change s.accepted ++ s.conn.acceptedBy P input.1 input.2 = []
  rw [hnow.accepted, hrefused]
  rfl

theorem Reached.contiguous (h : s.Reached P) : s.conn.tx.sendBuffer.Contiguous := by
  obtain ⟨s₀, inputs, hstarted, rfl⟩ := h
  have hempty := hstarted.outstanding
  have hstart : s₀.conn.InStep := by
    refine ⟨?_, ?_⟩
    · change List.IsChain _ s₀.conn.outstanding
      rw [hempty]
      exact List.isChain_nil
    · rw [hempty]
      intro packet hp
      cases hp
  exact (run_dispatch (inStep_dispatch P) hstart
    (Runs.meets_of_forall (fun _ _ => ⟨fun _ _ => trivial, fun _ _ => trivial⟩) _ _)).contiguous

/-- What was originated was accepted before. -/
theorem Reached.nothing_sent (h : s.Reached P) (haccepted : s.accepted = []) :
    s.conn.originals = [] ∧ s.conn.outstanding = [] := by
  obtain ⟨sent, htraced⟩ := h.traced
  obtain ⟨carried, waiting, hsub, -, -, hcarried⟩ := htraced.manifest.fragments
  have hsent : sent = [] := by
    rw [← htraced.accepted] at haccepted
    exact List.map_eq_nil_iff.mp haccepted
  subst hsent
  obtain ⟨rfl, -⟩ := List.append_eq_nil_iff.mp (List.sublist_nil.mp hsub)
  have horiginals := List.forall₂_nil_left_iff.mp hcarried
  refine ⟨horiginals, List.subset_nil.mp ?_⟩
  rw [← horiginals]
  exact htraced.manifest.outstanding

end Session

/-! ## The pair -/

namespace Pair
open Connection

/-- What each end acknowledges it has, and what each end releases the other has acknowledged. -/
structure Backed (P : Primitives) (c₀ a₀ : Connection) (p : Pair) : Prop where
  sound : p.Sound P c₀ a₀
  vouching : ∀ side, (p.party side.other).conn.originals.length < 2 ^ 30 →
    (p.party side).conn.Vouching c₀.initialSeq (p.party side).emitted
  retains : ∀ side, (p.party side).conn.originals.length < 2 ^ 30 →
    (p.party side).conn.Retains (p.party side.other).conn.reach

section Step

variable {P : Primitives} {c₀ a₀ : Connection} {p : Pair}

/-- An end that hears the other, seen from its acknowledgements. -/
theorem Backed.vouches (h : p.Backed P c₀ a₀) (hm : Matched P c₀ a₀) {side : Side} {call : Call} (now : Instant)
    (hheard : ∀ d, call = .feedRecvBuf d → d ∈ (p.party side.other).emitted)
    (hlen : (p.party side.other).conn.originals.length < 2 ^ 30) :
    ((p.party side).step P (call, now)).conn.Vouching c₀.initialSeq ((p.party side).step P (call, now)).emitted := by
  have hkeeps := @vouching_keeps P _ (p.party side).emitted _ _ (h.sound.sequenced side.other).numbered hlen
    (h.sound.fits hm hheard)
  exact (hkeeps.perform now ⟨h.sound.follows side hlen, h.vouching side hlen⟩).2.settle

/-- An end that hears the other, seen from its send buffer. -/
theorem Backed.releases (h : p.Backed P c₀ a₀) {side : Side} {call : Call} (now : Instant)
    (hheard : ∀ d, call = .feedRecvBuf d → d ∈ (p.party side.other).emitted)
    (hlen : ((p.party side).step P (call, now)).conn.originals.length < 2 ^ 30)
    (hgrown : (p.party side).conn.originals.length ≤ ((p.party side).step P (call, now)).conn.originals.length) :
    ((p.party side).step P (call, now)).conn.Retains (p.party side.other).conn.reach := by
  have hbefore : (p.party side).conn.originals.length < 2 ^ 30 := by omega
  have hfollows := h.sound.follows side.other
  have hvouching := h.vouching side.other
  rw [Side.other_other] at hfollows hvouching
  have hreach := (hfollows hbefore).reach_le
  have hvouches : ∀ packet, call.packet = some packet →
      packet.Vouches c₀.initialSeq (p.party side.other).conn.reach := by
    intro packet hpacket
    obtain ⟨d, rfl, hdec⟩ := Call.packet_eq_some.mp hpacket
    exact (hvouching hbefore d (.inl (hheard d rfl))).vouches hdec
  have hkeeps := retains_keeps (P := P) (by omega) hvouches
  exact (@Session.step_keeps P _ (p.party side) (call, now) hkeeps
    ⟨h.sound.sequenced side, fun hlen => h.retains side hlen⟩).2 hlen

theorem Backed.step (h : p.Backed P c₀ a₀) (hm : Matched P c₀ a₀) {x : Move × Instant} (hx : p.Honest x) :
    (p.step P x).Backed P c₀ a₀ := by
  have hsound := h.sound.step hm hx
  rcases step_cases hx with he | ⟨side, call, he, hheard⟩
  · rw [he]
    exact h
  · rw [he] at hsound ⊢
    have hgrown := ((p.party side).originals_grow P call x.2).length_le
    refine ⟨hsound, ?_, ?_⟩
    · intro side' hlen
      rcases Side.eq_or_eq_other side side' with rfl | rfl
      · rw [party_setParty, party_setParty_other] at *
        exact h.vouches hm x.2 hheard hlen
      · rw [Side.other_other, party_setParty] at hlen
        rw [party_setParty_other]
        refine h.vouching side.other ?_
        rw [Side.other_other]
        omega
    · intro side' hlen
      rcases Side.eq_or_eq_other side side' with rfl | rfl
      · rw [party_setParty] at hlen ⊢
        rw [party_setParty_other]
        exact h.releases x.2 hheard hlen hgrown
      · rw [party_setParty_other] at hlen ⊢
        rw [Side.other_other, party_setParty]
        have hmore := (h.sound.receives hm x.2 hheard hlen).2
        have hbefore := h.retains side.other hlen
        rw [Side.other_other] at hbefore
        exact hbefore.mono hmore

end Step

theorem Begins.backed {P : Primitives} {c₀ a₀ : Connection} {p : Pair} (h : Begins P c₀ a₀ p) (hplain : p.Plain) :
    p.Backed P c₀ a₀ := by
  have hsound := h.sound hplain
  obtain ⟨hm, hkept, hstate, ⟨opened, inputs, hstarted, hcaller⟩, now, hstarted', hacceptor⟩ := h
  obtain ⟨config, id, hs, t, -, haccept⟩ := hm.accepted
  have hfresh := accept_fresh haccept
  have hnot : ¬ p.caller.conn.Established := by simp [Established, hstate]
  have hunopened : p.caller.Unopened c₀.initialSeq := by
    have huntouched : c₀.Untouched c₀.initialSeq := by
      refine hm.fresh.untouched ?_
      have hconfig : p.caller.conn.config = c₀.config := config_of_ident hkept.caller.ident
      rw [← hconfig]
      exact (hplain .caller).2
    rw [hcaller] at hnot ⊢
    refine Session.run_unopened ?_ inputs hnot
    exact ⟨⟨huntouched.plain, huntouched.base, huntouched.slots, huntouched.passed⟩,
      fun d hd => hstarted.says Packet.Vouches.handshake hd, rfl⟩
  refine ⟨hsound, ?_, ?_⟩
  · intro side _
    cases side with
    | caller => exact hunopened.vouching
    | acceptor =>
      change p.acceptor.conn.Vouching _ p.acceptor.emitted
      rw [hacceptor]
      exact fun d hd => hstarted'.says Packet.Vouches.handshake hd
  · intro side _
    cases side with
    | caller =>
      obtain ⟨horiginals, houtstanding⟩ := (hkept.reached .caller).nothing_sent hunopened.accepted
      exact ⟨0, Nat.zero_le _, by rw [List.drop_zero]; exact houtstanding.trans horiginals.symm, Nat.zero_le _⟩
    | acceptor =>
      change p.acceptor.conn.Retains _
      rw [hacceptor]
      refine ⟨0, Nat.zero_le _, ?_, Nat.zero_le _⟩
      have houtstanding := hstarted'.outstanding
      have horiginals : (Session.start a₀ now).conn.originals = [] := hfresh.originals
      rw [houtstanding, horiginals]
      rfl

/-- Nothing is forgotten before it arrives. As long as a sender has shed nothing, every packet it no longer holds
for retransmission lies behind the receiver's base, played or given up, or waits in the receiver's buffer,
whatever acknowledgements were lost, delayed, repeated or reordered. -/
theorem released_received {P : Primitives} {p₀ : Pair} (h : Opened P p₀) (hplain : p₀.Plain)
    (moves : List (Move × Instant)) (hhonest : Runs.Meets (step P) Honest p₀ moves) (p : Pair)
    (hp : p = Runs.run (step P) p₀ moves) (side : Side) (hfew : (p.party side).conn.originals.length < 2 ^ 30)
    (hshed : (p.party side).conn.tx.stats.packetsDroppedSent = 0) (i : ℕ) (q : DataPacket)
    (hi : (p.party side).conn.originals[i]? = some q) (hgone : q ∉ (p.party side).conn.outstanding) :
    i < (p.party side.other).conn.passed
      ∨ ∃ r, some r ∈ (p.party side.other).conn.rx.recvBuffer.slots ∧ r.firstSent = q := by
  obtain ⟨c₀, a₀, hbegins⟩ := h.begins
  have hm := hbegins.matched
  have hbacked : p.Backed P c₀ a₀ := by
    rw [hp]
    exact Runs.invariant (fun _ _ hs hx => hs.step hm hx) (hbegins.backed hplain) hhonest
  have hreached := (hbacked.retains side hfew).released hshed hi hgone
  have hfollows := hbacked.sound.follows side.other
  rw [Side.other_other] at hfollows
  rcases (hfollows hfew).reached_packet hreached with hpassed | ⟨r, hr, hat⟩
  · exact .inl hpassed
  · rw [hi] at hat
    exact .inr ⟨r, hr, (Option.some.inj hat).symm⟩

/-- Two messages that overtake one another, and the acknowledgement of both. -/
def acknowledged : List (Move × Instant) :=
  [(.hear .caller 0, 0), (.call .acceptor (.send [1]), 1000), (.call .acceptor (.send [2]), 2000),
    (.hear .caller 2, 3000), (.hear .caller 1, 4000), (.call .caller (.handleTimer .ack), 10000000),
    (.hear .acceptor 3, 11000000)]

theorem released_received_acknowledged :
    ((Runs.run (step Primitives.absent) plainPair acknowledged).party .acceptor).conn.outstanding = [] ∧
    ∃ q, ((Runs.run (step Primitives.absent) plainPair acknowledged).party .acceptor).conn.originals[0]? = some q
      ∧ (0 < ((Runs.run (step Primitives.absent) plainPair acknowledged).party (Side.other .acceptor)).conn.passed
        ∨ ∃ r, some r ∈ ((Runs.run (step Primitives.absent) plainPair acknowledged).party
          (Side.other .acceptor)).conn.rx.recvBuffer.slots ∧ r.firstSent = q) := by
  have hgone : ((Runs.run (step Primitives.absent) plainPair acknowledged).party .acceptor).conn.outstanding = [] := by
    decide +kernel
  obtain ⟨q, hq⟩ := Option.isSome_iff_exists.mp (by decide +kernel :
    ((Runs.run (step Primitives.absent) plainPair acknowledged).party .acceptor).conn.originals[0]?.isSome)
  exact ⟨hgone, q, hq, released_received plainPair_opened plainPair_plain acknowledged (by decide +kernel) _ rfl
    .acceptor (by decide +kernel) (by decide +kernel) 0 q hq (by rw [hgone]; exact List.not_mem_nil)⟩

/-- Every gap can be filled. As long as a sender has shed nothing, each packet that is missing from the receiver's
buffer while a later one is there is still held by the sender, where a loss report finds it. -/
theorem gap_retransmittable {P : Primitives} {p₀ : Pair} (h : Opened P p₀) (hplain : p₀.Plain)
    (moves : List (Move × Instant)) (hhonest : Runs.Meets (step P) Honest p₀ moves) (p : Pair)
    (hp : p = Runs.run (step P) p₀ moves) (side : Side) (hfew : (p.party side).conn.originals.length < 2 ^ 30)
    (hshed : (p.party side).conn.tx.stats.packetsDroppedSent = 0) (i : ℕ)
    (hgap : (p.party side.other).conn.rx.recvBuffer.slots[i]? = some none) :
    ∃ q, (p.party side).conn.originals[(p.party side.other).conn.passed + i]? = some q
      ∧ q.seq = (p.party side.other).conn.rx.recvBuffer.base.add i
      ∧ (p.party side).conn.tx.sendBuffer.get q.seq = some q := by
  obtain ⟨c₀, a₀, hbegins⟩ := h.begins
  have hm := hbegins.matched
  have hbacked : p.Backed P c₀ a₀ := by
    rw [hp]
    exact Runs.invariant (fun _ _ hs hx => hs.step hm hx) (hbegins.backed hplain) hhonest
  have hfollows := hbacked.sound.follows side.other
  rw [Side.other_other] at hfollows
  have hlength := (hfollows hfew).length_le
  have hbase := (hfollows hfew).base
  have hnumbered := (hbacked.sound.sequenced side).numbered
  have hi := (List.getElem?_eq_some_iff.mp hgap).1
  obtain ⟨q, hq⟩ : ∃ q, (p.party side).conn.originals[(p.party side.other).conn.passed + i]? = some q :=
    ⟨_, List.getElem?_eq_getElem (by omega)⟩
  have hseq := hnumbered _ q hq
  refine ⟨q, hq, by rw [hseq, hbase, SeqNumber.add_add], ?_⟩
  have hheld : q ∈ (p.party side).conn.outstanding := by
    by_contra hgone
    have hreached := (hbacked.retains side hfew).released hshed hq hgone
    obtain ⟨packet, hat⟩ := ((p.party side.other).conn.rx.recvBuffer.le_contiguous_iff _).mp le_rfl i (by
      rw [reach] at hreached
      omega)
    rw [hgap] at hat
    cases hat
  obtain ⟨m, -, hout, -⟩ := hbacked.retains side hfew
  have hlen : (p.party side).conn.tx.sendBuffer.len ≤ 0x40000000 := by
    rw [SendBuffer.len_eq]
    change (p.party side).conn.outstanding.length ≤ _
    rw [hout, List.length_drop]
    omega
  exact SendBuffer.Contiguous.get_of_mem (hbacked.sound.kept.reached side).contiguous hlen hheld

/-- Only the second of two messages has arrived. -/
theorem gap_retransmittable_overtaken :
    ∃ q, ((Runs.run (step Primitives.absent) plainPair (acknowledged.take 4)).party .acceptor).conn.originals[
        ((Runs.run (step Primitives.absent) plainPair (acknowledged.take 4)).party
          (Side.other .acceptor)).conn.passed + 0]? = some q
      ∧ q.seq = ((Runs.run (step Primitives.absent) plainPair (acknowledged.take 4)).party
        (Side.other .acceptor)).conn.rx.recvBuffer.base.add 0
      ∧ ((Runs.run (step Primitives.absent) plainPair (acknowledged.take 4)).party
        .acceptor).conn.tx.sendBuffer.get q.seq = some q :=
  gap_retransmittable plainPair_opened plainPair_plain (acknowledged.take 4) (by decide +kernel) _ rfl .acceptor
    (by decide +kernel) (by decide +kernel) 0 (by decide +kernel)

/-- A drained close loses nothing. When one end has nothing queued or outstanding and has shed nothing, and the
other has skipped nothing and hears the SHUTDOWN, then all accepted messages have been delivered, in order,
and the end of the connection is reported after them. -/
theorem drained_close_complete {P : Primitives} {p₀ : Pair} (h : Opened P p₀) (hplain : p₀.Plain)
    (moves : List (Move × Instant)) (hhonest : Runs.Meets (step P) Honest p₀ moves) (p : Pair)
    (hp : p = Runs.run (step P) p₀ moves) (side : Side) (hfew : (p.party side).conn.originals.length < 2 ^ 30)
    (hqueued : (p.party side).conn.tx.sendQueue = []) (houtstanding : (p.party side).conn.outstanding = [])
    (hshed : (p.party side).conn.tx.stats.packetsDroppedSent = 0)
    (hskipped : (p.party side.other).conn.rx.stats.packetsDropped = 0)
    (hstate : (p.party side.other).conn.link.state = .connected) (d : Bytes) (hd : d ∈ (p.party side).emitted)
    (ctrl : ControlPacket) (hdec : Packet.decode d = .ok (.control ctrl)) (hbody : ctrl.body = .shutdown)
    (now : Instant) (s : Session) (hs : s = (p.party side.other).step P (.feedRecvBuf d, now)) :
    messages s.pushed = (p.party side).accepted ∧ s.pushed.getLast? = some .closed
      ∧ s.conn.link.state = .failed := by
  obtain ⟨c₀, a₀, hbegins⟩ := h.begins
  have hm := hbegins.matched
  have hbacked : p.Backed P c₀ a₀ := by
    rw [hp]
    exact Runs.invariant (fun _ _ hs hx => hs.step hm hx) (hbegins.backed hplain) hhonest
  obtain ⟨m, -, hout, hle⟩ := hbacked.retains side hfew
  have hreceives := @Sound.receives P c₀ a₀ p hbacked.sound hm side.other (.feedRecvBuf d) now
  rw [Side.other_other] at hreceives
  have hheard : ∀ d', Call.feedRecvBuf d = .feedRecvBuf d' → d' ∈ (p.party side).emitted := by
    intro d' he
    cases he
    exact hd
  obtain ⟨hfollows, hreach⟩ := hreceives hheard hfew
  have hreached' : s.Reached P := hs ▸ (hbacked.sound.kept.reached side.other).step _
  have hshutdown : ∃ c : Connection, c.rx = (p.party side.other).conn.rx ∧
      s.conn = { c.onShutdown with outputs := [] } := by
    refine ⟨{ (p.party side.other).conn with lastRecvAny := now }, rfl, ?_⟩
    obtain ⟨timestamp, dest, body⟩ := ctrl
    obtain rfl : body = .shutdown := hbody
    rw [hs]
    change { ((p.party side.other).conn.feedRecvBuf P d now) with outputs := [] } = _
    unfold feedRecvBuf
    rw [hdec]
    dsimp only
    rw [hstate]
    rfl
  obtain ⟨c, hrx, hconn⟩ := hshutdown
  obtain ⟨hgap, hdropped⟩ := flushLoop_spec (c.rx.recvBuffer.slots.length + 1) c (Nat.lt_succ_self _)
  have hflushed : s.conn.rx = (flushLoop (c.rx.recvBuffer.slots.length + 1) c).rx := by
    rw [hconn]
    rfl
  have hnone : s.conn.rx.stats.packetsDropped = 0 := by
    rw [hflushed, hdropped, hrx, hskipped]
  rw [← hs] at hfollows hreach
  have hall : (popped s.conn.trace).length = (p.party side).conn.originals.length := by
    have hpassed : s.conn.reach = (popped s.conn.trace).length := by
      rw [reach, hflushed, hgap, passed, hnone]
      rfl
    have hlength : (p.party side).conn.originals.length ≤ m := by
      rw [houtstanding] at hout
      exact List.drop_eq_nil_iff.mp hout.symm
    have hreached := hfollows.reach_le
    omega
  have htaken : (popped s.conn.trace).map DataPacket.firstSent = (p.party side).conn.originals := by
    refine (hfollows.taken.trans (List.take_sublist _ _)).eq_of_length ?_
    rw [List.length_map, hall]
  obtain ⟨sent, htraced⟩ := (hbacked.sound.kept.reached side).traced
  obtain ⟨spelled, tail, horiginals, -, -, hdone⟩ := htraced.spelled (hbacked.sound.bare side)
  obtain ⟨rfl, haccepted⟩ := hdone hqueued
  rw [List.append_nil] at horiginals
  have hnumbered := (hbacked.sound.sequenced side).numbered
  refine ⟨?_, ?_, ?_⟩
  · rw [hreached'.delivers, ← Reassembler.pushAll_firstSent, htaken, ← haccepted, horiginals]
    rw [horiginals] at hnumbered hfew
    rw [Spelled.pushAll_stream spelled hnumbered (hnumbered.nodup (by omega)) (fun _ _ => by simp [Reassembler.empty])
      (List.Sublist.refl _), Parcel.complete_stream]
  · rw [Session.pushed, hconn]
    change (s.polled ++ (_ ++ [Event.closed])).getLast? = _
    rw [← List.append_assoc, List.getLast?_concat]
  · rw [hconn]
    rfl

/-- The same two messages, and a close. -/
def drained : List (Move × Instant) := acknowledged ++ [(.call .acceptor .close, 12000000)]

def farewell : ControlPacket := ⟨⟨12000⟩, ⟨1⟩, .shutdown⟩

theorem drained_close_complete_drained :
    messages ((Runs.run (step Primitives.absent) plainPair drained).party (Side.other .acceptor)).pushed = [] ∧
    messages (((Runs.run (step Primitives.absent) plainPair drained).party (Side.other .acceptor)).step
        Primitives.absent (.feedRecvBuf ((Packet.control farewell).encode.getD []), 13000000)).pushed
      = ((Runs.run (step Primitives.absent) plainPair drained).party .acceptor).accepted :=
  ⟨by decide +kernel, (drained_close_complete plainPair_opened plainPair_plain drained (by decide +kernel) _ rfl
    .acceptor (by decide +kernel) (by decide +kernel) (by decide +kernel) (by decide +kernel) (by decide +kernel)
    (by decide +kernel) ((Packet.control farewell).encode.getD []) (by decide +kernel) farewell (by decide +kernel)
    rfl 13000000 _ rfl).1⟩

end Pair

end Srtrust
