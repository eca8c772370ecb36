import Srtrust.Session.Effects

/-! # The delivery timer

Timed delivery leaves the TSBPD timer armed for the play time of the earliest packet it
leaves behind, and nothing that follows in the same call moves that play time: every handler
that changes the buffer, the anchor or the drift delivers afterwards. -/
namespace Srtrust
open BigEndian
set_option autoImplicit false

namespace Connection

/-- What the play time of the earliest packet depends on. -/
def timeline (c : Connection) :
    RecvBuffer × Option (Timestamp × Instant) × Option TsbpdWrap × DriftTracer × Duration :=
  (c.rx.recvBuffer, c.rx.tsbpdBase, c.rx.tsWrap, c.rx.drift, c.link.latency)

/-- A buffered packet has a timeline to play on. -/
structure Anchored (c : Connection) : Prop where
  base : c.rx.recvBuffer.slots ≠ [] → c.rx.tsbpdBase.isSome
  wrap : c.rx.tsbpdBase.isSome → c.rx.tsWrap.isSome

/-- The delivery timer is set for the play time of the earliest buffered packet. -/
def PlayoutArmed (c : Connection) (w : Wheel) (now : Instant) : Prop :=
  ∀ seq timestamp, c.rx.recvBuffer.peek = some (seq, timestamp) →
    ∃ t, c.tsbpdPlayTime timestamp = some t ∧ c.wheelAfter w now .tsbpd = some t

section Timeline

variable {c c' : Connection} {w : Wheel} {now : Instant}

theorem tsbpdPlayTime_congr (h : c'.timeline = c.timeline) (timestamp : Timestamp) :
    c'.tsbpdPlayTime timestamp = c.tsbpdPlayTime timestamp := by
  simp only [timeline, Prod.mk.injEq] at h
  obtain ⟨-, hbase, hwrap, hdrift, hlatency⟩ := h
  simp only [tsbpdPlayTime, tsbpdExpectedArrival, hbase, hwrap, hdrift, hlatency]

theorem Anchored.congr (hc : c.Anchored) (h : c'.timeline = c.timeline) : c'.Anchored := by
  simp only [timeline, Prod.mk.injEq] at h
  obtain ⟨hbuffer, hbase, hwrap, -, -⟩ := h
  exact ⟨by rw [hbuffer, hbase]; exact hc.base, by rw [hbase, hwrap]; exact hc.wrap⟩

theorem PlayoutArmed.congr (hc : c.PlayoutArmed w now) (h : c'.timeline = c.timeline)
    (hw : c'.wheelAfter w now .tsbpd = c.wheelAfter w now .tsbpd) : c'.PlayoutArmed w now := by
  intro seq timestamp hp
  have hbuffer : c'.rx.recvBuffer = c.rx.recvBuffer := congrArg Prod.fst h
  rw [tsbpdPlayTime_congr h, hw]
  exact hc seq timestamp (hbuffer ▸ hp)

theorem Anchored.playTime (hc : c.Anchored) (h : c.rx.recvBuffer.slots ≠ []) (timestamp : Timestamp) :
    ∃ t, c.tsbpdPlayTime timestamp = some t := by
  obtain ⟨base, hbase⟩ := Option.isSome_iff_exists.mp (hc.base h)
  obtain ⟨wrap, hwrap⟩ := Option.isSome_iff_exists.mp (hc.wrap (hc.base h))
  exact ⟨_, by simp [tsbpdPlayTime, tsbpdExpectedArrival, hbase, hwrap]; rfl⟩

end Timeline

/-! ## Delivery -/

theorem deliverPacket_timeline (c : Connection) (packet : DataPacket) :
    (c.deliverPacket packet).timeline = c.timeline := by
  unfold deliverPacket
  dsimp only
  split <;> rfl

theorem deliverPopped_timeline (c : Connection) (packet : DataPacket) (rest : RecvBuffer) :
    (c.deliverPopped packet rest).timeline = (rest, c.timeline.2) := by
  rw [deliverPopped, deliverPacket_timeline]
  rfl

theorem deliverPopped_anchored {c : Connection} (packet : DataPacket) {rest : RecvBuffer}
    (hc : c.Anchored) (hne : c.rx.recvBuffer.slots ≠ []) : (c.deliverPopped packet rest).Anchored := by
  have h := deliverPopped_timeline c packet rest
  simp only [timeline, Prod.mk.injEq] at h
  obtain ⟨-, hbase, hwrap, -⟩ := h
  refine ⟨fun _ => ?_, ?_⟩
  · rw [hbase]
    exact hc.base hne
  · rw [hbase, hwrap]
    exact hc.wrap

theorem deliverLoop_playout (w : Wheel) (now : Instant) (fuel : ℕ) (c : Connection)
    (hc : c.Anchored) (hfuel : c.rx.recvBuffer.slots.length < fuel) :
    (deliverLoop now fuel c).PlayoutArmed w now ∧ (deliverLoop now fuel c).Anchored := by
  induction fuel generalizing c with
  | zero => omega
  | succ fuel ih =>
    unfold deliverLoop
    split
    · next hpeek =>
      refine ⟨fun seq timestamp hp => ?_, hc.congr rfl⟩
      have : (none : Option (SeqNumber × Timestamp)) = some (seq, timestamp) := hpeek ▸ hp
      simp at this
    · next seq timestamp hpeek =>
      have hne : c.rx.recvBuffer.slots ≠ [] := fun h => by
        rw [(RecvBuffer.peek_eq_none_iff _).mpr h] at hpeek
        simp at hpeek
      obtain ⟨t, ht⟩ := hc.playTime hne timestamp
      rw [ht]
      dsimp only
      split
      · next hlt =>
        refine ⟨fun seq' timestamp' hp => ⟨t, ?_, ?_⟩, hc.congr rfl⟩
        · have he : some (seq, timestamp) = some (seq', timestamp') := hpeek ▸ hp
          simp only [Option.some.injEq, Prod.mk.injEq] at he
          rw [← he.2]
          exact ht
        · rw [wheelAfter_output, Wheel.apply, Wheel.set_self]
          rw [Instant.add_saturatingDurationSince hlt.le]
      · split
        · next hpop => exact absurd ((RecvBuffer.pop_eq_none_iff _).mp hpop) hne
        · next packet rest hpop =>
          obtain ⟨-, hslots, -, -⟩ := RecvBuffer.pop_spec _ _ _ hpop
          refine ih _ (deliverPopped_anchored packet hc hne) ?_
          have hbuffer : (c.deliverPopped packet rest).rx.recvBuffer = rest :=
            congrArg Prod.fst (deliverPopped_timeline c packet rest)
          have hpos := List.length_pos_iff.mpr hne
          rw [hbuffer, hslots, List.length_drop]
          omega

theorem deliverTsbpd_playout (w : Wheel) {c : Connection} (now : Instant) (hc : c.Anchored) :
    (c.deliverTsbpd now).PlayoutArmed w now ∧ (c.deliverTsbpd now).Anchored :=
  deliverLoop_playout w now _ c hc (Nat.lt_succ_self _)

/-! ## Handlers of the receiving half -/

/-- The delivery timer and what it rests on. -/
structure Playout (c : Connection) (w : Wheel) (now : Instant) : Prop where
  anchored : c.Anchored
  armed : c.PlayoutArmed w now

section Handlers

variable {c c' : Connection} {w : Wheel} {now : Instant}

theorem Playout.congr (hc : c.Playout w now) (h : c'.timeline = c.timeline)
    (hw : c'.wheelAfter w now .tsbpd = c.wheelAfter w now .tsbpd) : c'.Playout w now :=
  ⟨hc.anchored.congr h, hc.armed.congr h hw⟩

theorem Playout.inner {ids : List TimerId} (hc : c.Playout w now) (hi : Inner ids c c')
    (hid : .tsbpd ∉ ids) (hrx : c'.rx = c.rx) : c'.Playout w now :=
  hc.congr (by simp only [timeline, hrx, hi.link]) (hi.grows.wheelAfter_eq hid)

theorem emitControl_timeline (c : Connection) (body : ControlBody) (now : Instant) :
    (c.emitControl body now).timeline = c.timeline := by
  unfold emitControl
  split <;> rfl

theorem emitControl_playout (body : ControlBody) (hc : c.Playout w now) :
    (c.emitControl body now).Playout w now :=
  hc.congr (emitControl_timeline c body now)
    ((Inner.emitControl c body now).grows.wheelAfter_eq List.not_mem_nil)

theorem sendNak_playout (missing : List (SeqNumber × SeqNumber)) (hc : c.Playout w now) :
    (c.sendNak missing now).Playout w now := by
  have h1 : c.countNakSent.Playout w now := hc.congr rfl rfl
  exact (emitControl_playout _ h1).congr rfl rfl

theorem lightAckIfDue_playout (hc : c.Playout w now) : (c.lightAckIfDue now).Playout w now := by
  have h1 : c.countTowardsAck.Playout w now := hc.congr rfl rfl
  unfold lightAckIfDue
  split
  · have h2 : c.countTowardsAck.noteLightAck.Playout w now := h1.congr rfl rfl
    exact emitControl_playout _ h2
  · exact h1

theorem reportGaps_playout (hc : c.Playout w now) : (c.reportGaps now).Playout w now := by
  unfold reportGaps
  dsimp only
  split
  · split
    · exact (sendNak_playout _ hc).congr rfl rfl
    · exact hc
  · exact hc.congr rfl rfl

theorem trackReorder_timeline (rx : Receiver) (seq : SeqNumber) (retransmitted : Bool) :
    (trackReorder rx seq retransmitted).recvBuffer = rx.recvBuffer ∧
      (trackReorder rx seq retransmitted).tsbpdBase = rx.tsbpdBase ∧
      (trackReorder rx seq retransmitted).tsWrap = rx.tsWrap := by
  unfold trackReorder
  dsimp only
  split
  · exact ⟨rfl, rfl, rfl⟩
  · split
    · exact ⟨rfl, rfl, rfl⟩
    · split
      · split <;> exact ⟨rfl, rfl, rfl⟩
      · exact ⟨rfl, rfl, rfl⟩

/-- After the anchoring every packet has a timeline, however the buffer has changed. -/
theorem anchorTsbpd_anchored (timestamp : Timestamp) (now : Instant)
    (hwrap : c.rx.tsbpdBase.isSome → c.rx.tsWrap.isSome) :
    (c.anchorTsbpd timestamp now).Anchored := by
  unfold anchorTsbpd
  split
  · exact ⟨fun _ => rfl, fun _ => rfl⟩
  · next hb => exact ⟨fun _ => by simp [hb], fun h => by simpa using hwrap (by simp [hb])⟩

theorem sampleDrift_anchored (data : DataPacket) (now : Instant) (hc : c.Anchored) :
    (c.sampleDrift data now).Anchored := by
  unfold sampleDrift
  split
  · exact ⟨hc.base, hc.wrap⟩
  · exact hc

theorem afterInsert_playout (data : DataPacket) (b : RecvBuffer)
    (hwrap : c.rx.tsbpdBase.isSome → c.rx.tsWrap.isSome) : (c.afterInsert data b now).Playout w now := by
  have h1 : (c.recordArrival data b now).rx.tsbpdBase.isSome →
      (c.recordArrival data b now).rx.tsWrap.isSome := by
    have h := trackReorder_timeline
    unfold recordArrival
    dsimp only
    rw [(h _ _ _).2.1, (h _ _ _).2.2]
    exact hwrap
  have h2 := sampleDrift_anchored data now (anchorTsbpd_anchored data.timestamp now h1)
  obtain ⟨harmed, hanchored⟩ := deliverTsbpd_playout w now h2
  exact reportGaps_playout (lightAckIfDue_playout ⟨hanchored, harmed⟩)

theorem insertData_playout (P : Primitives) (data : DataPacket) (hc : c.Playout w now) :
    (c.insertData P data now).Playout w now := by
  unfold insertData
  by_cases hfull : c.availableRecvBuffer = 0
  · rw [if_pos hfull]
    exact hc.congr rfl rfl
  · rw [if_neg hfull]
    cases c.openPacket P data with
    | none => exact hc.congr rfl rfl
    | some result =>
      have h1 : (c.record result.2).Playout w now := hc.congr rfl rfl
      dsimp only
      split
      · exact afterInsert_playout _ _ h1.anchored.wrap
      · exact h1.congr rfl rfl

theorem injectRecovered_playout (P : Primitives) (rp : RecoveredPacket) (hc : c.Playout w now) :
    (c.injectRecovered P rp now).Playout w now := by
  unfold injectRecovered
  split
  · exact hc
  · exact insertData_playout P _ (hc.congr rfl rfl)

theorem injectAll_playout (P : Primitives) (recovered : List RecoveredPacket)
    (hc : c.Playout w now) : (c.injectAll P recovered now).Playout w now := by
  unfold injectAll
  induction recovered generalizing c with
  | nil => exact hc
  | cons rp rest ih => exact ih (injectRecovered_playout P rp hc)

theorem onData_playout (P : Primitives) (data : DataPacket) (hc : c.Playout w now) :
    (c.onData P data now).Playout w now := by
  unfold onData
  split
  · exact insertData_playout P data hc
  · split
    · exact injectAll_playout P _ (hc.congr rfl rfl)
    · exact injectAll_playout P _ (insertData_playout P data (hc.congr rfl rfl))

theorem replaceBuffer_anchored {b : RecvBuffer} (skipped : ℕ)
    (hb : b.slots ≠ [] → c.rx.recvBuffer.slots ≠ []) (hc : c.Anchored) :
    (c.replaceBuffer b skipped).Anchored :=
  ⟨fun h => hc.base (hb h), hc.wrap⟩

theorem skipRange_anchored (first last : SeqNumber) (hc : c.Anchored) :
    (c.skipRange first last).Anchored := by
  refine replaceBuffer_anchored _ (fun h he => h ?_) hc
  rcases RecvBuffer.dropRange_cases c.rx.recvBuffer first last with hs | ⟨n, -, -, hs, -⟩
  · rw [hs, he]
  · rw [hs, he, List.drop_nil]

theorem onDropreq_playout (first last : SeqNumber) (hc : c.Playout w now) :
    (c.onDropreq first last now).Playout w now := by
  obtain ⟨harmed, hanchored⟩ := deliverTsbpd_playout w now (skipRange_anchored first last hc.anchored)
  exact ⟨hanchored, harmed⟩

theorem onAckack_playout (ackNumber : UInt32) (hc : c.Playout w now) :
    (c.onAckack ackNumber now).Playout w now := by
  unfold onAckack
  split
  · exact hc
  · split
    · exact hc
    · exact hc.congr rfl rfl

end Handlers

end Connection

end Srtrust
