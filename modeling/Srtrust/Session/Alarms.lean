import Srtrust.Connection.Origination
import Srtrust.Session.Introduction
import Srtrust.Session.Playout

/-! # The timers a connection waits on

A connected endpoint makes progress only when a timer fires or a datagram arrives. `Alert` says that
every timer with something to do is armed; each handler keeps it, and the handler of a timer arms
that timer again if there is still something to do. -/
namespace Srtrust
open BigEndian
set_option autoImplicit false

namespace Connection

/-- What a timer has to be armed for in the connected phase; the delivery timer is left to
`PlayoutArmed`. -/
def Awaits (c : Connection) : TimerId → Prop
  | .ack => True
  | .nak => True
  | .keepalive => True
  | .peerIdle => True
  | .exp => c.outstanding ≠ []
  | .sndPacing => c.tx.sendQueue ≠ []
  | .linger => c.link.closing = true
  | .tsbpd => False
  | .handshake => False

def Armed (c : Connection) (w : Wheel) (now : Instant) (id : TimerId) : Prop :=
  c.Awaits id → (c.wheelAfter w now id).isSome

section Armed

variable {c c' : Connection} {w : Wheel} {now : Instant} {id : TimerId}

theorem awaits_congr (htx : c'.tx = c.tx) (hlink : c'.link = c.link) (id : TimerId) :
    c'.Awaits id ↔ c.Awaits id := by
  cases id <;> simp only [Awaits, outstanding, htx, hlink]

theorem Armed.inner {ids : List TimerId} (hc : c.Armed w now id) (h : Inner ids c c') (hid : id ∉ ids)
    (haw : c'.Awaits id → c.Awaits id) : c'.Armed w now id := by
  intro ha
  rw [h.grows.wheelAfter_eq hid]
  exact hc (haw ha)

theorem Armed.rxStep (hc : c.Armed w now id) (h : RxStep c c') : c'.Armed w now id := by
  by_cases hid : id = .tsbpd
  · subst hid
    exact False.elim
  · exact hc.inner h.inner (by simpa using hid) (awaits_congr h.tx h.link id).mp

theorem Armed.keyStep (hc : c.Armed w now id) (h : KeyStep c c') : c'.Armed w now id :=
  hc.inner h.inner List.not_mem_nil (awaits_congr h.tx h.link id).mp

/-- Feedback gives no timer anything new to do. -/
theorem Feedback.awaits {ids : List TimerId} (h : Feedback ids c c') (ha : c'.Awaits id) : c.Awaits id := by
  cases id with
  | exp => exact fun hnil => ha (List.suffix_nil.mp (hnil ▸ h.outstanding))
  | sndPacing =>
    have hqueue : c'.tx.sendQueue = c.tx.sendQueue := congrArg (·.2.2.1) h.origin
    exact fun hnil => ha (hqueue.trans hnil)
  | linger => exact (congrArg Link.closing h.link).symm.trans ha
  | _ => exact ha

theorem Armed.feedback {ids : List TimerId} (hc : c.Armed w now id) (h : Feedback ids c c')
    (hid : id ∉ ids) : c'.Armed w now id := by
  intro ha
  rw [h.grows.wheelAfter_eq hid]
  exact hc (h.awaits ha)

/-- Arming a timer arms it, and leaves the others as they are. -/
theorem output_setTimer_armed (id' : TimerId) (after : Duration) (hc : id ≠ id' → c.Armed w now id) :
    (c.output (.setTimer id' after)).Armed w now id := by
  intro ha
  rw [wheelAfter_output]
  by_cases hid : id = id'
  · subst hid
    rw [Wheel.apply, Wheel.set_self]
    rfl
  · rw [Wheel.apply, Wheel.set_ne _ _ hid]
    exact hc hid ((awaits_congr rfl rfl id).mp ha)

/-- A timer with nothing to do may be cancelled. -/
theorem output_clearTimer_armed (id' : TimerId) (hc : id ≠ id' → c.Armed w now id)
    (hidle : ¬ c.Awaits id') : (c.output (.clearTimer id')).Armed w now id := by
  intro ha
  have haw := (@awaits_congr c (c.output (.clearTimer id')) rfl rfl id).mp ha
  have hid : id ≠ id' := fun h => hidle (h ▸ haw)
  rw [wheelAfter_output, Wheel.apply, Wheel.set_ne _ _ hid]
  exact hc hid haw

end Armed

/-! ## The retransmission timer -/

section Sender

variable {c : Connection} {w : Wheel} {now : Instant} {id : TimerId}

theorem awaits_exp_iff (c : Connection) : c.Awaits .exp ↔ c.tx.sendBuffer.isEmpty = false := by
  rw [Awaits, outstanding, SendBuffer.content, SendBuffer.isEmpty]
  cases c.tx.sendBuffer.packets <;> simp

theorem not_awaits_exp (h : c.tx.sendBuffer.isEmpty = true) : ¬ c.Awaits .exp := by
  rw [awaits_exp_iff, h]
  exact Bool.noConfusion

theorem clearExpIfEmpty_armed (hc : c.Armed w now id) : c.clearExpIfEmpty.Armed w now id := by
  unfold clearExpIfEmpty
  split
  · next hempty => exact output_clearTimer_armed .exp (fun _ => hc) (not_awaits_exp hempty)
  · exact hc

theorem dropTooLate_armed (hc : c.Armed w now id) : (c.dropTooLate now).Armed w now id := by
  unfold dropTooLate
  split
  · next first last hfirst hlast =>
    have hsaid := (@dropShed_feedback [] c now).retract (UInt32.ofNat last.packet.messageNumber.value)
      (shed_outstanding (List.mem_of_mem_head? hfirst)) (shed_outstanding (List.mem_of_mem_getLast? hlast)) now
    exact clearExpIfEmpty_armed (hc.feedback hsaid List.not_mem_nil)
  · exact hc

theorem onNak_armed (loss : List LossRange) (hc : c.Armed w now id) : (c.onNak loss now).Armed w now id := by
  have hcount : Feedback [] c c.countNak := .ofTx c _ rfl List.suffix_rfl
  exact (dropTooLate_armed (hc.feedback hcount List.not_mem_nil)).feedback
    (.foldl (fun d range => retransmitRange_feedback d _ _ now) loss _) List.not_mem_nil

theorem armExp_armed (hc : id ≠ .exp → c.Armed w now id) : c.armExp.Armed w now id :=
  output_setTimer_armed .exp _ hc

/-- The retransmission timer that has fired is armed again while a packet is outstanding. -/
theorem onExpTimer_armed (hs : c.link.state = .connected) (hc : id ≠ .exp → c.Armed w now id) :
    (c.onExpTimer now).Armed w now id := by
  have hother : id ≠ .exp → (c.onExpTimer now).Armed w now id := fun hid =>
    (hc hid).feedback (onExpTimer_feedback c now) (by simpa using hid)
  by_cases hid : id = .exp
  · subst hid
    unfold onExpTimer
    split
    · next hempty =>
      intro ha
      exact absurd ha (not_awaits_exp (hempty.resolve_left (not_not.mpr hs)))
    · dsimp only
      split
      · next hempty =>
        intro ha
        exact absurd ha (not_awaits_exp hempty)
      · exact armExp_armed (fun h => absurd rfl h)
  · exact hother hid

theorem rearmExp_armed (hc : id ≠ .exp → c.Armed w now id) : c.rearmExp.Armed w now id := by
  unfold rearmExp
  split
  · next hempty => exact output_clearTimer_armed .exp hc (not_awaits_exp hempty)
  · exact armExp_armed hc

theorem settleAck_armed (ack : Ack) (hc : c.Armed w now id) : (c.settleAck ack now).Armed w now id := by
  refine rearmExp_armed fun hid => ?_
  exact hc.feedback (((releaseAcked_feedback c ack).trans (dropTooLate_feedback _ now)).trans
    (resetBackoff_feedback _)) (by simpa using hid)

theorem panicked_armed (hc : c.Armed w now id) : c.panicked.Armed w now id :=
  fun ha => hc ((awaits_congr rfl rfl id).mp ha)

/-- The outputs of an originated packet: datagrams, and the retransmission timer if the packet is the
only one outstanding. -/
theorem originated_wheel (stored : DataPacket) (v : Wheel) :
    Wheel.applyAll now v ([.sendDatagram stored.encode] ++ c.parityOutputs stored ++ c.armOutputs)
      = Wheel.applyAll now v c.armOutputs := by
  rw [Wheel.applyAll_append, Wheel.applyAll_append]
  unfold parityOutputs
  split <;> rfl

theorem sendData_armed (P : Primitives) (fragment : Fragment) (hc : c.Armed w now id) :
    (c.sendData P fragment now).Armed w now id := by
  have htx := sendData_txStep P c fragment now
  rcases sendData_cases P c fragment now with h | ⟨stored, calls, h⟩
  · rw [h]
    exact panicked_armed hc
  · generalize c.sendData P fragment now = d at htx h
    intro ha
    by_cases hid : id = .exp
    · subst hid
      rw [wheelAfter, h.outputs, Wheel.applyAll_append, originated_wheel]
      unfold armOutputs
      split
      · rfl
      · next hfull => exact hc ((awaits_exp_iff c).mpr (by simpa using hfull))
    · rw [htx.grows.wheelAfter_eq (by simpa using hid)]
      refine hc ?_
      have hqueue : d.tx.sendQueue = c.tx.sendQueue := by rw [h.tx]; rfl
      cases id with
      | exp => exact absurd rfl hid
      | sndPacing => exact fun hnil => ha (hqueue.trans hnil)
      | linger => exact (congrArg Link.closing h.link).symm.trans ha
      | _ => exact ha

/-- Work on the pacing queue and its schedule concerns the pacing timer alone. -/
theorem Armed.queued {c' : Connection} (hid : id ≠ .sndPacing) (hc : c.Armed w now id)
    (hb : c'.tx.sendBuffer = c.tx.sendBuffer) (hlink : c'.link = c.link) (hout : c'.outputs = c.outputs) :
    c'.Armed w now id := by
  intro ha
  rw [wheelAfter, hout]
  refine hc ?_
  cases id with
  | exp => rwa [awaits_exp_iff, hb, ← awaits_exp_iff] at ha
  | sndPacing => exact absurd rfl hid
  | linger => exact (congrArg Link.closing hlink).symm.trans ha
  | _ => exact ha

theorem release_armed (P : Primitives) (period : Duration) (hid : id ≠ .sndPacing)
    (hc : c.Armed w now id) : (c.release P period now).Armed w now id := by
  refine @release_rule (fun d => d.Armed w now id) P period now (fun d t hd => ?_)
    (fun d fragment rest hd _ => ?_) c hc
  · exact hd.queued hid rfl rfl rfl
  · exact sendData_armed P fragment (hd.queued hid rfl rfl rfl)

/-- A close that does not end changes nothing. -/
theorem finishCloseIfDrained_connected (hs : (c.finishCloseIfDrained now).link.state = .connected) :
    c.finishCloseIfDrained now = c := by
  unfold finishCloseIfDrained at hs ⊢
  split at hs
  · rw [finalizeShutdown_link] at hs
    exact absurd hs (by simp)
  · next hopen => rw [if_neg hopen]

/-- Scheduling arms the pacing timer for what is left in the queue; with nothing left the timer is
cancelled, and a close may end. -/
theorem schedulePacing_armed (hc : id ≠ .sndPacing → c.Armed w now id)
    (hs : (c.schedulePacing now).link.state = .connected) : (c.schedulePacing now).Armed w now id := by
  unfold schedulePacing at hs ⊢
  split at hs
  · next hempty =>
    have hidle : ¬ c.Awaits .sndPacing := fun h => h (List.isEmpty_iff.mp hempty)
    rw [if_pos hempty, finishCloseIfDrained_connected hs]
    exact output_clearTimer_armed .sndPacing hc hidle
  · next hfull =>
    rw [if_neg hfull]
    exact output_setTimer_armed .sndPacing _ hc

end Sender

/-! ## The connected phase -/

/-- Every timer with something to do is armed, apart from one that has just fired. -/
structure Alert (spent : Option TimerId) (c : Connection) (w : Wheel) (now : Instant) : Prop where
  armed : ∀ id, some id ≠ spent → c.Armed w now id
  anchored : c.Anchored
  playout : spent ≠ some .tsbpd → c.PlayoutArmed w now
  unpaced : c.tx.liveCc = none → c.tx.sendQueue = []

section Alert

variable {spent : Option TimerId} {c c' : Connection} {w : Wheel} {now : Instant}

theorem Alert.rxStep (hc : c.Alert none w now) (h : RxStep c c') (hp : c'.Playout w now) :
    c'.Alert none w now :=
  ⟨fun id hid => (hc.armed id hid).rxStep h, hp.anchored, fun _ => hp.armed, by rw [h.tx]; exact hc.unpaced⟩

theorem Alert.toPlayout (hc : c.Alert none w now) : c.Playout w now := ⟨hc.anchored, hc.playout (by simp)⟩

theorem Alert.keyStep (hspent : spent ≠ some .tsbpd) (hc : c.Alert spent w now) (h : KeyStep c c') :
    c'.Alert spent w now := by
  have hp := Playout.inner ⟨hc.anchored, hc.playout hspent⟩ h.inner List.not_mem_nil h.rx
  exact ⟨fun id hid => (hc.armed id hid).keyStep h, hp.anchored, fun _ => hp.armed,
    by rw [h.tx]; exact hc.unpaced⟩

/-- Work of the sending half that arms what it has to. -/
theorem Alert.sending {ids : List TimerId} (hc : c.Alert none w now) (h : Inner ids c c')
    (hid : .tsbpd ∉ ids) (hrx : c'.rx = c.rx) (ha : ∀ id, c'.Armed w now id)
    (hq : c'.tx.liveCc = none → c'.tx.sendQueue = []) : c'.Alert none w now := by
  have hp := hc.toPlayout.inner h hid hrx
  exact ⟨fun id _ => ha id, hp.anchored, fun _ => hp.armed, hq⟩

theorem Feedback.unpaced {ids : List TimerId} (h : Feedback ids c c')
    (hq : c.tx.liveCc = none → c.tx.sendQueue = []) : c'.tx.liveCc = none → c'.tx.sendQueue = [] := by
  have hqueue : c'.tx.sendQueue = c.tx.sendQueue := congrArg (·.2.2.1) h.origin
  have hlive : c'.tx.liveCc.isSome = c.tx.liveCc.isSome := congrArg (·.2.2.2.2.2.2) h.origin
  intro hnone
  rw [hqueue]
  refine hq ?_
  rw [hnone] at hlive
  exact Option.isSome_eq_false_iff.mp hlive.symm |> Option.isNone_iff_eq_none.mp

/-- A timer that has fired and is armed again. -/
theorem Alert.rearm {id : TimerId} (hid : id ≠ .tsbpd) (hc : c.Alert (some id) w now) (after : Duration) :
    (c.output (.setTimer id after)).Alert none w now := by
  refine ⟨fun id' _ => output_setTimer_armed id after fun hne => hc.armed id' (by simpa using hne),
    ⟨hc.anchored.base, hc.anchored.wrap⟩, fun _ => ?_, hc.unpaced⟩
  have harmed : c.PlayoutArmed w now := hc.playout (by simpa using hid)
  refine harmed.congr rfl ?_
  rw [wheelAfter_output, Wheel.apply, Wheel.set_ne _ _ hid.symm]

theorem Alert.congr (hc : c.Alert none w now) (htx : c'.tx = c.tx) (hrx : c'.rx = c.rx)
    (hlink : c'.link = c.link) (hout : c'.outputs = c.outputs) : c'.Alert none w now := by
  have hp : c'.Playout w now :=
    hc.toPlayout.congr (by simp only [timeline, hrx, hlink]) (by rw [wheelAfter, hout]; rfl)
  refine ⟨fun id hid ha => ?_, hp.anchored, fun _ => hp.armed, by rw [htx]; exact hc.unpaced⟩
  rw [wheelAfter, hout]
  exact hc.armed id hid ((awaits_congr htx hlink id).mp ha)

theorem sendFullAck_playout (hc : c.Playout w now) : (c.sendFullAck now).Playout w now :=
  emitControl_playout _ (hc.congr rfl rfl)

theorem onAckTimer_alert (hs : c.link.state = .connected) (hc : c.Alert (some .ack) w now) :
    (c.onAckTimer now).Alert none w now := by
  have h := hc.rearm (by simp) ackInterval
  rw [onAckTimer, if_neg (not_not.mpr hs)]
  dsimp only
  generalize c.output (.setTimer .ack ackInterval) = d at h
  split
  · exact h
  · exact h.rxStep (sendFullAck_rxStep d now) (sendFullAck_playout h.toPlayout)

theorem onNakTimer_alert (hs : c.link.state = .connected) (hc : c.Alert (some .nak) w now) :
    (c.onNakTimer now).Alert none w now := by
  have h := hc.rearm (by simp) c.nakInterval
  rw [onNakTimer, if_neg (not_not.mpr hs)]
  dsimp only
  generalize c.output (.setTimer .nak c.nakInterval) = d at h
  split
  · exact h
  · split
    · exact h
    · exact h.rxStep (sendNak_rxStep d _ now) (sendNak_playout _ h.toPlayout)

theorem onKeepaliveTimer_alert (hs : c.link.state = .connected) (hc : c.Alert (some .keepalive) w now) :
    (c.onKeepaliveTimer now).Alert none w now := by
  have h := hc.keyStep (by simp) (resendPendingKm_keyStep c now)
  rw [onKeepaliveTimer, if_neg (not_not.mpr hs)]
  dsimp only
  generalize c.resendPendingKm now = d at h
  split
  · exact (h.keyStep (by simp) (.emitControl d .keepalive now fun _ _ => trivial)).rearm (by simp) _
  · exact h.rearm (by simp) _

theorem onPeerIdleTimer_alert (hs : c.link.state = .connected) (hc : c.Alert (some .peerIdle) w now)
    (hs' : (c.onPeerIdleTimer now).link.state = .connected) : (c.onPeerIdleTimer now).Alert none w now := by
  rw [onPeerIdleTimer, if_neg (not_not.mpr hs)] at hs' ⊢
  dsimp only at hs' ⊢
  split at hs'
  · exact absurd hs' (by simp [fail, clearArqTimers, event])
  · next hlive =>
    rw [if_neg hlive]
    exact hc.rearm (by simp) _

theorem onExpTimer_alert (hs : c.link.state = .connected) (hc : c.Alert (some .exp) w now) :
    (c.onExpTimer now).Alert none w now := by
  have h := onExpTimer_feedback c now
  have hp : c.Playout w now := ⟨hc.anchored, hc.playout (by simp)⟩
  have hp' := hp.inner h.txStep.inner (by simp) h.rx
  exact ⟨fun id _ => onExpTimer_armed hs fun hid => hc.armed id (by simpa using hid), hp'.anchored,
    fun _ => hp'.armed, h.unpaced hc.unpaced⟩

theorem onNak_alert (loss : List LossRange) (hc : c.Alert none w now) :
    (c.onNak loss now).Alert none w now := by
  have h := onNak_feedback c loss now
  exact hc.sending h.txStep.inner (by simp) h.rx (fun id => onNak_armed loss (hc.armed id (by simp)))
    (h.unpaced hc.unpaced)

theorem onAck_alert (ack : Ack) (hc : c.Alert none w now)
    (hs : (c.onAck ack now).link.state = .connected) : (c.onAck ack now).Alert none w now := by
  have h := settleAck_feedback c ack now
  have halert : (c.settleAck ack now).Alert none w now :=
    hc.sending h.txStep.inner (by simp) h.rx (fun id => settleAck_armed ack (hc.armed id (by simp)))
      (h.unpaced hc.unpaced)
  rw [onAck_eq] at hs ⊢
  have hanswer := answerAck_keyStep ((c.settleAck ack now).finishCloseIfDrained now) ack now
  rw [hanswer.link] at hs
  rw [finishCloseIfDrained_connected hs] at hanswer ⊢
  exact halert.keyStep (by simp) hanswer

theorem sendData_unpaced (P : Primitives) (fragment : Fragment)
    (hq : c.tx.liveCc = none → c.tx.sendQueue = []) :
    (c.sendData P fragment now).tx.liveCc = none → (c.sendData P fragment now).tx.sendQueue = [] := by
  rcases sendData_cases P c fragment now with h | ⟨stored, calls, h⟩
  · rw [h]
    exact hq
  · rw [h.tx]
    exact fun hnone => hq (Option.map_eq_none_iff.mp hnone)

theorem sendData_alert (P : Primitives) (fragment : Fragment) (hc : c.Alert none w now) :
    (c.sendData P fragment now).Alert none w now := by
  have h := sendData_txStep P c fragment now
  exact hc.sending h.inner (by simp) h.rx (fun id => sendData_armed P fragment (hc.armed id (by simp)))
    (sendData_unpaced P fragment hc.unpaced)

theorem release_live (P : Primitives) (c : Connection) (period : Duration) (now : Instant)
    (hlive : c.tx.liveCc.isSome) : (c.release P period now).tx.liveCc.isSome := by
  refine @release_rule (fun d => d.tx.liveCc.isSome) P period now (fun d t hd => hd)
    (fun d fragment rest hd _ => ?_) c hlive
  rcases sendData_cases P (d.setQueue rest) fragment now with h | ⟨stored, calls, h⟩
  · rw [h]
    exact hd
  · rw [h.liveCc]
    exact hd

/-- While the connection stays up, scheduling is one request for the pacing timer. -/
theorem schedulePacing_inner (hs : (c.schedulePacing now).link.state = .connected) :
    Inner [.sndPacing] c (c.schedulePacing now) ∧ (c.schedulePacing now).rx = c.rx
      ∧ (c.schedulePacing now).tx = c.tx := by
  unfold schedulePacing at hs ⊢
  split at hs
  · next hempty =>
    rw [if_pos hempty, finishCloseIfDrained_connected hs]
    exact ⟨.output c _ (by simp [Output.Touches]), rfl, rfl⟩
  · next hfull =>
    rw [if_neg hfull]
    exact ⟨.output c _ (by simp [Output.Touches]), rfl, rfl⟩

/-- A pacing slot, whether the timer fired or a message was queued. -/
theorem pace_alert (P : Primitives) (hc : c.Alert (some .sndPacing) w now)
    (hs : (c.pace P now).link.state = .connected) : (c.pace P now).Alert none w now := by
  unfold pace at hs ⊢
  cases hcc : c.tx.liveCc with
  | none =>
    have hqueue := hc.unpaced hcc
    refine ⟨fun id _ ha => ?_, hc.anchored, fun _ => hc.playout (by simp), hc.unpaced⟩
    by_cases hid : id = .sndPacing
    · subst hid
      exact absurd hqueue ha
    · exact hc.armed id (by simpa using hid) ha
  | some cc =>
    rw [hcc] at hs
    dsimp only at hs ⊢
    have htx := release_txStep P c cc.sndPeriod now
    have harmed : ∀ id, id ≠ .sndPacing → (c.release P cc.sndPeriod now).Armed w now id :=
      fun id hid => release_armed P _ hid (hc.armed id (by simpa using hid))
    have hlive := release_live P c cc.sndPeriod now (by rw [hcc]; rfl)
    have hp := Playout.inner ⟨hc.anchored, hc.playout (by simp)⟩ htx.inner (by simp) htx.rx
    generalize c.release P cc.sndPeriod now = d at hs harmed hlive hp ⊢
    obtain ⟨hinner, hrx, htx'⟩ := schedulePacing_inner hs
    have hp' := hp.inner hinner (by simp) hrx
    refine ⟨fun id _ => schedulePacing_armed (harmed id) hs, hp'.anchored, fun _ => hp'.armed, ?_⟩
    rw [htx']
    exact fun hnone => absurd hlive (by simp [hnone])

theorem submit_alert (P : Primitives) (payload : Bytes) (hc : c.Alert none w now)
    (hs : (c.submit P payload now).link.state = .connected) : (c.submit P payload now).Alert none w now := by
  have hcount : c.countMessage.Alert none w now :=
    ⟨fun id hid ha => hc.armed id hid (by cases id <;> exact ha), ⟨hc.anchored.base, hc.anchored.wrap⟩,
      hc.playout, hc.unpaced⟩
  unfold submit at hs ⊢
  dsimp only at hs ⊢
  split at hs
  · next hnone =>
    rw [if_pos hnone]
    generalize c.fragmentMessage payload c.tx.nextMessage = fragments
    generalize c.countMessage = d at hcount
    induction fragments generalizing d with
    | nil => exact hcount
    | cons fragment rest ih => exact ih _ (sendData_alert P fragment hcount)
  · next hsome =>
    rw [if_neg hsome]
    refine pace_alert P ?_ hs
    refine ⟨fun id hid => (hcount.armed id (by simp)).queued (by simpa using hid) rfl rfl rfl,
      ⟨hc.anchored.base, hc.anchored.wrap⟩, fun _ => hc.playout (by simp), fun hnone => ?_⟩
    exact absurd hnone (by simpa [enqueue, countMessage] using hsome)

theorem close_alert (hc : c.Alert none w now) (hs : (c.close now).link.state = .connected) :
    (c.close now).Alert none w now := by
  unfold close at hs ⊢
  split at hs
  · next h =>
    rw [if_pos h]
    exact hc
  · next h =>
    rw [if_neg h]
    split at hs
    · exact absurd hs (by simp [fail, event])
    · next hconn =>
      rw [if_neg hconn]
      split at hs
      · rw [finalizeShutdown_link] at hs
        exact absurd hs (by simp)
      · next hbusy =>
        rw [if_neg hbusy]
        unfold beginClose
        generalize hd : ({ c with link := { c.link with closing := true } } : Connection) = d
        have halert : d.Alert (some .linger) w now := by
          subst hd
          refine ⟨fun id hid ha => hc.armed id (by simp) ?_, ⟨hc.anchored.base, hc.anchored.wrap⟩,
            fun _ => hc.playout (by simp), hc.unpaced⟩
          cases id <;> first | exact ha | exact absurd rfl hid
        exact halert.rearm (by simp) _

/-! ## Calls -/

/-- The timer a call spends. -/
def spentBy : Call → Option TimerId
  | .handleTimer id => some id
  | _ => none

theorem onConnectedPacket_alert (P : Primitives) (packet : Packet) (hc : c.Alert none w now)
    (hs : (c.onConnectedPacket P packet now).link.state = .connected) :
    (c.onConnectedPacket P packet now).Alert none w now := by
  cases packet with
  | data data => exact hc.rxStep (onData_rxStep P c data now) (onData_playout P data hc.toPlayout)
  | control ctrl =>
    revert hs
    refine onControl_cases P c ctrl now (R := fun d => d.link.state = .connected → d.Alert none w now)
      (fun ack _ hs => onAck_alert ack hc hs)
      (fun number _ => hc.rxStep (onAckack_rxStep c number now) (onAckack_playout number hc.toPlayout))
      (fun loss _ _ => onNak_alert loss hc) (fun hs => ?_)
      (fun _ first last _ _ => hc.rxStep (onDropreq_rxStep c first last now)
        (onDropreq_playout first last hc.toPlayout))
      (fun cif _ => hc.keyStep (by simp) (onKmReq_keyStep P c cif now))
      (fun cif _ => hc.keyStep (by simp) (onKmRsp_keyStep c cif)) (fun bytes _ _ => ?_) (fun _ => hc)
    · exact absurd hs (by simp [onShutdown, fail, clearArqTimers, event])
    · exact hc.sending (.output c _ trivial) List.not_mem_nil rfl
        (fun id ha => by
          rw [wheelAfter_output]
          exact hc.armed id (by simp) ((awaits_congr rfl rfl id).mp ha)) hc.unpaced

/-- A call that leaves the connection up leaves every timer armed that has something to do. -/
theorem perform_alert (P : Primitives) (call : Call) (hc : c.Alert (spentBy call) w now)
    (hup : c.link.state = .connected) (hs : (c.perform P call now).link.state = .connected) :
    (c.perform P call now).Alert none w now := by
  cases call with
  | feedRecvBuf datagram =>
    simp only [perform, feedRecvBuf] at hs ⊢
    split at hs
    · exact hc
    · next packet _ =>
      rw [hup] at hs ⊢
      dsimp only at hs ⊢
      exact onConnectedPacket_alert P packet (hc.congr rfl rfl rfl rfl) hs
  | handleTimer id =>
    cases id with
    | handshake =>
      have hsame : c.onHandshakeTimer now = c := by
        rw [onHandshakeTimer, if_pos (by simp [hup])]
      change (c.onHandshakeTimer now).Alert none w now
      rw [hsame]
      refine ⟨fun id _ ha => ?_, hc.anchored, fun _ => hc.playout (by simp [spentBy]), hc.unpaced⟩
      by_cases hid : id = .handshake
      · subst hid
        exact ha.elim
      · exact hc.armed id (by simpa [spentBy] using hid) ha
    | ack => exact onAckTimer_alert hup hc
    | nak => exact onNakTimer_alert hup hc
    | exp => exact onExpTimer_alert hup hc
    | tsbpd =>
      obtain ⟨harmed, hanchored⟩ := deliverTsbpd_playout w now hc.anchored
      have hrx := deliverTsbpd_rxStep c now
      change (c.deliverTsbpd now).Alert none w now
      generalize c.deliverTsbpd now = d at harmed hanchored hrx
      refine ⟨fun id _ => ?_, hanchored, fun _ => harmed, by rw [hrx.tx]; exact hc.unpaced⟩
      by_cases hid : id = .tsbpd
      · subst hid
        exact False.elim
      · exact (hc.armed id (by simpa [spentBy] using hid)).rxStep hrx
    | sndPacing => exact pace_alert P hc hs
    | linger =>
      change (c.onLingerTimer now).link.state = .connected at hs
      change (c.onLingerTimer now).Alert none w now
      unfold onLingerTimer at hs ⊢
      split at hs
      · rw [finalizeShutdown_link] at hs
        exact absurd hs (by simp)
      · next hopen =>
        rw [if_neg hopen]
        refine ⟨fun id _ ha => ?_, hc.anchored, fun _ => hc.playout (by simp [spentBy]), hc.unpaced⟩
        by_cases hid : id = .linger
        · subst hid
          exact absurd ha hopen
        · exact hc.armed id (by simpa [spentBy] using hid) ha
    | keepalive => exact onKeepaliveTimer_alert hup hc
    | peerIdle => exact onPeerIdleTimer_alert hup hc hs
  | send payload =>
    rcases perform_send_cases P c payload now with h | ⟨-, -, h⟩
    · rw [h]
      exact hc
    · rw [h] at hs ⊢
      exact submit_alert P payload hc hs
  | close => exact close_alert hc hs
  | provideRekey sek => exact hc.keyStep (by simp) (provideRekey_keyStep P c sek now)
  | pollEvent => exact hc.congr rfl rfl rfl rfl

/-! ## Entering and leaving the phase -/

/-- With nothing sent and nothing received, the four timers of the phase are all there is to arm. -/
theorem Alert.idle (hphase : ∀ id ∈ phaseTimers, (c.wheelAfter w now id).isSome)
    (hclosing : c.link.closing = false) (hsent : c.outstanding = []) (hqueue : c.tx.sendQueue = [])
    (hslots : c.rx.recvBuffer.slots = []) (hwrap : c.rx.tsbpdBase.isSome → c.rx.tsWrap.isSome) :
    c.Alert none w now := by
  refine ⟨fun id _ ha => ?_, ⟨fun h => absurd hslots h, hwrap⟩, fun _ seq timestamp hpeek => ?_, fun _ => hqueue⟩
  · cases id with
    | exp => exact absurd hsent ha
    | sndPacing => exact absurd hqueue ha
    | linger => exact absurd (ha.symm.trans hclosing) (by simp)
    | tsbpd => exact ha.elim
    | handshake => exact ha.elim
    | _ => exact hphase _ (by simp [phaseTimers])
  · rw [(RecvBuffer.peek_eq_none_iff _).mpr hslots] at hpeek
    exact absurd hpeek (by simp)

theorem enterConnected_alert (negotiated : Negotiated) (hopen : c.Opening) (hc : c.Anchored) :
    (c.enterConnected negotiated now).Alert none w now := by
  have hfields : (c.enterConnected negotiated now).link.closing = c.link.closing
      ∧ (c.enterConnected negotiated now).tx = c.tx
      ∧ (c.enterConnected negotiated now).rx
        = { c.rx with recvBuffer := RecvBuffer.new negotiated.peerInitialSeq } := by
    simp only [enterConnected, event, output, and_self]
  have hwheel : ∀ id ∈ phaseTimers, ((c.enterConnected negotiated now).wheelAfter w now id).isSome := by
    intro id hid
    rw [wheelAfter, enterConnected_outputs, Wheel.applyAll_append]
    fin_cases hid <;> rfl
  generalize c.enterConnected negotiated now = d at hfields hwheel ⊢
  obtain ⟨hclosing, htx, hrx⟩ := hfields
  refine .idle hwheel (hclosing.trans hopen.closing) ?_ ?_ ?_ ?_
  · rw [outstanding, htx]
    exact hopen.outstanding
  · rw [htx]
    exact hopen.sendQueue
  · rw [hrx]
    rfl
  · rw [hrx]
    exact hc.wrap

/-- Before the handshake is over a connection keeps waiting, fails, or enters the phase alert. -/
theorem Opens.vigilant {call : Call} (h : Opens c call now c') (hopen : c.Opening) (hc : c.Anchored)
    (hs : ¬ c.Established) :
    (¬ c'.Established → c'.Opening ∧ c'.Anchored) ∧ (c'.link.state = .connected → c'.Alert none w now) := by
  have hframe := (h.frame hopen).2
  cases h with
  | waits h =>
    have htimeline : c'.timeline = c.timeline := by simp only [timeline, h.rx, h.link]
    exact ⟨fun he => ⟨(hframe he).1, hc.congr htimeline⟩,
      fun hup => absurd (.inl (by rw [← h.link]; exact hup)) hs⟩
  | ended hfailed _ _ => exact ⟨fun he => absurd (.inr hfailed) he, fun hup => by simp [hfailed] at hup⟩
  | concludes hs' _ =>
    have hstate := (sendConclusion_frame (c.enterConclusion hs') now).2.2.1
    have htimeline : ((c.enterConclusion hs').sendConclusion now).timeline = c.timeline := by
      rw [sendConclusion, emitHandshake]
      split <;> rfl
    refine ⟨fun he => ⟨(hframe he).1, hc.congr htimeline⟩, fun hup => ?_⟩
    rw [hstate] at hup
    exact absurd hup (by simp [enterConclusion])
  | connects datagram ctrl hs' _ _ _ _ _ _ =>
    have hopen' : (c.output (.clearTimer .handshake)).Opening :=
      ⟨hopen.closing, hopen.nextSendSeq, hopen.sendQueue, hopen.outstanding, hopen.rekeyPending, hopen.slots⟩
    refine ⟨fun he => absurd (.inl rfl) he, fun _ => enterConnected_alert _ hopen' ?_⟩
    exact ⟨hc.base, hc.wrap⟩

/-- Draining the outputs brings the wheel up to date. -/
theorem Alert.drained (hc : c.Alert none w now) (t : Instant) :
    ({ c with outputs := [] } : Connection).Alert none (c.wheelAfter w now) t :=
  ⟨fun id hid ha => hc.armed id hid ((awaits_congr rfl rfl id).mp ha), ⟨hc.anchored.base, hc.anchored.wrap⟩,
    fun hspent seq timestamp hpeek => hc.playout hspent seq timestamp hpeek, hc.unpaced⟩

/-- A call starts with the timer it spends off the wheel. -/
theorem Alert.fired {t : Instant} (hc : c.Alert none w t) (hout : c.outputs = []) (call : Call) (now : Instant) :
    c.Alert (spentBy call) (w.fired call) now := by
  have hwheel : ∀ id, some id ≠ spentBy call → c.wheelAfter (w.fired call) now id = c.wheelAfter w t id := by
    intro id hid
    rw [wheelAfter, wheelAfter, hout, Wheel.applyAll_nil, Wheel.applyAll_nil]
    cases call with
    | handleTimer id' => exact Wheel.set_ne _ _ (by simpa [spentBy] using hid)
    | _ => rfl
  refine ⟨fun id hid ha => ?_, hc.anchored, fun hspent seq timestamp hpeek => ?_, hc.unpaced⟩
  · rw [hwheel id hid]
    exact hc.armed id (by simp) ha
  · rw [hwheel .tsbpd hspent.symm]
    exact hc.playout (by simp) seq timestamp hpeek

end Alert

end Connection

/-! ## Runs -/

namespace Session

/-- Between calls: a connection that waits for its handshake, or one whose timers are armed. -/
structure Vigilant (s : Session) : Prop where
  drained : s.conn.outputs = []
  waiting : ¬ s.conn.Established → s.conn.Opening ∧ s.conn.Anchored
  alert : s.conn.link.state = .connected → s.conn.Alert none s.wheel s.clock

theorem Vigilant.step (P : Primitives) {s : Session} (h : s.Vigilant) (input : Call × Instant) :
    (s.step P input).Vigilant := by
  obtain ⟨call, now⟩ := input
  have key : (¬ (s.conn.perform P call now).Established →
        (s.conn.perform P call now).Opening ∧ (s.conn.perform P call now).Anchored) ∧
      ((s.conn.perform P call now).link.state = .connected →
        (s.conn.perform P call now).Alert none (s.wheel.fired call) now) := by
    by_cases he : s.conn.Established
    · have hspeaks := Connection.perform_speaks P call now he
      refine ⟨fun hn => absurd (hspeaks.established he) hn, fun hs => ?_⟩
      have hup := Calling.connected_before (P := P) (x := (call, now)) he hs
      exact Connection.perform_alert P call ((h.alert hup).fired h.drained call now) hup hs
    · obtain ⟨hopen, hanchored⟩ := h.waiting he
      exact (Connection.perform_opens P call now hopen he).vigilant hopen hanchored he
  exact ⟨rfl, fun hn => ⟨(key.1 hn).1.drained, ⟨(key.1 hn).2.base, (key.1 hn).2.wrap⟩⟩,
    fun hs => (key.2 hs).drained now⟩

theorem start_vigilant {c : Connection} (hc : c.Fresh) (now : Instant)
    (hopen : ¬ c.Established → c.Opening) : (start c now).Vigilant := by
  have hslots : c.rx.recvBuffer.slots = [] := by
    rw [hc.rx]
    rfl
  have hwrap : c.rx.tsbpdBase.isSome → c.rx.tsWrap.isSome := by
    rw [hc.rx]
    exact fun h => absurd h (by simp [Receiver.new])
  refine ⟨rfl, fun he => ⟨(hopen he).drained, fun h => absurd hslots h, hwrap⟩, fun hup => ?_⟩
  have hphase : ∀ id ∈ Connection.phaseTimers, (c.wheelAfter Wheel.idle now id).isSome := by
    rcases hc.phase with ⟨hind, -⟩ | ⟨-, -, h⟩
    · exact absurd (hind.symm.trans hup) (by simp)
    · exact h now
  have halert : c.Alert none Wheel.idle now := by
    refine .idle hphase hc.closing ?_ ?_ hslots hwrap
    · rw [Connection.outstanding, hc.tx]
      rfl
    · rw [hc.tx]
      rfl
  exact halert.drained now

theorem Started.vigilant {P : Primitives} {s : Session} (h : Started P s) : s.Vigilant := by
  cases h with
  | caller config localSocketId initialSeq now salt sek =>
    exact start_vigilant (Connection.connect_fresh ..) now
      fun _ => (Connection.connect_calls P config localSocketId initialSeq now salt sek).opening
  | acceptor config localSocketId callerHs now c h =>
    exact start_vigilant (Connection.accept_fresh h) now
      fun he => absurd (.inl (Connection.accept_connected h)) he

/-- The timers of a connected session: the four of the phase, and those with work to do; the delivery
timer stands at the play time of the earliest buffered packet. -/
structure Attended (s : Session) : Prop where
  phase : ∀ id ∈ Connection.phaseTimers, (s.wheel id).isSome
  exp : s.conn.tx.sendBuffer.isEmpty = false → (s.wheel .exp).isSome
  pacing : s.conn.tx.sendQueue ≠ [] → (s.wheel .sndPacing).isSome
  linger : s.conn.link.closing = true → (s.wheel .linger).isSome
  tsbpd : ∀ seq timestamp, s.conn.rx.recvBuffer.peek = some (seq, timestamp) →
    ∃ t, s.conn.tsbpdPlayTime timestamp = some t ∧ s.wheel .tsbpd = some t

/-- In every connected state of every run, no timer with something to do is left unarmed. -/
theorem connected_attended (P : Primitives) (s : Session) (hs : Started P s) (inputs : List (Call × Instant))
    (hup : (Runs.run (step P) s inputs).conn.link.state = .connected) :
    (Runs.run (step P) s inputs).Attended := by
  have hrun : (Runs.run (step P) s inputs).Vigilant :=
    Runs.invariant (fun _ input h _ => h.step P input) hs.vigilant
      (Runs.meets_of_forall (fun _ _ => trivial) s inputs)
  generalize Runs.run (step P) s inputs = s' at hrun hup
  have halert := hrun.alert hup
  have hwheel : ∀ id, s'.conn.wheelAfter s'.wheel s'.clock id = s'.wheel id := by
    intro id
    rw [Connection.wheelAfter, hrun.drained, Wheel.applyAll_nil]
  have harmed : ∀ id, s'.conn.Awaits id → (s'.wheel id).isSome := by
    intro id ha
    rw [← hwheel id]
    exact halert.armed id (by simp) ha
  refine ⟨fun id hid => ?_, fun hfull => ?_, harmed .sndPacing, harmed .linger, fun seq timestamp hpeek => ?_⟩
  · fin_cases hid <;> exact harmed _ trivial
  · exact harmed .exp ((Connection.awaits_exp_iff _).mpr hfull)
  · obtain ⟨t, hplay, ht⟩ := halert.playout (by simp) seq timestamp hpeek
    exact ⟨t, hplay, (hwheel _).symm.trans ht⟩

/-- A message sent, a packet received behind a gap, and a close that waits for the acknowledgement. -/
def busyRun : List (Call × Instant) := [(.send [1], 0), (plainData 1 .single, 0), (.close, 0)]

theorem connected_attended_busy :
    (Runs.run (step Primitives.absent) plainAcceptor busyRun).conn.tx.sendBuffer.isEmpty = false ∧
      (Runs.run (step Primitives.absent) plainAcceptor busyRun).conn.link.closing = true ∧
      (Runs.run (step Primitives.absent) plainAcceptor busyRun).conn.rx.recvBuffer.peek.isSome ∧
      (Runs.run (step Primitives.absent) plainAcceptor busyRun).Attended :=
  ⟨by decide +kernel, by decide +kernel, by decide +kernel,
    connected_attended Primitives.absent plainAcceptor plainAcceptor_started busyRun (by decide +kernel)⟩

end Session

end Srtrust
