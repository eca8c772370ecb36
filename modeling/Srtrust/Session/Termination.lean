import Srtrust.Session.Effects

/-! # How often a connection ends

`Closed` and `Failed` report the end of a connection. Six paths push one of them; each call
pushes exactly as many as its change of state accounts for, except for one: a linger timer
that fires on a connection which the peer has ended while a close was pending. -/
namespace Srtrust
open BigEndian
set_option autoImplicit false

def Event.isTermination : Event → Bool
  | .closed => true
  | .failed _ => true
  | _ => false

namespace Connection

/-- The terminations waiting to be polled. -/
def terminations (c : Connection) : ℕ := c.events.countP Event.isTermination

/-- One once the connection has ended. -/
def ended (c : Connection) : ℕ := if c.link.state = .failed then 1 else 0

/-- Exactly the terminations that the change of state accounts for are pushed. -/
def Tallies (c c' : Connection) : Prop := c'.terminations + c.ended = c.terminations + c'.ended

theorem Tallies.trans {a b c : Connection} (h : Tallies a b) (h' : Tallies b c) : Tallies a c := by
  unfold Tallies at *
  omega

theorem Inner.tallies {ids : List TimerId} {c c' : Connection} (h : Inner ids c c') :
    Tallies c c' := by
  obtain ⟨es, hes, hev⟩ := h.grows.events
  have hzero : es.countP Event.isTermination = 0 := by
    rw [List.countP_eq_zero]
    intro e he
    have := hev e he
    cases e <;> simp_all [Event.IsData, Event.IsKeyRefresh, Event.isTermination]
  rw [Tallies, terminations, terminations, ended, ended, hes, h.link, List.countP_append, hzero]
  omega

/-- A live connection that ends pushes one termination. -/
theorem tallies_of_end {c c' : Connection} (hlive : c.link.state ≠ .failed)
    (hend : c'.link.state = .failed) {e : Event} (hev : c'.events = c.events ++ [e])
    (he : e.isTermination) : Tallies c c' := by
  simp [Tallies, terminations, ended, hlive, hend, hev, he]

theorem finalizeShutdown_tallies {c : Connection} (now : Instant) (hlive : c.link.state ≠ .failed) :
    Tallies c (c.finalizeShutdown now) :=
  tallies_of_end hlive (by rw [finalizeShutdown_link]) (finalizeShutdown_events c now) rfl

theorem finishCloseIfDrained_tallies {c : Connection} (now : Instant)
    (hlive : c.link.state ≠ .failed) : Tallies c (c.finishCloseIfDrained now) := by
  unfold finishCloseIfDrained
  split
  · exact finalizeShutdown_tallies now hlive
  · exact rfl

theorem onAck_tallies {c : Connection} (ack : Ack) (now : Instant) (hlive : c.link.state ≠ .failed) :
    Tallies c (c.onAck ack now) := by
  have h := settleAck_feedback c ack now
  rw [onAck_eq]
  exact (h.txStep.inner.tallies.trans (finishCloseIfDrained_tallies now (h.link ▸ hlive))).trans
    (answerAck_keyStep _ ack now).inner.tallies

theorem onShutdown_tallies {c : Connection} (hlive : c.link.state ≠ .failed) :
    Tallies c c.onShutdown := by
  have h := flushLoop_rxStep (c.rx.recvBuffer.slots.length + 1) c
  exact h.inner.tallies.trans (tallies_of_end (h.link ▸ hlive) rfl rfl rfl)

theorem enterConnected_tallies {c : Connection} (negotiated : Negotiated) (now : Instant)
    (hlive : c.link.state ≠ .failed) :
    Tallies c ((c.output (.clearTimer .handshake)).enterConnected negotiated now) := by
  have he : ((c.output (.clearTimer .handshake)).enterConnected negotiated now).events
      = c.events ++ [.connected negotiated] := rfl
  have hs : ((c.output (.clearTimer .handshake)).enterConnected negotiated now).link.state
      = .connected := rfl
  simp [Tallies, terminations, ended, hlive, hs, he, Event.isTermination]

/-- Sending the conclusion pushes no event. -/
theorem sendConclusion_tallies {c : Connection} (hs : Handshake) (now : Instant)
    (h : c.link.state = .induction) : Tallies c ((c.enterConclusion hs).sendConclusion now) := by
  have hevents : ((c.enterConclusion hs).sendConclusion now).events = c.events := by
    unfold sendConclusion emitHandshake
    split <;> rfl
  have hstate : ((c.enterConclusion hs).sendConclusion now).link.state = .conclusion := by
    unfold sendConclusion emitHandshake
    split <;> rfl
  simp [Tallies, terminations, ended, h, hevents, hstate]

theorem feedRecvBuf_tallies (P : Primitives) (c : Connection) (datagram : Bytes) (now : Instant) :
    Tallies c (c.feedRecvBuf P datagram now) := by
  have h := feedRecvBuf_received P c datagram now
  generalize c.feedRecvBuf P datagram now = c' at h ⊢
  cases h with
  | ignored => exact rfl
  | inner _ hi => exact hi.tallies
  | acked ack h =>
    have h0 : Tallies c { c with lastRecvAny := now } := rfl
    exact h0.trans (onAck_tallies ack now (by simp [h]))
  | shutdown h =>
    have h0 : Tallies c { c with lastRecvAny := now } := rfl
    exact h0.trans (onShutdown_tallies (by simp [h]))
  | rejected reason h => exact tallies_of_end (by rcases h with h | h <;> simp [h]) rfl rfl rfl
  | induction hs h => exact sendConclusion_tallies hs now h
  | connected negotiated h => exact enterConnected_tallies negotiated now (by simp [h])

theorem schedulePacing_tallies {c : Connection} (now : Instant) (hlive : c.link.state ≠ .failed) :
    Tallies c (c.schedulePacing now) := by
  unfold schedulePacing
  split
  · exact finishCloseIfDrained_tallies now hlive
  · exact rfl

theorem pace_tallies (P : Primitives) {c : Connection} (now : Instant)
    (hlive : c.link.state ≠ .failed) : Tallies c (c.pace P now) := by
  rcases pace_cases P c now with h | ⟨d, hd, h⟩
  · rw [h]
    exact rfl
  · rw [h]
    exact hd.inner.tallies.trans (schedulePacing_tallies now (hd.link ▸ hlive))

theorem submit_tallies (P : Primitives) {c : Connection} (payload : Bytes) (now : Instant)
    (hlive : c.link.state ≠ .failed) : Tallies c (c.submit P payload now) := by
  rcases submit_cases P c payload now with h | ⟨d, hd, h⟩
  · exact h.inner.tallies
  · rw [h]
    exact hd.inner.tallies.trans (schedulePacing_tallies now (hd.link ▸ hlive))

theorem close_tallies (c : Connection) (now : Instant) : Tallies c (c.close now) := by
  unfold close
  split
  · exact rfl
  · have hlive : c.link.state ≠ .failed := by tauto
    split
    · exact tallies_of_end hlive rfl rfl rfl
    · split
      · exact finalizeShutdown_tallies now hlive
      · exact rfl

/-- The firing that ends a connection a second time: the linger timer of a close that was
pending when the peer, or the idle timeout, ended the connection. -/
def LateLinger (c : Connection) (call : Call) : Prop :=
  call = .handleTimer .linger ∧ c.link.state = .failed ∧ c.link.closing

instance (c : Connection) (call : Call) : Decidable (c.LateLinger call) :=
  inferInstanceAs (Decidable (_ ∧ _ ∧ _))

theorem Tallies.not_late {c c' : Connection} {call : Call} (h : Tallies c c')
    (hl : ¬ c.LateLinger call) :
    c'.terminations + c.ended = c.terminations + c'.ended + if c.LateLinger call then 1 else 0 := by
  rw [if_neg hl]
  exact h

theorem onLingerTimer_tally (c : Connection) (now : Instant) :
    (c.onLingerTimer now).terminations + c.ended = c.terminations + (c.onLingerTimer now).ended
      + if c.LateLinger (.handleTimer .linger) then 1 else 0 := by
  unfold onLingerTimer
  split
  · next hc =>
    by_cases hs : c.link.state = .failed
    · have he := finalizeShutdown_events c now
      have hl := finalizeShutdown_link c now
      simp [LateLinger, hs, hc, terminations, ended, he, hl, Event.isTermination]
    · exact (finalizeShutdown_tallies now hs).not_late (fun h => hs h.2.1)
  · next hc => exact Tallies.not_late rfl (fun h => hc h.2.2)

/-- One call that is not a poll: terminations are accounted for by the state and by late
lingers. A pacing timer is assumed to fire on live connections only. -/
theorem perform_tally (P : Primitives) (c : Connection) (call : Call) (now : Instant)
    (hpoll : call ≠ .pollEvent)
    (hpace : call = .handleTimer .sndPacing → c.link.state ≠ .failed) :
    (c.perform P call now).terminations + c.ended = c.terminations + (c.perform P call now).ended
      + if c.LateLinger call then 1 else 0 := by
  cases call with
  | feedRecvBuf datagram =>
    exact (feedRecvBuf_tallies P c datagram now).not_late (by simp [LateLinger])
  | handleTimer id =>
    cases id with
    | linger => exact onLingerTimer_tally c now
    | handshake =>
      refine Tallies.not_late ?_ (by simp [LateLinger])
      rcases onHandshakeTimer_cases c now with h | ⟨hs, h⟩
      · exact h.tallies
      · change Tallies c (c.onHandshakeTimer now)
        rw [h]
        exact tallies_of_end (by rcases hs with hs | hs <;> simp [hs]) rfl rfl rfl
    | peerIdle =>
      refine Tallies.not_late ?_ (by simp [LateLinger])
      rcases onPeerIdleTimer_cases c now with h | ⟨hs, h⟩
      · exact h.tallies
      · change Tallies c (c.onPeerIdleTimer now)
        rw [h]
        exact tallies_of_end (by simp [hs]) rfl rfl rfl
    | ack => exact (onAckTimer_inner c now).tallies.not_late (by simp [LateLinger])
    | nak => exact (onNakTimer_inner c now).tallies.not_late (by simp [LateLinger])
    | exp => exact (onExpTimer_feedback c now).txStep.inner.tallies.not_late (by simp [LateLinger])
    | tsbpd => exact (deliverTsbpd_rxStep c now).inner.tallies.not_late (by simp [LateLinger])
    | keepalive => exact (onKeepaliveTimer_inner c now).tallies.not_late (by simp [LateLinger])
    | sndPacing => exact (pace_tallies P now (hpace rfl)).not_late (by simp [LateLinger])
  | send payload =>
    refine Tallies.not_late ?_ (by simp [LateLinger])
    rcases perform_send_cases P c payload now with h | ⟨hs, -, h⟩
    · rw [h]
      exact rfl
    · rw [h]
      exact submit_tallies P payload now (by simp [hs])
  | close => exact (close_tallies c now).not_late (by simp [LateLinger])
  | provideRekey sek =>
    exact (provideRekey_keyStep P c sek now).inner.tallies.not_late (by simp [LateLinger])
  | pollEvent => exact absurd rfl hpoll

/-- The terminal state is never left. -/
theorem perform_failed (P : Primitives) (c : Connection) (call : Call) (now : Instant)
    (hs : c.link.state = .failed) (hpace : call ≠ .handleTimer .sndPacing) :
    (c.perform P call now).link.state = .failed := by
  have keep {ids : List TimerId} {c' : Connection} (h : Inner ids c c') : c'.link.state = .failed :=
    h.link ▸ hs
  cases call with
  | feedRecvBuf datagram =>
    have h := feedRecvBuf_received P c datagram now
    change (c.feedRecvBuf P datagram now).link.state = .failed
    generalize c.feedRecvBuf P datagram now = c' at h ⊢
    cases h <;> simp_all
  | handleTimer id =>
    cases id with
    | linger =>
      change (c.onLingerTimer now).link.state = .failed
      unfold onLingerTimer
      split
      · rw [finalizeShutdown_link]
      · exact hs
    | handshake => exact (onHandshakeTimer_cases c now).elim keep (fun h => by simp_all)
    | peerIdle => exact (onPeerIdleTimer_cases c now).elim keep (fun h => by simp_all)
    | ack => exact keep (onAckTimer_inner c now)
    | nak => exact keep (onNakTimer_inner c now)
    | exp => exact keep (onExpTimer_feedback c now).txStep.inner
    | tsbpd => exact keep (deliverTsbpd_rxStep c now).inner
    | keepalive => exact keep (onKeepaliveTimer_inner c now)
    | sndPacing => exact absurd rfl hpace
  | send payload =>
    rcases perform_send_cases P c payload now with h | ⟨h, -⟩
    · rwa [h]
    · simp_all
  | close => simp [perform, close, hs]
  | provideRekey sek => exact keep (provideRekey_keyStep P c sek now).inner
  | pollEvent => exact hs

/-! ## The pacing timer -/

/-- Outside the connected phase the pacing timer is off. -/
def PacingOff (c : Connection) (w : Wheel) (now : Instant) : Prop :=
  c.link.state ≠ .connected → c.wheelAfter w now .sndPacing = none

section PacingOff

variable {c c' : Connection} {w : Wheel} {now : Instant}

theorem Inner.pacingOff {ids : List TimerId} (h : Inner ids c c') (hid : .sndPacing ∉ ids)
    (hc : c.PacingOff w now) : c'.PacingOff w now := by
  intro hs
  rw [h.grows.wheelAfter_eq hid]
  exact hc (h.link ▸ hs)

theorem pacingOff_of_connected (hs : c.link.state = .connected) : c.PacingOff w now :=
  fun h => absurd hs h

theorem finalizeShutdown_pacingOff : (c.finalizeShutdown now).PacingOff w now :=
  fun _ => finalizeShutdown_wheel c now w (by simp)

theorem finishCloseIfDrained_pacingOff (hs : c.link.state = .connected) :
    (c.finishCloseIfDrained now).PacingOff w now := by
  unfold finishCloseIfDrained
  split
  · exact finalizeShutdown_pacingOff
  · exact pacingOff_of_connected hs

theorem schedulePacing_pacingOff (hs : c.link.state = .connected) :
    (c.schedulePacing now).PacingOff w now := by
  unfold schedulePacing
  split
  · exact finishCloseIfDrained_pacingOff hs
  · exact pacingOff_of_connected hs

theorem onAck_pacingOff (ack : Ack) (hs : c.link.state = .connected) :
    (c.onAck ack now).PacingOff w now := by
  have h := (settleAck_feedback c ack now).link
  rw [onAck_eq]
  exact (answerAck_keyStep _ ack now).inner.pacingOff (by simp)
    (finishCloseIfDrained_pacingOff (h ▸ hs))

theorem clearArqTimers_pacingOff (e : Event) : (c.clearArqTimers.event e).PacingOff w now := by
  intro _
  rw [wheelAfter_event, wheelAfter_clearArqTimers]
  rfl

theorem endHandshake_pacingOff (e : Event) (hs : c.link.state = .induction ∨ c.link.state = .conclusion)
    (hc : c.PacingOff w now) :
    ((c.fail.output (.clearTimer .handshake)).event e).PacingOff w now := by
  intro _
  rw [wheelAfter_event, wheelAfter_output]
  exact hc (by rcases hs with hs | hs <;> simp [hs])

theorem feedRecvBuf_pacingOff (P : Primitives) (datagram : Bytes) (hc : c.PacingOff w now) :
    (c.feedRecvBuf P datagram now).PacingOff w now := by
  have h := feedRecvBuf_received P c datagram now
  generalize c.feedRecvBuf P datagram now = c' at h ⊢
  cases h with
  | ignored => exact hc
  | inner hs hi => exact pacingOff_of_connected (hi.link ▸ hs)
  | acked ack hs => exact onAck_pacingOff ack hs
  | shutdown hs => exact clearArqTimers_pacingOff _
  | rejected reason hs => exact endHandshake_pacingOff _ hs hc
  | induction hs h =>
    intro _
    rw [sendConclusion, emitHandshake_wheel _ _ _ _ _ (by simp)]
    exact hc (by simp [h])
  | connected negotiated hs => exact pacingOff_of_connected rfl

theorem close_pacingOff (hc : c.PacingOff w now) : (c.close now).PacingOff w now := by
  unfold close
  split
  · exact hc
  · split
    · next hs => exact fun _ => hc hs
    · split
      · exact finalizeShutdown_pacingOff
      · exact pacingOff_of_connected (by simp_all [beginClose, output])

theorem perform_pacingOff (P : Primitives) (call : Call) (hc : c.PacingOff w now)
    (hpace : call = .handleTimer .sndPacing → c.link.state = .connected) :
    (c.perform P call now).PacingOff w now := by
  cases call with
  | feedRecvBuf datagram => exact feedRecvBuf_pacingOff P datagram hc
  | handleTimer id =>
    cases id with
    | linger =>
      change (c.onLingerTimer now).PacingOff w now
      unfold onLingerTimer
      split
      · exact finalizeShutdown_pacingOff
      · exact hc
    | handshake =>
      rcases onHandshakeTimer_cases c now with h | ⟨hs, h⟩
      · exact h.pacingOff (by simp) hc
      · change (c.onHandshakeTimer now).PacingOff w now
        rw [h]
        exact endHandshake_pacingOff _ hs hc
    | peerIdle =>
      rcases onPeerIdleTimer_cases c now with h | ⟨-, h⟩
      · exact h.pacingOff (by simp) hc
      · change (c.onPeerIdleTimer now).PacingOff w now
        rw [h]
        exact clearArqTimers_pacingOff _
    | ack => exact (onAckTimer_inner c now).pacingOff (by simp) hc
    | nak => exact (onNakTimer_inner c now).pacingOff (by simp) hc
    | exp =>
      by_cases hs : c.link.state = .connected
      · exact pacingOff_of_connected ((onExpTimer_feedback c now).link ▸ hs)
      · have h : c.onExpTimer now = c := by simp [onExpTimer, hs]
        change (c.onExpTimer now).PacingOff w now
        rwa [h]
    | tsbpd => exact (deliverTsbpd_rxStep c now).inner.pacingOff (by simp) hc
    | keepalive => exact (onKeepaliveTimer_inner c now).pacingOff (by simp) hc
    | sndPacing =>
      change (c.pace P now).PacingOff w now
      rcases pace_cases P c now with h | ⟨d, hd, h⟩
      · rwa [h]
      · rw [h]
        exact schedulePacing_pacingOff (hd.link ▸ hpace rfl)
  | send payload =>
    rcases perform_send_cases P c payload now with h | ⟨hs, -, h⟩
    · rwa [h]
    · rw [h]
      rcases submit_cases P c payload now with h' | ⟨d, hd, h'⟩
      · exact pacingOff_of_connected (h'.link ▸ hs)
      · rw [h']
        exact schedulePacing_pacingOff (hd.link ▸ hs)
  | close => exact close_pacingOff hc
  | provideRekey sek => exact (provideRekey_keyStep P c sek now).inner.pacingOff (by simp) hc
  | pollEvent => exact hc

end PacingOff

end Connection

namespace Session

/-- The terminations ever pushed. -/
def terminations (s : Session) : ℕ := s.pushed.countP Event.isTermination

/-- Between calls the outputs are drained, and outside the connected phase the pacing timer is
off. -/
structure Resting (s : Session) : Prop where
  drained : s.conn.outputs = []
  pacing : s.conn.link.state ≠ .connected → s.wheel .sndPacing = none

section Step

variable {P : Primitives} {s : Session} {input : Call × Instant}

/-- A pacing timer that may fire belongs to a connected session. -/
theorem Resting.connected_of_pacing (hr : s.Resting) (hl : s.Legal input)
    (h : input.1 = .handleTimer .sndPacing) : s.conn.link.state = .connected := by
  by_contra hs
  have harmed := hl.2
  rw [h] at harmed
  simp [Wheel.MayFire, hr.pacing hs] at harmed

theorem Resting.step (hr : s.Resting) (hl : s.Legal input) : (s.step P input).Resting := by
  refine ⟨rfl, ?_⟩
  have h0 : s.conn.PacingOff (s.wheel.fired input.1) input.2 := by
    intro hs
    have hoff := hr.pacing hs
    rw [Connection.wheelAfter, hr.drained, Wheel.applyAll_nil]
    rcases hcall : input.1 with _ | id | _ | _ | _ | _ <;> simp only [Wheel.fired]
    case handleTimer =>
      by_cases hid : TimerId.sndPacing = id
      · rw [hid, Wheel.set_self]
      · rwa [Wheel.set_ne _ _ hid]
    all_goals exact hoff
  exact Connection.perform_pacingOff P input.1 h0 (hr.connected_of_pacing hl)

/-- One call: the terminations pushed are those of the change of state, and one more for a
late linger. -/
theorem step_tally (hr : s.Resting) (hl : s.Legal input) :
    (s.step P input).terminations + s.conn.ended = s.terminations + (s.step P input).conn.ended
      + if s.conn.LateLinger input.1 then 1 else 0 := by
  have hpush : (s.step P input).terminations
      = s.polled.countP Event.isTermination + ((s.conn.polledBy input.1).countP Event.isTermination
        + (s.conn.perform P input.1 input.2).terminations) := by
    simp [terminations, pushed, step, settle, Connection.terminations, List.countP_append]
  have hbefore : s.terminations = s.polled.countP Event.isTermination + s.conn.terminations := by
    simp [terminations, pushed, Connection.terminations, List.countP_append]
  have hended : (s.step P input).conn.ended = (s.conn.perform P input.1 input.2).ended := rfl
  by_cases hpoll : input.1 = .pollEvent
  · have hsplit : s.conn.terminations = (s.conn.events.take 1).countP Event.isTermination
        + (s.conn.events.drop 1).countP Event.isTermination := by
      rw [Connection.terminations, ← List.countP_append, List.take_append_drop]
    have hrest : (s.conn.perform P .pollEvent input.2).terminations
        = (s.conn.events.drop 1).countP Event.isTermination := rfl
    have hkeep : (s.conn.perform P .pollEvent input.2).ended = s.conn.ended := rfl
    rw [hpush, hbefore, hended, hpoll, if_neg (by simp [Connection.LateLinger]), hrest, hkeep, hsplit]
    simp only [Connection.polledBy]
    omega
  · have h := Connection.perform_tally P s.conn input.1 input.2 hpoll
      (fun h => by simp [hr.connected_of_pacing hl h])
    have hnone : s.conn.polledBy input.1 = [] := by
      rcases input with ⟨_ | _ | _ | _ | _ | _, now⟩ <;> first | rfl | exact absurd rfl hpoll
    rw [hpush, hbefore, hended, hnone, List.countP_nil]
    omega

end Step

/-! ## Whole runs -/

theorem Started.resting {P : Primitives} {s : Session} (h : Started P s) : s.Resting := by
  obtain ⟨c, now, hc, rfl⟩ := h.fresh
  exact ⟨rfl, fun _ => hc.idle now .sndPacing (by simp [Connection.phaseTimers])⟩

theorem Started.live {P : Primitives} {s : Session} (h : Started P s) :
    s.terminations = 0 ∧ s.conn.ended = 0 := by
  obtain ⟨c, now, hc, rfl⟩ := h.fresh
  rcases hc.phase with ⟨hs, he⟩ | ⟨hs, ⟨n, he⟩, -⟩ <;>
    simp [terminations, pushed, start, settle, Connection.ended, Event.isTermination, hs, he]

/-- A session ends at most once exactly in the runs without a late linger: every other path to
the terminal state leaves nothing behind that could end the connection again. -/
theorem terminations_le_one_iff (P : Primitives) (s : Session) (hs : Started P s)
    (inputs : List (Call × Instant)) (hl : Runs.Meets (step P) Legal s inputs) :
    (Runs.run (step P) s inputs).terminations ≤ 1 ↔
      Runs.Meets (step P) (fun s input => ¬ s.conn.LateLinger input.1) s inputs := by
  have hkeep : ∀ s input, Resting s → Legal s input → (s.step P input).Resting :=
    fun _ _ hr hl => hr.step hl
  have htally := Runs.tally (fun (s : Session) (input : Call × Instant) =>
    s.conn.LateLinger input.1) hkeep (fun _ _ hr hl => step_tally hr hl) hs.resting hl
  obtain ⟨hzero, hended⟩ := hs.live
  rw [hzero, hended] at htally
  rw [← Runs.hits_eq_zero_iff]
  constructor
  · intro hone
    by_contra hhit
    -- a late linger happens on an ended connection, and that state is never left
    have hfailed := Runs.absorbed _ (fun s : Session => s.conn.link.state = .failed) hkeep
      (fun s input _ _ h => Connection.perform_failed P s.conn input.1 input.2 h.2.1 (by simp [h.1]))
      (fun s input hr hl h => Connection.perform_failed P s.conn input.1 input.2 h
        (fun hc => by simp [hr.connected_of_pacing hl hc] at h)) hs.resting hl hhit
    have : (Runs.run (step P) s inputs).conn.ended = 1 := if_pos hfailed
    omega
  · intro hhit
    have : (Runs.run (step P) s inputs).conn.ended ≤ 1 := by
      unfold Connection.ended
      split <;> simp
    omega

/-- A close that waits for its message until the linger timer ends it, once. -/
theorem terminations_lingering :
    (Runs.run (step Primitives.absent) plainAcceptor
      [(.send [1], 0), (.close, 0), (.handleTimer .linger, 3000000000), (.close, 3000000000)]).terminations
      ≤ 1 :=
  (terminations_le_one_iff Primitives.absent plainAcceptor plainAcceptor_started _
    (by decide +kernel)).mpr (by decide +kernel)

/-- One message, a close that has to wait for it, the peer's SHUTDOWN, and the linger timer when
it is due. -/
def lingerRun : List (Call × Instant) :=
  [(.send [1], 0), (.close, 0),
    (.feedRecvBuf ((encodeControl ⟨2⟩ ⟨0⟩ .shutdown).getD []), 0), (.handleTimer .linger, 3000000000)]

/-- The SHUTDOWN reports `Closed`, and so does the linger timer it leaves armed. -/
theorem closed_twice :
    Started Primitives.absent plainAcceptor ∧
      Runs.Meets (step Primitives.absent) Legal plainAcceptor lingerRun ∧
      (Runs.run (step Primitives.absent) plainAcceptor lingerRun).pushed.filter Event.isTermination
        = [.closed, .closed] :=
  ⟨plainAcceptor_started, by decide +kernel, by decide +kernel⟩

end Session

end Srtrust
