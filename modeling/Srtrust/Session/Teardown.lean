import Srtrust.Connection.Receipt
import Srtrust.Session.Effects

/-! # Work on the link

The handshake, teardown and liveness handlers move the link and queue outputs and events; the two
halves, the keys and the estimators are left alone. `LinkStep` says so once, and whatever a later
module keeps of the halves follows from it. -/
namespace Srtrust
open BigEndian
set_option autoImplicit false

namespace Connection

structure LinkStep (c c' : Connection) : Prop where
  ident : c'.ident = c.ident
  keys : c'.keys = c.keys
  tx : c'.tx = c.tx
  rx : c'.rx = c.rx
  rtt : c'.rtt = c.rtt
  established : c.Established → c'.Established
  events : ∃ es, c'.events = c.events ++ es ∧ ∀ e ∈ es, ¬ e.IsInbound
  trace : ∃ ts, c'.trace = c.trace ++ ts ∧ ∀ t ∈ ts, t = .panicked

namespace LinkStep

theorem refl (c : Connection) : LinkStep c c :=
  ⟨rfl, rfl, rfl, rfl, rfl, id, ⟨[], by simp, by simp⟩, ⟨[], by simp, by simp⟩⟩

theorem trans {a b c : Connection} (h : LinkStep a b) (h' : LinkStep b c) : LinkStep a c := by
  obtain ⟨es, he, hes⟩ := h.events
  obtain ⟨es', he', hes'⟩ := h'.events
  obtain ⟨ts, ht, hts⟩ := h.trace
  obtain ⟨ts', ht', hts'⟩ := h'.trace
  refine ⟨h'.ident.trans h.ident, h'.keys.trans h.keys, h'.tx.trans h.tx, h'.rx.trans h.rx, h'.rtt.trans h.rtt,
    h'.established ∘ h.established, ⟨es ++ es', by rw [he', he, List.append_assoc], ?_⟩,
    ⟨ts ++ ts', by rw [ht', ht, List.append_assoc], ?_⟩⟩
  · intro e hm
    exact (List.mem_append.mp hm).elim (hes e) (hes' e)
  · intro t hm
    exact (List.mem_append.mp hm).elim (hts t) (hts' t)

theorem ofLink (c : Connection) (link : Link) (h : c.Established → { c with link := link }.Established) :
    LinkStep c { c with link := link } :=
  ⟨rfl, rfl, rfl, rfl, rfl, h, ⟨[], by simp, by simp⟩, ⟨[], by simp, by simp⟩⟩

theorem output (c : Connection) (o : Output) : LinkStep c (c.output o) :=
  ⟨rfl, rfl, rfl, rfl, rfl, id, ⟨[], by simp [Connection.output], by simp⟩,
    ⟨[], by simp [Connection.output], by simp⟩⟩

theorem event (c : Connection) (e : Event) (h : ¬ e.IsInbound) : LinkStep c (c.event e) :=
  ⟨rfl, rfl, rfl, rfl, rfl, id, ⟨[e], rfl, by simpa using h⟩, ⟨[], by simp [Connection.event], by simp⟩⟩

theorem panicked (c : Connection) : LinkStep c c.panicked :=
  ⟨rfl, rfl, rfl, rfl, rfl, id, ⟨[], by simp [Connection.panicked, record], by simp⟩,
    ⟨[.panicked], rfl, by simp⟩⟩

theorem emitControl (c : Connection) (body : ControlBody) (now : Instant) :
    LinkStep c (c.emitControl body now) := by
  unfold Connection.emitControl
  split
  · exact ⟨rfl, rfl, rfl, rfl, rfl, id, ⟨[], by simp [emit], by simp⟩, ⟨[], by simp [emit], by simp⟩⟩
  · exact .panicked c

theorem clerical {c c' : Connection} (h : LinkStep c c') : Clerical c c' := by
  obtain ⟨ts, ht, hts⟩ := h.trace
  refine ⟨h.established, config_of_ident h.ident, h.rtt, by rw [h.rx], h.events, ts, ht, ?_⟩
  intro t hm
  rw [hts t hm]
  exact id

theorem quiet {c c' : Connection} (h : LinkStep c c') : Quiet c c' := h.clerical.quiet

end LinkStep

/-! ## Teardown -/

theorem fail_linkStep (c : Connection) : LinkStep c c.fail := .ofLink c _ fun _ => .inr rfl

theorem clearArqTimers_linkStep (c : Connection) : LinkStep c c.clearArqTimers :=
  ⟨rfl, rfl, rfl, rfl, rfl, id, ⟨[], by simp [clearArqTimers], by simp⟩,
    ⟨[], by simp [clearArqTimers], by simp⟩⟩

theorem sayShutdown_linkStep (c : Connection) (now : Instant) : LinkStep c (c.sayShutdown now) := by
  unfold sayShutdown
  split
  · exact .output c _
  · exact .panicked c

theorem finalizeShutdown_linkStep (c : Connection) (now : Instant) :
    LinkStep c (c.finalizeShutdown now) := by
  have hclosing : ∀ c : Connection, LinkStep c c.clearClosing := fun c => .ofLink c _ id
  have hdown := (sayShutdown_linkStep c now).trans (clearArqTimers_linkStep _)
  exact ((((hdown.trans (.output _ _)).trans (hclosing _)).trans (fail_linkStep _))).trans (.event _ _ id)

theorem finishCloseIfDrained_linkStep (c : Connection) (now : Instant) :
    LinkStep c (c.finishCloseIfDrained now) := by
  unfold finishCloseIfDrained
  split
  · exact finalizeShutdown_linkStep c now
  · exact .refl c

theorem onLingerTimer_linkStep (c : Connection) (now : Instant) : LinkStep c (c.onLingerTimer now) := by
  unfold onLingerTimer
  split
  · exact finalizeShutdown_linkStep c now
  · exact .refl c

theorem close_linkStep (c : Connection) (now : Instant) : LinkStep c (c.close now) := by
  have hbegin : LinkStep c c.beginClose :=
    (LinkStep.ofLink c { c.link with closing := true } id).trans (.output _ _)
  unfold close
  split
  · exact .refl c
  · split
    · exact (fail_linkStep c).trans (.event _ _ id)
    · split
      · exact finalizeShutdown_linkStep c now
      · exact hbegin

theorem schedulePacing_linkStep (c : Connection) (now : Instant) : LinkStep c (c.schedulePacing now) := by
  unfold schedulePacing
  split
  · exact (LinkStep.output c _).trans (finishCloseIfDrained_linkStep _ now)
  · exact .output c _

theorem answerAck_linkStep (c : Connection) (ack : Ack) (now : Instant) : LinkStep c (c.answerAck ack now) := by
  unfold answerAck
  split
  · exact .emitControl c _ now
  · exact .refl c

/-! ## Handshake and liveness -/

theorem onHandshakeTimer_linkStep (c : Connection) (now : Instant) : LinkStep c (c.onHandshakeTimer now) := by
  unfold onHandshakeTimer
  split
  · exact .refl c
  · split
    · exact ((fail_linkStep c).trans (.output _ _)).trans (.event _ _ id)
    · split
      · exact (LinkStep.output c _).trans (.output _ _)
      · exact .refl c

theorem onPeerIdleTimer_linkStep (c : Connection) (now : Instant) : LinkStep c (c.onPeerIdleTimer now) := by
  unfold onPeerIdleTimer
  split
  · exact .refl c
  · dsimp only
    split
    · exact ((fail_linkStep c).trans (clearArqTimers_linkStep _)).trans (.event _ _ id)
    · exact .output c _

theorem emitHandshake_linkStep (c : Connection) (dest : SocketId) (hs : Handshake) (now : Instant) :
    LinkStep c (c.emitHandshake dest hs now) := by
  unfold emitHandshake
  split
  · exact .panicked c
  · next bytes _ =>
    exact ((LinkStep.ofLink c { c.link with lastHandshake := some bytes } id).trans (.output _ _)).trans
      (.output _ _)

/-- What the keepalive timer does after the pending key announcement. -/
theorem onKeepaliveTimer_eq (c : Connection) (now : Instant) :
    c.onKeepaliveTimer now = c ∨ LinkStep (c.resendPendingKm now) (c.onKeepaliveTimer now) := by
  unfold onKeepaliveTimer
  split
  · exact .inl rfl
  · refine .inr ?_
    dsimp only
    split
    · exact (LinkStep.emitControl _ _ now).trans (.output _ _)
    · exact .output _ _

/-- A handshake packet works on the link, up to the receive buffer that entering the connected
phase puts in place. -/
theorem onHandshakePacket_linkStep (c : Connection) (packet : Packet) (now : Instant)
    (hs : c.link.state = .induction ∨ c.link.state = .conclusion) :
    LinkStep c (c.onHandshakePacket packet now) ∨
      ∃ negotiated, c.link.state = .conclusion ∧
        c.onHandshakePacket packet now = (c.output (.clearTimer .handshake)).enterConnected negotiated now := by
  have hreceived := onHandshakePacket_received c packet now hs
  generalize c.onHandshakePacket packet now = c' at hreceived ⊢
  cases hreceived with
  | ignored => exact .inl (.refl c)
  | inner hconn _ => simp [hconn] at hs
  | acked _ hconn => simp [hconn] at hs
  | shutdown hconn => simp [hconn] at hs
  | rejected reason _ => exact .inl (((fail_linkStep c).trans (.output _ _)).trans (.event _ _ id))
  | induction hs hind =>
    have henter : LinkStep c (c.enterConclusion hs) :=
      .ofLink c _ fun he => by simp [Established, hind] at he
    exact .inl (henter.trans (emitHandshake_linkStep _ _ _ now))
  | connected negotiated hconc => exact .inr ⟨negotiated, hconc, rfl⟩

end Connection

end Srtrust
