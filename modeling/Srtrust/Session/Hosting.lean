import Srtrust.Session.Introduction
import Srtrust.Connection.Listener

/-! # What a listener produces

A listener makes a connection only from a conclusion. As long as every conclusion it hears
introduces one caller, so does every one it has parked, and each call produces at most one
connection, for that caller, under a new id. -/
namespace Srtrust
open BigEndian
set_option autoImplicit false

/-! ## Produced connections -/

/-- A conclusion as the acceptor `a` writes it. -/
structure Responds (a : Connection) (hs : Handshake) : Prop where
  srtSocketId : hs.srtSocketId = a.localSocketId
  initialSeq : hs.initialSeq = a.initialSeq
  latency : peerLatencyMs hs.extensions = (millisU16 a.link.latency).toNat

namespace Connection

/-- An acceptor at its start, made for the conclusion `hs`. -/
structure Accepts (P : Primitives) (config : Config) (localSocketId : SocketId) (hs : Handshake)
    (a : Connection) : Prop where
  crypto : ∃ km, acceptCrypto P config.encryption hs = .ok km ∧ a.keys.crypto = km.1.map SessionCrypto.fromInitial
  localSocketId : a.localSocketId = localSocketId
  initialSeq : a.initialSeq = hs.initialSeq
  state : a.link.state = .connected
  peerSocketId : a.link.peerSocketId = hs.srtSocketId
  latency : a.link.latency = max config.latency (Duration.fromMillis (peerLatencyMs hs.extensions))
  nextSendSeq : a.tx.nextSendSeq = hs.initialSeq
  base : a.rx.recvBuffer.base = hs.initialSeq

variable {P : Primitives} {config : Config} {localSocketId : SocketId} {hs : Handshake} {now : Instant}
  {a : Connection}

theorem acceptCrypto_keyMaterial {encryption : Option EncryptionSettings} {km : Option UnwrappedKm × Option Bytes}
    (h : acceptCrypto P encryption hs = .ok km) : km.2 = findKmreq hs.extensions := by
  unfold acceptCrypto at h
  split at h
  · simp at h
  · next hkm =>
    obtain rfl := Except.ok.inj h
    exact hkm.symm
  · simp at h
  · next hkm =>
    split at h
    · simp at h
    · split at h
      · simp at h
      · obtain rfl := Except.ok.inj h
        exact hkm.symm

theorem accept_spec (h : accept P config localSocketId hs now = .ok a) :
    Accepts P config localSocketId hs a ∧ ∀ d, .sendDatagram d ∈ a.outputs ∨ a.link.lastHandshake = some d →
      ∃ timestamp, encodeControl hs.srtSocketId timestamp
        (.handshake (acceptResponse config localSocketId hs (findKmreq hs.extensions))) = some d := by
  unfold accept at h
  cases hkm : acceptCrypto P config.encryption hs with
  | error e => simp [hkm] at h
  | ok km =>
    rw [hkm] at h
    dsimp only at h
    have hmat := acceptCrypto_keyMaterial hkm
    split at h
    · obtain rfl := Except.ok.inj h
      refine ⟨⟨⟨km, hkm, rfl⟩, rfl, rfl, rfl, rfl, rfl, rfl, rfl⟩, ?_⟩
      simp [enterConnected, panicked, record, event, output, newBase]
    · next bytes henc =>
      obtain rfl := Except.ok.inj h
      refine ⟨⟨⟨km, hkm, rfl⟩, rfl, rfl, rfl, rfl, rfl, rfl, rfl⟩, ?_⟩
      intro d hd
      have hbytes : d = bytes := by simpa [enterConnected, event, output, newBase, eq_comm] using hd
      rw [hmat] at henc
      exact ⟨_, hbytes ▸ henc⟩

theorem accept_error {e : ConnectionError} (h : accept P config localSocketId hs now = .error e) :
    acceptCrypto P config.encryption hs = .error e := by
  unfold accept at h
  cases hkm : acceptCrypto P config.encryption hs with
  | error e' =>
    simp only [hkm, Except.error.injEq] at h
    rw [h]
  | ok km =>
    rw [hkm] at h
    dsimp only at h
    split at h <;> simp at h

/-- What the caller reads is the acceptor's response. -/
theorem accept_like {c₀ : Connection} (h : accept P config localSocketId hs now = .ok a)
    (hi : Introduces c₀ hs) (hd : c₀.Draws P) {d : Bytes} {hs' : Handshake}
    (hsent : .sendDatagram d ∈ a.outputs ∨ a.link.lastHandshake = some d) (hc : Concludes d hs') :
    ∃ extensions, hs' = { acceptResponse config localSocketId hs (findKmreq hs.extensions) with extensions } ∧
      List.Forall₂ Handshake.Like
        (acceptResponse config localSocketId hs (findKmreq hs.extensions)).extensions extensions := by
  obtain ⟨timestamp, henc⟩ := (accept_spec h).2 d hsent
  have hw : ∀ e ∈ (acceptResponse config localSocketId hs (findKmreq hs.extensions)).extensions,
      Handshake.WritableExtension e := by
    intro e he
    simp only [acceptResponse, List.mem_cons] at he
    rcases he with rfl | he
    · trivial
    · cases hkm : findKmreq hs.extensions with
      | none => simp [hkm] at he
      | some km =>
        simp only [hkm, List.mem_singleton] at he
        exact he ▸ ⟨by decide, by decide, by decide,
          hd.wordAligned km ((hi.kmreq.trans hd.kmreq).symm.trans hkm)⟩
  exact (concludes_like hw henc hc).2

theorem accept_responds {c₀ : Connection} (h : accept P config localSocketId hs now = .ok a)
    (hi : Introduces c₀ hs) (hd : c₀.Draws P) {d : Bytes} {hs' : Handshake}
    (hsent : .sendDatagram d ∈ a.outputs ∨ a.link.lastHandshake = some d) (hc : Concludes d hs') :
    Responds a hs' := by
  obtain ⟨exts, rfl, hlike⟩ := accept_like h hi hd hsent hc
  have ha := (accept_spec h).1
  refine ⟨ha.localSocketId.symm, ha.initialSeq.symm, ?_⟩
  rw [ha.latency]
  exact peerLatencyMs_like hlike

end Connection

/-! ## The listener -/

/-- A datagram of the listener itself: a handshake without extensions that names the listener,
and not a conclusion where `sound` holds. -/
def Bare (localSocketId : SocketId) (sound : Prop) (d : Bytes) : Prop :=
  ∃ dest timestamp hs, encodeControl dest timestamp (.handshake hs) = some d
    ∧ hs.srtSocketId = localSocketId ∧ hs.extensions = [] ∧ (sound → hs.handshakeType ≠ .conclusion)

theorem Bare.concludes {localSocketId : SocketId} {sound : Prop} {d : Bytes} {hs : Handshake}
    (h : Bare localSocketId sound d) (hc : Concludes d hs) : ¬ sound ∧ hs.srtSocketId = localSocketId := by
  obtain ⟨dest, timestamp, hs', henc, hid, hext, htype⟩ := h
  obtain ⟨hconc, exts, rfl, -⟩ := concludes_like (by simp [hext]) henc hc
  exact ⟨fun hsound => htype hsound hconc, hid⟩

namespace Listener

/-- What a call on the listener does, given that everything it hears introduces the caller: it
produces nothing, or one connection for an introduction. -/
structure Hosts (P : Primitives) (met : Handshake → Prop) (sound : Prop) (now : Instant) (l l' : Listener)
    (returned : List Connection) : Prop where
  config : l'.config = l.config
  localSocketId : l'.localSocketId = l.localSocketId
  pending : ∀ p ∈ l'.pending, met p.conclusion
  responses : ∀ r ∈ l'.responses, Bare l.localSocketId sound r.2
  outcome : (l'.accepted ++ returned = [] ∧ (l'.acceptCounter = l.acceptCounter
        ∨ ∃ hs e, met hs ∧ acceptCrypto P l.config.encryption hs = .error e))
      ∨ ∃ hs a, met hs ∧ l'.accepted ++ returned = [a]
        ∧ Connection.accept P l.config l.mintSocketId.1 hs now = .ok a
        ∧ l'.acceptCounter = l.mintSocketId.2.acceptCounter

/-- A listener with drained queues whose parked conclusions introduce the caller. -/
structure Drained (met : Handshake → Prop) (l : Listener) : Prop where
  responses : l.responses = []
  accepted : l.accepted = []
  pending : ∀ p ∈ l.pending, met p.conclusion

variable {P : Primitives} {met : Handshake → Prop} {sound : Prop} {now : Instant} {l l' : Listener}
  {returned : List Connection}

theorem Drained.hosts (h : Drained met l) : Hosts P met sound now l l [] :=
  ⟨rfl, rfl, h.pending, by simp [h.responses], .inl ⟨by simp [h.accepted], .inl rfl⟩⟩

/-- Other parked conclusions. -/
theorem Hosts.park (h : Hosts P met sound now l l' returned) {pending : List PendingConn}
    {requests : List ConnRequest} (hp : ∀ p ∈ pending, met p.conclusion) :
    Hosts P met sound now l { l' with pending := pending, requests := requests } returned :=
  ⟨h.config, h.localSocketId, hp, h.responses, h.outcome⟩

/-- One more response. -/
theorem Hosts.respond (h : Hosts P met sound now l l' returned) (peer : SocketAddr) (dest : SocketId)
    (extensionField : UInt16) {handshakeType : HandshakeType} (synCookie : UInt32)
    (htype : sound → handshakeType ≠ .conclusion) :
    Hosts P met sound now l
      (l'.respond peer dest (l'.bareHandshake peer extensionField handshakeType synCookie) now) returned := by
  unfold Listener.respond
  split
  · next bytes henc =>
    refine ⟨h.config, h.localSocketId, h.pending, fun r hr => ?_, h.outcome⟩
    rcases List.mem_append.mp hr with hr | hr
    · exact h.responses r hr
    · rw [List.mem_singleton.mp hr]
      exact ⟨_, _, _, henc, h.localSocketId, rfl, htype⟩
  · exact h

/-- The reasons the listener gives on its own account are all small. -/
theorem rejection_ne_conclusion (e : ConnectionError) :
    HandshakeType.rejection (rejectReason e) ≠ .conclusion := by
  unfold rejectReason
  split <;> decide

theorem Hosts.reject (h : Hosts P met sound now l l' returned) (conclusion : Handshake) (peer : SocketAddr)
    {reason : RejectReason} (hr : sound → HandshakeType.rejection reason ≠ .conclusion) :
    Hosts P met sound now l (l'.reject conclusion peer reason now) returned :=
  h.respond peer conclusion.srtSocketId 0 0 hr

theorem Hosts.unprune (pending : List PendingConn)
    (h : Hosts P met sound now { l with pending := pending } l' returned) :
    Hosts P met sound now l l' returned :=
  ⟨h.config, h.localSocketId, h.pending, h.responses, h.outcome⟩

theorem Drained.prune (h : Drained met l) {pending : List PendingConn}
    (hp : ∀ p ∈ pending, met p.conclusion) : Drained met { l with pending := pending } :=
  ⟨h.responses, h.accepted, hp⟩

/-- A minted id for a connection that is handed out, queued or returned. -/
theorem Drained.produce (h : Drained met l) {hs : Handshake} {a : Connection} (hmet : met hs)
    (ha : Connection.accept P l.config l.mintSocketId.1 hs now = .ok a) {accepted : List Connection}
    (hout : accepted ++ returned = [a]) :
    Hosts P met sound now l { l.mintSocketId.2 with accepted := accepted } returned :=
  ⟨rfl, rfl, h.pending, by simp [mintSocketId, h.responses], .inr ⟨hs, a, hmet, hout, ha, rfl⟩⟩

/-- A minted id that goes to waste. -/
theorem Drained.refuse (h : Drained met l) {hs : Handshake} {e : ConnectionError} (hmet : met hs)
    (ha : Connection.accept P l.config l.mintSocketId.1 hs now = .error e) (peer : SocketAddr) :
    Hosts P met sound now l (l.mintSocketId.2.reject hs peer (rejectReason e) now) [] := by
  have hminted : Hosts P met sound now l l.mintSocketId.2 [] :=
    ⟨rfl, rfl, h.pending, by simp [mintSocketId, h.responses],
      .inl ⟨by simp [mintSocketId, h.accepted], .inr ⟨hs, e, hmet, Connection.accept_error ha⟩⟩⟩
  exact hminted.reject hs peer fun _ => rejection_ne_conclusion e

theorem parkConclusion_hosts (h : Drained met l) {hs : Handshake} (hmet : met hs) (peer : SocketAddr) :
    Hosts P met sound now l (l.parkConclusion P hs peer now) [] := by
  unfold parkConclusion
  split
  · exact h.hosts.reject hs peer fun _ => rejection_ne_conclusion _
  · split
    · refine h.hosts.park fun p hp => ?_
      rcases List.mem_or_eq_of_mem_set hp with hp | rfl
      · exact h.pending p hp
      · exact hmet
    · refine h.hosts.park fun p hp => ?_
      rcases List.mem_append.mp hp with hp | hp
      · exact h.pending p hp
      · rw [List.mem_singleton.mp hp]
        exact hmet

theorem onConclusion_hosts (h : Drained met l) {hs : Handshake} (hmet : met hs) (peer : SocketAddr) :
    Hosts P met sound now l (l.onConclusion P hs peer now) [] := by
  unfold onConclusion
  split
  · exact h.hosts
  · split
    · exact parkConclusion_hosts h hmet peer
    · cases ha : Connection.accept P l.config l.mintSocketId.1 hs now with
      | ok a =>
        have hempty : l.mintSocketId.2.accepted = [] := h.accepted
        simp only [ha, hempty, List.nil_append]
        exact h.produce hmet ha rfl
      | error e =>
        simp only [ha]
        exact h.refuse hmet ha peer

theorem feedRecvBuf_hosts (h : Drained met l) {d : Bytes} (hmet : ∀ hs, Concludes d hs → met hs)
    (peer : SocketAddr) : Hosts P met sound now l (l.feedRecvBuf P d peer now) [] := by
  have hpruned := h.prune fun p hp => h.pending p (List.mem_of_mem_filter (a := p)
    (p := fun p => decide (now.saturatingDurationSince p.since < pendingTtl)) hp)
  unfold feedRecvBuf
  refine Hosts.unprune (l.pending.filter fun p => now.saturatingDurationSince p.since < pendingTtl) ?_
  dsimp only
  split
  · next timestamp dest hs hdec =>
    split
    · exact hpruned.hosts.respond peer hs.srtSocketId srtMagic _ fun _ => by decide
    · split
      · next htype => exact onConclusion_hosts hpruned (hmet hs ⟨_, hdec, rfl, htype⟩) peer
      · exact hpruned.hosts
  · exact hpruned.hosts

/-! ## Deferred decisions -/

theorem acceptPending_hosts (h : Drained met l) (remote : SocketAddr) :
    Hosts P met sound now l (l.acceptPending P remote now).2
      (l.acceptPending P remote now).1.toOption.toList := by
  unfold acceptPending
  split
  · exact h.hosts
  · next i _ =>
    split
    · exact h.hosts
    · next parked hparked =>
      have hpruned := h.prune fun p hp => h.pending p (mem_of_mem_swapRemove (i := i) hp)
      have hmet := h.pending parked (List.mem_of_getElem? hparked)
      refine Hosts.unprune (swapRemove l.pending i) ?_
      cases ha : Connection.accept P l.config ({ l with pending := swapRemove l.pending i } : Listener).mintSocketId.1
          parked.conclusion now with
      | ok a =>
        simp only [ha]
        exact hpruned.produce hmet ha (by simp [h.accepted, Except.toOption])
      | error e =>
        simp only [ha]
        exact hpruned.refuse hmet ha parked.peer

theorem rejectPending_hosts (h : Drained met l) (remote : SocketAddr) {reason : RejectReason}
    (hr : sound → HandshakeType.rejection reason ≠ .conclusion) :
    Hosts P met sound now l (l.rejectPending remote reason now).2 [] := by
  unfold rejectPending
  split
  · exact h.hosts
  · next i _ =>
    split
    · exact h.hosts
    · next parked hparked =>
      have hpruned := h.prune fun p hp => h.pending p (mem_of_mem_swapRemove (i := i) hp)
      exact (hpruned.hosts.reject parked.conclusion parked.peer hr).unprune _

end Listener

end Srtrust
