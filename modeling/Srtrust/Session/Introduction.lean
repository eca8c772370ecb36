import Srtrust.Session.Emission

/-! # How a caller introduces itself

Every conclusion a caller sends names the same caller and carries the same key material. Until a
conclusion comes back it does nothing else. -/
namespace Srtrust
open BigEndian
set_option autoImplicit false

/-! ## What a session says -/

namespace Session

theorem mem_datagrams {os : List Output} {d : Bytes} : d ∈ datagrams os ↔ .sendDatagram d ∈ os := by
  rw [datagrams, List.mem_filterMap]
  constructor
  · rintro ⟨o, ho, h⟩
    cases o with
    | sendDatagram d' => exact Option.some.inj h ▸ ho
    | setTimer _ _ => simp at h
    | clearTimer _ => simp at h
  · intro h
    exact ⟨_, h, rfl⟩

/-- Every conclusion a session has sent, or keeps for repetition, is of the given kind. -/
structure Tells (kind : Handshake → Prop) (s : Session) : Prop where
  outputs : s.conn.outputs = []
  said : ∀ d, d ∈ s.emitted ∨ s.conn.link.lastHandshake = some d → ∀ hs, Concludes d hs → kind hs

variable {kind : Handshake → Prop} {s : Session}

theorem Tells.mono {kind' : Handshake → Prop} (h : s.Tells kind) (hk : ∀ hs, kind hs → kind' hs) :
    s.Tells kind' :=
  ⟨h.outputs, fun d hd hs hc => hk hs (h.said d hd hs hc)⟩

theorem Tells.step {P : Primitives} {x : Call × Instant} (h : s.Tells kind)
    (hnew : ∀ d, .sendDatagram d ∈ (s.conn.perform P x.1 x.2).outputs
        ∨ (s.conn.perform P x.1 x.2).link.lastHandshake = some d → ∀ hs, Concludes d hs → kind hs) :
    (s.step P x).Tells kind := by
  refine ⟨rfl, fun d hd => ?_⟩
  rcases hd with hd | hd
  · rcases List.mem_append.mp hd with hd | hd
    · exact h.said d (.inl hd)
    · exact hnew d (.inl (mem_datagrams.mp hd))
  · exact hnew d (.inr hd)

/-- After the handshake nothing new is said. -/
theorem Tells.step_speaks {P : Primitives} {x : Call × Instant} (h : s.Tells kind)
    (hp : s.conn.Speaks (s.conn.perform P x.1 x.2)) : (s.step P x).Tells kind := by
  obtain ⟨os, hos, hsaid⟩ := hp.outputs
  have hlast : (s.conn.perform P x.1 x.2).link.lastHandshake = s.conn.link.lastHandshake :=
    congrArg (·.2.2) hp.agreed
  refine h.step fun d hd => ?_
  rw [hos, h.outputs, List.nil_append, hlast] at hd
  rcases hd with hd | hd
  · rcases hsaid d hd with hd | hd
    · exact fun hs hc => absurd hc (not_concludes hd hs)
    · exact h.said d (.inr hd)
  · exact h.said d (.inr hd)

end Session

/-! ## The caller -/

/-- A conclusion as the caller writes it, up to its cookie and its Stream ID. -/
structure Introduces (c : Connection) (hs : Handshake) : Prop where
  srtSocketId : hs.srtSocketId = c.localSocketId
  initialSeq : hs.initialSeq = c.initialSeq
  kmreq : findKmreq hs.extensions = findKmreq c.conclusion.extensions
  latency : peerLatencyMs hs.extensions = (millisU16 c.config.latency).toNat

/-- Lookups that do not read Stream IDs find the same. -/
theorem findSome?_like {α : Type} {f : HandshakeExtension → Option α}
    (hf : ∀ s s' : Utf8, f (.streamId s) = f (.streamId s')) {xs ys : List HandshakeExtension}
    (h : List.Forall₂ Handshake.Like xs ys) : ys.findSome? f = xs.findSome? f := by
  induction h with
  | nil => rfl
  | cons hxy _ ih =>
    rw [List.findSome?_cons, List.findSome?_cons, ih]
    cases hxy with
    | refl ext => rfl
    | streamId s s' => rw [hf s s']

theorem findKmreq_like {xs ys : List HandshakeExtension} (h : List.Forall₂ Handshake.Like xs ys) :
    findKmreq ys = findKmreq xs := by
  unfold findKmreq
  rw [findSome?_like (fun _ _ => rfl) h]

theorem peerLatencyMs_like {xs ys : List HandshakeExtension} (h : List.Forall₂ Handshake.Like xs ys) :
    peerLatencyMs ys = peerLatencyMs xs := by
  unfold peerLatencyMs
  rw [findSome?_like (fun _ _ => rfl) h]

namespace Connection

/-- Key material comes in whole words. -/
def WordAligned (c : Connection) : Prop := ∀ km, c.keys.keyMaterial = some km → km.length % 4 = 0

theorem conclusion_extensions {c c' : Connection} (hi : c'.ident = c.ident) (hk : c'.keys = c.keys) :
    c'.conclusion.extensions = c.conclusion.extensions := by
  have hconfig := config_of_ident hi
  simp only [conclusion, hk, hconfig]

theorem mem_conclusion {c : Connection} {e : HandshakeExtension} (he : e ∈ c.conclusion.extensions) :
    e = .hsReq (srtHandshakeExt (millisU16 c.config.latency)) ∨
      (∃ s, c.config.streamId = some s ∧ e = .streamId s) ∨
        ∃ km, c.keys.keyMaterial = some km ∧ e = .raw extKmreq km := by
  simp only [conclusion, List.cons_append, List.mem_cons, List.mem_append] at he
  rcases he with rfl | he | he
  · exact .inl rfl
  · cases hsid : c.config.streamId with
    | none => simp [hsid] at he
    | some s =>
      simp only [hsid, List.mem_singleton] at he
      exact .inr (.inl ⟨s, rfl, he⟩)
  · cases hkm : c.keys.keyMaterial with
    | none => simp [hkm] at he
    | some km =>
      cases henc : c.config.encryption with
      | none => simp [hkm, henc] at he
      | some enc =>
        simp only [hkm, henc, List.mem_singleton] at he
        exact .inr (.inr ⟨km, rfl, he⟩)

theorem mem_conclusion_streamId {c : Connection} {s : Utf8} (h : c.config.streamId = some s) :
    .streamId s ∈ c.conclusion.extensions := by
  simp [conclusion, h]

theorem conclusion_writable {c : Connection} (hw : c.WordAligned) :
    ∀ e ∈ c.conclusion.extensions, Handshake.WritableExtension e := by
  intro e he
  rcases mem_conclusion he with rfl | ⟨s, -, rfl⟩ | ⟨km, hkm, rfl⟩
  · trivial
  · trivial
  · exact ⟨by decide, by decide, by decide, hw km hkm⟩

/-- What the listener reads is an introduction of the caller. -/
theorem conclusion_introduces {c c' : Connection} (hi : c'.ident = c.ident) (hk : c'.keys = c.keys)
    (hw : c.WordAligned) {dest : SocketId} {timestamp : Timestamp} {d : Bytes} {hs : Handshake}
    (henc : encodeControl dest timestamp (.handshake c'.conclusion) = some d) (hc : Concludes d hs) :
    Introduces c hs := by
  have hw' : c'.WordAligned := by
    rw [WordAligned, hk]
    exact hw
  obtain ⟨-, exts, rfl, hlike⟩ := concludes_like (conclusion_writable hw') henc hc
  have hexts := conclusion_extensions hi hk
  refine ⟨congrArg (·.2.1) hi, congrArg (·.2.2.1) hi, ?_, ?_⟩
  · rw [← hexts]
    exact findKmreq_like hlike
  · refine (peerLatencyMs_like hlike).trans ?_
    rw [hexts]
    rfl

/-- A caller that has just connected through the conclusion `hs`. -/
structure Joined (c₀ c : Connection) (hs : Handshake) : Prop where
  ident : c.ident = c₀.ident
  keys : c.keys = c₀.keys
  nextSendSeq : c.tx.nextSendSeq = c₀.initialSeq
  base : c.rx.recvBuffer.base = hs.initialSeq
  peerSocketId : c.link.peerSocketId = hs.srtSocketId
  latency : c.link.latency = max c₀.config.latency (Duration.fromMillis (peerLatencyMs hs.extensions))

variable {P : Primitives} {c₀ c c' : Connection} {call : Call} {now : Instant}

/-- A handshake that goes on says nothing new, or introduces the caller. -/
theorem sendConclusion_spec (hi : c.ident = c₀.ident) (hk : c.keys = c₀.keys) (hw : c₀.WordAligned)
    (ho : c.outputs = []) {d : Bytes}
    (hd : .sendDatagram d ∈ (c.sendConclusion now).outputs
      ∨ (c.sendConclusion now).link.lastHandshake = some d) :
    c.link.lastHandshake = some d ∨ ∀ hs, Concludes d hs → Introduces c₀ hs := by
  rw [sendConclusion, emitHandshake] at hd
  cases henc : encodeControl ⟨0⟩ (c.wireTs now) (.handshake c.conclusion) with
  | none =>
    simp only [henc, panicked, record, ho, List.not_mem_nil, false_or] at hd
    exact .inl hd
  | some bytes =>
    have hbytes : d = bytes := by
      simpa [henc, output, ho, eq_comm] using hd
    exact .inr fun hs => conclusion_introduces hi hk hw (hbytes ▸ henc)

theorem sendConclusion_frame (c : Connection) (now : Instant) :
    (c.sendConclusion now).ident = c.ident ∧ (c.sendConclusion now).keys = c.keys
      ∧ (c.sendConclusion now).link.state = c.link.state
      ∧ (c.Opening → (c.sendConclusion now).Opening) := by
  rw [sendConclusion, emitHandshake]
  split
  · exact ⟨rfl, rfl, rfl, fun ⟨h1, h2, h3, h4, h5, h6⟩ => ⟨h1, h2, h3, h4, h5, h6⟩⟩
  · exact ⟨rfl, rfl, rfl, fun ⟨h1, h2, h3, h4, h5, h6⟩ => ⟨h1, h2, h3, h4, h5, h6⟩⟩

theorem enterConclusion_frame (c : Connection) (hs : Handshake) :
    (c.enterConclusion hs).ident = c.ident ∧ (c.enterConclusion hs).keys = c.keys
      ∧ (c.enterConclusion hs).link.lastHandshake = c.link.lastHandshake
      ∧ (c.enterConclusion hs).outputs = c.outputs := ⟨rfl, rfl, rfl, rfl⟩

theorem Opens.said (h : Opens c call now c') (hi : c.ident = c₀.ident) (hk : c.keys = c₀.keys)
    (hw : c₀.WordAligned) (ho : c.outputs = []) {d : Bytes}
    (hd : .sendDatagram d ∈ c'.outputs ∨ c'.link.lastHandshake = some d) :
    c.link.lastHandshake = some d ∨ ∀ hs, Concludes d hs → Introduces c₀ hs := by
  cases h with
  | waits h =>
    obtain ⟨os, hos, htouch⟩ := h.outputs
    rw [hos, ho, List.nil_append, h.link] at hd
    exact .inl (hd.elim (htouch _) id)
  | ended _ h _ =>
    obtain ⟨os, hos, hsaid⟩ := h.outputs
    have hlast : c'.link.lastHandshake = c.link.lastHandshake := congrArg (·.2.2) h.agreed
    rw [hos, ho, List.nil_append, hlast] at hd
    rcases hd with hd | hd
    · rcases hsaid d hd with hd | hd
      · exact .inr fun hs hc => absurd hc (not_concludes hd hs)
      · exact .inl hd
    · exact .inl hd
  | concludes hs _ =>
    obtain ⟨hident, hkeys, hlast, hout⟩ := enterConclusion_frame c hs
    rw [← hlast]
    exact sendConclusion_spec (hident.trans hi) (hkeys.trans hk) hw (hout.trans ho) hd
  | connects datagram ctrl hs _ _ _ _ _ _ =>
    simp [enterConnected, output, event, ho] at hd
    exact .inl hd

theorem enterConnected_frame (c : Connection) (negotiated : Negotiated) (now : Instant) :
    (c.enterConnected negotiated now).ident = c.ident ∧ (c.enterConnected negotiated now).keys = c.keys
      ∧ (c.enterConnected negotiated now).tx = c.tx
      ∧ (c.enterConnected negotiated now).link.state = .connected := ⟨rfl, rfl, rfl, rfl⟩

theorem Opens.frame (h : Opens c call now c') (hopen : c.Opening) :
    c'.ident = c.ident ∧ (¬ c'.Established → c'.Opening ∧ c'.keys = c.keys) := by
  cases h with
  | waits h => exact ⟨h.ident, fun _ => ⟨h.opening hopen, h.keys⟩⟩
  | ended hs h _ => exact ⟨h.ident, fun hn => absurd (.inr hs) hn⟩
  | concludes hs _ =>
    obtain ⟨hi, hk, -, hopening⟩ := sendConclusion_frame (c.enterConclusion hs) now
    refine ⟨hi, fun _ => ⟨hopening ?_, hk⟩⟩
    exact ⟨hopen.closing, hopen.nextSendSeq, hopen.sendQueue, hopen.outstanding, hopen.rekeyPending,
      hopen.slots⟩
  | connects datagram ctrl hs _ _ _ _ _ _ =>
    obtain ⟨hident, -, -, hstate⟩ := enterConnected_frame (c.output (.clearTimer .handshake))
      (negotiate c.config.latency hs) now
    exact ⟨hident, fun hn => absurd (.inl hstate) hn⟩

theorem Opens.connected (h : Opens c call now c') (hopen : c.Opening) (hi : c.ident = c₀.ident)
    (hk : c.keys = c₀.keys) (hs : ¬ c.Established) (hc : c'.link.state = .connected) :
    ∃ d hs, call = .feedRecvBuf d ∧ Concludes d hs ∧ Joined c₀ c' hs := by
  cases h with
  | waits h => exact absurd (.inl (h.link ▸ hc)) hs
  | ended h _ _ => simp [h] at hc
  | concludes hs h =>
    rw [(sendConclusion_frame (c.enterConclusion hs) now).2.2.1] at hc
    simp [enterConclusion] at hc
  | connects datagram ctrl hs _ hcall hdecode hbody htype _ =>
    obtain ⟨hident, hkeys, htx, -⟩ := enterConnected_frame (c.output (.clearTimer .handshake))
      (negotiate c.config.latency hs) now
    refine ⟨datagram, hs, hcall, ⟨ctrl, hdecode, hbody, htype⟩, hident.trans hi, hkeys.trans hk, ?_, rfl,
      rfl, ?_⟩
    · rw [htx]
      exact hopen.nextSendSeq.trans (congrArg (·.2.2.1) hi)
    · rw [← config_of_ident hi]
      rfl

theorem Opening.drained (h : c.Opening) : ({ c with outputs := [] } : Connection).Opening :=
  ⟨h.closing, h.nextSendSeq, h.sendQueue, h.outstanding, h.rekeyPending, h.slots⟩

theorem Joined.drained {hs : Handshake} (h : Joined c₀ c hs) : Joined c₀ { c with outputs := [] } hs :=
  ⟨h.ident, h.keys, h.nextSendSeq, h.base, h.peerSocketId, h.latency⟩

end Connection

/-- The caller of a meeting: it only ever introduces itself, and until its handshake is over it
has done nothing else. -/
structure Calling (c₀ : Connection) (s : Session) : Prop where
  tells : s.Tells (Introduces c₀)
  ident : s.conn.ident = c₀.ident
  opening : ¬ s.conn.Established → s.conn.Opening ∧ s.conn.keys = c₀.keys

namespace Calling
open Connection

variable {P : Primitives} {c₀ : Connection} {s : Session} {x : Call × Instant}

theorem step (h : Calling c₀ s) (hw : c₀.WordAligned) : Calling c₀ (s.step P x) := by
  by_cases he : s.conn.Established
  · have hp := perform_speaks P x.1 x.2 he
    exact ⟨h.tells.step_speaks hp, hp.ident.trans h.ident, fun hn => absurd (hp.established he) hn⟩
  · obtain ⟨hopen, hkeys⟩ := h.opening he
    have hp := perform_opens P x.1 x.2 hopen he
    obtain ⟨hident, hopening⟩ := hp.frame hopen
    refine ⟨h.tells.step fun d hd => ?_, hident.trans h.ident, fun hn => ?_⟩
    · rcases hp.said h.ident hkeys hw h.tells.outputs hd with hd | hd
      · exact h.tells.said d (.inr hd)
      · exact hd
    · obtain ⟨hopen', hkeys'⟩ := hopening hn
      exact ⟨hopen'.drained, hkeys'.trans hkeys⟩

/-- A handshake that is over is not opened again. -/
theorem connected_before (he : s.conn.Established) (hafter : (s.step P x).conn.link.state = .connected) :
    s.conn.link.state = .connected := by
  change (s.conn.perform P x.1 x.2).link.state = .connected at hafter
  rcases (perform_speaks P x.1 x.2 he).state with hs | hs
  · exact hs.symm.trans hafter
  · rw [hafter] at hs
    simp at hs

/-- The one way to get connected: a conclusion arrives. -/
theorem connects (h : Calling c₀ s) (hbefore : s.conn.link.state ≠ .connected)
    (hafter : (s.step P x).conn.link.state = .connected) :
    ∃ d hs, x.1 = .feedRecvBuf d ∧ Concludes d hs ∧ Joined c₀ (s.step P x).conn hs := by
  by_cases he : s.conn.Established
  · exact absurd (connected_before he hafter) hbefore
  · obtain ⟨hopen, hkeys⟩ := h.opening he
    obtain ⟨d, hs, hcall, hc, hj⟩ :=
      (perform_opens P x.1 x.2 hopen he).connected hopen h.ident hkeys he hafter
    exact ⟨d, hs, hcall, hc, hj.drained⟩

/-- The step from the induction to the conclusion sends the conclusion. -/
theorem concludes (h : Calling c₀ s) (hbefore : s.conn.link.state = .induction)
    (hafter : (s.step P x).conn.link.state = .conclusion) :
    ∃ hs, s.conn.perform P x.1 x.2 = (s.conn.enterConclusion hs).sendConclusion x.2 := by
  have hnot : ¬ s.conn.Established := by simp [Connection.Established, hbefore]
  have hopens := perform_opens P x.1 x.2 (h.opening hnot).1 hnot
  change (s.conn.perform P x.1 x.2).link.state = .conclusion at hafter
  generalize s.conn.perform P x.1 x.2 = c at hopens hafter
  cases hopens with
  | waits h =>
    rw [h.link, hbefore] at hafter
    simp at hafter
  | ended hs _ _ =>
    rw [hs] at hafter
    simp at hafter
  | concludes hs _ => exact ⟨hs, rfl⟩
  | connects _ _ _ h _ _ _ _ _ =>
    rw [h] at hbefore
    simp at hbefore

theorem established_step (he : s.conn.Established) : (s.step P x).conn.Established :=
  (perform_speaks P x.1 x.2 he).established he

/-- A connected caller keeps its peer. -/
theorem peer_stays (hbefore : s.conn.link.state = .connected) :
    (s.step P x).conn.link.peerSocketId = s.conn.link.peerSocketId :=
  congrArg (·.1) (perform_speaks P x.1 x.2 (.inl hbefore)).agreed

end Calling

/-! ## A new caller -/

namespace Connection

/-- What an induction brings with it: nothing that could be read as a conclusion. -/
theorem sendInduction_spec (c : Connection) (now : Instant) (hl : c.link.lastHandshake = none)
    (ho : c.outputs = []) :
    (c.sendInduction now).ident = c.ident
      ∧ (c.sendInduction now).link.state = c.link.state ∧ (c.Opening → (c.sendInduction now).Opening)
      ∧ ∀ d, .sendDatagram d ∈ (c.sendInduction now).outputs
          ∨ (c.sendInduction now).link.lastHandshake = some d → ∀ hs, ¬ Concludes d hs := by
  rw [sendInduction, emitHandshake]
  split
  · refine ⟨rfl, rfl, fun ⟨h1, h2, h3, h4, h5, h6⟩ => ⟨h1, h2, h3, h4, h5, h6⟩, ?_⟩
    simp [panicked, record, hl, ho]
  · next bytes henc =>
    refine ⟨rfl, rfl, fun ⟨h1, h2, h3, h4, h5, h6⟩ => ⟨h1, h2, h3, h4, h5, h6⟩, ?_⟩
    intro d hd hs hc
    have hbytes : d = bytes := by simpa [output, ho, eq_comm] using hd
    have hind := (concludes_like (by simp) (hbytes ▸ henc) hc).1
    simp [HandshakeType.induction, HandshakeType.conclusion] at hind

/-- The keys a caller draws, as far as they can be drawn. -/
inductive Draws (P : Primitives) (c : Connection) : Prop
  | plain (hc : c.keys.crypto = none) (hk : c.keys.keyMaterial = none)
  | sealed (enc : EncryptionSettings) (salt : Block 16) (sek : Bytes) (keys : SessionKeys) (km : KeyMaterial)
      (henc : c.config.encryption = some enc)
      (hgen : SessionKeys.generate P enc.passphrase enc.cipher salt sek = some (keys, km))
      (hc : c.keys.crypto = some (SessionCrypto.ofEven keys)) (hk : c.keys.keyMaterial = some km.encode)

/-- A caller at its start. -/
structure Calls (P : Primitives) (c : Connection) : Prop where
  state : c.link.state = .induction
  opening : c.Opening
  draws : c.Draws P
  silent : ∀ d, .sendDatagram d ∈ c.outputs ∨ c.link.lastHandshake = some d → ∀ hs, ¬ Concludes d hs

theorem sendInduction_calls {P : Primitives} {c : Connection} (now : Instant)
    (hs : c.link.state = .induction) (hopen : c.Opening) (hdraws : c.Draws P)
    (hl : c.link.lastHandshake = none) (ho : c.outputs = []) : (c.sendInduction now).Calls P := by
  obtain ⟨hident, hstate, hopening, hsaid⟩ := sendInduction_spec c now hl ho
  have hkeys := sendInduction_keys c now
  refine ⟨hstate.trans hs, hopening hopen, ?_, hsaid⟩
  cases hdraws with
  | plain hc hk => exact .plain (hkeys ▸ hc) (hkeys ▸ hk)
  | sealed enc salt sek keys km henc hgen hc hk =>
    exact .sealed enc salt sek keys km (config_of_ident hident ▸ henc) hgen (hkeys ▸ hc) (hkeys ▸ hk)

variable (P : Primitives) (config : Config) (localSocketId : SocketId) (initialSeq : SeqNumber)
  (now : Instant) (salt : Block 16) (sek : (n : ℕ) → Block n)

theorem connect_ident : (connect P config localSocketId initialSeq now salt sek).ident
    = (config, localSocketId, initialSeq, now, .caller) := by
  unfold connect
  dsimp only
  split
  · exact (sendInduction_spec _ now rfl rfl).1
  · split
    · rfl
    · exact (sendInduction_spec _ now rfl rfl).1

theorem connect_calls : (connect P config localSocketId initialSeq now salt sek).Calls P := by
  unfold connect
  dsimp only
  split
  · exact sendInduction_calls now rfl ⟨rfl, rfl, rfl, rfl, rfl, rfl⟩ (.plain rfl rfl) rfl rfl
  · next enc henc =>
    split
    · exact ⟨rfl, ⟨rfl, rfl, rfl, rfl, rfl, rfl⟩, .plain rfl rfl,
        by simp [panicked, record, newBase]⟩
    · next keys km hgen =>
      exact sendInduction_calls now rfl ⟨rfl, rfl, rfl, rfl, rfl, rfl⟩
        (.sealed enc salt _ keys km henc hgen rfl rfl) rfl rfl

variable {P}

/-- A new caller in its embedder's hands. -/
theorem Calls.calling {c : Connection} (h : c.Calls P) (now : Instant) : Calling c (Session.start c now) := by
  refine ⟨⟨rfl, fun d hd hs hc => absurd hc (h.silent d ?_ hs)⟩, rfl, fun _ => ⟨h.opening.drained, rfl⟩⟩
  rcases hd with hd | hd
  · exact .inl (Session.mem_datagrams.mp (by simpa [Session.start, Session.settle] using hd))
  · exact .inr hd

theorem Draws.of_eq {c c' : Connection} (h : c.Draws P) (hi : c'.ident = c.ident) (hk : c'.keys = c.keys) :
    c'.Draws P := by
  have hconfig := config_of_ident hi
  cases h with
  | plain hc hk' => exact .plain (hk ▸ hc) (hk ▸ hk')
  | sealed enc salt sek keys km henc hgen hc hk' =>
    exact .sealed enc salt sek keys km (hconfig ▸ henc) hgen (hk ▸ hc) (hk ▸ hk')

theorem Draws.wordAligned {c : Connection} (h : c.Draws P) : c.WordAligned := by
  intro bytes hbytes
  cases h with
  | plain _ hk => simp [hk] at hbytes
  | sealed enc salt sek keys km _ hgen _ hk =>
    obtain rfl : km.encode = bytes := Option.some.inj (hk.symm.trans hbytes)
    have hconf := SessionKeys.fromRaw_conforming (by simp) hgen
    exact (km.length_encode hconf).1

theorem Calls.run_calling {c : Connection} (h : c.Calls P) (now : Instant) (inputs : List (Call × Instant)) :
    Calling c (Runs.run (Session.step P) (Session.start c now) inputs) := by
  have hmeets : Runs.Meets (Session.step P) (fun _ _ => True) (Session.start c now) inputs :=
    Runs.meets_of_forall (fun _ _ => trivial) _ _
  exact Runs.invariant (fun _ _ hs _ => hs.step h.draws.wordAligned) (h.calling now) hmeets

/-- Of a conclusion's extensions only the Stream ID may not conform. -/
theorem Draws.conforming_or {c : Connection} (h : c.Draws P) {e : HandshakeExtension}
    (he : e ∈ c.conclusion.extensions) :
    Handshake.ConformingExtension e ∨ ∃ s, c.config.streamId = some s ∧ e = .streamId s := by
  rcases mem_conclusion he with rfl | hs | ⟨bytes, hbytes, rfl⟩
  · exact .inl trivial
  · exact .inr hs
  · left
    cases h with
    | plain _ hk => simp [hk] at hbytes
    | sealed enc salt sek keys km _ hgen _ hk =>
      obtain rfl : km.encode = bytes := Option.some.inj (hk.symm.trans hbytes)
      have hlen := km.length_encode (SessionKeys.fromRaw_conforming (by simp) hgen)
      exact ⟨by decide, by decide, by decide, hlen.1, by omega⟩

/-- A conclusion whose Stream ID conforms does. -/
theorem Draws.conforming {c : Connection} (h : c.Draws P)
    (hsid : ∀ s, c.config.streamId = some s → Handshake.ConformingExtension (.streamId s)) :
    ∀ e ∈ c.conclusion.extensions, Handshake.ConformingExtension e := by
  intro e he
  rcases h.conforming_or he with hconforms | ⟨s, hs, rfl⟩
  · exact hconforms
  · exact hsid s hs

theorem Draws.kmreq {c : Connection} (h : c.Draws P) :
    findKmreq c.conclusion.extensions = c.keys.keyMaterial := by
  have hsid : ∀ sid km : List HandshakeExtension, (sid = [] ∨ ∃ s, sid = [.streamId s]) →
      findKmreq (.hsReq (srtHandshakeExt (millisU16 c.config.latency)) :: sid ++ km) = findKmreq km := by
    rintro sid km (rfl | ⟨s, rfl⟩) <;> rfl
  refine (hsid _ _ ?_).trans ?_
  · cases c.config.streamId with
    | none => exact .inl rfl
    | some s => exact .inr ⟨s, rfl⟩
  cases h with
  | plain _ hk =>
    rw [hk]
    rfl
  | sealed enc salt sek keys km henc _ _ hk =>
    rw [hk, henc]
    rfl

/-- The listener that opens the caller's key material holds the caller's keys. -/
theorem Draws.shared {c : Connection} (h : c.Draws P) (hP : P.UnwrapsWrapped) (hP' : P.BindsPassphrase)
    {encryption : Option EncryptionSettings} {hs : Handshake} {crypto : Option UnwrappedKm}
    {keyMaterial : Option Bytes} (hi : Introduces c hs)
    (ha : acceptCrypto P encryption hs = .ok (crypto, keyMaterial)) :
    crypto.map SessionCrypto.fromInitial = c.keys.crypto := by
  have hkm := hi.kmreq.trans h.kmreq
  unfold acceptCrypto at ha
  rw [hkm] at ha
  cases h with
  | plain hc hk =>
    rw [hk] at ha
    rw [hc]
    cases encryption with
    | none =>
      obtain ⟨rfl, -⟩ := Prod.mk.inj (Except.ok.inj ha)
      rfl
    | some enc => simp at ha
  | sealed enc salt sek keys km _ hgen hc hk =>
    rw [hk] at ha
    rw [hc]
    cases encryption with
    | none => simp at ha
    | some enc' =>
      dsimp only at ha
      rw [KeyMaterial.decode_encode km (SessionKeys.fromRaw_conforming (by simp) hgen)] at ha
      dsimp only at ha
      by_cases hpass : enc'.passphrase = enc.passphrase
      · rw [hpass, SessionKeys.fromKeyMaterial_fromRaw hP (by simp) hgen] at ha
        obtain ⟨rfl, -⟩ := Prod.mk.inj (Except.ok.inj ha)
        rfl
      · obtain ⟨e, he⟩ := SessionKeys.fromKeyMaterial_foreign hP' hgen hpass
        simp [he] at ha

end Connection

end Srtrust
