import Srtrust.Session.Hosting
import Srtrust.Session.Meeting
import Srtrust.Session.Authenticity

/-! # What a caller and a listener agree on

Every conclusion that reaches the caller comes from a connection the listener produced for it, or
from the listener itself: a rejection whose code runs into the value that stands for a
conclusion. -/
namespace Srtrust
open BigEndian
set_option autoImplicit false

/-! ## Latencies on the wire -/

/-- A latency, in nanoseconds, as it comes out of a handshake. -/
def wireLatency (d : ℕ) : ℕ := Duration.fromMillis (millisU16 d).toNat

/-- Latencies that a handshake carries unchanged. -/
def WholeMillis (d : ℕ) : Prop := d % 1000000 = 0 ∧ d ≤ 65535 * 1000000

theorem wireLatency_eq (d : ℕ) : wireLatency d = min (d / 1000000) 65535 * 1000000 := by
  have hfits : min (d / 1000000) 65535 < 65536 := by omega
  rw [wireLatency, Duration.fromMillis, millisU16, UInt16.toNat_ofNat', Duration.asMillis,
    Nat.mod_eq_of_lt hfits]

theorem wireLatency_le (d : ℕ) : wireLatency d ≤ d := by
  rw [wireLatency_eq]
  omega

theorem wireLatency_eq_self_iff (d : ℕ) : wireLatency d = d ↔ WholeMillis d := by
  rw [wireLatency_eq, WholeMillis]
  omega

/-- Each end takes the greater of its own latency and the one it reads; the two results are one
value exactly when the greater latency survives the trip. -/
theorem negotiated_eq_iff (la lb : ℕ) :
    max la (wireLatency (max lb (wireLatency la))) = max lb (wireLatency la)
      ↔ la = lb ∨ WholeMillis (max la lb) := by
  have hla := wireLatency_le la
  rcases Nat.lt_trichotomy la lb with h | rfl | h
  · have hlb := wireLatency_le lb
    rw [max_eq_left (by omega : wireLatency la ≤ lb), max_eq_right h.le, ← wireLatency_eq_self_iff]
    omega
  · simp [hla]
  · rw [max_eq_left h.le, ← wireLatency_eq_self_iff]
    have hw := wireLatency_le (max lb (wireLatency la))
    omega

/-! ## The meeting -/

/-- The `i`-th id a listener mints. -/
def Listener.idAt (localId : UInt32) (i : ℕ) : SocketId :=
  ⟨localId ^^^ UInt32.ofNat (counterAt localId.toNat (i + 1))⟩

namespace Meeting
open Connection

/-- The listener cannot make a connection from the caller's key material. -/
def Refused (P : Primitives) (c₀ : Connection) (l₀ : Listener) : Prop :=
  ∃ e, acceptCrypto P l₀.config.encryption c₀.conclusion = .error e

/-- What holds throughout a meeting of the caller `c₀` and the listener `l₀`. -/
structure Met (P : Primitives) (c₀ : Connection) (l₀ : Listener) (sound : Prop) (m : Meeting) : Prop where
  caller : Calling c₀ m.caller
  listener : m.listener.Drained (Introduces c₀)
  config : m.listener.config = l₀.config
  localSocketId : m.listener.localSocketId = l₀.localSocketId
  replies : ∀ d ∈ m.replies, Bare l₀.localSocketId sound d
  produced : ∀ a ∈ m.produced, ∃ id hs now, id ≠ l₀.localSocketId ∧ Introduces c₀ hs
    ∧ accept P l₀.config id hs now = .ok a
  minted : Refused P c₀ l₀ ∨ (m.produced.length + 1 < 4294967296 →
    m.listener.acceptCounter
        = UInt32.ofNat (Listener.counterAt l₀.localSocketId.value.toNat m.produced.length)
      ∧ m.produced.map (·.localSocketId)
        = (List.range m.produced.length).map (Listener.idAt l₀.localSocketId.value))
  served : ∀ s ∈ m.served, s.conn.Established ∧ s.Tells fun hs => ∃ a ∈ m.produced, Responds a hs
  established : ∀ c, m.established = some c → m.caller.conn.Established ∧ ∃ hs, Joined c₀ c hs ∧
    ((∃ a ∈ m.produced, Responds a hs) ∨ ¬ sound ∧ hs.srtSocketId = l₀.localSocketId)
  connected : m.caller.conn.link.state = .connected →
    ∃ c, m.established = some c ∧ c.link.peerSocketId = m.caller.conn.link.peerSocketId

variable {P : Primitives} {c₀ : Connection} {l₀ : Listener} {sound : Prop} {m : Meeting} {now : Instant}

/-- Whoever the caller hears a conclusion from. -/
theorem Met.heard (h : Met P c₀ l₀ sound m) {d : Bytes} (hd : d ∈ m.toCaller) {hs : Handshake}
    (hc : Concludes d hs) :
    (∃ a ∈ m.produced, Responds a hs) ∨ ¬ sound ∧ hs.srtSocketId = l₀.localSocketId := by
  rcases List.mem_append.mp hd with hd | hd
  · exact .inr ((h.replies d hd).concludes hc)
  · obtain ⟨s, hs', hd⟩ := List.mem_flatMap.mp hd
    exact .inl ((h.served s hs').2.said d (.inl hd) hs hc)

theorem Met.callCaller (h : Met P c₀ l₀ sound m) (hw : c₀.WordAligned) {call : Call}
    (hheard : ∀ d, call = .feedRecvBuf d → d ∈ m.toCaller) :
    Met P c₀ l₀ sound (m.callCaller P call now) := by
  refine ⟨h.caller.step hw, h.listener, h.config, h.localSocketId, h.replies, h.produced, h.minted, h.served,
    ?_, ?_⟩
  · intro c hc
    rw [Meeting.callCaller] at hc ⊢
    dsimp only at hc ⊢
    cases he : m.established with
    | some c' =>
      rw [he, Option.some_or] at hc
      obtain ⟨hover, hjoined⟩ := h.established c (he.trans hc)
      exact ⟨Calling.established_step hover, hjoined⟩
    | none =>
      rw [he, Option.none_or] at hc
      split_ifs at hc with hconn
      obtain rfl := Option.some.inj hc
      have hbefore : m.caller.conn.link.state ≠ .connected := by
        intro hs
        obtain ⟨c, hc, -⟩ := h.connected hs
        simp [he] at hc
      obtain ⟨d, hs, hcall, hconc, hj⟩ := h.caller.connects hbefore hconn
      exact ⟨.inl hconn, hs, hj, h.heard (hheard d hcall) hconc⟩
  · intro hconn
    rw [Meeting.callCaller] at hconn ⊢
    dsimp only at hconn ⊢
    rw [if_pos hconn]
    cases he : m.established with
    | none => exact ⟨_, rfl, rfl⟩
    | some c =>
      have hbefore := Calling.connected_before (h.established c he).1 hconn
      obtain ⟨c', hc', hpeer⟩ := h.connected hbefore
      obtain rfl : c = c' := Option.some.inj (he.symm.trans hc')
      exact ⟨c, rfl, hpeer.trans (Calling.peer_stays hbefore).symm⟩

/-- A call on a produced connection. -/
theorem Met.callServed (h : Met P c₀ l₀ sound m) (k : ℕ) (call : Call) :
    Met P c₀ l₀ sound (m.callServed P k call now) := by
  refine ⟨h.caller, h.listener, h.config, h.localSocketId, h.replies, h.produced, h.minted, ?_, h.established,
    h.connected⟩
  intro s hs
  obtain ⟨j, hj⟩ := List.mem_iff_getElem?.mp hs
  rw [Meeting.callServed, List.getElem?_modify] at hj
  obtain ⟨t, ht, rfl⟩ := Option.map_eq_some_iff.mp hj
  obtain ⟨he, htells⟩ := h.served t (List.mem_of_getElem? ht)
  split_ifs
  · exact ⟨Calling.established_step he, htells.step_speaks (perform_speaks P call now he)⟩
  · exact ⟨he, htells⟩

theorem acceptCrypto_introduces {encryption : Option EncryptionSettings} {hs : Handshake}
    (h : Introduces c₀ hs) : acceptCrypto P encryption hs = acceptCrypto P encryption c₀.conclusion := by
  unfold acceptCrypto
  rw [h.kmreq]

/-- Each id that is minted belongs to a connection, unless none is ever made. -/
theorem Met.minted_adopt (h : Met P c₀ l₀ sound m) {l : Listener} {returned : List Connection}
    (hl : m.listener.Hosts P (Introduces c₀) sound now l returned) :
    Refused P c₀ l₀ ∨ ((m.adopt l returned now).produced.length + 1 < 4294967296 →
      l.acceptCounter = UInt32.ofNat
          (Listener.counterAt l₀.localSocketId.value.toNat (m.adopt l returned now).produced.length)
        ∧ (m.adopt l returned now).produced.map (·.localSocketId)
          = (List.range (m.adopt l returned now).produced.length).map
              (Listener.idAt l₀.localSocketId.value)) := by
  rcases h.minted with hrefused | hminted
  · exact .inl hrefused
  rcases hl.outcome with ⟨hnone, hsame | ⟨hs, e, hmet, herr⟩⟩ | ⟨hs, a, hmet, hone, hacc, hcounter⟩
  · rw [Meeting.adopt, hnone, List.append_nil, hsame]
    exact .inr hminted
  · rw [h.config, acceptCrypto_introduces hmet] at herr
    exact .inl ⟨e, herr⟩
  · refine .inr fun hlen => ?_
    rw [Meeting.adopt, hone, List.length_append, List.length_singleton] at hlen ⊢
    obtain ⟨hold, hids⟩ := hminted (by omega)
    have hmint : l.acceptCounter
        = UInt32.ofNat (Listener.counterAt l₀.localSocketId.value.toNat (m.produced.length + 1)) := by
      rw [hcounter, Listener.mintSocketId, h.localSocketId, hold]
      exact Listener.mintLoop_counterAt _ (by omega)
    have hid : a.localSocketId = Listener.idAt l₀.localSocketId.value m.produced.length := by
      rw [(accept_spec hacc).1.localSocketId, Listener.idAt, ← hmint, hcounter, ← h.localSocketId]
      rfl
    refine ⟨hmint, ?_⟩
    rw [List.map_append, hids, List.range_succ, List.map_append, List.map_singleton, List.map_singleton, hid]

/-- A call on the listener. -/
theorem Met.adopt (h : Met P c₀ l₀ sound m) (hd : c₀.Draws P) {l : Listener} {returned : List Connection}
    (hl : m.listener.Hosts P (Introduces c₀) sound now l returned) :
    Met P c₀ l₀ sound (m.adopt l returned now) := by
  have haccepts : ∀ a ∈ l.accepted ++ returned, ∃ id hs, id ≠ l₀.localSocketId ∧ Introduces c₀ hs
      ∧ accept P l₀.config id hs now = .ok a := by
    intro a ha
    rcases hl.outcome with ⟨hnone, -⟩ | ⟨hs, b, hmet, hone, hacc, -⟩
    · simp [hnone] at ha
    · rw [hone, List.mem_singleton] at ha
      subst ha
      rw [h.config] at hacc
      refine ⟨_, hs, ?_, hmet, hacc⟩
      rw [← h.localSocketId]
      exact m.listener.mintSocketId_ne
  have hgrow : ∀ hs, (∃ a ∈ m.produced, Responds a hs) → ∃ a ∈ (m.adopt l returned now).produced, Responds a hs :=
    fun hs ⟨a, ha, hr⟩ => ⟨a, List.mem_append_left _ ha, hr⟩
  refine ⟨h.caller, ⟨rfl, rfl, hl.pending⟩, hl.config.trans h.config,
    hl.localSocketId.trans h.localSocketId, ?_, ?_, ?_, ?_, ?_, h.connected⟩
  · intro d hd
    rcases List.mem_append.mp hd with hd | hd
    · exact h.replies d hd
    · obtain ⟨r, hr, rfl⟩ := List.mem_map.mp hd
      rw [← h.localSocketId]
      exact hl.responses r (List.mem_of_mem_filter hr)
  · intro a ha
    rcases List.mem_append.mp ha with ha | ha
    · exact h.produced a ha
    · obtain ⟨id, hs, hid, hmet, hacc⟩ := haccepts a ha
      exact ⟨id, hs, now, hid, hmet, hacc⟩
  · exact h.minted_adopt hl
  · intro s hs
    rcases List.mem_append.mp hs with hs | hs
    · obtain ⟨he, htells⟩ := h.served s hs
      exact ⟨he, htells.mono hgrow⟩
    · obtain ⟨a, ha, rfl⟩ := List.mem_map.mp hs
      obtain ⟨id, hs, -, hmet, hacc⟩ := haccepts a ha
      refine ⟨.inl (accept_spec hacc).1.state, rfl, fun d hd' hs' hc => ?_⟩
      refine ⟨a, List.mem_append_right _ ha, accept_responds hacc hmet hd ?_ hc⟩
      rcases hd' with hd' | hd'
      · exact .inl (Session.mem_datagrams.mp (by simpa [Session.start, Session.settle] using hd'))
      · exact .inr hd'
  · intro c hc
    obtain ⟨hover, hs, hj, hfrom⟩ := h.established c hc
    exact ⟨hover, hs, hj, hfrom.imp_left (hgrow hs)⟩

theorem rejection_ne_conclusion {reason : RejectReason} (h : reason.code ≠ 4294966295) :
    HandshakeType.rejection reason ≠ .conclusion := by
  intro he
  have hraw : HandshakeType.rejectionBase + reason.code = 0xFFFFFFFF := congrArg HandshakeType.toRaw he
  refine h ?_
  have : reason.code = HandshakeType.rejectionBase + reason.code - HandshakeType.rejectionBase := by
    rw [UInt32.add_comm, UInt32.add_sub_cancel]
  rw [this, hraw]
  rfl

theorem Met.step (h : Met P c₀ l₀ sound m) (hd : c₀.Draws P) {x : Move × Instant} (hx : m.Legal x)
    (hsound : sound → x.1.Sound) : Met P c₀ l₀ sound (m.step P x) := by
  obtain ⟨move, now⟩ := x
  obtain ⟨-, hlegal⟩ := hx
  have local_not_feed {call : Call} (hc : call.IsLocal) (d : Bytes) : call ≠ .feedRecvBuf d := by
    rintro rfl
    exact hc
  cases move with
  | caller call => exact h.callCaller hd.wordAligned fun d hc => absurd hc (local_not_feed hlegal.1 d)
  | callerHears i =>
    simp only [Meeting.step]
    split
    · next d hd' =>
      refine h.callCaller hd.wordAligned fun d' hc => ?_
      obtain rfl := Call.feedRecvBuf.inj hc
      exact List.mem_of_getElem? hd'
    · exact h
  | served k call => exact h.callServed k call
  | servedHears k i =>
    simp only [Meeting.step]
    split
    · exact h.callServed k _
    · exact h
  | listenerHears i =>
    simp only [Meeting.step]
    split
    · next d hd' =>
      exact h.adopt hd (Listener.feedRecvBuf_hosts h.listener
        (h.caller.tells.said d (.inl (List.mem_of_getElem? hd'))) m.address)
    · exact h
  | deferAccepts =>
    have hh : m.listener.Hosts P (Introduces c₀) sound now m.listener [] := h.listener.hosts
    exact h.adopt hd ⟨hh.config, hh.localSocketId, hh.pending, hh.responses, hh.outcome⟩
  | pollRequest =>
    have hh : m.listener.Hosts P (Introduces c₀) sound now m.listener [] := h.listener.hosts
    exact h.adopt hd (hh.park h.listener.pending)
  | acceptPending remote => exact h.adopt hd (Listener.acceptPending_hosts h.listener remote)
  | rejectPending remote reason =>
    exact h.adopt hd (Listener.rejectPending_hosts h.listener remote
      fun hs => rejection_ne_conclusion (hsound hs))

theorem Opened.met (h : Opened P m) : ∃ c₀ l₀, m.caller.conn.ident = c₀.ident ∧ m.listener.config = l₀.config
    ∧ c₀.Draws P ∧ ∀ sound, Met P c₀ l₀ sound m := by
  obtain ⟨config, localSocketId, initialSeq, salt, sek, address, listenerConfig, listenerId, listenerSeq,
    cookieSecret, opened, now⟩ := h
  have hc := connect_calls P config localSocketId initialSeq now salt sek
  generalize hc₀ : connect P config localSocketId initialSeq now salt sek = c₀ at hc
  refine ⟨c₀, Listener.new listenerConfig listenerId listenerSeq cookieSecret opened, rfl, rfl, hc.draws,
    fun sound => ?_⟩
  refine ⟨hc.calling now, ⟨rfl, rfl, by simp [start, Listener.new]⟩, rfl, rfl,
    by simp [start], by simp [start], .inr fun _ => ⟨?_, rfl⟩, by simp [start], by simp [start], ?_⟩
  · change 0 = UInt32.ofNat (Listener.counterAt _ 0)
    rw [Listener.counterAt_zero]
    rfl
  · intro hconn
    change c₀.link.state = _ at hconn
    simp [hc.state] at hconn

/-- What holds in every state of a meeting. -/
theorem run_met (h : Met P c₀ l₀ sound m) (hd : c₀.Draws P) {moves : List (Move × Instant)}
    (hm : Runs.Meets (step P) (fun m x => m.Legal x ∧ (sound → x.1.Sound)) m moves) :
    Met P c₀ l₀ sound (Runs.run (step P) m moves) :=
  Runs.invariant (fun _ _ h hx => h.step hd hx.1 hx.2) h hm

/-! ## Sample meetings -/

/-- Where the sample listeners see their caller. -/
def sampleAddress : SocketAddr := ⟨.localhost, 5000⟩

/-- A caller with id 1 and a listener with id 7. -/
def sample (P : Primitives) (config listenerConfig : Config) : Meeting :=
  start (connect P config ⟨1⟩ (SeqNumber.new 0) 0 Recorded.salt (Recorded.pad (Recorded.sek 0))) sampleAddress
    (Listener.new listenerConfig ⟨7⟩ (SeqNumber.new 0) 0 0) 0

theorem sample_opened (P : Primitives) (config listenerConfig : Config) :
    Opened P (sample P config listenerConfig) := .intro _ _ _ _ _ _ _ _ _ _ _ _

/-- The induction, the cookie, the conclusion and the response, each delivered at once. -/
def smoothMoves : List (Move × Instant) :=
  [(.listenerHears 0, 0), (.callerHears 0, 0), (.listenerHears 1, 0), (.callerHears 1, 0)]

/-- The meeting they lead to. -/
def smooth (P : Primitives) (config listenerConfig : Config) : Meeting :=
  Runs.run (step P) (sample P config listenerConfig) smoothMoves

/-! ## Agreement -/

theorem idAt_inj {localId : UInt32} {i j : ℕ} (hi : i + 2 < 4294967296) (hj : j + 2 < 4294967296)
    (h : Listener.idAt localId i = Listener.idAt localId j) : i = j := by
  have hcounter := congrArg SocketId.value h
  rw [Listener.idAt, Listener.idAt, UInt32.xor_right_inj] at hcounter
  have hnat := congrArg UInt32.toNat hcounter
  have hi' := Listener.counterAt_le localId.toNat (i + 1)
  have hj' := Listener.counterAt_le localId.toNat (j + 1)
  rw [UInt32.toNat_ofNat', UInt32.toNat_ofNat', Nat.mod_eq_of_lt (by omega), Nat.mod_eq_of_lt (by omega)] at hnat
  by_contra hne
  rcases Nat.lt_or_gt_of_ne hne with hlt | hlt
  · have := Listener.counterAt_lt localId.toNat (Nat.add_lt_add_right hlt 1)
    omega
  · have := Listener.counterAt_lt localId.toNat (Nat.add_lt_add_right hlt 1)
    omega

/-- The connections produced have distinct ids. -/
theorem Met.nodup (h : Met P c₀ l₀ sound m) (hr : ¬ Refused P c₀ l₀) (hn : m.produced.length < 4294967294) :
    (m.produced.map (·.localSocketId)).Nodup := by
  rw [((h.minted.resolve_left hr) (by omega)).2]
  refine List.Nodup.map_on ?_ List.nodup_range
  intro i hi j hj he
  rw [List.mem_range] at hi hj
  exact idAt_inj (by omega) (by omega) he

theorem filter_eq_singleton {α β : Type} [DecidableEq β] {f : α → β} {xs : List α} (hn : (xs.map f).Nodup)
    {a : α} (ha : a ∈ xs) : xs.filter (f · = f a) = [a] := by
  induction xs with
  | nil => simp at ha
  | cons x xs ih =>
    obtain ⟨hx, hxs⟩ := List.nodup_cons.mp hn
    rcases List.mem_cons.mp ha with rfl | ha
    · have hrest : xs.filter (f · = f a) = [] := by
        rw [List.filter_eq_nil_iff]
        intro y hy he
        exact hx (of_decide_eq_true he ▸ List.mem_map_of_mem hy)
      rw [List.filter_cons_of_pos (by simp), hrest]
    · have hne : f x ≠ f a := fun he => hx (he ▸ List.mem_map_of_mem ha)
      rw [List.filter_cons_of_neg (by simpa using hne), ih hxs ha]

/-- Whoever the caller is connected to, the listener has produced it, once and for this caller;
the two expect each other's first packet and hold the same keys. -/
theorem connected_agreement (hP : P.UnwrapsWrapped) (hP' : P.BindsPassphrase) {m₀ : Meeting} (h₀ : Opened P m₀)
    (moves : List (Move × Instant))
    (hmoves : Runs.Meets (step P) (fun m x => m.Legal x ∧ x.1.Sound) m₀ moves)
    (hcount : (Runs.run (step P) m₀ moves).produced.length < 4294967294)
    (hconn : (Runs.run (step P) m₀ moves).caller.conn.link.state = .connected) :
    ∃ c a, (Runs.run (step P) m₀ moves).established = some c
      ∧ c.link.peerSocketId = (Runs.run (step P) m₀ moves).caller.conn.link.peerSocketId
      ∧ (Runs.run (step P) m₀ moves).produced.filter (·.localSocketId = c.link.peerSocketId) = [a]
      ∧ a.link.peerSocketId = c.localSocketId
      ∧ c.rx.recvBuffer.base = a.tx.nextSendSeq ∧ a.rx.recvBuffer.base = c.tx.nextSendSeq
      ∧ a.keys.crypto = c.keys.crypto := by
  obtain ⟨c₀, l₀, -, -, hdraws, hmet⟩ := h₀.met
  have h := run_met (hmet True) hdraws (hmoves.mono fun m x hx => ⟨hx.1, fun _ => hx.2⟩)
  generalize Runs.run (step P) m₀ moves = m at h hcount hconn ⊢
  obtain ⟨c, hc, hpeer⟩ := h.connected hconn
  obtain ⟨-, hs, hj, hfrom⟩ := h.established c hc
  obtain ⟨a, ha, hr⟩ := hfrom.resolve_right fun hf => hf.1 trivial
  obtain ⟨id, hs', now, -, hi, hacc⟩ := h.produced a ha
  obtain ⟨haccepts, -⟩ := accept_spec hacc
  obtain ⟨km, hkm, hkeys⟩ := haccepts.crypto
  have hnot : ¬ Refused P c₀ l₀ := by
    rintro ⟨e, he⟩
    rw [acceptCrypto_introduces hi] at hkm
    simp [he] at hkm
  have hid : c.link.peerSocketId = a.localSocketId := hj.peerSocketId.trans hr.srtSocketId
  refine ⟨c, a, hc, hpeer, ?_, ?_, ?_, ?_, ?_⟩
  · rw [hid]
    exact filter_eq_singleton (f := fun a : Connection => a.localSocketId) (h.nodup hnot hcount) ha
  · rw [haccepts.peerSocketId, hi.srtSocketId]
    exact (congrArg (·.2.1) hj.ident).symm
  · rw [hj.base, hr.initialSeq, haccepts.initialSeq, haccepts.nextSendSeq]
  · rw [haccepts.base, hi.initialSeq, hj.nextSendSeq]
  · rw [hkeys, hj.keys]
    exact hdraws.shared hP hP' hi hkm

/-- Two ends with AES-CTR under one passphrase. -/
theorem agreement_sealed :
    ∃ c a, (smooth Recorded.primitives (Session.sealedConfig .ctr) (Session.sealedConfig .ctr)).established
        = some c
      ∧ c.link.peerSocketId = (smooth Recorded.primitives (Session.sealedConfig .ctr)
          (Session.sealedConfig .ctr)).caller.conn.link.peerSocketId
      ∧ (smooth Recorded.primitives (Session.sealedConfig .ctr) (Session.sealedConfig .ctr)).produced.filter
          (·.localSocketId = c.link.peerSocketId) = [a]
      ∧ a.link.peerSocketId = c.localSocketId
      ∧ c.rx.recvBuffer.base = a.tx.nextSendSeq ∧ a.rx.recvBuffer.base = c.tx.nextSendSeq
      ∧ a.keys.crypto = c.keys.crypto := by
  unfold smooth
  exact connected_agreement Recorded.unwrapsWrapped Recorded.bindsPassphrase (sample_opened _ _ _) smoothMoves
    (by decide +kernel) (by decide +kernel) (by decide +kernel)

/-- The moves of a listener that defers, and then rejects with a code of the application's own. -/
def rejectMoves : List (Move × Instant) :=
  [(.deferAccepts, 0), (.listenerHears 0, 0), (.callerHears 0, 0), (.listenerHears 1, 0),
    (.rejectPending sampleAddress (.other 4294966295), 0), (.callerHears 1, 0)]

/-- The caller takes such a rejection for an acceptance: it is connected to the listener, which
has produced nothing. -/
theorem connected_by_rejection :
    Opened Primitives.absent (sample Primitives.absent Config.default Config.default) ∧
      Runs.Meets (step Primitives.absent) Legal (sample Primitives.absent Config.default Config.default)
        rejectMoves ∧
      ∃ m, m = Runs.run (step Primitives.absent) (sample Primitives.absent Config.default Config.default)
          rejectMoves ∧
        m.caller.conn.link.state = .connected ∧ m.caller.conn.link.peerSocketId = ⟨7⟩
          ∧ m.produced.length = 0 :=
  ⟨sample_opened _ _ _, by decide +kernel, _, rfl, by decide +kernel, by decide +kernel, by decide +kernel⟩

/-- The two ends of a completed handshake hold one latency, no less than either of theirs, exactly
when their latencies are the same or the greater one survives the trip. -/
theorem latency_agreement_iff {m₀ : Meeting} (h₀ : Opened P m₀) (moves : List (Move × Instant))
    (hmoves : Runs.Meets (step P) Legal m₀ moves) {c a : Connection}
    (hc : (Runs.run (step P) m₀ moves).established = some c)
    (ha : a ∈ (Runs.run (step P) m₀ moves).produced) (hid : a.localSocketId = c.link.peerSocketId) :
    (c.link.latency = a.link.latency ∧ m₀.caller.conn.config.latency ≤ c.link.latency
        ∧ m₀.listener.config.latency ≤ c.link.latency)
      ↔ m₀.caller.conn.config.latency = m₀.listener.config.latency
        ∨ WholeMillis (max m₀.caller.conn.config.latency m₀.listener.config.latency) := by
  obtain ⟨c₀, l₀, hident, hconfig, hdraws, hmet⟩ := h₀.met
  have h := run_met (hmet False) hdraws (hmoves.mono fun m x hx => ⟨hx, False.elim⟩)
  rw [config_of_ident hident, hconfig]
  have hproduced : ∀ b ∈ (Runs.run (step P) m₀ moves).produced,
      b.localSocketId ≠ l₀.localSocketId ∧ b.link.latency = max l₀.config.latency (wireLatency c₀.config.latency) := by
    intro b hb
    obtain ⟨id, hs, now, hne, hi, hacc⟩ := h.produced b hb
    obtain ⟨haccepts, -⟩ := accept_spec hacc
    exact ⟨haccepts.localSocketId ▸ hne, by rw [haccepts.latency, hi.latency]; rfl⟩
  obtain ⟨-, hs, hj, hfrom⟩ := h.established c hc
  have hcaller : c.link.latency = max c₀.config.latency (wireLatency a.link.latency) := by
    rcases hfrom with ⟨b, hb, hr⟩ | ⟨-, hown⟩
    · rw [hj.latency, hr.latency, (hproduced a ha).2, (hproduced b hb).2]
      rfl
    · exact absurd (hid.trans (hj.peerSocketId.trans hown)) (hproduced a ha).1
  have hacceptor := (hproduced a ha).2
  rw [hcaller, hacceptor, ← negotiated_eq_iff]
  constructor
  · exact And.left
  · intro he
    exact ⟨he, le_max_left _ _, (le_max_left _ _).trans he.ge⟩

/-- A configuration that asks for a latency of so many milliseconds. -/
def delayed (ms : ℕ) : Config := { Config.default with latency := ms * 1000000 }

/-- A caller that asks for 20 ms and a listener that asks for 80 ms agree on 80 ms. -/
theorem latency_agreement_20_80 :
    ∃ c a, (smooth Primitives.absent (delayed 20) (delayed 80)).established = some c
      ∧ a ∈ (smooth Primitives.absent (delayed 20) (delayed 80)).produced
      ∧ c.link.latency = a.link.latency ∧ (delayed 20).latency ≤ c.link.latency
      ∧ (delayed 80).latency ≤ c.link.latency := by
  have hc : (smooth Primitives.absent (delayed 20) (delayed 80)).established.isSome := by decide +kernel
  have ha : 0 < (smooth Primitives.absent (delayed 20) (delayed 80)).produced.length := by decide +kernel
  have hid : ((smooth Primitives.absent (delayed 20) (delayed 80)).produced.get ⟨0, ha⟩).localSocketId
      = ((smooth Primitives.absent (delayed 20) (delayed 80)).established.get hc).link.peerSocketId := by
    decide +kernel +revert
  have hsome := (Option.some_get hc).symm
  have hmem := List.get_mem (smooth Primitives.absent (delayed 20) (delayed 80)).produced ⟨0, ha⟩
  exact ⟨_, _, hsome, hmem, (latency_agreement_iff (sample_opened Primitives.absent (delayed 20) (delayed 80))
    smoothMoves (by decide +kernel) hsome hmem hid).mpr (.inr ⟨by decide +kernel, by decide +kernel⟩)⟩

/-- A caller that asks for 20.5 ms and a listener that asks for 20 ms. -/
theorem latency_disagreement :
    ({ Config.default with latency := 20500000 } : Config).validate = .ok () ∧
      ({ Config.default with latency := 20000000 } : Config).validate = .ok () ∧
      Opened Primitives.absent (sample Primitives.absent { Config.default with latency := 20500000 }
        { Config.default with latency := 20000000 }) ∧
      Runs.Meets (step Primitives.absent) Legal (sample Primitives.absent
        { Config.default with latency := 20500000 } { Config.default with latency := 20000000 }) smoothMoves ∧
      (smooth Primitives.absent { Config.default with latency := 20500000 }
        { Config.default with latency := 20000000 }).established.map (fun c => (c.link.peerSocketId, c.link.latency))
        = some (⟨6⟩, 20500000) ∧
      (smooth Primitives.absent { Config.default with latency := 20500000 }
        { Config.default with latency := 20000000 }).produced.map (fun a => (a.localSocketId, a.link.latency))
        = [(⟨6⟩, 20000000)] :=
  ⟨by rfl, by rfl, sample_opened _ _ _, by decide +kernel, by decide +kernel, by decide +kernel⟩

end Meeting

end Srtrust
