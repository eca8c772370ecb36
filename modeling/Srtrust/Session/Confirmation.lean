import Srtrust.Session.Authenticity
import Srtrust.Session.Hosting
import Srtrust.Session.Requests

/-! # Confirmed keys

An acceptor that takes a caller's key material returns it in its conclusion response. The caller does
not look for it: what an encrypted caller knows of its peer's key depends on who wrote the response. -/
namespace Srtrust
open BigEndian
set_option autoImplicit false

/-- The key material a response confirms, the content of its first KMRSP extension. -/
def confirmed (hs : Handshake) : Option Bytes :=
  hs.extensions.findSome? fun ext =>
    match ext with
    | .raw extType content => if extType = extKmrsp then some content else none
    | _ => none

namespace Connection
variable {P : Primitives} {config : Config} {localSocketId : SocketId} {hs hs' : Handshake} {now : Instant}
  {a c₀ : Connection}

/-- An acceptor returns the key material it was sent. -/
theorem accept_confirms (h : accept P config localSocketId hs now = .ok a) (hi : Introduces c₀ hs)
    (hd : c₀.Draws P) {d : Bytes} (hsent : .sendDatagram d ∈ a.outputs) (hc : Concludes d hs') :
    confirmed hs' = findKmreq hs.extensions := by
  obtain ⟨exts, rfl, hlike⟩ := accept_like h hi hd (.inl hsent) hc
  refine (findSome?_like (fun _ _ => rfl) hlike).trans ?_
  unfold acceptResponse
  cases findKmreq hs.extensions <;> rfl

/-- A caller with encryption that was made at all has key material. -/
theorem connect_keyMaterial {initialSeq : SeqNumber} {salt : Block 16} {sek : (n : ℕ) → Block n}
    (henc : config.encryption ≠ none)
    (hmade : .panicked ∉ (connect P config localSocketId initialSeq now salt sek).trace) :
    (connect P config localSocketId initialSeq now salt sek).keys.keyMaterial ≠ none := by
  unfold connect at hmade ⊢
  dsimp only at hmade ⊢
  split at hmade
  · next h => exact absurd h henc
  · split at hmade
    · simp [panicked, record] at hmade
    · rw [sendInduction_keys]
      simp

end Connection

/-- The datagram is the response of a connection that `accept` made from a conclusion the session has
sent. -/
def Session.Answered (P : Primitives) (s : Session) (datagram : Bytes) : Prop :=
  ∃ sent ∈ s.emitted, ∃ request, Concludes sent request ∧
    ∃ config localSocketId now a, Connection.accept P config localSocketId request now = .ok a ∧
      .sendDatagram datagram ∈ a.outputs

/-- While every conclusion response it is handed comes from an acceptor of one of its conclusions, a
caller with encryption gets connected only on a response that returns its key material. -/
theorem connected_on_confirmation (P : Primitives) (config : Config) (henc : config.encryption ≠ none)
    (localSocketId : SocketId) (initialSeq : SeqNumber) (salt : Block 16) (sek : (n : ℕ) → Block n)
    (start : Instant)
    (hmade : .panicked ∉ (Connection.connect P config localSocketId initialSeq start salt sek).trace)
    (inputs : List (Call × Instant)) (input : Call × Instant) (before after : Session)
    (hbefore : before = Runs.run (Session.step P) (Session.start
      (Connection.connect P config localSocketId initialSeq start salt sek) start) inputs)
    (hafter : after = before.step P input)
    (hanswered : ∀ datagram hs, input.1 = .feedRecvBuf datagram → Concludes datagram hs →
      before.Answered P datagram)
    (hnot : before.conn.link.state ≠ .connected) (hconnected : after.conn.link.state = .connected) :
    ∃ datagram hs km, input.1 = .feedRecvBuf datagram ∧ Concludes datagram hs ∧ confirmed hs = some km ∧
      findKmreq (Connection.connect P config localSocketId initialSeq start salt sek).conclusion.extensions
        = some km := by
  have hcalls := Connection.connect_calls P config localSocketId initialSeq start salt sek
  have hkm := Connection.connect_keyMaterial henc hmade
  generalize Connection.connect P config localSocketId initialSeq start salt sek = c₀ at hbefore hcalls hkm ⊢
  have hcalling : Calling c₀ before := hbefore ▸ hcalls.run_calling start inputs
  obtain ⟨datagram, hs, hcall, hconcludes, -⟩ := hcalling.connects hnot (hafter ▸ hconnected)
  obtain ⟨sent, hsent, request, hrequest, config', id, now, a, haccept, hout⟩ :=
    hanswered datagram hs hcall hconcludes
  have hintroduces : Introduces c₀ request := hcalling.tells.said sent (.inl hsent) request hrequest
  obtain ⟨km, hkm⟩ := Option.ne_none_iff_exists'.mp hkm
  have hown : findKmreq c₀.conclusion.extensions = some km := hcalls.draws.kmreq.trans hkm
  have hconfirms := Connection.accept_confirms haccept hintroduces hcalls.draws hout hconcludes
  exact ⟨datagram, hs, km, hcall, hconcludes, hconfirms.trans (hintroduces.kmreq.trans hown), hown⟩

/-- The conclusion a datagram decodes to. -/
def conclusionIn (datagram : Bytes) : Option Handshake :=
  match Packet.decode datagram with
  | .ok (.control { body := .handshake hs, .. }) => if hs.handshakeType = .conclusion then some hs else none
  | _ => none

theorem concludes_of_conclusionIn {datagram : Bytes} {hs : Handshake} (h : conclusionIn datagram = some hs) :
    Concludes datagram hs := by
  unfold conclusionIn at h
  split at h
  · next hdecode =>
    split_ifs at h with htype
    exact ⟨_, hdecode, congrArg _ (Option.some.inj h), Option.some.inj h ▸ htype⟩
  · simp at h

/-- The sample caller with encryption, when it has sent its conclusion. -/
def sealedCaller : Session := frontConclusion Recorded.primitives (Session.sealedConfig .ctr)

/-- What an acceptor with the same passphrase answers. -/
def sealedAnswer : Bytes :=
  match Connection.accept Recorded.primitives (Session.sealedConfig .ctr) ⟨6⟩ sealedCaller.conn.conclusion 0 with
  | .ok a => (Session.datagrams a.outputs).flatten
  | .error _ => []

theorem sealedAnswer_answered : sealedCaller.Answered Recorded.primitives sealedAnswer := by
  have hsent : ∃ sent ∈ sealedCaller.emitted, conclusionIn sent = some sealedCaller.conn.conclusion := by
    decide +kernel
  have hanswer : (match Connection.accept Recorded.primitives (Session.sealedConfig .ctr) ⟨6⟩
      sealedCaller.conn.conclusion 0 with
    | .ok a => decide (.sendDatagram sealedAnswer ∈ a.outputs)
    | .error _ => false) = true := by decide +kernel
  obtain ⟨sent, hmem, hconcludes⟩ := hsent
  refine ⟨sent, hmem, _, concludes_of_conclusionIn hconcludes, Session.sealedConfig .ctr, ⟨6⟩, 0, ?_⟩
  generalize Connection.accept Recorded.primitives (Session.sealedConfig .ctr) ⟨6⟩
    sealedCaller.conn.conclusion 0 = result at hanswer ⊢
  cases result with
  | error e => simp at hanswer
  | ok a => exact ⟨a, rfl, of_decide_eq_true hanswer⟩

/-- A handshake under one passphrase. -/
theorem connected_on_confirmation_sealed :
    ∃ datagram hs km, Call.feedRecvBuf sealedAnswer = .feedRecvBuf datagram ∧ Concludes datagram hs ∧
      confirmed hs = some km ∧ findKmreq (Connection.connect Recorded.primitives (Session.sealedConfig .ctr) ⟨1⟩
        (SeqNumber.new 0) 0 Recorded.salt (Recorded.pad (Recorded.sek 0))).conclusion.extensions = some km := by
  refine connected_on_confirmation Recorded.primitives (Session.sealedConfig .ctr) (by decide) ⟨1⟩
    (SeqNumber.new 0) Recorded.salt (Recorded.pad (Recorded.sek 0)) 0 (by decide +kernel)
    [(.feedRecvBuf frontReply, 0)] (.feedRecvBuf sealedAnswer, 0) sealedCaller _ rfl rfl ?_
    (by decide +kernel) (by decide +kernel)
  intro datagram hs hcall _
  rw [← Call.feedRecvBuf.inj hcall]
  exact sealedAnswer_answered

/-- The answer of a peer that ignores encryption. -/
def bareAnswer : Bytes :=
  (encodeControl ⟨1⟩ ⟨0⟩ (.handshake
    (Connection.acceptResponse Config.default ⟨6⟩ sealedCaller.conn.conclusion none))).getD []

/-- It confirms nothing, and connects the caller all the same. -/
theorem connected_unconfirmed :
    (Session.sealedConfig .ctr).validate = .ok () ∧ sealedCaller.conn.link.state = .conclusion ∧
      (conclusionIn bareAnswer).map confirmed = some none ∧
      (sealedCaller.step Recorded.primitives (.feedRecvBuf bareAnswer, 0)).conn.link.state = .connected :=
  ⟨by decide +kernel, by decide +kernel, by decide +kernel, by decide +kernel⟩

end Srtrust
