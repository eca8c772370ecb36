import Srtrust.Session.Agreement
import Srtrust.Session.Confirmation

/-! # A connected pair

A caller and the acceptor made from one of its conclusions, each under its embedder and with its own
clock. The network keeps every datagram either end has sent, and a delivery picks any of those: datagrams
may be lost, delayed, repeated and reordered, but none is made up. -/
namespace Srtrust
open BigEndian
set_option autoImplicit false

def Side.other : Side → Side
  | .caller => .acceptor
  | .acceptor => .caller

@[simp] theorem Side.other_other (side : Side) : side.other.other = side := by
  cases side <;> rfl

structure Pair where
  caller : Session
  acceptor : Session

namespace Pair

/-- The session of one end. -/
def party (p : Pair) : Side → Session
  | .caller => p.caller
  | .acceptor => p.acceptor

def setParty (p : Pair) (side : Side) (s : Session) : Pair :=
  match side with
  | .caller => { p with caller := s }
  | .acceptor => { p with acceptor := s }

/-- What can happen next: an embedder's call, or a delivery, which names the datagram by its place among
those the other end has sent. -/
inductive Move
  | call (side : Side) (call : Call)
  | hear (side : Side) (i : ℕ)
deriving DecidableEq, Repr

def step (P : Primitives) (p : Pair) (x : Move × Instant) : Pair :=
  match x.1 with
  | .call side call => p.setParty side ((p.party side).step P (call, x.2))
  | .hear side i =>
    match (p.party side.other).emitted[i]? with
    | some d => p.setParty side ((p.party side).step P (.feedRecvBuf d, x.2))
    | none => p

/-- Datagrams come from the network only. -/
def Honest (_ : Pair) (x : Move × Instant) : Prop :=
  match x.1 with
  | .call _ call => call.IsLocal
  | .hear _ _ => True

instance (p : Pair) (x : Move × Instant) : Decidable (p.Honest x) := by
  rcases x with ⟨_ | _, now⟩
  · exact inferInstanceAs (Decidable (Call.IsLocal _))
  · exact inferInstanceAs (Decidable True)

/-- Pairs at their start: the caller waits for the answer to a conclusion, and the acceptor has just been
made from a conclusion it sent. -/
inductive Opened (P : Primitives) : Pair → Prop
  | intro (config : Config) (localSocketId : SocketId) (initialSeq : SeqNumber) (opened : Instant)
      (salt : Block 16) (sek : (n : ℕ) → Block n) (inputs : List (Call × Instant)) (caller : Session)
      (hcaller : caller = Runs.run (Session.step P)
        (.start (Connection.connect P config localSocketId initialSeq opened salt sek) opened) inputs)
      (hwaits : caller.conn.link.state = .conclusion)
      (d : Bytes) (hs : Handshake) (hsent : d ∈ caller.emitted) (hconcludes : Concludes d hs)
      (acceptorConfig : Config) (acceptorId : SocketId) (now : Instant) (a : Connection)
      (haccept : Connection.accept P acceptorConfig acceptorId hs now = .ok a) :
      Opened P ⟨caller, .start a now⟩

section Parties

variable (p : Pair) (side : Side) (s : Session)

@[simp] theorem party_setParty : (p.setParty side s).party side = s := by
  cases side <;> rfl

@[simp] theorem party_setParty_other : (p.setParty side s).party side.other = p.party side.other := by
  cases side <;> rfl

end Parties

theorem Side.eq_or_eq_other (side x : Side) : x = side ∨ x = side.other := by
  cases side <;> cases x <;> simp [Side.other]

variable {P : Primitives} {p : Pair} {x : Move × Instant}

/-- Every step is a call on one end; a datagram it brings was sent by the other. -/
theorem step_cases (hx : p.Honest x) :
    p.step P x = p ∨ ∃ side call, p.step P x = p.setParty side ((p.party side).step P (call, x.2))
      ∧ ∀ d, call = .feedRecvBuf d → d ∈ (p.party side.other).emitted := by
  obtain ⟨move, now⟩ := x
  cases move with
  | call side call =>
    refine .inr ⟨side, call, rfl, ?_⟩
    rintro d rfl
    exact hx.elim
  | hear side i =>
    unfold step
    dsimp only
    split
    · next d hd =>
      refine .inr ⟨side, _, rfl, ?_⟩
      intro _ he
      cases he
      exact List.mem_of_getElem? hd
    · exact .inl rfl

/-! ## What holds throughout -/

end Pair

/-- A session some calls lead to. -/
def Session.Reached (P : Primitives) (s : Session) : Prop :=
  ∃ s₀ inputs, Session.Started P s₀ ∧ s = Runs.run (Session.step P) s₀ inputs

theorem Session.Reached.step {P : Primitives} {s : Session} (h : s.Reached P) (input : Call × Instant) :
    (s.step P input).Reached P := by
  obtain ⟨s₀, inputs, h₀, rfl⟩ := h
  refine ⟨s₀, inputs ++ [input], h₀, ?_⟩
  rw [Runs.run_append]
  rfl

namespace Pair
open Connection

/-- A pair whose caller began as `c₀` and whose acceptor began as `a₀`. -/
structure Kept (P : Primitives) (c₀ a₀ : Connection) (p : Pair) : Prop where
  reached : ∀ side, (p.party side).Reached P
  caller : Calling c₀ p.caller
  ident : p.acceptor.conn.ident = a₀.ident
  established : p.acceptor.conn.Established
  tells : p.acceptor.Tells (Responds a₀)

/-- How a pair begins: the acceptor was made from an introduction of the caller. -/
structure Matched (P : Primitives) (c₀ a₀ : Connection) : Prop where
  draws : c₀.Draws P
  fresh : c₀.Fresh
  accepted : ∃ config id hs now, Introduces c₀ hs ∧ accept P config id hs now = .ok a₀

theorem accept_ident {P : Primitives} {config : Config} {id : SocketId} {hs : Handshake} {now : Instant}
    {a : Connection} (h : accept P config id hs now = .ok a) :
    a.ident = (config, id, hs.initialSeq, now, .acceptor) := by
  unfold accept at h
  split at h
  · cases h
  · dsimp only at h
    split at h <;>
      (obtain rfl := Except.ok.inj h; simp only [enterConnected, event, output]; rfl)

variable {P : Primitives} {c₀ a₀ : Connection} {p : Pair}

theorem Matched.initialSeq (h : Matched P c₀ a₀) : a₀.initialSeq = c₀.initialSeq := by
  obtain ⟨config, id, hs, now, hi, ha⟩ := h.accepted
  exact (accept_spec ha).1.initialSeq.trans hi.initialSeq

/-- A pair at its start: the caller has made some calls since it was `c₀`, and the acceptor is `a₀`. -/
structure Begins (P : Primitives) (c₀ a₀ : Connection) (p : Pair) : Prop where
  matched : Matched P c₀ a₀
  kept : Kept P c₀ a₀ p
  waits : p.caller.conn.link.state = .conclusion
  caller : ∃ opened inputs, Session.Started P (.start c₀ opened)
    ∧ p.caller = Runs.run (Session.step P) (.start c₀ opened) inputs
  acceptor : ∃ now, Session.Started P (.start a₀ now) ∧ p.acceptor = .start a₀ now

theorem Opened.begins (h : Opened P p) : ∃ c₀ a₀, Begins P c₀ a₀ p := by
  obtain ⟨config, localSocketId, initialSeq, opened, salt, sek, inputs, caller, hcaller, hwaits, d, hs, hsent,
    hconcludes, acceptorConfig, acceptorId, now, a, haccept⟩ := h
  have hcalls := connect_calls P config localSocketId initialSeq opened salt sek
  have hfresh := connect_fresh P config localSocketId initialSeq opened salt sek
  have hstarted : Session.Started P (.start (connect P config localSocketId initialSeq opened salt sek) opened) :=
    .caller config localSocketId initialSeq opened salt sek
  generalize connect P config localSocketId initialSeq opened salt sek = c₀ at hcaller hcalls hfresh hstarted
  have hcalling := hcalls.run_calling opened inputs
  rw [← hcaller] at hcalling
  have hintroduces := hcalling.tells.said d (.inl hsent) hs hconcludes
  have haccepts := (accept_spec haccept).1
  refine ⟨c₀, a, ⟨hcalls.draws, hfresh, acceptorConfig, acceptorId, hs, now, hintroduces, haccept⟩,
    ⟨?_, hcalling, rfl, .inl haccepts.state, ⟨rfl, ?_⟩⟩, hwaits, ⟨opened, inputs, hstarted, hcaller⟩, now,
    .acceptor acceptorConfig acceptorId hs now a haccept, rfl⟩
  · intro side
    cases side with
    | caller => exact ⟨_, inputs, hstarted, hcaller⟩
    | acceptor => exact ⟨_, [], .acceptor acceptorConfig acceptorId hs now a haccept, rfl⟩
  · intro d hd hs' hc
    refine accept_responds haccept hintroduces hcalls.draws ?_ hc
    rcases hd with hd | hd
    · exact .inl (Session.mem_datagrams.mp (by simpa [Session.start, Session.settle] using hd))
    · exact .inr hd

theorem Kept.step (h : Kept P c₀ a₀ p) (hm : Matched P c₀ a₀) {x : Move × Instant} (hx : p.Honest x) :
    Kept P c₀ a₀ (p.step P x) := by
  rcases step_cases hx with he | ⟨side, call, he, -⟩
  · rw [he]
    exact h
  · rw [he]
    have hreached : ∀ side', ((p.setParty side ((p.party side).step P (call, x.2))).party side').Reached P := by
      intro side'
      rcases Side.eq_or_eq_other side side' with rfl | rfl
      · rw [party_setParty]
        exact (h.reached side').step _
      · rw [party_setParty_other]
        exact h.reached _
    cases side with
    | caller => exact ⟨hreached, h.caller.step hm.draws.wordAligned, h.ident, h.established, h.tells⟩
    | acceptor =>
      have hspeaks := perform_speaks P call x.2 h.established
      exact ⟨hreached, h.caller, hspeaks.ident.trans h.ident, hspeaks.established h.established,
        h.tells.step_speaks hspeaks⟩

/-! ## A sample pair -/

/-- The sample caller that waits for its answer, and the acceptor its conclusion makes. -/
def sampleOf (P : Primitives) (config acceptorConfig : Config) : Pair where
  caller := frontConclusion P config
  acceptor := Session.accepting P acceptorConfig (frontConclusion P config).conn.conclusion

theorem sampleOf_opened {P : Primitives} {config acceptorConfig : Config}
    (hstate : (frontConclusion P config).conn.link.state = .conclusion)
    (hsent : ∃ d ∈ (frontConclusion P config).emitted, conclusionIn d = some (frontConclusion P config).conn.conclusion)
    (haccept : (accept P acceptorConfig ⟨2⟩ (frontConclusion P config).conn.conclusion 0).toOption.isSome) :
    Opened P (sampleOf P config acceptorConfig) := by
  obtain ⟨d, hd, hconclusion⟩ := hsent
  cases hc : accept P acceptorConfig ⟨2⟩ (frontConclusion P config).conn.conclusion 0 with
  | error e =>
    rw [hc] at haccept
    cases haccept
  | ok a =>
    have hopened := Opened.intro (P := P) config ⟨1⟩ (SeqNumber.new 0) 0 Recorded.salt
      (Recorded.pad (Recorded.sek 0)) [(.feedRecvBuf frontReply, 0)] (frontConclusion P config) rfl hstate d _ hd
      (concludes_of_conclusionIn hconclusion) acceptorConfig ⟨2⟩ 0 a hc
    have hsame : Session.accepting P acceptorConfig (frontConclusion P config).conn.conclusion = .start a 0 := by
      rw [Session.accepting, hc]
      rfl
    rw [sampleOf, hsame]
    exact hopened

end Pair

end Srtrust
