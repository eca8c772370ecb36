import Srtrust.Driver.Conduit
import Srtrust.Session.Conveyance

/-! # From application to application

Two hosts, each with its driver's loop and its application, over a network that may lose, delay, repeat and
reorder datagrams but makes none up. A run of the two loops is a run of a connected pair, so the guarantees of
the pair reach the applications. -/
namespace Srtrust
open BigEndian
set_option autoImplicit false

/-! ## Calls of one end of a pair -/

namespace Pair

variable {P : Primitives}

/-- Calls one end makes, with datagrams of the other, are moves of the pair. -/
theorem exists_moves (inputs : List (Call × Instant)) (p : Pair) (side : Side)
    (h : ∀ d t, (.feedRecvBuf d, t) ∈ inputs → d ∈ (p.party side.other).emitted) :
    ∃ moves, Runs.Meets (step P) Honest p moves ∧
      Runs.run (step P) p moves = p.setParty side (Runs.run (Session.step P) (p.party side) inputs) := by
  induction inputs generalizing p with
  | nil =>
    refine ⟨[], trivial, ?_⟩
    cases side <;> rfl
  | cons input rest ih =>
    have hmove : ∃ move, p.Honest (move, input.2) ∧
        p.step P (move, input.2) = p.setParty side ((p.party side).step P input) := by
      obtain ⟨call, now⟩ := input
      have hkind : call.IsLocal ∨ ∃ d, call = .feedRecvBuf d := by
        cases call with
        | feedRecvBuf d => exact .inr ⟨d, rfl⟩
        | _ => exact .inl trivial
      rcases hkind with hlocal | ⟨d, rfl⟩
      · exact ⟨.call side call, hlocal, rfl⟩
      · obtain ⟨i, hi⟩ := List.mem_iff_getElem?.mp (h d now List.mem_cons_self)
        refine ⟨.hear side i, trivial, ?_⟩
        simp only [step, hi]
    obtain ⟨move, hhonest, hstep⟩ := hmove
    have hrest : ∀ d t, (.feedRecvBuf d, t) ∈ rest →
        d ∈ ((p.setParty side ((p.party side).step P input)).party side.other).emitted := by
      intro d t hd
      rw [party_setParty_other]
      exact h d t (List.mem_cons_of_mem input hd)
    obtain ⟨moves, hmoves, hrun⟩ := ih _ hrest
    refine ⟨(move, input.2) :: moves, ⟨hhonest, by rw [hstep]; exact hmoves⟩, ?_⟩
    rw [Runs.run_cons, hstep, hrun, party_setParty]
    cases side <;> rfl

end Pair

namespace Driver

structure Stack where
  caller : Loop
  acceptor : Loop

namespace Stack

def party (st : Stack) : Side → Loop
  | .caller => st.caller
  | .acceptor => st.acceptor

def setParty (st : Stack) (side : Side) (l : Loop) : Stack :=
  match side with
  | .caller => { st with caller := l }
  | .acceptor => { st with acceptor := l }

/-- A move of one host: of its driver or of its application. -/
def step (P : Primitives) (st : Stack) (x : Side × Loop.Move) : Stack :=
  st.setParty x.1 ((st.party x.1).step P x.2)

/-- Datagrams come from the other host. -/
def Honest (st : Stack) (x : Side × Loop.Move) : Prop :=
  ∀ d, x.2.hears d → d ∈ (st.party x.1.other).transmitted

instance (st : Stack) : (x : Side × Loop.Move) → Decidable (st.Honest x)
  | (side, .select (.received buf len stride _)) =>
    inferInstanceAs (Decidable (∀ d ∈ groSplit buf len stride, d ∈ (st.party side.other).transmitted))
  | (side, .select (.datagram bytes _)) =>
    decidable_of_iff (bytes ∈ (st.party side.other).transmitted) ⟨fun h _ hd => hd ▸ h, fun h => h bytes rfl⟩
  | (_, .select .receiveFailed) => isTrue fun _ hd => hd.elim
  | (_, .select .dropped) => isTrue fun _ hd => hd.elim
  | (_, .select .wake) => isTrue fun _ hd => hd.elim
  | (_, .select .reserve) => isTrue fun _ hd => hd.elim
  | (_, .select (.command _)) => isTrue fun _ hd => hd.elim
  | (_, .iterate _ _ _ _) => isTrue fun _ hd => hd.elim
  | (_, .request _) => isTrue fun _ hd => hd.elim
  | (_, .hangUp) => isTrue fun _ hd => hd.elim
  | (_, .read) => isTrue fun _ hd => hd.elim
  | (_, .dropReader) => isTrue fun _ hd => hd.elim

/-- Stacks at their start: a caller that waits for the answer to a conclusion, and the driver spawned for the
acceptor made from a conclusion it has sent. -/
inductive Opened (P : Primitives) : Stack → Prop
  | intro (config : Config) (localSocketId : SocketId) (initialSeq : SeqNumber) (opened : Instant)
      (salt : Block 16) (sek : (n : ℕ) → Block n) (owned : Bool) (capacity : ℕ) (moves : List Loop.Move) (caller : Loop)
      (hcaller : caller = Runs.run (Loop.step P)
        (.start (Connection.connect P config localSocketId initialSeq opened salt sek) owned true capacity) moves)
      (hwaits : caller.conn.link.state = .conclusion)
      (d : Bytes) (hs : Handshake) (hsent : d ∈ caller.transmitted) (hconcludes : Concludes d hs)
      (acceptorConfig : Config) (acceptorId : SocketId) (now : Instant) (a : Connection)
      (haccept : Connection.accept P acceptorConfig acceptorId hs now = .ok a) (owned' : Bool) (capacity' : ℕ) :
      Opened P ⟨caller, .start a owned' false capacity'⟩

/-- Neither end encrypts or protects its packets. -/
def Plain (st : Stack) : Prop :=
  ∀ side, (st.party side).conn.config.encryption = none ∧ (st.party side).conn.config.fec = none

section Parties

variable (st : Stack) (side : Side) (l : Loop)

@[simp] theorem party_setParty : (st.setParty side l).party side = l := by
  cases side <;> rfl

@[simp] theorem party_setParty_other : (st.setParty side l).party side.other = st.party side.other := by
  cases side <;> rfl

end Parties

/-! ## The pair below -/

/-- Each loop is at the session of its end; a socket may fail. -/
def Follows (P : Primitives) (st : Stack) (p : Pair) : Prop := ∀ side, (st.party side).Follows P False (p.party side)

variable {P : Primitives} {st : Stack} {p : Pair}

theorem transmitted_emitted {l : Loop} {s : Session} (h : l.Follows P False s) {d : Bytes} (hd : d ∈ l.transmitted) :
    d ∈ s.emitted := by
  obtain ⟨lost, hemitted, -⟩ := h.wire
  rw [hemitted, List.append_assoc]
  exact List.mem_append_left _ hd

/-- A move of one host is some moves of the pair. -/
theorem Follows.step (h : st.Follows P p) {x : Side × Loop.Move} (hx : st.Honest x) :
    ∃ moves, Runs.Meets (Pair.step P) Pair.Honest p moves
      ∧ (st.step P x).Follows P (Runs.run (Pair.step P) p moves) := by
  obtain ⟨side, move⟩ := x
  obtain ⟨inputs, hfollows, hheard⟩ := (h side).step move False.elim
  have hsent : ∀ d t, (.feedRecvBuf d, t) ∈ inputs → d ∈ (p.party side.other).emitted := by
    intro d t hd
    exact transmitted_emitted (h side.other) (hx d (hheard d t hd))
  obtain ⟨moves, hhonest, hrun⟩ := Pair.exists_moves inputs p side hsent
  refine ⟨moves, hhonest, fun side' => ?_⟩
  rw [hrun]
  change ((st.setParty side ((st.party side).step P move)).party side').Follows P False _
  rcases Pair.Side.eq_or_eq_other side side' with rfl | rfl
  · rw [party_setParty, Pair.party_setParty]
    exact hfollows
  · rw [party_setParty_other, Pair.party_setParty_other]
    exact h side.other

theorem Follows.run (h : st.Follows P p) (moves : List (Side × Loop.Move))
    (hhonest : Runs.Meets (Stack.step P) Honest st moves) :
    ∃ moves', Runs.Meets (Pair.step P) Pair.Honest p moves' ∧
      (Runs.run (Stack.step P) st moves).Follows P (Runs.run (Pair.step P) p moves') := by
  induction moves generalizing st p with
  | nil => exact ⟨[], trivial, h⟩
  | cons x rest ih =>
    obtain ⟨first, hfirst, hstep⟩ := h.step hhonest.1
    obtain ⟨later, hlater, hrun⟩ := ih hstep hhonest.2
    refine ⟨first ++ later, (Runs.meets_append _ _ _).mpr ⟨hfirst, hlater⟩, ?_⟩
    rw [Runs.run_append]
    exact hrun

/-- Nothing is out of order in the channels of either host. -/
def InOrder (st : Stack) : Prop := ∀ side, (st.party side).Submits ∧ (st.party side).Conveys

/-- A stack at its start is over a pair at its start, with nothing lost in its channels. -/
theorem Opened.follows (h : Opened P st) :
    (∃ p, Pair.Opened P p ∧ st.Follows P p) ∧ st.InOrder := by
  obtain ⟨config, localSocketId, initialSeq, opened, salt, sek, owned, capacity, moves, caller, hcaller, hwaits, d, hs,
    hsent, hconcludes, acceptorConfig, acceptorId, now, a, haccept, owned', capacity'⟩ := h
  have hstarted : Session.Started P
      (.start (Connection.connect P config localSocketId initialSeq opened salt sek) opened) :=
    .caller config localSocketId initialSeq opened salt sek
  have haccepted : Session.Started P (.start a now) := .acceptor acceptorConfig acceptorId hs now a haccept
  constructor
  · obtain ⟨inputs, hfollows, -⟩ := (Loop.Follows.start hstarted owned true capacity).run moves False.elim
    rw [← hcaller] at hfollows
    have hstate : (Runs.run (Session.step P)
        (.start (Connection.connect P config localSocketId initialSeq opened salt sek) opened)
        inputs).conn.link.state = .conclusion := by
      rw [← hfollows.embodies.conn]
      exact hwaits
    refine ⟨_, Pair.Opened.intro config localSocketId initialSeq opened salt sek inputs _ rfl hstate d hs
      (transmitted_emitted hfollows hsent) hconcludes acceptorConfig acceptorId now a haccept, fun side => ?_⟩
    cases side with
    | caller => exact hfollows
    | acceptor => exact .start haccepted owned' false capacity'
  · intro side
    cases side with
    | caller =>
      refine ⟨?_, ?_⟩
      · change caller.Submits
        rw [hcaller]
        exact (Loop.submits_keeps P).run moves (Loop.submits_start hstarted (by simp) owned capacity)
      · change caller.Conveys
        rw [hcaller]
        exact (Loop.conveys_keeps P).run moves (List.Sublist.refl _)
    | acceptor =>
      exact ⟨Loop.submits_start haccepted (fun _ => Connection.accept_connected haccept) owned' capacity',
        List.Sublist.refl _⟩

theorem InOrder.step (h : st.InOrder) (x : Side × Loop.Move) : (st.step P x).InOrder := by
  obtain ⟨side, move⟩ := x
  intro side'
  change ((st.setParty side ((st.party side).step P move)).party side').Submits
    ∧ ((st.setParty side ((st.party side).step P move)).party side').Conveys
  rcases Pair.Side.eq_or_eq_other side side' with rfl | rfl
  · rw [party_setParty]
    exact ⟨(Loop.submits_keeps P).step move (h _).1, (Loop.conveys_keeps P).step move (h _).2⟩
  · rw [party_setParty_other]
    exact h side.other

/-! ## The applications -/

/-- End-to-end order for the applications: what the application on one side has read or can read is a sublist of
what the application on the other has sent: nothing out of order, nothing twice, no byte changed, whatever the
network, the timers, the segments the sockets take and the pace of the applications. -/
theorem read_in_order {P : Primitives} {st₀ : Stack} (h : Opened P st₀) (hplain : st₀.Plain)
    (moves : List (Side × Loop.Move)) (hhonest : Runs.Meets (step P) Honest st₀ moves) (st : Stack)
    (hst : st = Runs.run (step P) st₀ moves) (side : Side)
    (hfew : (st.party side).conn.originals.length < 2 ^ 30) :
    (st.party side.other).data.put.Sublist (st.party side).sent := by
  obtain ⟨⟨p₀, hopened, hfollows₀⟩, hchannels₀⟩ := h.follows
  obtain ⟨moves', hhonest', hfollows⟩ := hfollows₀.run moves hhonest
  have hchannels : st.InOrder := by
    rw [hst]
    exact Runs.invariant (fun _ x hc _ => hc.step x) hchannels₀ hhonest
  rw [← hst] at hfollows
  obtain ⟨c₀, a₀, hbegins⟩ := hopened.begins
  have hplain' : p₀.Plain := by
    intro side
    rw [← (hfollows₀ side).embodies.conn]
    exact hplain side
  have hsound : (Runs.run (Pair.step P) p₀ moves').Sound P c₀ a₀ :=
    Runs.invariant (fun _ _ hs hx => hs.step hbegins.matched hx) (hbegins.sound hplain') hhonest'
  generalize Runs.run (Pair.step P) p₀ moves' = p at hsound hfollows
  have horiginals : (p.party side).conn.originals = (st.party side).conn.originals := by
    rw [← (hfollows side).embodies.conn]
    rfl
  have hdelivered : (messages (p.party side.other).pushed).Sublist (p.party side).accepted :=
    hsound.delivers (horiginals ▸ hfew)
  -- read or readable, polled, pushed, accepted by the peer's connection, sent by its application
  have hput := (List.sublist_append_left _ _).trans (hchannels side.other).2
  have hpushed : (messages (st.party side.other).polled).Sublist (messages (p.party side.other).pushed) := by
    rw [(hfollows side.other).polled, Session.pushed, messages, messages, List.filterMap_append]
    exact List.sublist_append_left _ _
  have haccepted : ((p.party side).accepted).Sublist (st.party side).sent := by
    rw [← (hfollows side).accepted]
    exact (List.sublist_append_left _ _).trans (hchannels side).1.taken
  exact ((hput.trans hpushed).trans hdelivered).trans haccepted

/-! ## A sample run -/

/-- An iteration with no timer due. -/
def turn (now : Instant) : Loop.Move := .iterate now [] ⟨8, none⟩ Loop.undisturbed

/-- A receive of a single datagram. -/
def single (d : Bytes) (now : Instant) : Loop.Move := .select (.received d d.length d.length now)

/-- The caller's driver after the answer to its induction. -/
def waiting : Loop :=
  Runs.run (Loop.step Primitives.absent)
    (.start (Connection.connect Primitives.absent Config.default ⟨1⟩ (SeqNumber.new 0) 0 Recorded.salt
      (Recorded.pad (Recorded.sek 0))) true true 4)
    [turn 0, single frontReply 0, turn 0]

def answering : Loop :=
  .start ((Connection.accept Primitives.absent Config.default ⟨2⟩ waiting.conn.conclusion 0).toOption.getD
    (Connection.newBase Config.default ⟨2⟩ waiting.conn.conclusion.initialSeq 0 .acceptor .failed)) true false 4

def plainStack : Stack := ⟨waiting, answering⟩

/-- The `i`th datagram the acceptor's host has sent after some moves. -/
def answered (moves : List (Side × Loop.Move)) (i : ℕ) : Bytes :=
  ((Runs.run (step Primitives.absent) plainStack moves).acceptor.transmitted).getD i []

def greeting : List (Side × Loop.Move) :=
  [(.acceptor, turn 0), (.acceptor, .request (.send [1])), (.acceptor, .select (.command 1000)), (.acceptor, turn 1000)]

/-- The acceptor's message comes in twice, is played and read. -/
def hearing : List (Side × Loop.Move) :=
  greeting ++ [(.caller, single (answered greeting 0) 2000), (.caller, turn 2000),
    (.caller, single (answered greeting 1) 3000), (.caller, turn 3000), (.caller, single (answered greeting 1) 4000),
    (.caller, .iterate 1000000000 [.tsbpd] ⟨8, none⟩ Loop.undisturbed), (.caller, .read)]

theorem plainStack_opened : Opened Primitives.absent plainStack := by
  have hstate : waiting.conn.link.state = .conclusion := by decide +kernel
  have hsent : ∃ d ∈ waiting.transmitted, conclusionIn d = some waiting.conn.conclusion := by decide +kernel
  have hsome : (Connection.accept Primitives.absent Config.default ⟨2⟩ waiting.conn.conclusion 0).toOption.isSome := by
    decide +kernel
  obtain ⟨d, hd, hconclusion⟩ := hsent
  cases hc : Connection.accept Primitives.absent Config.default ⟨2⟩ waiting.conn.conclusion 0 with
  | error e =>
    rw [hc] at hsome
    cases hsome
  | ok a =>
    have hopened := Opened.intro (P := Primitives.absent) Config.default ⟨1⟩ (SeqNumber.new 0) 0 Recorded.salt
      (Recorded.pad (Recorded.sek 0)) true 4 [turn 0, single frontReply 0, turn 0] waiting rfl hstate d _ hd
      (concludes_of_conclusionIn hconclusion) Config.default ⟨2⟩ 0 a hc true 4
    have hsame : answering = .start a true false 4 := by
      rw [answering, hc]
      rfl
    rw [plainStack, hsame]
    exact hopened

theorem plainStack_plain : plainStack.Plain := by
  intro side
  cases side <;> decide +kernel

theorem read_in_order_hearing :
    ((Runs.run (step Primitives.absent) plainStack hearing).party (Side.other .acceptor)).data.taken = [[1]] ∧
      ((Runs.run (step Primitives.absent) plainStack hearing).party (Side.other .acceptor)).data.put.Sublist
        ((Runs.run (step Primitives.absent) plainStack hearing).party .acceptor).sent :=
  ⟨by decide +kernel, read_in_order plainStack_opened plainStack_plain hearing (by decide +kernel) _ rfl .acceptor
    (by decide +kernel)⟩

end Stack

end Driver

end Srtrust
