import Srtrust.Connection.Machine
import Srtrust.Library.Runs

/-! # A connection under its embedder

The embedder calls into a connection, drains its outputs after every call, sends the
datagrams and keeps one deadline per timer. A `Session` is a connection with what the
embedder holds: the armed timers, the events it has polled, the payloads `send` accepted
and the datagrams sent. Runs are lists of timed calls. -/
namespace Srtrust
open BigEndian
set_option autoImplicit false

/-- The calls an embedder makes. -/
inductive Call
  | feedRecvBuf (datagram : Bytes)
  | handleTimer (id : TimerId)
  | send (payload : Bytes)
  | close
  | provideRekey (sek : Bytes)
  | pollEvent
deriving DecidableEq, Repr

namespace Connection

/-- One call, before its outputs are drained. A refused `send` changes nothing. -/
def perform (P : Primitives) (c : Connection) (call : Call) (now : Instant) : Connection :=
  match call with
  | .feedRecvBuf datagram => c.feedRecvBuf P datagram now
  | .handleTimer id => c.handleTimer P id now
  | .send payload => (c.send P payload now).toOption.getD c
  | .close => c.close now
  | .provideRekey sek => c.provideRekey P sek now
  | .pollEvent => { c with events := c.events.drop 1 }

/-- The event a call takes off the queue. -/
def polledBy (c : Connection) : Call → List Event
  | .pollEvent => c.events.take 1
  | _ => []

/-- The payload a call hands over, if `send` accepts it. -/
def acceptedBy (P : Primitives) (c : Connection) (call : Call) (now : Instant) : List Bytes :=
  match call with
  | .send payload => if (c.send P payload now).toOption.isSome then [payload] else []
  | _ => []

end Connection

/-- The embedder's timer wheel: one deadline per armed timer. -/
abbrev Wheel := TimerId → Option Instant

namespace Wheel

def idle : Wheel := fun _ => none

def set (w : Wheel) (id : TimerId) (deadline : Option Instant) : Wheel :=
  fun i => if i = id then deadline else w i

/-- One drained output at time `now`. -/
def apply (now : Instant) (w : Wheel) : Output → Wheel
  | .sendDatagram _ => w
  | .setTimer id after => w.set id (some (now + (after : ℤ)))
  | .clearTimer id => w.set id none

def applyAll (now : Instant) (w : Wheel) (outputs : List Output) : Wheel :=
  outputs.foldl (apply now) w

/-- The timers left when a call is made: a fired one is spent. -/
def fired (w : Wheel) : Call → Wheel
  | .handleTimer id => w.set id none
  | _ => w

/-- Whether the wheel allows a call: a timer has to be armed to fire. -/
def MayFire (w : Wheel) : Call → Prop
  | .handleTimer id => (w id).isSome
  | _ => True

instance (w : Wheel) : (call : Call) → Decidable (w.MayFire call)
  | .handleTimer id => inferInstanceAs (Decidable ((w id).isSome = true))
  | .feedRecvBuf _ => inferInstanceAs (Decidable True)
  | .send _ => inferInstanceAs (Decidable True)
  | .close => inferInstanceAs (Decidable True)
  | .provideRekey _ => inferInstanceAs (Decidable True)
  | .pollEvent => inferInstanceAs (Decidable True)

@[simp] theorem set_self (w : Wheel) (id : TimerId) (d : Option Instant) : w.set id d id = d := by
  simp [set]

@[simp] theorem set_ne (w : Wheel) {id i : TimerId} (d : Option Instant) (h : i ≠ id) :
    w.set id d i = w i := by
  simp [set, h]

@[simp] theorem applyAll_nil (now : Instant) (w : Wheel) : applyAll now w [] = w := rfl

@[simp] theorem applyAll_append (now : Instant) (w : Wheel) (os os' : List Output) :
    applyAll now w (os ++ os') = applyAll now (applyAll now w os) os' := by
  simp [applyAll, List.foldl_append]

@[simp] theorem applyAll_cons (now : Instant) (w : Wheel) (o : Output) (os : List Output) :
    applyAll now w (o :: os) = applyAll now (apply now w o) os := rfl

end Wheel

structure Session where
  conn : Connection
  wheel : Wheel
  polled : List Event
  accepted : List Bytes
  emitted : List Bytes
  clock : Instant

namespace Session

/-- The datagrams among some outputs. -/
def datagrams (outputs : List Output) : List Bytes :=
  outputs.filterMap fun o => match o with | .sendDatagram d => some d | _ => none

/-- Drains the outputs of the connection a call left behind. -/
def settle (s : Session) (c : Connection) (now : Instant) : Session :=
  { s with
    conn := { c with outputs := [] }
    wheel := s.wheel.applyAll now c.outputs
    emitted := s.emitted ++ datagrams c.outputs
    clock := now }

/-- A fresh connection handed to its embedder. -/
def start (c : Connection) (now : Instant) : Session :=
  settle ⟨c, Wheel.idle, [], [], [], now⟩ c now

/-- One call at time `now`. A fired timer is no longer armed when its handler runs. -/
def step (P : Primitives) (s : Session) (input : Call × Instant) : Session :=
  { s with
    wheel := s.wheel.fired input.1
    polled := s.polled ++ s.conn.polledBy input.1
    accepted := s.accepted ++ s.conn.acceptedBy P input.1 input.2 }.settle
    (s.conn.perform P input.1 input.2) input.2

/-- The calls the embedder may make: the clock does not go back, and only armed timers
fire. -/
def Legal (s : Session) (input : Call × Instant) : Prop :=
  s.clock ≤ input.2 ∧ s.wheel.MayFire input.1

instance (s : Session) (input : Call × Instant) : Decidable (s.Legal input) :=
  inferInstanceAs (Decidable (_ ∧ _))

/-- The events a connection has ever pushed. -/
def pushed (s : Session) : List Event := s.polled ++ s.conn.events

/-- Sessions at their start: a caller that has sent its induction, or an acceptor that has
answered a conclusion. -/
inductive Started (P : Primitives) : Session → Prop
  | caller (config : Config) (localSocketId : SocketId) (initialSeq : SeqNumber) (now : Instant)
      (salt : Block 16) (sek : (n : ℕ) → Block n) :
      Started P (start (Connection.connect P config localSocketId initialSeq now salt sek) now)
  | acceptor (config : Config) (localSocketId : SocketId) (callerHs : Handshake) (now : Instant)
      (c : Connection) (h : Connection.accept P config localSocketId callerHs now = .ok c) :
      Started P (start c now)

/-- The conclusion of a caller with the default configuration. -/
def plainConclusion : Handshake :=
  (Connection.newBase Config.default ⟨1⟩ (SeqNumber.new 0) 0 .caller .conclusion).conclusion

/-- The session that accepts a conclusion at time zero. -/
def accepting (P : Primitives) (config : Config) (callerHs : Handshake) : Session :=
  start ((Connection.accept P config ⟨2⟩ callerHs 0).toOption.getD
    (Connection.newBase config ⟨2⟩ callerHs.initialSeq 0 .acceptor .failed)) 0

theorem accepting_started {P : Primitives} {config : Config} {callerHs : Handshake}
    (h : (Connection.accept P config ⟨2⟩ callerHs 0).toOption.isSome) :
    Started P (accepting P config callerHs) := by
  refine .acceptor config ⟨2⟩ callerHs 0 _ ?_
  cases hc : Connection.accept P config ⟨2⟩ callerHs 0 with
  | error e =>
    rw [hc] at h
    exact absurd h Bool.false_ne_true
  | ok c => rfl

/-- An acceptor connected to that caller. -/
def acceptorWith (config : Config) : Session := accepting Primitives.absent config plainConclusion

/-- The one with the default configuration. -/
def plainAcceptor : Session := acceptorWith Config.default

theorem plainAcceptor_started : Started Primitives.absent plainAcceptor :=
  accepting_started (by decide +kernel)

end Session

end Srtrust
