import Srtrust.Session.Emission
import Srtrust.Connection.Listener

/-! # A caller and a listener

One caller, one listener and the connections the listener makes for it. The network keeps every
datagram ever sent, and a delivery picks any of those sent to its receiver so far: datagrams may
be lost, delayed, repeated and reordered, but none is made up. The listener's embedder drains its
queues after every call. -/
namespace Srtrust
open BigEndian
set_option autoImplicit false

structure Meeting where
  caller : Session
  /-- Where the listener sees the caller. -/
  address : SocketAddr
  listener : Listener
  /-- The datagrams the listener has sent to that address. -/
  replies : List Bytes
  /-- The connections the listener has produced, each as it was then. -/
  produced : List Connection
  /-- The same connections under their embedder. -/
  served : List Session
  /-- The caller as it was when it got connected. -/
  established : Option Connection
  clock : Instant

/-- What can happen next. A delivery names the datagram by its place among those sent. -/
inductive Move
  | caller (call : Call)
  | callerHears (i : ℕ)
  | served (k : ℕ) (call : Call)
  | servedHears (k i : ℕ)
  | listenerHears (i : ℕ)
  | deferAccepts
  | pollRequest
  | acceptPending (remote : SocketAddr)
  | rejectPending (remote : SocketAddr) (reason : RejectReason)
deriving DecidableEq, Repr

/-- Rejections whose code cannot be read as a conclusion. -/
def Move.Sound : Move → Prop
  | .rejectPending _ reason => reason.code ≠ 4294966295
  | _ => True

instance : (move : Move) → Decidable move.Sound
  | .rejectPending _ reason => inferInstanceAs (Decidable (reason.code ≠ 4294966295))
  | .caller _ => inferInstanceAs (Decidable True)
  | .callerHears _ => inferInstanceAs (Decidable True)
  | .served _ _ => inferInstanceAs (Decidable True)
  | .servedHears _ _ => inferInstanceAs (Decidable True)
  | .listenerHears _ => inferInstanceAs (Decidable True)
  | .deferAccepts => inferInstanceAs (Decidable True)
  | .pollRequest => inferInstanceAs (Decidable True)
  | .acceptPending _ => inferInstanceAs (Decidable True)

/-- Calls that bring no datagram. -/
def Call.IsLocal : Call → Prop
  | .feedRecvBuf _ => False
  | _ => True

instance : (call : Call) → Decidable call.IsLocal
  | .feedRecvBuf _ => inferInstanceAs (Decidable False)
  | .handleTimer _ => inferInstanceAs (Decidable True)
  | .send _ => inferInstanceAs (Decidable True)
  | .close => inferInstanceAs (Decidable True)
  | .provideRekey _ => inferInstanceAs (Decidable True)
  | .pollEvent => inferInstanceAs (Decidable True)

namespace Meeting

/-- A caller that has just been made, and a listener at its start. -/
def start (caller : Connection) (address : SocketAddr) (listener : Listener) (now : Instant) : Meeting where
  caller := .start caller now
  address := address
  listener := listener
  replies := []
  produced := []
  served := []
  established := none
  clock := now

/-- Meetings at their start: a caller that has sent its induction and a listener that has heard
nothing. -/
inductive Opened (P : Primitives) : Meeting → Prop
  | intro (config : Config) (localSocketId : SocketId) (initialSeq : SeqNumber) (salt : Block 16)
      (sek : (n : ℕ) → Block n) (address : SocketAddr) (listenerConfig : Config) (listenerId : SocketId)
      (listenerSeq : SeqNumber) (cookieSecret : UInt64) (opened now : Instant) :
      Opened P (start (Connection.connect P config localSocketId initialSeq now salt sek) address
        (Listener.new listenerConfig listenerId listenerSeq cookieSecret opened) now)

/-- The datagrams sent to the caller so far. -/
def toCaller (m : Meeting) : List Bytes := m.replies ++ m.served.flatMap (·.emitted)

/-- A call on the caller. -/
def callCaller (P : Primitives) (m : Meeting) (call : Call) (now : Instant) : Meeting :=
  let s := m.caller.step P (call, now)
  { m with
    caller := s
    established := m.established.or (if s.conn.link.state = .connected then some s.conn else none)
    clock := now }

/-- A call on one of the listener's connections. -/
def callServed (P : Primitives) (m : Meeting) (k : ℕ) (call : Call) (now : Instant) : Meeting :=
  { m with served := m.served.modify k (·.step P (call, now)), clock := now }

/-- The listener a call left behind, with the connections the call returned. -/
def adopt (m : Meeting) (l : Listener) (returned : List Connection) (now : Instant) : Meeting :=
  { m with
    listener := { l with responses := [], accepted := [] }
    replies := m.replies ++ (l.responses.filter (·.1 = m.address)).map (·.2)
    produced := m.produced ++ (l.accepted ++ returned)
    served := m.served ++ (l.accepted ++ returned).map (Session.start · now)
    clock := now }

def step (P : Primitives) (m : Meeting) (x : Move × Instant) : Meeting :=
  match x.1 with
  | .caller call => m.callCaller P call x.2
  | .callerHears i =>
    match m.toCaller[i]? with
    | some d => m.callCaller P (.feedRecvBuf d) x.2
    | none => m
  | .served k call => m.callServed P k call x.2
  | .servedHears k i =>
    match m.caller.emitted[i]? with
    | some d => m.callServed P k (.feedRecvBuf d) x.2
    | none => m
  | .listenerHears i =>
    match m.caller.emitted[i]? with
    | some d => m.adopt (m.listener.feedRecvBuf P d m.address x.2) [] x.2
    | none => m
  | .deferAccepts => m.adopt m.listener.deferAccepts [] x.2
  | .pollRequest => m.adopt m.listener.pollRequest.2 [] x.2
  | .acceptPending remote =>
    let result := m.listener.acceptPending P remote x.2
    m.adopt result.2 result.1.toOption.toList x.2
  | .rejectPending remote reason => m.adopt (m.listener.rejectPending remote reason x.2).2 [] x.2

/-- The clock does not go back, only armed timers fire, and datagrams come from the network. -/
def Legal (m : Meeting) (x : Move × Instant) : Prop :=
  m.clock ≤ x.2 ∧
    match x.1 with
    | .caller call => call.IsLocal ∧ m.caller.wheel.MayFire call
    | .served k call => call.IsLocal ∧ ∀ s ∈ m.served[k]?, s.wheel.MayFire call
    | _ => True

instance (m : Meeting) (x : Move × Instant) : Decidable (m.Legal x) := by
  rcases x with ⟨_ | _ | _ | _ | _ | _ | _ | _ | _, now⟩ <;>
    exact inferInstanceAs (Decidable (_ ∧ _))

end Meeting

end Srtrust
