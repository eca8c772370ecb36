import Srtrust.Connection.Deferral
import Srtrust.Driver.Batch
import Srtrust.Library.Channel
import Srtrust.Session.Pair

/-! # The driver's loop (`drive_connection`)

An iteration fires the timers that are due, drains the connection's outputs to the socket and the timer
wheel and its events to the application, and then waits for the first of several things to happen. So the
outputs of a call stay in the connection until the next iteration, and a batch of timers fires before the
outputs of its first one are looked at.

For a session the embedder drains the outputs after every call. The loop is one: forgetting the outputs it
has not drained, it goes through the states of a session that makes the same calls. -/
namespace Srtrust.Driver
open BigEndian Channels
set_option autoImplicit false

/-- `Command`. A request for statistics only reads. -/
inductive Command
  | send (payload : Bytes)
  | close
  | stats
deriving DecidableEq, Repr

def Command.payload : Command → Option Bytes
  | .send payload => some payload
  | _ => none

/-- Where the loop stands: at the top of an iteration, at its `select!`, or past its end. -/
inductive Phase
  | top
  | select
  | stopped
deriving DecidableEq, Repr

/-- The state of `drive_connection` and of the channels it shares with the stream's handle, with a history of
what went through them. -/
structure Loop where
  conn : Connection
  timers : Wheel
  /-- The connection has the socket to itself, or reads from the endpoint's demultiplexer. -/
  owned : Bool
  closing : Bool
  pendingData : Option Bytes
  /-- Commands that wait in their channel. -/
  commands : List Command
  /-- Every sender of commands has been dropped. -/
  hungUp : Bool
  data : Channel Bytes
  /-- The receiver of payloads has been dropped. -/
  unread : Bool
  /-- The `connected` sender is still there. -/
  connected : Bool
  /-- What was sent on it. -/
  outcome : Option (Except ConnectionError Unit)
  phase : Phase
  /-- What was handed to the socket. -/
  wire : List Transmit
  polled : List Event
  /-- The payloads of all commands ever queued. -/
  sent : List Bytes
  /-- Those of them the connection took. -/
  accepted : List Bytes

namespace Loop

/-- A driver that has just been spawned. -/
def start (conn : Connection) (owned connected : Bool) (capacity : ℕ) : Loop where
  conn := conn
  timers := Wheel.idle
  owned := owned
  closing := false
  pendingData := none
  commands := []
  hungUp := false
  data := Channel.empty capacity
  unread := false
  connected := connected
  outcome := none
  phase := .top
  wire := []
  polled := []
  sent := []
  accepted := []

/-- A call into the connection. -/
def call (P : Primitives) (l : Loop) (call : Call) (now : Instant) : Loop :=
  { l with
    conn := l.conn.perform P call now
    polled := l.polled ++ l.conn.polledBy call
    accepted := l.accepted ++ l.conn.acceptedBy P call now }

/-! ## The top of an iteration -/

/-- A due timer is taken off the wheel and handled. -/
def fire (P : Primitives) (now : Instant) (l : Loop) (id : TimerId) : Loop :=
  { l with timers := l.timers.set id none }.call P (.handleTimer id) now

/-- How the socket takes a batch: how many segments go in one call, and after how many calls it fails. -/
structure Sending where
  maxSegments : ℕ
  failsAfter : Option ℕ
deriving DecidableEq, Repr

/-- `drain_outputs`; the flag says whether the socket failed. -/
def drainOutputs (l : Loop) (now : Instant) (sending : Sending) : Loop × Bool :=
  let transmits := flushSends (Session.datagrams l.conn.outputs) sending.maxSegments
  let drained :=
    { l with
      conn := { l.conn with outputs := [] }
      timers := l.timers.applyAll now l.conn.outputs }
  match sending.failsAfter with
  | none => ({ drained with wire := l.wire ++ transmits }, false)
  | some n => ({ drained with wire := l.wire ++ transmits.take n }, true)

/-- What happens outside the driver while it handles one event: how many payloads the application reads, and what
the generator would draw. -/
structure Turn where
  reads : ℕ
  sek : (n : ℕ) → Block n

/-- `connected.take()` and, where it was there, `send`. -/
def signal (l : Loop) (result : Except ConnectionError Unit) : Loop :=
  if l.connected then { l with connected := false, outcome := some result } else l

/-- `data.try_send`: a payload nobody reads is discarded, one the channel cannot take is parked. A Boolean is
the value `drain_events` then returns. -/
def offer (l : Loop) (payload : Bytes) : Loop × Option Bool :=
  if l.unread then ({ l with pendingData := none }, none)
  else
    match l.data.trySend payload with
    | some data => ({ l with data, pendingData := none }, none)
    | none => ({ l with pendingData := some payload }, some false)

/-- The body of the loop of `drain_events`, for one polled event. -/
def handle (P : Primitives) (l : Loop) (now : Instant) (turn : Turn) : Event → Loop × Option Bool
  | .connected _ => (l.signal (.ok ()), none)
  | .keyRefreshNeeded keySize => (l.call P (.provideRekey (turn.sek keySize).bytes) now, none)
  | .dataReceived payload => l.offer payload
  | .failed reason => (l.signal (.error reason), some true)
  | .closed => (l, some true)

/-- The event polled next, and the driver after polling it and after the application's reads. -/
def poll (P : Primitives) (l : Loop) (now : Instant) (turn : Turn) : Option (Event × Loop) :=
  match l.conn.events with
  | [] => none
  | event :: _ =>
    let l := l.call P .pollEvent now
    some (event, { l with data := Channel.recvMany turn.reads l.data })

def drainLoop (P : Primitives) (now : Instant) (world : ℕ → Turn) : ℕ → Loop → Loop × Bool
  | 0, l => (l, false)
  | fuel + 1, l =>
    match l.poll P now (world fuel) with
    | none => (l, false)
    | some (event, l) =>
      match l.handle P now (world fuel) event with
      | (l, some stop) => (l, stop)
      | (l, none) => drainLoop P now world fuel l

/-- `drain_events`. -/
def drainEvents (P : Primitives) (l : Loop) (now : Instant) (world : ℕ → Turn) : Loop × Bool :=
  match l.pendingData with
  | none => drainLoop P now world l.conn.events.length l
  | some payload =>
    match l.offer payload with
    | (l, some stop) => (l, stop)
    | (l, none) => drainLoop P now world l.conn.events.length l

/-- From the top of an iteration to its `select!`, or to the end of the loop. -/
def iterate (P : Primitives) (l : Loop) (now : Instant) (due : List TimerId) (sending : Sending)
    (world : ℕ → Turn) : Loop :=
  let drained := (due.foldl (fire P now) l).drainOutputs now sending
  if drained.2 then { drained.1 with phase := .stopped }
  else
    let handed := drained.1.drainEvents P now world
    { handed.1 with phase := if handed.2 then .stopped else .select }

/-! ## What the loop waits for -/

/-- The arms of the `select!`. -/
inductive Arm
  /-- The socket, with the datagrams of one receive. -/
  | received (buf : Bytes) (len stride : ℕ) (now : Instant)
  | receiveFailed
  /-- The demultiplexer, with a datagram and its time of arrival. -/
  | datagram (bytes : Bytes) (arrival : Instant)
  | dropped
  /-- A deadline has come. -/
  | wake
  /-- The data channel has room, or has been closed. -/
  | reserve
  | command (now : Instant)

/-- The inner loop of the command arm: every queued command, up to a close. -/
def runCommands (P : Primitives) (now : Instant) : List Command → Loop → Loop
  | [], l => { l with commands := [] }
  | .send payload :: rest, l => runCommands P now rest (l.call P (.send payload) now)
  | .stats :: rest, l => runCommands P now rest l
  | .close :: rest, l => { l.call P .close now with closing := true, commands := rest }

/-- The command arm. A channel without senders yields one last `None`, which is a close. -/
def onCommand (P : Primitives) (l : Loop) (now : Instant) : Loop :=
  match l.commands with
  | [] => { l.call P .close now with closing := true }
  | queued => runCommands P now queued l

/-- The `reserve` arm: the parked payload is offered again. -/
def reserve (l : Loop) : Loop :=
  match l.pendingData with
  | none => l
  | some payload => (l.offer payload).1

def feed (P : Primitives) (now : Instant) (l : Loop) (segment : Bytes) : Loop :=
  l.call P (.feedRecvBuf segment) now

/-- Whether an arm can complete. -/
def Enabled (l : Loop) : Arm → Prop
  | .received _ _ _ _ => l.owned = true
  | .receiveFailed => l.owned = true
  | .datagram _ _ => l.owned = false
  | .dropped => l.owned = false
  | .wake => True
  | .reserve => l.pendingData.isSome ∧ (l.unread = true ∨ l.data.queue.length < l.data.capacity)
  | .command _ => l.closing = false ∧ l.conn.sendWindowAvailable = true ∧ (l.commands ≠ [] ∨ l.hungUp = true)

instance (l : Loop) : (arm : Arm) → Decidable (l.Enabled arm)
  | .received _ _ _ _ => inferInstanceAs (Decidable (l.owned = true))
  | .receiveFailed => inferInstanceAs (Decidable (l.owned = true))
  | .datagram _ _ => inferInstanceAs (Decidable (l.owned = false))
  | .dropped => inferInstanceAs (Decidable (l.owned = false))
  | .wake => inferInstanceAs (Decidable True)
  | .reserve => inferInstanceAs (Decidable (_ ∧ _))
  | .command _ => inferInstanceAs (Decidable (_ ∧ _))

/-- The arm that completes, before the next iteration. -/
def select (P : Primitives) (l : Loop) : Arm → Loop
  | .received buf len stride now => { (groSplit buf len stride).foldl (feed P now) l with phase := .top }
  | .receiveFailed => { l with phase := .stopped }
  | .datagram bytes arrival => { l.feed P arrival bytes with phase := .top }
  | .dropped => { l with phase := .stopped }
  | .wake => { l with phase := .top }
  | .reserve => { l.reserve with phase := .top }
  | .command now => { l.onCommand P now with phase := .top }

/-! ## Runs -/

/-- The moves of the driver and of the application. -/
inductive Move
  /-- One iteration. `collect_due_timers` would pick the timers whose deadline has come, in the order of a hash
  map; here any may fire. -/
  | iterate (now : Instant) (due : List TimerId) (sending : Sending) (world : ℕ → Turn)
  | select (arm : Arm)
  /-- `SrtStream::send`, `close` or `stats`. -/
  | request (command : Command)
  /-- The sending half is dropped. -/
  | hangUp
  /-- `SrtStream::recv`. -/
  | read
  /-- The receiving half is dropped. -/
  | dropReader

/-- The application has its stream once a connection is reported; an acceptor's is there from the start. -/
def Handed (l : Loop) : Prop := l.connected = false ∧ l.outcome.all (·.isOk) = true ∧ l.hungUp = false

instance (l : Loop) : Decidable l.Handed := inferInstanceAs (Decidable (_ ∧ _))

def step (P : Primitives) (l : Loop) : Move → Loop
  | .iterate now due sending world => if l.phase = .top then l.iterate P now due sending world else l
  | .select arm => if l.phase = .select ∧ l.Enabled arm then l.select P arm else l
  | .request command =>
    if l.phase ≠ .stopped ∧ l.Handed then
      { l with commands := l.commands ++ [command], sent := l.sent ++ command.payload.toList }
    else l
  | .hangUp => { l with hungUp := true }
  | .read => { l with data := l.data.recv }
  | .dropReader => { l with unread := true }

end Loop

end Srtrust.Driver
