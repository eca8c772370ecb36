import Srtrust.Driver.Batch
import Srtrust.Session.Vetting

/-! # The endpoint's demultiplexer (`driver.rs`)

One socket serves every connection a listener has accepted. `drive_endpoint` keeps two maps, from peer
address to connection and from local socket id to connection, and looks at the address first. The id
decides only where the address is unknown, so a datagram from an address that is held for another
connection goes to that connection, whatever id it names. -/
namespace Srtrust
open BigEndian
set_option autoImplicit false

/-- One socket read may carry several datagrams of one peer. -/
def groSplit (data : Bytes) (stride : ℕ) : List Bytes := Driver.groSplit data data.length stride

/-- `dest_socket_id`: the fourth word of the header, `none` for runts. -/
def destSocketId (datagram : Bytes) : Option UInt32 :=
  if 16 ≤ datagram.length then some (getU32 (datagram.drop 12)).1 else none

/-- The driver task of an accepted connection. Its channel is closed once it has ended. -/
structure Driver where
  localSocketId : SocketId
  /-- Where it sends. -/
  peer : SocketAddr
  running : Bool
deriving DecidableEq, Repr

/-- A connection as the map by id sees it; `tx` is the place of its driver among those spawned. -/
structure IdEntry where
  tx : ℕ
  addr : SocketAddr
deriving DecidableEq, Repr

structure Endpoint where
  listener : Listener
  connections : SocketAddr → Option ℕ
  byId : UInt32 → Option IdEntry
  drivers : List Driver

inductive EndpointInput
  /-- A socket read: the sender, the bytes and the length of a segment. -/
  | received (peer : SocketAddr) (data : Bytes) (stride : ℕ)
  | accept (addr : SocketAddr)
  | reject (addr : SocketAddr) (reason : RejectReason)
  | exited (tx : ℕ)
deriving DecidableEq, Repr

namespace Endpoint

def new (listener : Listener) : Endpoint := ⟨listener, fun _ => none, fun _ => none, []⟩

def live (e : Endpoint) (tx : ℕ) : Bool := (e.drivers[tx]?).any (·.running)

/-- Hands segments of an unknown peer to the listener and drains what it queues. What becomes of a
surfaced request is a step of its own. -/
def feedListener (P : Primitives) (e : Endpoint) (peer : SocketAddr) (segments : List Bytes)
    (now : Instant) : Endpoint :=
  let listener := segments.foldl (fun l segment => l.feedRecvBuf P segment peer now) e.listener
  { e with listener := { listener with requests := [], responses := [] } }

/-- Pins a connection to the address it was last heard from. -/
def repin (e : Endpoint) (id : UInt32) (entry : IdEntry) (peer : SocketAddr) : Endpoint :=
  { e with
    connections := Function.update (Function.update e.connections entry.addr none) peer (some entry.tx)
    byId := Function.update e.byId id (some { entry with addr := peer })
    drivers := e.drivers.modify entry.tx fun d => { d with peer } }

/-- The connection an unknown address speaks for, by the first datagram of a read. -/
def claimant (e : Endpoint) (segments : List Bytes) : Option (UInt32 × IdEntry) :=
  (segments.head?.bind destSocketId).bind fun id => (e.byId id).map fun entry => (id, entry)

/-- `forward_segments`: whether the driver is kept. Without a segment its channel is not looked at. -/
def forwardSegments (e : Endpoint) (tx : ℕ) (segments : List Bytes) : Bool := segments.isEmpty || e.live tx

/-- One socket read. A driver whose channel is closed is forgotten. -/
def receive (P : Primitives) (e : Endpoint) (peer : SocketAddr) (segments : List Bytes) (now : Instant) :
    Endpoint :=
  match e.connections peer with
  | some tx =>
    if e.forwardSegments tx segments then e
    else { e with connections := Function.update e.connections peer none }
  | none =>
    match e.claimant segments with
    | some (id, entry) =>
      let pinned := e.repin id entry peer
      if e.forwardSegments entry.tx segments then pinned
      else
        { pinned with
          connections := Function.update pinned.connections peer none
          byId := Function.update pinned.byId id none }
    | none => e.feedListener P peer segments now

/-- The driver that the segments of a read are forwarded to. -/
def forwarded (e : Endpoint) (peer : SocketAddr) (segments : List Bytes) : Option ℕ :=
  match e.connections peer with
  | some tx => if e.live tx then some tx else none
  | none => (e.claimant segments).bind fun claim => if e.live claim.2.tx then some claim.2.tx else none

/-- Sweeps both maps and enters a connection in them. -/
def register (e : Endpoint) (id : SocketId) (addr : SocketAddr) : Endpoint :=
  let tx := e.drivers.length
  { e with
    connections := Function.update (fun a => (e.connections a).filter e.live) addr (some tx)
    byId := Function.update (fun i => (e.byId i).filter fun entry => e.live entry.tx) id.value
      (some ⟨tx, addr⟩)
    drivers := e.drivers ++ [⟨id, addr, true⟩] }

/-- `spawn_accepted`. -/
def spawnAccepted (P : Primitives) (e : Endpoint) (addr : SocketAddr) (now : Instant) : Endpoint :=
  match e.listener.acceptPending P addr now with
  | (.error _, listener) => { e with listener }
  | (.ok conn, listener) => { e with listener }.register conn.localSocketId addr

/-- `drive_endpoint`, one turn of its loop, and the end of a driver. -/
def step (P : Primitives) (e : Endpoint) (input : EndpointInput × Instant) : Endpoint :=
  match input.1 with
  | .received peer data stride => e.receive P peer (groSplit data stride) input.2
  | .accept addr => e.spawnAccepted P addr input.2
  | .reject addr reason => { e with listener := (e.listener.rejectPending addr reason input.2).2 }
  | .exited tx => { e with drivers := e.drivers.modify tx fun d => { d with running := false } }

/-! ## The map by id -/

/-- Every running driver is found under its id, at the address it sends to. -/
structure Indexed (e : Endpoint) : Prop where
  named : ∀ id entry, e.byId id = some entry →
    ∃ d, e.drivers[entry.tx]? = some d ∧ d.localSocketId.value = id
  found : ∀ tx d, e.drivers[tx]? = some d → d.running = true →
    e.byId d.localSocketId.value = some ⟨tx, d.peer⟩

theorem live_iff (e : Endpoint) (tx : ℕ) :
    e.live tx = true ↔ ∃ d, e.drivers[tx]? = some d ∧ d.running = true := by
  simp [live, Option.any_eq_true]

theorem repin_byId (e : Endpoint) (id : UInt32) (entry : IdEntry) (peer : SocketAddr) :
    (e.repin id entry peer).byId = Function.update e.byId id (some { entry with addr := peer }) := rfl

theorem Indexed.repin {e : Endpoint} (h : e.Indexed) {id : UInt32} {entry : IdEntry} (peer : SocketAddr)
    (hentry : e.byId id = some entry) : (e.repin id entry peer).Indexed := by
  have hget : ∀ tx, (e.repin id entry peer).drivers[tx]?
      = if entry.tx = tx then (e.drivers[tx]?).map fun d => { d with peer } else e.drivers[tx]? := by
    intro tx
    rw [Endpoint.repin, List.getElem?_modify]
    split <;> simp_all
  refine ⟨?_, ?_⟩
  · intro id' entry' hentry'
    have hold : ∃ d, e.drivers[entry'.tx]? = some d ∧ d.localSocketId.value = id' := by
      by_cases hid : id' = id
      · subst hid
        rw [repin_byId, Function.update_self, Option.some.injEq] at hentry'
        rw [← hentry']
        exact h.named id' entry hentry
      · rw [repin_byId, Function.update_of_ne hid] at hentry'
        exact h.named id' entry' hentry'
    obtain ⟨d, hd, hname⟩ := hold
    rw [hget, hd]
    split
    · exact ⟨_, rfl, hname⟩
    · exact ⟨d, rfl, hname⟩
  · intro tx d hd hrun
    rw [hget] at hd
    by_cases htx : entry.tx = tx
    · rw [if_pos htx, Option.map_eq_some_iff] at hd
      obtain ⟨old, hold, rfl⟩ := hd
      obtain ⟨d', hd', hname⟩ := h.named id entry hentry
      rw [htx, hold, Option.some.injEq] at hd'
      rw [← hd'] at hname
      rw [repin_byId, hname, Function.update_self, htx]
    · rw [if_neg htx] at hd
      have hfound := h.found tx d hd hrun
      have hid : d.localSocketId.value ≠ id := by
        intro he
        rw [he, hentry, Option.some.injEq] at hfound
        exact htx (by rw [hfound])
      rw [repin_byId, Function.update_of_ne hid]
      exact hfound

/-- The maps are read by id and the drivers by place, so only those two matter. -/
theorem Indexed.same {e e' : Endpoint} (h : e.Indexed) (hbyId : e'.byId = e.byId)
    (hdrivers : e'.drivers = e.drivers) : e'.Indexed := by
  refine ⟨?_, ?_⟩
  · rw [hbyId, hdrivers]
    exact h.named
  · rw [hbyId, hdrivers]
    exact h.found

/-- An id whose driver has ended can be forgotten. -/
theorem Indexed.forget {e : Endpoint} (h : e.Indexed) {id : UInt32} {entry : IdEntry}
    (hentry : e.byId id = some entry) (hdead : e.live entry.tx = false)
    (connections : SocketAddr → Option ℕ) :
    ({ e with connections, byId := Function.update e.byId id none } : Endpoint).Indexed := by
  refine ⟨?_, ?_⟩
  · intro id' entry' hentry'
    change Function.update e.byId id none id' = some entry' at hentry'
    by_cases hid : id' = id
    · rw [hid, Function.update_self] at hentry'
      exact absurd hentry' (by simp)
    · rw [Function.update_of_ne hid] at hentry'
      exact h.named id' entry' hentry'
  · intro tx d hd hrun
    have hfound := h.found tx d hd hrun
    have hid : d.localSocketId.value ≠ id := by
      intro he
      rw [he, hentry, Option.some.injEq] at hfound
      have hlive := (e.live_iff entry.tx).mpr ⟨d, by rw [hfound]; exact hd, hrun⟩
      rw [hdead] at hlive
      exact absurd hlive (by simp)
    change Function.update e.byId id none _ = _
    rw [Function.update_of_ne hid]
    exact hfound

theorem claimant_eq_some {e : Endpoint} {segments : List Bytes} {claim : UInt32 × IdEntry}
    (h : e.claimant segments = some claim) :
    segments.head?.bind destSocketId = some claim.1 ∧ e.byId claim.1 = some claim.2 := by
  unfold claimant at h
  obtain ⟨id, hid, h⟩ := Option.bind_eq_some_iff.mp h
  obtain ⟨entry, hentry, rfl⟩ := Option.map_eq_some_iff.mp h
  exact ⟨hid, hentry⟩

theorem Indexed.receive {P : Primitives} {e : Endpoint} (h : e.Indexed) (peer : SocketAddr)
    (segments : List Bytes) (now : Instant) : (e.receive P peer segments now).Indexed := by
  unfold Endpoint.receive
  split
  · split
    · exact h
    · exact h.same rfl rfl
  · split
    · next id entry hclaim =>
      have hentry : e.byId id = some entry := (claimant_eq_some hclaim).2
      have hpinned := h.repin peer hentry
      dsimp only
      split
      · exact hpinned
      · next hdead =>
        have hnamed : (e.repin id entry peer).byId id = some { entry with addr := peer } := by
          rw [repin_byId, Function.update_self]
        have hlive : (e.repin id entry peer).live entry.tx = e.live entry.tx := by
          rw [live, live, Endpoint.repin, List.getElem?_modify_eq]
          cases e.drivers[entry.tx]? <;> rfl
        have hended : e.live entry.tx = false := by
          rw [forwardSegments, Bool.or_eq_true, not_or, Bool.not_eq_true, Bool.not_eq_true] at hdead
          exact hdead.2
        exact hpinned.forget hnamed (hlive.trans hended) _
    · exact h.same rfl rfl

theorem Indexed.register {e : Endpoint} (h : e.Indexed) (id : SocketId) (addr : SocketAddr)
    (hfresh : ∀ d ∈ e.drivers, d.running = true → d.localSocketId ≠ id) : (e.register id addr).Indexed := by
  have hbyId : (e.register id addr).byId = Function.update
      (fun i => (e.byId i).filter fun entry => e.live entry.tx) id.value
      (some ⟨e.drivers.length, addr⟩) := rfl
  have hdrivers : (e.register id addr).drivers = e.drivers ++ [⟨id, addr, true⟩] := rfl
  refine ⟨?_, ?_⟩
  · intro id' entry hentry
    rw [hbyId] at hentry
    rw [hdrivers]
    by_cases hid : id' = id.value
    · subst hid
      rw [Function.update_self, Option.some.injEq] at hentry
      exact ⟨⟨id, addr, true⟩, by simp [← hentry], rfl⟩
    · rw [Function.update_of_ne hid, Option.filter_eq_some_iff] at hentry
      obtain ⟨d, hd, hname⟩ := h.named id' entry hentry.1
      have hlt := (List.getElem?_eq_some_iff.mp hd).1
      exact ⟨d, by rw [List.getElem?_append_left hlt]; exact hd, hname⟩
  · intro tx d hd hrun
    rw [hdrivers] at hd
    rw [hbyId]
    rcases Nat.lt_or_ge tx e.drivers.length with hlt | hge
    · rw [List.getElem?_append_left hlt] at hd
      have hne : d.localSocketId.value ≠ id.value := by
        intro he
        refine hfresh d (List.mem_of_getElem? hd) hrun ?_
        cases hid : d.localSocketId
        cases id
        simp_all
      rw [Function.update_of_ne hne, h.found tx d hd hrun, Option.filter_some,
        if_pos ((e.live_iff tx).mpr ⟨d, hd, hrun⟩)]
    · have htx : tx = e.drivers.length := by
        have := (List.getElem?_eq_some_iff.mp hd).1
        rw [List.length_append, List.length_singleton] at this
        omega
      rw [htx, List.getElem?_append_right (Nat.le_refl _), Nat.sub_self, List.getElem?_cons_zero,
        Option.some.injEq] at hd
      rw [← hd, Function.update_self, htx]

theorem Indexed.exited {e : Endpoint} (h : e.Indexed) (tx : ℕ) :
    ({ e with drivers := e.drivers.modify tx fun d => { d with running := false } } : Endpoint).Indexed := by
  have hget : ∀ k, (e.drivers.modify tx fun d => { d with running := false })[k]?
      = if tx = k then (e.drivers[k]?).map fun d => { d with running := false } else e.drivers[k]? := by
    intro k
    rw [List.getElem?_modify]
    split <;> simp_all
  refine ⟨?_, ?_⟩
  · intro id entry hentry
    obtain ⟨d, hd, hname⟩ := h.named id entry hentry
    change ∃ d', (e.drivers.modify tx fun d => { d with running := false })[entry.tx]? = some d' ∧ _
    rw [hget, hd]
    split
    · exact ⟨_, rfl, hname⟩
    · exact ⟨d, rfl, hname⟩
  · intro k d hd hrun
    change (e.drivers.modify tx fun d => { d with running := false })[k]? = some d at hd
    rw [hget] at hd
    by_cases hk : tx = k
    · rw [if_pos hk, Option.map_eq_some_iff] at hd
      obtain ⟨old, -, rfl⟩ := hd
      exact absurd hrun (by simp)
    · rw [if_neg hk] at hd
      exact h.found k d hd hrun

/-! ## Sample callers -/

/-- A caller's address by its port. -/
def addressAt (port : UInt16) : SocketAddr := ⟨.localhost, port⟩

/-- A caller's conclusion, from the given port. -/
def conclusionAt (port : UInt16) : EndpointInput :=
  .received (addressAt port) ((encodeControl ⟨0⟩ ⟨0⟩
    (.handshake { Session.plainConclusion with synCookie := Desk.frontListener.cookie (addressAt port) 0 })).getD []) 0

/-- A data packet for the given socket id. -/
def dataFor (id : UInt32) : Bytes :=
  ({ seq := SeqNumber.new 0, position := .single, inOrder := true, encryption := .none
     retransmitted := false, messageNumber := MsgNumber.new 1, timestamp := ⟨0⟩
     destSocketId := ⟨id⟩, payload := [7] } : DataPacket).encode

/-- Two callers, accepted under the ids 6 and 5. -/
def twoCallers : List (EndpointInput × Instant) :=
  [(conclusionAt 5000, 0), (conclusionAt 6000, 0), (.accept (addressAt 5000), 0),
    (.accept (addressAt 6000), 0)]

/-! ## Misrouting -/

/-- The running drivers that a datagram names. -/
def addressees (e : Endpoint) (datagram : Bytes) : List ℕ :=
  (List.range e.drivers.length).filter fun tx =>
    (e.drivers[tx]?).any fun d => d.running ∧ destSocketId datagram = some d.localSocketId.value

/-- No datagram of a read is forwarded to a driver other than the one it names. -/
def Delivers (e : Endpoint) (input : EndpointInput × Instant) : Prop :=
  match input.1 with
  | .received peer data stride =>
    ∀ datagram ∈ groSplit data stride, ∀ tx ∈ e.addressees datagram,
      ∀ other ∈ e.forwarded peer (groSplit data stride), other = tx
  | _ => True

/-- A datagram that names a running driver comes from an address that is not held for another one, and
from an unknown address only behind a datagram that names the same id. A connection is accepted under
an id that no running driver has. -/
def Orderly (P : Primitives) (e : Endpoint) (input : EndpointInput × Instant) : Prop :=
  match input.1 with
  | .received peer data stride =>
    ∀ datagram ∈ groSplit data stride, ∀ tx ∈ e.addressees datagram,
      (∀ other ∈ e.connections peer, e.live other = true → other = tx) ∧
        (e.connections peer = none → (groSplit data stride).head?.bind destSocketId = destSocketId datagram)
  | .accept addr =>
    ∀ conn ∈ (e.listener.acceptPending P addr input.2).1.toOption,
      ∀ d ∈ e.drivers, d.running = true → d.localSocketId ≠ conn.localSocketId
  | _ => True

instance (e : Endpoint) (input : EndpointInput × Instant) : Decidable (e.Delivers input) := by
  obtain ⟨call, now⟩ := input
  cases call <;> unfold Delivers <;> infer_instance

instance (P : Primitives) (e : Endpoint) (input : EndpointInput × Instant) : Decidable (e.Orderly P input) := by
  obtain ⟨call, now⟩ := input
  cases call <;> unfold Orderly <;> infer_instance

theorem Indexed.step {P : Primitives} {e : Endpoint} (h : e.Indexed) {input : EndpointInput × Instant}
    (ho : e.Orderly P input) : (e.step P input).Indexed := by
  obtain ⟨call, now⟩ := input
  cases call with
  | received peer data stride => exact h.receive peer (groSplit data stride) now
  | reject addr reason => exact h.same rfl rfl
  | exited tx => exact h.exited tx
  | accept addr =>
    have hfresh : ∀ conn ∈ (e.listener.acceptPending P addr now).1.toOption,
        ∀ d ∈ e.drivers, d.running = true → d.localSocketId ≠ conn.localSocketId := ho
    change (e.spawnAccepted P addr now).Indexed
    unfold spawnAccepted
    split
    · exact h.same rfl rfl
    · next conn listener he =>
      rw [he] at hfresh
      have hsame : ({ e with listener } : Endpoint).Indexed := h.same rfl rfl
      exact hsame.register conn.localSocketId addr (hfresh conn rfl)

/-- The map by id leads every datagram from an unknown address to the driver it names. -/
theorem Indexed.delivers {P : Primitives} {e : Endpoint} (h : e.Indexed) {input : EndpointInput × Instant}
    (ho : e.Orderly P input) : e.Delivers input := by
  obtain ⟨call, now⟩ := input
  cases call with
  | received peer data stride =>
    intro datagram hm tx htx other hother
    have ho : (∀ other ∈ e.connections peer, e.live other = true → other = tx) ∧
        (e.connections peer = none →
          (groSplit data stride).head?.bind destSocketId = destSocketId datagram) := ho datagram hm tx htx
    unfold forwarded at hother
    split at hother
    · next held hheld =>
      split at hother
      · next hlive =>
        obtain rfl := Option.some.inj hother
        exact ho.1 held hheld hlive
      · exact absurd hother (by simp)
    · next hnone =>
      obtain ⟨claim, hclaim, hother⟩ := Option.bind_eq_some_iff.mp hother
      obtain ⟨hid, hentry⟩ := claimant_eq_some hclaim
      obtain ⟨-, htx⟩ := List.mem_filter.mp htx
      rw [Option.any_eq_true] at htx
      obtain ⟨d, hd, hnames⟩ := htx
      simp only [Bool.decide_and, Bool.decide_eq_true, Bool.and_eq_true, decide_eq_true_eq] at hnames
      rw [ho.2 hnone, hnames.2, Option.some.injEq] at hid
      have hfound := h.found tx d hd hnames.1
      rw [hid, hentry, Option.some.injEq] at hfound
      split at hother
      · rw [← Option.some.inj hother, hfound]
      · exact absurd hother (by simp)
  | reject addr reason => trivial
  | exited tx => trivial
  | accept addr => trivial

/-- In an orderly run no datagram addressed to a live connection is forwarded to another one. -/
theorem delivered_to_addressee (P : Primitives) (l : Listener) (inputs : List (EndpointInput × Instant))
    (ho : Runs.Meets (step P) (Orderly P) (new l) inputs) :
    Runs.Meets (step P) Delivers (new l) inputs := by
  have h0 : (new l).Indexed := ⟨by simp [new], by simp [new]⟩
  exact ho.along (fun _ _ h ho => h.step ho) (fun _ _ h ho => h.delivers ho) h0

/-- The first caller moves to a new port and is followed there. -/
theorem delivered_to_addressee_rebound :
    (Runs.run (step Primitives.absent) (new Desk.frontListener)
        (twoCallers ++ [(.received (addressAt 7000) (dataFor 6) 0, 0)])).connections (addressAt 7000)
        = some 0 ∧
      Runs.Meets (step Primitives.absent) Delivers (new Desk.frontListener)
        (twoCallers ++ [(.received (addressAt 7000) (dataFor 6) 0, 0)]) :=
  ⟨by decide +kernel, delivered_to_addressee Primitives.absent Desk.frontListener _ (by decide +kernel)⟩

/-- The first caller speaks from the address that is held for the second, and its datagram goes to the
second's connection. -/
theorem misrouted_by_address :
    (Runs.run (step Primitives.absent) (new Desk.frontListener) twoCallers).drivers
        = [⟨⟨6⟩, addressAt 5000, true⟩, ⟨⟨5⟩, addressAt 6000, true⟩] ∧
      groSplit (dataFor 6) 0 = [dataFor 6] ∧ destSocketId (dataFor 6) = some 6 ∧
      (Runs.run (step Primitives.absent) (new Desk.frontListener) twoCallers).forwarded (addressAt 6000)
        [dataFor 6] = some 1 :=
  ⟨by decide +kernel, by decide +kernel, by decide +kernel, by decide +kernel⟩

end Endpoint

end Srtrust
