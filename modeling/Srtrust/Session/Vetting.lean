import Srtrust.Connection.Listener
import Srtrust.Library.Runs
import Srtrust.Session.Embedder

/-! # Deferred accepts

In deferred mode a listener parks a valid conclusion and surfaces one request for it; the application
accepts or rejects whatever is parked under the address it names. A conclusion from an address that is
parked takes the place of the one parked before, and no request says so. An address whose conclusion
was decided or has expired is unknown again. -/
namespace Srtrust
open BigEndian
set_option autoImplicit false

theorem exists_ok_of_isOk {ε α : Type} {r : Except ε α} (h : r.isOk = true) : ∃ a, r = .ok a := by
  cases r with
  | ok a => exact ⟨a, rfl⟩
  | error e => simp [Except.isOk, Except.toBool] at h

namespace Listener

/-- The parked conclusions that have not expired. -/
def swept (l : Listener) (now : Instant) : List PendingConn :=
  l.pending.filter fun p => now.saturatingDurationSince p.since < pendingTtl

/-- The conclusion a datagram brings, with a valid cookie and acceptable keys. -/
def concludedBy (P : Primitives) (l : Listener) (datagram : Bytes) (peer : SocketAddr) (now : Instant) :
    Option Handshake :=
  match Packet.decode datagram with
  | .ok (.control { body := .handshake hs, .. }) =>
    if hs.handshakeType = .conclusion ∧ l.cookieValid hs.synCookie peer now
        ∧ (acceptCrypto P l.config.encryption hs).isOk then some hs
    else none
  | _ => none

theorem concludedBy_decodes {P : Primitives} {l : Listener} {datagram : Bytes} {peer : SocketAddr}
    {now : Instant} {hs : Handshake} (h : l.concludedBy P datagram peer now = some hs) :
    ∃ ctrl : ControlPacket, Packet.decode datagram = .ok (.control ctrl) ∧ ctrl.body = .handshake hs := by
  unfold concludedBy at h
  split at h
  · next timestamp dest hs' hdecode =>
    split_ifs at h
    obtain rfl := Option.some.inj h
    exact ⟨_, hdecode, rfl⟩
  · cases h

/-- What a datagram does to the parked conclusions and the requests of a listener in deferred
mode. -/
inductive Parks (l : Listener) (peer : SocketAddr) (now : Instant) : Option Handshake → Listener → Prop
  | idle {l' : Listener} (hpending : l'.pending = l.swept now) (hrequests : l'.requests = l.requests) :
      Parks l peer now none l'
  | refreshed {l' : Listener} (hs : Handshake) (i : ℕ) (old : PendingConn)
      (hi : (l.swept now)[i]? = some old) (hold : old.peer = peer)
      (hpending : l'.pending = (l.swept now).set i ⟨peer, hs, now⟩) (hrequests : l'.requests = l.requests) :
      Parks l peer now (some hs) l'
  | parked {l' : Listener} (hs : Handshake) (hnew : ∀ p ∈ l.swept now, p.peer ≠ peer)
      (hpending : l'.pending = l.swept now ++ [⟨peer, hs, now⟩])
      (hrequests : l'.requests = l.requests ++ [⟨peer, requestedStream hs⟩]) :
      Parks l peer now (some hs) l'

theorem respond_parked (l : Listener) (peer : SocketAddr) (dest : SocketId) (hs : Handshake) (now : Instant) :
    (l.respond peer dest hs now).deferred = l.deferred ∧ (l.respond peer dest hs now).pending = l.pending
      ∧ (l.respond peer dest hs now).requests = l.requests := by
  unfold respond
  split <;> exact ⟨rfl, rfl, rfl⟩

/-- A lookup by address finds an entry of that address, or there is none. -/
theorem findIdx_peer {pending : List PendingConn} {peer : SocketAddr} {i : ℕ}
    (h : pending.findIdx? (·.peer = peer) = some i) :
    ∃ parked, pending[i]? = some parked ∧ parked.peer = peer := by
  obtain ⟨hi, hpeer, -⟩ := List.findIdx?_eq_some_iff_getElem.mp h
  exact ⟨pending[i], List.getElem?_eq_getElem hi, by simpa using hpeer⟩

theorem findIdx_no_peer {pending : List PendingConn} {peer : SocketAddr}
    (h : pending.findIdx? (·.peer = peer) = none) : ∀ p ∈ pending, p.peer ≠ peer := by
  simpa using List.findIdx?_eq_none_iff.mp h

theorem parkConclusion_parks (P : Primitives) (l : Listener) (hs : Handshake) (peer : SocketAddr)
    (now : Instant) (hok : (acceptCrypto P l.config.encryption hs).isOk) :
    (parkConclusion P { l with pending := l.swept now } hs peer now).deferred = l.deferred ∧
      Parks l peer now (some hs) (parkConclusion P { l with pending := l.swept now } hs peer now) := by
  unfold parkConclusion
  obtain ⟨km, hcrypto⟩ := exists_ok_of_isOk hok
  dsimp only
  rw [hcrypto]
  dsimp only
  cases hfind : (l.swept now).findIdx? (·.peer = peer) with
  | some i =>
    obtain ⟨parked, hget, hpeer⟩ := findIdx_peer hfind
    exact ⟨rfl, .refreshed hs i parked hget hpeer rfl rfl⟩
  | none => exact ⟨rfl, .parked hs (findIdx_no_peer hfind) rfl rfl⟩

theorem onConclusion_parks (P : Primitives) (l : Listener) (hs : Handshake) (peer : SocketAddr)
    (now : Instant) (hd : l.deferred = true) :
    (onConclusion P { l with pending := l.swept now } hs peer now).deferred = true ∧
      Parks l peer now
        (if l.cookieValid hs.synCookie peer now ∧ (acceptCrypto P l.config.encryption hs).isOk then some hs
          else none) (onConclusion P { l with pending := l.swept now } hs peer now) := by
  have hcookie : cookieValid { l with pending := l.swept now } hs.synCookie peer now
      = l.cookieValid hs.synCookie peer now := rfl
  unfold onConclusion
  rw [hcookie]
  by_cases hvalid : l.cookieValid hs.synCookie peer now
  · rw [if_neg (not_not.mpr hvalid), if_pos hd]
    by_cases hok : (acceptCrypto P l.config.encryption hs).isOk
    · rw [if_pos ⟨hvalid, hok⟩]
      obtain ⟨hdeferred, hparks⟩ := parkConclusion_parks P l hs peer now hok
      exact ⟨hdeferred.trans hd, hparks⟩
    · rw [if_neg fun h => hok h.2]
      unfold parkConclusion
      cases hcrypto : acceptCrypto P l.config.encryption hs with
      | error e =>
        obtain ⟨h1, h2, h3⟩ := respond_parked { l with pending := l.swept now } peer hs.srtSocketId
          (bareHandshake { l with pending := l.swept now } peer 0 (.rejection (rejectReason e)) 0) now
        exact ⟨h1.trans hd, .idle h2 h3⟩
      | ok km => simp [hcrypto, Except.isOk, Except.toBool] at hok
  · rw [if_pos hvalid, if_neg fun h => hvalid h.1]
    exact ⟨hd, .idle rfl rfl⟩

theorem feedRecvBuf_parks (P : Primitives) (l : Listener) (datagram : Bytes) (peer : SocketAddr)
    (now : Instant) (hd : l.deferred = true) :
    (l.feedRecvBuf P datagram peer now).deferred = true ∧
      Parks l peer now (l.concludedBy P datagram peer now) (l.feedRecvBuf P datagram peer now) := by
  have hsame : ({ l with pending := l.swept now } : Listener).deferred = true ∧
      Parks l peer now none { l with pending := l.swept now } := ⟨hd, .idle rfl rfl⟩
  unfold feedRecvBuf concludedBy
  dsimp only
  cases Packet.decode datagram with
  | error e => exact hsame
  | ok packet =>
    cases packet with
    | data d => exact hsame
    | control ctrl =>
      obtain ⟨timestamp, destSocketId, body⟩ := ctrl
      cases body with
      | handshake hs =>
        dsimp only
        by_cases hind : hs.handshakeType = .induction
        · have hnot : hs.handshakeType ≠ .conclusion := by rw [hind]; decide
          rw [if_pos hind, if_neg fun h => hnot h.1]
          obtain ⟨h1, h2, h3⟩ := respond_parked { l with pending := l.swept now } peer hs.srtSocketId
            (bareHandshake { l with pending := l.swept now } peer srtMagic .induction
              (cookie { l with pending := l.swept now } peer
                (quantum { l with pending := l.swept now } now))) now
          exact ⟨h1.trans hd, .idle h2 h3⟩
        · rw [if_neg hind]
          by_cases hconc : hs.handshakeType = .conclusion
          · simp only [hconc, if_true, true_and]
            exact onConclusion_parks P l hs peer now hd
          · rw [if_neg hconc, if_neg fun h => hconc h.1]
            exact hsame
      | _ => exact hsame

/-- What a decision takes out: the conclusion parked under the address, if there is one. -/
theorem acceptPending_takes (P : Primitives) (l : Listener) (remote : SocketAddr) (now : Instant) :
    (l.acceptPending P remote now).2.deferred = l.deferred ∧
      (l.acceptPending P remote now).2.requests = l.requests ∧
      ((∀ p ∈ l.pending, p.peer ≠ remote) ∧ l.acceptPending P remote now = (.error .invalidState, l) ∨
        ∃ parked, parked.peer = remote ∧ (parked :: (l.acceptPending P remote now).2.pending).Perm l.pending ∧
          ∃ id, (l.acceptPending P remote now).1 = Connection.accept P l.config id parked.conclusion now) := by
  unfold acceptPending
  cases hfind : l.pending.findIdx? (·.peer = remote) with
  | none => exact ⟨rfl, rfl, .inl ⟨findIdx_no_peer hfind, rfl⟩⟩
  | some i =>
    obtain ⟨parked, hget, hpeer⟩ := findIdx_peer hfind
    have hperm := swapRemove_perm hget
    dsimp only
    rw [hget]
    dsimp only
    cases hacc : Connection.accept P l.config
        (mintSocketId { l with pending := swapRemove l.pending i }).1 parked.conclusion now with
    | ok conn => exact ⟨rfl, rfl, .inr ⟨parked, hpeer, hperm, _, hacc.symm⟩⟩
    | error e =>
      obtain ⟨h1, h2, h3⟩ := respond_parked
        (mintSocketId { l with pending := swapRemove l.pending i }).2 parked.peer
        parked.conclusion.srtSocketId
        (bareHandshake (mintSocketId { l with pending := swapRemove l.pending i }).2 parked.peer 0
          (.rejection (rejectReason e)) 0) now
      have hpending := (List.Perm.of_eq (congrArg (parked :: ·) h2)).trans hperm
      exact ⟨h1, h3, .inr ⟨parked, hpeer, hpending, _, hacc.symm⟩⟩

theorem rejectPending_takes (l : Listener) (remote : SocketAddr) (reason : RejectReason) (now : Instant) :
    (l.rejectPending remote reason now).2.deferred = l.deferred ∧
      (l.rejectPending remote reason now).2.requests = l.requests ∧
      ((∀ p ∈ l.pending, p.peer ≠ remote) ∧ (l.rejectPending remote reason now).2 = l ∨
        ∃ parked, parked.peer = remote ∧
          (parked :: (l.rejectPending remote reason now).2.pending).Perm l.pending) := by
  unfold rejectPending
  cases hfind : l.pending.findIdx? (·.peer = remote) with
  | none => exact ⟨rfl, rfl, .inl ⟨findIdx_no_peer hfind, rfl⟩⟩
  | some i =>
    obtain ⟨parked, hget, hpeer⟩ := findIdx_peer hfind
    have hperm := swapRemove_perm hget
    dsimp only
    rw [hget]
    dsimp only
    obtain ⟨h1, h2, h3⟩ := respond_parked { l with pending := swapRemove l.pending i } parked.peer
      parked.conclusion.srtSocketId
      (bareHandshake { l with pending := swapRemove l.pending i } parked.peer 0 (.rejection reason) 0) now
    have hpending := (List.Perm.of_eq (congrArg (parked :: ·) h2)).trans hperm
    exact ⟨h1, h3, .inr ⟨parked, hpeer, hpending⟩⟩

end Listener

/-! ## A listener and its application -/

/-- A listener, the requests it has surfaced and the connections it has returned. -/
structure Desk where
  listener : Listener
  surfaced : List ConnRequest
  produced : List (SocketAddr × Connection)

inductive DeskCall
  | feedRecvBuf (datagram : Bytes) (peer : SocketAddr)
  | pollRequest
  | acceptPending (remote : SocketAddr)
  | rejectPending (remote : SocketAddr) (reason : RejectReason)
deriving DecidableEq, Repr

namespace Desk

def opened (l : Listener) : Desk := ⟨l, [], []⟩

def step (P : Primitives) (d : Desk) (input : DeskCall × Instant) : Desk :=
  match input.1 with
  | .feedRecvBuf datagram peer =>
    let l := d.listener.feedRecvBuf P datagram peer input.2
    { d with listener := l, surfaced := d.surfaced ++ l.requests.drop d.listener.requests.length }
  | .pollRequest => { d with listener := d.listener.pollRequest.2 }
  | .acceptPending remote =>
    let result := d.listener.acceptPending P remote input.2
    { d with
      listener := result.2
      produced := d.produced ++ result.1.toOption.toList.map fun conn => (remote, conn) }
  | .rejectPending remote reason =>
    { d with listener := (d.listener.rejectPending remote reason input.2).2 }

/-- The request most recently surfaced for an address. -/
def latest (d : Desk) (peer : SocketAddr) : Option ConnRequest :=
  (d.surfaced.filter fun r => r.remoteAddr = peer).getLast?

/-! ## Sample callers -/

def frontAddress : SocketAddr := ⟨.localhost, 5000⟩

/-- A listener that leaves decisions to the application. -/
def frontListener : Listener :=
  (Listener.new Config.default ⟨7⟩ (SeqNumber.new 0) 0 0).deferAccepts

/-- A conclusion from the sample address with a Stream ID of one letter. -/
def requestBytes (letter : UInt8) : Bytes :=
  let streamId := Utf8.fromBytes [letter]
  let hs := (Connection.newBase { Config.default with streamId } ⟨1⟩ (SeqNumber.new 0) 0 .caller
    .conclusion).conclusion
  (encodeControl ⟨0⟩ ⟨0⟩
    (.handshake { hs with synCookie := frontListener.cookie frontAddress 0 })).getD []

def requestFor (letter : UInt8) : DeskCall := .feedRecvBuf (requestBytes letter) frontAddress

/-! ## Stream IDs -/

/-- Every parked conclusion is the one its address's latest request describes. -/
structure Vouched (d : Desk) : Prop where
  deferred : d.listener.deferred = true
  described : ∀ p ∈ d.listener.pending,
    d.latest p.peer = some ⟨p.peer, Listener.requestedStream p.conclusion⟩

/-- A conclusion from an address that is parked carries the Stream ID of the one parked. -/
def KeepsStream (P : Primitives) (d : Desk) (input : DeskCall × Instant) : Prop :=
  match input.1 with
  | .feedRecvBuf datagram peer =>
    ∀ hs ∈ d.listener.concludedBy P datagram peer input.2, ∀ p ∈ d.listener.swept input.2,
      p.peer = peer → Listener.requestedStream hs = Listener.requestedStream p.conclusion
  | _ => True

instance (P : Primitives) (d : Desk) (input : DeskCall × Instant) : Decidable (d.KeepsStream P input) := by
  obtain ⟨call, now⟩ := input
  cases call <;> unfold KeepsStream <;> infer_instance

theorem Vouched.step {P : Primitives} {d : Desk} (h : d.Vouched) {input : DeskCall × Instant}
    (hk : d.KeepsStream P input) : (d.step P input).Vouched := by
  obtain ⟨call, now⟩ := input
  have hsub : ∀ {pending : List PendingConn}, (∀ p ∈ pending, p ∈ d.listener.pending) →
      ∀ p ∈ pending, d.latest p.peer = some ⟨p.peer, Listener.requestedStream p.conclusion⟩ :=
    fun hsub p hp => h.described p (hsub p hp)
  have hswept : ∀ p ∈ d.listener.swept now, p ∈ d.listener.pending :=
    fun p hp => List.mem_of_mem_filter hp
  cases call with
  | pollRequest => exact ⟨h.deferred, h.described⟩
  | acceptPending remote =>
    obtain ⟨hdeferred, -, hcase⟩ := d.listener.acceptPending_takes P remote now
    refine ⟨hdeferred.trans h.deferred, hsub ?_⟩
    intro p hp
    rcases hcase with ⟨-, he⟩ | ⟨parked, -, hperm, -⟩
    · exact congrArg (fun r => r.2.pending) he ▸ hp
    · exact hperm.subset (List.mem_cons_of_mem _ hp)
  | rejectPending remote reason =>
    obtain ⟨hdeferred, -, hcase⟩ := d.listener.rejectPending_takes remote reason now
    refine ⟨hdeferred.trans h.deferred, hsub ?_⟩
    intro p hp
    rcases hcase with ⟨-, he⟩ | ⟨parked, -, hperm⟩
    · exact he ▸ hp
    · exact hperm.subset (List.mem_cons_of_mem _ hp)
  | feedRecvBuf datagram peer =>
    obtain ⟨hdeferred, hparks⟩ := d.listener.feedRecvBuf_parks P datagram peer now h.deferred
    have hk : ∀ hs ∈ d.listener.concludedBy P datagram peer now, ∀ p ∈ d.listener.swept now,
        p.peer = peer → Listener.requestedStream hs = Listener.requestedStream p.conclusion := hk
    refine ⟨hdeferred, ?_⟩
    change ∀ p ∈ (d.listener.feedRecvBuf P datagram peer now).pending,
      ((d.surfaced ++ (d.listener.feedRecvBuf P datagram peer now).requests.drop
        d.listener.requests.length).filter fun r => r.remoteAddr = p.peer).getLast? = _
    generalize d.listener.concludedBy P datagram peer now = concluded at hparks hk
    generalize d.listener.feedRecvBuf P datagram peer now = l' at hparks ⊢
    cases hparks with
    | idle hpending hrequests =>
      rw [hpending, hrequests, List.drop_length, List.append_nil]
      exact hsub hswept
    | refreshed hs i old hi hold hpending hrequests =>
      rw [hpending, hrequests, List.drop_length, List.append_nil]
      intro p hp
      rcases List.mem_or_eq_of_mem_set hp with hp | rfl
      · exact hsub hswept p hp
      · have hmem := List.mem_of_getElem? hi
        have hdescribed := h.described old (hswept old hmem)
        rw [hold, ← hk hs rfl old hmem hold] at hdescribed
        exact hdescribed
    | parked hs hnew hpending hrequests =>
      rw [hpending, hrequests, List.drop_left]
      intro p hp
      rw [List.filter_append]
      rcases List.mem_append.mp hp with hp | hp
      · have hne : peer ≠ p.peer := fun he => hnew p hp he.symm
        simp only [List.filter_cons, hne, decide_false, Bool.false_eq_true, if_false, List.filter_nil,
          List.append_nil]
        exact hsub hswept p hp
      · rw [List.mem_singleton.mp hp]
        simp

/-- While no conclusion from a parked address changes the Stream ID, what `accept_pending` accepts
carries the Stream ID of the request most recently surfaced for the address. -/
theorem accepted_as_vetted (P : Primitives) (l : Listener) (hd : l.deferred = true) (hp : l.pending = [])
    (inputs : List (DeskCall × Instant))
    (hk : Runs.Meets (step P) (KeepsStream P) (opened l) inputs) (remote : SocketAddr) (now : Instant)
    (conn : Connection)
    (hok : ((Runs.run (step P) (opened l) inputs).listener.acceptPending P remote now).1 = .ok conn) :
    ∃ parked ∈ (Runs.run (step P) (opened l) inputs).listener.pending, parked.peer = remote ∧
      (∃ id, Connection.accept P (Runs.run (step P) (opened l) inputs).listener.config id
        parked.conclusion now = .ok conn) ∧
      (Runs.run (step P) (opened l) inputs).latest remote
        = some ⟨remote, Listener.requestedStream parked.conclusion⟩ := by
  have h0 : (opened l).Vouched := ⟨hd, by simp [opened, hp]⟩
  have hv : (Runs.run (step P) (opened l) inputs).Vouched :=
    Runs.invariant (fun _ _ h hk => h.step hk) h0 hk
  generalize Runs.run (step P) (opened l) inputs = d at hv hok ⊢
  obtain ⟨-, -, hcase⟩ := d.listener.acceptPending_takes P remote now
  rcases hcase with ⟨-, he⟩ | ⟨parked, hpeer, hperm, id, haccept⟩
  · rw [he] at hok
    exact absurd hok (by simp)
  · have hmem := hperm.subset List.mem_cons_self
    have hdescribed := hv.described parked hmem
    rw [hpeer] at hdescribed
    exact ⟨parked, hmem, hpeer, ⟨id, haccept.symm.trans hok⟩, hdescribed⟩

/-- A caller that retransmits its conclusion is accepted with the Stream ID it asked for. -/
theorem accepted_as_vetted_retransmitted :
    ∃ conn, ((Runs.run (step Primitives.absent) (opened frontListener)
        [(requestFor 97, 0), (requestFor 97, 250000000)]).listener.acceptPending Primitives.absent
          frontAddress 250000000).1 = .ok conn ∧
      ∃ parked ∈ (Runs.run (step Primitives.absent) (opened frontListener)
          [(requestFor 97, 0), (requestFor 97, 250000000)]).listener.pending, parked.peer = frontAddress ∧
        (∃ id, Connection.accept Primitives.absent (Runs.run (step Primitives.absent) (opened frontListener)
          [(requestFor 97, 0), (requestFor 97, 250000000)]).listener.config id parked.conclusion 250000000
            = .ok conn) ∧
        (Runs.run (step Primitives.absent) (opened frontListener)
          [(requestFor 97, 0), (requestFor 97, 250000000)]).latest frontAddress
          = some ⟨frontAddress, Listener.requestedStream parked.conclusion⟩ := by
  have hisOk : ((Runs.run (step Primitives.absent) (opened frontListener)
      [(requestFor 97, 0), (requestFor 97, 250000000)]).listener.acceptPending Primitives.absent
        frontAddress 250000000).1.isOk = true := by decide +kernel
  obtain ⟨conn, hconn⟩ := exists_ok_of_isOk hisOk
  exact ⟨conn, hconn, accepted_as_vetted Primitives.absent frontListener rfl rfl _ (by decide +kernel)
    frontAddress 250000000 conn hconn⟩

/-- A second conclusion from the address takes the place of the one that was surfaced, and is the one
accepted. -/
theorem accepted_other_stream :
    frontListener.deferred = true ∧ frontListener.pending = [] ∧
      ((Runs.run (step Primitives.absent) (opened frontListener)
        [(requestFor 97, 0), (.pollRequest, 0), (requestFor 98, 0)]).listener.acceptPending
          Primitives.absent frontAddress 0).1.isOk = true ∧
      (Runs.run (step Primitives.absent) (opened frontListener)
        [(requestFor 97, 0), (.pollRequest, 0), (requestFor 98, 0)]).listener.pending.map
          (fun p => (p.peer, Listener.requestedStream p.conclusion))
        = [(frontAddress, Utf8.fromBytes [98])] ∧
      (Runs.run (step Primitives.absent) (opened frontListener)
        [(requestFor 97, 0), (.pollRequest, 0), (requestFor 98, 0)]).latest frontAddress
        = some ⟨frontAddress, Utf8.fromBytes [97]⟩ ∧
      Utf8.fromBytes [97] ≠ Utf8.fromBytes [98] :=
  ⟨rfl, rfl, by decide +kernel, by decide +kernel, by decide +kernel, by decide +kernel⟩

/-! ## One request -/

/-- The feeds are copies of one datagram from one address. -/
def Copies (datagram : Bytes) (peer : SocketAddr) : DeskCall → Prop
  | .feedRecvBuf datagram' peer' => datagram' = datagram ∧ peer' = peer
  | _ => True

/-- A copy that arrives before any request was surfaced, or while the conclusion is parked. -/
def Undecided (d : Desk) (input : DeskCall × Instant) : Prop :=
  match input.1 with
  | .feedRecvBuf _ peer => d.surfaced = [] ∨ ∃ p ∈ d.listener.swept input.2, p.peer = peer
  | _ => True

instance (datagram : Bytes) (peer : SocketAddr) (call : DeskCall) : Decidable (Copies datagram peer call) := by
  cases call <;> unfold Copies <;> infer_instance

instance (d : Desk) (input : DeskCall × Instant) : Decidable (d.Undecided input) := by
  obtain ⟨call, now⟩ := input
  cases call <;> unfold Undecided <;> infer_instance

/-- The conclusions parked for an address and the connections made for it are covered by one request. -/
structure Single (peer : SocketAddr) (d : Desk) : Prop where
  deferred : d.listener.deferred = true
  surfaced : d.surfaced.length ≤ 1
  covered : d.listener.pending.countP (·.peer = peer) + d.produced.countP (·.1 = peer) ≤ d.surfaced.length

theorem Single.step {P : Primitives} {datagram : Bytes} {peer : SocketAddr} {d : Desk} (h : d.Single peer)
    {input : DeskCall × Instant} (hcopy : Copies datagram peer input.1) (hu : d.Undecided input) :
    (d.step P input).Single peer := by
  obtain ⟨call, now⟩ := input
  have hcovered := h.covered
  have hswept : (d.listener.swept now).countP (·.peer = peer) ≤ d.listener.pending.countP (·.peer = peer) :=
    List.Sublist.countP_le List.filter_sublist
  cases call with
  | pollRequest => exact ⟨h.deferred, h.surfaced, h.covered⟩
  | acceptPending remote =>
    obtain ⟨hdeferred, -, hcase⟩ := d.listener.acceptPending_takes P remote now
    refine ⟨hdeferred.trans h.deferred, h.surfaced, ?_⟩
    change (d.listener.acceptPending P remote now).2.pending.countP (·.peer = peer)
      + (d.produced ++ (d.listener.acceptPending P remote now).1.toOption.toList.map fun conn =>
        (remote, conn)).countP (·.1 = peer) ≤ d.surfaced.length
    rw [List.countP_append]
    rcases hcase with ⟨-, he⟩ | ⟨parked, hpeer, hperm, -⟩
    · rw [he]
      simpa [Except.toOption] using hcovered
    · have hcount := hperm.countP_eq (fun p => decide (p.peer = peer))
      rw [List.countP_cons, hpeer] at hcount
      have hone : (((d.listener.acceptPending P remote now).1.toOption.toList.map fun conn =>
          (remote, conn)).countP (·.1 = peer)) ≤ if remote = peer then 1 else 0 := by
        cases (d.listener.acceptPending P remote now).1.toOption <;> simp
      simp only [decide_eq_true_eq] at hcount
      omega
  | rejectPending remote reason =>
    obtain ⟨hdeferred, -, hcase⟩ := d.listener.rejectPending_takes remote reason now
    refine ⟨hdeferred.trans h.deferred, h.surfaced, ?_⟩
    change (d.listener.rejectPending remote reason now).2.pending.countP (·.peer = peer)
      + d.produced.countP (·.1 = peer) ≤ d.surfaced.length
    rcases hcase with ⟨-, he⟩ | ⟨parked, -, hperm⟩
    · rw [he]
      exact hcovered
    · have hcount := hperm.countP_eq (fun p => decide (p.peer = peer))
      rw [List.countP_cons] at hcount
      omega
  | feedRecvBuf datagram' peer' =>
    obtain ⟨rfl, rfl⟩ := hcopy
    obtain ⟨hdeferred, hparks⟩ := d.listener.feedRecvBuf_parks P datagram' peer' now h.deferred
    have hu : d.surfaced = [] ∨ ∃ p ∈ d.listener.swept now, p.peer = peer' := hu
    have hsurfaced := h.surfaced
    refine ⟨hdeferred, ?_, ?_⟩ <;> unfold Desk.step <;> dsimp only <;>
      generalize d.listener.feedRecvBuf P datagram' peer' now = l' at hparks ⊢ <;>
      generalize d.listener.concludedBy P datagram' peer' now = concluded at hparks <;> cases hparks
    case refine_1.idle hpending hrequests => simpa [hrequests] using hsurfaced
    case refine_1.refreshed hpending hrequests => simpa [hrequests] using hsurfaced
    case refine_1.parked hs hnew hpending hrequests =>
      have hnone : d.surfaced = [] := by
        refine hu.resolve_right ?_
        rintro ⟨p, hp, he⟩
        exact hnew p hp he
      simp [hrequests, hnone]
    case refine_2.idle hpending hrequests =>
      rw [hpending, hrequests, List.drop_length, List.append_nil]
      omega
    case refine_2.refreshed hs i old hi hold hpending hrequests =>
      have hlt := (List.getElem?_eq_some_iff.mp hi).1
      have hget := (List.getElem?_eq_some_iff.mp hi).2
      rw [hpending, hrequests, List.drop_length, List.append_nil, List.countP_set hlt, hget]
      have hpos : 0 < (d.listener.swept now).countP (·.peer = peer') :=
        List.countP_pos_iff.mpr ⟨old, List.mem_of_getElem? hi, by simpa using hold⟩
      simp only [hold, decide_true, if_true]
      omega
    case refine_2.parked hs hnew hpending hrequests =>
      have hnone : d.surfaced = [] := by
        refine hu.resolve_right ?_
        rintro ⟨p, hp, he⟩
        exact hnew p hp he
      rw [hnone, List.length_nil] at hcovered
      rw [hpending, hrequests, List.drop_left, hnone, List.countP_append]
      simp only [List.countP_singleton, decide_true, if_true, List.nil_append, List.length_singleton]
      omega

/-- While every copy of a conclusion arrives before it was surfaced or while it is parked, one request
is surfaced for it and one connection made from it, at most. -/
theorem one_request_per_conclusion (P : Primitives) (l : Listener) (datagram : Bytes) (peer : SocketAddr)
    (hd : l.deferred = true) (hp : ∀ p ∈ l.pending, p.peer ≠ peer) (inputs : List (DeskCall × Instant))
    (hm : Runs.Meets (step P) (fun d input => Copies datagram peer input.1 ∧ d.Undecided input)
      (opened l) inputs) :
    (Runs.run (step P) (opened l) inputs).surfaced.length ≤ 1 ∧
      (Runs.run (step P) (opened l) inputs).produced.countP (·.1 = peer) ≤ 1 := by
  have hnone : l.pending.countP (·.peer = peer) = 0 := by
    rw [List.countP_eq_zero]
    simpa using hp
  have h0 : (opened l).Single peer := ⟨hd, Nat.zero_le 1, by simp [opened, hnone]⟩
  have hs : (Runs.run (step P) (opened l) inputs).Single peer :=
    Runs.invariant (fun _ _ h hx => h.step hx.1 hx.2) h0 hm
  have hcovered := hs.covered
  have hsurfaced := hs.surfaced
  exact ⟨hsurfaced, by omega⟩

/-- A caller's conclusion, its retransmission, and the application's decision. -/
theorem one_request_retransmitted :
    (Runs.run (step Primitives.absent) (opened frontListener)
        [(requestFor 97, 0), (requestFor 97, 250000000), (.pollRequest, 250000000),
          (.acceptPending frontAddress, 300000000)]).surfaced.length ≤ 1 ∧
      (Runs.run (step Primitives.absent) (opened frontListener)
        [(requestFor 97, 0), (requestFor 97, 250000000), (.pollRequest, 250000000),
          (.acceptPending frontAddress, 300000000)]).produced.countP (·.1 = frontAddress) ≤ 1 :=
  one_request_per_conclusion Primitives.absent frontListener (requestBytes 97) frontAddress rfl
    (by decide +kernel) _ (by decide +kernel)

/-- A copy that arrives after the decision is a new request, and makes a second connection. -/
theorem two_requests_for_one_conclusion :
    frontListener.deferred = true ∧ frontListener.pending = [] ∧
      (frontListener.concludedBy Primitives.absent (requestBytes 97) frontAddress 250000000).isSome = true ∧
      (Runs.run (step Primitives.absent) (opened frontListener)
        [(requestFor 97, 0), (.acceptPending frontAddress, 0), (requestFor 97, 250000000),
          (.acceptPending frontAddress, 250000000)]).surfaced.map (·.remoteAddr)
        = [frontAddress, frontAddress] ∧
      (Runs.run (step Primitives.absent) (opened frontListener)
        [(requestFor 97, 0), (.acceptPending frontAddress, 0), (requestFor 97, 250000000),
          (.acceptPending frontAddress, 250000000)]).produced.map (·.1) = [frontAddress, frontAddress] :=
  ⟨rfl, rfl, by decide +kernel, by decide +kernel, by decide +kernel⟩

end Desk

end Srtrust
