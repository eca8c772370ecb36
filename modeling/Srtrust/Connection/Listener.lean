import Srtrust.Connection.Machine

/-! # The listener (`listener.rs`)

Answers inductions with a cookie that it does not have to remember, and turns a conclusion that
carries a valid cookie into a connection: at once, or in deferred mode when the application has
decided. Responses, connections and requests are queues that its embedder drains. -/
namespace Srtrust
open BigEndian
set_option autoImplicit false

inductive IpAddr
  | v4 (octets : Block 4)
  | v6 (octets : Block 16)
deriving DecidableEq, Repr

namespace IpAddr

def octets : IpAddr → Bytes
  | v4 o => o.bytes
  | v6 o => o.bytes

/-- `Ipv4Addr::LOCALHOST`. -/
def localhost : IpAddr := .v4 ⟨[127, 0, 0, 1], rfl⟩

end IpAddr

structure SocketAddr where
  ip : IpAddr
  port : UInt16
deriving DecidableEq, Repr

/-- `peer_ip`: an IPv4 address takes the first four bytes. -/
def peerIp (peer : SocketAddr) : Block 16 :=
  match peer.ip with
  | .v4 o => ⟨o.bytes ++ List.replicate 12 0, by simp [o.length_eq]⟩
  | .v6 o => o

/-! ## Cookies -/

def fnvOffset : UInt64 := 0xcbf29ce484222325
def fnvPrime : UInt64 := 0x00000100000001b3

def fnvMix (h : UInt64) (byte : UInt8) : UInt64 := (h ^^^ byte.toUInt64) * fnvPrime

/-- The big-endian bytes of a 64-bit count. -/
def quantumBytes (quantum : ℕ) : Bytes :=
  (List.range 8).map fun i => UInt8.ofNat (quantum / 256 ^ (7 - i))

/-- `syn_cookie`: FNV-1a over the address, the port and the minute, folded to 32 bits. -/
def synCookie (secret : UInt64) (peer : SocketAddr) (quantum : ℕ) : UInt32 :=
  let h := (peer.ip.octets ++ putU16 peer.port ++ quantumBytes quantum).foldl fnvMix (fnvOffset ^^^ secret)
  (h ^^^ (h >>> 32)).toUInt32

/-- `COOKIE_QUANTUM`, in seconds. -/
def cookieQuantum : ℕ := 60

/-- `PENDING_TTL`. -/
def pendingTtl : Duration := Duration.fromSecs 30

/-- `reject_reason`. -/
def rejectReason : ConnectionError → RejectReason
  | .crypto .missingKeyMaterial => .unsecure
  | .crypto .unexpectedKeyMaterial => .unsecure
  | .crypto _ => .badSecret
  | _ => .unknown

/-! ## State -/

/-- A conclusion that waits for the application's decision. -/
structure PendingConn where
  peer : SocketAddr
  conclusion : Handshake
  since : Instant

structure ConnRequest where
  remoteAddr : SocketAddr
  streamId : Option Utf8
deriving DecidableEq, Repr

structure Listener where
  config : Config
  localSocketId : SocketId
  localInitialSeq : SeqNumber
  cookieSecret : UInt64
  start : Instant
  responses : List (SocketAddr × Bytes)
  accepted : List Connection
  deferred : Bool
  pending : List PendingConn
  requests : List ConnRequest
  acceptCounter : UInt32

/-- `Vec::swap_remove`: the last element takes the place of the one removed. -/
def swapRemove {α : Type} (xs : List α) (i : ℕ) : List α :=
  match xs.getLast? with
  | some x => (xs.set i x).dropLast
  | none => []

theorem mem_of_mem_swapRemove {α : Type} {xs : List α} {i : ℕ} {x : α} (h : x ∈ swapRemove xs i) :
    x ∈ xs := by
  unfold swapRemove at h
  split at h
  · next y hy =>
    rcases List.mem_or_eq_of_mem_set (List.mem_of_mem_dropLast h) with h | rfl
    · exact h
    · exact List.mem_of_getLast? hy
  · simp at h

/-- Apart from the order, only the element named is gone. -/
theorem swapRemove_perm {α : Type} {xs : List α} {i : ℕ} {x : α} (h : xs[i]? = some x) :
    (x :: swapRemove xs i).Perm xs := by
  rcases List.eq_nil_or_concat' xs with rfl | ⟨ys, y, rfl⟩
  · simp at h
  · have hlast : swapRemove (ys ++ [y]) i = ((ys ++ [y]).set i y).dropLast := by simp [swapRemove]
    have hback := (List.perm_append_singleton y ys).symm
    rw [hlast]
    rcases Nat.lt_or_ge i ys.length with hlt | hge
    · rw [List.getElem?_append_left hlt, List.getElem?_eq_getElem hlt, Option.some.injEq] at h
      rw [List.set_append_left _ _ hlt, List.dropLast_concat, ← h]
      have hset := (List.set_perm_cons_eraseIdx hlt y).cons ys[i]
      have herase := (List.getElem_cons_eraseIdx_perm hlt).cons y
      exact ((hset.trans (List.Perm.swap _ _ _)).trans herase).trans hback
    · have hi : i = ys.length := by
        have := (List.getElem?_eq_some_iff.mp h).1
        simp only [List.length_append, List.length_singleton] at this
        omega
      rw [hi, List.getElem?_append_right (Nat.le_refl _), Nat.sub_self, List.getElem?_cons_zero,
        Option.some.injEq] at h
      rw [hi, List.set_append_right _ _ (Nat.le_refl _), Nat.sub_self, List.set_cons_zero,
        List.dropLast_concat, ← h]
      exact hback

namespace Listener

def new (config : Config) (localSocketId : SocketId) (localInitialSeq : SeqNumber)
    (cookieSecret : UInt64) (now : Instant) : Listener :=
  { config, localSocketId, localInitialSeq, cookieSecret, start := now, responses := [], accepted := []
    deferred := false, pending := [], requests := [], acceptCounter := 0 }

/-- The counter `mint_socket_id` stops at. -/
def mintLoop (localId : UInt32) : ℕ → UInt32 → UInt32
  | 0, counter => counter
  | fuel + 1, counter =>
    let id := localId ^^^ (counter + 1)
    if id ≠ 0 ∧ id ≠ localId then counter + 1 else mintLoop localId fuel (counter + 1)

/-- `mint_socket_id`: the listener's id with a counter mixed in. Two values of the counter are
skipped, so the loop turns three times at most. -/
def mintSocketId (l : Listener) : SocketId × Listener :=
  let counter := mintLoop l.localSocketId.value 3 l.acceptCounter
  (⟨l.localSocketId.value ^^^ counter⟩, { l with acceptCounter := counter })

def deferAccepts (l : Listener) : Listener := { l with deferred := true }

def quantum (l : Listener) (now : Instant) : ℕ :=
  Duration.asSecs (now.saturatingDurationSince l.start) / cookieQuantum

def cookie (l : Listener) (peer : SocketAddr) (q : ℕ) : UInt32 := synCookie l.cookieSecret peer q

/-- `cookie_valid`: this minute's cookie, or the last one's. -/
def cookieValid (l : Listener) (cookie : UInt32) (peer : SocketAddr) (now : Instant) : Bool :=
  let q := l.quantum now
  cookie = l.cookie peer q ∨ 0 < q ∧ cookie = l.cookie peer (q - 1)

def wireTs (l : Listener) (now : Instant) : Timestamp :=
  ⟨UInt32.ofNat (Duration.asMicros (now.saturatingDurationSince l.start))⟩

/-- Queues a handshake for a peer. One without extensions always encodes. -/
def respond (l : Listener) (peer : SocketAddr) (dest : SocketId) (hs : Handshake) (now : Instant) :
    Listener :=
  match encodeControl dest (l.wireTs now) (.handshake hs) with
  | some bytes => { l with responses := l.responses ++ [(peer, bytes)] }
  | none => l

/-- A handshake without extensions. -/
def bareHandshake (l : Listener) (peer : SocketAddr) (extensionField : UInt16)
    (handshakeType : HandshakeType) (synCookie : UInt32) : Handshake where
  version := hsVersionSrt
  encryption := .none
  extensionField := extensionField
  initialSeq := l.localInitialSeq
  mtu := l.config.mtu
  maxFlowWindow := l.config.flowWindow
  handshakeType := handshakeType
  srtSocketId := l.localSocketId
  synCookie := synCookie
  peerIp := peerIp peer
  extensions := []

/-- `on_induction`. -/
def onInduction (l : Listener) (request : Handshake) (peer : SocketAddr) (now : Instant) : Listener :=
  l.respond peer request.srtSocketId
    (l.bareHandshake peer srtMagic .induction (l.cookie peer (l.quantum now))) now

/-- `reject`. -/
def reject (l : Listener) (conclusion : Handshake) (peer : SocketAddr) (reason : RejectReason)
    (now : Instant) : Listener :=
  l.respond peer conclusion.srtSocketId (l.bareHandshake peer 0 (.rejection reason) 0) now

/-- The Stream ID a conclusion carries. -/
def requestedStream (conclusion : Handshake) : Option Utf8 :=
  conclusion.extensions.findSome? fun ext =>
    match ext with
    | .streamId id => some id
    | _ => none

/-- `park_conclusion`. -/
def parkConclusion (P : Primitives) (l : Listener) (conclusion : Handshake) (peer : SocketAddr)
    (now : Instant) : Listener :=
  match acceptCrypto P l.config.encryption conclusion with
  | .error e => l.reject conclusion peer (rejectReason e) now
  | .ok _ =>
    match l.pending.findIdx? (·.peer = peer) with
    | some i => { l with pending := l.pending.set i ⟨peer, conclusion, now⟩ }
    | none =>
      { l with
        pending := l.pending ++ [⟨peer, conclusion, now⟩]
        requests := l.requests ++ [⟨peer, requestedStream conclusion⟩] }

/-- `on_conclusion`: an invalid cookie earns no response. -/
def onConclusion (P : Primitives) (l : Listener) (conclusion : Handshake) (peer : SocketAddr)
    (now : Instant) : Listener :=
  if ¬ l.cookieValid conclusion.synCookie peer now then l
  else if l.deferred then l.parkConclusion P conclusion peer now
  else
    let minted := l.mintSocketId
    match Connection.accept P l.config minted.1 conclusion now with
    | .ok conn => { minted.2 with accepted := minted.2.accepted ++ [conn] }
    | .error e => minted.2.reject conclusion peer (rejectReason e) now

/-- `feed_recv_buf`: only inductions and conclusions matter. -/
def feedRecvBuf (P : Primitives) (l : Listener) (datagram : Bytes) (peer : SocketAddr) (now : Instant) :
    Listener :=
  let l := { l with pending := l.pending.filter fun p => now.saturatingDurationSince p.since < pendingTtl }
  match Packet.decode datagram with
  | .ok (.control { body := .handshake hs, .. }) =>
    if hs.handshakeType = .induction then l.onInduction hs peer now
    else if hs.handshakeType = .conclusion then l.onConclusion P hs peer now
    else l
  | _ => l

/-! ## Deferred decisions -/

/-- `accept_pending`: an error leaves a rejection for the caller behind. -/
def acceptPending (P : Primitives) (l : Listener) (remote : SocketAddr) (now : Instant) :
    Except ConnectionError Connection × Listener :=
  match l.pending.findIdx? (·.peer = remote) with
  | none => (.error .invalidState, l)
  | some i =>
    match l.pending[i]? with
    | none => (.error .invalidState, l)
    | some parked =>
      let minted := { l with pending := swapRemove l.pending i }.mintSocketId
      match Connection.accept P l.config minted.1 parked.conclusion now with
      | .ok conn => (.ok conn, minted.2)
      | .error e => (.error e, minted.2.reject parked.conclusion parked.peer (rejectReason e) now)

/-- `reject_pending`. -/
def rejectPending (l : Listener) (remote : SocketAddr) (reason : RejectReason) (now : Instant) :
    Bool × Listener :=
  match l.pending.findIdx? (·.peer = remote) with
  | none => (false, l)
  | some i =>
    match l.pending[i]? with
    | none => (false, l)
    | some parked =>
      (true, { l with pending := swapRemove l.pending i }.reject parked.conclusion parked.peer reason now)

/-- `poll_request`, `poll_response` and `poll_accept` take one entry off their queue. -/
def pollRequest (l : Listener) : Option ConnRequest × Listener :=
  (l.requests.head?, { l with requests := l.requests.tail })

def pollResponse (l : Listener) : Option (SocketAddr × Bytes) × Listener :=
  (l.responses.head?, { l with responses := l.responses.tail })

def pollAccept (l : Listener) : Option Connection × Listener :=
  (l.accepted.head?, { l with accepted := l.accepted.tail })

/-! ## Minted ids -/

/-- The counter after `n` ids have been minted: zero and the listener's own id are skipped. -/
def counterAt (localId n : ℕ) : ℕ := if 0 < localId ∧ localId ≤ n then n + 1 else n

@[simp] theorem counterAt_zero (localId : ℕ) : counterAt localId 0 = 0 := by
  unfold counterAt
  split_ifs <;> omega

theorem counterAt_lt (localId : ℕ) {i j : ℕ} (h : i < j) : counterAt localId i < counterAt localId j := by
  unfold counterAt
  split_ifs <;> omega

theorem counterAt_le (localId n : ℕ) : counterAt localId n ≤ n + 1 := by
  unfold counterAt
  split_ifs <;> omega

theorem xor_eq_left_iff (a b : UInt32) : a ^^^ b = a ↔ b = 0 := by
  have h := UInt32.xor_right_inj (a := b) (b := 0) (c := a)
  rwa [UInt32.xor_zero] at h

theorem mintLoop_succ (localId counter : UInt32) (fuel : ℕ) :
    mintLoop localId (fuel + 1) counter =
      if counter + 1 ≠ localId ∧ counter + 1 ≠ 0 then counter + 1
      else mintLoop localId fuel (counter + 1) := by
  rw [mintLoop]
  simp only [ne_eq, UInt32.xor_eq_zero_iff, xor_eq_left_iff]
  simp only [eq_comm]

/-- Minting moves the counter on by one place. -/
theorem mintLoop_counterAt (localId : UInt32) {n : ℕ} (h : n + 2 < 4294967296) :
    mintLoop localId 3 (UInt32.ofNat (counterAt localId.toNat n))
      = UInt32.ofNat (counterAt localId.toNat (n + 1)) := by
  have hle := counterAt_le localId.toNat n
  have hnext : ∀ k, UInt32.ofNat k + 1 = UInt32.ofNat (k + 1) := by
    intro k
    rw [UInt32.ofNat_add]
    rfl
  have hzero : ∀ k, 0 < k → k < 4294967296 → UInt32.ofNat k ≠ 0 := by
    intro k hpos hk he
    have hk' := congrArg UInt32.toNat he
    rw [UInt32.toNat_ofNat', Nat.mod_eq_of_lt hk, UInt32.toNat_zero] at hk'
    omega
  have hown : ∀ k, k < 4294967296 → (UInt32.ofNat k = localId ↔ k = localId.toNat) := by
    intro k hk
    rw [← UInt32.toNat_inj, UInt32.toNat_ofNat', Nat.mod_eq_of_lt hk]
  rw [mintLoop_succ, hnext]
  by_cases hskip : counterAt localId.toNat n + 1 = localId.toNat
  · have hn : counterAt localId.toNat n = n ∧ counterAt localId.toNat (n + 1) = n + 2 := by
      unfold counterAt at hskip ⊢
      split_ifs at hskip ⊢ <;> omega
    rw [hn.1] at hskip
    have hself : UInt32.ofNat (n + 1) = localId := (hown _ (by omega)).mpr hskip
    have hnot : UInt32.ofNat (n + 2) ≠ localId := fun he => by
      have := (hown _ h).mp he
      omega
    rw [hn.1, if_neg (fun hb => hb.1 hself), mintLoop_succ, hnext,
      if_pos ⟨hnot, hzero _ (by omega) h⟩, hn.2]
  · have hnot : UInt32.ofNat (counterAt localId.toNat n + 1) ≠ localId := fun he =>
      hskip ((hown _ (by omega)).mp he)
    rw [if_pos ⟨hnot, hzero _ (by omega) (by omega)⟩]
    congr 1
    unfold counterAt at hskip ⊢
    split_ifs at hskip ⊢ <;> omega

theorem mintLoop_ne_zero (localId counter : UInt32) : mintLoop localId 3 counter ≠ 0 := by
  have hstep : ∀ a : UInt32, a ≠ a + 1 ∧ a ≠ a + 1 + 1 := by
    intro a
    constructor <;> intro h <;> have := congrArg UInt32.toNat h <;>
      simp only [UInt32.toNat_add, UInt32.reduceToNat] at this <;> omega
  rw [mintLoop_succ, mintLoop_succ, mintLoop_succ]
  split_ifs with h1 h2 h3
  · exact h1.2
  · exact h2.2
  · exact h3.2
  · -- three successive values cannot all be among the two that are skipped
    have h12 := hstep (counter + 1)
    have h23 := hstep (counter + 1 + 1)
    grind

/-- A connection's id is never the listener's own. -/
theorem mintSocketId_ne (l : Listener) : l.mintSocketId.1 ≠ l.localSocketId := by
  intro h
  have hx := congrArg SocketId.value h
  exact mintLoop_ne_zero _ _ ((xor_eq_left_iff _ _).mp hx)

end Listener

end Srtrust
