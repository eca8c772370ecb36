import Srtrust.Crypto.Recorded
import Srtrust.Session.Introduction
import Srtrust.Session.Vetting

/-! # Requests and their answers

What becomes of a caller's request at a listener in deferred mode: how long it stands, which Stream
ID the application is shown, and what the caller makes of a rejection. -/
namespace Srtrust
open BigEndian
set_option autoImplicit false

/-! ## How long a request stands -/

/-- A decision on the conclusion parked for `remote`. -/
def DeskCall.Decides (remote : SocketAddr) : DeskCall → Prop
  | .acceptPending remote' => remote' = remote
  | .rejectPending remote' _ => remote' = remote
  | _ => False

namespace Desk

/-- A valid conclusion from `peer` came in at time `since`, and no decision on it was taken afterwards. -/
def Received (P : Primitives) (l : Listener) (inputs : List (DeskCall × Instant)) (peer : SocketAddr)
    (since : Instant) : Prop :=
  ∃ before datagram after, inputs = before ++ (.feedRecvBuf datagram peer, since) :: after ∧
    ((Runs.run (step P) (opened l) before).listener.concludedBy P datagram peer since).isSome = true ∧
    ∀ input ∈ after, ¬ input.1.Decides peer

variable {P : Primitives} {l : Listener} {inputs : List (DeskCall × Instant)} {peer : SocketAddr}
  {since : Instant}

theorem Received.concat (h : Received P l inputs peer since) {input : DeskCall × Instant}
    (hd : ¬ input.1.Decides peer) : Received P l (inputs ++ [input]) peer since := by
  obtain ⟨before, datagram, after, rfl, hvalid, hafter⟩ := h
  refine ⟨before, datagram, after ++ [input], by simp, hvalid, ?_⟩
  intro input' hinput
  rcases List.mem_append.mp hinput with h | h
  · exact hafter input' h
  · rw [List.mem_singleton.mp h]
    exact hd

end Desk

namespace Listener

/-- Parked conclusions come from different addresses, and each was received when it says. -/
structure Backed (received : SocketAddr → Instant → Prop) (l : Listener) : Prop where
  deferred : l.deferred = true
  nodup : (l.pending.map (·.peer)).Nodup
  received : ∀ p ∈ l.pending, received p.peer p.since

variable {received received' : SocketAddr → Instant → Prop} {l l' : Listener}

/-- A decision leaves nothing from its address behind. -/
theorem Backed.decided (h : l.Backed received) {remote : SocketAddr} (hdeferred : l'.deferred = l.deferred)
    (hcase : (∀ p ∈ l.pending, p.peer ≠ remote) ∧ l' = l ∨
      ∃ parked : PendingConn, parked.peer = remote ∧ (parked :: l'.pending).Perm l.pending)
    (hkeep : ∀ peer since, peer ≠ remote → received peer since → received' peer since) : l'.Backed received' := by
  suffices hp : (l'.pending.map (·.peer)).Nodup ∧ ∀ p ∈ l'.pending, received' p.peer p.since from
    ⟨hdeferred.trans h.deferred, hp.1, hp.2⟩
  rcases hcase with ⟨hnone, rfl⟩ | ⟨parked, rfl, hperm⟩
  · exact ⟨h.nodup, fun p hp => hkeep _ _ (hnone p hp) (h.received p hp)⟩
  · have hnodup := (hperm.map (·.peer)).nodup_iff.mpr h.nodup
    rw [List.map_cons, List.nodup_cons] at hnodup
    refine ⟨hnodup.2, fun p hp => hkeep _ _ ?_ (h.received p (hperm.subset (List.mem_cons_of_mem _ hp)))⟩
    intro he
    exact hnodup.1 (he ▸ List.mem_map_of_mem hp)

/-- A datagram parks or refreshes a conclusion received with it. -/
theorem Backed.fed (h : l.Backed received) {P : Primitives} {datagram : Bytes} {peer : SocketAddr}
    {now : Instant} (hkeep : ∀ peer since, received peer since → received' peer since)
    (hnew : (l.concludedBy P datagram peer now).isSome = true → received' peer now) :
    (l.feedRecvBuf P datagram peer now).Backed received' := by
  obtain ⟨hdeferred, hparks⟩ := l.feedRecvBuf_parks P datagram peer now h.deferred
  have hkept : ∀ p ∈ l.swept now, received' p.peer p.since :=
    fun p hp => hkeep _ _ (h.received p (List.mem_of_mem_filter hp))
  have hswept : ((l.swept now).map (·.peer)).Nodup := h.nodup.sublist (List.filter_sublist.map _)
  suffices hp : ((l.feedRecvBuf P datagram peer now).pending.map (·.peer)).Nodup ∧
      ∀ p ∈ (l.feedRecvBuf P datagram peer now).pending, received' p.peer p.since from ⟨hdeferred, hp.1, hp.2⟩
  clear hdeferred
  generalize l.concludedBy P datagram peer now = concluded at hparks hnew
  generalize l.feedRecvBuf P datagram peer now = l' at hparks ⊢
  cases hparks with
  | idle hpending _ =>
    rw [hpending]
    exact ⟨hswept, hkept⟩
  | refreshed hs i old hi hold hpending _ =>
    obtain ⟨hlt, hget⟩ := List.getElem?_eq_some_iff.mp hi
    have hpeers : ((l.swept now).set i ⟨peer, hs, now⟩).map (·.peer) = (l.swept now).map (·.peer) := by
      rw [List.map_set]
      apply List.ext_getElem?
      intro j
      rw [List.getElem?_set]
      split
      · next hij => simp [← hij, hlt, hget, hold]
      · rfl
    rw [hpending, hpeers]
    refine ⟨hswept, fun p hp => ?_⟩
    rcases List.mem_or_eq_of_mem_set hp with hp | rfl
    · exact hkept p hp
    · exact hnew rfl
  | parked hs hfresh hpending _ =>
    rw [hpending, List.map_append]
    refine ⟨hswept.append (List.nodup_singleton _) (by simpa using hfresh), fun p hp => ?_⟩
    rcases List.mem_append.mp hp with hp | hp
    · exact hkept p hp
    · rw [List.mem_singleton.mp hp]
      exact hnew rfl

end Listener

namespace Desk
variable {P : Primitives} {l : Listener}

theorem run_backed (hd : l.deferred = true) (hp : l.pending = []) (inputs : List (DeskCall × Instant)) :
    (Runs.run (step P) (opened l) inputs).listener.Backed (Received P l inputs) := by
  induction inputs using List.reverseRecOn with
  | nil => exact ⟨hd, by simp [opened, hp], by simp [opened, hp]⟩
  | append_singleton inputs input ih =>
    rw [Runs.run_append]
    obtain ⟨call, now⟩ := input
    have hkeep {call : DeskCall} {remote : SocketAddr}
        (hd : ∀ peer, peer ≠ remote → ¬ call.Decides peer) (peer : SocketAddr) (since : Instant)
        (hne : peer ≠ remote) (h : Received P l inputs peer since) :
        Received P l (inputs ++ [(call, now)]) peer since := h.concat (hd peer hne)
    cases call with
    | pollRequest => exact ⟨ih.deferred, ih.nodup, fun p hp => (ih.received p hp).concat id⟩
    | acceptPending remote =>
      obtain ⟨hdeferred, -, hcase⟩ :=
        (Runs.run (step P) (opened l) inputs).listener.acceptPending_takes P remote now
      refine ih.decided hdeferred (hcase.imp (fun h => ⟨h.1, congrArg Prod.snd h.2⟩) ?_)
        (hkeep fun peer hne => Ne.symm hne)
      rintro ⟨parked, hpeer, hperm, -⟩
      exact ⟨parked, hpeer, hperm⟩
    | rejectPending remote reason =>
      obtain ⟨hdeferred, -, hcase⟩ :=
        (Runs.run (step P) (opened l) inputs).listener.rejectPending_takes remote reason now
      exact ih.decided hdeferred hcase (hkeep fun peer hne => Ne.symm hne)
    | feedRecvBuf datagram peer =>
      exact ih.fed (fun _ _ h => h.concat id) fun hsome => ⟨inputs, datagram, [], rfl, hsome, by simp⟩

/-- A valid conclusion came in less than 30 s ago and is undecided. -/
def Standing (P : Primitives) (l : Listener) (inputs : List (DeskCall × Instant)) (remote : SocketAddr)
    (now : Instant) : Prop :=
  ∃ since, Received P l inputs remote since ∧ now.saturatingDurationSince since < pendingTtl

/-- While nothing that is parked for the address has outlived the 30 s, `accept_pending` makes a connection
only from a request that stands, and without one it changes nothing. -/
theorem accepted_while_standing (P : Primitives) (l : Listener) (hd : l.deferred = true) (hp : l.pending = [])
    (inputs : List (DeskCall × Instant)) (remote : SocketAddr) (now : Instant)
    (hyoung : ∀ p ∈ (Runs.run (step P) (opened l) inputs).listener.pending, p.peer = remote →
      now.saturatingDurationSince p.since < pendingTtl) :
    (∀ conn, ((Runs.run (step P) (opened l) inputs).listener.acceptPending P remote now).1 = .ok conn →
        Standing P l inputs remote now) ∧
      (¬ Standing P l inputs remote now →
        (Runs.run (step P) (opened l) inputs).listener.acceptPending P remote now
          = (.error .invalidState, (Runs.run (step P) (opened l) inputs).listener)) := by
  have hbacked := run_backed (P := P) hd hp inputs
  obtain ⟨-, -, hcase⟩ := (Runs.run (step P) (opened l) inputs).listener.acceptPending_takes P remote now
  rcases hcase with ⟨-, he⟩ | ⟨parked, hpeer, hperm, -⟩
  · refine ⟨fun conn hok => ?_, fun _ => he⟩
    rw [he] at hok
    simp at hok
  · have hmem := hperm.subset List.mem_cons_self
    have hstanding : Standing P l inputs remote now :=
      ⟨parked.since, hpeer ▸ hbacked.received parked hmem, hyoung parked hmem hpeer⟩
    exact ⟨fun _ _ => hstanding, fun hn => absurd hstanding hn⟩

/-- A request accepted a quarter of a second after it came in. -/
theorem accepted_while_standing_soon :
    ∃ conn, ((Runs.run (step Primitives.absent) (opened frontListener) [(requestFor 97, 0)]).listener.acceptPending
        Primitives.absent frontAddress 250000000).1 = .ok conn ∧
      Standing Primitives.absent frontListener [(requestFor 97, 0)] frontAddress 250000000 := by
  have hisOk : ((Runs.run (step Primitives.absent) (opened frontListener)
      [(requestFor 97, 0)]).listener.acceptPending Primitives.absent frontAddress 250000000).1.isOk = true := by
    decide +kernel
  obtain ⟨conn, hconn⟩ := exists_ok_of_isOk hisOk
  exact ⟨conn, hconn, (accepted_while_standing Primitives.absent frontListener rfl rfl _ frontAddress 250000000
    (by decide +kernel)).1 conn hconn⟩

/-- With no datagram to sweep it out, a request is accepted an hour after its only conclusion. -/
theorem accepted_after_expiry :
    frontListener.deferred = true ∧ frontListener.pending = [] ∧
      ((Runs.run (step Primitives.absent) (opened frontListener) [(requestFor 97, 0)]).listener.acceptPending
        Primitives.absent frontAddress 3600000000000).1.isOk = true ∧
      ¬ Standing Primitives.absent frontListener [(requestFor 97, 0)] frontAddress 3600000000000 := by
  refine ⟨rfl, rfl, by decide +kernel, ?_⟩
  rintro ⟨since, ⟨before, datagram, after, hinputs, -, -⟩, hage⟩
  have hmem : ((.feedRecvBuf datagram frontAddress, since) : DeskCall × Instant) ∈ [(requestFor 97, 0)] := by
    rw [hinputs]
    simp
  have hsince : since = 0 := congrArg Prod.snd (List.mem_singleton.mp hmem)
  rw [hsince] at hage
  revert hage
  decide

end Desk

/-! ## Stream IDs -/

theorem Connection.requestedStream_conclusion (c : Connection) :
    Listener.requestedStream c.conclusion = c.config.streamId := by
  unfold conclusion Listener.requestedStream
  cases hsid : c.config.streamId with
  | some s => rfl
  | none =>
    dsimp only
    split <;> rfl

theorem encodeControl_handshake_isSome (dest : SocketId) (timestamp : Timestamp) (hs : Handshake) :
    (encodeControl dest timestamp (.handshake hs)).isSome ↔ ∀ e ∈ hs.extensions, e.encode.isSome := by
  rw [← Handshake.encode_isSome]
  change (hs.encode.bind fun cif => some _).isSome ↔ _
  cases hs.encode <;> simp

/-- A conclusion can be encoded unless its Stream ID is too long. -/
theorem Connection.Draws.encodes {P : Primitives} {c : Connection} (h : c.Draws P) {s : Utf8}
    (hsid : c.config.streamId = some s) (now : Instant) :
    (encodeControl ⟨0⟩ (c.wireTs now) (.handshake c.conclusion)).isSome ↔ s.bytes.length ≤ 262140 := by
  rw [encodeControl_handshake_isSome, ← Handshake.encode_streamId_isSome]
  refine ⟨fun hall => hall _ (mem_conclusion_streamId hsid), fun hs e he => ?_⟩
  rcases h.conforming_or he with hconforms | ⟨s', hs', rfl⟩
  · obtain ⟨_, _, -, -, henc, -⟩ := Handshake.encode_extension e hconforms
    rw [henc]
    rfl
  · rw [hsid] at hs'
    exact Option.some.inj hs' ▸ hs

/-- A valid conclusion from an address that is not parked becomes a request. -/
theorem Listener.feedRecvBuf_surfaces {P : Primitives} {l : Listener} {datagram : Bytes} {ctrl : ControlPacket}
    {hs : Handshake} {peer : SocketAddr} {now : Instant} (hd : l.deferred = true)
    (hdecode : Packet.decode datagram = .ok (.control ctrl)) (hbody : ctrl.body = .handshake hs)
    (htype : hs.handshakeType = .conclusion) (hcookie : l.cookieValid hs.synCookie peer now = true)
    (hcrypto : (acceptCrypto P l.config.encryption hs).isOk = true) (hnew : ∀ p ∈ l.swept now, p.peer ≠ peer) :
    (l.feedRecvBuf P datagram peer now).requests = l.requests ++ [⟨peer, requestedStream hs⟩] := by
  have hconcluded : l.concludedBy P datagram peer now = some hs := by
    obtain ⟨timestamp, dest, body⟩ := ctrl
    obtain rfl : body = .handshake hs := hbody
    unfold concludedBy
    rw [hdecode]
    exact if_pos ⟨htype, hcookie, hcrypto⟩
  obtain ⟨-, hparks⟩ := l.feedRecvBuf_parks P datagram peer now hd
  rw [hconcluded] at hparks
  cases hparks with
  | refreshed _ i old hi hold _ _ => exact absurd hold (hnew old (List.mem_of_getElem? hi))
  | parked _ _ _ hrequests => exact hrequests

theorem Listener.mem_of_requestedStream {hs : Handshake} {s : Utf8} (h : requestedStream hs = some s) :
    .streamId s ∈ hs.extensions := by
  obtain ⟨ext, hmem, hext⟩ := List.exists_of_findSome?_eq_some h
  cases ext with
  | streamId s' =>
    obtain rfl := Option.some.inj hext
    exact hmem
  | hsReq _ => cases hext
  | hsRsp _ => cases hext
  | raw _ _ => cases hext

/-- A Stream ID that is surfaced came out of the decoder, which reads no more than 65535 words and trims zeros. -/
theorem Listener.surfaced_conforming {P : Primitives} {l : Listener} {datagram : Bytes} {peer : SocketAddr}
    {now : Instant} {s : Utf8} (hd : l.deferred = true)
    (h : (l.feedRecvBuf P datagram peer now).requests = l.requests ++ [⟨peer, some s⟩]) :
    s.bytes.length ≤ 262140 ∧ s.bytes.getLast? ≠ some 0 := by
  obtain ⟨-, hparks⟩ := l.feedRecvBuf_parks P datagram peer now hd
  have hsilent : (l.feedRecvBuf P datagram peer now).requests ≠ l.requests := by
    rw [h]
    simp
  generalize hconcluded : l.concludedBy P datagram peer now = concluded at hparks
  cases hparks with
  | idle _ hrequests => exact absurd hrequests hsilent
  | refreshed _ _ _ _ _ _ hrequests => exact absurd hrequests hsilent
  | parked hs _ _ hrequests =>
    obtain ⟨ctrl, hdecode, hbody⟩ := concludedBy_decodes hconcluded
    have hstream : requestedStream hs = some s := by
      have hsame := List.append_cancel_left (hrequests.symm.trans h)
      exact congrArg ConnRequest.streamId (List.cons.inj hsame).1
    have hconforming : ctrl.body.Conforming := Packet.conforming_of_decode hdecode
    rw [hbody] at hconforming
    obtain ⟨hlen, hlast⟩ := hconforming _ (mem_of_requestedStream hstream)
    exact ⟨by omega, hlast⟩

/-- What a caller makes of the step into `Conclusion`: its conclusion, or a panic. -/
theorem Calling.concluded {P : Primitives} {c₀ : Connection} (hcalls : c₀.Calls P) {before after : Session}
    (hcalling : Calling c₀ before) {input : Call × Instant} (hafter : after = before.step P input)
    (hinduction : before.conn.link.state = .induction) (hconclusion : after.conn.link.state = .conclusion) :
    ∃ c : Connection, c.Draws P ∧ c.config = c₀.config ∧ after.conn.conclusion = c.conclusion ∧
      (encodeControl ⟨0⟩ (c.wireTs input.2) (.handshake c.conclusion) = none ∧
          after.conn.trace = before.conn.trace ++ [.panicked] ∨
        ∃ datagram, encodeControl ⟨0⟩ (c.wireTs input.2) (.handshake c.conclusion) = some datagram ∧
          after.conn.trace = before.conn.trace ∧ after.emitted = before.emitted ++ [datagram]) := by
  obtain ⟨reply, hperform⟩ := hcalling.concludes hinduction (hafter ▸ hconclusion)
  have hnot : ¬ before.conn.Established := by simp [Connection.Established, hinduction]
  have hframe := Connection.enterConclusion_frame before.conn reply
  have hself : (before.conn.enterConclusion reply).ident = c₀.ident := hframe.1.trans hcalling.ident
  have hout : (before.conn.enterConclusion reply).outputs = [] := hframe.2.2.2.trans hcalling.tells.outputs
  have hconn : after.conn = { before.conn.perform P input.1 input.2 with outputs := [] } := by
    rw [hafter]
    rfl
  have hemitted : after.emitted
      = before.emitted ++ Session.datagrams (before.conn.perform P input.1 input.2).outputs := by
    rw [hafter]
    rfl
  refine ⟨before.conn.enterConclusion reply, hcalls.draws.of_eq hself (hframe.2.1.trans (hcalling.opening hnot).2),
    congrArg (·.1) hself, ?_⟩
  rw [hperform, Connection.sendConclusion, Connection.emitHandshake] at hconn hemitted
  cases henc : encodeControl ⟨0⟩ ((before.conn.enterConclusion reply).wireTs input.2)
      (.handshake (before.conn.enterConclusion reply).conclusion) with
  | none =>
    rw [henc] at hconn
    rw [hconn]
    exact ⟨rfl, .inl ⟨rfl, rfl⟩⟩
  | some datagram =>
    rw [henc] at hconn hemitted
    rw [hconn]
    refine ⟨rfl, .inr ⟨datagram, rfl, rfl, ?_⟩⟩
    rw [hemitted]
    simp [Connection.output, hout, Session.datagrams]

/-- The conclusion of a caller is built, without a panic, exactly if its Stream ID has at most 262140 bytes; and
a listener that takes its cookie and its keys, and does not hold one from the address already, shows the
application this Stream ID exactly if, in addition, it does not end in NUL. -/
theorem streamId_surfaced_iff (P : Primitives) (config : Config) (s : Utf8) (hsid : config.streamId = some s)
    (localSocketId : SocketId) (initialSeq : SeqNumber) (salt : Block 16) (sek : (n : ℕ) → Block n) (start : Instant)
    (inputs : List (Call × Instant)) (input : Call × Instant) (before after : Session)
    (hbefore : before = Runs.run (Session.step P) (Session.start
      (Connection.connect P config localSocketId initialSeq start salt sek) start) inputs)
    (hafter : after = before.step P input) (hinduction : before.conn.link.state = .induction)
    (hconclusion : after.conn.link.state = .conclusion) :
    ((after.conn.trace = before.conn.trace ∧ ∃ datagram, after.emitted = before.emitted ++ [datagram]) ↔
        s.bytes.length ≤ 262140) ∧
      ∀ (l : Listener) (peer : SocketAddr) (now : Instant), l.deferred = true →
        (∀ p ∈ l.swept now, p.peer ≠ peer) → l.cookieValid after.conn.link.synCookie peer now = true →
        (acceptCrypto P l.config.encryption after.conn.conclusion).isOk = true →
          ((after.conn.trace = before.conn.trace ∧ ∃ datagram, after.emitted = before.emitted ++ [datagram] ∧
              (l.feedRecvBuf P datagram peer now).requests = l.requests ++ [⟨peer, some s⟩]) ↔
            s.bytes.length ≤ 262140 ∧ s.bytes.getLast? ≠ some 0) := by
  have hcalls := Connection.connect_calls P config localSocketId initialSeq start salt sek
  have hident := Connection.connect_ident P config localSocketId initialSeq start salt sek
  generalize Connection.connect P config localSocketId initialSeq start salt sek = c₀ at hbefore hcalls hident
  have hcalling : Calling c₀ before := hbefore ▸ hcalls.run_calling start inputs
  obtain ⟨c, hdraws, hconfig, hsame, hcase⟩ :=
    hcalling.concluded hcalls hafter hinduction hconclusion
  have hown : c.config.streamId = some s := by
    rw [hconfig, show c₀.config = config from congrArg (·.1) hident]
    exact hsid
  have hencodes := hdraws.encodes hown input.2
  rcases hcase with ⟨hnone, hpanics⟩ | ⟨datagram, hsome, htrace, hemitted⟩
  · -- the conclusion is not built
    rw [hnone] at hencodes
    have hlong : ¬ s.bytes.length ≤ 262140 := fun h => absurd (hencodes.mpr h) (by simp)
    have hloud : after.conn.trace ≠ before.conn.trace := by
      rw [hpanics]
      simp
    exact ⟨iff_of_false (fun h => hloud h.1) hlong,
      fun _ _ _ _ _ _ _ => iff_of_false (fun h => hloud h.1) fun h => hlong h.1⟩
  · have hshort : s.bytes.length ≤ 262140 := hencodes.mp (by rw [hsome]; rfl)
    refine ⟨iff_of_true ⟨htrace, datagram, hemitted⟩ hshort, fun l peer now hd hnew hcookie hcrypto => ⟨?_, ?_⟩⟩
    · rintro ⟨-, _, -, hrequests⟩
      exact Listener.surfaced_conforming hd hrequests
    · rintro ⟨-, hlast⟩
      have hconforming := hdraws.conforming fun s' hs' => by
        obtain rfl : s' = s := Option.some.inj (hs'.symm.trans hown)
        exact ⟨by omega, hlast⟩
      obtain ⟨bytes, henc, hdecode⟩ := Packet.decode_encode
        (.control ⟨c.wireTs input.2, ⟨0⟩, .handshake c.conclusion⟩) hconforming
      obtain rfl : bytes = datagram := Option.some.inj (henc.symm.trans hsome)
      refine ⟨htrace, bytes, hemitted, ?_⟩
      have hcookie : l.cookieValid c.conclusion.synCookie peer now = true := by
        rw [← hsame]
        exact hcookie
      rw [Listener.feedRecvBuf_surfaces hd hdecode rfl rfl hcookie (hsame ▸ hcrypto) hnew,
        Connection.requestedStream_conclusion, hown]

/-- A caller of the sample listener. -/
def frontCall (P : Primitives) (config : Config) : Session :=
  Session.start (Connection.connect P config ⟨1⟩ (SeqNumber.new 0) 0 Recorded.salt
    (Recorded.pad (Recorded.sek 0))) 0

/-- The listener's answer to its induction. -/
def frontReply : Bytes :=
  (((frontCall Primitives.absent Config.default).emitted.flatMap fun datagram =>
    (Desk.frontListener.feedRecvBuf Primitives.absent datagram Desk.frontAddress 0).responses).map
      Prod.snd).flatten

/-- The caller when it has that answer. -/
def frontConclusion (P : Primitives) (config : Config) : Session :=
  (frontCall P config).step P (.feedRecvBuf frontReply, 0)

/-- A configuration with a Stream ID. -/
def streamConfig (s : Utf8) : Config := { Config.default with streamId := some s }

/-- A Stream ID of one letter arrives, and one that ends in NUL does not. -/
theorem streamId_surfaced_letter :
    (∃ datagram, (frontConclusion Primitives.absent (streamConfig ⟨[97], rfl⟩)).emitted
        = (frontCall Primitives.absent (streamConfig ⟨[97], rfl⟩)).emitted ++ [datagram] ∧
      (Desk.frontListener.feedRecvBuf Primitives.absent datagram Desk.frontAddress 0).requests
        = Desk.frontListener.requests ++ [⟨Desk.frontAddress, some ⟨[97], rfl⟩⟩]) ∧
    ¬ ∃ datagram, (frontConclusion Primitives.absent (streamConfig ⟨[97, 0], rfl⟩)).emitted
        = (frontCall Primitives.absent (streamConfig ⟨[97, 0], rfl⟩)).emitted ++ [datagram] ∧
      (Desk.frontListener.feedRecvBuf Primitives.absent datagram Desk.frontAddress 0).requests
        = Desk.frontListener.requests ++ [⟨Desk.frontAddress, some ⟨[97, 0], rfl⟩⟩] := by
  obtain ⟨-, hletter⟩ := streamId_surfaced_iff Primitives.absent (streamConfig ⟨[97], rfl⟩) ⟨[97], rfl⟩ rfl ⟨1⟩
    (SeqNumber.new 0) Recorded.salt (Recorded.pad (Recorded.sek 0)) 0 [] (.feedRecvBuf frontReply, 0)
    (frontCall Primitives.absent (streamConfig ⟨[97], rfl⟩))
    (frontConclusion Primitives.absent (streamConfig ⟨[97], rfl⟩)) rfl rfl (by decide +kernel) (by decide +kernel)
  obtain ⟨⟨-, hbuilt⟩, hnul⟩ := streamId_surfaced_iff Primitives.absent (streamConfig ⟨[97, 0], rfl⟩) ⟨[97, 0], rfl⟩ rfl
    ⟨1⟩ (SeqNumber.new 0) Recorded.salt (Recorded.pad (Recorded.sek 0)) 0 [] (.feedRecvBuf frontReply, 0)
    (frontCall Primitives.absent (streamConfig ⟨[97, 0], rfl⟩))
    (frontConclusion Primitives.absent (streamConfig ⟨[97, 0], rfl⟩)) rfl rfl (by decide +kernel) (by decide +kernel)
  have hletter := hletter Desk.frontListener Desk.frontAddress 0 rfl (by decide +kernel) (by decide +kernel)
    (by decide +kernel)
  have hnul := hnul Desk.frontListener Desk.frontAddress 0 rfl (by decide +kernel) (by decide +kernel)
    (by decide +kernel)
  refine ⟨(hletter.mpr ⟨by decide, by decide⟩).2, fun h => ?_⟩
  exact absurd (hnul.mp ⟨(hbuilt (by decide)).1, h⟩).2 (by decide)

/-- A NUL at the end of the Stream ID is taken for padding. -/
theorem streamId_cut :
    (streamConfig ⟨[97, 0], rfl⟩).validate = .ok () ∧
      (frontConclusion Primitives.absent (streamConfig ⟨[97, 0], rfl⟩)).conn.link.state = .conclusion ∧
      ((frontConclusion Primitives.absent (streamConfig ⟨[97, 0], rfl⟩)).emitted.drop 1).flatMap (fun datagram =>
          (Desk.frontListener.feedRecvBuf Primitives.absent datagram Desk.frontAddress 0).requests)
        = [⟨Desk.frontAddress, some ⟨[97], rfl⟩⟩] ∧
      (⟨[97], rfl⟩ : Utf8) ≠ ⟨[97, 0], rfl⟩ :=
  ⟨by decide +kernel, by decide +kernel, by decide +kernel, by decide⟩

/-! ## Rejections -/

namespace Listener

theorem reject_responds (l : Listener) (conclusion : Handshake) (peer : SocketAddr) (reason : RejectReason)
    (now : Instant) :
    ∃ datagram ctrl, (l.reject conclusion peer reason now).responses = l.responses ++ [(peer, datagram)] ∧
      Packet.decode datagram = .ok (.control ctrl) ∧
      ctrl.body = .handshake (l.bareHandshake peer 0 (.rejection reason) 0) := by
  obtain ⟨bytes, henc, hdec⟩ := Packet.decode_encode
    (.control ⟨l.wireTs now, conclusion.srtSocketId, .handshake (l.bareHandshake peer 0 (.rejection reason) 0)⟩)
    (fun e he => absurd he (List.not_mem_nil))
  refine ⟨bytes, _, ?_, hdec, rfl⟩
  unfold reject respond
  rw [show encodeControl _ _ _ = some bytes from henc]

/-- `reject_pending` answers with one datagram, which says what it was told to. -/
theorem rejectPending_responds {l : Listener} {remote : SocketAddr} {p : PendingConn}
    (hp : p ∈ l.pending) (hpeer : p.peer = remote) (reason : RejectReason) (now : Instant) :
    (l.rejectPending remote reason now).1 = true ∧
      ∃ datagram ctrl, (l.rejectPending remote reason now).2.responses = l.responses ++ [(remote, datagram)] ∧
        Packet.decode datagram = .ok (.control ctrl) ∧
        ctrl.body = .handshake (l.bareHandshake remote 0 (.rejection reason) 0) := by
  unfold rejectPending
  cases hfind : l.pending.findIdx? (·.peer = remote) with
  | none => exact absurd hpeer (findIdx_no_peer hfind p hp)
  | some i =>
    obtain ⟨parked, hget, hremote⟩ := findIdx_peer hfind
    dsimp only
    rw [hget]
    dsimp only
    rw [hremote]
    exact ⟨rfl, reject_responds { l with pending := swapRemove l.pending i } _ remote reason now⟩

end Listener

/-- A caller that waits for its conclusion response fails on a handshake that rejects it. -/
theorem Connection.feedRecvBuf_rejection {P : Primitives} {c : Connection} {datagram : Bytes}
    {ctrl : ControlPacket} {hs : Handshake} {reason : RejectReason} (now : Instant)
    (hstate : c.link.state = .conclusion) (hdecode : Packet.decode datagram = .ok (.control ctrl))
    (hbody : ctrl.body = .handshake hs) (hreason : hs.handshakeType.rejectReason = some reason) :
    c.feedRecvBuf P datagram now
      = (c.fail.output (.clearTimer .handshake)).event (.failed (.rejected reason)) := by
  obtain ⟨timestamp, dest, body⟩ := ctrl
  obtain rfl : body = .handshake hs := hbody
  unfold feedRecvBuf
  rw [hdecode]
  dsimp only
  rw [hstate]
  dsimp only [onHandshakePacket]
  rw [hreason]

/-- On any other handshake it goes on waiting, or connects. -/
theorem Connection.feedRecvBuf_unrejected {P : Primitives} {c : Connection} {datagram : Bytes}
    {ctrl : ControlPacket} {hs : Handshake} (now : Instant) (hstate : c.link.state = .conclusion)
    (hdecode : Packet.decode datagram = .ok (.control ctrl)) (hbody : ctrl.body = .handshake hs)
    (hreason : hs.handshakeType.rejectReason = none) : (c.feedRecvBuf P datagram now).link.state ≠ .failed := by
  obtain ⟨timestamp, dest, body⟩ := ctrl
  obtain rfl : body = .handshake hs := hbody
  unfold feedRecvBuf
  rw [hdecode]
  dsimp only
  rw [hstate]
  dsimp only [onHandshakePacket]
  rw [hreason]
  dsimp only
  rw [if_neg (by rw [hstate]; simp)]
  unfold onConclusionResponse
  split
  · rw [hstate]
    simp
  · rw [(enterConnected_frame _ _ _).2.2.2]
    simp

/-- A rejection reaches the caller as one, with its code, and the sum that carries the code does not overflow,
exactly if the code is below 4294966293. The next two codes are ignored, the one after them connects the
caller, and the rest overflow. -/
theorem rejection_arrives_iff {l : Listener} {remote : SocketAddr} {p : PendingConn} (hp : p ∈ l.pending)
    (hpeer : p.peer = remote) (reason : RejectReason) (now : Instant) :
    (l.rejectPending remote reason now).1 = true ∧
      ∃ datagram, (l.rejectPending remote reason now).2.responses = l.responses ++ [(remote, datagram)] ∧
        ∀ (P : Primitives) (c : Connection) (t : Instant), c.link.state = .conclusion →
          ((HandshakeType.rejectionBase.toNat + reason.code.toNat < 4294967296 ∧
              (c.feedRecvBuf P datagram t).link.state = .failed ∧
              ∃ reason', reason'.code = reason.code ∧
                (c.feedRecvBuf P datagram t).events = c.events ++ [.failed (.rejected reason')]) ↔
            reason.code.toNat < 4294966293) := by
  obtain ⟨htrue, datagram, ctrl, hresponses, hdecode, hbody⟩ :=
    Listener.rejectPending_responds hp hpeer reason now
  refine ⟨htrue, datagram, hresponses, fun P c t hstate => ⟨?_, fun hcode => ?_⟩⟩
  · rintro ⟨hsum, hfailed, -⟩
    by_contra hcode
    exact Connection.feedRecvBuf_unrejected t hstate hdecode hbody
      (HandshakeType.rejectReason_rejection_none (Nat.le_of_not_lt hcode) hsum) hfailed
  · rw [Connection.feedRecvBuf_rejection t hstate hdecode hbody (HandshakeType.rejectReason_rejection hcode)]
    refine ⟨?_, rfl, _, RejectReason.code_fromCode _, rfl⟩
    change 1000 + reason.code.toNat < 4294967296
    omega

/-- The sample listener with a request to decide. -/
def frontDesk : Listener :=
  (Runs.run (Desk.step Primitives.absent) (Desk.opened Desk.frontListener) [(Desk.requestFor 97, 0)]).listener

/-- A code from the range kept for applications arrives, and the first one that is too great does not. -/
theorem rejection_arrives_user_code :
    (∃ datagram, (frontDesk.rejectPending Desk.frontAddress (.other 2000) 0).2.responses
        = frontDesk.responses ++ [(Desk.frontAddress, datagram)] ∧
      ((frontConclusion Primitives.absent Config.default).conn.feedRecvBuf Primitives.absent datagram 0).link.state
        = .failed ∧
      ∃ reason', reason'.code = 2000 ∧
        ((frontConclusion Primitives.absent Config.default).conn.feedRecvBuf Primitives.absent datagram 0).events
          = (frontConclusion Primitives.absent Config.default).conn.events ++ [.failed (.rejected reason')]) ∧
    ∃ datagram, (frontDesk.rejectPending Desk.frontAddress (.other 4294966293) 0).2.responses
        = frontDesk.responses ++ [(Desk.frontAddress, datagram)] ∧
      ¬ ∃ reason', reason'.code = 4294966293 ∧
        ((frontConclusion Primitives.absent Config.default).conn.feedRecvBuf Primitives.absent datagram 0).link.state
          = .failed ∧
        ((frontConclusion Primitives.absent Config.default).conn.feedRecvBuf Primitives.absent datagram 0).events
          = (frontConclusion Primitives.absent Config.default).conn.events ++ [.failed (.rejected reason')] := by
  have hany : frontDesk.pending.any (fun p => p.peer = Desk.frontAddress) = true := by decide +kernel
  obtain ⟨p, hp, hpeer⟩ := List.any_eq_true.mp hany
  have hwaits : (frontConclusion Primitives.absent Config.default).conn.link.state = .conclusion := by decide +kernel
  obtain ⟨-, datagram, hresponses, hiff⟩ := rejection_arrives_iff hp (of_decide_eq_true hpeer) (.other 2000) 0
  obtain ⟨-, datagram', hresponses', hiff'⟩ :=
    rejection_arrives_iff hp (of_decide_eq_true hpeer) (.other 4294966293) 0
  refine ⟨⟨datagram, hresponses, ((hiff Primitives.absent _ 0 hwaits).mpr (by decide)).2⟩, datagram', hresponses', ?_⟩
  rintro ⟨reason', hcode, hfailed, hevents⟩
  exact absurd ((hiff' Primitives.absent _ 0 hwaits).mp ⟨by decide, hfailed, reason', hcode, hevents⟩) (by decide)

/-- A rejection with the code 4294966295 is a conclusion: the caller connects on it. With the next code
the sum leaves the 32 bits. -/
theorem rejection_taken_for_conclusion :
    frontDesk.pending.map (·.peer) = [Desk.frontAddress] ∧
      (frontConclusion Primitives.absent Config.default).conn.link.state = .conclusion ∧
      (frontDesk.rejectPending Desk.frontAddress (.other 4294966295) 0).2.responses.map (fun response =>
          ((frontConclusion Primitives.absent Config.default).conn.feedRecvBuf Primitives.absent response.2
            0).link.state) = [.connected] ∧
      ¬ HandshakeType.rejectionBase.toNat + (RejectReason.other 4294966296).code.toNat < 4294967296 :=
  ⟨by decide +kernel, by decide +kernel, by decide +kernel, by decide⟩

end Srtrust
