import Srtrust.Session.Authenticity
import Srtrust.Session.Dispatch

/-! # Buffered ciphertext

A packet stays in the send buffer as it was encrypted, and a retransmission sends it verbatim. Its
flag names one of two slots, and every second rotation puts a fresh key into the slot of packets
that may still wait for their acknowledgement. -/
namespace Srtrust
open BigEndian
set_option autoImplicit false

/-- The encryptions in a history. -/
def encryptions (trace : List Trace) : List CipherCall :=
  trace.filterMap fun t => match t with | .encrypted call => some call | _ => none

theorem mem_encryptions {trace : List Trace} {call : CipherCall} :
    call ∈ encryptions trace ↔ .encrypted call ∈ trace := by
  rw [encryptions, List.mem_filterMap]
  constructor
  · rintro ⟨t, ht, he⟩
    cases t <;> simp_all
  · intro h
    exact ⟨_, h, rfl⟩

/-- The packet was encrypted under these keys. -/
def EncryptedUnder (P : Primitives) (trace : List Trace) (packet : DataPacket) (keys : Option SessionKeys) :
    Prop :=
  ∃ call ∈ encryptions trace, call.seq = packet.seq ∧ call.output = packet.payload ∧ keys = some call.keys ∧
    call.keys.encrypt P call.seq.value call.aad call.input = some call.output

instance (P : Primitives) (trace : List Trace) (packet : DataPacket) (keys : Option SessionKeys) :
    Decidable (EncryptedUnder P trace packet keys) :=
  inferInstanceAs (Decidable (∃ call ∈ encryptions trace, _))

theorem EncryptedUnder.mono {P : Primitives} {trace trace' : List Trace} {packet : DataPacket}
    {keys : Option SessionKeys} (h : EncryptedUnder P trace packet keys) (hsub : trace ⊆ trace') :
    EncryptedUnder P trace' packet keys := by
  obtain ⟨call, hcall, hrest⟩ := h
  exact ⟨call, mem_encryptions.mpr (hsub (mem_encryptions.mp hcall)), hrest⟩

namespace SessionCrypto

theorem slot_activate (c : SessionCrypto) (flags : KeyFlags) (flag : Encryption) :
    (c.activate flags).slot flag = c.slot flag := by
  cases flags <;> cases flag <;> rfl

theorem active_activate (c : SessionCrypto) (flags : KeyFlags) : (c.activate flags).active ≠ .none := by
  cases flags <;> simp [activate]

theorem slot_active {c : SessionCrypto} (h : c.active ≠ .none) : c.slot c.active = c.activeKeys := by
  unfold slot activeKeys
  cases ha : c.active
  · exact absurd ha h
  · rfl
  · rfl

theorem active_install (c : SessionCrypto) (flags : KeyFlags) (keys : SessionKeys) :
    (c.install flags keys).active = c.active := by
  cases flags <;> rfl

end SessionCrypto

namespace Connection

/-! ## What installs a key -/

/-- The slots after the embedder's key, where there is one to install. -/
def rekeyed (P : Primitives) (c : Connection) (sek : Bytes) : Option SessionCrypto :=
  if c.keys.rekeyPending = false then none
  else
    match c.config.encryption, c.keys.crypto with
    | some enc, some crypto =>
      match crypto.salt with
      | none => none
      | some salt =>
        (SessionKeys.fromRaw P enc.passphrase crypto.nextFlags enc.cipher salt sek).map fun made =>
          crypto.install crypto.nextFlags made.1
    | _, _ => none

/-- The slots after a Key Material request of the peer. -/
def adopted (P : Primitives) (c : Connection) (cif : Bytes) : Option SessionCrypto :=
  match c.config.encryption, KeyMaterial.decode cif, c.keys.crypto with
  | some enc, .ok km, some crypto =>
    (SessionKeys.fromKeyMaterial P km enc.passphrase).toOption.map crypto.installUnwrapped
  | _, _, _ => none

/-- The slots after a call that installs a key. -/
def installedBy (P : Primitives) (c : Connection) : Call → Option SessionCrypto
  | .provideRekey sek => c.rekeyed P sek
  | call => (c.announcedBy call).bind (c.adopted P)

/-- New slots keep the keys that buffered packets were encrypted with. -/
def Spares (c : Connection) (crypto' : SessionCrypto) : Prop :=
  ∀ crypto ∈ c.keys.crypto, ∀ packet ∈ c.outstanding,
    crypto'.slot packet.encryption = crypto.slot packet.encryption

instance (c : Connection) (crypto' : SessionCrypto) : Decidable (c.Spares crypto') :=
  inferInstanceAs (Decidable (∀ crypto ∈ c.keys.crypto, _))

/-- A call that installs a key overwrites no slot that a buffered packet names. -/
def SparesBuffered (P : Primitives) (c : Connection) (call : Call) : Prop :=
  ∀ crypto' ∈ c.installedBy P call, c.Spares crypto'

instance (P : Primitives) (c : Connection) (call : Call) : Decidable (c.SparesBuffered P call) :=
  inferInstanceAs (Decidable (∀ crypto' ∈ c.installedBy P call, _))

theorem provideRekey_crypto (P : Primitives) (c : Connection) (sek : Bytes) (now : Instant) :
    (c.provideRekey P sek now).keys.crypto = (c.rekeyed P sek).or c.keys.crypto := by
  unfold provideRekey rekeyed
  by_cases hp : c.keys.rekeyPending = false
  · rw [if_pos hp, if_pos hp, Option.none_or]
  · rw [if_neg hp, if_neg hp]
    cases c.config.encryption with
    | none => rfl
    | some enc =>
      cases hcrypto : c.keys.crypto with
      | none => exact hcrypto
      | some crypto =>
        dsimp only
        cases crypto.salt with
        | none => exact hcrypto
        | some salt =>
          dsimp only
          cases SessionKeys.fromRaw P enc.passphrase crypto.nextFlags enc.cipher salt sek with
          | none => exact hcrypto
          | some made =>
            have hawait : ∀ (d : Connection) km, (d.awaitKmRsp km).keys.crypto = d.keys.crypto :=
              fun _ _ => rfl
            dsimp only
            rw [hawait, emitKm_keys]
            rfl

theorem onKmReq_crypto (P : Primitives) (c : Connection) (cif : Bytes) (now : Instant) :
    (c.onKmReq P cif now).keys.crypto = (c.adopted P cif).or c.keys.crypto := by
  unfold onKmReq adopted
  cases c.config.encryption with
  | none => rfl
  | some enc =>
    cases KeyMaterial.decode cif with
    | error e => rfl
    | ok km =>
      cases hcrypto : c.keys.crypto with
      | none => exact hcrypto
      | some crypto =>
        dsimp only
        cases SessionKeys.fromKeyMaterial P km enc.passphrase with
        | error e => exact hcrypto
        | ok unwrapped =>
          dsimp only
          rw [emitKm_keys]
          rfl

/-! ## The invariant -/

/-- Every buffered packet of an encrypted sender was encrypted under the key that the slot its flag
names holds now. -/
structure Readable (P : Primitives) (c : Connection) : Prop where
  active : ∀ crypto ∈ c.keys.crypto, crypto.active ≠ .none
  held : ∀ crypto ∈ c.keys.crypto, ∀ packet ∈ c.outstanding,
    EncryptedUnder P c.trace packet (crypto.slot packet.encryption)

section Readable

variable {P : Primitives} {c c' : Connection}

theorem Readable.settles (h : Settles c c') (hc : c.Readable P) : c'.Readable P := by
  obtain ⟨ts, ht, -⟩ := h.trace
  have hsub : c.trace ⊆ c'.trace := by simp [ht]
  refine ⟨by rw [h.keys]; exact hc.active, fun crypto hcrypto packet hp => ?_⟩
  rw [h.keys] at hcrypto
  exact (hc.held crypto hcrypto packet (h.outstanding.subset hp)).mono hsub

/-- Key accounting may switch the active slot; it keeps the slots. -/
theorem accountKey_some {crypto : SessionCrypto} (h : c.keys.crypto = some crypto) :
    ∃ crypto', c.accountKeyAndMaybeRotate.keys.crypto = some crypto' ∧
      (∀ flag, crypto'.slot flag = crypto.slot flag) ∧ (crypto.active ≠ .none → crypto'.active ≠ .none) := by
  rcases (accountKey_keys c).2 with ⟨hsame, -⟩ | ⟨crypto', hcrypto', -, hrotated, -⟩
  · exact ⟨crypto, hsame.trans h, fun _ => rfl, id⟩
  · obtain rfl := Option.some.inj (h.symm.trans hcrypto')
    exact ⟨_, hrotated, fun flag => SessionCrypto.slot_activate _ _ flag, fun _ => SessionCrypto.active_activate _ _⟩

theorem accountKey_crypto {crypto' : SessionCrypto}
    (h : c.accountKeyAndMaybeRotate.keys.crypto = some crypto') :
    ∃ crypto, c.keys.crypto = some crypto ∧ (∀ flag, crypto'.slot flag = crypto.slot flag) ∧
      (crypto.active ≠ .none → crypto'.active ≠ .none) := by
  cases hc : c.keys.crypto with
  | none =>
    rw [accountKeyAndMaybeRotate_plain hc, hc] at h
    exact absurd h (by simp)
  | some crypto =>
    obtain ⟨crypto'', hsome, hslots, hactive⟩ := accountKey_some hc
    obtain rfl := Option.some.inj (hsome.symm.trans h)
    exact ⟨crypto, rfl, hslots, hactive⟩

/-- The flag of an encrypted packet is the active slot, and the cipher call is made with its keys. -/
theorem Originates.sealed_under {fragment : Fragment} {now : Instant} {stored : DataPacket}
    {calls : List Trace} {crypto : SessionCrypto} (h : Originates P fragment now stored calls c c')
    (hcrypto : c'.keys.crypto = some crypto) :
    stored.encryption = crypto.active ∧ ∃ keys, crypto.activeKeys = some keys ∧
      keys.encrypt P stored.seq.value stored.headerAad fragment.payload = some stored.payload ∧
      calls = [.encrypted ⟨keys, stored.seq, stored.headerAad, fragment.payload, stored.payload⟩] := by
  rw [h.keys] at hcrypto
  obtain ⟨hstored, hseal⟩ := sealPacket_spec h.sealed
  rcases hseal with ⟨hnone, -⟩ | ⟨sealing, keys, hsome, hencrypt, hcalls⟩
  · rw [hnone] at hcrypto
    exact absurd hcrypto (by simp)
  · obtain rfl := Option.some.inj (hsome.symm.trans hcrypto)
    obtain ⟨used, hused, hrest⟩ := Option.bind_eq_some_iff.mp hencrypt
    obtain ⟨out, hout, hpair⟩ := Option.bind_eq_some_iff.mp hrest
    obtain ⟨rfl, rfl⟩ := Prod.mk.inj (Option.some.inj hpair)
    refine ⟨?_, used, hused, ?_, ?_⟩
    · rw [hstored]
      simp only [dataPacket, hsome]
    · rw [hstored]
      exact hout
    · rw [hcalls, hstored]
      rfl

theorem Readable.originates {fragment : Fragment} {now : Instant} {stored : DataPacket}
    {calls : List Trace} (h : Originates P fragment now stored calls c c') (hc : c.Readable P) :
    c'.Readable P := by
  have hold : c.trace ⊆ c'.trace := by simp [h.trace]
  have hnew : calls ⊆ c'.trace := by
    rw [h.trace]
    exact fun t ht => List.mem_append_right _ (List.mem_append_left _ ht)
  refine ⟨fun crypto' hcrypto' => ?_, fun crypto' hcrypto' packet hp => ?_⟩
  · rw [h.keys] at hcrypto'
    obtain ⟨crypto, hcrypto, -, hactive⟩ := accountKey_crypto hcrypto'
    exact hactive (hc.active crypto hcrypto)
  · rw [h.keys] at hcrypto'
    obtain ⟨crypto, hcrypto, hslots, hactive⟩ := accountKey_crypto hcrypto'
    rw [h.outstanding] at hp
    rcases List.mem_append.mp hp with hp | hp
    · rw [hslots]
      exact (hc.held crypto hcrypto packet hp).mono hold
    · obtain rfl := List.mem_singleton.mp hp
      rw [← h.keys] at hcrypto'
      obtain ⟨hflag, used, hused, henc, hcalls⟩ := h.sealed_under hcrypto'
      refine ⟨⟨used, _, _, _, _⟩, mem_encryptions.mpr (hnew ?_), rfl, rfl, ?_, henc⟩
      · rw [hcalls]
        exact List.mem_singleton_self _
      · rw [hflag, SessionCrypto.slot_active (hactive (hc.active crypto hcrypto)), hused]

/-- New slots that spare the buffered packets keep them readable. -/
theorem Readable.install (hc : c.Readable P) {made : Option SessionCrypto}
    (hcrypto : c'.keys.crypto = made.or c.keys.crypto) (htx : c'.tx = c.tx) (htrace : c.trace ⊆ c'.trace)
    (hheld : made.isSome → c.keys.crypto.isSome) (hspares : ∀ crypto' ∈ made, c.Spares crypto')
    (hactive : ∀ crypto' ∈ made, ∀ crypto ∈ c.keys.crypto, crypto'.active = crypto.active) :
    c'.Readable P := by
  cases made with
  | none =>
    rw [Option.none_or] at hcrypto
    refine ⟨by rw [hcrypto]; exact hc.active, fun crypto hmem packet hp => ?_⟩
    rw [hcrypto] at hmem
    rw [outstanding, htx] at hp
    exact (hc.held crypto hmem packet hp).mono htrace
  | some made =>
    obtain ⟨crypto, hold⟩ := Option.isSome_iff_exists.mp (hheld rfl)
    rw [Option.some_or] at hcrypto
    refine ⟨fun crypto' hmem => ?_, fun crypto' hmem packet hp => ?_⟩
    · obtain rfl := Option.some.inj (hcrypto.symm.trans hmem)
      rw [hactive _ rfl crypto hold]
      exact hc.active crypto hold
    · obtain rfl := Option.some.inj (hcrypto.symm.trans hmem)
      rw [outstanding, htx] at hp
      rw [hspares _ rfl crypto hold packet hp]
      exact (hc.held crypto hold packet hp).mono htrace

end Readable

theorem rekeyed_active {P : Primitives} {c : Connection} {sek : Bytes} {crypto' : SessionCrypto}
    (h : c.rekeyed P sek = some crypto') :
    ∃ crypto, c.keys.crypto = some crypto ∧ crypto'.active = crypto.active := by
  unfold rekeyed at h
  split at h
  · exact absurd h (by simp)
  · split at h
    · next crypto _ hcrypto =>
      split at h
      · exact absurd h (by simp)
      · obtain ⟨made, -, rfl⟩ := Option.map_eq_some_iff.mp h
        exact ⟨_, hcrypto, SessionCrypto.active_install _ _ _⟩
    · exact absurd h (by simp)

theorem adopted_active {P : Primitives} {c : Connection} {cif : Bytes} {crypto' : SessionCrypto}
    (h : c.adopted P cif = some crypto') :
    ∃ crypto, c.keys.crypto = some crypto ∧ crypto'.active = crypto.active := by
  unfold adopted at h
  split at h
  · next hcrypto =>
    obtain ⟨made, -, rfl⟩ := Option.map_eq_some_iff.mp h
    exact ⟨_, hcrypto, rfl⟩
  · exact absurd h (by simp)

theorem KeyStep.trace_subset {c c' : Connection} (h : KeyStep c c') : c.trace ⊆ c'.trace := by
  obtain ⟨ts, ht, -⟩ := h.grows.trace
  simp [ht]

theorem readable_dispatch (P : Primitives) :
    Dispatch P (fun c sek => ∀ crypto' ∈ c.rekeyed P sek, c.Spares crypto')
      (fun c cif => ∀ crypto' ∈ c.adopted P cif, c.Spares crypto') (Readable P) where
  settles _ _ h hc := hc.settles h
  originates _ _ _ _ _ _ h hc := hc.originates h
  provideRekey c sek now hspares hc := by
    have hstep := provideRekey_keyStep P c sek now
    refine hc.install (provideRekey_crypto P c sek now) hstep.tx hstep.trace_subset ?_ hspares ?_
    · intro hsome
      obtain ⟨crypto', hmade⟩ := Option.isSome_iff_exists.mp hsome
      obtain ⟨crypto, hcrypto, -⟩ := rekeyed_active hmade
      simp [hcrypto]
    · intro crypto' hmade crypto hcrypto
      obtain ⟨old, hold, hactive⟩ := rekeyed_active hmade
      rw [hactive, Option.some.inj (hold.symm.trans hcrypto)]
  kmReq c cif now hspares hc := by
    have hstep := onKmReq_keyStep P c cif now
    refine hc.install (onKmReq_crypto P c cif now) hstep.tx hstep.trace_subset ?_ hspares ?_
    · intro hsome
      obtain ⟨crypto', hmade⟩ := Option.isSome_iff_exists.mp hsome
      obtain ⟨crypto, hcrypto, -⟩ := adopted_active hmade
      simp [hcrypto]
    · intro crypto' hmade crypto hcrypto
      obtain ⟨old, hold, hactive⟩ := adopted_active hmade
      rw [hactive, Option.some.inj (hold.symm.trans hcrypto)]
  kmRsp c cif hc := by
    have hstep := onKmRsp_keyStep c cif
    have hkeys : (c.onKmRsp cif).keys.crypto = (none : Option SessionCrypto).or c.keys.crypto := by
      unfold onKmRsp
      split <;> rfl
    exact hc.install hkeys hstep.tx hstep.trace_subset (by simp) (by simp) (by simp)
  resend c now hc := by
    have hstep := resendPendingKm_keyStep c now
    have hkeys : (c.resendPendingKm now).keys.crypto = (none : Option SessionCrypto).or c.keys.crypto := by
      unfold resendPendingKm
      split
      · rfl
      · split
        · rfl
        · rw [emitKm_keys]
          rfl
    exact hc.install hkeys hstep.tx hstep.trace_subset (by simp) (by simp) (by simp)
  peerFrame _ _ _ h := h

theorem SparesBuffered.keyOk {P : Primitives} {c : Connection} {call : Call}
    (h : c.SparesBuffered P call) :
    c.KeyOk (fun c sek => ∀ crypto' ∈ c.rekeyed P sek, c.Spares crypto')
      (fun c cif => ∀ crypto' ∈ c.adopted P cif, c.Spares crypto') call := by
  refine ⟨?_, fun cif hcif crypto' hcrypto' => ?_⟩
  · rintro sek rfl
    exact h
  · cases call with
    | feedRecvBuf datagram => exact h crypto' (Option.bind_eq_some_iff.mpr ⟨cif, hcif, hcrypto'⟩)
    | _ => exact absurd hcif (by simp [announcedBy])

/-! ## Retransmissions under the original key -/

/-- A turn of the retransmission loop, in any state of a sender that still holds `stored`, sends
`datagram`. -/
def Retransmits (stored : DataPacket) (datagram : Bytes) : Prop :=
  ∃ (c : Connection) (gate : Duration) (start stop seq : SeqNumber) (now : Instant),
    c.tx.sendBuffer.get seq = some stored ∧
      (c.retransmitOne gate start stop seq now).outputs = c.outputs ++ [.sendDatagram datagram]

theorem Retransmits.eq_encodeRetransmit {stored : DataPacket} {datagram : Bytes}
    (h : Retransmits stored datagram) : datagram = encodeRetransmit stored := by
  obtain ⟨c, gate, start, stop, seq, now, hget, hout⟩ := h
  unfold retransmitOne at hout
  split at hout
  · rw [hget] at hout
    have hsent : (c.resend stored seq now).outputs
        = c.outputs ++ [.sendDatagram (encodeRetransmit stored)] := rfl
    simpa [hsent] using hout.symm
  · simp at hout

/-- What `send_data` encrypted comes back from the original datagram and from every retransmission
of it: the associated data of a decoded packet leaves the retransmission flag out. -/
theorem retransmission_authenticates {P : Primitives} (hP : P.OpensSealed) {c : Connection}
    {crypto : SessionCrypto} (hcrypto : c.keys.crypto = some crypto) (fragment : Fragment) (now : Instant)
    {stored : DataPacket} (hsent : (c.sendData P fragment now).outstanding = c.outstanding ++ [stored]) :
    .sendDatagram stored.encode ∈ (c.sendData P fragment now).outputs ∧
      ∃ crypto' keys, (c.sendData P fragment now).keys.crypto = some crypto' ∧
        crypto'.activeKeys = some keys ∧
        ∀ datagram, datagram = stored.encode ∨ Retransmits stored datagram →
          ∃ packet, Packet.decode datagram = .ok (.data packet) ∧
            packet.encryption = crypto'.active ∧
            (crypto'.active ≠ .none → crypto'.slot packet.encryption = some keys) ∧
            keys.decrypt P packet.seq.value packet.headerAad packet.payload = some fragment.payload := by
  rcases sendData_cases P c fragment now with hpanic | ⟨stored', calls, h⟩
  · rw [hpanic] at hsent
    exact absurd (congrArg List.length hsent) (by simp [outstanding, panicked, record])
  generalize c.sendData P fragment now = c' at h hsent ⊢
  obtain rfl : stored' = stored := by
    rw [h.outstanding] at hsent
    simpa using hsent
  obtain ⟨crypto', hcrypto'⟩ : ∃ crypto', c'.keys.crypto = some crypto' := by
    rw [h.keys]
    obtain ⟨crypto', hsome, -⟩ := accountKey_some hcrypto
    exact ⟨crypto', hsome⟩
  obtain ⟨hflag, keys, hkeys, henc, -⟩ := h.sealed_under hcrypto'
  have hslot : crypto'.active ≠ .none → crypto'.slot stored'.encryption = some keys := fun hne => by
    rw [hflag, SessionCrypto.slot_active hne, hkeys]
  have hopen := SessionKeys.decrypt_encrypt hP henc
  refine ⟨by simp [h.outputs], crypto', keys, hcrypto', hkeys, fun datagram hd => ?_⟩
  rcases hd with rfl | hd
  · exact ⟨stored', Packet.decode_data stored', hflag, hslot, hopen⟩
  · rw [hd.eq_encodeRetransmit]
    exact ⟨{ stored' with retransmitted := true }, Packet.decode_data _, hflag, hslot, hopen⟩

/-- One byte sent by an acceptor with AES-GCM, and the packet it stores. -/
def sealedSender : Connection :=
  (Session.sealedAcceptor .gcm).conn.sendData Recorded.gcmPrimitives ⟨[1], .single, 1⟩ 0

def sealedPacket : DataPacket where
  seq := SeqNumber.new 0
  position := .single
  inOrder := true
  encryption := .even
  retransmitted := false
  messageNumber := MsgNumber.new 1
  timestamp := ⟨0⟩
  destSocketId := ⟨1⟩
  payload := [240, 10, 246, 241, 86, 191, 21, 8, 165, 199, 94, 118, 176, 114, 92, 252, 220]

theorem retransmission_authenticates_gcm :
    Retransmits sealedPacket (encodeRetransmit sealedPacket) ∧
      ∃ keys : SessionKeys, ∀ datagram,
        datagram = sealedPacket.encode ∨ Retransmits sealedPacket datagram →
          ∃ packet, Packet.decode datagram = .ok (.data packet) ∧
            keys.decrypt Recorded.gcmPrimitives packet.seq.value packet.headerAad packet.payload
              = some [1] := by
  refine ⟨⟨sealedSender, 0, SeqNumber.new 0, SeqNumber.new 0, SeqNumber.new 0, 0,
    by decide +kernel, by decide +kernel⟩, ?_⟩
  obtain ⟨crypto, hcrypto⟩ :=
    Option.isSome_iff_exists.mp (show (Session.sealedAcceptor .gcm).conn.keys.crypto.isSome by decide +kernel)
  obtain ⟨-, crypto', keys, -, -, hopen⟩ :=
    retransmission_authenticates Recorded.gcmPrimitives_opensSealed hcrypto ⟨[1], .single, 1⟩ 0
      (show sealedSender.outstanding = (Session.sealedAcceptor .gcm).conn.outstanding ++ [sealedPacket] by
        decide +kernel)
  refine ⟨keys, fun datagram hd => ?_⟩
  obtain ⟨packet, hdecode, -, -, hdecrypt⟩ := hopen datagram hd
  exact ⟨packet, hdecode, hdecrypt⟩

end Connection

namespace Session

theorem Started.active {P : Primitives} {s : Session} (hs : Started P s) :
    ∀ crypto ∈ s.conn.keys.crypto, crypto.active ≠ .none := by
  cases hs with
  | caller config localSocketId initialSeq now salt sek =>
    change ∀ crypto ∈ (Connection.connect P config localSocketId initialSeq now salt sek).keys.crypto, _
    unfold Connection.connect
    dsimp only
    split
    · rw [Connection.sendInduction, (Connection.emitHandshake_linkStep _ _ _ now).keys]
      simp [Connection.newBase]
    · split
      · simp [Connection.panicked, Connection.record, Connection.newBase]
      · rw [Connection.sendInduction, (Connection.emitHandshake_linkStep _ _ _ now).keys]
        rintro crypto hcrypto
        obtain rfl := Option.some.inj hcrypto
        simp [SessionCrypto.ofEven]
  | acceptor config localSocketId callerHs now c h =>
    change ∀ crypto ∈ c.keys.crypto, _
    unfold Connection.accept at h
    split at h
    · exact absurd h (by simp)
    · next crypto keyMaterial _ =>
      have hinitial : ∀ made ∈ crypto.map SessionCrypto.fromInitial, made.active ≠ .none := by
        intro made hmade
        obtain ⟨km, -, rfl⟩ := Option.map_eq_some_iff.mp hmade
        unfold SessionCrypto.fromInitial
        dsimp only
        split <;> simp
      dsimp only at h
      obtain rfl := Except.ok.inj h
      have henter : ∀ (c : Connection) negotiated, (c.enterConnected negotiated now).keys = c.keys :=
        fun _ _ => rfl
      rw [henter]
      split <;> exact hinitial

/-- While no key goes into a slot that a buffered packet names, every packet in the send buffer of
an encrypted sender was encrypted under the key its slot holds. -/
theorem buffered_readable (P : Primitives) (s : Session) (hs : Started P s)
    (inputs : List (Call × Instant))
    (hspares : Runs.Meets (step P) (fun s input => s.conn.SparesBuffered P input.1) s inputs) :
    ∀ crypto ∈ (Runs.run (step P) s inputs).conn.keys.crypto,
      ∀ packet ∈ (Runs.run (step P) s inputs).conn.outstanding,
        EncryptedUnder P (Runs.run (step P) s inputs).conn.trace packet (crypto.slot packet.encryption) := by
  have hstart : s.conn.Readable P := ⟨hs.active, by simp [hs.outstanding]⟩
  exact (run_dispatch (Connection.readable_dispatch P) hstart (hspares.mono fun _ _ h => h.keyOk)).held

/-! ## Sample runs -/

/-- An encrypted configuration that rotates after every packet. -/
def briskConfig : Config := { sealedConfig .ctr with kmRefreshRate := 1 }

def briskAcceptor : Session := accepting Recorded.primitives briskConfig (sealedConclusion .ctr)

theorem briskAcceptor_started : Started Recorded.primitives briskAcceptor :=
  accepting_started (by decide +kernel)

/-- The peer's echo of the announcement that a session waits for. -/
def kmEcho (s : Session) : Bytes :=
  (encodeControl ⟨2⟩ ⟨0⟩ (.raw .userDefined extKmrsp 0 (s.conn.keys.pendingKm.getD []))).getD []

/-- A packet, a rotation that the peer confirms, and a packet under the fresh key. -/
def oneRotation : List (Call × Instant) :=
  let announced := [(.send [1], 0), (.provideRekey (Recorded.sek 1), 0)]
  announced ++ [(.feedRecvBuf (kmEcho (Runs.run (step Recorded.primitives) briskAcceptor announced)), 0),
    (.send [2], 0)]

/-- Both packets, one under each key, are readable. -/
theorem buffered_readable_one_rotation :
    (Runs.run (step Recorded.primitives) briskAcceptor oneRotation).conn.outstanding.map (·.encryption)
        = [.even, .odd] ∧
    ∀ crypto ∈ (Runs.run (step Recorded.primitives) briskAcceptor oneRotation).conn.keys.crypto,
      ∀ packet ∈ (Runs.run (step Recorded.primitives) briskAcceptor oneRotation).conn.outstanding,
        EncryptedUnder Recorded.primitives
          (Runs.run (step Recorded.primitives) briskAcceptor oneRotation).conn.trace packet
          (crypto.slot packet.encryption) :=
  ⟨by decide +kernel,
    buffered_readable Recorded.primitives briskAcceptor briskAcceptor_started oneRotation (by decide +kernel)⟩

/-- The key of the second rotation goes into the slot of the first packet, which is not yet
acknowledged. -/
theorem buffered_unreadable :
    Started Recorded.primitives briskAcceptor ∧ briskConfig.validate = .ok () ∧
      Runs.Meets (step Recorded.primitives) Legal briskAcceptor
        (oneRotation ++ [(.provideRekey (Recorded.sek 2), 0)]) ∧
      ¬ ∀ crypto ∈ (Runs.run (step Recorded.primitives) briskAcceptor
            (oneRotation ++ [(.provideRekey (Recorded.sek 2), 0)])).conn.keys.crypto,
          ∀ packet ∈ (Runs.run (step Recorded.primitives) briskAcceptor
              (oneRotation ++ [(.provideRekey (Recorded.sek 2), 0)])).conn.outstanding,
            EncryptedUnder Recorded.primitives
              (Runs.run (step Recorded.primitives) briskAcceptor
                (oneRotation ++ [(.provideRekey (Recorded.sek 2), 0)])).conn.trace packet
              (crypto.slot packet.encryption) :=
  ⟨briskAcceptor_started, by decide +kernel, by decide +kernel, by decide +kernel⟩

end Session

end Srtrust
