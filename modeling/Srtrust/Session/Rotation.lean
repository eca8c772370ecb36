import Srtrust.Session.Agreement
import Srtrust.Session.Ciphertext
import Srtrust.Session.Announcement

/-! # The cipher of a rotation

A key arrives with the cipher its Key Material message names. The acceptor takes the caller's, whatever
its own configuration says; a rekey that it starts itself names its own. Which ciphers the slots hold, and
which the messages on the wire name, is followed here through every move of a meeting. -/
namespace Srtrust
open BigEndian
set_option autoImplicit false

/-- The message names the cipher, if it can be read. -/
def Names (mode : CipherMode) (cif : Bytes) : Prop := ∀ km, KeyMaterial.decode cif = .ok km → km.cipher = mode

/-- A datagram that announces a key announces one for this cipher. -/
def Announces (mode : CipherMode) (d : Bytes) : Prop :=
  ∀ ctrl info cif, Packet.decode d = .ok (.control ctrl) → ctrl.body = .raw .userDefined extKmreq info cif →
    Names mode cif

theorem Encodes.announces {mode : CipherMode} {named : Bytes → Prop} {d : Bytes}
    (h : Encodes (Packet.Requests named) d) (hn : ∀ cif, named cif → Names mode cif) : Announces mode d :=
  fun _ _ _ hdec hbody => hn _ (h.requested hdec hbody)

/-! ## Which ciphers the slots hold -/

/-- Both slots hold keys for this cipher only. -/
def SessionCrypto.Uniform (mode : CipherMode) (crypto : SessionCrypto) : Prop :=
  ∀ flag keys, crypto.slot flag = some keys → keys.mode = mode

theorem SessionCrypto.Uniform.install {mode : CipherMode} {crypto : SessionCrypto} (h : crypto.Uniform mode)
    (flags : KeyFlags) {keys : SessionKeys} (hk : keys.mode = mode) : (crypto.install flags keys).Uniform mode := by
  intro flag keys' hslot
  cases flags <;> cases flag <;> simp only [slot, SessionCrypto.install] at hslot <;>
    first
      | exact Option.some.inj hslot ▸ hk
      | exact h .even keys' hslot
      | exact h .odd keys' hslot
      | simp at hslot

/-- The keys of a message are for the cipher it names. -/
theorem SessionKeys.fromKeyMaterial_mode {P : Primitives} {km : KeyMaterial} {passphrase : Bytes}
    {unwrapped : UnwrappedKm} (h : fromKeyMaterial P km passphrase = .ok unwrapped) :
    ∀ keys, unwrapped.even = some keys ∨ unwrapped.odd = some keys → keys.mode = km.cipher := by
  unfold fromKeyMaterial at h
  dsimp only at h
  split at h
  · simp at h
  · split_ifs at h with hk hl
    split at h <;>
      (obtain rfl := Except.ok.inj h
       rintro keys (hkeys | hkeys) <;> simp only [Option.some.injEq, reduceCtorEq] at hkeys <;> rw [← hkeys])

theorem SessionCrypto.uniform_fromInitial {mode : CipherMode} {unwrapped : UnwrappedKm}
    (h : ∀ keys, unwrapped.even = some keys ∨ unwrapped.odd = some keys → keys.mode = mode) :
    (fromInitial unwrapped).Uniform mode := by
  intro flag keys hslot
  cases flag with
  | none => simp [slot] at hslot
  | even => exact h keys (.inl hslot)
  | odd => exact h keys (.inr hslot)

theorem SessionCrypto.Uniform.installUnwrapped {mode : CipherMode} {crypto : SessionCrypto}
    (h : crypto.Uniform mode) {unwrapped : UnwrappedKm}
    (hu : ∀ keys, unwrapped.even = some keys ∨ unwrapped.odd = some keys → keys.mode = mode) :
    (crypto.installUnwrapped unwrapped).Uniform mode := by
  intro flag keys hslot
  cases flag with
  | none => simp [slot] at hslot
  | even =>
    rcases Option.or_eq_some_iff.mp hslot with he | ⟨-, he⟩
    · exact hu keys (.inl he)
    · exact h .even keys he
  | odd =>
    rcases Option.or_eq_some_iff.mp hslot with he | ⟨-, he⟩
    · exact hu keys (.inr he)
    · exact h .odd keys he

theorem SessionKeys.fromRaw_names {P : Primitives} {passphrase : Bytes} {flags : KeyFlags} {mode : CipherMode}
    {salt : Block 16} {sek : Bytes} {keys : SessionKeys} {km : KeyMaterial} (hf : flags ≠ .both)
    (h : fromRaw P passphrase flags mode salt sek = some (keys, km)) : Names mode km.encode := by
  obtain ⟨-, w, -, rfl⟩ := buildKeyMaterialFor_some (fromRaw_some h).1
  intro km' hkm
  rw [KeyMaterial.decode_encode _ (fromRaw_conforming hf h)] at hkm
  rw [← Except.ok.inj hkm]

theorem SessionCrypto.nextFlags_ne (crypto : SessionCrypto) : crypto.nextFlags ≠ .both := by
  unfold nextFlags
  split <;> simp

namespace Connection

/-- Every key in the slots is for this cipher, and so is the one that waits to be confirmed. -/
structure Sealed (mode : CipherMode) (c : Connection) : Prop where
  slots : ∀ crypto, c.keys.crypto = some crypto → crypto.Uniform mode
  pending : ∀ cif, c.keys.pendingKm = some cif → Names mode cif

variable {P : Primitives} {mode : CipherMode} {c : Connection}

theorem rekeyed_uniform (h : c.Sealed mode) (hown : ∀ enc, c.config.encryption = some enc → enc.cipher = mode)
    {sek : Bytes} {crypto' : SessionCrypto} (hr : c.rekeyed P sek = some crypto') : crypto'.Uniform mode := by
  unfold rekeyed at hr
  split_ifs at hr
  split at hr
  · next enc crypto henc hcrypto =>
    split at hr
    · simp at hr
    · obtain ⟨made, hmade, rfl⟩ := Option.map_eq_some_iff.mp hr
      refine (h.slots crypto hcrypto).install _ ?_
      rw [(SessionKeys.fromRaw_some hmade).2.2.2, hown enc henc]
  · simp at hr

theorem adopted_uniform (h : c.Sealed mode) {cif : Bytes} (hn : Names mode cif) {crypto' : SessionCrypto}
    (ha : c.adopted P cif = some crypto') : crypto'.Uniform mode := by
  unfold adopted at ha
  split at ha
  · next enc km crypto _ hkm hcrypto =>
    obtain ⟨unwrapped, hunwrapped, rfl⟩ := Option.map_eq_some_iff.mp ha
    refine (h.slots crypto hcrypto).installUnwrapped fun keys hkeys => ?_
    cases hmat : SessionKeys.fromKeyMaterial P km enc.passphrase with
    | error e => simp [hmat, Except.toOption] at hunwrapped
    | ok unwrapped' =>
      rw [hmat] at hunwrapped
      obtain rfl : unwrapped' = unwrapped := Option.some.inj hunwrapped
      rw [SessionKeys.fromKeyMaterial_mode hmat keys hkeys, hn km hkm]
  · simp at ha

theorem provideRekey_pending (h : c.Sealed mode)
    (hown : ∀ enc, c.config.encryption = some enc → enc.cipher = mode) (sek : Bytes) (now : Instant) :
    ∀ cif, (c.provideRekey P sek now).keys.pendingKm = some cif → Names mode cif := by
  unfold provideRekey
  split
  · exact h.pending
  · split
    · next enc crypto henc _ =>
      split
      · exact h.pending
      · split
        · exact h.pending
        · next keys km hraw =>
          intro cif hcif
          have hawait : ∀ (c : Connection) bytes, (c.awaitKmRsp bytes).keys.pendingKm = some bytes :=
            fun _ _ => rfl
          rw [hawait] at hcif
          rw [← Option.some.inj hcif, ← hown enc henc]
          exact SessionKeys.fromRaw_names (SessionCrypto.nextFlags_ne _) hraw
    · exact h.pending

theorem Sealed.of_keys {c' : Connection} (h : c.Sealed mode) (hk : c'.keys.crypto = c.keys.crypto)
    (hp : c'.keys.pendingKm = c.keys.pendingKm) : c'.Sealed mode :=
  ⟨by rw [hk]; exact h.slots, by rw [hp]; exact h.pending⟩

/-- Keys for one cipher stay so while the rekeys of either end are for that cipher. -/
theorem sealed_dispatch (P : Primitives) (mode : CipherMode) :
    Dispatch P (fun c _ => ∀ enc, c.config.encryption = some enc → enc.cipher = mode)
      (fun _ cif => Names mode cif) (Sealed mode) where
  settles _ _ h hc := hc.of_keys (by rw [h.keys]) (by rw [h.keys])
  originates c c' _ _ _ _ h hc := by
    refine ⟨fun crypto' hcrypto' flag keys hslot => ?_, fun cif hcif => ?_⟩
    · rw [h.keys] at hcrypto'
      obtain ⟨crypto, hcrypto, hslots, -⟩ := accountKey_crypto hcrypto'
      exact hc.slots crypto hcrypto flag keys (hslots flag ▸ hslot)
    · rw [h.keys, (accountKey_keys c).1] at hcif
      exact hc.pending cif hcif
  provideRekey c sek now hown hc := by
    refine ⟨fun crypto' hcrypto' => ?_, provideRekey_pending hc hown sek now⟩
    rw [provideRekey_crypto] at hcrypto'
    rcases Option.or_eq_some_iff.mp hcrypto' with hr | ⟨-, hold⟩
    · exact rekeyed_uniform hc hown hr
    · exact hc.slots crypto' hold
  kmReq c cif now hn hc := by
    refine ⟨fun crypto' hcrypto' => ?_, ?_⟩
    · rw [onKmReq_crypto] at hcrypto'
      rcases Option.or_eq_some_iff.mp hcrypto' with ha | ⟨-, hold⟩
      · exact adopted_uniform hc hn ha
      · exact hc.slots crypto' hold
    · unfold onKmReq
      split
      · split
        · exact hc.pending
        · rw [emitKm_keys]
          exact hc.pending
      · exact hc.pending
  kmRsp c cif hc := by
    unfold onKmRsp
    split
    · exact ⟨hc.slots, by simp⟩
    · exact hc
  resend c now hc := by
    unfold resendPendingKm
    split
    · exact hc
    · split
      · exact ⟨hc.slots, by simp⟩
      · exact hc.of_keys (by rw [emitKm_keys]) (by rw [emitKm_keys])
  peerFrame _ _ _ h := h

end Connection

/-! ## Either end -/

/-- A session whose keys are for this cipher, and that has announced no other. -/
structure Session.Keeps (mode : CipherMode) (s : Session) : Prop where
  keys : s.conn.Sealed mode
  outputs : s.conn.outputs = []
  said : ∀ d, d ∈ s.emitted ∨ s.conn.link.lastHandshake = some d → Announces mode d

namespace Session
variable {P : Primitives} {mode : CipherMode} {s : Session}

theorem Keeps.step (h : s.Keeps mode) {input : Call × Instant}
    (hown : ∀ sek, input.1 = .provideRekey sek → ∀ enc, s.conn.config.encryption = some enc → enc.cipher = mode)
    (hfed : ∀ d, input.1 = .feedRecvBuf d → Announces mode d) : (s.step P input).Keeps mode := by
  obtain ⟨call, now⟩ := input
  have hpeer : ∀ cif, s.conn.announcedBy call = some cif → Names mode cif := by
    intro cif hcif
    unfold Connection.announcedBy at hcif
    split at hcif
    · next d =>
      split at hcif
      · next hdec =>
        split_ifs at hcif with hsub
        exact hfed d rfl _ _ cif hdec (by rw [hsub, Option.some.inj hcif])
      · simp at hcif
    · simp at hcif
  have hkeys := (Connection.sealed_dispatch P mode).perform call now h.keys ⟨hown, hpeer⟩
  have hutters := Connection.perform_utters P s.conn call now
  have hsaid : ∀ d, (s.conn.perform P call now).Said d → Announces mode d := by
    intro d hd
    rcases hutters d hd with (hold | hold) | hnew
    · simp [h.outputs] at hold
    · exact h.said d (.inr hold)
    · exact hnew.announces fun cif hcif => hcif.elim (h.keys.pending cif) (hkeys.pending cif)
  refine ⟨hkeys.of_keys rfl rfl, rfl, fun d hd => ?_⟩
  rcases hd with hd | hd
  · rcases List.mem_append.mp hd with hd | hd
    · exact h.said d (.inl hd)
    · exact hsaid d (.inl (mem_datagrams.mp hd))
  · exact hsaid d (.inr hd)

theorem keeps_start {c : Connection} (hkeys : c.Sealed mode) (hsaid : ∀ d, c.Said d → Announces mode d)
    (now : Instant) : (start c now).Keeps mode := by
  refine ⟨hkeys.of_keys rfl rfl, rfl, fun d hd => hsaid d ?_⟩
  rcases hd with hd | hd
  · exact .inl (mem_datagrams.mp (by simpa [start, settle] using hd))
  · exact .inr hd

end Session

namespace Connection
variable {P : Primitives} {mode : CipherMode}

theorem connect_pending (config : Config) (localSocketId : SocketId) (initialSeq : SeqNumber) (now : Instant)
    (salt : Block 16) (sek : (n : ℕ) → Block n) :
    (connect P config localSocketId initialSeq now salt sek).keys.pendingKm = none ∧
      ∀ d, (connect P config localSocketId initialSeq now salt sek).Said d → Announces mode d := by
  have hsay : ∀ c : Connection, c.outputs = [] → c.link.lastHandshake = none →
      ∀ d, (c.sendInduction now).Said d → Announces mode d := by
    intro c ho hl d hd
    have hutters : Utters (fun _ => False) c (c.sendInduction now) := (emitHandshake_sends _ _ _ now).utters
    rcases hutters d hd with hold | hnew
    · simp [Said, ho, hl] at hold
    · exact hnew.announces fun _ hf => hf.elim
  unfold connect
  dsimp only
  split
  · rw [sendInduction_keys]
    exact ⟨rfl, hsay _ rfl rfl⟩
  · split
    · exact ⟨rfl, by simp [Said, panicked, record, newBase]⟩
    · rw [sendInduction_keys]
      exact ⟨rfl, hsay _ rfl rfl⟩

/-- A caller's keys are for the cipher of its configuration. -/
theorem Draws.sealed_keys {c : Connection} (h : c.Draws P)
    (hmode : ∀ enc, c.config.encryption = some enc → enc.cipher = mode) (hp : c.keys.pendingKm = none) :
    c.Sealed mode := by
  refine ⟨fun crypto hcrypto => ?_, by simp [hp]⟩
  cases h with
  | plain hc _ => simp [hc] at hcrypto
  | sealed enc salt sek keys km henc hgen hc _ =>
    obtain rfl := Option.some.inj (hc.symm.trans hcrypto)
    intro flag keys' hslot
    cases flag with
    | even =>
      rw [← Option.some.inj hslot, (SessionKeys.fromRaw_some hgen).2.2.2, hmode enc henc]
    | _ => simp [SessionCrypto.slot, SessionCrypto.ofEven] at hslot

theorem accept_pending {config : Config} {id : SocketId} {hs : Handshake} {now : Instant} {a : Connection}
    (h : accept P config id hs now = .ok a) : a.keys.pendingKm = none := by
  unfold accept at h
  split at h
  · simp at h
  · dsimp only at h
    split at h <;> (obtain rfl := Except.ok.inj h; rfl)

/-- The key material of a caller, opened, is for the cipher of its configuration. -/
theorem Draws.opened {c₀ : Connection} (h : c₀.Draws P)
    (hmode : ∀ enc, c₀.config.encryption = some enc → enc.cipher = mode)
    {encryption : Option EncryptionSettings} {hs : Handshake} (hi : Introduces c₀ hs)
    {unwrapped : UnwrappedKm} {keyMaterial : Option Bytes}
    (ha : acceptCrypto P encryption hs = .ok (some unwrapped, keyMaterial)) :
    ∀ keys, unwrapped.even = some keys ∨ unwrapped.odd = some keys → keys.mode = mode := by
  have hkm := hi.kmreq.trans h.kmreq
  unfold acceptCrypto at ha
  rw [hkm] at ha
  cases h with
  | plain _ hk =>
    rw [hk] at ha
    cases encryption <;> simp at ha
  | sealed enc salt sek keys km henc hgen _ hk =>
    rw [hk] at ha
    cases encryption with
    | none => simp at ha
    | some enc' =>
      dsimp only at ha
      rw [KeyMaterial.decode_encode km (SessionKeys.fromRaw_conforming (by simp) hgen)] at ha
      dsimp only at ha
      split at ha
      · simp at ha
      · next opened hopened =>
        obtain ⟨hsome, -⟩ := Prod.mk.inj (Except.ok.inj ha)
        obtain rfl := Option.some.inj hsome
        obtain ⟨-, w, -, rfl⟩ := buildKeyMaterialFor_some (SessionKeys.fromRaw_some hgen).1
        intro keys' hkeys
        rw [SessionKeys.fromKeyMaterial_mode hopened keys' hkeys, ← hmode enc henc]

/-- An acceptor's keys are for the cipher of the caller. -/
theorem accept_sealed {config : Config} {id : SocketId} {hs : Handshake} {now : Instant} {a c₀ : Connection}
    (h : accept P config id hs now = .ok a) (hi : Introduces c₀ hs) (hd : c₀.Draws P)
    (hmode : ∀ enc, c₀.config.encryption = some enc → enc.cipher = mode) :
    a.Sealed mode ∧ ∀ d, a.Said d → Announces mode d := by
  obtain ⟨haccepts, hsaid⟩ := accept_spec h
  obtain ⟨⟨opened, keyMaterial⟩, hcrypto, hkeys⟩ := haccepts.crypto
  refine ⟨⟨fun crypto hc => ?_, by simp [accept_pending h]⟩, fun d hd' => ?_⟩
  · obtain ⟨unwrapped, rfl, rfl⟩ := Option.map_eq_some_iff.mp (hkeys.symm.trans hc)
    exact SessionCrypto.uniform_fromInitial (hd.opened hmode hi hcrypto)
  · obtain ⟨timestamp, henc⟩ := hsaid d hd'
    have hnew : Encodes (Packet.Requests fun _ => False) d :=
      ⟨.control ⟨timestamp, hs.srtSocketId, .handshake _⟩, trivial, henc⟩
    exact hnew.announces fun _ hf => hf.elim

end Connection

namespace Meeting
open Connection

/-- A produced connection starts a rekey only where its own configuration names the cipher. -/
def RekeysWith (mode : CipherMode) (m : Meeting) (x : Move × Instant) : Prop :=
  match x.1 with
  | .served k (.provideRekey _) => ∀ s ∈ m.served[k]?, ∀ enc ∈ s.conn.config.encryption, enc.cipher = mode
  | _ => True

instance (mode : CipherMode) (m : Meeting) (x : Move × Instant) : Decidable (m.RekeysWith mode x) := by
  obtain ⟨move, now⟩ := x
  unfold RekeysWith
  dsimp only
  split <;> infer_instance

/-- Both ends keep to one cipher. -/
structure OneCipher (mode : CipherMode) (m : Meeting) : Prop where
  caller : m.caller.Keeps mode
  served : ∀ s ∈ m.served, s.Keeps mode

variable {P : Primitives} {c₀ : Connection} {l₀ : Listener} {mode : CipherMode} {m : Meeting}

theorem announces_of_bare {id : SocketId} {sound : Prop} {d : Bytes} (h : Bare id sound d) : Announces mode d := by
  obtain ⟨dest, timestamp, hs, henc, -⟩ := h
  have hnew : Encodes (Packet.Requests fun _ => False) d :=
    ⟨.control ⟨timestamp, dest, .handshake hs⟩, trivial, henc⟩
  exact hnew.announces fun _ hf => hf.elim

theorem OneCipher.heard (h : m.OneCipher mode) {sound : Prop} (hmet : Met P c₀ l₀ sound m) {d : Bytes}
    (hd : d ∈ m.toCaller) : Announces mode d := by
  rcases List.mem_append.mp hd with hd | hd
  · exact announces_of_bare (hmet.replies d hd)
  · obtain ⟨s, hs, hd⟩ := List.mem_flatMap.mp hd
    exact (h.served s hs).said d (.inl hd)

theorem OneCipher.callCaller (h : m.OneCipher mode) {call : Call} {now : Instant}
    (hown : ∀ enc, m.caller.conn.config.encryption = some enc → enc.cipher = mode)
    (hheard : ∀ d, call = .feedRecvBuf d → Announces mode d) : (m.callCaller P call now).OneCipher mode :=
  ⟨h.caller.step (fun _ _ => hown) hheard, h.served⟩

theorem OneCipher.callServed (h : m.OneCipher mode) {k : ℕ} {call : Call} {now : Instant}
    (hown : ∀ sek, call = .provideRekey sek → ∀ s, m.served[k]? = some s →
      ∀ enc, s.conn.config.encryption = some enc → enc.cipher = mode)
    (hheard : ∀ d, call = .feedRecvBuf d → Announces mode d) : (m.callServed P k call now).OneCipher mode := by
  refine ⟨h.caller, fun s hs => ?_⟩
  obtain ⟨j, hj⟩ := List.mem_iff_getElem?.mp hs
  rw [Meeting.callServed, List.getElem?_modify] at hj
  obtain ⟨t, ht, rfl⟩ := Option.map_eq_some_iff.mp hj
  have hkeeps := h.served t (List.mem_of_getElem? ht)
  split_ifs with hk
  · exact hkeeps.step (fun sek hc => hown sek hc t (hk ▸ ht)) hheard
  · exact hkeeps

/-- What the listener produces is for the caller's cipher. -/
theorem OneCipher.adopt (h : m.OneCipher mode) {l : Listener} {returned : List Connection} {now : Instant}
    {sound : Prop} (hmet : Met P c₀ l₀ sound (m.adopt l returned now)) (hd : c₀.Draws P)
    (hmode : ∀ enc, c₀.config.encryption = some enc → enc.cipher = mode) :
    (m.adopt l returned now).OneCipher mode := by
  refine ⟨h.caller, fun s hs => ?_⟩
  rcases List.mem_append.mp hs with hs | hs
  · exact h.served s hs
  · obtain ⟨a, ha, rfl⟩ := List.mem_map.mp hs
    obtain ⟨id, request, t, -, hi, hacc⟩ := hmet.produced a (List.mem_append_right _ ha)
    obtain ⟨hkeys, hsaid⟩ := accept_sealed hacc hi hd hmode
    exact Session.keeps_start hkeys hsaid now

theorem OneCipher.step (h : m.OneCipher mode) {x : Move × Instant} (hmet : Met P c₀ l₀ False m)
    (hmet' : Met P c₀ l₀ False (m.step P x)) (hd : c₀.Draws P)
    (hmode : ∀ enc, c₀.config.encryption = some enc → enc.cipher = mode) (hx : m.Legal x)
    (hr : m.RekeysWith mode x) : (m.step P x).OneCipher mode := by
  obtain ⟨move, now⟩ := x
  obtain ⟨-, hlegal⟩ := hx
  have local_not_feed {call : Call} (hc : call.IsLocal) (d : Bytes) : call ≠ .feedRecvBuf d := by
    rintro rfl
    exact hc
  have hcaller : ∀ enc, m.caller.conn.config.encryption = some enc → enc.cipher = mode := by
    rw [config_of_ident hmet.caller.ident]
    exact hmode
  cases move with
  | caller call => exact h.callCaller hcaller fun d hc => absurd hc (local_not_feed hlegal.1 d)
  | callerHears i =>
    simp only [Meeting.step]
    split
    · next d hd' =>
      refine h.callCaller hcaller fun d' hc => ?_
      rw [← Call.feedRecvBuf.inj hc]
      exact h.heard hmet (List.mem_of_getElem? hd')
    · exact h
  | served k call =>
    refine h.callServed (fun sek hc s hs => ?_) fun d hc => absurd hc (local_not_feed hlegal.1 d)
    subst hc
    exact hr s hs
  | servedHears k i =>
    simp only [Meeting.step]
    split
    · next d hd' =>
      refine h.callServed (fun sek hc => by simp at hc) fun d' hc => ?_
      rw [← Call.feedRecvBuf.inj hc]
      exact h.caller.said d (.inl (List.mem_of_getElem? hd'))
    · exact h
  | listenerHears i =>
    simp only [Meeting.step] at hmet' ⊢
    split at hmet'
    · exact h.adopt hmet' hd hmode
    · exact h
  | deferAccepts => exact h.adopt hmet' hd hmode
  | pollRequest => exact h.adopt hmet' hd hmode
  | acceptPending remote => exact h.adopt hmet' hd hmode
  | rejectPending remote reason => exact h.adopt hmet' hd hmode

theorem Opened.oneCipher (h : Opened P m)
    (hmode : ∀ enc, m.caller.conn.config.encryption = some enc → enc.cipher = mode) : m.OneCipher mode := by
  obtain ⟨config, localSocketId, initialSeq, salt, sek, address, listenerConfig, listenerId, listenerSeq,
    cookieSecret, opened, now⟩ := h
  have hdraws := (connect_calls P config localSocketId initialSeq now salt sek).draws
  obtain ⟨hpending, hsaid⟩ := @connect_pending P mode config localSocketId initialSeq now salt sek
  exact ⟨Session.keeps_start (hdraws.sealed_keys hmode hpending) hsaid now, by simp [start]⟩

theorem Opened.names (h : Opened P m) {enc : EncryptionSettings}
    (henc : m.caller.conn.config.encryption = some enc) {km : Bytes}
    (hkm : m.caller.conn.keys.keyMaterial = some km) : Names enc.cipher km := by
  obtain ⟨config, localSocketId, initialSeq, salt, sek, address, listenerConfig, listenerId, listenerSeq,
    cookieSecret, opened, now⟩ := h
  cases (connect_calls P config localSocketId initialSeq now salt sek).draws with
  | plain _ hk => exact absurd (hk.symm.trans hkm) (by simp)
  | sealed enc' salt' sek' keys km' henc' hgen _ hk =>
    obtain rfl : enc' = enc := Option.some.inj (henc'.symm.trans henc)
    obtain rfl : km'.encode = km := Option.some.inj (hk.symm.trans hkm)
    exact SessionKeys.fromRaw_names (by simp) hgen

/-- While a produced connection starts a rekey only with the caller's cipher in its own configuration,
every key in either slot of either end is for the cipher that the caller's key material names. -/
theorem rotation_keeps_cipher {m₀ : Meeting} (h₀ : Opened P m₀) {enc : EncryptionSettings}
    (henc : m₀.caller.conn.config.encryption = some enc) (moves : List (Move × Instant))
    (hmoves : Runs.Meets (step P) (fun m x => m.Legal x ∧ m.RekeysWith enc.cipher x) m₀ moves) :
    (∀ km, m₀.caller.conn.keys.keyMaterial = some km → Names enc.cipher km) ∧
      ∀ s, s = (Runs.run (step P) m₀ moves).caller ∨ s ∈ (Runs.run (step P) m₀ moves).served →
        ∀ crypto flag keys, s.conn.keys.crypto = some crypto → crypto.slot flag = some keys →
          keys.mode = enc.cipher := by
  have hmode : ∀ e, m₀.caller.conn.config.encryption = some e → e.cipher = enc.cipher := by
    intro e he
    rw [Option.some.inj (he.symm.trans henc)]
  obtain ⟨c₀, l₀, hident, -, hdraws, hmet⟩ := h₀.met
  have hmode₀ : ∀ e, c₀.config.encryption = some e → e.cipher = enc.cipher := by
    rw [← config_of_ident hident]
    exact hmode
  have hrun : Met P c₀ l₀ False (Runs.run (step P) m₀ moves) ∧
      (Runs.run (step P) m₀ moves).OneCipher enc.cipher := by
    refine @Runs.invariant _ _ _ _ (fun m => Met P c₀ l₀ False m ∧ m.OneCipher enc.cipher) ?_ _ _
      ⟨hmet False, h₀.oneCipher hmode⟩ hmoves
    intro m x ⟨hm, hone⟩ ⟨hlegal, hr⟩
    have hm' := hm.step hdraws hlegal False.elim
    exact ⟨hm', hone.step hm hm' hdraws hmode₀ hlegal hr⟩
  refine ⟨fun km hkm => h₀.names henc hkm, fun s hs crypto flag keys hcrypto hslot => ?_⟩
  rcases hs with rfl | hs
  · exact hrun.2.caller.keys.slots crypto hcrypto flag keys hslot
  · exact (hrun.2.served s hs).keys.slots crypto hcrypto flag keys hslot

/-- A handshake, a packet of the acceptor, and a rekey that it starts and the caller hears of. -/
def rekeyMoves : List (Move × Instant) :=
  smoothMoves ++ [(.served 0 (.send [1]), 0), (.served 0 (.provideRekey (Recorded.sek 1)), 0),
    (.callerHears 3, 0)]

/-- A caller with AES-GCM and a listener whose connections rotate after every packet. -/
def rekeySample (cipher : CipherMode) : Meeting :=
  sample Recorded.gcmPrimitives (Session.sealedConfig .gcm)
    { Session.sealedConfig cipher with kmRefreshRate := 1 }

def rekeyed (cipher : CipherMode) : Meeting :=
  Runs.run (step Recorded.gcmPrimitives) (rekeySample cipher) rekeyMoves

/-- The ciphers of both slots at both ends. -/
def modes (m : Meeting) : List (Option (Option CipherMode × Option CipherMode)) :=
  (m.caller :: m.served).map fun s =>
    s.conn.keys.crypto.map fun crypto => (crypto.even.map (·.mode), crypto.odd.map (·.mode))

/-- An acceptor with AES-GCM of its own. -/
theorem rotation_keeps_cipher_gcm :
    (rekeyed .gcm).modes = [some (some .gcm, some .gcm), some (some .gcm, some .gcm)] ∧
      ∀ s, s = (rekeyed .gcm).caller ∨ s ∈ (rekeyed .gcm).served →
        ∀ crypto flag keys, s.conn.keys.crypto = some crypto → crypto.slot flag = some keys →
          keys.mode = .gcm := by
  have henc : (rekeySample .gcm).caller.conn.config.encryption = some ⟨Recorded.passphrase, .aes128, .gcm⟩ := by
    decide +kernel
  exact ⟨by decide +kernel, (rotation_keeps_cipher (sample_opened Recorded.gcmPrimitives _ _) henc rekeyMoves
    (by decide +kernel)).2⟩

/-- An acceptor configured for AES-CTR takes the session to AES-CTR with its first rekey. -/
theorem rotation_to_ctr :
    (Session.sealedConfig .gcm).validate = .ok () ∧
      ({ Session.sealedConfig .ctr with kmRefreshRate := 1 } : Config).validate = .ok () ∧
      Opened Recorded.gcmPrimitives (rekeySample .ctr) ∧
      Runs.Meets (step Recorded.gcmPrimitives) Legal (rekeySample .ctr) rekeyMoves ∧
      (rekeyed .ctr).modes = [some (some .gcm, some .ctr), some (some .gcm, some .ctr)] :=
  ⟨by decide +kernel, by decide +kernel, sample_opened _ _ _, by decide +kernel, by decide +kernel⟩

end Meeting

end Srtrust
