import Srtrust.Crypto.Exchange
import Srtrust.Session.Ciphertext
import Srtrust.Session.Provenance

/-! # The keys in hand

The slots are written by the handshake, by the embedder's rekeys and by the peer's, and a rotation
switches between them. The slot in use always holds a key, and so does the other one by the time a
rotation may switch to it, so no packet meets an empty slot, and no cipher a key of the wrong length. -/
namespace Srtrust
open BigEndian
set_option autoImplicit false

/-! ## Slots -/

namespace SessionCrypto

/-- The keys of the slot a rotation switches to. -/
def nextKeys (c : SessionCrypto) : Option SessionKeys :=
  match c.active with
  | .odd => c.even
  | _ => c.odd

theorem activeKeys_activate (c : SessionCrypto) : (c.activate c.nextFlags).activeKeys = c.nextKeys := by
  unfold nextFlags nextKeys
  cases c.active <;> rfl

theorem nextKeys_activate (c : SessionCrypto) : (c.activate c.nextFlags).nextKeys = c.activeKeys := by
  unfold nextFlags activeKeys
  cases c.active <;> rfl

theorem activeKeys_install (c : SessionCrypto) (keys : SessionKeys) :
    (c.install c.nextFlags keys).activeKeys = c.activeKeys := by
  unfold nextFlags activeKeys
  cases ha : c.active <;> simp [install, ha]

theorem nextKeys_install (c : SessionCrypto) (keys : SessionKeys) :
    (c.install c.nextFlags keys).nextKeys = some keys := by
  unfold nextFlags nextKeys
  cases ha : c.active <;> simp [install, ha]

/-- What the peer announces fills slots and empties none. -/
theorem activeKeys_installUnwrapped {c : SessionCrypto} (h : c.activeKeys.isSome) (km : UnwrappedKm) :
    (c.installUnwrapped km).activeKeys.isSome := by
  unfold activeKeys at h ⊢
  simp only [installUnwrapped]
  cases ha : c.active <;> simp_all

theorem nextKeys_installUnwrapped {c : SessionCrypto} (h : c.nextKeys.isSome) (km : UnwrappedKm) :
    (c.installUnwrapped km).nextKeys.isSome := by
  unfold nextKeys at h ⊢
  simp only [installUnwrapped]
  cases ha : c.active <;> simp_all

theorem activeKeys_fromInitial {km : UnwrappedKm} (h : km.even.isSome ∨ km.odd.isSome) :
    (fromInitial km).activeKeys.isSome := by
  unfold fromInitial activeKeys
  by_cases he : km.even.isSome
  · simp [he]
  · simpa [he] using h

/-- With a key in the active slot, encryption within the cipher's limits does not fail. -/
theorem encrypt_isSome {P : Primitives} (hP : P.Seals) {c : SessionCrypto} (h : c.activeKeys.isSome)
    (seq : UInt32) {aad payload : Bytes} (haad : aad.length ≤ 2 ^ 36) (hpayload : payload.length ≤ 2 ^ 36) :
    ∃ out keys, c.encrypt P seq aad payload = some (out, keys) := by
  obtain ⟨keys, hkeys⟩ := Option.isSome_iff_exists.mp h
  have hout : ∃ out, keys.encrypt P seq aad payload = some out := by
    unfold SessionKeys.encrypt
    cases keys.mode with
    | ctr => exact ⟨_, by simp only [SessionKeys.applyCtr_ok]; rfl⟩
    | gcm =>
      obtain ⟨out, hseal⟩ := Option.isSome_iff_exists.mp
        (hP keys.sek (gcmNonce keys.salt seq) aad payload keys.sek_length haad hpayload)
      exact ⟨out, by simp only [gcmEncrypt, if_pos keys.sek_length, hseal]; rfl⟩
  obtain ⟨out, hout⟩ := hout
  exact ⟨out, keys, by simp [encrypt, hkeys, hout]⟩

end SessionCrypto

/-- Some slot of an unwrapped message holds a key. -/
theorem SessionKeys.fromKeyMaterial_fills {P : Primitives} {km : KeyMaterial} {passphrase : Bytes}
    {u : UnwrappedKm} (h : fromKeyMaterial P km passphrase = .ok u) : u.even.isSome ∨ u.odd.isSome := by
  unfold fromKeyMaterial at h
  dsimp only at h
  split at h
  · cases h
  · split_ifs at h
    split at h
    all_goals
      obtain rfl := Except.ok.inj h
      simp

/-! ## Over the calls -/

/-- The active slot holds a key, and the next one too where a rotation to it may follow. -/
structure Keys.Populated (k : Keys) : Prop where
  active : ∀ crypto, k.crypto = some crypto → crypto.activeKeys.isSome
  next : ∀ crypto, k.crypto = some crypto → k.nextKeyReady = true ∨ k.pendingKm.isSome →
    crypto.nextKeys.isSome

namespace Connection

theorem accountKey_populated {c : Connection} (h : c.keys.Populated) :
    c.accountKeyAndMaybeRotate.keys.Populated := by
  obtain ⟨hpending, ⟨hsame, hready⟩ | ⟨crypto, hcrypto, hready, hrotated, -⟩⟩ := accountKey_keys c
  · refine ⟨?_, ?_⟩
    · rw [hsame]
      exact h.active
    · rw [hsame, hready, hpending]
      exact h.next
  · -- the slots change places
    refine ⟨?_, ?_⟩
    · intro crypto' he
      obtain rfl := Option.some.inj (hrotated.symm.trans he)
      rw [SessionCrypto.activeKeys_activate]
      exact h.next crypto hcrypto (.inl hready)
    · intro crypto' he _
      obtain rfl := Option.some.inj (hrotated.symm.trans he)
      rw [SessionCrypto.nextKeys_activate]
      exact h.active crypto hcrypto

theorem provideRekey_populated (P : Primitives) {c : Connection} (sek : Bytes) (now : Instant)
    (h : c.keys.Populated) : (c.provideRekey P sek now).keys.Populated := by
  unfold provideRekey
  split
  · exact h
  · split
    · next enc crypto _ hcrypto =>
      split
      · exact h
      · split
        · exact h
        · next keys km _ =>
          have hkeys : ((c.setCrypto (crypto.install crypto.nextFlags keys)).emitKm extKmreq km.encode now).keys
              = { c.keys with crypto := some (crypto.install crypto.nextFlags keys) } := by
            rw [emitKm_keys]
            rfl
          have hawait : ∀ (d : Connection) bytes, (d.awaitKmRsp bytes).keys
              = { d.keys with rekeyPending := false, pendingKm := some bytes, kmRetries := 0 } := fun _ _ => rfl
          rw [hawait, hkeys]
          refine ⟨?_, ?_⟩
          · intro crypto' he
            obtain rfl := Option.some.inj he
            rw [SessionCrypto.activeKeys_install]
            exact h.active crypto hcrypto
          · intro crypto' he _
            obtain rfl := Option.some.inj he
            rw [SessionCrypto.nextKeys_install]
            rfl
    · exact h

theorem onKmReq_populated (P : Primitives) {c : Connection} (cif : Bytes) (now : Instant)
    (h : c.keys.Populated) : (c.onKmReq P cif now).keys.Populated := by
  unfold onKmReq
  split
  · next enc km crypto _ _ hcrypto =>
    split
    · exact h
    · next unwrapped _ =>
      rw [emitKm_keys]
      refine ⟨?_, ?_⟩
      · intro crypto' he
        obtain rfl := Option.some.inj he
        exact SessionCrypto.activeKeys_installUnwrapped (h.active crypto hcrypto) unwrapped
      · intro crypto' he hnext
        obtain rfl := Option.some.inj he
        exact SessionCrypto.nextKeys_installUnwrapped (h.next crypto hcrypto hnext) unwrapped
  · exact h

/-- No call empties a slot that is in use, whatever the peer sends. -/
theorem populated_dispatch (P : Primitives) :
    Dispatch P (fun _ _ => True) (fun _ _ => True) (fun c => c.keys.Populated) where
  settles _ _ h hc := by
    rw [h.keys]
    exact hc
  originates _ _ _ _ _ _ h hc := by
    rw [h.keys]
    exact accountKey_populated hc
  provideRekey _ sek now _ hc := provideRekey_populated P sek now hc
  kmReq _ cif now _ hc := onKmReq_populated P cif now hc
  kmRsp c cif hc := by
    unfold onKmRsp
    split
    · next hpending => exact ⟨hc.active, fun crypto he _ => hc.next crypto he (.inr (by simp [hpending]))⟩
    · exact hc
  resend c now hc := by
    unfold resendPendingKm
    split
    · exact hc
    · split
      · exact ⟨hc.active, fun crypto he hnext => hc.next crypto he (.inl (by simpa using hnext))⟩
      · rw [emitKm_keys]
        exact ⟨hc.active, hc.next⟩
  peerFrame _ _ _ h := h

/-! ## No `expect` fails -/

theorem length_headerAad (p : DataPacket) : p.headerAad.length = 16 := by
  simp [DataPacket.headerAad]

/-- A fragment within the cipher's limits is sealed and sent. -/
theorem sendData_populated {P : Primitives} (hP : P.Seals) {c : Connection} (h : c.keys.Populated)
    {fragment : Fragment} (hsize : fragment.payload.length ≤ 2 ^ 36) (now : Instant) :
    ∃ stored calls, Originates P fragment now stored calls c (c.sendData P fragment now) := by
  have hkeys := accountKey_populated h
  have hsealed : ∃ stored calls, c.accountKeyAndMaybeRotate.sealPacket P
      (c.accountKeyAndMaybeRotate.dataPacket fragment now) = some (stored, calls) := by
    unfold sealPacket
    cases hcrypto : c.accountKeyAndMaybeRotate.keys.crypto with
    | none => exact ⟨_, _, rfl⟩
    | some crypto =>
      generalize hpacket : c.accountKeyAndMaybeRotate.dataPacket fragment now = packet
      have hpayload : packet.payload.length ≤ 2 ^ 36 := by
        rw [← hpacket]
        exact hsize
      have haad : packet.headerAad.length ≤ 2 ^ 36 := by
        rw [length_headerAad]
        norm_num
      obtain ⟨out, keys, hout⟩ := SessionCrypto.encrypt_isSome hP (hkeys.active crypto hcrypto)
        packet.seq.value haad hpayload
      simp only [hout, Option.bind_eq_bind, Option.bind_some]
      exact ⟨_, _, rfl⟩
  obtain ⟨stored, calls, hsealed⟩ := hsealed
  exact ⟨stored, calls, sendData_sealed hsealed⟩

/-- The fragments that were sent or wait in the queue. -/
def taken (c : Connection) : ℕ := c.originals.length + c.tx.sendQueue.length

theorem fragmentMessage_sizes (c : Connection) (payload : Bytes) (message : UInt32) :
    ∀ fragment ∈ c.fragmentMessage payload message, fragment.payload.length ≤ 2 ^ 36 := by
  intro fragment hf
  have hlen := (fragmentPayload_mem _ _ _ fragment hf).2
  have hmax := (maxPayload_bounds c).2
  omega

/-- A sender whose fragments can be sealed, with `n` of them taken. -/
structure Sealable (n : ℕ) (c : Connection) : Prop where
  keys : c.keys.Populated
  sizes : ∀ fragment ∈ c.tx.sendQueue, fragment.payload.length ≤ 2 ^ 36
  taken : c.taken = n

namespace Sealable
variable {P : Primitives} {n : ℕ} {c : Connection}

theorem sendData (hP : P.Seals) (h : c.Sealable n) {fragment : Fragment}
    (hsize : fragment.payload.length ≤ 2 ^ 36) (now : Instant) :
    (c.sendData P fragment now).Sealable (n + 1) := by
  obtain ⟨stored, calls, ho⟩ := sendData_populated hP h.keys hsize now
  have hqueue := (sendData_queue P c fragment now).1
  refine ⟨?_, ?_, ?_⟩
  · rw [ho.keys]
    exact accountKey_populated h.keys
  · rw [hqueue]
    exact h.sizes
  · have hn := h.taken
    unfold Connection.taken at hn ⊢
    rw [hqueue, ho.originals, List.length_append, List.length_singleton]
    omega

theorem sendAll (hP : P.Seals) (now : Instant) (fragments : List Fragment) (h : c.Sealable n)
    (hsize : ∀ f ∈ fragments, f.payload.length ≤ 2 ^ 36) :
    (fragments.foldl (fun c fragment => c.sendData P fragment now) c).Sealable (n + fragments.length) := by
  induction fragments generalizing c n with
  | nil => exact h
  | cons fragment rest ih =>
    have hnext := ih (h.sendData hP (hsize fragment List.mem_cons_self) now)
      fun f hf => hsize f (List.mem_cons_of_mem _ hf)
    rw [List.foldl_cons, List.length_cons, Nat.add_comm rest.length 1, ← Nat.add_assoc]
    exact hnext

theorem pace (hP : P.Seals) (now : Instant) (h : c.Sealable n) : (c.pace P now).Sealable n := by
  unfold Connection.pace
  split
  · exact h
  · next cc _ =>
    have hreleased : (c.release P cc.sndPeriod now).Sealable n := by
      refine @release_rule (Sealable n) P _ now ?_ ?_ c h
      · intro c t hc
        exact ⟨hc.keys, hc.sizes, hc.taken⟩
      · intro c fragment rest hc hqueue
        have hsizes := hc.sizes
        have htaken := hc.taken
        rw [Connection.taken, hqueue, List.length_cons] at htaken
        rw [hqueue] at hsizes
        rw [← htaken, ← Nat.add_assoc]
        have hwaiting : (c.setQueue rest).Sealable (c.originals.length + rest.length) :=
          ⟨hc.keys, fun f (hf : f ∈ rest) => hsizes f (List.mem_cons_of_mem _ hf), rfl⟩
        exact hwaiting.sendData hP (hsizes fragment List.mem_cons_self) now
    generalize c.release P cc.sndPeriod now = d at hreleased ⊢
    have hlink := schedulePacing_linkStep d now
    have hquotes : Quotes d (d.schedulePacing now) := hlink.quotes (schedulePacing_sends d now)
    obtain ⟨ts, ht, hts⟩ := hquotes.trace
    refine ⟨?_, ?_, ?_⟩
    · rw [hlink.keys]
      exact hreleased.keys
    · rw [hquotes.sendQueue]
      exact hreleased.sizes
    · rw [Connection.taken, hquotes.sendQueue, originals_append ht hts]
      exact hreleased.taken

theorem submit (hP : P.Seals) (payload : Bytes) (now : Instant) (h : c.Sealable n) :
    (c.submit P payload now).Sealable (n + (c.fragmentMessage payload c.tx.nextMessage).length) := by
  have hsizes := fragmentMessage_sizes c payload c.tx.nextMessage
  unfold Connection.submit
  dsimp only
  split
  · exact sendAll hP now _ ⟨h.keys, h.sizes, h.taken⟩ hsizes
  · apply pace hP now
    refine ⟨h.keys, ?_, ?_⟩
    · intro fragment hf
      exact (List.mem_append.mp hf).elim (h.sizes fragment) (hsizes fragment)
    · rw [← h.taken, Connection.taken, Connection.taken, Nat.add_assoc, ← List.length_append]
      rfl

end Sealable

/-- No call loses a fragment. -/
theorem perform_taken {P : Primitives} (hP : P.Seals) {c : Connection} (h : c.Sealable c.taken)
    (call : Call) (now : Instant) :
    (c.perform P call now).taken = c.taken
      + ((c.acceptedBy P call now).flatMap (c.fragmentMessage · c.tx.nextMessage)).length := by
  by_cases hsend : ∃ payload, call = .send payload
  · obtain ⟨payload, rfl⟩ := hsend
    rcases perform_send_accepted P c payload now with ⟨he, ha⟩ | ⟨he, ha⟩
    · rw [he, ha]
      rfl
    · rw [he, ha, List.flatMap_singleton]
      exact (h.submit hP payload now).taken
  · have hnone : c.acceptedBy P call now = [] := by
      cases call <;> first | rfl | exact absurd ⟨_, rfl⟩ hsend
    rw [hnone, List.flatMap_nil, List.length_nil, Nat.add_zero]
    by_cases hpace : call = .handleTimer .sndPacing
    · subst hpace
      exact (h.pace hP now).taken
    · have hquotes := perform_quotes P c call now (fun payload he => hsend ⟨payload, he⟩) hpace
      obtain ⟨ts, ht, hts⟩ := hquotes.trace
      rw [taken, hquotes.sendQueue, originals_append ht hts]
      rfl

end Connection

theorem KeySize.bytes_isKeyLength (k : KeySize) : IsKeyLength k.bytes := by
  cases k <;> decide

namespace Connection

/-- A caller draws its first key where its configuration asks for one. -/
theorem connect_keys (P : Primitives) (config : Config) (localSocketId : SocketId) (initialSeq : SeqNumber)
    (now : Instant) (salt : Block 16) (sek : (n : ℕ) → Block n) :
    (connect P config localSocketId initialSeq now salt sek).keys.Populated
      ∧ (P.WrapsKeys → config.encryption.isSome →
        (connect P config localSocketId initialSeq now salt sek).keys.crypto.isSome) := by
  have hbare : ∀ state, (newBase config localSocketId initialSeq now .caller state).keys.Populated := by
    intro state
    refine ⟨?_, ?_⟩
    · intro crypto he
      cases he
    · intro crypto he
      cases he
  unfold connect
  dsimp only
  cases henc : config.encryption with
  | none =>
    dsimp only
    rw [sendInduction_keys]
    exact ⟨hbare _, by simp⟩
  | some enc =>
    dsimp only
    cases hgen : SessionKeys.generate P enc.passphrase enc.cipher salt (sek enc.keySize.bytes).bytes with
    | none =>
      refine ⟨hbare .induction, fun hP _ => ?_⟩
      have hlen : IsKeyLength (sek enc.keySize.bytes).bytes.length := by
        rw [Block.length_eq]
        exact enc.keySize.bytes_isKeyLength
      obtain ⟨keys, km, hraw⟩ := SessionKeys.fromRaw_isSome hP enc.passphrase .even enc.cipher salt hlen
      rw [SessionKeys.generate, hraw] at hgen
      cases hgen
    | some made =>
      dsimp only
      rw [sendInduction_keys]
      refine ⟨⟨?_, ?_⟩, fun _ _ => rfl⟩
      · intro crypto he
        obtain rfl := Option.some.inj he
        rfl
      · intro crypto _ hnext
        rcases hnext with hnext | hnext
        · cases hnext
        · cases hnext

theorem accept_keys {P : Primitives} {config : Config} {localSocketId : SocketId} {hs : Handshake}
    {now : Instant} {c : Connection} (h : accept P config localSocketId hs now = .ok c) :
    c.keys.Populated := by
  obtain ⟨⟨opened, keyMaterial⟩, hcrypto, hkeys⟩ := (accept_spec h).1.crypto
  have hbefore : c.keys.nextKeyReady = false ∧ c.keys.pendingKm = none := by
    unfold accept at h
    split at h
    · cases h
    · dsimp only at h
      split at h <;>
        (obtain rfl := Except.ok.inj h; exact ⟨by simp only [enterConnected, event, output]; rfl,
          by simp only [enterConnected, event, output]; rfl⟩)
  refine ⟨?_, ?_⟩
  · intro crypto he
    obtain ⟨unwrapped, rfl, rfl⟩ := Option.map_eq_some_iff.mp (hkeys.symm.trans he)
    apply SessionCrypto.activeKeys_fromInitial
    unfold acceptCrypto at hcrypto
    split at hcrypto
    · cases hcrypto
    · cases hcrypto
    · cases hcrypto
    · split at hcrypto
      · cases hcrypto
      · split at hcrypto
        · cases hcrypto
        · next keys hopened =>
          obtain ⟨hsome, -⟩ := Prod.mk.inj (Except.ok.inj hcrypto)
          obtain rfl := Option.some.inj hsome
          exact SessionKeys.fromKeyMaterial_fills hopened
  · intro crypto _ hnext
    rw [hbefore.1, hbefore.2] at hnext
    simp at hnext

end Connection

namespace Session
open Connection

theorem Started.populated {P : Primitives} {s : Session} (h : Started P s) : s.conn.keys.Populated := by
  cases h with
  | caller config localSocketId initialSeq now salt sek =>
    exact (connect_keys P config localSocketId initialSeq now salt sek).1
  | acceptor config localSocketId callerHs now c h =>
    have hkeys := accept_keys h
    exact hkeys

theorem run_populated {P : Primitives} {s : Session} (h : Started P s) (inputs : List (Call × Instant)) :
    (Runs.run (step P) s inputs).conn.keys.Populated :=
  run_dispatch (populated_dispatch P) h.populated
    (Runs.meets_of_forall (fun _ _ => ⟨fun _ _ => trivial, fun _ _ => trivial⟩) _ _)

theorem run_sealable {P : Primitives} {s : Session} (h : Started P s) (inputs : List (Call × Instant))
    (c : Connection) (hc : c = (Runs.run (step P) s inputs).conn) : c.Sealable c.taken := by
  obtain ⟨sent, htraced⟩ := run_traced h inputs
  have hmanifest := htraced.manifest
  rw [← hc] at hmanifest
  refine ⟨hc ▸ run_populated h inputs, ?_, rfl⟩
  intro fragment hf
  obtain ⟨carried, waiting, hsub, -, hqueue, -⟩ := hmanifest.fragments
  rw [← hqueue] at hf
  obtain ⟨f, hwaits, rfl⟩ := List.mem_map.mp hf
  obtain ⟨m, hm, hlen⟩ := outgoing_length (hsub.subset (List.mem_append_right carried hwaits))
  have hsize := (hmanifest.sizes m hm).2
  omega

/-- The session's cryptography does not panic, over any run and whatever the peer sends. The active slot
holds a key, which encrypts what is within the cipher's limits, and every key has a length the ciphers
take; no call of the embedder loses a fragment to a failed encryption; a rekey with as many bytes as the
configuration asks for is built, and so is the first key of a caller. -/
theorem crypto_never_panics {P : Primitives} (hwraps : P.WrapsKeys) (hseals : P.Seals) {s₀ : Session}
    (h : Started P s₀) (inputs : List (Call × Instant)) (c : Connection)
    (hc : c = (Runs.run (step P) s₀ inputs).conn) :
    (∀ crypto, c.keys.crypto = some crypto →
      crypto.activeKeys.isSome
        ∧ (∀ seq aad payload, aad.length ≤ 2 ^ 36 → payload.length ≤ 2 ^ 36 →
          (crypto.encrypt P seq aad payload).isSome)
        ∧ ∀ flag keys, crypto.slot flag = some keys → IsKeyLength keys.sek.length
          ∧ ∀ seq data, ∃ out, applyCtr P keys.sek keys.salt seq data = .ok out)
    ∧ (∀ call now, (c.perform P call now).taken = c.taken
      + ((c.acceptedBy P call now).flatMap (c.fragmentMessage · c.tx.nextMessage)).length)
    ∧ (∀ enc flags salt sek, c.config.encryption = some enc → sek.length = enc.keySize.bytes →
      (SessionKeys.fromRaw P enc.passphrase flags enc.cipher salt sek).isSome)
    ∧ ∀ config localSocketId initialSeq now salt (sek : (n : ℕ) → Block n), config.encryption.isSome →
      (connect P config localSocketId initialSeq now salt sek).keys.crypto.isSome := by
  have hsealable := run_sealable h inputs c hc
  refine ⟨?_, fun call now => perform_taken hseals hsealable call now, ?_, ?_⟩
  · intro crypto hcrypto
    have hactive := hsealable.keys.active crypto hcrypto
    refine ⟨hactive, ?_, ?_⟩
    · intro seq aad payload haad hpayload
      obtain ⟨out, keys, hout⟩ := SessionCrypto.encrypt_isSome hseals hactive seq haad hpayload
      rw [hout]
      rfl
    · intro flag keys _
      exact ⟨keys.sek_length, fun seq data => ⟨_, SessionKeys.applyCtr_ok P keys seq data⟩⟩
  · intro enc flags salt sek _ hlen
    have hkey : IsKeyLength sek.length := hlen ▸ enc.keySize.bytes_isKeyLength
    obtain ⟨keys, km, hraw⟩ := SessionKeys.fromRaw_isSome hwraps enc.passphrase flags enc.cipher salt hkey
    rw [hraw]
    rfl
  · intro config localSocketId initialSeq now salt sek henc
    exact (connect_keys P config localSocketId initialSeq now salt sek).2 hwraps henc

/-- An acceptor that holds its caller's recorded AES-GCM key. -/
def keyedAcceptor : Session := accepting Recorded.lawfulPrimitives (sealedConfig .gcm) (sealedConclusion .gcm)

/-- After a message and a malformed datagram, a next message is sealed too, both as recorded. -/
theorem crypto_never_panics_keyed :
    (Runs.run (step Recorded.lawfulPrimitives) keyedAcceptor
        [(.send [1], 0), (.feedRecvBuf [255, 255, 0, 3], 1), (.send [2], 2)]).conn.outstanding.map (·.payload)
      = Recorded.sealings.map (·.2.2.2.2)
    ∧ ((Runs.run (step Recorded.lawfulPrimitives) keyedAcceptor
        [(.send [1], 0), (.feedRecvBuf [255, 255, 0, 3], 1)]).conn.perform Recorded.lawfulPrimitives
          (.send [2]) 2).taken = 2 := by
  have hstarted : Started Recorded.lawfulPrimitives keyedAcceptor := accepting_started (by decide +kernel)
  refine ⟨by decide +kernel, ?_⟩
  rw [(crypto_never_panics Recorded.lawfulPrimitives_wrapsKeys Recorded.lawfulPrimitives_seals hstarted
    [(.send [1], 0), (.feedRecvBuf [255, 255, 0, 3], 1)] _ rfl).2.1 (.send [2]) 2]
  decide +kernel

end Session

end Srtrust
