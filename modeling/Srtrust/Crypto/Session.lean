import Srtrust.Crypto.KeyMaterial
import Srtrust.Wire.Packet

/-! # Session keys (`crypto/mod.rs`, `cipher.rs`, `kek.rs`, `wrap.rs`)

The block ciphers, key derivation and key wrap come from outside the crate; they are the
parameter `Primitives` of everything here. What this module models is what the crate adds
to them: counter blocks and nonces, the checks on lengths, the two key slots and the
active one. An `expect` that can fail is a `none`. -/
namespace Srtrust
open BigEndian
set_option autoImplicit false

/-- The functions of the external cryptography crates. Each fills a buffer whose length the
caller fixes, so the lengths are part of the types. -/
structure Primitives where
  /-- AES-CTR keystream for a key and an initial counter block. -/
  keystream : Bytes → Block 16 → (n : ℕ) → Block n
  /-- AES-GCM: key, nonce, associated data, plaintext. -/
  gcmEncrypt : Bytes → Block 12 → Bytes → Bytes → Option Bytes
  gcmDecrypt : Bytes → Block 12 → Bytes → Bytes → Option Bytes
  /-- PBKDF2-HMAC-SHA1: passphrase, salt, iterations, output length. -/
  pbkdf2 : Bytes → Bytes → ℕ → (n : ℕ) → Block n
  /-- AES key wrap under a key-encrypting key. -/
  wrap : Bytes → (sek : Bytes) → Option (Block (sek.length + 8))
  unwrap : Bytes → (wrapped : Bytes) → Option (Block (wrapped.length - 8))

/-- No cryptography at all, for sessions without encryption: they call none of it. -/
def Primitives.absent : Primitives where
  keystream _ _ n := Block.zero n
  gcmEncrypt _ _ _ _ := none
  gcmDecrypt _ _ _ _ := none
  pbkdf2 _ _ _ n := Block.zero n
  wrap _ _ := none
  unwrap _ _ := none

/-- Unwrapping with the same key-encrypting key takes a wrap back. -/
def Primitives.UnwrapsWrapped (P : Primitives) : Prop :=
  ∀ (kek sek : Bytes) (w : Block (sek.length + 8)), P.wrap kek sek = some w →
    ∃ s, P.unwrap kek w.bytes = some s ∧ s.bytes = sek

/-- AES-GCM decrypts what it encrypted under the same key, nonce and associated data. -/
def Primitives.OpensSealed (P : Primitives) : Prop :=
  ∀ (key : Bytes) (nonce : Block 12) (aad plaintext sealed : Bytes),
    P.gcmEncrypt key nonce aad plaintext = some sealed → P.gcmDecrypt key nonce aad sealed = some plaintext

/-! ## Ciphers -/

/-- `counter_block`: the salt's upper 112 bits with the sequence number mixed in. -/
def counterBlock (salt : Block 16) (seq : UInt32) : Block 16 :=
  ⟨salt.bytes.take 10 ++ List.zipWith (· ^^^ ·) ((salt.bytes.drop 10).take 4) (putU32 seq) ++ [0, 0],
    by simp [salt.length_eq]⟩

/-- `gcm_nonce`: the salt's first twelve bytes with the sequence number mixed in. -/
def gcmNonce (salt : Block 16) (seq : UInt32) : Block 12 :=
  ⟨salt.bytes.take 8 ++ List.zipWith (· ^^^ ·) ((salt.bytes.drop 8).take 4) (putU32 seq),
    by simp [salt.length_eq]⟩

/-- `apply_ctr`: encrypts and decrypts. -/
def applyCtr (P : Primitives) (sek : Bytes) (salt : Block 16) (seq : UInt32) (data : Bytes) :
    Except CryptoError Bytes :=
  if IsKeyLength sek.length then
    .ok (List.zipWith (· ^^^ ·) data (P.keystream sek (counterBlock salt seq) data.length).bytes)
  else .error (.invalidKeyLength sek.length)

/-- `gcm_encrypt`. -/
def gcmEncrypt (P : Primitives) (sek : Bytes) (salt : Block 16) (seq : UInt32)
    (aad plaintext : Bytes) : Except CryptoError Bytes :=
  if IsKeyLength sek.length then
    match P.gcmEncrypt sek (gcmNonce salt seq) aad plaintext with
    | some out => .ok out
    | none => .error .authFailed
  else .error (.invalidKeyLength sek.length)

/-- `gcm_decrypt`. -/
def gcmDecrypt (P : Primitives) (sek : Bytes) (salt : Block 16) (seq : UInt32)
    (aad data : Bytes) : Except CryptoError Bytes :=
  if IsKeyLength sek.length then
    match P.gcmDecrypt sek (gcmNonce salt seq) aad data with
    | some out => .ok out
    | none => .error .authFailed
  else .error (.invalidKeyLength sek.length)

/-- `derive_kek`: from the low 64 bits of the salt, with 2048 iterations. -/
def deriveKek (P : Primitives) (passphrase : Bytes) (salt : Block 16) (keyLength : ℕ) :
    Block keyLength :=
  P.pbkdf2 passphrase (salt.bytes.drop 8) 2048 keyLength

/-- A wrap under one passphrase does not open under another. -/
def Primitives.BindsPassphrase (P : Primitives) : Prop :=
  ∀ (passphrase other : Bytes) (salt : Block 16) (sek : Bytes) (w : Block (sek.length + 8)),
    P.wrap (deriveKek P passphrase salt sek.length).bytes sek = some w → other ≠ passphrase →
      P.unwrap (deriveKek P other salt sek.length).bytes w.bytes = none

/-- `wrap_key`. -/
def wrapKey (P : Primitives) (kek sek : Bytes) : Except CryptoError Bytes :=
  if IsKeyLength kek.length then
    match P.wrap kek sek with
    | some out => .ok out.bytes
    | none => .error (.invalidKeyLength kek.length)
  else .error (.invalidKeyLength kek.length)

/-- `unwrap_key`. -/
def unwrapKey (P : Primitives) (kek wrapped : Bytes) : Except CryptoError Bytes :=
  if wrapped.length < 8 then .error .integrityCheckFailed
  else if IsKeyLength kek.length then
    match P.unwrap kek wrapped with
    | some out => .ok out.bytes
    | none => .error .integrityCheckFailed
  else .error .integrityCheckFailed

/-! ## Session keys -/

/-- `SessionKeys`: every key in use has a length the ciphers accept. -/
structure SessionKeys where
  salt : Block 16
  sek : Bytes
  mode : CipherMode
  sek_length : IsKeyLength sek.length
deriving DecidableEq

/-- `UnwrappedKm`: the slots one message delivered. -/
structure UnwrappedKm where
  even : Option SessionKeys
  odd : Option SessionKeys
deriving DecidableEq

/-- `build_key_material_for`; `none` where an `expect` fails. -/
def buildKeyMaterialFor (P : Primitives) (passphrase : Bytes) (flags : KeyFlags)
    (cipher : CipherMode) (salt : Block 16) (sek : Bytes) : Option KeyMaterial :=
  let kek := deriveKek P passphrase salt sek.length
  match wrapKey P kek.bytes sek with
  | .error _ => none
  | .ok wrapped =>
    if sek.length < 256 then
      some { keyFlags := flags, cipher, keyLength := UInt8.ofNat sek.length, salt, wrapped }
    else none

theorem wrapKey_ok {P : Primitives} {kek sek wrapped : Bytes}
    (h : wrapKey P kek sek = .ok wrapped) :
    IsKeyLength kek.length ∧ ∃ w, P.wrap kek sek = some w ∧ w.bytes = wrapped := by
  unfold wrapKey at h
  split_ifs at h with hk
  refine ⟨hk, ?_⟩
  split at h
  · rename_i w hw
    exact ⟨w, hw, by simpa using h⟩
  · simp at h

/-- What a built message is: its key length fits, and it carries the wrap of the key. -/
theorem buildKeyMaterialFor_some {P : Primitives} {passphrase : Bytes} {flags : KeyFlags}
    {cipher : CipherMode} {salt : Block 16} {sek : Bytes} {km : KeyMaterial}
    (h : buildKeyMaterialFor P passphrase flags cipher salt sek = some km) :
    IsKeyLength sek.length ∧ ∃ w,
      P.wrap (deriveKek P passphrase salt sek.length).bytes sek = some w
        ∧ km = { keyFlags := flags, cipher, keyLength := UInt8.ofNat sek.length, salt
                 wrapped := w.bytes } := by
  simp only [buildKeyMaterialFor] at h
  cases hw : wrapKey P (deriveKek P passphrase salt sek.length).bytes sek with
  | error e => simp [hw] at h
  | ok wrapped =>
    obtain ⟨hk, w, hwrap, rfl⟩ := wrapKey_ok hw
    rw [(deriveKek P passphrase salt sek.length).length_eq] at hk
    simp only [hw] at h
    split_ifs at h
    exact ⟨hk, w, hwrap, by simpa using h.symm⟩

namespace SessionKeys

/-- `from_raw`: keys and message for embedder-supplied key bytes. -/
def fromRaw (P : Primitives) (passphrase : Bytes) (flags : KeyFlags) (mode : CipherMode)
    (salt : Block 16) (sek : Bytes) : Option (SessionKeys × KeyMaterial) :=
  match h : buildKeyMaterialFor P passphrase flags mode salt sek with
  | none => none
  | some km => some (⟨salt, sek, mode, (buildKeyMaterialFor_some h).1⟩, km)

/-- `generate`: the initiator's keys from the embedder's random salt and key bytes. -/
def generate (P : Primitives) (passphrase : Bytes) (mode : CipherMode) (salt : Block 16)
    (sek : Bytes) : Option (SessionKeys × KeyMaterial) :=
  fromRaw P passphrase .even mode salt sek

/-- `from_key_material`: the slots a message announces, the even key first. -/
def fromKeyMaterial (P : Primitives) (km : KeyMaterial) (passphrase : Bytes) :
    Except CryptoError UnwrappedKm :=
  let klen := km.keyLength.toNat
  let kek := deriveKek P passphrase km.salt klen
  match unwrapKey P kek.bytes km.wrapped with
  | .error e => .error e
  | .ok sek =>
    if hk : IsKeyLength klen then
      if hl : sek.length = klen * km.keyFlags.keyCount then
        match hf : km.keyFlags with
        | .even =>
          .ok ⟨some ⟨km.salt, sek, km.cipher, by simp_all [KeyFlags.keyCount]⟩, none⟩
        | .odd =>
          .ok ⟨none, some ⟨km.salt, sek, km.cipher, by simp_all [KeyFlags.keyCount]⟩⟩
        | .both =>
          have h2 : sek.length = klen * 2 := by simp_all [KeyFlags.keyCount]
          .ok ⟨some ⟨km.salt, sek.take klen, km.cipher, by
                rw [List.length_take, Nat.min_eq_left (by omega)]; exact hk⟩,
              some ⟨km.salt, sek.drop klen, km.cipher, by
                rw [List.length_drop, h2, show klen * 2 - klen = klen by omega]; exact hk⟩⟩
      else .error (.invalidKeyLength sek.length)
    else .error .integrityCheckFailed -- the unwrap refuses such a key-encrypting key

def isAead (k : SessionKeys) : Bool := k.mode = .gcm

/-- `encrypt`; `none` where an `expect` fails. -/
def encrypt (P : Primitives) (k : SessionKeys) (seq : UInt32) (aad plaintext : Bytes) :
    Option Bytes :=
  match k.mode with
  | .ctr => (applyCtr P k.sek k.salt seq plaintext).toOption
  | .gcm => (gcmEncrypt P k.sek k.salt seq aad plaintext).toOption

/-- `decrypt`: AES-CTR always succeeds, AES-GCM fails on a bad tag. -/
def decrypt (P : Primitives) (k : SessionKeys) (seq : UInt32) (aad data : Bytes) : Option Bytes :=
  match k.mode with
  | .ctr => (applyCtr P k.sek k.salt seq data).toOption
  | .gcm => (gcmDecrypt P k.sek k.salt seq aad data).toOption

/-- The `expect` on the key length cannot fail: the length is part of the keys. -/
theorem applyCtr_ok (P : Primitives) (k : SessionKeys) (seq : UInt32) (data : Bytes) :
    applyCtr P k.sek k.salt seq data = .ok (List.zipWith (· ^^^ ·) data
      (P.keystream k.sek (counterBlock k.salt seq) data.length).bytes) := by
  rw [applyCtr, if_pos k.sek_length]

theorem zipWith_xor_cancel {data stream : Bytes} (h : data.length ≤ stream.length) :
    List.zipWith (· ^^^ ·) (List.zipWith (· ^^^ ·) data stream) stream = data := by
  induction data generalizing stream with
  | nil => rfl
  | cons b data ih =>
    cases stream with
    | nil => exact absurd h (by simp)
    | cons k stream =>
      rw [List.zipWith_cons_cons, List.zipWith_cons_cons, ih (by simpa using h), UInt8.xor_assoc,
        UInt8.xor_self, UInt8.xor_zero]

/-- AES-CTR is its own inverse: the keystream depends on the length alone, which it keeps. -/
theorem applyCtr_applyCtr (P : Primitives) (k : SessionKeys) (seq : UInt32) (data out : Bytes)
    (h : applyCtr P k.sek k.salt seq data = .ok out) : applyCtr P k.sek k.salt seq out = .ok data := by
  rw [applyCtr_ok, Except.ok.injEq] at h
  have hstream := (P.keystream k.sek (counterBlock k.salt seq) data.length).length_eq
  have hlen : out.length = data.length := by
    rw [← h, List.length_zipWith, hstream, Nat.min_self]
  rw [applyCtr_ok, hlen, ← h, zipWith_xor_cancel hstream.ge]

theorem decrypt_encrypt {P : Primitives} (hP : P.OpensSealed) {k : SessionKeys} {seq : UInt32}
    {aad plaintext out : Bytes} (h : k.encrypt P seq aad plaintext = some out) :
    k.decrypt P seq aad out = some plaintext := by
  unfold encrypt at h
  unfold decrypt
  cases hm : k.mode with
  | ctr =>
    simp only [hm, applyCtr_ok] at h
    have hback := applyCtr_applyCtr P k seq plaintext out (by rw [applyCtr_ok]; exact congrArg _ (Option.some.inj h))
    simp only [hback]
    rfl
  | gcm =>
    simp only [hm, gcmEncrypt, if_pos k.sek_length] at h
    cases hs : P.gcmEncrypt k.sek (gcmNonce k.salt seq) aad plaintext with
    | none => simp [hs, Except.toOption] at h
    | some sealed =>
      obtain rfl : sealed = out := by simpa [hs, Except.toOption] using h
      simp only [gcmDecrypt, if_pos k.sek_length, hP _ _ _ _ _ hs]
      rfl

/-- The keys a message announces, in the slot it names. -/
def announced (flags : KeyFlags) (keys : SessionKeys) : UnwrappedKm :=
  match flags with
  | .odd => ⟨none, some keys⟩
  | _ => ⟨some keys, none⟩

theorem fromRaw_some {P : Primitives} {passphrase : Bytes} {flags : KeyFlags} {mode : CipherMode}
    {salt : Block 16} {sek : Bytes} {keys : SessionKeys} {km : KeyMaterial}
    (h : fromRaw P passphrase flags mode salt sek = some (keys, km)) :
    buildKeyMaterialFor P passphrase flags mode salt sek = some km
      ∧ keys.salt = salt ∧ keys.sek = sek ∧ keys.mode = mode := by
  unfold fromRaw at h
  split at h
  · simp at h
  · next km' hkm =>
    obtain ⟨rfl, rfl⟩ := Prod.mk.inj (Option.some.inj h)
    exact ⟨hkm, rfl, rfl, rfl⟩

theorem toNat_keyLength {n : ℕ} (h : IsKeyLength n) : (UInt8.ofNat n).toNat = n := by
  rw [UInt8.toNat_ofNat', Nat.mod_eq_of_lt]
  rcases h with h | h | h <;> omega

/-- Built messages for one slot conform. -/
theorem fromRaw_conforming {P : Primitives} {passphrase : Bytes} {flags : KeyFlags} {mode : CipherMode}
    {salt : Block 16} {sek : Bytes} {keys : SessionKeys} {km : KeyMaterial} (hf : flags ≠ .both)
    (h : fromRaw P passphrase flags mode salt sek = some (keys, km)) : km.Conforming := by
  obtain ⟨hlen, w, -, rfl⟩ := buildKeyMaterialFor_some (fromRaw_some h).1
  have hk := toNat_keyLength hlen
  refine ⟨by rw [hk]; exact hlen, ?_⟩
  rw [hk, w.length_eq]
  cases flags <;> simp_all [KeyFlags.keyCount, icvLen]

/-- Unwrapping a message for one slot. -/
theorem fromKeyMaterial_ok {P : Primitives} {km : KeyMaterial} {passphrase : Bytes} (keys : SessionKeys)
    (hf : km.keyFlags ≠ .both) (hsalt : km.salt = keys.salt) (hmode : km.cipher = keys.mode)
    (hlen : km.keyLength.toNat = keys.sek.length)
    (hopen : unwrapKey P (deriveKek P passphrase km.salt km.keyLength.toNat).bytes km.wrapped = .ok keys.sek) :
    fromKeyMaterial P km passphrase = .ok (announced km.keyFlags keys) := by
  obtain ⟨flags, cipher, keyLength, salt, wrapped⟩ := km
  obtain ⟨salt', sek, mode, hkey⟩ := keys
  dsimp only at hsalt hmode hlen hopen ⊢
  subst hsalt hmode
  have hk : IsKeyLength keyLength.toNat := by
    rw [hlen]
    exact hkey
  unfold fromKeyMaterial
  simp only [hopen, hk, dite_true]
  cases flags with
  | even => simp [KeyFlags.keyCount, hlen, announced]
  | odd => simp [KeyFlags.keyCount, hlen, announced]
  | both => exact absurd rfl hf

/-- Whoever knows the passphrase opens a built message and gets the sender's keys. -/
theorem fromKeyMaterial_fromRaw {P : Primitives} (hP : P.UnwrapsWrapped) {passphrase : Bytes}
    {flags : KeyFlags} {mode : CipherMode} {salt : Block 16} {sek : Bytes} {keys : SessionKeys}
    {km : KeyMaterial} (hf : flags ≠ .both)
    (h : fromRaw P passphrase flags mode salt sek = some (keys, km)) :
    fromKeyMaterial P km passphrase = .ok (announced flags keys) := by
  obtain ⟨hbuild, rfl, rfl, rfl⟩ := fromRaw_some h
  obtain ⟨hlen, w, hwrap, rfl⟩ := buildKeyMaterialFor_some hbuild
  obtain ⟨s, hunwrap, hs⟩ := hP _ _ w hwrap
  have hk := toNat_keyLength hlen
  refine fromKeyMaterial_ok keys hf rfl rfl hk ?_
  dsimp only
  rw [hk, unwrapKey, if_neg (by rw [w.length_eq]; omega), if_pos (by rw [Block.length_eq]; exact hlen),
    hunwrap]
  simp [hs]

/-- Whoever has another passphrase does not. -/
theorem fromKeyMaterial_foreign {P : Primitives} (hP : P.BindsPassphrase) {passphrase other : Bytes}
    {flags : KeyFlags} {mode : CipherMode} {salt : Block 16} {sek : Bytes} {keys : SessionKeys}
    {km : KeyMaterial} (h : fromRaw P passphrase flags mode salt sek = some (keys, km))
    (hne : other ≠ passphrase) : ∃ e, fromKeyMaterial P km other = .error e := by
  obtain ⟨hlen, w, hwrap, rfl⟩ := buildKeyMaterialFor_some (fromRaw_some h).1
  have hk := toNat_keyLength hlen
  have hrefuse := hP passphrase other salt sek w hwrap hne
  refine ⟨.integrityCheckFailed, ?_⟩
  have hopen : unwrapKey P (deriveKek P other salt (UInt8.ofNat sek.length).toNat).bytes w.bytes
      = .error .integrityCheckFailed := by
    rw [hk, unwrapKey]
    split_ifs <;> simp [hrefuse]
  unfold fromKeyMaterial
  dsimp only
  rw [hopen]

end SessionKeys

/-! ## The two slots -/

/-- `SessionCrypto`: the even and odd keys, and the slot new packets use. -/
structure SessionCrypto where
  even : Option SessionKeys
  odd : Option SessionKeys
  active : Encryption
deriving DecidableEq

namespace SessionCrypto

/-- A connection that starts on the even key. -/
def ofEven (keys : SessionKeys) : SessionCrypto := ⟨some keys, none, .even⟩

def fromInitial (km : UnwrappedKm) : SessionCrypto :=
  ⟨km.even, km.odd, if km.even.isSome then .even else .odd⟩

def installUnwrapped (c : SessionCrypto) (km : UnwrappedKm) : SessionCrypto :=
  { c with even := km.even.or c.even, odd := km.odd.or c.odd }

def install (c : SessionCrypto) (flags : KeyFlags) (keys : SessionKeys) : SessionCrypto :=
  match flags with
  | .odd => { c with odd := some keys }
  | .even => { c with even := some keys }
  | .both => { c with even := some keys }

/-- `next_flags`: the slot a rotation switches to. -/
def nextFlags (c : SessionCrypto) : KeyFlags :=
  match c.active with
  | .odd => .even
  | _ => .odd

def salt (c : SessionCrypto) : Option (Block 16) := (c.even.or c.odd).map (·.salt)

def activate (c : SessionCrypto) (flags : KeyFlags) : SessionCrypto :=
  match flags with
  | .odd => { c with active := .odd }
  | .even => { c with active := .even }
  | .both => { c with active := .even }

/-- The keys outgoing packets are encrypted with. -/
def activeKeys (c : SessionCrypto) : Option SessionKeys :=
  match c.active with
  | .odd => c.odd
  | _ => c.even

/-- `encrypt`: the ciphertext and the keys it was made with; `none` where the active slot is
empty or a cipher's `expect` fails. -/
def encrypt (P : Primitives) (c : SessionCrypto) (seq : UInt32) (aad payload : Bytes) :
    Option (Bytes × SessionKeys) := do
  let keys ← c.activeKeys
  let out ← keys.encrypt P seq aad payload
  some (out, keys)

def isAead (c : SessionCrypto) : Bool :=
  match c.activeKeys with
  | some keys => keys.isAead
  | none => false

/-- The keys of the slot a packet's flag names. -/
def slot (c : SessionCrypto) (flag : Encryption) : Option SessionKeys :=
  match flag with
  | .even => c.even
  | .odd => c.odd
  | .none => none

/-- `decrypt`: with the keys of the slot the flag names, which are returned too. -/
def decrypt (P : Primitives) (c : SessionCrypto) (seq : UInt32) (flag : Encryption)
    (aad payload : Bytes) : Option (Bytes × SessionKeys) := do
  let keys ← c.slot flag
  let out ← keys.decrypt P seq aad payload
  some (out, keys)

end SessionCrypto

end Srtrust
