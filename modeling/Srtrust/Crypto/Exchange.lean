import Srtrust.Crypto.Recorded

/-! # Key Material between two peers

A message written by one peer and read by the other, for one slot or for both: the key length travels
divided by four, the number of wrapped bytes follows from the slots announced, and the key-encrypting
key is derived again from what was read. -/
namespace Srtrust
open BigEndian
set_option autoImplicit false

/-! ## What is asked of the external functions -/

/-- AES key wrap takes every key of two or more whole blocks. -/
def Primitives.WrapsKeys (P : Primitives) : Prop :=
  ∀ kek sek : Bytes, IsKeyLength kek.length → sek.length % 8 = 0 → 16 ≤ sek.length → (P.wrap kek sek).isSome

/-- AES-GCM seals every message within its limits. -/
def Primitives.Seals (P : Primitives) : Prop :=
  ∀ (key : Bytes) (nonce : Block 12) (aad plaintext : Bytes), IsKeyLength key.length →
    aad.length ≤ 2 ^ 36 → plaintext.length ≤ 2 ^ 36 → (P.gcmEncrypt key nonce aad plaintext).isSome

/-! ## Reading -/

/-- What is accepted is a message a sender could have built. -/
theorem KeyMaterial.conforming_of_decode {buf : Bytes} {km : KeyMaterial} (h : decode buf = .ok km) :
    km.Conforming := by
  simp only [decode, bind, Except.bind] at h
  generalize KeyFlags.fromKk _ = flags at h
  generalize CipherMode.fromWire _ = cipher at h
  cases flags with
  | error e => split_ifs at h
  | ok flags =>
    cases cipher with
    | error e => split_ifs at h
    | ok cipher =>
      dsimp only at h
      split_ifs at h with hheader hversion hpacket hsign hsalt hkey hlen
      generalize (getU8 (getU8 _).2).1.toNat * 4 = keyLength at h hkey hlen
      generalize (getU8 (getU8 _).2).2 = rest at h hlen
      obtain rfl := Except.ok.inj h
      have hnat : (UInt8.ofNat keyLength).toNat = keyLength := SessionKeys.toNat_keyLength hkey
      refine ⟨?_, ?_⟩
      · rw [hnat]
        exact hkey
      · rw [hnat, getBlock, List.length_take, List.length_drop, Nat.min_eq_left]
        rw [saltLen] at hlen
        omega

namespace SessionKeys

/-! ## Building -/

theorem buildKeyMaterialFor_isSome {P : Primitives} (hP : P.WrapsKeys) (passphrase : Bytes) (flags : KeyFlags)
    (cipher : CipherMode) (salt : Block 16) {sek : Bytes} (hlen : IsKeyLength sek.length) :
    ∃ km, buildKeyMaterialFor P passphrase flags cipher salt sek = some km := by
  have hkek : IsKeyLength (deriveKek P passphrase salt sek.length).bytes.length := by
    rw [Block.length_eq]
    exact hlen
  have hblocks : sek.length % 8 = 0 ∧ 16 ≤ sek.length ∧ sek.length < 256 := by
    rcases hlen with h | h | h <;> omega
  obtain ⟨w, hw⟩ := Option.isSome_iff_exists.mp (hP _ sek hkek hblocks.1 hblocks.2.1)
  simp only [buildKeyMaterialFor, wrapKey, if_pos hkek, hw, if_pos hblocks.2.2]
  exact ⟨_, rfl⟩

/-- No `expect` fails for a key of valid length. -/
theorem fromRaw_isSome {P : Primitives} (hP : P.WrapsKeys) (passphrase : Bytes) (flags : KeyFlags)
    (mode : CipherMode) (salt : Block 16) {sek : Bytes} (hlen : IsKeyLength sek.length) :
    ∃ keys km, fromRaw P passphrase flags mode salt sek = some (keys, km) := by
  obtain ⟨km, hkm⟩ := buildKeyMaterialFor_isSome hP passphrase flags mode salt hlen
  unfold fromRaw
  split
  · next hnone =>
    rw [hkm] at hnone
    cases hnone
  · exact ⟨_, _, rfl⟩

/-! ## Both slots -/

/-- The message that announces two keys at once: the even key first. -/
def bothMaterial (mode : CipherMode) (salt : Block 16) (even odd : Bytes)
    (wrapped : Block ((even ++ odd).length + 8)) : KeyMaterial where
  keyFlags := .both
  cipher := mode
  keyLength := UInt8.ofNat even.length
  salt := salt
  wrapped := wrapped.bytes

variable {even odd : Bytes}

theorem bothMaterial_conforming (mode : CipherMode) (salt : Block 16)
    (wrapped : Block ((even ++ odd).length + 8)) (heven : IsKeyLength even.length)
    (hodd : odd.length = even.length) : (bothMaterial mode salt even odd wrapped).Conforming := by
  have hnat := toNat_keyLength heven
  refine ⟨?_, ?_⟩
  · simp only [bothMaterial, hnat]
    exact heven
  · simp only [bothMaterial, hnat, wrapped.length_eq, List.length_append, hodd, KeyFlags.keyCount, icvLen]
    omega

theorem fromKeyMaterial_both {P : Primitives} (hP : P.UnwrapsWrapped) {passphrase : Bytes} {mode : CipherMode}
    {salt : Block 16} {wrapped : Block ((even ++ odd).length + 8)} (heven : IsKeyLength even.length)
    (hodd : odd.length = even.length)
    (hwrap : P.wrap (deriveKek P passphrase salt even.length).bytes (even ++ odd) = some wrapped) :
    ∃ u, fromKeyMaterial P (bothMaterial mode salt even odd wrapped) passphrase = .ok u
      ∧ u.even.map (fun k => (k.salt, k.sek, k.mode)) = some (salt, even, mode)
      ∧ u.odd.map (fun k => (k.salt, k.sek, k.mode)) = some (salt, odd, mode) := by
  obtain ⟨s, hunwrap, hs⟩ := hP _ _ wrapped hwrap
  have hnat := toNat_keyLength heven
  have hopen : unwrapKey P (deriveKek P passphrase salt (UInt8.ofNat even.length).toNat).bytes wrapped.bytes
      = .ok (even ++ odd) := by
    rw [hnat, unwrapKey, if_neg (by rw [wrapped.length_eq]; omega), if_pos (by rw [Block.length_eq]; exact heven),
      hunwrap]
    simp only [hs]
  have hsize : (even ++ odd).length = even.length * KeyFlags.both.keyCount := by
    rw [List.length_append, hodd, KeyFlags.keyCount]
    omega
  unfold fromKeyMaterial
  simp only [bothMaterial, hopen, hnat, heven, hsize, dite_true]
  refine ⟨_, rfl, ?_, ?_⟩
  · simp
  · simp

/-! ## The exchange -/

/-- Key Material survives the wire: a message built for one slot puts its key, salt and cipher into that
slot and nothing into the other, a message for both fills both, the even key first, and what is read
is written back the same. -/
theorem key_material_round_trip {P : Primitives} (hunwraps : P.UnwrapsWrapped) (hwraps : P.WrapsKeys) :
    (∀ (passphrase : Bytes) (flags : KeyFlags) (mode : CipherMode) (salt : Block 16) (sek : Bytes),
      flags ≠ .both → IsKeyLength sek.length →
      ∃ keys km, fromRaw P passphrase flags mode salt sek = some (keys, km)
        ∧ keys.salt = salt ∧ keys.sek = sek ∧ keys.mode = mode
        ∧ (KeyMaterial.decode km.encode).bind (fun read => fromKeyMaterial P read passphrase)
          = .ok (if flags = .odd then ⟨none, some keys⟩ else ⟨some keys, none⟩))
    ∧ (∀ (passphrase : Bytes) (mode : CipherMode) (salt : Block 16) (even odd : Bytes),
      IsKeyLength even.length → odd.length = even.length →
      ∃ wrapped, P.wrap (deriveKek P passphrase salt even.length).bytes (even ++ odd) = some wrapped
        ∧ ∃ u, (KeyMaterial.decode (bothMaterial mode salt even odd wrapped).encode).bind
            (fun read => fromKeyMaterial P read passphrase) = .ok u
          ∧ u.even.map (fun k => (k.salt, k.sek, k.mode)) = some (salt, even, mode)
          ∧ u.odd.map (fun k => (k.salt, k.sek, k.mode)) = some (salt, odd, mode))
    ∧ ∀ (b : Bytes) (k : KeyMaterial), KeyMaterial.decode b = .ok k → KeyMaterial.decode k.encode = .ok k := by
  refine ⟨?_, ?_, fun b k h => KeyMaterial.decode_encode k (KeyMaterial.conforming_of_decode h)⟩
  · intro passphrase flags mode salt sek hflags hlen
    obtain ⟨keys, km, hraw⟩ := fromRaw_isSome hwraps passphrase flags mode salt hlen
    obtain ⟨-, hsalt, hsek, hmode⟩ := fromRaw_some hraw
    refine ⟨keys, km, hraw, hsalt, hsek, hmode, ?_⟩
    rw [KeyMaterial.decode_encode km (fromRaw_conforming hflags hraw)]
    refine (fromKeyMaterial_fromRaw hunwraps hflags hraw).trans ?_
    cases flags with
    | even => rfl
    | odd => rfl
    | both => exact absurd rfl hflags
  · intro passphrase mode salt even odd heven hodd
    have hkek : IsKeyLength (deriveKek P passphrase salt even.length).bytes.length := by
      rw [Block.length_eq]
      exact heven
    have hblocks : (even ++ odd).length % 8 = 0 ∧ 16 ≤ (even ++ odd).length := by
      rw [List.length_append, hodd]
      rcases heven with h | h | h <;> omega
    obtain ⟨wrapped, hwrap⟩ := Option.isSome_iff_exists.mp (hwraps _ _ hkek hblocks.1 hblocks.2)
    refine ⟨wrapped, hwrap, ?_⟩
    rw [KeyMaterial.decode_encode _ (bothMaterial_conforming mode salt wrapped heven hodd)]
    exact fromKeyMaterial_both hunwraps heven hodd hwrap

end SessionKeys

namespace Recorded

theorem lawfulPrimitives_wrapsKeys : lawfulPrimitives.WrapsKeys := fun _ _ _ _ _ => rfl

theorem lawfulPrimitives_seals : lawfulPrimitives.Seals := fun _ _ _ _ _ _ _ => rfl

end Recorded

/-- The recorded second key for the odd slot under AES-GCM, and the first two keys in one message. -/
theorem SessionKeys.key_material_round_trip_recorded :
    (∃ keys km, fromRaw Recorded.lawfulPrimitives Recorded.passphrase .odd .gcm Recorded.salt (Recorded.sek 1)
        = some (keys, km)
      ∧ keys.salt = Recorded.salt ∧ keys.sek = Recorded.sek 1 ∧ keys.mode = .gcm
      ∧ (KeyMaterial.decode km.encode).bind
          (fun read => fromKeyMaterial Recorded.lawfulPrimitives read Recorded.passphrase) = .ok ⟨none, some keys⟩)
    ∧ ∃ wrapped, Recorded.primitives.wrap Recorded.kek (Recorded.sek 0 ++ Recorded.sek 1) = some wrapped
      ∧ ∃ u, (KeyMaterial.decode
            (bothMaterial .ctr Recorded.salt (Recorded.sek 0) (Recorded.sek 1) wrapped).encode).bind
            (fun read => fromKeyMaterial Recorded.lawfulPrimitives read Recorded.passphrase) = .ok u
        ∧ u.even.map (fun k => (k.salt, k.sek, k.mode)) = some (Recorded.salt, Recorded.sek 0, .ctr)
        ∧ u.odd.map (fun k => (k.salt, k.sek, k.mode)) = some (Recorded.salt, Recorded.sek 1, .ctr) := by
  obtain ⟨hone, hboth, -⟩ :=
    key_material_round_trip Recorded.lawfulPrimitives_unwrapsWrapped Recorded.lawfulPrimitives_wrapsKeys
  refine ⟨hone Recorded.passphrase .odd .gcm Recorded.salt (Recorded.sek 1) (by decide) (by decide), ?_⟩
  obtain ⟨wrapped, hwrap, hread⟩ := hboth Recorded.passphrase .ctr Recorded.salt (Recorded.sek 0) (Recorded.sek 1)
    (by decide) (by decide)
  have hkek : (deriveKek Recorded.lawfulPrimitives Recorded.passphrase Recorded.salt (Recorded.sek 0).length).bytes
      = Recorded.kek := by decide +kernel
  have hrecorded : (Recorded.primitives.wrap Recorded.kek (Recorded.sek 0 ++ Recorded.sek 1)).isSome := by
    decide +kernel
  obtain ⟨recorded, hsome⟩ := Option.isSome_iff_exists.mp hrecorded
  rw [hkek] at hwrap
  refine ⟨recorded, hsome, ?_⟩
  obtain rfl : recorded = wrapped := by
    refine Option.some.inj (Eq.trans ?_ hwrap)
    change _ = some ((Recorded.primitives.wrap _ _).getD _)
    rw [hsome]
    rfl
  exact hread

end Srtrust
