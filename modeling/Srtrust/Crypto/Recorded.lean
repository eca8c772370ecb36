import Srtrust.Crypto.Session

/-! # Recorded primitives

The values of the external functions at the inputs of the sample sessions: one passphrase, one
salt, four stream keys, and the keystream of the first three sequence numbers under each. At
any other input the functions refuse or return zeros; for results that assume of the functions
that they refuse nothing, there is a second version which adds a lawful value there. -/
namespace Srtrust
open BigEndian
set_option autoImplicit false

namespace Recorded

/-- A block filled from the front, with zeros behind. -/
def pad (bytes : Bytes) (n : ℕ) : Block n := ⟨(bytes ++ List.replicate n 0).take n, by simp⟩

def passphrase : Bytes := [112, 97, 115, 115, 112, 104, 114, 97, 115, 101]

def salt : Block 16 := ⟨[0, 1, 2, 3, 4, 5, 6, 7, 8, 9, 10, 11, 12, 13, 14, 15], rfl⟩

/-- PBKDF2 of the passphrase and the salt's lower half, 2048 iterations. -/
def kek : Bytes := [224, 186, 162, 155, 146, 85, 104, 77, 238, 94, 5, 1, 149, 253, 205, 25]

/-- Four stream keys. -/
def sek (i : UInt8) : Bytes := (List.range 16).map fun j => 16 * (i + 1) + UInt8.ofNat j

/-- The stream keys, and the first two together, with their AES key wraps. -/
def wraps : List (Bytes × Bytes) :=
  [(sek 0, [54, 122, 207, 139, 89, 139, 169, 241, 73, 231, 233, 102, 33, 226, 146, 13, 75, 29, 154,
      102, 15, 252, 196, 18]),
    (sek 1, [156, 228, 122, 41, 253, 72, 232, 56, 75, 200, 79, 152, 77, 21, 17, 189, 244, 155, 130,
      109, 225, 43, 110, 121]),
    (sek 2, [8, 58, 235, 68, 90, 124, 128, 89, 6, 149, 75, 252, 221, 51, 110, 144, 16, 23, 131, 187,
      168, 186, 137, 216]),
    (sek 3, [157, 138, 149, 40, 235, 152, 249, 158, 92, 108, 105, 88, 152, 71, 39, 174, 46, 107, 175,
      211, 240, 254, 238, 73]),
    (sek 0 ++ sek 1, [139, 220, 243, 66, 85, 85, 246, 211, 158, 169, 61, 37, 185, 194, 109, 73, 136, 142,
      99, 67, 235, 30, 219, 188, 172, 128, 122, 240, 68, 65, 226, 137, 253, 153, 2, 152, 219, 37, 108, 183])]

/-- The first bytes of the keystreams: stream key, sequence number, AES of the counter block. -/
def keystreams : List (Bytes × UInt32 × Bytes) :=
  [(sek 0, 0, [225, 20, 237, 9, 173, 223, 139, 74]), (sek 0, 1, [222, 84, 241, 244, 170, 223, 190, 119]),
    (sek 0, 2, [100, 163, 24, 183, 8, 108, 240, 160]), (sek 1, 0, [85, 122, 45, 183, 154, 58, 125, 93]),
    (sek 1, 1, [224, 223, 124, 195, 31, 129, 149, 97]), (sek 1, 2, [232, 45, 35, 40, 51, 160, 203, 207]),
    (sek 2, 0, [66, 149, 87, 246, 61, 111, 95, 68]), (sek 2, 1, [107, 123, 215, 211, 83, 220, 44, 76]),
    (sek 2, 2, [87, 249, 189, 13, 32, 158, 241, 31]), (sek 3, 0, [36, 102, 96, 176, 251, 84, 182, 127]),
    (sek 3, 1, [150, 15, 7, 124, 163, 156, 165, 50]), (sek 3, 2, [188, 112, 26, 176, 19, 84, 249, 41])]

def primitives : Primitives where
  keystream key counter n :=
    match keystreams.find? fun e => e.1 = key ∧ (counterBlock salt e.2.1).bytes = counter.bytes with
    | some e => pad e.2.2 n
    | none => Block.zero n
  gcmEncrypt _ _ _ _ := none
  gcmDecrypt _ _ _ _ := none
  pbkdf2 pass s iterations n :=
    if pass = passphrase ∧ s = salt.bytes.drop 8 ∧ iterations = 2048 then pad kek n else Block.zero n
  wrap k key :=
    match wraps.find? fun e => k = kek ∧ e.1 = key with
    | some e => if h : e.2.length = key.length + 8 then some ⟨e.2, h⟩ else none
    | none => none
  unwrap k wrapped :=
    match wraps.find? fun e => k = kek ∧ e.2 = wrapped with
    | some e => if h : e.1.length = wrapped.length - 8 then some ⟨e.1, h⟩ else none
    | none => none

theorem unwrap_of_mem {e : Bytes × Bytes} (he : e ∈ wraps) :
    ∃ s, primitives.unwrap kek e.2 = some s ∧ s.bytes = e.1 := by
  fin_cases he <;> exact ⟨_, rfl, rfl⟩

theorem unwrapsWrapped : primitives.UnwrapsWrapped := by
  intro k key w h
  simp only [primitives] at h
  split at h
  · next e he =>
    have hmem := List.mem_of_find?_eq_some he
    have hkey := List.find?_some he
    simp only [decide_eq_true_eq] at hkey
    obtain ⟨rfl, rfl⟩ := hkey
    split at h
    · obtain rfl := Option.some.inj h
      exact unwrap_of_mem hmem
    · simp at h
  · simp at h

theorem passphrase_of_kek {pass : Bytes} {s : Block 16} {n : ℕ}
    (h : (deriveKek primitives pass s n).bytes = kek) : pass = passphrase := by
  by_contra hne
  have hzero : (deriveKek primitives pass s n).bytes = List.replicate n 0 := by
    rw [deriveKek]
    simp [primitives, hne, Block.zero]
  have hmem : (224 : UInt8) ∈ List.replicate n 0 := by
    rw [← hzero, h]
    simp [kek]
  simpa using List.eq_of_mem_replicate hmem

theorem kek_of_wrap {k key : Bytes} {w : Block (key.length + 8)} (h : primitives.wrap k key = some w) :
    k = kek := by
  simp only [primitives] at h
  split at h
  · next e he =>
    have hkey := List.find?_some he
    simp only [decide_eq_true_eq] at hkey
    exact hkey.1
  · simp at h

theorem unwrap_foreign {k : Bytes} (h : k ≠ kek) (wrapped : Bytes) : primitives.unwrap k wrapped = none := by
  have hnone : (wraps.find? fun e => k = kek ∧ e.2 = wrapped) = none := by simp [h]
  simp only [primitives, hnone]

theorem bindsPassphrase : primitives.BindsPassphrase := by
  intro pass other s key w h hne
  refine unwrap_foreign (fun hk => hne ?_) _
  rw [passphrase_of_kek hk, passphrase_of_kek (kek_of_wrap h)]

/-! ## AES-GCM -/

/-- An encryption: stream key, sequence number, associated data, plaintext, ciphertext and tag. -/
def sealings : List (Bytes × UInt32 × Bytes × Bytes × Bytes) :=
  [(sek 0, 0, [0, 0, 0, 0, 232, 0, 0, 1, 0, 0, 0, 0, 0, 0, 0, 1], [1],
      [240, 10, 246, 241, 86, 191, 21, 8, 165, 199, 94, 118, 176, 114, 92, 252, 220]),
    (sek 0, 1, [0, 0, 0, 1, 232, 0, 0, 2, 0, 0, 0, 0, 0, 0, 0, 1], [2],
      [159, 162, 208, 96, 98, 136, 218, 129, 147, 218, 54, 10, 8, 243, 127, 211, 57])]

/-- The recorded primitives with AES-GCM at those inputs. -/
def gcmPrimitives : Primitives :=
  { primitives with
    gcmEncrypt := fun key nonce aad plaintext =>
      (sealings.find? fun e => e.1 = key ∧ (gcmNonce salt e.2.1).bytes = nonce.bytes ∧ e.2.2.1 = aad
        ∧ e.2.2.2.1 = plaintext).map fun e => e.2.2.2.2
    gcmDecrypt := fun key nonce aad data =>
      (sealings.find? fun e => e.1 = key ∧ (gcmNonce salt e.2.1).bytes = nonce.bytes ∧ e.2.2.1 = aad
        ∧ e.2.2.2.2 = data).map fun e => e.2.2.2.1 }

theorem open_of_mem {e : Bytes × UInt32 × Bytes × Bytes × Bytes} (he : e ∈ sealings) :
    gcmPrimitives.gcmDecrypt e.1 (gcmNonce salt e.2.1) e.2.2.1 e.2.2.2.2 = some e.2.2.2.1 := by
  fin_cases he <;> decide +kernel

theorem gcmPrimitives_opensSealed : gcmPrimitives.OpensSealed := by
  rintro key ⟨nonce, hlength⟩ aad plaintext out h
  obtain ⟨e, hfind, rfl⟩ := Option.map_eq_some_iff.mp h
  have hkey := List.find?_some hfind
  simp only [decide_eq_true_eq] at hkey
  obtain ⟨rfl, rfl, rfl, rfl⟩ := hkey
  exact open_of_mem (List.mem_of_find?_eq_some hfind)

/-! ## With a value everywhere -/

/-- The recorded primitives, with a value that has the laws of the real one where nothing is recorded: a wrap
puts the check value behind the key, and sealing puts a tag behind the message. -/
def lawfulPrimitives : Primitives where
  keystream := primitives.keystream
  gcmEncrypt key nonce aad plaintext :=
    some ((gcmPrimitives.gcmEncrypt key nonce aad plaintext).getD (plaintext ++ List.replicate 16 0))
  gcmDecrypt key nonce aad sealed :=
    some ((gcmPrimitives.gcmDecrypt key nonce aad sealed).getD (sealed.take (sealed.length - 16)))
  pbkdf2 := primitives.pbkdf2
  wrap k key := some ((primitives.wrap k key).getD ⟨key ++ List.replicate 8 0xA6, by simp⟩)
  unwrap k wrapped := some ((primitives.unwrap k wrapped).getD ⟨wrapped.take (wrapped.length - 8), by simp⟩)

/-- No recorded wrap ends like those that are not recorded. -/
theorem unwrap_unrecorded (k key : Bytes) : primitives.unwrap k (key ++ List.replicate 8 0xA6) = none := by
  have hnone : (wraps.find? fun e => k = kek ∧ e.2 = key ++ List.replicate 8 0xA6) = none := by
    rw [List.find?_eq_none]
    intro e he hmatch
    simp only [decide_eq_true_eq] at hmatch
    have hlast : e.2.getLast? = some 0xA6 := by
      rw [hmatch.2, List.getLast?_append]
      rfl
    revert hlast
    fin_cases he <;> decide
  simp only [primitives, hnone]

theorem lawfulPrimitives_unwrapsWrapped : lawfulPrimitives.UnwrapsWrapped := by
  intro k key w h
  obtain rfl := Option.some.inj h
  cases hwrap : primitives.wrap k key with
  | some w =>
    obtain ⟨s, hs, hkey⟩ := unwrapsWrapped k key w hwrap
    refine ⟨s, ?_, hkey⟩
    change some ((primitives.unwrap k w.bytes).getD _) = some s
    rw [hs, Option.getD_some]
  | none =>
    refine ⟨_, rfl, ?_⟩
    rw [Option.getD_none, unwrap_unrecorded]
    simp

end Recorded

end Srtrust
