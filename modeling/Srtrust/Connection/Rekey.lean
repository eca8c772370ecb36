import Srtrust.Connection.State

/-! # Key rotation (`connection/rekey.rs`)

The sender counts the packets under its key, asks the embedder for a fresh one before the
refresh point, announces it, and switches once the peer's echo has confirmed it. The
receiver installs what the peer announces and echoes it. -/
namespace Srtrust
open BigEndian
set_option autoImplicit false

/-- Extension type and control subtype of a Key Material request. -/
def extKmreq : UInt16 := 3

/-- Extension type and control subtype of a Key Material response. -/
def extKmrsp : UInt16 := 4

/-- `KM_REFRESH_DEFAULT`. -/
def kmRefreshDefault : ℕ := 2 ^ 24

/-- `MAX_KM_RETRIES`. -/
def maxKmRetries : ℕ := 60

namespace Connection

def kmRefresh (c : Connection) : ℕ :=
  if c.config.kmRefreshRate = 0 then kmRefreshDefault else c.config.kmRefreshRate

def kmPreannounce (c : Connection) : ℕ := max (c.kmRefresh / 4) 1

/-- The first half of `account_key_and_maybe_rotate`: switch to the confirmed next key at the
refresh point. -/
def rotateIfDue (c : Connection) (crypto : SessionCrypto) : Connection :=
  if c.keys.nextKeyReady ∧ c.kmRefresh ≤ c.keys.packetsOnKey then
    { c with
      keys :=
        { c.keys with
          crypto := some (crypto.activate crypto.nextFlags)
          packetsOnKey := 0
          nextKeyReady := false } }
  else c

/-- The second half: count the packet, and ask for the next key a quarter window early. -/
def countAndAnnounce (c : Connection) : Connection :=
  let c := { c with keys := { c.keys with packetsOnKey := min (c.keys.packetsOnKey + 1) 0xFFFFFFFF } }
  let announceAt := c.kmRefresh - c.kmPreannounce
  match c.config.encryption with
  | some enc =>
    if c.keys.rekeyPending = false ∧ c.keys.nextKeyReady = false ∧ c.keys.pendingKm = none
        ∧ announceAt ≤ c.keys.packetsOnKey then
      { c with keys := { c.keys with rekeyPending := true } }.event
        (.keyRefreshNeeded enc.keySize.bytes)
    else c
  | none => c

/-- `account_key_and_maybe_rotate`. -/
def accountKeyAndMaybeRotate (c : Connection) : Connection :=
  match c.keys.crypto with
  | none => c
  | some crypto => (c.rotateIfDue crypto).countAndAnnounce

/-- `km_control` and `emit`: a Key Material message in a user-defined control packet. -/
def emitKm (c : Connection) (subtype : UInt16) (cif : Bytes) (now : Instant) : Connection :=
  c.emitControl (.raw .userDefined subtype 0 cif) now

/-- Replaces the session's keys. -/
def setCrypto (c : Connection) (crypto : SessionCrypto) : Connection :=
  { c with keys := { c.keys with crypto := some crypto } }

/-- Notes the announcement that is to be confirmed. -/
def awaitKmRsp (c : Connection) (km : Bytes) : Connection :=
  { c with keys := { c.keys with rekeyPending := false, pendingKm := some km, kmRetries := 0 } }

/-- `provide_rekey`: install the embedder's key as the next one and announce it. -/
def provideRekey (P : Primitives) (c : Connection) (sek : Bytes) (now : Instant) : Connection :=
  if c.keys.rekeyPending = false then c -- unsolicited or already handled
  else
    match c.config.encryption, c.keys.crypto with
    | some enc, some crypto =>
      match crypto.salt with
      | none => c
      | some salt =>
        match SessionKeys.fromRaw P enc.passphrase crypto.nextFlags enc.cipher salt sek with
        | none => c.panicked
        | some (keys, km) =>
          ((c.setCrypto (crypto.install crypto.nextFlags keys)).emitKm extKmreq km.encode now).awaitKmRsp
            km.encode
    | _, _ => c

/-- `on_km_rsp`: the echo of the pending announcement confirms the next key. -/
def onKmRsp (c : Connection) (cif : Bytes) : Connection :=
  if c.keys.pendingKm = some cif then
    { c with keys := { c.keys with pendingKm := none, nextKeyReady := true } }
  else c

/-- `resend_pending_km`. -/
def resendPendingKm (c : Connection) (now : Instant) : Connection :=
  match c.keys.pendingKm with
  | none => c
  | some km =>
    if maxKmRetries ≤ c.keys.kmRetries then { c with keys := { c.keys with pendingKm := none } }
    else { c with keys := { c.keys with kmRetries := c.keys.kmRetries + 1 } }.emitKm extKmreq km now

/-- `on_km_req`: install every announced slot and echo the message. -/
def onKmReq (P : Primitives) (c : Connection) (cif : Bytes) (now : Instant) : Connection :=
  match c.config.encryption, KeyMaterial.decode cif, c.keys.crypto with
  | some enc, .ok km, some crypto =>
    match SessionKeys.fromKeyMaterial P km enc.passphrase with
    | .error _ => c
    | .ok unwrapped =>
      (c.setCrypto (crypto.installUnwrapped unwrapped)).emitKm extKmrsp cif now
  | _, _, _ => c

end Connection

end Srtrust
