import Srtrust.Buffers.Recv

/-! # Estimators and pacing (`rtt.rs`, `drift.rs`, `rate.rs`, `live_cc.rs`)

Four small accumulators the connection feeds: the smoothed round-trip time, the clock-drift
correction, the delivery-rate window and the pacing period. Signed divisions truncate
toward zero, as the source's do; the pacer's average is a 64-bit float there and here. -/
namespace Srtrust
set_option autoImplicit false

/-! ## Round-trip time -/

structure RttEstimator where
  rtt : Duration
  var : Duration
  sampled : Bool
deriving DecidableEq, Repr

namespace RttEstimator

/-- Initial values: 100 ms and 50 ms. -/
def new : RttEstimator := ⟨Duration.fromMillis 100, Duration.fromMillis 50, false⟩

/-- Whole microseconds, saturating at the 64-bit maximum. -/
def micros (d : Duration) : ℕ := min (Duration.asMicros d) 0xFFFFFFFFFFFFFFFF

/-- `saturating_mul` on 64-bit words. -/
def saturatingMul (a b : ℕ) : ℕ := min (a * b) 0xFFFFFFFFFFFFFFFF

def sample (e : RttEstimator) (s : Duration) : RttEstimator :=
  let rtt := micros s
  if e.sampled = false then ⟨s, Duration.fromMicros (rtt / 2), true⟩
  else
    let oldRtt := micros e.rtt
    let oldVar := micros e.var
    -- the variance uses the old smoothed value
    let newVar := (saturatingMul oldVar 3 + ((oldRtt : ℤ) - rtt).natAbs) / 4
    let newRtt := (saturatingMul oldRtt 7 + rtt) / 8
    { e with rtt := Duration.fromMicros newRtt, var := Duration.fromMicros newVar }

/-- `rto`: `RTT + 4 * RTTVar`. -/
def rto (e : RttEstimator) : Duration := e.rtt + 4 * e.var

end RttEstimator

/-! ## Clock drift -/

structure DriftTracer where
  sumUs : ℤ
  count : ℕ
  correctionUs : ℤ
  firstRttUs : Option ℤ
deriving DecidableEq, Repr

namespace DriftTracer

/-- `DRIFT_SPAN`. -/
def driftSpan : ℕ := 1000

def new : DriftTracer := ⟨0, 0, 0, none⟩

def sample (t : DriftTracer) (observedUs rttUs : ℤ) : DriftTracer :=
  let firstRtt := t.firstRttUs.getD rttUs
  let rttDelta := (rttUs - firstRtt).tdiv 2
  let sumUs := t.sumUs + (observedUs - rttDelta)
  let count := t.count + 1
  if driftSpan ≤ count then
    ⟨0, 0, t.correctionUs + sumUs.tdiv count, some firstRtt⟩
  else ⟨sumUs, count, t.correctionUs, some firstRtt⟩

end DriftTracer

/-! ## Delivery rate -/

structure RateEstimator where
  windowStartUs : Option ℕ
  lastUs : Option ℕ
  packets : ℕ
  bytes : ℕ
  minGapUs : ℕ
  pps : ℕ
  bps : ℕ
  peakPps : ℕ
deriving DecidableEq, Repr

namespace RateEstimator

/-- `WIRE_HEADER`. -/
def wireHeader : ℕ := 16 + 28

/-- `WINDOW_US`. -/
def windowUs : ℕ := 1000000

def new : RateEstimator := ⟨none, none, 0, 0, 0, 0, 0, 0⟩

def record (r : RateEstimator) (nowUs payload : ℕ) : RateEstimator :=
  let start := r.windowStartUs.getD nowUs
  let minGapUs :=
    match r.lastUs with
    | some last =>
      let gap := nowUs - last
      if 0 < gap ∧ (r.minGapUs = 0 ∨ gap < r.minGapUs) then clampU32 gap else r.minGapUs
    | none => r.minGapUs
  let packets := r.packets + 1
  let bytes := r.bytes + payload + wireHeader
  let elapsed := nowUs - start
  if windowUs ≤ elapsed then
    { windowStartUs := some nowUs
      lastUs := some nowUs
      packets := 0
      bytes := 0
      minGapUs := 0
      pps := clampU32 (1000000 * packets / elapsed)
      bps := clampU32 (1000000 * bytes / elapsed)
      peakPps := if 0 < minGapUs then clampU32 (1000000 / minGapUs) else r.peakPps }
  else
    { r with windowStartUs := some start, lastUs := some nowUs, packets, bytes, minGapUs }

/-- `delivery_rate`: packets and bytes per second of the last completed window. -/
def deliveryRate (r : RateEstimator) : ℕ × ℕ := (r.pps, r.bps)

def peakRate (r : RateEstimator) : ℕ := r.peakPps

end RateEstimator

/-! ## Pacing -/

structure LiveCc where
  maxBw : ℕ
  avgPayload : Float
  sndPeriod : Duration

namespace LiveCc

/-- `MAX_PAYLOAD`. -/
def maxPayload : Float := 1456.0

/-- `WIRE_OVERHEAD`. -/
def wireOverhead : ℕ := 44

/-- `(AvgPayloadSize + overhead) * 1_000_000 / MAX_BW` microseconds. -/
def computePeriod (maxBw : ℕ) (avgPayload : Float) : Duration :=
  let pktSize := avgPayload.round.toUInt64.toNat + wireOverhead
  Duration.fromMicros (RttEstimator.saturatingMul pktSize 1000000 / maxBw)

def new (maxBw : ℕ) : LiveCc := ⟨maxBw, maxPayload, computePeriod maxBw maxPayload⟩

def onPacketSent (cc : LiveCc) (payloadSize : ℕ) : LiveCc :=
  { cc with avgPayload := 7.0 / 8.0 * cc.avgPayload + 1.0 / 8.0 * payloadSize.toFloat }

def onAck (cc : LiveCc) : LiveCc := { cc with sndPeriod := computePeriod cc.maxBw cc.avgPayload }

end LiveCc

end Srtrust
