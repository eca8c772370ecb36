import Srtrust.Session.Drift
import Srtrust.Session.Hosting
import Srtrust.Session.Unanswered

/-! # The range of the time arithmetic

The source computes drop budgets and timeline offsets in signed 64-bit words and play times on a clock
of 64-bit seconds; the model computes on the integers. This module names the intermediate values and
bounds them. The correction of the drift estimator does not add up over time: at the end of an epoch it
is the mean distance of the arrivals from the uncorrected timeline, so it is bounded by the clock and the
timestamps alone. -/
namespace Srtrust
open BigEndian
set_option autoImplicit false

/-! ## Ranges -/

/-- The values of an `i64`. -/
def FitsI64 (x : ℤ) : Prop := -0x8000000000000000 ≤ x ∧ x ≤ 0x7FFFFFFFFFFFFFFF

instance (x : ℤ) : Decidable (FitsI64 x) := inferInstanceAs (Decidable (_ ∧ _))

/-- The instants of a signed 64-bit count of seconds with nanoseconds. -/
def Instant.Representable (t : Instant) : Prop := Instant.origin ≤ t ∧ t < 0x8000000000000000 * 1000000000

instance (t : Instant) : Decidable t.Representable := inferInstanceAs (Decidable (_ ∧ _))

namespace Connection

/-- The drop budget of `drop_too_late`. -/
def dropBudget (latency : Duration) : ℤ :=
  max (microsI64 latency) (microsI64 sndDropMinThreshold) + 2 * microsI64 ackInterval

/-- The values `tsbpd_expected_arrival` computes on the way to its offset. -/
structure OffsetFits (wrap : TsbpdWrap) (ref timestamp : Timestamp) (correction : ℤ) : Prop where
  base : FitsI64 wrap.base
  newest : FitsI64 wrap.position
  placed : FitsI64 (wrap.offsetOf timestamp)
  anchored : FitsI64 (wrap.offsetOf timestamp - ref.asMicros.toNat)
  corrected : FitsI64 (wrap.offsetOf timestamp - ref.asMicros.toNat + correction)

/-- No arrival time overflows. -/
structure ArrivalsFit (c : Connection) : Prop where
  offset : ∀ ref start wrap timestamp, c.rx.tsbpdBase = some (ref, start) → c.rx.tsWrap = some wrap →
    OffsetFits wrap ref timestamp c.rx.drift.correctionUs
  arrival : ∀ timestamp t, c.tsbpdExpectedArrival timestamp = some t → t.Representable

/-- Neither the drop budget nor a play time overflows, nor does the state of the drift estimator. -/
structure TimesFit (c : Connection) : Prop where
  budget : FitsI64 (dropBudget c.link.latency)
  arrivals : c.ArrivalsFit
  playTime : ∀ timestamp t, c.tsbpdPlayTime timestamp = some t → t.Representable
  drift : FitsI64 c.rx.drift.sumUs ∧ FitsI64 c.rx.drift.correctionUs

/-! ## The estimators -/

/-- The clock values and the unwrapped timestamps are within 2^50 microseconds, 35 years. -/
def horizonUs : ℕ := 0x4000000000000

end Connection

theorem RttEstimator.sample_bounded {e : RttEstimator} {s : Duration} {bound : ℕ}
    (he : Duration.asMicros e.rtt ≤ bound) (hs : Duration.asMicros s ≤ bound) :
    Duration.asMicros (e.sample s).rtt ≤ bound := by
  unfold RttEstimator.sample
  dsimp only
  split
  · exact hs
  · have hmean : (saturatingMul (micros e.rtt) 7 + micros s) / 8 ≤ bound := by
      unfold saturatingMul micros
      omega
    dsimp only
    unfold Duration.fromMicros Duration.asMicros
    omega

theorem tdiv_near (x : ℤ) {n : ℤ} (hn : 0 < n) : n * x.tdiv n - x < n ∧ x - n * x.tdiv n < n := by
  have hsplit := Int.mul_tdiv_add_tmod x n
  have hlt := Int.tmod_lt_of_pos x hn
  have hgt := Int.lt_tmod_of_pos x hn
  omega

/-- A tracer whose epoch, and whose correction, are within `bound` of the timeline. -/
structure DriftTracer.Settled (bound : ℤ) (t : DriftTracer) : Prop where
  count : t.count < driftSpan
  correction : |t.correctionUs| ≤ bound
  sum : |t.sumUs + t.count * t.correctionUs| ≤ t.count * bound

theorem DriftTracer.Settled.sample {bound : ℤ} {t : DriftTracer} (h : t.Settled bound) {observedUs rttUs : ℤ}
    (hnear : |observedUs - (rttUs - t.firstRttUs.getD rttUs).tdiv 2 + t.correctionUs| ≤ bound) :
    (t.sample observedUs rttUs).Settled bound := by
  have hcount := h.count
  have hcorrection := h.correction
  have hsum : |t.sumUs + (observedUs - (rttUs - t.firstRttUs.getD rttUs).tdiv 2)
      + ((t.count + 1 : ℕ) : ℤ) * t.correctionUs| ≤ ((t.count + 1 : ℕ) : ℤ) * bound := by
    have hsplit := abs_add_le (t.sumUs + t.count * t.correctionUs)
      (observedUs - (rttUs - t.firstRttUs.getD rttUs).tdiv 2 + t.correctionUs)
    have heq : t.sumUs + (observedUs - (rttUs - t.firstRttUs.getD rttUs).tdiv 2)
        + ((t.count + 1 : ℕ) : ℤ) * t.correctionUs
        = t.sumUs + t.count * t.correctionUs
          + (observedUs - (rttUs - t.firstRttUs.getD rttUs).tdiv 2 + t.correctionUs) := by
      push_cast
      ring
    rw [heq]
    have hgrow : ((t.count + 1 : ℕ) : ℤ) * bound = t.count * bound + bound := by
      push_cast
      ring
    rw [hgrow]
    have hold := h.sum
    omega
  unfold DriftTracer.sample
  dsimp only
  generalize t.sumUs + (observedUs - (rttUs - t.firstRttUs.getD rttUs).tdiv 2) = sum at hsum ⊢
  split
  · next hfull =>
    -- the correction becomes the mean of the epoch
    have hspan : t.count + 1 = 1000 := by
      unfold driftSpan at hfull hcount
      omega
    rw [hspan] at hsum ⊢
    have hmean := tdiv_near sum (n := 1000) (by norm_num)
    rw [abs_le] at hsum
    refine ⟨(by decide : 0 < driftSpan), ?_, by simp⟩
    push_cast at hsum ⊢
    rw [abs_le]
    omega
  · next hfull => exact ⟨not_le.mp hfull, hcorrection, hsum⟩

theorem DriftTracer.Settled.sum_le {bound : ℤ} {t : DriftTracer} (h : t.Settled bound) :
    |t.sumUs| ≤ 2000 * bound := by
  have hcount := h.count
  unfold driftSpan at hcount
  have hcorrection := h.correction
  have hsum := h.sum
  have hpos : 0 ≤ bound := (abs_nonneg _).trans hcorrection
  have hbound : (t.count : ℤ) * bound ≤ 1000 * bound := by
    apply mul_le_mul_of_nonneg_right _ hpos
    omega
  have hscaled : |(t.count : ℤ) * t.correctionUs| ≤ 1000 * bound := by
    rw [abs_mul, Nat.abs_cast]
    apply (mul_le_mul_of_nonneg_left hcorrection (Int.natCast_nonneg _)).trans
    exact hbound
  rw [abs_le] at hsum hscaled ⊢
  omega

/-! ## Arrival times -/

theorem Timestamp.wrappingDiff_bounds (t other : Timestamp) :
    -0x80000000 ≤ t.wrappingDiff other ∧ t.wrappingDiff other < 0x80000000 := by
  have ht := t.asMicros.toNat_lt
  have ho := other.asMicros.toNat_lt
  unfold Timestamp.wrappingDiff
  dsimp only
  split_ifs <;> omega

namespace Connection

/-- The greatest correction, in microseconds. -/
def correctionBound : ℤ := 0x10000000000000

theorem applySigned_eq {t : Instant} {us : ℤ} (h : Instant.origin ≤ t + 1000 * us) :
    applySigned t us = t + 1000 * us := by
  by_cases hus : 0 ≤ us
  · exact applySigned_nonneg t hus
  · have hnat : ((Duration.fromMicros us.natAbs : ℕ) : ℤ) = -(1000 * us) := by
      unfold Duration.fromMicros
      omega
    have hsub : t - ((Duration.fromMicros us.natAbs : ℕ) : ℤ) = t + 1000 * us := by
      rw [hnat]
      ring
    rw [applySigned, if_neg hus, Instant.checkedSub, hsub, if_pos h]
    rfl

theorem signedMicros_near {start stop : ℤ} (hlo : -(0x7FFFFFFFFFFFFFFF * 1000) ≤ stop - start)
    (hhi : stop - start ≤ 0x7FFFFFFFFFFFFFFF * 1000) :
    1000 * signedMicros start stop - (stop - start) < 1000
      ∧ stop - start - 1000 * signedMicros start stop < 1000 := by
  have hmicros : ∀ x : ℤ, 0 ≤ x → ((Duration.asMicros x.toNat : ℕ) : ℤ) = x / 1000 := by
    intro x hx
    unfold Duration.asMicros
    omega
  unfold signedMicros
  by_cases h : start ≤ stop
  · rw [if_pos h, hmicros (stop - start) (by omega)]
    omega
  · rw [if_neg h, hmicros (start - stop) (by omega)]
    omega

/-- A timeline, a drift estimate and a round-trip time within the horizon; `t₀` is when the connection
was made. -/
structure Tempered (t₀ : Instant) (c : Connection) : Prop where
  anchor : ∀ ref start, c.rx.tsbpdBase = some (ref, start) → t₀ ≤ start ∧ start ≤ t₀ + 1000 * (horizonUs : ℤ)
  wrap : ∀ wrap, c.rx.tsWrap = some wrap → wrap.base ≤ horizonUs + 0x100000000
  drift : c.rx.drift.Settled correctionBound
  first : ∀ us ∈ c.rx.drift.firstRttUs, 0 ≤ us ∧ us ≤ (horizonUs : ℤ)
  rtt : Duration.asMicros c.rtt.rtt ≤ horizonUs

/-- The time at which a connection is made: within 2^62 seconds of the clock's origin. -/
def Central (t₀ : Instant) : Prop :=
  -(0x4000000000000000 * 1000000000) ≤ t₀ ∧ t₀ ≤ 0x4000000000000000 * 1000000000

instance (t₀ : Instant) : Decidable (Central t₀) := inferInstanceAs (Decidable (_ ∧ _))

/-- Instants near a central one are far from the ends of the clock. -/
theorem central_near {t₀ t : ℤ} (h : Central t₀) (hlo : t₀ - 1000 * 0x20000000000000 ≤ t)
    (hhi : t ≤ t₀ + 0x4000000000000000 * 1000 * 1000) : Instant.Representable t := by
  have hleft : -(0x4000000000000000 * 1000000000) ≤ t₀ := h.1
  have hright : t₀ ≤ 0x4000000000000000 * 1000000000 := h.2
  have hend : -9223372036854775808 * 1000000000 ≤ t ∧ t < 0x8000000000000000 * 1000000000 := by omega
  exact hend

theorem shift_far {t₀ t : ℤ} (h : t ≤ t₀ + 1000 * 0x20000000000000) :
    t ≤ t₀ + 0x4000000000000000 * 1000 * 1000 := by
  omega

theorem central_late {t₀ t late : ℤ} (h : Central t₀) (hlo : t₀ - 1000 * 0x20000000000000 ≤ t)
    (hhi : t ≤ t₀ + 1000 * 0x20000000000000) (hpos : 0 ≤ late) (hlate : late < 0x8000000000000000 * 1000) :
    Instant.Representable (t + late) := by
  apply central_near h <;> omega

theorem shift_near {t₀ start us : ℤ} (hlo : t₀ ≤ start) (hhi : start ≤ t₀ + 1000 * 0x4000000000000)
    (huslo : -0x15000000000000 ≤ us) (hushi : us ≤ 0x15000000000000) :
    t₀ - 1000 * 0x20000000000000 ≤ start + 1000 * us ∧ start + 1000 * us ≤ t₀ + 1000 * 0x20000000000000 := by
  omega

theorem offset_bounds {w : TsbpdWrap} (hw : w.base ≤ horizonUs + 0x100000000) (ref timestamp : Timestamp) :
    -0x200000000 ≤ w.offsetOf timestamp - ref.asMicros.toNat
      ∧ w.offsetOf timestamp ≤ horizonUs + 0x300000000 := by
  have hdiff := timestamp.wrappingDiff_bounds w.last
  have hlast := w.last.asMicros.toNat_lt
  have href := ref.asMicros.toNat_lt
  unfold TsbpdWrap.offsetOf
  omega

theorem Tempered.offset {t₀ : Instant} {c : Connection} (h : c.Tempered t₀) {wrap : TsbpdWrap}
    (hwrap : c.rx.tsWrap = some wrap) (ref timestamp : Timestamp) :
    OffsetFits wrap ref timestamp c.rx.drift.correctionUs := by
  have hbase := h.wrap wrap hwrap
  have hoffset := offset_bounds hbase ref timestamp
  have hlast := wrap.last.asMicros.toNat_lt
  have href := ref.asMicros.toNat_lt
  have hcorrection := abs_le.mp h.drift.correction
  unfold correctionBound at hcorrection
  unfold horizonUs at hbase hoffset
  refine ⟨⟨?_, ?_⟩, ⟨?_, ?_⟩, ⟨?_, ?_⟩, ⟨?_, ?_⟩, ⟨?_, ?_⟩⟩ <;>
    (try unfold TsbpdWrap.position) <;> push_cast at * <;> omega

/-- An arrival is expected where the timeline puts it, less than 2^53 microseconds from its anchor. -/
theorem Tempered.arrival {t₀ : Instant} (ht₀ : Central t₀) {c : Connection} (h : c.Tempered t₀)
    {timestamp : Timestamp} {t : Instant} (ht : c.tsbpdExpectedArrival timestamp = some t) :
    ∃ ref start wrap, c.rx.tsbpdBase = some (ref, start) ∧ c.rx.tsWrap = some wrap
      ∧ t = start + 1000 * (wrap.offsetOf timestamp - ref.asMicros.toNat + c.rx.drift.correctionUs)
      ∧ t₀ - 1000 * 0x20000000000000 ≤ t ∧ t ≤ t₀ + 1000 * 0x20000000000000 := by
  unfold tsbpdExpectedArrival at ht
  split at ht
  · next ref start wrap hbase hwrap =>
    have hstart := h.anchor ref start hbase
    have hoffset := offset_bounds (h.wrap wrap hwrap) ref timestamp
    have hcorrection := abs_le.mp h.drift.correction
    generalize hus : wrap.offsetOf timestamp - (ref.asMicros.toNat : ℤ) + c.rx.drift.correctionUs = us at ht ⊢
    have hlo : -0x15000000000000 ≤ us := by
      unfold correctionBound at hcorrection
      omega
    have hhi : us ≤ 0x15000000000000 := by
      unfold correctionBound at hcorrection
      unfold horizonUs at hoffset
      push_cast at hoffset
      omega
    have hnear := shift_near hstart.1 hstart.2 hlo hhi
    have hend := central_near ht₀ hnear.1 (shift_far hnear.2)
    rw [applySigned_eq hend.1] at ht
    obtain rfl := Option.some.inj ht
    exact ⟨ref, start, wrap, hbase, hwrap, by rw [hus], hnear⟩
  · cases ht

theorem Tempered.arrivalsFit {t₀ : Instant} (ht₀ : Central t₀) {c : Connection} (h : c.Tempered t₀) :
    c.ArrivalsFit := by
  refine ⟨fun ref start wrap timestamp _ hwrap => h.offset hwrap ref timestamp, ?_⟩
  intro timestamp t ht
  obtain ⟨-, -, -, -, -, -, hlo, hhi⟩ := h.arrival ht₀ ht
  exact central_near ht₀ hlo (shift_far hhi)

/-- The greatest latency, in microseconds, for which the drop budget fits. -/
def latencyBoundUs : ℕ := 0x7FFFFFFFFFFFFFFF - 20000

theorem Tempered.timesFit {t₀ : Instant} (ht₀ : Central t₀) {c : Connection} (h : c.Tempered t₀)
    (hlatency : Duration.asMicros c.link.latency ≤ latencyBoundUs) : c.TimesFit := by
  have hcorrection := abs_le.mp h.drift.correction
  have hsum := abs_le.mp h.drift.sum_le
  unfold correctionBound at hcorrection hsum
  refine ⟨?_, h.arrivalsFit ht₀, ?_, ⟨by omega, by omega⟩, ⟨by omega, by omega⟩⟩
  · have hmin : microsI64 sndDropMinThreshold = 1000000 := by decide
    have hack : microsI64 ackInterval = 10000 := by decide
    unfold dropBudget
    rw [hmin, hack]
    unfold microsI64 FitsI64
    unfold latencyBoundUs at hlatency
    omega
  · intro timestamp t ht
    obtain ⟨arrival, harrival, rfl⟩ := Option.map_eq_some_iff.mp ht
    obtain ⟨-, -, -, -, -, -, hlo, hhi⟩ := h.arrival ht₀ harrival
    have hlate : ((c.link.latency : ℕ) : ℤ) < 0x8000000000000000 * 1000 := by
      unfold latencyBoundUs Duration.asMicros at hlatency
      omega
    exact central_late ht₀ hlo hhi (Int.natCast_nonneg _) hlate

/-! ## Newly stored packets -/

theorem anchorTsbpd_link (c : Connection) (timestamp : Timestamp) (now : Instant) :
    (c.anchorTsbpd timestamp now).link = c.link := by
  unfold anchorTsbpd
  split <;> rfl

/-- The microseconds of the timestamp periods that the tracker has seen completed. -/
def periodsUs (c : Connection) : ℕ :=
  match c.rx.tsWrap with
  | some wrap => wrap.base
  | none => 0

/-- A time of the run: within the horizon after `t₀`. -/
def Timely (t₀ now : Instant) : Prop := t₀ ≤ now ∧ now ≤ t₀ + 1000 * (horizonUs : ℤ)

instance (t₀ now : Instant) : Decidable (Timely t₀ now) := inferInstanceAs (Decidable (_ ∧ _))

theorem observe_base (w : TsbpdWrap) (timestamp : Timestamp) :
    (w.observe timestamp).base ≤ w.base + 0x100000000 := by
  unfold TsbpdWrap.observe
  split
  · dsimp only
    split <;> omega
  · omega

theorem Tempered.congr {t₀ : Instant} {c c' : Connection} (h : c.Tempered t₀)
    (hbase : c'.rx.tsbpdBase = c.rx.tsbpdBase) (hwrap : c'.rx.tsWrap = c.rx.tsWrap)
    (hdrift : c'.rx.drift = c.rx.drift) (hrtt : c'.rtt = c.rtt) : c'.Tempered t₀ :=
  ⟨by rw [hbase]; exact h.anchor, by rw [hwrap]; exact h.wrap, by rw [hdrift]; exact h.drift,
    by rw [hdrift]; exact h.first, by rw [hrtt]; exact h.rtt⟩

theorem Tempered.anchorTsbpd {t₀ : Instant} {c : Connection} (h : c.Tempered t₀) (timestamp : Timestamp)
    {now : Instant} (hnow : Timely t₀ now) (hperiods : c.periodsUs ≤ horizonUs) :
    (c.anchorTsbpd timestamp now).Tempered t₀ := by
  unfold Connection.anchorTsbpd
  cases hbase : c.rx.tsbpdBase with
  | none =>
    refine ⟨?_, ?_, h.drift, h.first, h.rtt⟩
    · intro ref start he
      obtain ⟨rfl, rfl⟩ := Prod.mk.inj (Option.some.inj he)
      exact hnow
    · intro wrap he
      obtain rfl := Option.some.inj he
      exact Nat.zero_le _
  | some base =>
    refine ⟨h.anchor, ?_, h.drift, h.first, h.rtt⟩
    intro wrap he
    obtain ⟨old, hold, rfl⟩ := Option.map_eq_some_iff.mp he
    rw [periodsUs, hold] at hperiods
    exact (observe_base old timestamp).trans (Nat.add_le_add_right hperiods _)

/-- An observed drift and the correction it was observed under add up to the distance of the arrival
from the uncorrected timeline. -/
theorem sample_near {t₀ now start offset correction observed delta : ℤ} (hnow : t₀ ≤ now)
    (hnow' : now ≤ t₀ + 1000 * 0x4000000000000) (hstart : t₀ ≤ start)
    (hstart' : start ≤ t₀ + 1000 * 0x4000000000000) (hoffset : -0x200000000 ≤ offset)
    (hoffset' : offset ≤ 0x4000000000000 + 0x300000000)
    (hobserved : 1000 * observed - (now - (start + 1000 * (offset + correction))) < 1000)
    (hobserved' : now - (start + 1000 * (offset + correction)) - 1000 * observed < 1000)
    (hdelta : -0x2000000000000 ≤ delta) (hdelta' : delta ≤ 0x2000000000000) :
    |observed - delta + correction| ≤ correctionBound := by
  unfold correctionBound
  rw [abs_le]
  omega

theorem arrival_span {t₀ now t : ℤ} (hnow : t₀ ≤ now) (hnow' : now ≤ t₀ + 1000 * 0x4000000000000)
    (hlo : t₀ - 1000 * 0x20000000000000 ≤ t) (hhi : t ≤ t₀ + 1000 * 0x20000000000000) :
    -(0x7FFFFFFFFFFFFFFF * 1000) ≤ now - t ∧ now - t ≤ 0x7FFFFFFFFFFFFFFF * 1000 := by
  omega

theorem half_near {x : ℤ} (hlo : -0x4000000000000 ≤ x) (hhi : x ≤ 0x4000000000000) :
    -0x2000000000000 ≤ x.tdiv 2 ∧ x.tdiv 2 ≤ 0x2000000000000 := by
  have hnear := tdiv_near x (n := 2) (by norm_num)
  omega

theorem Tempered.sampleDrift {t₀ : Instant} (ht₀ : Central t₀) {c : Connection} (h : c.Tempered t₀)
    (data : DataPacket) {now : Instant} (hnow : Timely t₀ now) : (c.sampleDrift data now).Tempered t₀ := by
  have hrttUs : 0 ≤ microsI64 c.rtt.rtt ∧ microsI64 c.rtt.rtt ≤ (horizonUs : ℤ) := by
    have hrtt := h.rtt
    unfold microsI64
    unfold horizonUs at hrtt ⊢
    omega
  have hfirst : 0 ≤ c.rx.drift.firstRttUs.getD (microsI64 c.rtt.rtt)
      ∧ c.rx.drift.firstRttUs.getD (microsI64 c.rtt.rtt) ≤ (horizonUs : ℤ) := by
    cases hf : c.rx.drift.firstRttUs with
    | none => exact hrttUs
    | some us => exact h.first us hf
  unfold Connection.sampleDrift
  split
  · next expected hretransmitted hexpected =>
    obtain ⟨ref, start, wrap, hbase, hwrap, he, hlo, hhi⟩ := h.arrival ht₀ hexpected
    have hstart := h.anchor ref start hbase
    have hoffset := offset_bounds (h.wrap wrap hwrap) ref data.timestamp
    have hspan := arrival_span hnow.1 hnow.2 hlo hhi
    have hobserved := signedMicros_near hspan.1 hspan.2
    have hdelta : -0x2000000000000 ≤ (microsI64 c.rtt.rtt
          - c.rx.drift.firstRttUs.getD (microsI64 c.rtt.rtt)).tdiv 2
        ∧ (microsI64 c.rtt.rtt - c.rx.drift.firstRttUs.getD (microsI64 c.rtt.rtt)).tdiv 2
          ≤ 0x2000000000000 := by
      unfold horizonUs at hrttUs hfirst
      push_cast at hrttUs hfirst
      apply half_near <;> omega
    rw [he] at hobserved
    have href := ref.asMicros.toNat_lt
    have hplace : wrap.offsetOf data.timestamp - (ref.asMicros.toNat : ℤ) ≤ 0x4000000000000 + 0x300000000 := by
      unfold horizonUs at hoffset
      push_cast at hoffset
      omega
    refine ⟨h.anchor, h.wrap, h.drift.sample ?_, ?_, h.rtt⟩
    · rw [he]
      exact sample_near hnow.1 hnow.2 hstart.1 hstart.2 hoffset.1 hplace hobserved.1 hobserved.2 hdelta.1 hdelta.2
    · have hkept : ∀ observed us, (c.rx.drift.sample observed us).firstRttUs
          = some (c.rx.drift.firstRttUs.getD us) := by
        intro observed us
        unfold DriftTracer.sample
        dsimp only
        split <;> rfl
      dsimp only
      rw [hkept]
      intro us hus
      obtain rfl := Option.some.inj hus
      exact hfirst
  · exact h

theorem Tempered.arrived {t₀ : Instant} (ht₀ : Central t₀) {c : Connection} (h : c.Tempered t₀)
    (data : DataPacket) (b : RecvBuffer) {now : Instant} (hnow : Timely t₀ now)
    (hperiods : c.periodsUs ≤ horizonUs) : (c.arrived data b now).Tempered t₀ := by
  obtain ⟨hbase', hwrap', hdrift', hrtt'⟩ := recordArrival_timeline c data b now
  have hrecorded : (c.recordArrival data b now).Tempered t₀ := h.congr hbase' hwrap' hdrift' hrtt'
  unfold Connection.arrived
  apply sampleDrift ht₀ _ data hnow
  apply hrecorded.anchorTsbpd data.timestamp hnow
  rw [periodsUs, hwrap']
  exact hperiods

theorem tempered_timed (P : Primitives) {t₀ : Instant} (ht₀ : Central t₀) :
    Timed P (fun c _ now => Timely t₀ now ∧ c.periodsUs ≤ horizonUs)
      (fun c number now => ∀ sample ∈ c.measured number now, Duration.asMicros sample ≤ horizonUs)
      (fun _ c => c.Tempered t₀) where
  later _ _ _ _ h := h
  still _ _ _ hs h := h.congr hs.tsbpdBase hs.tsWrap hs.drift hs.rtt
  arrive c data now result b hstored _ _ h := by
    have hrecord : (c.record result.2).Tempered t₀ := h.congr rfl rfl rfl rfl
    exact hrecord.arrived ht₀ result.1 b hstored.1 hstored.2
  ackack c number now hacked h := by
    obtain ⟨hbase, hwrap, hdrift, hrtt⟩ := onAckack_measured c number now
    have hbound : Duration.asMicros (c.onAckack number now).rtt.rtt ≤ horizonUs := by
      rcases hrtt with hrtt | ⟨sample, hsample, hrtt⟩
      · rw [hrtt]
        exact h.rtt
      · rw [hrtt]
        exact RttEstimator.sample_bounded h.rtt (hacked sample hsample)
    refine ⟨?_, ?_, ?_, ?_, hbound⟩
    · rw [hbase]
      exact h.anchor
    · rw [hwrap]
      exact h.wrap
    · rw [hdrift]
      exact h.drift
    · rw [hdrift]
      exact h.first
  ackedFrame _ _ _ h := h

/-! ## Round-trip samples -/

theorem measured_bounded {t₀ now : Instant} {c : Connection} (hnow : Timely t₀ now)
    (hsent : ∀ p ∈ c.rx.pendingAcks, t₀ ≤ p.2) {number : UInt32} {sample : Duration}
    (h : c.measured number now = some sample) : Duration.asMicros sample ≤ horizonUs := by
  have hspan : ∀ t₀ now sentAt : ℤ, now ≤ t₀ + 1000 * 0x4000000000000 → t₀ ≤ sentAt →
      (now - sentAt).toNat / 1000 ≤ 0x4000000000000 := by
    intro t₀ now sentAt hhi hlo
    omega
  unfold measured at h
  split at h
  · cases h
  · next pos _ =>
    obtain ⟨pending, hpending, rfl⟩ := Option.map_eq_some_iff.mp h
    exact hspan t₀ now pending.2 hnow.2 (hsent pending (List.mem_of_getElem? hpending))

/-! ## The latency -/

theorem peerLatencyMs_lt (extensions : List HandshakeExtension) : peerLatencyMs extensions < 65536 := by
  unfold peerLatencyMs
  cases hfound : extensions.findSome? _ with
  | none => decide
  | some ms =>
    obtain ⟨ext, -, hext⟩ := List.exists_of_findSome?_eq_some hfound
    split at hext
    · next s =>
      obtain rfl := Option.some.inj hext
      exact s.recvTsbpdDelay.toNat_lt
    · next s =>
      obtain rfl := Option.some.inj hext
      exact s.recvTsbpdDelay.toNat_lt
    · cases hext

/-- The latency in use is the configured one or the peer's. -/
structure Delayed (latency : Duration) (c : Connection) : Prop where
  config : c.config.latency = latency
  opening : ¬ c.Established → c.Opening
  bounded : c.link.latency ≤ max latency (Duration.fromMillis 65535)

theorem negotiated_bounded (latency : Duration) (extensions : List HandshakeExtension) :
    max latency (Duration.fromMillis (peerLatencyMs extensions)) ≤ max latency (Duration.fromMillis 65535) := by
  apply max_le_max_left
  exact Nat.mul_le_mul_right 1000000 (Nat.le_of_lt_succ (peerLatencyMs_lt extensions))

theorem perform_delayed (P : Primitives) {latency : Duration} {c : Connection} (h : c.Delayed latency)
    (call : Call) (now : Instant) : (c.perform P call now).Delayed latency := by
  by_cases he : c.Established
  · have hp := perform_speaks P call now he
    have hlatency : (c.perform P call now).link.latency = c.link.latency := congrArg (·.2.1) hp.agreed
    refine ⟨?_, fun hn => absurd (hp.established he) hn, ?_⟩
    · rw [config_of_ident hp.ident]
      exact h.config
    · rw [hlatency]
      exact h.bounded
  · have hopen := h.opening he
    have hp := perform_opens P call now hopen he
    obtain ⟨hident, hopening⟩ := hp.frame hopen
    refine ⟨?_, fun hn => (hopening hn).1, ?_⟩
    · rw [config_of_ident hident]
      exact h.config
    · generalize c.perform P call now = c' at hp
      cases hp with
      | waits hw =>
        rw [hw.link]
        exact h.bounded
      | ended _ hs _ =>
        have hlatency : c'.link.latency = c.link.latency := congrArg (·.2.1) hs.agreed
        rw [hlatency]
        exact h.bounded
      | concludes hs _ =>
        have hlatency : ((c.enterConclusion hs).sendConclusion now).link.latency = c.link.latency := by
          unfold sendConclusion emitHandshake
          split <;> rfl
        rw [hlatency]
        exact h.bounded
      | connects datagram ctrl hs _ _ _ _ _ _ =>
        have hlatency : ((c.output (.clearTimer .handshake)).enterConnected
            (negotiate c.config.latency hs) now).link.latency
            = max c.config.latency (Duration.fromMillis (peerLatencyMs hs.extensions)) := rfl
        rw [hlatency, h.config]
        exact negotiated_bounded latency hs.extensions

theorem connect_delayed (P : Primitives) (config : Config) (localSocketId : SocketId) (initialSeq : SeqNumber)
    (now : Instant) (salt : Block 16) (sek : (n : ℕ) → Block n) :
    (connect P config localSocketId initialSeq now salt sek).Delayed config.latency := by
  have hcalls := connect_calls P config localSocketId initialSeq now salt sek
  have hsend : ∀ c : Connection, (c.sendInduction now).config = c.config
      ∧ (c.sendInduction now).link.latency = c.link.latency := by
    intro c
    unfold sendInduction emitHandshake
    split <;> exact ⟨rfl, rfl⟩
  have hmade : (connect P config localSocketId initialSeq now salt sek).config = config
      ∧ (connect P config localSocketId initialSeq now salt sek).link.latency = config.latency := by
    unfold connect
    dsimp only
    split
    · exact hsend _
    · split
      · exact ⟨rfl, rfl⟩
      · exact hsend _
  refine ⟨by rw [hmade.1], fun _ => hcalls.opening, ?_⟩
  rw [hmade.2]
  exact le_max_left _ _

theorem accept_delayed {P : Primitives} {config : Config} {localSocketId : SocketId} {callerHs : Handshake}
    {now : Instant} {c : Connection} (h : accept P config localSocketId callerHs now = .ok c) :
    c.Delayed config.latency := by
  have hspec := (accept_spec h).1
  have hconfig : c.config = config := by
    unfold accept at h
    split at h
    · cases h
    · dsimp only at h
      obtain rfl := Except.ok.inj h
      rw [(enterConnected_data _ _ _).1]
      split <;> rfl
  refine ⟨by rw [hconfig], fun hn => absurd (.inl hspec.state) hn, ?_⟩
  rw [hspec.latency]
  exact negotiated_bounded config.latency callerHs.extensions

end Connection

namespace Session
open Connection

theorem Started.delayed {P : Primitives} {s : Session} (h : Started P s) :
    s.conn.Delayed s.conn.config.latency := by
  have hstart : ∀ (c : Connection) (now : Instant) latency, c.Delayed latency →
      (start c now).conn.Delayed (start c now).conn.config.latency := by
    intro c now latency hc
    have hconfig : (start c now).conn.config.latency = latency := hc.config
    rw [hconfig]
    exact ⟨hc.config, fun hn => (hc.opening hn).drained, hc.bounded⟩
  cases h with
  | caller config localSocketId initialSeq now salt sek =>
    exact hstart _ now _ (connect_delayed P config localSocketId initialSeq now salt sek)
  | acceptor config localSocketId callerHs now c h => exact hstart c now _ (accept_delayed h)

/-- A session whose time arithmetic is in range. -/
structure Regulated (t₀ : Instant) (latency : Duration) (s : Session) : Prop where
  clock : t₀ ≤ s.clock
  tempered : s.conn.Tempered t₀
  delayed : s.conn.Delayed latency
  sent : ∀ p ∈ s.conn.rx.pendingAcks, t₀ ≤ p.2

/-- The clock does not go back and stays within the horizon, and so do the timestamps of the packets
received: where one is stored, the periods completed before are within the horizon. -/
def Calm (P : Primitives) (t₀ : Instant) (s : Session) (input : Call × Instant) : Prop :=
  s.clock ≤ input.2 ∧ input.2 ≤ t₀ + 1000 * (horizonUs : ℤ)
    ∧ ∀ x ∈ s.conn.handed P input.1 input.2, x.1.periodsUs ≤ horizonUs

instance (P : Primitives) (t₀ : Instant) (s : Session) (input : Call × Instant) :
    Decidable (s.Calm P t₀ input) :=
  inferInstanceAs (Decidable (_ ∧ _ ∧ ∀ x ∈ s.conn.handed P input.1 input.2, _))

theorem Started.regulated {P : Primitives} {s : Session} (h : Started P s) :
    s.Regulated s.clock s.conn.config.latency := by
  obtain ⟨hrx, -⟩ := h.empty
  have hrtt : s.conn.rtt = RttEstimator.new := by
    obtain ⟨c, now, hc, rfl⟩ := h.fresh
    exact hc.rtt
  have hnew : s.conn.rx.tsbpdBase = none ∧ s.conn.rx.tsWrap = none ∧ s.conn.rx.drift = DriftTracer.new
      ∧ s.conn.rx.pendingAcks = [] := by
    rw [hrx]
    exact ⟨rfl, rfl, rfl, rfl⟩
  obtain ⟨hbase, hwrap, hdrift, hpending⟩ := hnew
  refine ⟨le_rfl, ⟨?_, ?_, ?_, ?_, ?_⟩, h.delayed, ?_⟩
  · simp [hbase]
  · simp [hwrap]
  · rw [hdrift]
    exact ⟨by decide, by decide, by decide⟩
  · simp [hdrift, DriftTracer.new]
  · rw [hrtt]
    decide
  · simp [hpending]

section Steps

variable {P : Primitives} {t₀ : Instant} {latency : Duration} {s : Session} {input : Call × Instant}

theorem Regulated.stored (h : s.Regulated t₀ latency) (hcalm : s.Calm P t₀ input) :
    ∀ x ∈ s.conn.handed P input.1 input.2, Timely t₀ input.2 ∧ x.1.periodsUs ≤ horizonUs := by
  intro x hx
  exact ⟨⟨h.clock.trans hcalm.1, hcalm.2.1⟩, hcalm.2.2 x hx⟩

theorem Regulated.step (ht₀ : Central t₀) (h : s.Regulated t₀ latency) (hcalm : s.Calm P t₀ input) :
    (s.step P input).Regulated t₀ latency := by
  have hnow : Timely t₀ input.2 := ⟨h.clock.trans hcalm.1, hcalm.2.1⟩
  have htempered := (tempered_timed P ht₀).perform input.1 h.tempered (h.stored hcalm)
    fun number _ sample hsample => measured_bounded hnow h.sent hsample
  have hdelayed := perform_delayed P h.delayed input.1 input.2
  refine ⟨hnow.1, htempered.congr rfl rfl rfl rfl, ?_, ?_⟩
  · exact ⟨hdelayed.config, fun hn => (hdelayed.opening hn).drained, hdelayed.bounded⟩
  · intro p hp
    rcases (perform_pends P input.2 s.conn input.1).sent p hp with hp | hp
    · exact h.sent p hp
    · rw [hp]
      exact hnow.1

end Steps

/-- While the configured latency is less than 2^63 microseconds by 20 ms, the clock starts within 2^62
seconds of its origin, and clock and timestamps stay within 2^50 microseconds, nothing overflows: not in
any state reached, and not inside a call where a packet is handed over and its timeline is fixed. -/
theorem time_arithmetic_fits {P : Primitives} {s₀ : Session} (h : Started P s₀)
    (hlatency : Duration.asMicros s₀.conn.config.latency ≤ latencyBoundUs) (hstart : Central s₀.clock)
    (inputs : List (Call × Instant)) (hcalm : Runs.Meets (step P) (fun s input => s.Calm P s₀.clock input) s₀ inputs)
    (s : Session) (hs : s = Runs.run (step P) s₀ inputs) :
    s.conn.TimesFit
    ∧ ∀ input, s.Calm P s₀.clock input → ∀ x ∈ s.conn.handed P input.1 input.2,
      x.1.TimesFit ∧ (x.1.anchorTsbpd x.2.timestamp input.2).TimesFit := by
  have hregulated : s.Regulated s₀.clock s₀.conn.config.latency := by
    rw [hs]
    exact Runs.invariant (fun s input hr hc => hr.step hstart hc) h.regulated hcalm
  have hpeer : ∀ n : ℕ, n / 1000 ≤ latencyBoundUs → max n (Duration.fromMillis 65535) / 1000 ≤ latencyBoundUs := by
    intro n hn
    rcases Nat.le_total n (Duration.fromMillis 65535) with hle | hle
    · rw [max_eq_right hle]
      decide
    · rw [max_eq_left hle]
      exact hn
  have hbounded : Duration.asMicros s.conn.link.latency ≤ latencyBoundUs :=
    (Nat.div_le_div_right (c := 1000) hregulated.delayed.bounded).trans (hpeer _ hlatency)
  refine ⟨hregulated.tempered.timesFit hstart hbounded, fun input hc x hx => ?_⟩
  have hstored := hregulated.stored hc x hx
  have htempered := (tempered_timed P hstart).handed input.1 hregulated.tempered (hregulated.stored hc) x hx
  have hlink := handed_link P input.2 s.conn input.1 x hx
  refine ⟨htempered.timesFit hstart (by rw [hlink]; exact hbounded), ?_⟩
  refine (htempered.anchorTsbpd x.2.timestamp hstored.1 hstored.2).timesFit hstart ?_
  rw [anchorTsbpd_link, hlink]
  exact hbounded

/-- Two packets around an ACK, over a round trip of 100 ms. -/
def steadyStream : List (Call × Instant) :=
  [(.feedRecvBuf (original 0 0).encode, 0), (.handleTimer .ack, 10000000), (plainAckack 1, 110000000),
    (.feedRecvBuf (original 1 110001).encode, 110001000)]

theorem time_arithmetic_fits_steadyStream :
    (Runs.run (step Primitives.absent) plainAcceptor steadyStream).conn.TimesFit :=
  (time_arithmetic_fits plainAcceptor_started (by decide +kernel) (by decide +kernel) steadyStream
    (by decide +kernel) _ rfl).1

/-- The longest `Duration` as the latency. -/
def endlessConfig : Config := { Config.default with latency := 0x10000000000000000 * 1000000000 - 1 }

/-- `validate` sets no upper limit to the latency. After a message each way at time zero, the drop budget
is past the end of an `i64`, where it wraps to a negative number, and the play time of the message
received is past the end of the clock. -/
theorem time_arithmetic_overflows :
    endlessConfig.validate = .ok () ∧ Started Primitives.absent (acceptorWith endlessConfig)
    ∧ ¬ FitsI64 (dropBudget (Runs.run (step Primitives.absent) (acceptorWith endlessConfig)
        [(.send [7], 0), (.feedRecvBuf (original 0 0).encode, 0)]).conn.link.latency)
    ∧ (dropBudget (Runs.run (step Primitives.absent) (acceptorWith endlessConfig)
        [(.send [7], 0), (.feedRecvBuf (original 0 0).encode, 0)]).conn.link.latency).bmod 0x10000000000000000 < 0
    ∧ (Runs.run (step Primitives.absent) (acceptorWith endlessConfig)
        [(.send [7], 0), (.feedRecvBuf (original 0 0).encode, 0)]).conn.tsbpdPlayTime ⟨0⟩
      = some (0x10000000000000000 * 1000000000 - 1)
    ∧ ¬ Instant.Representable (0x10000000000000000 * 1000000000 - 1) :=
  ⟨by decide +kernel, accepting_started (by decide +kernel), by decide +kernel, by decide +kernel,
    by decide +kernel, by decide +kernel⟩

end Session

end Srtrust
