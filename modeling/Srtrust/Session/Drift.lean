import Srtrust.Session.Delivery
import Srtrust.Session.Accounting

/-! # Drift correction without drift

A packet that arrives a constant delay after its timestamp is expected when it comes, so it shows no
drift. What can still move the correction is the other term of a sample, the change of the round-trip
time since the first one: before the first ACKACK that is the initial estimate of 100 ms, whatever the
path measures later. -/
namespace Srtrust
open BigEndian
set_option autoImplicit false

namespace Connection

/-! ## Arrivals on time -/

/-- The sender's clock, in microseconds, when a packet left that arrives at `now`; `delay` is the
one-way delay with the offset of the two clocks. -/
def sentUs (delay : ℤ) (now : Instant) : ℤ := (now - delay) / 1000

/-- A packet that arrives exactly `delay` after its timestamp. -/
def OnTime (delay : ℤ) (data : DataPacket) (now : Instant) : Prop :=
  delay + 1000 * sentUs delay now = now ∧
    (data.timestamp.asMicros.toNat : ℤ) = sentUs delay now % 0x100000000

instance (delay : ℤ) (data : DataPacket) (now : Instant) : Decidable (OnTime delay data now) :=
  inferInstanceAs (Decidable (_ ∧ _))

/-- Microseconds from the anchor of the timeline to the newest timestamp seen. -/
def newestUs (c : Connection) : ℤ :=
  match c.rx.tsbpdBase, c.rx.tsWrap with
  | some (ref, _), some wrap => wrap.position - ref.asMicros.toNat
  | _, _ => 0

/-- Microseconds from the anchor of the timeline to `now`. -/
def anchoredUs (c : Connection) (now : Instant) : ℤ :=
  match c.rx.tsbpdBase with
  | some (_, start) => (now - start) / 1000
  | none => 0

/-- The timeline is anchored on a packet that was on time. -/
structure Aligned (delay : ℤ) (t : Instant) (c : Connection) : Prop where
  wrapped : c.rx.tsbpdBase.isSome → c.rx.tsWrap.isSome
  anchor : ∀ ref start, c.rx.tsbpdBase = some (ref, start) → start ≤ t ∧
    delay + 1000 * sentUs delay start = start ∧ (ref.asMicros.toNat : ℤ) = sentUs delay start % 0x100000000
  whole : ∀ wrap, c.rx.tsWrap = some wrap → wrap.Whole

theorem Aligned.congr {delay : ℤ} {t : Instant} {c c' : Connection} (h : c.Aligned delay t)
    (hbase : c'.rx.tsbpdBase = c.rx.tsbpdBase) (hwrap : c'.rx.tsWrap = c.rx.tsWrap) : c'.Aligned delay t :=
  ⟨by rw [hbase, hwrap]; exact h.wrapped, by rw [hbase]; exact h.anchor, by rw [hwrap]; exact h.whole⟩

theorem Aligned.later {delay : ℤ} {t t' : Instant} {c : Connection} (h : c.Aligned delay t) (hle : t ≤ t') :
    c.Aligned delay t' :=
  ⟨h.wrapped, fun ref start hbase => ⟨(h.anchor ref start hbase).1.trans hle, (h.anchor ref start hbase).2⟩,
    h.whole⟩

/-- The timeline just anchored. -/
theorem Aligned.first {delay : ℤ} {t start : Instant} {data : DataPacket} {c : Connection}
    (hbase : c.rx.tsbpdBase = some (data.timestamp, start)) (hwrap : c.rx.tsWrap = some (TsbpdWrap.new data.timestamp))
    (hon : OnTime delay data start) (hle : start ≤ t) : c.Aligned delay t := by
  refine ⟨fun _ => by rw [hwrap]; rfl, fun ref start' he => ?_, fun wrap he => ?_⟩
  · obtain ⟨rfl, rfl⟩ := Prod.mk.inj (Option.some.inj (hbase.symm.trans he))
    exact ⟨hle, hon⟩
  · obtain rfl := Option.some.inj (hwrap.symm.trans he)
    rfl

/-- A packet on time anchors the timeline, or finds its place on it. -/
theorem Aligned.anchorTsbpd {delay : ℤ} {now : Instant} {c : Connection} (h : c.Aligned delay now)
    (data : DataPacket) (hfirst : c.rx.tsbpdBase = none → OnTime delay data now) :
    (c.anchorTsbpd data.timestamp now).Aligned delay now := by
  unfold Connection.anchorTsbpd
  cases hbase : c.rx.tsbpdBase with
  | none =>
    obtain ⟨hexact, hstamp⟩ := hfirst hbase
    refine ⟨fun _ => rfl, ?_, ?_⟩
    · intro ref start he
      obtain ⟨rfl, rfl⟩ := Prod.mk.inj (Option.some.inj he)
      exact ⟨le_refl _, hexact, hstamp⟩
    · intro wrap he
      obtain rfl := Option.some.inj he
      rfl
  | some base =>
    refine ⟨fun _ => ?_, ?_, ?_⟩
    · rw [Option.isSome_map]
      exact h.wrapped (by simp [hbase])
    · exact h.anchor
    · intro wrap he
      obtain ⟨old, hold, rfl⟩ := Option.map_eq_some_iff.mp he
      exact (h.whole old hold).observe data.timestamp

theorem applySigned_nonneg (t : Instant) {us : ℤ} (h : 0 ≤ us) : applySigned t us = t + 1000 * us := by
  rw [applySigned, if_pos h, Duration.fromMicros]
  push_cast
  rw [Int.toNat_of_nonneg h]
  ring

/-- Two instants on the sender's clock. -/
theorem elapsed_micros {delay now start u u₀ : ℤ} (hnow : delay + 1000 * u = now)
    (hstart : delay + 1000 * u₀ = start) (hle : start ≤ now) :
    (now - start) / 1000 = u - u₀ ∧ 0 ≤ u - u₀ ∧ start + 1000 * (u - u₀) = now := by
  refine ⟨?_, ?_, ?_⟩ <;> omega

/-- A packet on time is put as far behind the anchor as it comes. -/
theorem Aligned.place {delay : ℤ} {now : Instant} {c : Connection} (h : c.Aligned delay now)
    {data : DataPacket} (hon : OnTime delay data now) (hnear : |c.anchoredUs now - c.newestUs| < 0x80000000)
    {ref : Timestamp} {start : Instant} {wrap : TsbpdWrap} (hbase : c.rx.tsbpdBase = some (ref, start))
    (hwrap : c.rx.tsWrap = some wrap) :
    wrap.offsetOf data.timestamp = c.anchoredUs now + ref.asMicros.toNat ∧ 0 ≤ c.anchoredUs now ∧
      start + 1000 * c.anchoredUs now = now := by
  obtain ⟨hexact, hstamp⟩ := hon
  obtain ⟨hle, hstart, href⟩ := h.anchor ref start hbase
  obtain ⟨hus, hforward, hsum⟩ := elapsed_micros hexact hstart hle
  have hposition : c.newestUs = wrap.position - ref.asMicros.toNat := by simp [newestUs, hbase, hwrap]
  have hanchored : c.anchoredUs now = sentUs delay now - sentUs delay start := by
    rw [anchoredUs, hbase]
    exact hus
  generalize sentUs delay now = u at *
  generalize sentUs delay start = u₀ at *
  rw [hposition, hanchored, abs_lt] at hnear
  rw [hanchored]
  refine ⟨(h.whole wrap hwrap).offsetOf ?_ (by omega) (by omega), hforward, hsum⟩
  rw [hstamp, href]
  omega

/-- A packet on time is expected when it comes. -/
theorem Aligned.expectedArrival {delay : ℤ} {now : Instant} {c : Connection} (h : c.Aligned delay now)
    (data : DataPacket) (hon : OnTime delay data now) (hcorrection : c.rx.drift.correctionUs = 0)
    (hnear : |c.anchoredUs now - c.newestUs| < 0x80000000) :
    (c.anchorTsbpd data.timestamp now).tsbpdExpectedArrival data.timestamp = some now := by
  unfold Connection.anchorTsbpd tsbpdExpectedArrival
  cases hbase : c.rx.tsbpdBase with
  | none =>
    have hplace : (TsbpdWrap.new data.timestamp).offsetOf data.timestamp = data.timestamp.asMicros.toNat := by
      rw [TsbpdWrap.offsetOf_eq, TsbpdWrap.new, TsbpdWrap.wrappingDiff_self]
      simp [TsbpdWrap.position]
    dsimp only
    rw [hplace, hcorrection, sub_self, add_zero, applySigned_nonneg now le_rfl, mul_zero, add_zero]
  | some base =>
    obtain ⟨ref, start⟩ := base
    obtain ⟨wrap, hwrap⟩ := Option.isSome_iff_exists.mp (h.wrapped (by simp [hbase]))
    obtain ⟨hplace, hforward, hsum⟩ := h.place hon hnear hbase hwrap
    have hoffset : c.anchoredUs now + ref.asMicros.toNat - (ref.asMicros.toNat : ℤ) + 0
        = c.anchoredUs now := by omega
    dsimp only
    rw [hbase, hwrap, Option.map_some]
    dsimp only
    rw [TsbpdWrap.offsetOf_observe, hplace, hcorrection, hoffset, applySigned_nonneg _ hforward]
    exact congrArg some hsum

/-- The newest timestamp after a packet on time. -/
theorem Aligned.arrived_newest {delay : ℤ} {now : Instant} {c : Connection} (h : c.Aligned delay now)
    {data : DataPacket} (hon : OnTime delay data now) (hnear : |c.anchoredUs now - c.newestUs| < 0x80000000)
    (hbase : c.rx.tsbpdBase.isSome) (b : RecvBuffer) :
    (c.arrived data b now).rx.tsbpdBase = c.rx.tsbpdBase ∧
      (c.arrived data b now).newestUs = max c.newestUs (c.anchoredUs now) := by
  obtain ⟨⟨ref, start⟩, hbase⟩ := Option.isSome_iff_exists.mp hbase
  obtain ⟨wrap, hwrap⟩ := Option.isSome_iff_exists.mp (h.wrapped (by simp [hbase]))
  obtain ⟨hplace, -, -⟩ := h.place hon hnear hbase hwrap
  obtain ⟨hbase', hwrap', -, -⟩ := recordArrival_timeline c data b now
  have hdrift : ∀ c : Connection, (c.sampleDrift data now).rx.tsbpdBase = c.rx.tsbpdBase ∧
      (c.sampleDrift data now).rx.tsWrap = c.rx.tsWrap := by
    intro c
    unfold sampleDrift
    split <;> exact ⟨rfl, rfl⟩
  have hanchor : ((c.recordArrival data b now).anchorTsbpd data.timestamp now).rx.tsbpdBase = some (ref, start) ∧
      ((c.recordArrival data b now).anchorTsbpd data.timestamp now).rx.tsWrap
        = some (wrap.observe data.timestamp) := by
    unfold Connection.anchorTsbpd
    rw [hbase', hbase]
    dsimp only
    rw [hbase', hbase, hwrap', hwrap]
    exact ⟨rfl, rfl⟩
  unfold Connection.arrived
  obtain ⟨hb, hw⟩ := hdrift ((c.recordArrival data b now).anchorTsbpd data.timestamp now)
  refine ⟨hb.trans (hanchor.1.trans hbase.symm), ?_⟩
  have hbefore : c.newestUs = wrap.position - ref.asMicros.toNat := by simp [newestUs, hbase, hwrap]
  rw [newestUs, hb, hw, hanchor.1, hanchor.2, hbefore]
  dsimp only
  rw [TsbpdWrap.position_observe]
  rw [TsbpdWrap.offsetOf_eq] at hplace
  omega

theorem signedMicros_self (t : Instant) : signedMicros t t = 0 := by
  simp [signedMicros, Duration.asMicros]

theorem anchorTsbpd_rest (c : Connection) (timestamp : Timestamp) (now : Instant) :
    (c.anchorTsbpd timestamp now).rx.drift = c.rx.drift ∧ (c.anchorTsbpd timestamp now).rtt = c.rtt := by
  unfold anchorTsbpd
  split <;> exact ⟨rfl, rfl⟩

/-- What a newly stored packet does to the timeline: one on time adds a sample of no drift, a
retransmission adds none. -/
theorem Aligned.arrived {delay : ℤ} {now : Instant} {c : Connection} (h : c.Aligned delay now)
    (data : DataPacket) (b : RecvBuffer) (hcorrection : c.rx.drift.correctionUs = 0)
    (hfirst : c.rx.tsbpdBase = none → data.retransmitted = false)
    (hon : data.retransmitted = false →
      OnTime delay data now ∧ |c.anchoredUs now - c.newestUs| < 0x80000000) :
    (c.arrived data b now).Aligned delay now ∧ (c.arrived data b now).rtt = c.rtt ∧
      (c.arrived data b now).rx.drift =
        if data.retransmitted then c.rx.drift else c.rx.drift.sample 0 (microsI64 c.rtt.rtt) := by
  obtain ⟨hbase, hwrap, hdrift, hrtt⟩ := recordArrival_timeline c data b now
  have hrecorded : (c.recordArrival data b now).Aligned delay now := h.congr hbase hwrap
  have hanchored := hrecorded.anchorTsbpd data fun hnone =>
    (hon (hfirst (hbase ▸ hnone))).1
  have hcorrection' : (c.recordArrival data b now).rx.drift.correctionUs = 0 := by rw [hdrift, hcorrection]
  obtain ⟨hdrift', hrtt'⟩ := anchorTsbpd_rest (c.recordArrival data b now) data.timestamp now
  unfold Connection.arrived
  cases hr : data.retransmitted with
  | true =>
    have he : ((c.recordArrival data b now).anchorTsbpd data.timestamp now).sampleDrift data now
        = (c.recordArrival data b now).anchorTsbpd data.timestamp now := by
      rw [sampleDrift, hr]
    rw [he]
    exact ⟨hanchored, hrtt'.trans hrtt, hdrift'.trans hdrift⟩
  | false =>
    obtain ⟨hontime, hnear⟩ := hon hr
    have hnear' : |(c.recordArrival data b now).anchoredUs now - (c.recordArrival data b now).newestUs|
        < 0x80000000 := by
      rw [anchoredUs, newestUs, hbase, hwrap]
      exact hnear
    have hexpected := hrecorded.expectedArrival data hontime hcorrection' hnear'
    generalize (c.recordArrival data b now).anchorTsbpd data.timestamp now = a at *
    have he : a.sampleDrift data now = { a with
        rx := { a.rx with drift := a.rx.drift.sample 0 (microsI64 a.rtt.rtt) } } := by
      rw [sampleDrift, hr, hexpected]
      dsimp only
      rw [signedMicros_self]
    rw [he]
    refine ⟨hanchored.congr rfl rfl, hrtt'.trans hrtt, ?_⟩
    simp only [Bool.false_eq_true, if_false]
    rw [hdrift', hdrift, hrtt', hrtt]

/-! ## A constant round-trip time -/

/-- The round trip an ACKACK measures. -/
def measured (c : Connection) (number : UInt32) (now : Instant) : Option Duration :=
  match c.rx.pendingAcks.findIdx? (·.1 = number) with
  | none => none
  | some pos => (c.rx.pendingAcks[pos]?).map fun pending => now.saturatingDurationSince pending.2

theorem onAckack_measured (c : Connection) (number : UInt32) (now : Instant) :
    (c.onAckack number now).rx.tsbpdBase = c.rx.tsbpdBase ∧ (c.onAckack number now).rx.tsWrap = c.rx.tsWrap ∧
      (c.onAckack number now).rx.drift = c.rx.drift ∧
      ((c.onAckack number now).rtt = c.rtt ∨
        ∃ r, c.measured number now = some r ∧ (c.onAckack number now).rtt = c.rtt.sample r) := by
  unfold onAckack measured
  cases c.rx.pendingAcks.findIdx? (·.1 = number) with
  | none => exact ⟨rfl, rfl, rfl, .inl rfl⟩
  | some pos =>
    dsimp only
    cases c.rx.pendingAcks[pos]? with
    | none => exact ⟨rfl, rfl, rfl, .inl rfl⟩
    | some pending => exact ⟨rfl, rfl, rfl, .inr ⟨_, rfl, rfl⟩⟩

/-- The estimate that constant samples lead to. -/
structure Constant (r : Duration) (rtt : RttEstimator) : Prop where
  initial : rtt.sampled = false → microsI64 rtt.rtt = 100000
  settled : rtt.sampled = true → Duration.asMicros rtt.rtt = Duration.asMicros r

/-- The smoothed value of constant samples stays, short of saturation. -/
theorem Constant.sample {r : Duration} {rtt : RttEstimator} (h : Constant r rtt)
    (hr : 7 * Duration.asMicros r < 0x10000000000000000) : Constant r (rtt.sample r) := by
  cases hs : rtt.sampled with
  | false =>
    have he : rtt.sample r = ⟨r, Duration.fromMicros (RttEstimator.micros r / 2), true⟩ := by
      rw [RttEstimator.sample, hs]
      rfl
    rw [he]
    exact ⟨fun h => absurd h (by simp), fun _ => rfl⟩
  | true =>
    have hsettled := h.settled hs
    have hmicros : RttEstimator.micros rtt.rtt = Duration.asMicros r := by
      rw [RttEstimator.micros, hsettled]
      omega
    have hmicros' : RttEstimator.micros r = Duration.asMicros r := by
      rw [RttEstimator.micros]
      omega
    have hsmooth : (RttEstimator.saturatingMul (Duration.asMicros r) 7 + Duration.asMicros r) / 8
        = Duration.asMicros r := by
      rw [RttEstimator.saturatingMul]
      omega
    have hrtt : (rtt.sample r).rtt = Duration.fromMicros (Duration.asMicros r) ∧
        (rtt.sample r).sampled = true := by
      rw [RttEstimator.sample, hs]
      dsimp only
      rw [hmicros, hmicros', hsmooth]
      exact ⟨rfl, rfl⟩
    refine ⟨fun h => absurd (hrtt.2.symm.trans h) (by simp), fun _ => ?_⟩
    rw [hrtt.1, Duration.fromMicros, Duration.asMicros, Nat.mul_div_cancel _ (by decide)]

/-- The round-trip times that samples of drift are taken at. -/
def AtLevel (r : Duration) (us : ℤ) : Prop :=
  us = microsI64 r ∨ us = 100000 ∧ |microsI64 r - 100000| ≤ 1

theorem AtLevel.delta {r : Duration} {us us' : ℤ} (h : AtLevel r us) (h' : AtLevel r us') :
    (us - us').tdiv 2 = 0 := by
  have hclose : -1 ≤ us - us' ∧ us - us' ≤ 1 := by
    rcases h with h | ⟨h, hr⟩ <;> rcases h' with h' | ⟨h', hr'⟩ <;>
      (try rw [abs_le] at hr) <;> (try rw [abs_le] at hr') <;> omega
  have hcases : us - us' = -1 ∨ us - us' = 0 ∨ us - us' = 1 := by omega
  rcases hcases with h | h | h <;> rw [h] <;> rfl

/-- No drift was found, and the round-trip time is constant. -/
structure Driftless (r : Duration) (delay : ℤ) (t : Instant) (c : Connection) : Prop where
  aligned : c.Aligned delay t
  rtt : Constant r c.rtt
  sum : c.rx.drift.sumUs = 0
  correction : c.rx.drift.correctionUs = 0
  first : ∀ us ∈ c.rx.drift.firstRttUs, AtLevel r us

theorem DriftTracer.sample_still {t : DriftTracer} {us : ℤ} (hsum : t.sumUs = 0) (hcorrection : t.correctionUs = 0)
    (hdelta : (us - t.firstRttUs.getD us).tdiv 2 = 0) :
    (t.sample 0 us).sumUs = 0 ∧ (t.sample 0 us).correctionUs = 0 ∧
      (t.sample 0 us).firstRttUs = some (t.firstRttUs.getD us) := by
  unfold DriftTracer.sample
  dsimp only
  rw [hdelta, hsum, hcorrection]
  split <;> simp

/-- What is known of a packet that is stored: the first is not a retransmission, and an original is on
time, less than half a timestamp period from the newest, and comes after the first measured round trip
unless that shows in no sample. -/
def Regular (r : Duration) (delay : ℤ) (c : Connection) (data : DataPacket) (now : Instant) : Prop :=
  (c.rx.tsbpdBase = none → data.retransmitted = false) ∧
    (data.retransmitted = false → OnTime delay data now ∧ |c.anchoredUs now - c.newestUs| < 0x80000000 ∧
      (c.rtt.sampled = true ∨ |microsI64 r - 100000| ≤ 1))

theorem driftless_timed (P : Primitives) (r : Duration) (delay : ℤ)
    (hr : 7 * Duration.asMicros r < 0x10000000000000000) :
    Timed P (fun c data now => c.Stores P data → Regular r delay c data now)
      (fun c number now => ∀ sample ∈ c.measured number now, sample = r) (Driftless r delay) where
  later t t' c hle h := ⟨h.aligned.later hle, h.rtt, h.sum, h.correction, h.first⟩
  still t c c' hs h := by
    refine ⟨h.aligned.congr hs.tsbpdBase hs.tsWrap, ?_, ?_, ?_, ?_⟩
    · rw [hs.rtt]
      exact h.rtt
    · rw [hs.drift]
      exact h.sum
    · rw [hs.drift]
      exact h.correction
    · rw [hs.drift]
      exact h.first
  arrive c data now result b hregular hstores hopen h := by
    obtain ⟨hfirst, horiginal⟩ := hregular hstores
    have hresult := (openPacket_spec hopen).1
    have hretransmitted : result.1.retransmitted = data.retransmitted := by rw [hresult]
    have hstamp : result.1.timestamp = data.timestamp := by rw [hresult]
    have hrecord : (c.record result.2).Aligned delay now := h.aligned.congr rfl rfl
    have hon : result.1.retransmitted = false → OnTime delay result.1 now ∧
        |(c.record result.2).anchoredUs now - (c.record result.2).newestUs| < 0x80000000 := by
      intro hr
      obtain ⟨hontime, hnear, -⟩ := horiginal (hretransmitted ▸ hr)
      refine ⟨?_, hnear⟩
      rw [OnTime, hstamp]
      exact hontime
    obtain ⟨haligned, hrtt, hdrift⟩ := hrecord.arrived result.1 b h.correction
      (fun hnone => hretransmitted.trans (hfirst hnone)) hon
    generalize (c.record result.2).arrived result.1 b now = c' at *
    have hrtt : c'.rtt = c.rtt := hrtt
    have hdrift : c'.rx.drift =
        if data.retransmitted then c.rx.drift else c.rx.drift.sample 0 (microsI64 c.rtt.rtt) := by
      rw [hdrift, hretransmitted]
      rfl
    cases hr : data.retransmitted with
    | true =>
      rw [hr, if_pos rfl] at hdrift
      exact ⟨haligned, by rw [hrtt]; exact h.rtt, by rw [hdrift]; exact h.sum,
        by rw [hdrift]; exact h.correction, by rw [hdrift]; exact h.first⟩
    | false =>
      have hlevel : AtLevel r (microsI64 c.rtt.rtt) := by
        rcases (horiginal hr).2.2 with hsampled | hclose
        · exact .inl (by rw [microsI64, microsI64, h.rtt.settled hsampled])
        · cases hs : c.rtt.sampled with
          | true => exact .inl (by rw [microsI64, microsI64, h.rtt.settled hs])
          | false => exact .inr ⟨h.rtt.initial hs, hclose⟩
      have hfirstLevel : AtLevel r (c.rx.drift.firstRttUs.getD (microsI64 c.rtt.rtt)) := by
        cases hf : c.rx.drift.firstRttUs with
        | none => exact hlevel
        | some us => exact h.first us hf
      obtain ⟨hsum, hcorrection, hkept⟩ := DriftTracer.sample_still h.sum h.correction (hlevel.delta hfirstLevel)
      rw [hr, if_neg (by simp)] at hdrift
      refine ⟨haligned, by rw [hrtt]; exact h.rtt, by rw [hdrift]; exact hsum,
        by rw [hdrift]; exact hcorrection, ?_⟩
      rw [hdrift, hkept]
      intro us hus
      obtain rfl := Option.some.inj hus
      exact hfirstLevel
  ackack c number now hacked h := by
    obtain ⟨hbase, hwrap, hdrift, hrtt⟩ := onAckack_measured c number now
    refine ⟨h.aligned.congr hbase hwrap, ?_, ?_, ?_, ?_⟩
    · rcases hrtt with hrtt | ⟨sample, hsample, hrtt⟩
      · rw [hrtt]
        exact h.rtt
      · rw [hrtt, hacked sample hsample]
        exact h.rtt.sample hr
    · rw [hdrift]
      exact h.sum
    · rw [hdrift]
      exact h.correction
    · rw [hdrift]
      exact h.first
  ackedFrame _ _ _ h := h

end Connection

namespace Session

/-- The clocks tick at one rate: every stored original arrives `delay` after its timestamp, and every
ACKACK measures `r`. -/
def Steady (P : Primitives) (r : Duration) (delay : ℤ) (s : Session) (input : Call × Instant) : Prop :=
  s.clock ≤ input.2 ∧
    (∀ x ∈ s.conn.handed P input.1 input.2, x.1.Stores P x.2 → x.2.retransmitted = false →
      Connection.OnTime delay x.2 input.2) ∧
    ∀ number ∈ s.conn.ackackOf input.1, ∀ sample ∈ s.conn.measured number input.2, sample = r

instance (P : Primitives) (r : Duration) (delay : ℤ) (s : Session) (input : Call × Instant) :
    Decidable (s.Steady P r delay input) :=
  -- the search through all 2^32 numbers of an ACKACK is not the instance that is meant
  have : Decidable (∀ number ∈ s.conn.ackackOf input.1, ∀ sample ∈ s.conn.measured number input.2, sample = r) :=
    Option.decidableForallMem _
  inferInstanceAs (Decidable (_ ∧ (∀ x ∈ s.conn.handed P input.1 input.2, _ → _ → _) ∧ _))

/-- The first packet stored is not a retransmission; an original is stored less than half a timestamp
period from the newest one, and after the first measured round trip unless that is 100 ms to within a
microsecond. -/
def Attuned (P : Primitives) (r : Duration) (s : Session) (input : Call × Instant) : Prop :=
  ∀ x ∈ s.conn.handed P input.1 input.2, x.1.Stores P x.2 →
    (x.1.rx.tsbpdBase = none → x.2.retransmitted = false) ∧
      (x.2.retransmitted = false → |x.1.anchoredUs input.2 - x.1.newestUs| < 0x80000000 ∧
        (x.1.rtt.sampled = true ∨ |Connection.microsI64 r - 100000| ≤ 1))

instance (P : Primitives) (r : Duration) (s : Session) (input : Call × Instant) :
    Decidable (s.Attuned P r input) :=
  inferInstanceAs (Decidable (∀ x ∈ s.conn.handed P input.1 input.2, _ → (_ → _) ∧ (_ → _ ∧ (_ ∨ _))))

theorem Started.driftless {P : Primitives} {s : Session} (hs : Started P s) (r : Duration) (delay : ℤ) :
    s.conn.Driftless r delay s.clock := by
  obtain ⟨hrx, -⟩ := hs.empty
  have hrtt : s.conn.rtt = RttEstimator.new := by
    obtain ⟨c, now, hc, rfl⟩ := hs.fresh
    exact hc.rtt
  have hnew : s.conn.rx.tsbpdBase = none ∧ s.conn.rx.tsWrap = none ∧ s.conn.rx.drift = DriftTracer.new := by
    rw [hrx]
    exact ⟨rfl, rfl, rfl⟩
  obtain ⟨hbase, hwrap, hdrift⟩ := hnew
  refine ⟨⟨?_, ?_, ?_⟩, ⟨fun _ => ?_, ?_⟩, ?_, ?_, ?_⟩
  · simp [hbase]
  · simp [hbase]
  · simp [hwrap]
  · rw [hrtt]
    rfl
  · simp [hrtt, RttEstimator.new]
  · rw [hdrift]
    rfl
  · rw [hdrift]
    rfl
  · simp [hdrift, DriftTracer.new]

/-- A packet of a stream over a path that takes no time, stamped `us`. -/
def original (n us : ℕ) : DataPacket :=
  { seq := (SeqNumber.new 0).add n, position := .single, inOrder := true, encryption := .none
    retransmitted := false, messageNumber := MsgNumber.new 1, timestamp := ⟨UInt32.ofNat us⟩
    destSocketId := ⟨2⟩, payload := [7] }

/-- A caller's ACKACK. -/
def plainAckack (number : UInt32) : Call :=
  .feedRecvBuf ((Packet.encode (.control
    { timestamp := ⟨0⟩, destSocketId := ⟨2⟩, body := .ackAck number })).getD [])

end Session

/-! ## Originals in order -/

namespace Connection

/-- A receiver that has stored `n` packets in order, each taking a slot of the window at most. -/
structure Fits (isn : SeqNumber) (n : ℕ) (c : Connection) : Prop where
  plain : c.rx.fecRecv = none
  next : c.rx.recvBuffer.base.add c.rx.recvBuffer.slots.length = isn.add n
  short : c.rx.recvBuffer.slots.length ≤ n
  held : c.rx.recvBuffer.received + c.events.length ≤ n + 1

namespace Fits

variable {isn : SeqNumber} {n : ℕ} {c c' : Connection}

theorem congr (h : c.Fits isn n) (hfec : c'.rx.fecRecv = c.rx.fecRecv)
    (hbuffer : c'.rx.recvBuffer = c.rx.recvBuffer) (hevents : c'.events = c.events) : c'.Fits isn n :=
  ⟨by rw [hfec]; exact h.plain, by rw [hbuffer]; exact h.next, by rw [hbuffer]; exact h.short,
    by rw [hbuffer, hevents]; exact h.held⟩

theorem deliverPopped (h : c.Fits isn n) {packet : DataPacket} {rest : RecvBuffer}
    (hpop : c.rx.recvBuffer.pop = some (packet, rest)) : (c.deliverPopped packet rest).Fits isn n := by
  obtain ⟨hp, hslots, hbase, -⟩ := RecvBuffer.pop_spec _ _ _ hpop
  have hlt := (List.getElem?_eq_some_iff.mp hp).1
  have hreceived := RecvBuffer.pop_received _ _ _ hpop
  have hrest : (c.deliverPopped packet rest).rx.fecRecv = c.rx.fecRecv ∧
      (c.deliverPopped packet rest).events.length ≤ c.events.length + 1 := by
    unfold Connection.deliverPopped deliverPacket
    dsimp only
    split
    · exact ⟨rfl, by simp [event, record]⟩
    · exact ⟨rfl, Nat.le_succ _⟩
  have hheld := h.held
  have hshort := h.short
  refine ⟨by rw [hrest.1]; exact h.plain, ?_, ?_, ?_⟩
  · rw [deliverPopped_recvBuffer, hbase, hslots, List.length_drop, SeqNumber.add_add, ← h.next]
    congr 1
    omega
  · rw [deliverPopped_recvBuffer, hslots, List.length_drop]
    omega
  · rw [deliverPopped_recvBuffer]
    omega

theorem deliverTsbpd (h : c.Fits isn n) (now : Instant) : (c.deliverTsbpd now).Fits isn n :=
  deliverTsbpd_rule (fun _ _ _ h => h.congr rfl rfl rfl) (fun _ _ _ hpop h => h.deliverPopped hpop) now h

theorem emitControl (h : c.Fits isn n) (body : ControlBody) (now : Instant) :
    (c.emitControl body now).Fits isn n := by
  unfold Connection.emitControl
  split <;> exact h.congr rfl rfl rfl

theorem lightAckIfDue (h : c.Fits isn n) (now : Instant) : (c.lightAckIfDue now).Fits isn n := by
  have hcount : c.countTowardsAck.Fits isn n := h.congr rfl rfl rfl
  have hnote : c.countTowardsAck.noteLightAck.Fits isn n := hcount.congr rfl rfl rfl
  unfold Connection.lightAckIfDue
  split
  · exact hnote.emitControl _ now
  · exact hcount

theorem reportGaps (h : c.Fits isn n) (now : Instant) : (c.reportGaps now).Fits isn n := by
  have hcount : c.countNakSent.Fits isn n := h.congr rfl rfl rfl
  have hnote : ∀ (c : Connection), c.Fits isn n → (c.noteNak now).Fits isn n := fun _ h => h.congr rfl rfl rfl
  have hloss : ∀ (c : Connection) missing, c.Fits isn n → (c.setReportedLoss missing).Fits isn n :=
    fun _ _ h => h.congr rfl rfl rfl
  unfold Connection.reportGaps
  dsimp only
  split
  · split
    · exact hloss _ _ (hnote _ (hcount.emitControl _ now))
    · exact h
  · exact hloss _ _ h

theorem arrived {data : DataPacket} {b : RecvBuffer} {now : Instant} (h : (c.setRecvBuffer b).Fits isn n) :
    (c.arrived data b now).Fits isn n := by
  have hrecorded : (c.recordArrival data b now).Fits isn n := by
    unfold recordArrival
    dsimp only
    obtain ⟨_, _, _, he⟩ := trackReorder_eq
      { c.rx with
        recvBuffer := b
        stats :=
          { c.rx.stats with
            packetsReceived := c.rx.stats.packetsReceived + 1
            bytesReceived := c.rx.stats.bytesReceived + data.payload.length } }
      data.seq data.retransmitted
    rw [he]
    exact h.congr rfl rfl rfl
  have hanchored : ((c.recordArrival data b now).anchorTsbpd data.timestamp now).Fits isn n := by
    unfold anchorTsbpd
    split <;> exact hrecorded.congr rfl rfl rfl
  unfold Connection.arrived sampleDrift
  split <;> exact hanchored.congr rfl rfl rfl

/-- The next packet of the stream is stored behind the others. -/
theorem insert (h : c.Fits isn n) (hn : n < 0x3FFFFFFF) {data : DataPacket} (hseq : data.seq = isn.add n) :
    (c.rx.recvBuffer.insert data).1 = true ∧
      (c.rx.recvBuffer.insert data).2.base.add (c.rx.recvBuffer.insert data).2.slots.length = isn.add (n + 1) ∧
      (c.rx.recvBuffer.insert data).2.slots.length = c.rx.recvBuffer.slots.length + 1 ∧
      (c.rx.recvBuffer.insert data).2.received = c.rx.recvBuffer.received + 1 := by
  have hshort := h.short
  have hlo : ((0 : ℕ) : ℤ) - c.rx.recvBuffer.slots.length ≤ 0x40000000 := by omega
  have hhi : (c.rx.recvBuffer.slots.length : ℤ) - (0 : ℕ) < 0x40000000 := by omega
  have hadd := SeqNumber.offsetFrom_add c.rx.recvBuffer.base c.rx.recvBuffer.slots.length 0 hlo hhi
  rw [SeqNumber.add_zero, Nat.cast_zero, sub_zero, h.next, ← hseq] at hadd
  have hnew : (c.rx.recvBuffer.insert data).1 = true := by
    refine RecvBuffer.insert_new (by omega) ?_
    rw [hadd, Int.toNat_natCast, List.getElem?_eq_none (Nat.le_refl _)]
    rfl
  obtain ⟨-, -, hbase, hreceived, hslots⟩ := RecvBuffer.insert_spec _ _ hnew
  have hlen : (c.rx.recvBuffer.insert data).2.slots.length = c.rx.recvBuffer.slots.length + 1 := by
    rw [hslots, hadd, Int.toNat_natCast, RecvBuffer.length_resize_set]
    omega
  refine ⟨hnew, ?_, hlen, hreceived⟩
  rw [hbase, hlen, ← SeqNumber.add_add, h.next, SeqNumber.add_add]

/-- What `insert_data` does with it. -/
theorem insertData (h : c.Fits isn n) (hn : n < 0x3FFFFFFF) {data : DataPacket} (hseq : data.seq = isn.add n)
    (hplain : data.encryption = .none) (hroom : n + 1 < c.config.flowWindow.toNat) (P : Primitives)
    (now : Instant) : c.Stores P data ∧ (c.insertData P data now).Fits isn (n + 1) ∧
      ∃ b, Still (c.arrived data b now) (c.insertData P data now) := by
  obtain ⟨hnew, hnext, hlen, hreceived⟩ := h.insert hn hseq
  have hshort := h.short
  have hheld := h.held
  have havail : c.availableRecvBuffer ≠ 0 := by
    unfold availableRecvBuffer clampU32 RecvBuffer.occupancy
    omega
  have hopen : c.openPacket P data = some (data, []) := by rw [openPacket, hplain]
  have hrecord : c.record [] = c := by simp [record]
  have he : c.insertData P data now = c.afterInsert data (c.rx.recvBuffer.insert data).2 now := by
    rw [Connection.insertData, if_neg havail, hopen]
    dsimp only
    rw [hrecord, if_pos hnew]
  have hset : ∀ b : RecvBuffer, b.base.add b.slots.length = isn.add (n + 1) →
      b.slots.length = c.rx.recvBuffer.slots.length + 1 → b.received = c.rx.recvBuffer.received + 1 →
      (c.setRecvBuffer b).Fits isn (n + 1) := by
    intro b hnext hlen hreceived
    refine ⟨h.plain, hnext, ?_, ?_⟩
    · rw [setRecvBuffer_recvBuffer]
      omega
    · rw [setRecvBuffer_recvBuffer, setRecvBuffer_events]
      omega
  have hstores : c.Stores P data := ⟨havail, _, hopen, hnew⟩
  have hset := hset _ hnext hlen hreceived
  generalize c.rx.recvBuffer.insert data = inserted at he hset
  have hstill : Still (c.arrived data inserted.2 now) (c.afterInsert data inserted.2 now) := by
    rw [afterInsert_eq]
    exact ((deliverTsbpd_still _ now).trans (lightAckIfDue_clerical _ now).still).trans (reportGaps_still _ now)
  have hfits : (c.afterInsert data inserted.2 now).Fits isn (n + 1) := by
    rw [afterInsert_eq]
    exact ((hset.arrived.deliverTsbpd now).lightAckIfDue now).reportGaps now
  rw [he]
  exact ⟨hstores, hfits, inserted.2, hstill⟩

end Fits

/-! ## A stream at a constant round trip -/

theorem original_onTime (n us : ℕ) : OnTime 0 (Session.original n us) ((us : ℤ) * 1000) := by
  have hsent : sentUs 0 ((us : ℤ) * 1000) = us := by
    rw [sentUs]
    omega
  rw [OnTime, hsent]
  refine ⟨by ring, ?_⟩
  simp [Session.original, UInt32.toNat_ofNat']

/-- A receiver anchored in the first 30 ms that has stored `n + 1` packets, the last ones a microsecond apart
from then on, and that has measured 20 ms before those. -/
structure Onward (n : ℕ) (t : Instant) (c : Connection) : Prop where
  connected : c.link.state = .connected
  window : 8192 ≤ c.config.flowWindow.toNat
  fits : c.Fits (SeqNumber.new 0) (n + 1)
  aligned : c.Aligned 0 t
  anchor : ∃ (ref : Timestamp) (start : ℤ), c.rx.tsbpdBase = some (ref, start) ∧ 0 ≤ start ∧ start ≤ 30000000
  newest : 0 ≤ c.newestUs ∧ c.newestUs ≤ (30000 + n : ℕ)
  sampled : c.rtt.sampled = true
  rtt : microsI64 c.rtt.rtt = 20000

/-- The next packet comes near the newest one. -/
theorem Onward.near {n : ℕ} {t : Instant} {c : Connection} (h : c.Onward n t) (hn : n + 2 < 8192) :
    0 ≤ c.anchoredUs (((30000 + n : ℕ) : ℤ) * 1000) ∧
      c.anchoredUs (((30000 + n : ℕ) : ℤ) * 1000) ≤ (30000 + n : ℕ) ∧
      |c.anchoredUs (((30000 + n : ℕ) : ℤ) * 1000) - c.newestUs| < 0x80000000 := by
  obtain ⟨ref, start, hbase, hlo, hhi⟩ := h.anchor
  obtain ⟨hnewest, hnewest'⟩ := h.newest
  have hanchored : c.anchoredUs (((30000 + n : ℕ) : ℤ) * 1000) = (((30000 + n : ℕ) : ℤ) * 1000 - start) / 1000 := by
    rw [anchoredUs, hbase]
  have hbounds : 0 ≤ (((30000 + n : ℕ) : ℤ) * 1000 - start) / 1000 ∧
      (((30000 + n : ℕ) : ℤ) * 1000 - start) / 1000 ≤ (30000 + n : ℕ) := by omega
  rw [hanchored, abs_lt]
  omega

/-- The next packet adds a sample at the measured round trip. -/
theorem Onward.insertData {n : ℕ} {c : Connection} (h : c.Onward n (((30000 + n : ℕ) : ℤ) * 1000)) (hn : n + 2 < 8192)
    (hcorrection : c.rx.drift.correctionUs = 0) (P : Primitives) :
    (c.insertData P (Session.original (n + 1) (30000 + n)) (((30000 + n : ℕ) : ℤ) * 1000)).Onward (n + 1)
        (((30000 + n : ℕ) : ℤ) * 1000) ∧
      (c.insertData P (Session.original (n + 1) (30000 + n)) (((30000 + n : ℕ) : ℤ) * 1000)).rx.drift
        = c.rx.drift.sample 0 20000 := by
  have hontime := original_onTime (n + 1) (30000 + n)
  have hseq : (Session.original (n + 1) (30000 + n)).seq = (SeqNumber.new 0).add (n + 1) := rfl
  have hclear : (Session.original (n + 1) (30000 + n)).encryption = .none := rfl
  have hfresh : (Session.original (n + 1) (30000 + n)).retransmitted = false := rfl
  have hwindow : n + 1 + 1 < c.config.flowWindow.toNat := hn.trans_le h.window
  obtain ⟨hforward, hbehind, hnear⟩ := h.near hn
  generalize Session.original (n + 1) (30000 + n) = data at *
  generalize ((30000 + n : ℕ) : ℤ) * 1000 = now at *
  have hnewest := h.newest
  have hsome : c.rx.tsbpdBase.isSome := by
    obtain ⟨ref, start, hbase, -, -⟩ := h.anchor
    rw [hbase]
    rfl
  obtain ⟨-, hfits, b, hstill⟩ := h.fits.insertData (by omega) hseq hclear hwindow P now
  obtain ⟨haligned, hrtt, hdrift⟩ := h.aligned.arrived data b hcorrection (fun _ => hfresh)
    fun _ => ⟨hontime, hnear⟩
  obtain ⟨hbase, hlater⟩ := h.aligned.arrived_newest hontime hnear hsome b
  have hrx := insertData_rxStep P c data now
  rw [hfresh, if_neg (by simp), h.rtt] at hdrift
  generalize c.arrived data b now = a at *
  generalize c.insertData P data now = c' at *
  have hlater' : c'.newestUs = a.newestUs := by
    rw [newestUs, newestUs, hstill.tsbpdBase, hstill.tsWrap]
  refine ⟨⟨?_, ?_, hfits, haligned.congr hstill.tsbpdBase hstill.tsWrap, ?_, ?_, ?_, ?_⟩, ?_⟩
  · rw [hrx.link]
    exact h.connected
  · rw [config_of_ident hrx.ident]
    exact h.window
  · rw [hstill.tsbpdBase, hbase]
    exact h.anchor
  · rw [hlater', hlater]
    omega
  · rw [hstill.rtt, hrtt]
    exact h.sampled
  · rw [hstill.rtt, hrtt]
    exact h.rtt
  · rw [hstill.drift, hdrift]

end Connection

namespace Session

/-- A packet, the ACK that answers it, and the ACKACK 20 ms later. -/
def firstRoundTrip : List (Call × Instant) :=
  [(.feedRecvBuf (original 0 0).encode, 0), (.handleTimer .ack, 10000000),
    (plainAckack 1, 30000000)]

/-- The packets after that come a microsecond apart. -/
def onward (i : ℕ) : Call × Instant :=
  (.feedRecvBuf (original (i + 1) (30000 + i)).encode, ((30000 + i : ℕ) : ℤ) * 1000)

/-- A packet fed to a receiver without FEC. -/
theorem feed_plain (P : Primitives) {c : Connection} (hstate : c.link.state = .connected)
    (hplain : c.rx.fecRecv = none) {datagram : Bytes} {data : DataPacket}
    (hdecode : Packet.decode datagram = .ok (.data data)) (now : Instant) :
    c.perform P (.feedRecvBuf datagram) now = { c with lastRecvAny := now }.insertData P data now ∧
      c.handed P (.feedRecvBuf datagram) now = [({ c with lastRecvAny := now }, data)] ∧
      c.ackackOf (.feedRecvBuf datagram) = none := by
  refine ⟨?_, ?_, ?_⟩
  · unfold Connection.perform Connection.feedRecvBuf
    dsimp only
    rw [hdecode, hstate]
    dsimp only
    unfold Connection.onConnectedPacket Connection.onData
    dsimp only
    rw [hplain]
  · unfold Connection.handed
    dsimp only
    rw [hdecode, hstate]
    dsimp only
    unfold Connection.insertions
    dsimp only
    rw [hplain]
  · unfold Connection.ackackOf
    dsimp only
    rw [hdecode, hstate]

theorem settle_onward {n : ℕ} {c : Connection} {now : Instant} (s : Session) (h : c.Onward n now) :
    (s.settle c now).conn.Onward n (s.settle c now).clock ∧ (s.settle c now).clock = now ∧
      (s.settle c now).conn.rx.drift = c.rx.drift :=
  ⟨⟨h.connected, h.window, h.fits.congr rfl rfl rfl, h.aligned.congr rfl rfl, h.anchor, h.newest, h.sampled, h.rtt⟩,
    rfl, rfl⟩

/-- The packet is on time, and adds its sample. -/
theorem step_onward {n : ℕ} {s : Session} (h : s.conn.Onward n s.clock)
    (hclock : s.clock ≤ ((30000 + n : ℕ) : ℤ) * 1000) (hn : n + 2 < 8192)
    (hcorrection : s.conn.rx.drift.correctionUs = 0) (P : Primitives) :
    (s.Legal (onward n) ∧ s.Steady P 20000000 0 (onward n) ∧ s.Attuned P 20000000 (onward n)) ∧
      (step P s (onward n)).conn.Onward (n + 1) (step P s (onward n)).clock ∧
      (step P s (onward n)).clock = ((30000 + n : ℕ) : ℤ) * 1000 ∧
      (step P s (onward n)).conn.rx.drift = s.conn.rx.drift.sample 0 20000 := by
  obtain ⟨hperform, hhanded, hackack⟩ := feed_plain P h.connected h.fits.plain
    (Packet.decode_data (original (n + 1) (30000 + n))) (((30000 + n : ℕ) : ℤ) * 1000)
  have hfed : { s.conn with lastRecvAny := ((30000 + n : ℕ) : ℤ) * 1000 }.Onward n (((30000 + n : ℕ) : ℤ) * 1000) :=
    ⟨h.connected, h.window, h.fits.congr rfl rfl rfl, (h.aligned.later hclock).congr rfl rfl, h.anchor,
      h.newest, h.sampled, h.rtt⟩
  obtain ⟨-, -, hnear⟩ := hfed.near hn
  obtain ⟨hnext, hdrift⟩ := hfed.insertData hn hcorrection P
  rw [← hperform] at hnext hdrift
  have hontime := Connection.original_onTime (n + 1) (30000 + n)
  have hfresh : (original (n + 1) (30000 + n)).retransmitted = false := rfl
  unfold onward
  generalize (original (n + 1) (30000 + n)).encode = datagram at *
  generalize original (n + 1) (30000 + n) = data at *
  generalize ((30000 + n : ℕ) : ℤ) * 1000 = now at *
  refine ⟨⟨⟨hclock, trivial⟩, ⟨hclock, ?_, ?_⟩, ?_⟩, ?_⟩
  · intro x hx _ _
    rw [hhanded] at hx
    rw [List.mem_singleton.mp hx]
    exact hontime
  · rw [hackack]
    simp
  · intro x hx _
    rw [hhanded] at hx
    rw [List.mem_singleton.mp hx]
    exact ⟨fun _ => hfresh, fun _ => ⟨hnear, .inl h.sampled⟩⟩
  · unfold step
    dsimp only
    rw [← hdrift]
    generalize s.conn.perform P (.feedRecvBuf datagram) now = c' at *
    exact settle_onward _ hnext

theorem onward_succ (n : ℕ) : (List.range (n + 1)).map onward = (List.range n).map onward ++ [onward n] := by
  rw [List.range_succ, List.map_append, List.map_singleton]

/-- The samples at 20 ms, while the first of the connection was taken at the initial 100 ms. -/
theorem sample_onward (n : ℕ) : (⟨40000 * n, n + 1, 0, some 100000⟩ : DriftTracer).sample 0 20000
    = if n < 998 then ⟨40000 * (n + 1 : ℕ), n + 2, 0, some 100000⟩
      else ⟨0, 0, (40000 * (n + 1 : ℕ) : ℤ).tdiv (n + 2 : ℕ), some 100000⟩ := by
  have hdelta : ((20000 : ℤ) - 100000).tdiv 2 = -40000 := by decide
  have hsum : (40000 * n : ℤ) + (0 - -40000) = 40000 * (n + 1 : ℕ) := by omega
  unfold DriftTracer.sample
  dsimp only [Option.getD_some]
  rw [hdelta, hsum]
  by_cases hn : n < 998
  · rw [if_pos hn, if_neg (by unfold DriftTracer.driftSpan; omega)]
  · rw [if_neg hn, if_pos (by unfold DriftTracer.driftSpan; omega), zero_add]

/-- Up to the last packet of an epoch the samples add up. -/
theorem run_onward (P : Primitives) {s : Session} (h : s.conn.Onward 0 s.clock)
    (hclock : s.clock ≤ ((30000 : ℕ) : ℤ) * 1000) (hdrift : s.conn.rx.drift = ⟨0, 1, 0, some 100000⟩) (n : ℕ)
    (hn : n < 999) :
    Runs.Meets (step P) (fun s input => s.Legal input ∧ s.Steady P 20000000 0 input) s
        ((List.range n).map onward) ∧
      (Runs.run (step P) s ((List.range n).map onward)).conn.Onward n
        (Runs.run (step P) s ((List.range n).map onward)).clock ∧
      (Runs.run (step P) s ((List.range n).map onward)).clock ≤ ((30000 + n : ℕ) : ℤ) * 1000 ∧
      (Runs.run (step P) s ((List.range n).map onward)).conn.rx.drift
        = ⟨40000 * n, n + 1, 0, some 100000⟩ := by
  induction n with
  | zero => exact ⟨trivial, h, hclock, hdrift⟩
  | succ n ih =>
    obtain ⟨hmeets, h, hclock, hdrift⟩ := ih (by omega)
    rw [onward_succ, Runs.run_append, Runs.meets_append]
    generalize Runs.run (step P) s ((List.range n).map onward) = s' at *
    obtain ⟨hok, hnext, hclock', hdrift'⟩ := step_onward h hclock (by omega) (by rw [hdrift]) P
    rw [hdrift, sample_onward, if_pos (by omega)] at hdrift'
    have hlater : ((30000 + n : ℕ) : ℤ) * 1000 ≤ ((30000 + (n + 1) : ℕ) : ℤ) * 1000 := by omega
    exact ⟨⟨hmeets, ⟨hok.1, hok.2.1⟩, trivial⟩, hnext, hclock'.le.trans hlater, hdrift'⟩

/-- The last packet of the epoch turns them into a correction. -/
theorem epoch_onward (P : Primitives) {s : Session} (h : s.conn.Onward 0 s.clock)
    (hclock : s.clock ≤ ((30000 : ℕ) : ℤ) * 1000) (hdrift : s.conn.rx.drift = ⟨0, 1, 0, some 100000⟩) (m : ℕ)
    (hm : m = 999) :
    Runs.Meets (step P) (fun s input => s.Legal input ∧ s.Steady P 20000000 0 input) s
        ((List.range m).map onward) ∧
      (Runs.run (step P) s ((List.range m).map onward)).conn.rx.drift.correctionUs = 39960 := by
  obtain ⟨n, rfl⟩ : ∃ n, m = n + 1 := ⟨998, hm⟩
  obtain ⟨hmeets, h, hclock, hdrift⟩ := run_onward P h hclock hdrift n (by omega)
  rw [onward_succ, Runs.run_append, Runs.meets_append]
  generalize Runs.run (step P) s ((List.range n).map onward) = s' at *
  obtain ⟨hok, -, -, hdrift'⟩ := step_onward h hclock (by omega) (by rw [hdrift]) P
  rw [hdrift, sample_onward, if_neg (by omega)] at hdrift'
  refine ⟨⟨hmeets, ⟨hok.1, hok.2.1⟩, trivial⟩, ?_⟩
  rw [Runs.run_cons, Runs.run_nil, hdrift', Nat.succ.inj hm]
  decide

/-- The receiver once the round trip is measured. -/
theorem firstRoundTrip_onward :
    (Runs.run (step Primitives.absent) plainAcceptor firstRoundTrip).conn.Onward 0
        (Runs.run (step Primitives.absent) plainAcceptor firstRoundTrip).clock ∧
      (Runs.run (step Primitives.absent) plainAcceptor firstRoundTrip).clock ≤ ((30000 : ℕ) : ℤ) * 1000 ∧
      (Runs.run (step Primitives.absent) plainAcceptor firstRoundTrip).conn.rx.drift
        = ⟨0, 1, 0, some 100000⟩ := by
  have hanchor : (Runs.run (step Primitives.absent) plainAcceptor firstRoundTrip).conn.rx.tsbpdBase
      = some (⟨0⟩, 0) := by decide +kernel
  exact ⟨⟨by decide +kernel, by decide +kernel,
    ⟨by decide +kernel, by decide +kernel, by decide +kernel, by decide +kernel⟩,
    .first hanchor (by decide +kernel) (Connection.original_onTime 0 0) (by decide +kernel),
    ⟨_, _, hanchor, by decide, by decide⟩, by decide +kernel, by decide +kernel, by decide +kernel⟩,
    by decide +kernel, by decide +kernel⟩

/-! ## The first packet after the first round trip -/

/-- An ACK of nothing, the ACKACK 20 ms later, and the first packet. -/
def roundTripFirst : List (Call × Instant) :=
  [(.handleTimer .ack, 10000000), (plainAckack 1, 30000000), (.feedRecvBuf (original 0 30000).encode, 30000000)]

theorem roundTripFirst_onward :
    (Runs.run (step Primitives.absent) plainAcceptor roundTripFirst).conn.Onward 0
        (Runs.run (step Primitives.absent) plainAcceptor roundTripFirst).clock ∧
      (Runs.run (step Primitives.absent) plainAcceptor roundTripFirst).clock ≤ ((30000 : ℕ) : ℤ) * 1000 ∧
      (Runs.run (step Primitives.absent) plainAcceptor roundTripFirst).conn.rx.drift
        = ⟨0, 1, 0, some 20000⟩ := by
  have hanchor : (Runs.run (step Primitives.absent) plainAcceptor roundTripFirst).conn.rx.tsbpdBase
      = some (⟨30000⟩, 30000000) := by decide +kernel
  exact ⟨⟨by decide +kernel, by decide +kernel,
    ⟨by decide +kernel, by decide +kernel, by decide +kernel, by decide +kernel⟩,
    .first hanchor (by decide +kernel) (Connection.original_onTime 0 30000) (by decide +kernel),
    ⟨_, _, hanchor, by decide, by decide⟩, by decide +kernel, by decide +kernel, by decide +kernel⟩,
    by decide +kernel, by decide +kernel⟩

theorem sample_steady (n : ℕ) : (⟨0, n % 1000, 0, some 20000⟩ : DriftTracer).sample 0 20000
    = ⟨0, (n + 1) % 1000, 0, some 20000⟩ := by
  have hdelta : ((20000 : ℤ) - 20000).tdiv 2 = 0 := by decide
  unfold DriftTracer.sample
  dsimp only [Option.getD_some]
  rw [hdelta, sub_zero, add_zero]
  by_cases hfull : DriftTracer.driftSpan ≤ n % 1000 + 1
  · rw [if_pos hfull]
    unfold DriftTracer.driftSpan at hfull
    have hcount : (n + 1) % 1000 = 0 := by omega
    rw [hcount]
    simp
  · rw [if_neg hfull]
    unfold DriftTracer.driftSpan at hfull
    have hcount : (n + 1) % 1000 = n % 1000 + 1 := by omega
    rw [hcount]

/-- Over any number of epochs the samples show nothing. -/
theorem run_steady (P : Primitives) {s : Session} (h : s.conn.Onward 0 s.clock)
    (hclock : s.clock ≤ ((30000 : ℕ) : ℤ) * 1000) (hdrift : s.conn.rx.drift = ⟨0, 1, 0, some 20000⟩) (n : ℕ)
    (hn : n < 8190) :
    Runs.Meets (step P) (fun s input => s.Steady P 20000000 0 input ∧ s.Attuned P 20000000 input) s
        ((List.range n).map onward) ∧
      (Runs.run (step P) s ((List.range n).map onward)).conn.Onward n
        (Runs.run (step P) s ((List.range n).map onward)).clock ∧
      (Runs.run (step P) s ((List.range n).map onward)).clock ≤ ((30000 + n : ℕ) : ℤ) * 1000 ∧
      (Runs.run (step P) s ((List.range n).map onward)).conn.rx.drift
        = ⟨0, (n + 1) % 1000, 0, some 20000⟩ := by
  induction n with
  | zero => exact ⟨trivial, h, hclock, hdrift⟩
  | succ n ih =>
    obtain ⟨hmeets, h, hclock, hdrift⟩ := ih (by omega)
    rw [onward_succ, Runs.run_append, Runs.meets_append]
    generalize Runs.run (step P) s ((List.range n).map onward) = s' at *
    obtain ⟨hok, hnext, hclock', hdrift'⟩ := step_onward h hclock (by omega) (by rw [hdrift]) P
    rw [hdrift, sample_steady] at hdrift'
    have hlater : ((30000 + n : ℕ) : ℤ) * 1000 ≤ ((30000 + (n + 1) : ℕ) : ℤ) * 1000 := by omega
    exact ⟨⟨hmeets, hok.2, trivial⟩, hnext, hclock'.le.trans hlater, hdrift'⟩

/-! ## The correction -/

/-- Without drift, with originals that are attuned, the correction is zero in every state of the run. -/
theorem no_correction_without_drift (P : Primitives) (s : Session) (hs : Started P s) (r : Duration)
    (delay : ℤ) (hr : 7 * Duration.asMicros r < 0x10000000000000000) (inputs : List (Call × Instant))
    (hsteady : Runs.Meets (step P) (fun s input => s.Steady P r delay input ∧ s.Attuned P r input) s inputs) :
    (Runs.run (step P) s inputs).conn.rx.drift.correctionUs = 0 := by
  refine (run_timed (Connection.driftless_timed P r delay hr) (hs.driftless r delay)
    (hsteady.mono ?_)).correction
  intro s input h
  obtain ⟨⟨hclock, hontime, hmeasured⟩, hattuned⟩ := h
  refine ⟨hclock, ?_, hmeasured⟩
  intro x hx hstores
  obtain ⟨hfirst, hrest⟩ := hattuned x hx hstores
  exact ⟨hfirst, fun hr => ⟨hontime x hx hstores hr, hrest hr⟩⟩

/-- Five epochs at a round trip of 20 ms, measured before the first packet. -/
theorem no_correction_five_epochs :
    (Runs.run (step Primitives.absent) plainAcceptor
        (roundTripFirst ++ (List.range 5000).map onward)).conn.rx.drift.firstRttUs = some 20000 ∧
      (Runs.run (step Primitives.absent) plainAcceptor
        (roundTripFirst ++ (List.range 5000).map onward)).conn.rx.drift.correctionUs = 0 := by
  obtain ⟨h, hclock, hdrift⟩ := roundTripFirst_onward
  have hrun := run_steady Primitives.absent h hclock hdrift 5000 (by decide)
  have hwarm : Runs.Meets (step Primitives.absent)
      (fun s input => s.Steady Primitives.absent 20000000 0 input ∧ s.Attuned Primitives.absent 20000000 input)
      plainAcceptor roundTripFirst := by decide +kernel
  generalize (List.range 5000).map onward = packets at hrun ⊢
  obtain ⟨hmeets, -, -, hlater⟩ := hrun
  constructor
  · rw [Runs.run_append, hlater]
  · exact no_correction_without_drift Primitives.absent plainAcceptor plainAcceptor_started 20000000 0 (by decide)
      (roundTripFirst ++ packets) ((Runs.meets_append _ _ _).mpr ⟨hwarm, hmeets⟩)

/-- A stream that starts before the first round trip of 20 ms is measured: the epoch of 1000 packets
ends with a correction of 39.96 ms, though every packet is on time. -/
theorem correction_without_drift :
    Started Primitives.absent plainAcceptor ∧
      Runs.Meets (step Primitives.absent)
        (fun s input => s.Legal input ∧ s.Steady Primitives.absent 20000000 0 input) plainAcceptor
        (firstRoundTrip ++ (List.range 999).map onward) ∧
      (Runs.run (step Primitives.absent) plainAcceptor
        (firstRoundTrip ++ (List.range 999).map onward)).conn.rx.drift.correctionUs = 39960 := by
  obtain ⟨h, hclock, hdrift⟩ := firstRoundTrip_onward
  rw [Runs.meets_append, Runs.run_append, and_assoc]
  exact ⟨plainAcceptor_started, by decide +kernel, epoch_onward Primitives.absent h hclock hdrift 999 rfl⟩

end Session

end Srtrust
