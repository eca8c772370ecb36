import Srtrust.Wire.Seq

/-! # Packet timestamps (`timestamp.rs`) and the clock

Wire timestamps are 32-bit microsecond counts that wrap every 71.6 minutes and are
compared circularly; `TsbpdWrap` unwraps a stream of them. The embedder's clock is an
integer count of nanoseconds, a duration a natural number of them. -/
namespace Srtrust
set_option autoImplicit false

/-- `std::time::Instant`: nanoseconds on the embedder's monotonic clock. -/
abbrev Instant := ℤ

/-- `std::time::Duration`, in nanoseconds. -/
abbrev Duration := ℕ

namespace Duration

def fromMicros (n : ℕ) : Duration := n * 1000
def fromMillis (n : ℕ) : Duration := n * 1000000
def fromSecs (n : ℕ) : Duration := n * 1000000000
def asMicros (d : Duration) : ℕ := d / 1000
def asMillis (d : Duration) : ℕ := d / 1000000

def asSecs (d : Duration) : ℕ := d / 1000000000

end Duration

namespace Instant

/-- `saturating_duration_since`: zero when `earlier` is later. -/
def saturatingDurationSince (t earlier : Instant) : Duration := Int.toNat (t - earlier)

theorem add_saturatingDurationSince {t now : Instant} (h : now ≤ t) :
    now + ((t.saturatingDurationSince now : Duration) : ℤ) = t := by
  rw [saturatingDurationSince, Int.toNat_of_nonneg (Int.sub_nonneg_of_le h)]
  exact add_sub_cancel now t

/-- The earliest representable instant: a signed 64-bit count of seconds. -/
def origin : Instant := -9223372036854775808 * 1000000000

/-- `checked_sub`: fails below the earliest representable instant. -/
def checkedSub (t : Instant) (d : Duration) : Option Instant :=
  if origin ≤ t - (d : ℤ) then some (t - (d : ℤ)) else none

end Instant

/-- `Timestamp(u32)`. -/
structure Timestamp where
  asMicros : UInt32
deriving DecidableEq, Repr

namespace Timestamp

/-- Signed circular difference in microseconds, at least `-2^31` and less than `2^31`. -/
def wrappingDiff (t other : Timestamp) : ℤ :=
  let diff := (t.asMicros.toNat + 0x100000000 - other.asMicros.toNat) % 0x100000000
  if diff < 0x80000000 then (diff : ℤ) else (diff : ℤ) - 0x100000000

end Timestamp

/-- Unwraps the 32-bit timestamp stream: microseconds of completed wrap periods and the
circularly newest timestamp seen. -/
structure TsbpdWrap where
  base : ℕ
  last : Timestamp
deriving DecidableEq, Repr

namespace TsbpdWrap

def new (first : Timestamp) : TsbpdWrap := ⟨0, first⟩

def observe (w : TsbpdWrap) (ts : Timestamp) : TsbpdWrap :=
  if ts.wrappingDiff w.last > 0 then
    -- circularly newer but numerically smaller: the stream crossed the numeric wrap
    { base := if ts.asMicros.toNat < w.last.asMicros.toNat then w.base + 0x100000000 else w.base
      last := ts }
  else w

def offsetOf (w : TsbpdWrap) (ts : Timestamp) : ℤ :=
  (w.base : ℤ) + (w.last.asMicros.toNat : ℤ) + ts.wrappingDiff w.last

/-! ## Positions on the unwrapped stream -/

/-- Where the newest timestamp lies on the unwrapped stream. -/
def position (w : TsbpdWrap) : ℤ := w.base + w.last.asMicros.toNat

/-- The completed periods are whole ones. -/
def Whole (w : TsbpdWrap) : Prop := w.base % 0x100000000 = 0

theorem wrappingDiff_self (t : Timestamp) : t.wrappingDiff t = 0 := by
  unfold Timestamp.wrappingDiff
  simp

/-- The difference of two timestamps that are the residues of close integers. -/
theorem wrappingDiff_eq {t other : Timestamp} {x y : ℤ} (ht : (t.asMicros.toNat : ℤ) = x % 0x100000000)
    (ho : (other.asMicros.toNat : ℤ) = y % 0x100000000) (hlo : -0x80000000 ≤ x - y)
    (hhi : x - y < 0x80000000) : t.wrappingDiff other = x - y := by
  unfold Timestamp.wrappingDiff
  dsimp only
  split_ifs <;> omega

theorem offsetOf_eq (w : TsbpdWrap) (ts : Timestamp) :
    w.offsetOf ts = w.position + ts.wrappingDiff w.last := rfl

/-- The newest timestamp moves forward only. -/
theorem position_observe (w : TsbpdWrap) (ts : Timestamp) :
    (w.observe ts).position = w.position + max 0 (ts.wrappingDiff w.last) := by
  have hts := ts.asMicros.toNat_lt
  have hlast := w.last.asMicros.toNat_lt
  unfold observe
  by_cases hnew : ts.wrappingDiff w.last > 0
  · rw [if_pos hnew, max_eq_right hnew.le]
    unfold position Timestamp.wrappingDiff at *
    dsimp only at *
    split_ifs at * <;> push_cast <;> omega
  · rw [if_neg hnew, max_eq_left (not_lt.mp hnew), add_zero]

theorem Whole.observe {w : TsbpdWrap} (h : w.Whole) (ts : Timestamp) : (w.observe ts).Whole := by
  unfold Whole at h
  unfold TsbpdWrap.observe Whole
  split
  · dsimp only
    split
    · omega
    · exact h
  · exact h

/-- Observing a timestamp does not move its own place. -/
theorem offsetOf_observe (w : TsbpdWrap) (ts : Timestamp) : (w.observe ts).offsetOf ts = w.offsetOf ts := by
  by_cases hnew : ts.wrappingDiff w.last > 0
  · have hlast : (w.observe ts).last = ts := by rw [observe, if_pos hnew]
    rw [offsetOf_eq, offsetOf_eq, position_observe, hlast, wrappingDiff_self, max_eq_right hnew.le, add_zero]
  · rw [observe, if_neg hnew]

/-- A timestamp less than half a period from the newest is put in its place. -/
theorem Whole.offsetOf {w : TsbpdWrap} (h : w.Whole) {ts : Timestamp} {x : ℤ}
    (hts : (ts.asMicros.toNat : ℤ) = x % 0x100000000) (hlo : -0x80000000 ≤ x - w.position)
    (hhi : x - w.position < 0x80000000) : w.offsetOf ts = x := by
  have hlast : (w.last.asMicros.toNat : ℤ) = w.position % 0x100000000 := by
    have hlt := w.last.asMicros.toNat_lt
    unfold Whole at h
    unfold position
    omega
  rw [offsetOf_eq, wrappingDiff_eq hts hlast hlo hhi]
  omega

/-! ## Runs of the tracker -/

/-- The timestamp of a time in microseconds: its residue. -/
def stamp (time : ℕ) : Timestamp := ⟨UInt32.ofNat time⟩

theorem stamp_micros (time : ℕ) : (stamp time).asMicros.toNat = time % 0x100000000 := by
  rw [stamp, UInt32.toNat_ofNat']

/-- The greatest of `first` and `times`. -/
def newest (first : ℕ) (times : List ℕ) : ℕ := times.foldl max first

/-- Each time lies less than `2^31` from the greatest before it, `greatest` at the start. -/
def Close : ℕ → List ℕ → Prop
  | _, [] => True
  | greatest, time :: rest => |(time : ℤ) - greatest| < 0x80000000 ∧ Close (max greatest time) rest

instance : (greatest : ℕ) → (times : List ℕ) → Decidable (Close greatest times)
  | _, [] => inferInstanceAs (Decidable True)
  | greatest, time :: rest =>
    have : Decidable (Close (max greatest time) rest) := instDecidableClose (max greatest time) rest
    inferInstanceAs (Decidable (_ ∧ Close (max greatest time) rest))

theorem newest_lt {bound first : ℕ} {times : List ℕ} (h : ∀ time ∈ first :: times, time < bound) :
    newest first times < bound := by
  induction times generalizing first with
  | nil => exact h first (List.mem_singleton_self first)
  | cons time rest ih =>
    refine ih fun t ht => ?_
    rcases List.mem_cons.mp ht with rfl | ht
    · exact max_lt (h first (by simp)) (h time (by simp))
    · exact h t (by simp [ht])

/-- The tracker started at `first` after observing the timestamps of `times` in order. -/
def track (first : ℕ) (times : List ℕ) : TsbpdWrap := (times.map stamp).foldl observe (new (stamp first))

/-- The tracker has followed the stream to `greatest`, counting from the period of `first`. -/
structure Tracks (first greatest : ℕ) (w : TsbpdWrap) : Prop where
  whole : w.Whole
  position : w.position = (greatest : ℤ) - first + (first % 0x100000000 : ℕ)

variable {first greatest : ℕ} {w : TsbpdWrap}

theorem tracks_new (first : ℕ) : Tracks first first (new (stamp first)) := by
  refine ⟨rfl, ?_⟩
  simp [new, position, stamp_micros]

/-- A time less than half a period from the greatest is put in its place. -/
theorem Tracks.offsetOf (h : Tracks first greatest w) {time : ℕ} (hlo : -0x80000000 ≤ (time : ℤ) - greatest)
    (hhi : (time : ℤ) - greatest < 0x80000000) :
    w.offsetOf (stamp time) = (time : ℤ) - first + (first % 0x100000000 : ℕ) := by
  refine h.whole.offsetOf ?_ ?_ ?_
  · rw [stamp_micros]
    omega
  · rw [h.position]
    omega
  · rw [h.position]
    omega

theorem Tracks.observe (h : Tracks first greatest w) {time : ℕ} (hclose : |(time : ℤ) - greatest| < 0x80000000) :
    Tracks first (max greatest time) (w.observe (stamp time)) := by
  rw [abs_lt] at hclose
  have hplace := h.offsetOf (by omega) hclose.2
  rw [offsetOf_eq, h.position] at hplace
  refine ⟨h.whole.observe _, ?_⟩
  rw [position_observe, h.position]
  push_cast
  omega

theorem Tracks.foldl (h : Tracks first greatest w) {times : List ℕ} (hclose : Close greatest times) :
    Tracks first (newest greatest times) ((times.map stamp).foldl TsbpdWrap.observe w) := by
  induction times generalizing greatest w with
  | nil => exact h
  | cons time rest ih => exact ih (h.observe hclose.1) hclose.2

/-- Timestamps are unwrapped exactly: over any number of wraps, and with stragglers, the offset of a time
less than half a period from the greatest seen is its distance from the first, and the tracker's
sums stay within 63 bits. -/
theorem offsetOf_track (first : ℕ) (times : List ℕ) (hbound : ∀ time ∈ first :: times, time < 2 ^ 62)
    (hclose : Close first times) (time : ℕ) (hnear : |(time : ℤ) - newest first times| ≤ 2 ^ 31 - 1) :
    (track first times).offsetOf (stamp time) - (new (stamp first)).offsetOf (stamp first)
        = (time : ℤ) - first ∧
      0 ≤ (track first times).position ∧ (track first times).position < 2 ^ 63 := by
  have htracks : Tracks first (newest first times) (track first times) := (tracks_new first).foldl hclose
  rw [abs_le] at hnear
  refine ⟨?_, ?_, ?_⟩
  · rw [htracks.offsetOf (by omega) (by omega), (tracks_new first).offsetOf (by omega) (by omega)]
    omega
  · have hbase : (0 : ℤ) ≤ (track first times).base := Int.natCast_nonneg _
    rw [position]
    omega
  · have hgreatest := newest_lt hbound
    rw [htracks.position]
    omega

/-- Two wraps, with a straggler from before the first. -/
theorem offsetOf_track_two_wraps :
    (track 4294960000 [4294970000, 4294965000, 6000000000, 8000000000, 8589940000]).offsetOf
          (stamp 8589930000) - (new (stamp 4294960000)).offsetOf (stamp 4294960000)
        = ((8589930000 : ℕ) : ℤ) - (4294960000 : ℕ) ∧
      0 ≤ (track 4294960000 [4294970000, 4294965000, 6000000000, 8000000000, 8589940000]).position ∧
      (track 4294960000 [4294970000, 4294965000, 6000000000, 8000000000, 8589940000]).position < 2 ^ 63 :=
  offsetOf_track 4294960000 [4294970000, 4294965000, 6000000000, 8000000000, 8589940000] (by decide)
    (by decide) 8589930000 (by decide)

end TsbpdWrap

end Srtrust
