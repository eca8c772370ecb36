import Srtrust.Fec
import Srtrust.Library.Runs

/-! # The FEC receiver's history (`fec.rs`)

Members and parities are kept for recovery. `evict` measures age from the packet just observed and keeps
all that is ahead of it, so what bounds the history is the order of the stream: packets that are late by
less than the window, and never jump close to half the space ahead. -/
namespace Srtrust
open BigEndian
set_option autoImplicit false

namespace FecReceiver

/-! ## Keys in a span -/

/-- A map with different keys, all of them reductions of integers in `(low, high]`. -/
structure Spans {V : Type} (m : List (SeqNumber × V)) (low high : ℤ) : Prop where
  nodup : (m.map Prod.fst).Nodup
  within : ∀ e ∈ m, ∃ x, low < x ∧ x ≤ high ∧ e.1 = SeqNumber.reduce x

namespace Spans
variable {V : Type} {m : List (SeqNumber × V)} {low high : ℤ}

theorem nil : Spans ([] : List (SeqNumber × V)) low high := ⟨by simp, by simp⟩

theorem filter (h : Spans m low high) (keep : SeqNumber × V → Bool) : Spans (m.filter keep) low high := by
  refine ⟨?_, fun e he => h.within e (List.mem_filter.mp he).1⟩
  exact List.Nodup.sublist (List.Sublist.map Prod.fst List.filter_sublist) h.nodup

theorem insert (h : Spans m low high) {x : ℤ} (hlo : low < x) (hhi : x ≤ high) (v : V) :
    Spans (mapInsert m (SeqNumber.reduce x) v) low high := by
  have hrest := h.filter (·.1 ≠ SeqNumber.reduce x)
  refine ⟨?_, ?_⟩
  · rw [mapInsert, List.map_cons, List.nodup_cons]
    refine ⟨?_, hrest.nodup⟩
    intro hmem
    obtain ⟨e, he, hkey⟩ := List.mem_map.mp hmem
    have hne := (List.mem_filter.mp he).2
    simp [hkey] at hne
  · intro e he
    rcases List.mem_cons.mp he with rfl | he
    · exact ⟨x, hlo, hhi, rfl⟩
    · exact hrest.within e he

theorem mono (h : Spans m low high) {low' high' : ℤ} (hlo : low' ≤ low) (hhi : high ≤ high') :
    Spans m low' high' := by
  refine ⟨h.nodup, fun e he => ?_⟩
  obtain ⟨x, hx, hx', hkey⟩ := h.within e he
  exact ⟨x, by omega, by omega, hkey⟩

/-- What is kept of a span that lies within half the space of its end. -/
theorem evict (h : Spans m low high) {newest : ℤ} (hhi : high ≤ newest) (hspan : newest - low ≤ 0x40000000)
    (window : ℤ) :
    Spans (m.filter fun e => (SeqNumber.reduce newest).offsetFrom e.1 < window) (newest - window) high := by
  refine ⟨(h.filter _).nodup, fun e he => ?_⟩
  obtain ⟨hmem, hage⟩ := List.mem_filter.mp he
  obtain ⟨x, hx, hx', hkey⟩ := h.within e hmem
  rw [hkey, SeqNumber.offsetFrom_reduce newest x (by omega) (by omega), decide_eq_true_iff] at hage
  exact ⟨x, by omega, hx', hkey⟩

theorem length_le (h : Spans m low high) (hle : low ≤ high) : (m.length : ℤ) ≤ high - low := by
  have hsub : (m.map Prod.fst).toFinset ⊆ (Finset.Ioc low high).image SeqNumber.reduce := by
    intro k hk
    obtain ⟨e, he, rfl⟩ := List.mem_map.mp (List.mem_toFinset.mp hk)
    obtain ⟨x, hx, hx', hkey⟩ := h.within e he
    exact Finset.mem_image.mpr ⟨x, Finset.mem_Ioc.mpr ⟨hx, hx'⟩, hkey.symm⟩
  have hcard := (Finset.card_le_card hsub).trans Finset.card_image_le
  rw [List.toFinset_card_of_nodup h.nodup, List.length_map, Int.card_Ioc] at hcard
  omega

end Spans

theorem mem_of_mapGet {V : Type} {m : List (SeqNumber × V)} {k : SeqNumber} {v : V}
    (h : mapGet m k = some v) : (k, v) ∈ m := by
  obtain ⟨e, he, rfl⟩ := Option.map_eq_some_iff.mp h
  have hkey : e.1 = k := by simpa using List.find?_some he
  rw [← hkey]
  exact List.mem_of_find?_eq_some he

/-! ## Recovery -/

/-- The member `survey` misses is one of those it asks for. -/
theorem survey_missing {data : List (SeqNumber × FecData)} (n : ℕ) {x : ℤ} {present found : List FecData}
    {missing : Option SeqNumber} {m : SeqNumber}
    (h : survey data n (SeqNumber.reduce x) present missing = some (found, some m)) :
    missing = some m ∨ ∃ y, x ≤ y ∧ y < x + n ∧ m = SeqNumber.reduce y := by
  induction n generalizing x present missing with
  | zero =>
    simp only [survey, Option.some.injEq, Prod.mk.injEq] at h
    exact .inl h.2
  | succ n ih =>
    unfold survey at h
    rw [SeqNumber.reduce_next] at h
    have hlater : ∀ {y}, x + 1 ≤ y ∧ y < x + 1 + n ∧ m = SeqNumber.reduce y →
        x ≤ y ∧ y < x + (n + 1 : ℕ) ∧ m = SeqNumber.reduce y := by
      rintro y ⟨hlo, hhi, hm⟩
      exact ⟨by omega, by push_cast; omega, hm⟩
    split at h
    · rcases ih h with he | ⟨y, hy⟩
      · exact .inl he
      · exact .inr ⟨y, hlater hy⟩
    · split at h
      · cases h
      · rcases ih h with he | ⟨y, hy⟩
        · refine .inr ⟨x, le_refl x, by push_cast; omega, ?_⟩
          exact (Option.some.inj he).symm
        · exact .inr ⟨y, hlater hy⟩

/-- Members in `(low, high]`, and parities whose groups end there. -/
structure Held (g : ℕ) (f : FecReceiver) (low high : ℤ) : Prop where
  groupSize : f.groupSize = g
  data : Spans f.data low high
  parities : Spans f.parities low (high - (g - 1))

namespace Held
variable {g : ℕ} {f : FecReceiver} {low high : ℤ}

theorem mono (h : Held g f low high) {low' high' : ℤ} (hlo : low' ≤ low) (hhi : high ≤ high') :
    Held g f low' high' :=
  ⟨h.groupSize, h.data.mono hlo hhi, h.parities.mono hlo (by omega)⟩

theorem tryGroup (h : Held g f low high) (base : SeqNumber) : Held g (f.tryGroup base).1 low high := by
  unfold FecReceiver.tryGroup
  cases hget : mapGet f.parities base with
  | none => exact h
  | some parity =>
    obtain ⟨x, hlo, hhi, hbase⟩ := h.parities.within _ (mem_of_mapGet hget)
    dsimp only at hbase ⊢
    split
    · next present missing hsurvey =>
      split
      · exact h
      · rw [hbase] at hsurvey
        rcases survey_missing f.groupSize hsurvey with hnone | ⟨y, hy, hy', rfl⟩
        · cases hnone
        · rw [h.groupSize] at hy'
          exact ⟨h.groupSize, h.data.insert (by omega) (by omega) _, h.parities.filter _⟩
    · exact h

theorem tryGroups (h : Held g f low high) (n : ℕ) (base : SeqNumber) :
    Held g (FecReceiver.tryGroups n f base).1 low high := by
  induction n generalizing f base with
  | zero => exact h
  | succ n ih =>
    have hgroup := h.tryGroup base
    unfold FecReceiver.tryGroups
    generalize f.tryGroup base = tried at hgroup ⊢
    exact ih hgroup base.prev

theorem evict (h : Held g f low high) (newest : SeqNumber) : Held g (f.evict newest) low high :=
  ⟨h.groupSize, h.data.filter _, h.parities.filter _⟩

/-- Measured from the newest number, eviction leaves eight groups. -/
theorem evict_newest (h : Held g f low high) (hspan : high - low ≤ 0x40000000) (hg : 16 * (g : ℤ) < 0x40000000)
    (htwo : 1 ≤ g) : Held g (f.evict (SeqNumber.reduce high)) (high - 8 * g) high := by
  have hwindow : min ((f.groupSize * Fec.rcvHistoryGroups : ℕ) : ℤ) 0x7FFFFFFF = 8 * g := by
    rw [h.groupSize, Fec.rcvHistoryGroups]
    omega
  have hdata := h.data.evict (le_refl high) hspan (8 * g)
  have hparities := h.parities.evict (by omega) hspan (8 * g)
  unfold FecReceiver.evict
  refine ⟨h.groupSize, ?_, ?_⟩
  · simpa only [hwindow] using hdata
  · simpa only [hwindow] using hparities

end Held

theorem prevN_succ (n : ℕ) : prevN (n + 1) = fun seq => prevN n seq.prev := rfl

theorem prevN_reduce (n : ℕ) (x : ℤ) : prevN n (SeqNumber.reduce x) = SeqNumber.reduce (x - n) := by
  induction n generalizing x with
  | zero =>
    rw [Nat.cast_zero, Int.sub_zero]
    rfl
  | succ n ih =>
    have hback : x - 1 - (n : ℤ) = x - (n + 1 : ℕ) := by
      push_cast
      omega
    rw [prevN_succ]
    dsimp only
    rw [SeqNumber.reduce_prev, ih, hback]

/-! ## Observations -/

/-- What the connection shows the receiver. -/
inductive Observation
  | data (seq : SeqNumber) (d : FecData)
  | parity (fecSeq : SeqNumber) (payload : Bytes) (timestampClip : UInt32)

/-- The sequence number of an observation, unless it is a parity that is ignored. -/
def Observation.number : Observation → Option SeqNumber
  | .data seq _ => some seq
  | .parity fecSeq payload timestampClip =>
    match decodeParity payload timestampClip with
    | none => none
    | some (index, _) => if index ≠ Fec.rowIndex then none else some fecSeq

def observe (f : FecReceiver) : Observation → FecReceiver
  | .data seq d => (f.observeData seq d).1
  | .parity fecSeq payload timestampClip => (f.observeParity fecSeq payload timestampClip).1

theorem observe_ignored (f : FecReceiver) {o : Observation} (h : o.number = none) : f.observe o = f := by
  cases o with
  | data seq d => cases h
  | parity fecSeq payload timestampClip =>
    simp only [Observation.number] at h
    simp only [observe, observeParity]
    cases hd : decodeParity payload timestampClip with
    | none => rfl
    | some decoded =>
      rw [hd] at h
      dsimp only at h ⊢
      split_ifs at h with hindex
      rw [if_pos hindex]

/-- An observation adds its own number, perhaps recovers a member, and evicts. -/
theorem Held.observe {g : ℕ} {f : FecReceiver} {low high x : ℤ} (h : Held g f low high) {o : Observation}
    (hnumber : o.number = some (SeqNumber.reduce x)) (hlo : low + g ≤ x) (hhi : x ≤ high) (hg : 1 ≤ g) :
    ∃ f', Held g f' low high ∧ f.observe o = f'.evict (SeqNumber.reduce x) := by
  cases o with
  | data seq d =>
    obtain rfl := Option.some.inj hnumber
    have hinsert : Held g { f with data := mapInsert f.data (SeqNumber.reduce x) d } low high :=
      ⟨h.groupSize, h.data.insert (by omega) hhi d, h.parities⟩
    exact ⟨_, hinsert.tryGroups f.groupSize (SeqNumber.reduce x), rfl⟩
  | parity fecSeq payload timestampClip =>
    simp only [Observation.number] at hnumber
    simp only [FecReceiver.observe, observeParity]
    cases hd : decodeParity payload timestampClip with
    | none =>
      rw [hd] at hnumber
      cases hnumber
    | some decoded =>
      obtain ⟨index, parity⟩ := decoded
      rw [hd] at hnumber
      dsimp only at hnumber ⊢
      split_ifs at hnumber with hindex
      obtain rfl := Option.some.inj hnumber
      rw [if_neg hindex, prevN_reduce]
      have hinsert : Held g { f with
          parities := mapInsert f.parities (SeqNumber.reduce (x - (f.groupSize - 1 : ℕ))) parity } low high := by
        have hsize := h.groupSize
        exact ⟨h.groupSize, h.data, h.parities.insert (by omega) (by omega) parity⟩
      exact ⟨_, hinsert.tryGroup _, rfl⟩

/-! ## Streams of observations -/

/-- A receiver with the newest sequence number it was shown. -/
structure Watched where
  receiver : FecReceiver
  newest : Option SeqNumber

namespace Watched

def fresh (groupSize payloadSize : ℕ) : Watched := ⟨FecReceiver.new groupSize payloadSize, none⟩

/-- The newest number after an observation. -/
def newer : Option SeqNumber → Option SeqNumber → Option SeqNumber
  | newest, none => newest
  | none, some seq => some seq
  | some newest, some seq => if 0 < seq.offsetFrom newest then some seq else some newest

theorem newer_none (newest : Option SeqNumber) : newer newest none = newest := by
  cases newest <;> rfl

theorem newer_some (newest seq : SeqNumber) :
    newer (some newest) (some seq) = if 0 < seq.offsetFrom newest then some seq else some newest := rfl

def step (w : Watched) (o : Observation) : Watched := ⟨w.receiver.observe o, newer w.newest o.number⟩

/-- Less than eight groups late, and not so far ahead that what is held would wrap around. -/
def Orderly (w : Watched) (o : Observation) : Prop :=
  match w.newest, o.number with
  | some newest, some seq =>
    -(8 * w.receiver.groupSize : ℤ) < seq.offsetFrom newest
      ∧ seq.offsetFrom newest < 2 ^ 30 - 16 * w.receiver.groupSize
  | _, _ => True

instance (w : Watched) (o : Observation) : Decidable (w.Orderly o) := by
  unfold Orderly
  split <;> infer_instance

/-- All that is held lies in the sixteen groups that end with the newest number. -/
structure Kept (g : ℕ) (w : Watched) : Prop where
  positive : 1 ≤ g
  groupSize : w.receiver.groupSize = g
  empty : w.newest = none → w.receiver.data = [] ∧ w.receiver.parities = []
  held : ∀ newest, w.newest = some newest →
    ∃ x, newest = SeqNumber.reduce x ∧ Held g w.receiver (x - 16 * g) x

theorem Kept.first {g : ℕ} {w : Watched} (h : w.Kept g) (hnone : w.newest = none) (x : ℤ) :
    Held g w.receiver (x - 16 * g) x := by
  obtain ⟨hdata, hparities⟩ := h.empty hnone
  refine ⟨h.groupSize, ?_, ?_⟩
  · rw [hdata]
    exact .nil
  · rw [hparities]
    exact .nil

theorem Kept.step {g : ℕ} {w : Watched} (h : w.Kept g) {o : Observation} (ho : w.Orderly o) :
    (w.step o).Kept g := by
  have hg := h.positive
  have hsize := h.groupSize
  cases hnumber : o.number with
  | none =>
    have hsame : w.step o = w := by
      unfold Watched.step
      rw [hnumber, observe_ignored w.receiver hnumber, newer_none]
    rw [hsame]
    exact h
  | some seq =>
    -- what the observation has to leave behind
    suffices hheld : ∃ x, newer w.newest o.number = some (SeqNumber.reduce x)
        ∧ Held g (w.receiver.observe o) (x - 16 * g) x by
      obtain ⟨x, hnewest, hheld⟩ := hheld
      refine ⟨hg, hheld.groupSize, fun hnone => ?_, fun newest he => ⟨x, ?_, hheld⟩⟩
      · rw [Watched.step, hnewest] at hnone
        cases hnone
      · rw [Watched.step, hnewest] at he
        exact (Option.some.inj he).symm
    cases hnewest : w.newest with
    | none =>
      have hseq : SeqNumber.reduce (0 + seq.offsetFrom (SeqNumber.reduce 0)) = seq :=
        SeqNumber.reduce_offsetFrom 0 seq
      generalize (0 + seq.offsetFrom (SeqNumber.reduce 0) : ℤ) = x at hseq
      have hnumber' : o.number = some (SeqNumber.reduce x) := by rw [hnumber, hseq]
      obtain ⟨f', hf', he⟩ := (h.first hnewest x).observe hnumber' (by omega) (le_refl x) hg
      refine ⟨x, ?_, ?_⟩
      · rw [hnumber']
        rfl
      · rw [he]
        exact hf'.evict _
    | some newest =>
      obtain ⟨x, rfl, hheld⟩ := h.held newest hnewest
      have hseq := SeqNumber.reduce_offsetFrom x seq
      simp only [Orderly, hnewest, hnumber, hsize] at ho
      obtain ⟨hlate, hahead⟩ := ho
      rw [hnumber, newer_some]
      generalize seq.offsetFrom (SeqNumber.reduce x) = d at hseq hlate hahead ⊢
      have hnumber' : o.number = some (SeqNumber.reduce (x + d)) := by rw [hnumber, hseq]
      by_cases hnew : 0 < d
      · rw [if_pos hnew, ← hseq]
        have hwide : Held g w.receiver (x - 16 * g) (x + d) := hheld.mono (le_refl _) (by omega)
        obtain ⟨f', hf', he⟩ := hwide.observe hnumber' (by omega) (le_refl _) hg
        refine ⟨x + d, rfl, ?_⟩
        rw [he]
        exact (hf'.evict_newest (by omega) (by omega) hg).mono (by omega) (le_refl _)
      · rw [if_neg hnew]
        obtain ⟨f', hf', he⟩ := hheld.observe hnumber' (by omega) (by omega) hg
        refine ⟨x, rfl, ?_⟩
        rw [he]
        exact hf'.evict _

theorem Kept.bounded {g : ℕ} {w : Watched} (h : w.Kept g) :
    w.receiver.data.length ≤ 16 * g ∧ w.receiver.parities.length ≤ 16 * g := by
  have hg := h.positive
  cases hnewest : w.newest with
  | none =>
    obtain ⟨hdata, hparities⟩ := h.empty hnewest
    rw [hdata, hparities]
    exact ⟨Nat.zero_le _, Nat.zero_le _⟩
  | some newest =>
    obtain ⟨x, -, hheld⟩ := h.held newest hnewest
    have hdata := hheld.data.length_le (by omega)
    have hparities := hheld.parities.length_le (by omega)
    omega

/-- Over any stream in which no number is eight groups late or close to half the space ahead, at most
sixteen groups of members and as many parities are held. -/
theorem history_bounded (groupSize payloadSize : ℕ) (observations : List Observation)
    (h : Runs.Meets step Orderly (fresh groupSize payloadSize) observations) (f : FecReceiver)
    (hf : f = (Runs.run step (fresh groupSize payloadSize) observations).receiver) :
    f.data.length ≤ 16 * f.groupSize ∧ f.parities.length ≤ 16 * f.groupSize := by
  have hfresh : (fresh groupSize payloadSize).Kept (max groupSize 2) :=
    ⟨by omega, rfl, fun _ => ⟨rfl, rfl⟩, fun _ he => by cases he⟩
  have hkept : (Runs.run step (fresh groupSize payloadSize) observations).Kept (max groupSize 2) :=
    Runs.invariant (fun _ _ hw ho => hw.step ho) hfresh h
  have hbounded := hkept.bounded
  rw [← hkept.groupSize, ← hf] at hbounded
  exact hbounded

/-- A member with nothing in it. -/
def blank : FecData := ⟨0, 0, 0, []⟩

/-- Across the wrap, with a jump ahead that empties the history. -/
theorem history_bounded_jump :
    let observations : List Observation :=
      [.data (SeqNumber.new 0x7FFFFFFF) blank, .data (SeqNumber.new 1) blank, .data (SeqNumber.new 0) blank,
        .data (SeqNumber.new 100) blank]
    (Runs.run step (fresh 2 4) observations).receiver.data.length = 1
      ∧ (Runs.run step (fresh 2 4) observations).receiver.data.length ≤ 16 * 2 :=
  ⟨by decide +kernel, (history_bounded 2 4 _ (by decide +kernel) _ rfl).1⟩

/-- Falling sequence numbers are all kept: one more than sixteen groups of two. -/
theorem history_unbounded :
    let f := (Runs.run step (fresh 2 4) ((List.range 33).map fun i =>
      .data (SeqNumber.new (100 - UInt32.ofNat i)) blank)).receiver
    f.groupSize = 2 ∧ f.data.length = 33 ∧ ¬ f.data.length ≤ 16 * f.groupSize := by
  decide +kernel

end Watched

end FecReceiver

end Srtrust
