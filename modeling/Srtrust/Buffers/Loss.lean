import Srtrust.Buffers.Recv
import Srtrust.Library.Runs

/-! # Loss reports of a receive buffer

`missing` and `missing_aged` walk the slots with sequence numbers. Here the same walk is done
with positions: the ranges they report are disjoint, ascending, and cover exactly the absent
slots that are far enough below the highest packet received. -/
namespace Srtrust
set_option autoImplicit false

namespace RecvBuffer

/-! ## The walk in positions -/

/-- The walk of `missing` from position `k` on: `run` is where an open run of absent slots
started. -/
def gaps : List (Option DataPacket) → ℕ → Option ℕ → List (ℕ × ℕ)
  | [], _, _ => []
  | none :: rest, k, run => gaps rest (k + 1) (some (run.getD k))
  | some _ :: rest, k, some s => (s, k - 1) :: gaps rest (k + 1) none
  | some _ :: rest, k, none => gaps rest (k + 1) none

/-- A range of positions as a range of sequence numbers. -/
def span (base : SeqNumber) (g : ℕ × ℕ) : SeqNumber × SeqNumber := (base.add g.1, base.add g.2)

theorem missingLoop_eq (base : SeqNumber) (slots : List (Option DataPacket)) (k : ℕ) (run : Option ℕ)
    (hrun : ∀ s ∈ run, s < k) :
    missingLoop slots (base.add k) (run.map base.add) = (gaps slots k run).map (span base) := by
  induction slots generalizing k run with
  | nil => rfl
  | cons slot rest ih =>
    cases slot with
    | none =>
      have hopen : some ((run.map base.add).getD (base.add k)) = (some (run.getD k)).map base.add := by
        cases run <;> rfl
      rw [missingLoop, gaps, SeqNumber.next_add, hopen]
      refine ih (k + 1) _ fun s hs => ?_
      obtain rfl := Option.some.inj hs
      cases run with
      | none => exact Nat.lt_succ_self k
      | some s => exact Nat.lt_succ_of_lt (hrun s rfl)
    | some packet =>
      have hrest := ih (k + 1) none (by simp)
      cases run with
      | none =>
        rw [missingLoop.eq_def, gaps]
        simpa using hrest
      | some s =>
        have hs := hrun s rfl
        have hprev : (base.add k).prev = base.add (k - 1) := by
          have hk : base.add k = (base.add (k - 1)).next := by
            rw [SeqNumber.next_add, Nat.sub_add_cancel (by omega)]
          rw [hk, SeqNumber.prev_next]
        rw [missingLoop.eq_def, gaps]
        simpa [span, hprev] using hrest

/-- What a walk from position `k` reports: ascending ranges, a present slot between any two, that
cover the open run and the absent slots. -/
structure Walk (slots : List (Option DataPacket)) (k : ℕ) (run : Option ℕ) (gs : List (ℕ × ℕ)) : Prop where
  within : ∀ g ∈ gs, run.getD k ≤ g.1 ∧ g.1 ≤ g.2 ∧ g.2 + 1 < k + slots.length
  ascending : gs.Pairwise fun g g' => g.2 + 1 < g'.1
  covers : ∀ p, (∃ g ∈ gs, g.1 ≤ p ∧ p ≤ g.2)
    ↔ (∃ s ∈ run, s ≤ p ∧ p < k) ∨ k ≤ p ∧ slots[p - k]? = some none

theorem getElem?_cons_sub {α : Type} (x : α) (xs : List α) {k p : ℕ} (h : k + 1 ≤ p) :
    (x :: xs)[p - k]? = xs[p - (k + 1)]? := by
  rw [show p - k = p - (k + 1) + 1 by omega, List.getElem?_cons_succ]

theorem Walk.absent {rest : List (Option DataPacket)} {k : ℕ} {run : Option ℕ} {gs : List (ℕ × ℕ)}
    (hrun : ∀ s ∈ run, s < k) (h : Walk rest (k + 1) (some (run.getD k)) gs) :
    Walk (none :: rest) k run gs := by
  refine ⟨fun g hg => ?_, h.ascending, fun p => ?_⟩
  · obtain ⟨h1, h2, h3⟩ := h.within g hg
    rw [Option.getD_some] at h1
    rw [List.length_cons]
    exact ⟨h1, h2, by omega⟩
  · rw [h.covers p]
    simp only [Option.mem_def, Option.some.injEq, exists_eq_left']
    rcases Nat.lt_trichotomy p k with hp | rfl | hp
    · cases run with
      | none => simp; omega
      | some s => simp; omega
    · cases run with
      | none => simp
      | some s =>
        have := hrun s rfl
        simp
        omega
    · have h1 : ¬ p < k + 1 := by omega
      have h2 : ¬ p < k := by omega
      rw [getElem?_cons_sub none rest hp]
      simp [h1, h2, hp.le, Nat.succ_le_of_lt hp]

theorem Walk.present {packet : DataPacket} {rest : List (Option DataPacket)} {k : ℕ} {gs : List (ℕ × ℕ)}
    (h : Walk rest (k + 1) none gs) : Walk (some packet :: rest) k none gs := by
  refine ⟨fun g hg => ?_, h.ascending, fun p => ?_⟩
  · obtain ⟨h1, h2, h3⟩ := h.within g hg
    rw [Option.getD_none] at h1 ⊢
    rw [List.length_cons]
    exact ⟨by omega, h2, by omega⟩
  · rw [h.covers p]
    rcases Nat.lt_trichotomy p k with hp | rfl | hp
    · simp; omega
    · simp
    · rw [getElem?_cons_sub _ rest hp]
      simp
      omega

theorem Walk.close {packet : DataPacket} {rest : List (Option DataPacket)} {k s : ℕ} {gs : List (ℕ × ℕ)}
    (hs : s < k) (h : Walk rest (k + 1) none gs) :
    Walk (some packet :: rest) k (some s) ((s, k - 1) :: gs) := by
  have hrest : Walk (some packet :: rest) k none gs := h.present
  refine ⟨fun g hg => ?_, List.pairwise_cons.mpr ⟨fun g hg => ?_, h.ascending⟩, fun p => ?_⟩
  · rw [Option.getD_some]
    rcases List.mem_cons.mp hg with rfl | hg
    · rw [List.length_cons]
      exact ⟨le_rfl, by dsimp only; omega, by dsimp only; omega⟩
    · obtain ⟨h1, h2, h3⟩ := hrest.within g hg
      rw [Option.getD_none] at h1
      exact ⟨by omega, h2, h3⟩
  · have := (h.within g hg).1
    rw [Option.getD_none] at this
    dsimp only
    omega
  · have hc := hrest.covers p
    simp only [Option.mem_def, Option.some.injEq, exists_eq_left', List.mem_cons, exists_eq_or_imp,
      reduceCtorEq, false_and, exists_false, false_or] at hc ⊢
    have hk : p ≤ k - 1 ↔ p < k := by omega
    rw [hc, hk]

theorem gaps_walk (slots : List (Option DataPacket)) (k : ℕ) (run : Option ℕ) (hrun : ∀ s ∈ run, s < k)
    (hlast : slots.getLast? ≠ some none) (hopen : slots = [] → run = none) :
    Walk slots k run (gaps slots k run) := by
  induction slots generalizing k run with
  | nil =>
    obtain rfl := hopen rfl
    exact ⟨by simp [gaps], by simp [gaps], by simp [gaps]⟩
  | cons slot rest ih =>
    have hrest : rest.getLast? ≠ some none := by
      intro h
      cases rest with
      | nil => simp at h
      | cons y ys => exact hlast (by rwa [List.getLast?_cons_cons])
    cases slot with
    | none =>
      have hne : rest ≠ [] := by
        rintro rfl
        simp at hlast
      refine .absent hrun (ih (k + 1) _ (fun s hs => ?_) hrest fun h => absurd h hne)
      obtain rfl := Option.some.inj hs
      cases run with
      | none => exact Nat.lt_succ_self k
      | some s => exact Nat.lt_succ_of_lt (hrun s rfl)
    | some packet =>
      have hnone := ih (k + 1) none (by simp) hrest fun _ => rfl
      cases run with
      | none => exact hnone.present
      | some s => exact hnone.close (hrun s rfl)

/-! ## Reports of a buffer -/

theorem getLast?_slots (b : RecvBuffer) : b.slots.getLast? ≠ some none := by
  rw [List.getLast?_eq_getElem?]
  exact b.back_present

theorem highestPresent_eq (b : RecvBuffer) :
    b.highestPresent = if b.slots = [] then none else some (b.slots.length - 1) := by
  unfold highestPresent
  by_cases h : b.slots = []
  · simp [h]
  · rw [if_neg h]
    have hlast := b.getLast?_slots
    obtain ⟨xs, x, hx⟩ := List.eq_nil_or_concat b.slots |>.resolve_left h
    rw [hx] at hlast ⊢
    cases x with
    | none => simp at hlast
    | some packet =>
      simp only [List.concat_eq_append, List.reverse_append, List.reverse_singleton, List.singleton_append,
        List.length_append, List.length_singleton, Option.map_eq_some_iff]
      exact ⟨0, by simp [List.findIdx?_cons], by simp⟩

theorem missing_eq (b : RecvBuffer) : b.missing = (gaps b.slots 0 none).map (span b.base) := by
  have hloop := missingLoop_eq b.base b.slots 0 none (by simp)
  rw [SeqNumber.add_zero, Option.map_none] at hloop
  unfold missing
  rw [highestPresent_eq, ← hloop]
  split_ifs with h
  · simp [h, missingLoop]
  · have hpos := List.length_pos_iff.mpr h
    dsimp only
    rw [List.take_of_length_le (by omega)]

/-- The part of a gap at least `t` below position `h`. -/
def aged (t h : ℕ) (g : ℕ × ℕ) : Option (ℕ × ℕ) :=
  if g.1 + t ≤ h then some (g.1, min g.2 (h - t)) else none

/-- The threshold of `missing_aged`, `t` below the highest packet received. -/
theorem threshold_add (highest : SeqNumber) (t : ℕ) :
    (SeqNumber.new (highest.value - UInt32.ofNat t)).add t = highest := by
  apply SeqNumber.ext
  have h := highest.lt
  simp only [SeqNumber.add, SeqNumber.new, UInt32.toNat_sub, SeqNumber.value_toNat, UInt32.toNat_ofNat']
  omega

/-- A position against the threshold, which may lie before the base. -/
theorem greater_threshold_iff {base threshold : SeqNumber} {t h i : ℕ} (ht : threshold.add t = base.add h)
    (hh : h < 0x40000000) (hi : i ≤ h) (htol : t ≤ 32) :
    (base.add i).circularCmp threshold = .greater ↔ h < i + t := by
  rw [SeqNumber.circularCmp_greater_iff]
  by_cases hle : t ≤ h
  · have he : threshold = base.add (h - t) := by
      refine SeqNumber.add_right_cancel (n := t) ?_
      rw [ht, SeqNumber.add_add, Nat.sub_add_cancel hle]
    rw [he, SeqNumber.offsetFrom_add base i (h - t) (by omega) (by omega)]
    omega
  · have he : base = threshold.add (t - h) := by
      refine SeqNumber.add_right_cancel (n := h) ?_
      rw [← ht, SeqNumber.add_add, Nat.sub_add_cancel (by omega)]
    have hoff := SeqNumber.offsetFrom_add threshold (t - h + i) 0 (by omega) (by omega)
    rw [SeqNumber.add_zero] at hoff
    rw [he, SeqNumber.add_add, hoff]
    omega

theorem aged_span {base threshold : SeqNumber} {t h : ℕ} {g : ℕ × ℕ} (ht : threshold.add t = base.add h)
    (hh : h < 0x40000000) (hg : g.1 ≤ g.2) (hgh : g.2 ≤ h) (htol : t ≤ 32) :
    (if (span base g).1.circularCmp threshold = .greater then none
      else some ((span base g).1,
        if (span base g).2.circularCmp threshold = .greater then threshold else (span base g).2))
      = (aged t h g).map (span base) := by
  simp only [span, greater_threshold_iff ht hh (hg.trans hgh) htol, greater_threshold_iff ht hh hgh htol, aged]
  by_cases hlo : g.1 + t ≤ h
  · rw [if_neg (by omega), if_pos hlo, Option.map_some]
    by_cases hhi : h < g.2 + t
    · have he : threshold = base.add (h - t) := by
        refine SeqNumber.add_right_cancel (n := t) ?_
        rw [ht, SeqNumber.add_add, Nat.sub_add_cancel (by omega)]
      rw [if_pos hhi, he, Nat.min_eq_right (by omega)]
      rfl
    · rw [if_neg hhi, Nat.min_eq_left (by omega)]
      rfl
  · rw [if_pos (by omega), if_neg hlo, Option.map_none]

theorem missingAged_eq (b : RecvBuffer) {t : ℕ} (ht : t ≤ 32) :
    b.missingAged t = ((gaps b.slots 0 none).filterMap (aged t (b.slots.length - 1))).map (span b.base) := by
  have hwalk := gaps_walk b.slots 0 none (by simp) b.getLast?_slots fun _ => rfl
  have hspan := b.span_le
  unfold missingAged
  by_cases h0 : t = 0
  · have hall : (gaps b.slots 0 none).filterMap (aged t (b.slots.length - 1)) = gaps b.slots 0 none := by
      rw [List.filterMap_congr (g := some), List.filterMap_some]
      intro g hg
      obtain ⟨-, h1, h2⟩ := hwalk.within g hg
      rw [aged, if_pos (by omega), Nat.min_eq_left (by omega)]
    rw [if_pos h0, missing_eq, hall]
  · rw [if_neg h0, highestPresent_eq, missing_eq]
    by_cases hnil : b.slots = []
    · simp [hnil, gaps]
    · have hpos := List.length_pos_iff.mpr hnil
      rw [if_neg hnil]
      dsimp only
      rw [List.filterMap_map, List.map_filterMap]
      refine List.filterMap_congr fun g hg => ?_
      obtain ⟨-, h1, h2⟩ := hwalk.within g hg
      have hclamp : clampU32 (b.slots.length - 1) = b.slots.length - 1 := by
        rw [clampU32]
        omega
      have hadd := threshold_add (b.base.add (b.slots.length - 1)) t
      rw [hclamp]
      generalize SeqNumber.new ((b.base.add (b.slots.length - 1)).value - UInt32.ofNat t) = threshold at hadd ⊢
      have hlt : b.slots.length - 1 < 0x40000000 := by omega
      have hle : g.2 ≤ b.slots.length - 1 := by omega
      rw [Function.comp_apply]
      exact aged_span hadd hlt h1 hle ht

/-- What a loss report says: disjoint ascending ranges of positions that cover exactly the absent
slots at least `t` below the highest packet received. -/
theorem missingAged_spec (b : RecvBuffer) {t : ℕ} (ht : t ≤ 32) :
    ∃ gs : List (ℕ × ℕ), b.missingAged t = gs.map (span b.base)
      ∧ (∀ g ∈ gs, g.1 ≤ g.2 ∧ g.2 < b.slots.length) ∧ gs.Pairwise (fun g g' => g.2 < g'.1)
      ∧ ∀ p, (∃ g ∈ gs, g.1 ≤ p ∧ p ≤ g.2) ↔ b.slots[p]? = some none ∧ p + t < b.slots.length := by
  have hwalk := gaps_walk b.slots 0 none (by simp) b.getLast?_slots fun _ => rfl
  refine ⟨_, b.missingAged_eq ht, ?_, ?_, ?_⟩
  · intro g hg
    obtain ⟨g', hg', he⟩ := List.mem_filterMap.mp hg
    obtain ⟨-, h1, h2⟩ := hwalk.within g' hg'
    unfold aged at he
    split_ifs at he with hle
    obtain rfl := Option.some.inj he
    dsimp only
    omega
  · refine List.Pairwise.filterMap _ ?_ hwalk.ascending
    intro g g' hlt a ha a' ha'
    unfold aged at ha ha'
    split_ifs at ha ha'
    obtain rfl := Option.some.inj ha
    obtain rfl := Option.some.inj ha'
    dsimp only
    omega
  · intro p
    have hc := hwalk.covers p
    simp only [Option.mem_def, reduceCtorEq, false_and, exists_false, false_or, Nat.zero_le, true_and,
      Nat.sub_zero] at hc
    rw [← hc]
    constructor
    · rintro ⟨a, ha, h1, h2⟩
      obtain ⟨g, hg, he⟩ := List.mem_filterMap.mp ha
      obtain ⟨-, h3, h4⟩ := hwalk.within g hg
      unfold aged at he
      split_ifs at he
      obtain rfl := Option.some.inj he
      dsimp only at h1 h2
      exact ⟨⟨g, hg, h1, by omega⟩, by omega⟩
    · rintro ⟨⟨g, hg, h1, h2⟩, hp⟩
      refine ⟨(g.1, min g.2 (b.slots.length - 1 - t)), List.mem_filterMap.mpr ⟨g, hg, ?_⟩, h1, ?_⟩
      · rw [aged, if_pos (by omega)]
      · dsimp only
        omega

/-- What `missing` says: ascending ranges with a present slot between any two, so that each is as
long as it can be, which cover exactly the absent slots. -/
theorem missing_spec (b : RecvBuffer) :
    ∃ gs : List (ℕ × ℕ), b.missing = gs.map (span b.base)
      ∧ (∀ g ∈ gs, g.1 ≤ g.2 ∧ g.2 + 1 < b.slots.length) ∧ gs.Pairwise (fun g g' => g.2 + 1 < g'.1)
      ∧ ∀ p, (∃ g ∈ gs, g.1 ≤ p ∧ p ≤ g.2) ↔ b.slots[p]? = some none := by
  have hwalk := gaps_walk b.slots 0 none (by simp) b.getLast?_slots fun _ => rfl
  refine ⟨_, b.missing_eq, ?_, hwalk.ascending, ?_⟩
  · intro g hg
    obtain ⟨-, h1, h2⟩ := hwalk.within g hg
    exact ⟨h1, by omega⟩
  · intro p
    simpa using hwalk.covers p

/-! ## Exact queries -/

theorem hasGaps_iff_absent (b : RecvBuffer) : b.hasGaps = true ↔ ∃ p : ℕ, b.slots[p]? = some none := by
  have hall : b.received = b.slots.length ↔ ∀ slot ∈ b.slots, slot.isSome = true := by
    rw [b.received_eq, List.countP_eq_length]
  rw [hasGaps, bne_iff_ne, Ne, hall]
  constructor
  · intro hne
    by_contra hnone
    refine hne fun slot hmem => ?_
    obtain ⟨p, hp⟩ := List.mem_iff_getElem?.mp hmem
    cases slot with
    | none => exact absurd ⟨p, hp⟩ hnone
    | some packet => rfl
  · rintro ⟨p, hp⟩ hpresent
    exact absurd (hpresent none (List.mem_of_getElem? hp)) (by simp)

theorem hasGaps_iff_missing (b : RecvBuffer) : b.hasGaps = true ↔ b.missing ≠ [] := by
  obtain ⟨gs, hmissing, hwithin, -, hcovers⟩ := b.missing_spec
  rw [hasGaps_iff_absent, hmissing, Ne, List.map_eq_nil_iff]
  constructor
  · rintro ⟨p, hp⟩ rfl
    obtain ⟨g, hg, -⟩ := (hcovers p).mpr hp
    exact absurd hg List.not_mem_nil
  · intro hne
    obtain ⟨g, hg⟩ := List.exists_mem_of_ne_nil gs hne
    exact ⟨g.1, (hcovers g.1).mp ⟨g, hg, le_rfl, (hwithin g hg).1⟩⟩

/-- Every slot below the received ACK point is present, and the one at it is absent or past the
highest packet received. -/
theorem contiguous_spec (b : RecvBuffer) :
    (∀ i < b.contiguous, ∃ packet, b.slots[i]? = some (some packet)) ∧
      (b.slots[b.contiguous]? = some none ∨ b.contiguous = b.slots.length) := by
  unfold contiguous
  generalize b.slots = slots
  induction slots with
  | nil => simp
  | cons slot rest ih =>
    cases slot with
    | none => simp
    | some packet =>
      rw [List.takeWhile_cons_of_pos rfl, List.length_cons, List.length_cons, List.getElem?_cons_succ]
      refine ⟨fun i hi => ?_, ih.2.imp_right (congrArg (· + 1))⟩
      cases i with
      | zero => exact ⟨packet, rfl⟩
      | succ i =>
        rw [List.getElem?_cons_succ]
        exact ih.1 i (by omega)

/-! ## Runs -/

/-- The calls that change a buffer. -/
inductive Op
  | insert (packet : DataPacket)
  | pop
  | popInOrder
  | dropRange (first last : SeqNumber)
deriving DecidableEq

/-- The buffer one call leaves behind. -/
def step (b : RecvBuffer) : Op → RecvBuffer
  | .insert packet => (b.insert packet).2
  | .pop => (b.pop.map (·.2)).getD b
  | .popInOrder => (b.popInOrder.map (·.2)).getD b
  | .dropRange first last => b.dropRange first last

/-- After any calls, with any sequence numbers: the packets sit where their sequence numbers say,
storage ends with a present slot, the counter counts, and the queries are exact. -/
theorem queries_exact (initialSeq : SeqNumber) (ops : List Op) :
    let b := Runs.run step (new initialSeq) ops
    (∀ i packet, b.slots[i]? = some (some packet) → packet.seq = b.base.add i) ∧
      (b.slots ≠ [] → ∃ packet, b.slots.getLast? = some (some packet)) ∧
      b.received = b.slots.countP Option.isSome ∧
      (b.hasGaps = true ↔ b.missing ≠ []) ∧
      (∃ gs : List (ℕ × ℕ), b.missing = gs.map (fun g => (b.base.add g.1, b.base.add g.2))
        ∧ (∀ g ∈ gs, g.1 ≤ g.2 ∧ g.2 + 1 < b.slots.length) ∧ gs.Pairwise (fun g g' => g.2 + 1 < g'.1)
        ∧ ∀ p, (∃ g ∈ gs, g.1 ≤ p ∧ p ≤ g.2) ↔ b.slots[p]? = some none) ∧
      (∃ k, b.receivedAckPoint = b.base.add k ∧ (∀ i < k, ∃ packet, b.slots[i]? = some (some packet))
        ∧ (b.slots[k]? = some none ∨ k = b.slots.length)) ∧
      ∀ t ≤ 32, ∃ gs : List (ℕ × ℕ),
        b.missingAged t = gs.map (fun g => (b.base.add g.1, b.base.add g.2))
        ∧ (∀ g ∈ gs, g.1 ≤ g.2 ∧ g.2 < b.slots.length) ∧ gs.Pairwise (fun g g' => g.2 < g'.1)
        ∧ ∀ p, (∃ g ∈ gs, g.1 ≤ p ∧ p ≤ g.2) ↔ b.slots[p]? = some none ∧ p + t < b.slots.length := by
  intro b
  have hlast : b.slots ≠ [] → ∃ packet, b.slots.getLast? = some (some packet) := by
    intro hne
    have hsome := List.getLast?_eq_some_getLast hne
    have hpresent := b.getLast?_slots
    cases hslot : b.slots.getLast hne with
    | none => exact absurd (hsome.trans (congrArg some hslot)) hpresent
    | some packet => exact ⟨packet, hsome.trans (congrArg some hslot)⟩
  exact ⟨b.slot_seq, hlast, b.received_eq, b.hasGaps_iff_missing, b.missing_spec,
    ⟨b.contiguous, b.receivedAckPoint_eq, b.contiguous_spec⟩, fun t ht => b.missingAged_spec ht⟩

end RecvBuffer

end Srtrust
