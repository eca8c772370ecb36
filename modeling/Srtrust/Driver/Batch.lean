import Srtrust.Library.Iterators
import Srtrust.Library.BigEndian

/-! # Segmentation offload (`batch.rs`)

Outgoing datagrams are grouped into runs of equal length that the kernel sends as one buffer, and a
received buffer is cut back into datagrams. Both are iterators over an index; the lemmas follow the
index, and the last section puts the two together. -/
namespace Srtrust.Driver
open BigEndian Iterators
set_option autoImplicit false

/-- `&xs[start..end]`. -/
def slice {α : Type*} (xs : List α) (start stop : ℕ) : List α := (xs.take stop).drop start

theorem slice_append_drop {α : Type*} (xs : List α) {start stop : ℕ} (h : start ≤ stop) :
    slice xs start stop ++ xs.drop stop = xs.drop start := by
  unfold slice
  by_cases hlen : stop ≤ xs.length
  · conv_rhs => rw [← List.take_append_drop stop xs]
    rw [List.drop_append_of_le_length (by rw [List.length_take]; omega)]
  · rw [List.take_of_length_le (by omega), List.drop_eq_nil_of_le (by omega : xs.length ≤ stop),
      List.append_nil]

/-! ## Grouping for sending -/

/-- The `while` loop of `gso_batches`: one past the last datagram of the run. -/
def runEnd (datagrams : List Bytes) (cap start segLen : ℕ) : ℕ → ℕ → ℕ
  | 0, stop => stop
  | fuel + 1, stop =>
    if stop < datagrams.length ∧ stop - start < cap ∧ (datagrams.getD stop []).length = segLen then
      runEnd datagrams cap start segLen fuel (stop + 1)
    else stop

/-- The closure of `gso_batches`. -/
def gsoNext (datagrams : List Bytes) (cap start : ℕ) : Option (List Bytes × ℕ) :=
  if datagrams.length ≤ start then none
  else
    let segLen := (datagrams.getD start []).length
    let stop := runEnd datagrams cap start segLen datagrams.length (start + 1)
    some (slice datagrams start stop, stop)

def gsoBatches (datagrams : List Bytes) (maxSegments : ℕ) : List (List Bytes) :=
  collect (gsoNext datagrams (max maxSegments 1)) datagrams.length 0

/-- The run that starts at `start` and has reached `stop`: in bounds, no longer than the cap, and of
one length. -/
structure Run (datagrams : List Bytes) (cap start segLen stop : ℕ) : Prop where
  nonempty : start < stop
  inBounds : stop ≤ datagrams.length
  capped : stop - start ≤ cap
  uniform : ∀ i, start ≤ i → i < stop → (datagrams.getD i []).length = segLen

theorem Run.runEnd {datagrams : List Bytes} {cap start segLen stop : ℕ}
    (h : Run datagrams cap start segLen stop) (fuel : ℕ) :
    Run datagrams cap start segLen (runEnd datagrams cap start segLen fuel stop) := by
  induction fuel generalizing stop with
  | zero => exact h
  | succ fuel ih =>
    unfold Driver.runEnd
    by_cases hgrow : stop < datagrams.length ∧ stop - start < cap
        ∧ (datagrams.getD stop []).length = segLen
    · rw [if_pos hgrow]
      have hstart := h.nonempty
      refine ih ⟨by omega, by omega, by omega, ?_⟩
      intro i hi hi'
      by_cases hlast : i = stop
      · rw [hlast]
        exact hgrow.2.2
      · exact h.uniform i hi (by omega)
    · rw [if_neg hgrow]
      exact h

theorem gsoNext_run {datagrams : List Bytes} {cap start : ℕ} (hcap : 0 < cap)
    (hstart : start < datagrams.length) :
    ∃ stop, gsoNext datagrams cap start = some (slice datagrams start stop, stop)
      ∧ Run datagrams cap start (datagrams.getD start []).length stop := by
  have hrun : Run datagrams cap start (datagrams.getD start []).length (start + 1) := by
    refine ⟨by omega, by omega, by omega, ?_⟩
    intro i hi hi'
    rw [show i = start by omega]
  refine ⟨_, ?_, hrun.runEnd datagrams.length⟩
  unfold gsoNext
  rw [if_neg (by omega)]

theorem gsoNext_cases {datagrams : List Bytes} {cap start : ℕ} {batch : List Bytes} {stop : ℕ}
    (hcap : 0 < cap) (h : gsoNext datagrams cap start = some (batch, stop)) :
    batch = slice datagrams start stop
      ∧ Run datagrams cap start (datagrams.getD start []).length stop := by
  by_cases hstart : start < datagrams.length
  · obtain ⟨stop', he, hrun⟩ := gsoNext_run hcap hstart
    rw [h, Option.some.injEq, Prod.mk.injEq] at he
    obtain ⟨rfl, rfl⟩ := he
    exact ⟨rfl, hrun⟩
  · unfold gsoNext at h
    rw [if_pos (by omega)] at h
    cases h

theorem gsoBatches_yields (datagrams : List Bytes) (maxSegments : ℕ) :
    Yields (gsoNext datagrams (max maxSegments 1)) 0 (gsoBatches datagrams maxSegments) := by
  apply yields_collect (fun start => datagrams.length - start)
  · intro start batch stop h
    have hrun := (gsoNext_cases (by omega) h).2
    have hlt := hrun.nonempty
    have hle := hrun.inBounds
    omega
  · omega

/-- A batch: not empty, within the cap, all datagrams of one length. -/
structure Batch (cap : ℕ) (batch : List Bytes) (segLen : ℕ) : Prop where
  nonempty : batch ≠ []
  capped : batch.length ≤ cap
  uniform : ∀ d ∈ batch, d.length = segLen

theorem Run.batch {datagrams : List Bytes} {cap start segLen stop : ℕ}
    (h : Run datagrams cap start segLen stop) : Batch cap (slice datagrams start stop) segLen := by
  have hlength : (slice datagrams start stop).length = stop - start := by
    unfold slice
    rw [List.length_drop, List.length_take, Nat.min_eq_left h.inBounds]
  have hlt := h.nonempty
  refine ⟨?_, by rw [hlength]; exact h.capped, ?_⟩
  · intro hnil
    rw [hnil, List.length_nil] at hlength
    omega
  · intro d hd
    obtain ⟨i, hi, rfl⟩ := List.getElem_of_mem hd
    rw [hlength] at hi
    have hbound := h.inBounds
    rw [← h.uniform (start + i) (by omega) (by omega),
      List.getD_eq_getElem _ _ (by omega : start + i < datagrams.length)]
    simp only [slice, List.getElem_drop, List.getElem_take]

/-- The batches, one after the other, are the datagrams. -/
theorem gso_yields_flatten {datagrams : List Bytes} {cap start : ℕ} (hcap : 0 < cap)
    {batches : List (List Bytes)} (h : Yields (gsoNext datagrams cap) start batches) :
    batches.flatten = datagrams.drop start := by
  induction h with
  | @done start hnone =>
    by_cases hstart : start < datagrams.length
    · obtain ⟨stop, hsome, -⟩ := gsoNext_run hcap hstart
      rw [hnone] at hsome
      cases hsome
    · rw [List.drop_eq_nil_of_le (by omega), List.flatten_nil]
  | turn hsome _ ih =>
    obtain ⟨rfl, hrun⟩ := gsoNext_cases hcap hsome
    rw [List.flatten_cons, ih, slice_append_drop _ (Nat.le_of_lt hrun.nonempty)]

theorem gso_yields_batch {datagrams : List Bytes} {cap start : ℕ} (hcap : 0 < cap)
    {batches : List (List Bytes)} (h : Yields (gsoNext datagrams cap) start batches) :
    ∀ batch ∈ batches, ∃ segLen, Batch cap batch segLen := by
  induction h with
  | done => simp
  | turn hsome _ ih =>
    obtain ⟨rfl, hrun⟩ := gsoNext_cases hcap hsome
    intro batch hmem
    rcases List.mem_cons.mp hmem with rfl | hmem
    · exact ⟨_, hrun.batch⟩
    · exact ih batch hmem

/-! ## Splitting what was received -/

/-- The closure of `gro_split`. -/
def groNext (buf : Bytes) (total step start : ℕ) : Option (Bytes × ℕ) :=
  if total ≤ start then none
  else
    let stop := min (start + step) total
    some (slice buf start stop, stop)

/-- The step `gro_split` advances by. -/
def groStep (total stride : ℕ) : ℕ := if stride = 0 ∨ total < stride then total else stride

def groSplit (buf : Bytes) (total stride : ℕ) : List Bytes :=
  let total := min total buf.length
  collect (groNext buf total (groStep total stride)) total 0

theorem groSplit_yields (buf : Bytes) (total stride : ℕ) :
    Yields (groNext buf (min total buf.length) (groStep (min total buf.length) stride)) 0
      (groSplit buf total stride) := by
  unfold groSplit
  generalize min total buf.length = valid
  apply yields_collect (fun start => valid - start)
  · intro start segment stop h
    unfold groNext at h
    by_cases hend : valid ≤ start
    · rw [if_pos hend] at h
      cases h
    · rw [if_neg hend, Option.some.injEq, Prod.mk.injEq] at h
      have hstop := h.2
      -- a zero stride is replaced by the whole buffer, which is not empty here
      have hstep : 0 < groStep valid stride := by
        unfold groStep
        split_ifs <;> omega
      omega
  · omega

theorem gro_yields_flatten {buf : Bytes} {total step start : ℕ} {segments : List Bytes}
    (h : Yields (groNext buf total step) start segments) :
    segments.flatten = (buf.take total).drop start := by
  induction h with
  | @done start hnone =>
    have hend : total ≤ start := by
      by_contra hlt
      unfold groNext at hnone
      rw [if_neg hlt] at hnone
      cases hnone
    rw [List.drop_eq_nil_of_le (by rw [List.length_take]; omega), List.flatten_nil]
  | @turn start stop segment segments hsome _ ih =>
    unfold groNext at hsome
    by_cases hend : total ≤ start
    · rw [if_pos hend] at hsome
      cases hsome
    · rw [if_neg hend, Option.some.injEq, Prod.mk.injEq] at hsome
      obtain ⟨rfl, rfl⟩ := hsome
      have hslice : slice buf start (min (start + step) total)
          = slice (buf.take total) start (min (start + step) total) := by
        unfold slice
        rw [List.take_take, Nat.min_eq_left (Nat.min_le_right _ _)]
      rw [List.flatten_cons, ih, hslice, slice_append_drop _ (by omega)]

theorem groSplit_flatten (buf : Bytes) (total stride : ℕ) :
    (groSplit buf total stride).flatten = buf.take (min total buf.length) := by
  rw [gro_yields_flatten (groSplit_yields buf total stride), List.drop_zero]

/-! ## Back again -/

/-- Cutting behind `sent` bytes, with the datagrams' own length as the step, gives the datagrams. -/
theorem gro_yields_datagrams {segLen : ℕ} (hpos : 0 < segLen) (batch : List Bytes)
    (huniform : ∀ d ∈ batch, d.length = segLen) (sent : Bytes) :
    Yields (groNext (sent ++ batch.flatten) (sent ++ batch.flatten).length segLen) sent.length batch := by
  induction batch generalizing sent with
  | nil =>
    apply Yields.done
    unfold groNext
    rw [if_pos (by simp)]
  | cons d batch ih =>
    have hd : d.length = segLen := huniform d List.mem_cons_self
    have hrest := ih (fun d' hd' => huniform d' (List.mem_cons_of_mem _ hd')) (sent ++ d)
    have hassoc : sent ++ d ++ batch.flatten = sent ++ (d :: batch).flatten := by
      rw [List.flatten_cons, List.append_assoc]
    rw [hassoc] at hrest
    refine .turn ?_ hrest
    have hlength : (sent ++ (d :: batch).flatten).length
        = sent.length + segLen + batch.flatten.length := by
      rw [List.flatten_cons, List.length_append, List.length_append, hd]
      omega
    unfold groNext
    rw [if_neg (by omega), Nat.min_eq_left (by omega)]
    have hslice : slice (sent ++ (d :: batch).flatten) sent.length (sent.length + segLen) = d := by
      unfold slice
      rw [← hassoc, List.take_left' (by rw [List.length_append, hd]), List.drop_left]
    simp only [hslice, List.length_append, hd]

theorem groSplit_batch {cap segLen : ℕ} {batch : List Bytes} (h : Batch cap batch segLen)
    (hpos : 0 < segLen) : groSplit batch.flatten batch.flatten.length segLen = batch := by
  have hlength : batch.flatten.length = batch.length * segLen := by
    rw [List.length_flatten, List.sum_eq_card_nsmul _ segLen (by
      intro n hn
      obtain ⟨d, hd, rfl⟩ := List.mem_map.mp hn
      exact h.uniform d hd), List.length_map, smul_eq_mul]
  have hcount : 0 < batch.length := List.length_pos_iff.mpr h.nonempty
  have hone : segLen ≤ batch.length * segLen := Nat.le_mul_of_pos_left segLen hcount
  have hstep : groStep batch.flatten.length segLen = segLen := by
    unfold groStep
    rw [if_neg (by omega)]
  unfold groSplit
  simp only [Nat.min_self, hstep]
  have hyields := gro_yields_datagrams hpos batch h.uniform []
  rw [List.nil_append] at hyields
  apply hyields.collect
  rw [hlength]
  exact Nat.le_mul_of_pos_right _ hpos

theorem gsoBatches_flatten (datagrams : List Bytes) (maxSegments : ℕ) :
    (gsoBatches datagrams maxSegments).flatten = datagrams := by
  rw [gso_yields_flatten (by omega) (gsoBatches_yields datagrams maxSegments), List.drop_zero]

theorem gsoBatches_batch {datagrams : List Bytes} (hne : ∀ d ∈ datagrams, d ≠ []) {maxSegments : ℕ}
    {batch : List Bytes} (hmem : batch ∈ gsoBatches datagrams maxSegments) :
    ∃ segLen, 0 < segLen ∧ Batch (max maxSegments 1) batch segLen := by
  obtain ⟨segLen, hbatch⟩ :=
    gso_yields_batch (by omega) (gsoBatches_yields datagrams maxSegments) batch hmem
  refine ⟨segLen, ?_, hbatch⟩
  obtain ⟨d, hd⟩ := List.exists_mem_of_ne_nil batch hbatch.nonempty
  have hsent : d ∈ datagrams := by
    rw [← gsoBatches_flatten datagrams maxSegments]
    exact List.mem_flatten.mpr ⟨batch, hmem, hd⟩
  rw [← hbatch.uniform d hd]
  exact List.length_pos_iff.mpr (hne d hsent)

/-- Batching and splitting are inverse, and both iterations end. -/
theorem batches_split_back (datagrams : List Bytes) (hne : ∀ d ∈ datagrams, d ≠ [])
    (maxSegments : ℕ) :
    Yields (gsoNext datagrams (max maxSegments 1)) 0 (gsoBatches datagrams maxSegments)
    ∧ (gsoBatches datagrams maxSegments).flatten = datagrams
    ∧ (∀ batch ∈ gsoBatches datagrams maxSegments,
      batch ≠ [] ∧ batch.length ≤ max maxSegments 1
        ∧ ∃ segLen, (∀ d ∈ batch, d.length = segLen)
          ∧ groSplit batch.flatten batch.flatten.length segLen = batch)
    ∧ ∀ (buf : Bytes) (total stride : ℕ),
      Yields (groNext buf (min total buf.length) (groStep (min total buf.length) stride)) 0
          (groSplit buf total stride)
        ∧ (groSplit buf total stride).flatten = buf.take (min total buf.length) := by
  refine ⟨gsoBatches_yields datagrams maxSegments, gsoBatches_flatten datagrams maxSegments, ?_,
    fun buf total stride => ⟨groSplit_yields buf total stride, groSplit_flatten buf total stride⟩⟩
  intro batch hmem
  obtain ⟨segLen, hpos, hbatch⟩ := gsoBatches_batch hne hmem
  exact ⟨hbatch.nonempty, hbatch.capped, segLen, hbatch.uniform, groSplit_batch hbatch hpos⟩

/-- Two runs and a cap inside the first. -/
theorem batches_split_back_runs :
    gsoBatches [[1, 2], [3, 4], [5, 6], [7]] 2 = [[[1, 2], [3, 4]], [[5, 6]], [[7]]]
    ∧ (gsoBatches [[1, 2], [3, 4], [5, 6], [7]] 2).flatten = [[1, 2], [3, 4], [5, 6], [7]] :=
  ⟨by decide, (batches_split_back [[1, 2], [3, 4], [5, 6], [7]] (by decide) 2).2.1⟩

/-! ## One transmission per batch -/

/-- What `flush_sends` hands to the socket. -/
inductive Transmit
  /-- `poll_send`. -/
  | one (datagram : Bytes)
  /-- `poll_send_gso`. -/
  | gso (buf : Bytes) (segmentSize : ℕ)
deriving DecidableEq, Repr

/-- One batch of `flush_sends`: a single datagram goes out as it is. -/
def transmitBatch (batch : List Bytes) : Transmit :=
  match batch with
  | [single] => .one single
  | _ => .gso batch.flatten (batch.headD []).length

/-- `flush_sends`, on a socket that takes `max` segments in one call. -/
def flushSends (sends : List Bytes) (maxSegments : ℕ) : List Transmit :=
  if maxSegments ≤ 1 then sends.map .one else (gsoBatches sends maxSegments).map transmitBatch

/-- A transmission that arrives in one receive, split by its segment size. -/
def Transmit.split : Transmit → List Bytes
  | .one datagram => groSplit datagram datagram.length datagram.length
  | .gso buf segmentSize => groSplit buf buf.length segmentSize

theorem split_one {datagram : Bytes} (hne : datagram ≠ []) : (Transmit.one datagram).split = [datagram] := by
  have hbatch : Batch 1 [datagram] datagram.length := ⟨by simp, by simp, by simp⟩
  have h := groSplit_batch hbatch (List.length_pos_iff.mpr hne)
  rw [List.flatten_cons, List.flatten_nil, List.append_nil] at h
  exact h

theorem split_transmitBatch {cap segLen : ℕ} {batch : List Bytes} (h : Batch cap batch segLen)
    (hpos : 0 < segLen) : (transmitBatch batch).split = batch := by
  have hgso : (Transmit.gso batch.flatten (batch.headD []).length).split = batch := by
    cases hb : batch with
    | nil => exact absurd hb h.nonempty
    | cons d rest =>
      rw [hb] at h
      rw [Transmit.split, List.headD_cons, h.uniform d List.mem_cons_self]
      exact groSplit_batch h hpos
  unfold transmitBatch
  split
  · next single =>
    apply split_one
    intro hnil
    have hlen := h.uniform single List.mem_cons_self
    rw [hnil, List.length_nil] at hlen
    omega
  · exact hgso

/-- Whatever the socket's limit, a receiver that splits what arrives has the datagrams sent. -/
theorem flushSends_split (sends : List Bytes) (hne : ∀ d ∈ sends, d ≠ []) (maxSegments : ℕ) :
    (flushSends sends maxSegments).flatMap Transmit.split = sends := by
  unfold flushSends
  by_cases hmax : maxSegments ≤ 1
  · rw [if_pos hmax, List.flatMap_map]
    induction sends with
    | nil => rfl
    | cons d sends ih =>
      rw [List.flatMap_cons, split_one (hne d List.mem_cons_self),
        ih fun d' hd' => hne d' (List.mem_cons_of_mem _ hd'), List.singleton_append]
  · have hsplit : (gsoBatches sends maxSegments).map (fun batch => (transmitBatch batch).split)
        = gsoBatches sends maxSegments := by
      conv_rhs => rw [← List.map_id (gsoBatches sends maxSegments)]
      refine List.map_congr_left fun batch hmem => ?_
      obtain ⟨segLen, hpos, hbatch⟩ := gsoBatches_batch hne hmem
      exact split_transmitBatch hbatch hpos
    rw [if_neg hmax, List.flatMap_map, List.flatMap_def, hsplit, gsoBatches_flatten]

end Srtrust.Driver
