import Srtrust.Buffers.Recovery

/-! # When the FEC receiver rebuilds (`fec.rs`)

A group observed but for one member, while its history lasts, gives that member back, and once. Recovery is
tried when a parity comes and, for every group it may belong to, when a member comes; so no group is left
ready, with its parity and all members but one. -/
namespace Srtrust
open BigEndian
set_option autoImplicit false

namespace FecReceiver

section Effects
variable {s : Sending} {r : Record}

theorem holds_insertData {i x : ℕ} {d : FecData} (hi : i < s.stream.length) (hx : x < s.stream.length) :
    Holds s (r.insertData (s.isn.add x) d).receiver i ↔ i = x ∨ Holds s r.receiver i := by
  by_cases he : i = x
  · subst he
    have hself : Holds s (r.insertData (s.isn.add i) d).receiver i := by
      rw [Holds, Record.insertData, mapGet_insert_self]
      rfl
    exact ⟨fun _ => .inl rfl, fun _ => hself⟩
  · rw [Holds, Record.insertData, mapGet_insert_ne _ d fun hkey => he (s.add_inj hi hx hkey)]
    exact ⟨.inr, fun h => h.resolve_left he⟩

theorem armed_insertParity {k q : ℕ} {p : FecParity} (hk : s.groupSize * k + s.groupSize ≤ s.stream.length)
    (hq : s.groupSize * q + s.groupSize ≤ s.stream.length) :
    Armed s (r.insertParity (s.isn.add (s.groupSize * q)) p).receiver k ↔ k = q ∨ Armed s r.receiver k := by
  by_cases he : k = q
  · subst he
    have hself : Armed s (r.insertParity (s.isn.add (s.groupSize * k)) p).receiver k := by
      rw [Armed, Record.insertParity, mapGet_insert_self]
      rfl
    exact ⟨fun _ => .inl rfl, fun _ => hself⟩
  · rw [Armed, Record.insertParity, mapGet_insert_ne _ p fun hkey => he (s.base_inj hk hq hkey)]
    exact ⟨.inr, fun h => h.resolve_left he⟩

/-- Less than eight groups behind: kept. -/
theorem young (h : Sound s r) {i x : ℕ} (hi : i < s.stream.length) (hx : x < s.stream.length)
    (hage : x < i + 8 * s.groupSize) :
    (s.isn.add x).offsetFrom (s.isn.add i)
      < min ((r.receiver.groupSize * Fec.rcvHistoryGroups : ℕ) : ℤ) 0x7FFFFFFF := by
  have hshort := s.short
  rw [SeqNumber.offsetFrom_add s.isn x i (by omega) (by omega), h.faithful.groupSize, Fec.rcvHistoryGroups]
  omega

theorem holds_evict (h : Sound s r) {i x : ℕ} (hi : i < s.stream.length) (hx : x < s.stream.length)
    (hage : x < i + 8 * s.groupSize) : Holds s (r.evict (s.isn.add x)).receiver i ↔ Holds s r.receiver i := by
  have hkeep := mapGet_filter r.receiver.data (fun key => decide ((s.isn.add x).offsetFrom key
    < min ((r.receiver.groupSize * Fec.rcvHistoryGroups : ℕ) : ℤ) 0x7FFFFFFF)) (decide_eq_true (young h hi hx hage))
  rw [Holds, Holds, ← hkeep]
  rfl

theorem armed_evict (h : Sound s r) {k x : ℕ} (hk : s.groupSize * k + s.groupSize ≤ s.stream.length)
    (hx : x < s.stream.length) (hage : x < s.groupSize * k + 8 * s.groupSize) :
    Armed s (r.evict (s.isn.add x)).receiver k ↔ Armed s r.receiver k := by
  have htwo := s.two_le
  have hkeep := mapGet_filter r.receiver.parities (fun key => decide ((s.isn.add x).offsetFrom key
    < min ((r.receiver.groupSize * Fec.rcvHistoryGroups : ℕ) : ℤ) 0x7FFFFFFF))
    (decide_eq_true (young h (by omega) hx hage))
  rw [Armed, Armed, ← hkeep]
  rfl

end Effects

/-- What a rebuilt member changes of what is held. -/
structure Restores (s : Sending) (r r' : Record) (k j : ℕ) (d : FecData) : Prop where
  log : r'.log = r.log ++ [s.rebuilt j d]
  holds : ∀ i, i < s.stream.length → (Holds s r'.receiver i ↔ i = j ∨ Holds s r.receiver i)
  armed : ∀ q, s.groupSize * q + s.groupSize ≤ s.stream.length →
    (Armed s r'.receiver q ↔ q ≠ k ∧ Armed s r.receiver q)

theorem Rebuilds.restores {s : Sending} {r : Record} {base : SeqNumber} {k j : ℕ} {d : FecData}
    (h : Rebuilds s r.receiver base k j d) (hresult : r.attempt base = ⟨{ r.receiver with
      parities := r.receiver.parities.filter (·.1 ≠ base)
      data := mapInsert r.receiver.data (s.isn.add j) d }, r.log ++ [s.rebuilt j d]⟩) :
    Restores s r (r.attempt base) k j d := by
  have hlast := h.last
  have hcomplete := h.complete
  rw [hresult]
  refine ⟨rfl, fun i hi => ?_, fun q hq => ?_⟩
  · exact @holds_insertData s r i j d hi (by omega)
  · by_cases he : q = k
    · have hgone : mapGet (r.receiver.parities.filter (·.1 ≠ base)) (s.isn.add (s.groupSize * q)) = none := by
        rw [mapGet, he, ← h.based]
        simp
      rw [Armed, hgone]
      exact ⟨fun hnone => absurd hnone Bool.false_ne_true, fun hne => absurd he hne.1⟩
    · have hne : s.isn.add (s.groupSize * q) ≠ base := by
        rw [h.based]
        exact fun hkey => he (s.base_inj hq h.complete hkey)
      rw [Armed, mapGet_filter _ (fun key => decide (key ≠ base)) (decide_eq_true hne)]
      exact ⟨fun harmed => ⟨he, harmed⟩, fun harmed => harmed.2⟩

/-- A complete group of the stream, and one of its members. -/
structure Sending.Member (s : Sending) (k j : ℕ) : Prop where
  complete : s.groupSize * k + s.groupSize ≤ s.stream.length
  first : s.groupSize * k ≤ j
  last : j < s.groupSize * k + s.groupSize

theorem Sending.Member.lt {s : Sending} {k j : ℕ} (h : s.Member k j) : j < s.stream.length :=
  lt_of_lt_of_le h.last h.complete

/-- The group `k` and its member `j` after the observations `seen`. -/
structure Tracks (s : Sending) (k j : ℕ) (seen : List Observation) (r : Record) : Prop where
  sound : Sound s r
  never : ¬ Holds s r.receiver j → r.log.filter (·.seq = s.isn.add j) = []
  once : Holds s r.receiver j → ∃ d, r.log.filter (·.seq = s.isn.add j) = [s.rebuilt j d]
  others : ∀ i d, s.Member k i → i ≠ j → .data (s.isn.add i) d ∈ seen → Holds s r.receiver i
  parity : ∀ payload timestampClip,
    .parity (s.isn.add (s.groupSize * k + (s.groupSize - 1))) payload timestampClip ∈ seen →
      Armed s r.receiver k ∨ Holds s r.receiver j

namespace Tracks
variable {s : Sending} {k j : ℕ} {seen : List Observation} {r : Record}

theorem fresh (s : Sending) (k j : ℕ) : Tracks s k j [] (Record.fresh s.groupSize s.payloadSize) where
  sound := .fresh s
  never := fun _ => rfl
  once := fun h => absurd h Bool.false_ne_true
  others := fun _ _ _ _ h => absurd h List.not_mem_nil
  parity := fun _ _ h => absurd h List.not_mem_nil

theorem attempt (h : Tracks s k j seen r) (hj : s.Member k j) (base : SeqNumber) :
    Tracks s k j seen (r.attempt base) := by
  rcases h.sound.attempt_cases base with ⟨hsame, -⟩ | ⟨k', j', d, hrebuilds, hresult⟩
  · rw [hsame]
    exact h
  have hrestores := hrebuilds.restores hresult
  have hj' : s.Member k' j' := ⟨hrebuilds.complete, hrebuilds.first, hrebuilds.last⟩
  have hholds := hrestores.holds j hj.lt
  have hlog : ∀ {packets}, r.log.filter (·.seq = s.isn.add j) = packets → j ≠ j' →
      (r.attempt base).log.filter (·.seq = s.isn.add j) = packets := by
    intro packets hpackets hne
    have hother : ¬ (s.rebuilt j' d).seq = s.isn.add j := fun hkey => hne (s.add_inj hj.lt hj'.lt hkey.symm)
    rw [hrestores.log, List.filter_append, hpackets, List.filter_singleton, decide_eq_false hother]
    exact List.append_nil packets
  refine ⟨h.sound.attempt base, fun hnot => ?_, fun hheld => ?_, ?_, ?_⟩
  · rw [hholds, not_or] at hnot
    exact hlog (h.never hnot.2) hnot.1
  · by_cases hne : j = j'
    · subst hne
      refine ⟨d, ?_⟩
      rw [hrestores.log, List.filter_append, h.never hrebuilds.missing, List.filter_singleton,
        decide_eq_true (show (s.rebuilt j d).seq = s.isn.add j from rfl)]
      rfl
    · obtain ⟨d', hd'⟩ := h.once ((hholds.mp hheld).resolve_left hne)
      exact ⟨d', hlog hd' hne⟩
  · intro i e hi hne hseen
    exact (hrestores.holds i hi.lt).mpr (.inr (h.others i e hi hne hseen))
  · intro payload timestampClip hseen
    -- the parity is used up only when all other members are held
    by_cases hk : k = k'
    · subst hk
      refine .inr (hholds.mpr ?_)
      by_cases hne : j = j'
      · exact .inl hne
      · exact .inr (hrebuilds.others j hj.first hj.last hne)
    · rcases h.parity payload timestampClip hseen with harmed | hheld
      · exact .inl ((hrestores.armed k hj.complete).mpr ⟨hk, harmed⟩)
      · exact .inr (hholds.mpr (.inr hheld))

theorem attempts (h : Tracks s k j seen r) (hj : s.Member k j) (n : ℕ) (base : SeqNumber) :
    Tracks s k j seen (Record.attempts n r base) := by
  induction n generalizing r base with
  | zero =>
    rw [Record.attempts_zero]
    exact h
  | succ n ih =>
    rw [Record.attempts_succ]
    exact ih (h.attempt hj base) base.prev

theorem insertData (h : Tracks s k j seen r) (hj : s.Member k j) {x : ℕ} {d : FecData}
    (hd : s.stream[x]? = some d) (hx : x = j → Holds s r.receiver j) :
    Tracks s k j (seen ++ [.data (s.isn.add x) d]) (r.insertData (s.isn.add x) d) := by
  have hlt := (List.getElem?_eq_some_iff.mp hd).1
  have hholds := fun i hi => @holds_insertData s r i x d hi hlt
  have hsame : Holds s (r.insertData (s.isn.add x) d).receiver j ↔ Holds s r.receiver j := by
    rw [hholds j hj.lt]
    exact ⟨fun hor => hor.elim (fun he => hx he.symm) id, .inr⟩
  refine ⟨h.sound.insertData hd, fun hnot => h.never (hsame.not.mp hnot), fun hheld => h.once (hsame.mp hheld),
    ?_, ?_⟩
  · intro i e hi hne hseen
    rw [hholds i hi.lt]
    rcases List.mem_append.mp hseen with hseen | hseen
    · exact .inr (h.others i e hi hne hseen)
    · obtain ⟨hkey, -⟩ := Observation.data.inj (List.mem_singleton.mp hseen)
      exact .inl (s.add_inj hi.lt hlt hkey)
  · intro payload timestampClip hseen
    rcases List.mem_append.mp hseen with hseen | hseen
    · exact (h.parity payload timestampClip hseen).imp id hsame.mpr
    · cases List.mem_singleton.mp hseen

theorem insertParity (h : Tracks s k j seen r) (hj : s.Member k j) {q : ℕ}
    (hq : s.groupSize * q + s.groupSize ≤ s.stream.length) {payload : Bytes} {timestampClip : UInt32} :
    Tracks s k j (seen ++ [.parity (s.isn.add (s.groupSize * q + (s.groupSize - 1))) payload timestampClip])
      (r.insertParity (s.isn.add (s.groupSize * q)) (s.parity q)) := by
  have htwo := s.two_le
  refine ⟨h.sound.insertParity hq, h.never, h.once, ?_, ?_⟩
  · intro i e hi hne hseen
    rcases List.mem_append.mp hseen with hseen | hseen
    · exact h.others i e hi hne hseen
    · cases List.mem_singleton.mp hseen
  · intro payload' timestampClip' hseen
    rcases List.mem_append.mp hseen with hseen | hseen
    · refine (h.parity payload' timestampClip' hseen).imp (fun harmed => ?_) id
      exact (armed_insertParity hj.complete hq).mpr (.inr harmed)
    · obtain ⟨hkey, -⟩ := Observation.parity.inj (List.mem_singleton.mp hseen)
      have hcomplete := hj.complete
      have hlast := s.add_inj (by omega) (by omega) hkey
      refine .inl ((armed_insertParity hj.complete hq).mpr (.inl ?_))
      exact s.group_unique (le_refl _) (by omega) (by omega) (by omega)

theorem evict (h : Tracks s k j seen r) (hj : s.Member k j) {x : ℕ} (hx : x < s.stream.length)
    (hage : x < s.groupSize * k + 8 * s.groupSize) : Tracks s k j seen (r.evict (s.isn.add x)) := by
  have hholds : ∀ i, s.Member k i → (Holds s (r.evict (s.isn.add x)).receiver i ↔ Holds s r.receiver i) := by
    intro i hi
    have hfirst := hi.first
    exact holds_evict h.sound hi.lt hx (by omega)
  refine ⟨h.sound.evict _, fun hnot => h.never ((hholds j hj).not.mp hnot),
    fun hheld => h.once ((hholds j hj).mp hheld), ?_, ?_⟩
  · intro i e hi hne hseen
    exact (hholds i hi).mpr (h.others i e hi hne hseen)
  · intro payload timestampClip hseen
    exact (h.parity payload timestampClip hseen).imp (armed_evict h.sound hj.complete hx hage).mpr (hholds j hj).mpr

end Tracks

/-! ### A ready group does not stay -/

section Settled
variable {s : Sending} {k j : ℕ} {r : Record}

theorem Ready.transport {f f' : FecReceiver} (h : Ready s k j f') (hj : s.Member k j)
    (harmed : Armed s f' k → Armed s f k) (hholds : ∀ i, s.Member k i → (Holds s f' i ↔ Holds s f i)) :
    Ready s k j f where
  armed := harmed h.armed
  missing := (hholds j hj).not.mp h.missing
  others i hlo hhi hne := (hholds i ⟨hj.complete, hlo, hhi⟩).mp (h.others i hlo hhi hne)

/-- An attempt at the group settles it, and attempts at others leave it settled. -/
theorem settled_attempt (h : Sound s r) (hj : s.Member k j) {base : SeqNumber}
    (hor : base = s.isn.add (s.groupSize * k) ∨ ¬ Ready s k j r.receiver) :
    ¬ Ready s k j (r.attempt base).receiver := by
  rcases h.attempt_cases base with ⟨hsame, hidle⟩ | ⟨k', j', d, hrebuilds, hresult⟩
  · rw [hsame]
    exact hor.elim (fun hbase => hidle k j hbase hj.first hj.last) id
  · intro hready
    have hrestores := hrebuilds.restores hresult
    obtain ⟨hk, harmed⟩ := (hrestores.armed k hj.complete).mp hready.armed
    have hsettled := hor.resolve_left fun hbase =>
      hk (s.base_inj hj.complete hrebuilds.complete (hbase.symm.trans hrebuilds.based))
    refine hsettled (hready.transport hj (fun _ => harmed) fun i hi => ?_)
    have hne : i ≠ j' := by
      rintro rfl
      exact hk (s.group_unique hi.first hi.last hrebuilds.first hrebuilds.last)
    rw [hrestores.holds i hi.lt]
    exact ⟨fun hheld => hheld.resolve_left hne, .inr⟩

theorem settled_attempts (h : Sound s r) (hj : s.Member k j) (hsettled : ¬ Ready s k j r.receiver) (n : ℕ)
    (base : SeqNumber) : ¬ Ready s k j (Record.attempts n r base).receiver := by
  induction n generalizing r base with
  | zero =>
    rw [Record.attempts_zero]
    exact hsettled
  | succ n ih =>
    rw [Record.attempts_succ]
    exact ih (h.attempt base) (settled_attempt h hj (.inr hsettled)) base.prev

/-- The attempts that follow a member's arrival include one at its group. -/
theorem settled_visit (h : Sound s r) (hj : s.Member k j) {n x : ℕ} (hlo : s.groupSize * k ≤ x)
    (hhi : x < s.groupSize * k + n) : ¬ Ready s k j (Record.attempts n r (s.isn.add x)).receiver := by
  induction n generalizing r x with
  | zero => omega
  | succ n ih =>
    rw [Record.attempts_succ]
    rcases Nat.eq_or_lt_of_le hlo with rfl | hlt
    · exact settled_attempts (h.attempt _) hj (settled_attempt h hj (.inl rfl)) n _
    · obtain ⟨y, rfl⟩ : ∃ y, x = y + 1 := ⟨x - 1, by omega⟩
      have hback : (s.isn.add (y + 1)).prev = s.isn.add y := by rw [← SeqNumber.next_add, SeqNumber.prev_next]
      rw [hback]
      exact ih (h.attempt _) (by omega) (by omega)

theorem settled_evict (h : Sound s r) (hj : s.Member k j) {x : ℕ} (hx : x < s.stream.length)
    (hage : x < s.groupSize * k + 8 * s.groupSize) (hsettled : ¬ Ready s k j r.receiver) :
    ¬ Ready s k j (r.evict (s.isn.add x)).receiver := by
  refine fun hready => hsettled (hready.transport hj (armed_evict h hj.complete hx hage).mp fun i hi => ?_)
  have hfirst := hi.first
  exact holds_evict h hi.lt hx (by omega)

theorem settled_insertData (hj : s.Member k j) {x : ℕ} {d : FecData} (hx : x < s.stream.length)
    (hout : ¬ s.Member k x) (hsettled : ¬ Ready s k j r.receiver) :
    ¬ Ready s k j (r.insertData (s.isn.add x) d).receiver := by
  refine fun hready => hsettled (hready.transport hj id fun i hi => ?_)
  rw [holds_insertData hi.lt hx]
  exact ⟨fun hheld => hheld.resolve_left fun he => hout (he ▸ hi), .inr⟩

end Settled

/-- The sequence number an observation travels under. -/
def Observation.seq : Observation → SeqNumber
  | .data seq _ => seq
  | .parity fecSeq _ _ => fecSeq

/-- One observation of the sender's packets, less than eight groups ahead of the group. -/
theorem Tracks.step {s : Sending} {k j : ℕ} {seen : List Observation} {r : Record} (h : Tracks s k j seen r)
    (hsettled : ¬ Ready s k j r.receiver) (hj : s.Member k j) {o : Observation} (ho : o ∈ s.sent)
    (hrecent : o.seq.offsetFrom (s.isn.add (s.groupSize * k)) < 8 * s.groupSize)
    (hmissing : ∀ d, o = .data (s.isn.add j) d → Holds s r.receiver j) :
    Tracks s k j (seen ++ [o]) (r.step o) ∧ ¬ Ready s k j (r.step o).receiver := by
  have hcomplete := hj.complete
  have hshort := s.short
  have htwo := s.two_le
  have hage : ∀ x, x < s.stream.length → o.seq = s.isn.add x → x < s.groupSize * k + 8 * s.groupSize := by
    intro x hx hseq
    rw [hseq, SeqNumber.offsetFrom_add s.isn x (s.groupSize * k) (by omega) (by omega)] at hrecent
    omega
  rcases h.sound.step_cases ho with ⟨x, d, hd, rfl, he⟩ | ⟨q, hq, ⟨payload, timestampClip, rfl⟩, he⟩
  · have hx := (List.getElem?_eq_some_iff.mp hd).1
    have hinsert := h.insertData hj hd fun hxj => hmissing d (by rw [hxj])
    rw [he]
    refine ⟨(hinsert.attempts hj _ _).evict hj hx (hage x hx rfl), ?_⟩
    apply settled_evict (hinsert.sound.attempts _ _) hj hx (hage x hx rfl)
    by_cases hin : s.Member k x
    · exact settled_visit hinsert.sound hj hin.first hin.last
    · exact settled_attempts hinsert.sound hj (settled_insertData hj hx hin hsettled) _ _
  · have hx : s.groupSize * q + (s.groupSize - 1) < s.stream.length := by omega
    have hinsert := @Tracks.insertParity s k j seen r h hj q hq payload timestampClip
    rw [he]
    refine ⟨(hinsert.attempt hj _).evict hj hx (hage _ hx rfl), ?_⟩
    apply settled_evict (hinsert.sound.attempt _) hj hx (hage _ hx rfl)
    apply settled_attempt hinsert.sound hj
    by_cases hqk : q = k
    · exact .inl (by rw [hqk])
    · refine .inr fun hready => hsettled (hready.transport hj (fun harmed => ?_) fun _ _ => Iff.rfl)
      exact ((armed_insertParity hj.complete hq).mp harmed).resolve_left (Ne.symm hqk)

/-- What has been given back is held from then on: the record of it stays. -/
theorem Tracks.stays {s : Sending} {k j : ℕ} {seen seen' : List Observation} {r : Record} {o : Observation}
    (h : Tracks s k j seen r) (h' : Tracks s k j seen' (r.step o)) (hheld : Holds s r.receiver j) :
    Holds s (r.step o).receiver j := by
  by_contra hnot
  obtain ⟨d, hd⟩ := h.once hheld
  have hlog := h'.never hnot
  rw [Record.step, List.filter_append, hd] at hlog
  cases hlog

/-- Observations while the member is not observed, or is held. -/
theorem Tracks.run {s : Sending} {k j : ℕ} {seen observations : List Observation} {r : Record}
    (h : Tracks s k j seen r) (hsettled : ¬ Ready s k j r.receiver) (hj : s.Member k j)
    (hsent : ∀ o ∈ observations, o ∈ s.sent)
    (hrecent : ∀ o ∈ observations, o.seq.offsetFrom (s.isn.add (s.groupSize * k)) < 8 * s.groupSize)
    (hmissing : (∀ d, .data (s.isn.add j) d ∉ observations) ∨ Holds s r.receiver j) :
    Tracks s k j (seen ++ observations) (Runs.run Record.step r observations)
      ∧ ¬ Ready s k j (Runs.run Record.step r observations).receiver := by
  induction observations generalizing seen r with
  | nil =>
    rw [List.append_nil]
    exact ⟨h, hsettled⟩
  | cons o observations ih =>
    have hfirst : ∀ d, o = .data (s.isn.add j) d → Holds s r.receiver j := by
      rintro d rfl
      exact hmissing.resolve_left fun hnot => hnot d List.mem_cons_self
    obtain ⟨hstep, hsettled'⟩ := h.step hsettled hj (hsent o List.mem_cons_self)
      (hrecent o List.mem_cons_self) hfirst
    have hrun := ih hstep hsettled' (fun x hx => hsent x (List.mem_cons_of_mem o hx))
      (fun x hx => hrecent x (List.mem_cons_of_mem o hx))
      (hmissing.imp (fun hnot d hd => hnot d (List.mem_cons_of_mem o hd)) (h.stays hstep))
    rw [List.append_assoc] at hrun
    exact hrun

/-- With its parity and all other members observed, the member is held. -/
theorem Tracks.holds {s : Sending} {k j : ℕ} {seen : List Observation} {r : Record} (h : Tracks s k j seen r)
    (hsettled : ¬ Ready s k j r.receiver) (hj : s.Member k j)
    (hparity : ∃ payload timestampClip,
      .parity (s.isn.add (s.groupSize * k + (s.groupSize - 1))) payload timestampClip ∈ seen)
    (hothers : ∀ i, s.Member k i → i ≠ j → ∃ d, .data (s.isn.add i) d ∈ seen) : Holds s r.receiver j := by
  by_contra hnot
  obtain ⟨payload, timestampClip, hseen⟩ := hparity
  refine hsettled ⟨(h.parity payload timestampClip hseen).resolve_right hnot, hnot, fun i hlo hhi hne => ?_⟩
  have hi : s.Member k i := ⟨hj.complete, hlo, hhi⟩
  obtain ⟨d, hd⟩ := hothers i hi hne
  exact h.others i d hi hne hd

/-- The member itself, given back once. -/
theorem Tracks.gives_back {s : Sending} {k j : ℕ} {seen : List Observation} {r : Record} (h : Tracks s k j seen r)
    (hj : s.Member k j) (hheld : Holds s r.receiver j) {d : FecData} (hd : s.stream[j]? = some d) :
    r.log.filter (·.seq = s.isn.add j) = [s.rebuilt j d] := by
  obtain ⟨e, he⟩ := h.once hheld
  have hmem : s.rebuilt j e ∈ r.log.filter (·.seq = s.isn.add j) := by
    rw [he]
    exact List.mem_singleton_self _
  obtain ⟨i, d', hd', hsame⟩ := h.sound.log _ (List.mem_filter.mp hmem).1
  obtain rfl : j = i := s.add_inj hj.lt (List.getElem?_eq_some_iff.mp hd').1 (congrArg RecoveredPacket.seq hsame)
  obtain rfl : d = d' := Option.some.inj (hd.symm.trans hd')
  rw [he, hsame]

/-- When the parity of a group and all its members but one have been observed, in any order and before the
one itself, it has been given back, exactly as it was sent; and however the observations go on within eight
groups, that was the only time. -/
theorem recovery_complete (s : Sending) (k j : ℕ) (hj : s.Member k j) (d : FecData) (hd : s.stream[j]? = some d)
    (before after : List Observation) (hsent : ∀ o ∈ before ++ after, o ∈ s.sent)
    (hrecent : ∀ o ∈ before ++ after, o.seq.offsetFrom (s.isn.add (s.groupSize * k)) < 8 * s.groupSize)
    (hparity : ∃ payload timestampClip,
      .parity (s.isn.add (s.groupSize * k + (s.groupSize - 1))) payload timestampClip ∈ before)
    (hothers : ∀ i, s.Member k i → i ≠ j → ∃ e, .data (s.isn.add i) e ∈ before)
    (hmissing : ∀ e, .data (s.isn.add j) e ∉ before) :
    let start := Record.fresh s.groupSize s.payloadSize
    (Runs.run Record.step start before).log.filter (·.seq = s.isn.add j) = [s.rebuilt j d]
      ∧ (Runs.run Record.step start (before ++ after)).log.filter (·.seq = s.isn.add j) = [s.rebuilt j d] := by
  intro start
  have hsettled : ¬ Ready s k j start.receiver := fun hready => absurd hready.armed Bool.false_ne_true
  obtain ⟨hbefore, hsettled'⟩ := (Tracks.fresh s k j).run hsettled hj
    (fun o ho => hsent o (List.mem_append_left after ho))
    (fun o ho => hrecent o (List.mem_append_left after ho)) (.inl hmissing)
  have hheld := hbefore.holds hsettled' hj hparity hothers
  obtain ⟨hall, hsettled''⟩ := hbefore.run hsettled' hj (fun o ho => hsent o (List.mem_append_right before ho))
    (fun o ho => hrecent o (List.mem_append_right before ho)) (.inr hheld)
  rw [← Runs.run_append] at hall hsettled''
  obtain ⟨payload, timestampClip, hseen⟩ := hparity
  have hkept := hall.holds hsettled'' hj ⟨payload, timestampClip, List.mem_append_left after hseen⟩
    fun i hi hne => (hothers i hi hne).imp fun _ he => List.mem_append_left after he
  exact ⟨hbefore.gives_back hj hheld hd, hall.gives_back hj hkept hd⟩

/-- Again across the wrap: the second member is rebuilt when the first comes, after their parity; later
copies of either give nothing more. -/
theorem recovery_complete_late_first :
    let before := [.parity (SeqNumber.new 0) [0xFF, 1, 0, 3, 2, 2, 0, 0] 30,
      .data (SeqNumber.new 2) ⟨4, 1, 40, [4, 5, 6, 7]⟩, .data (SeqNumber.new 0x7FFFFFFF) ⟨2, 0, 10, [1, 2]⟩]
    let after := [pairs.sent[1], pairs.sent[2], pairs.sent[0]]
    let start := Record.fresh 2 4
    (Runs.run Record.step start before).log.filter (·.seq = SeqNumber.new 0) = [⟨SeqNumber.new 0, 20, 1, [3]⟩]
      ∧ (Runs.run Record.step start (before ++ after)).log.filter (·.seq = SeqNumber.new 0)
        = [⟨SeqNumber.new 0, 20, 1, [3]⟩] :=
  recovery_complete pairs 0 1 ⟨by decide, by decide, by decide⟩ ⟨1, 1, 20, [3]⟩ rfl _ _ (by decide +kernel)
    (by decide +kernel) ⟨_, _, List.mem_cons_self⟩
    (by
      intro i hi hne
      have hlast := hi.last
      obtain rfl : i = 0 := by
        simp only [pairs] at hlast
        omega
      exact ⟨⟨2, 0, 10, [1, 2]⟩, by decide +kernel⟩)
    (by
      intro e he
      simp only [List.mem_cons, List.not_mem_nil, or_false, reduceCtorEq, false_or, Observation.data.injEq] at he
      rcases he with ⟨hseq, -⟩ | ⟨hseq, -⟩
      · exact absurd hseq (by decide +kernel)
      · exact absurd hseq (by decide +kernel))

end FecReceiver

end Srtrust
