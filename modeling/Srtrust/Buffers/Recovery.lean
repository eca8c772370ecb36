import Srtrust.Buffers.Parity

/-! # What the FEC receiver rebuilds (`fec.rs`)

Whatever part of a protected stream a receiver observes, in whatever order, it holds only the sender's
packets and parities, and what it rebuilds from them is the sender's again. -/
namespace Srtrust
open BigEndian
set_option autoImplicit false

namespace FecReceiver

/-! ## The receiver's maps -/

section Maps
variable {V : Type} (m : List (SeqNumber × V))

theorem mem_mapInsert {k : SeqNumber} {v : V} {e : SeqNumber × V} (he : e ∈ mapInsert m k v) :
    e = (k, v) ∨ e ∈ m := by
  rcases List.mem_cons.mp he with he | he
  · exact .inl he
  · exact .inr (List.mem_filter.mp he).1

theorem mapGet_filter (keep : SeqNumber → Bool) {k : SeqNumber} (h : keep k = true) :
    mapGet (m.filter fun e => keep e.1) k = mapGet m k := by
  have hsame : (fun e : SeqNumber × V => decide (keep e.1 = true ∧ decide (e.1 = k) = true))
      = fun e => decide (e.1 = k) := by
    funext e
    by_cases he : e.1 = k
    · simp [he, h]
    · simp [he]
  rw [mapGet, List.find?_filter, hsame]
  rfl

theorem mapGet_insert_self (k : SeqNumber) (v : V) : mapGet (mapInsert m k v) k = some v := by
  simp [mapGet, mapInsert]

theorem mapGet_insert_ne {k k' : SeqNumber} (v : V) (h : k' ≠ k) : mapGet (mapInsert m k v) k' = mapGet m k' := by
  have hfilter := mapGet_filter m (fun e => decide (e ≠ k)) (decide_eq_true h)
  rw [← hfilter]
  simp [mapGet, mapInsert, h.symm]

end Maps

/-! ## Soundness -/

/-- All that is held is the sender's. -/
structure Faithful (s : Sending) (f : FecReceiver) : Prop where
  groupSize : f.groupSize = s.groupSize
  payloadSize : f.payloadSize = s.payloadSize
  data : ∀ e ∈ f.data, ∃ i, s.stream[i]? = some e.2 ∧ e.1 = s.isn.add i
  parities : ∀ e ∈ f.parities, ∃ k, s.groupSize * k + s.groupSize ≤ s.stream.length
    ∧ e = (s.isn.add (s.groupSize * k), s.parity k)

/-- The member with position `i` is held. -/
def Holds (s : Sending) (f : FecReceiver) (i : ℕ) : Prop := (mapGet f.data (s.isn.add i)).isSome

/-- The parity of the group `k` is held. -/
def Armed (s : Sending) (f : FecReceiver) (k : ℕ) : Prop := (mapGet f.parities (s.isn.add (s.groupSize * k))).isSome

/-- The parity of the group `k` is held, and all its members but the one with position `j`. -/
structure Ready (s : Sending) (k j : ℕ) (f : FecReceiver) : Prop where
  armed : Armed s f k
  missing : ¬ Holds s f j
  others : ∀ i, s.groupSize * k ≤ i → i < s.groupSize * k + s.groupSize → i ≠ j → Holds s f i

theorem take_drop_succ {l : List FecData} {x : ℕ} {d : FecData} (h : l[x]? = some d) (m : ℕ) :
    (l.drop x).take (m + 1) = d :: (l.drop (x + 1)).take m := by
  obtain ⟨hx, rfl⟩ := List.getElem?_eq_some_iff.mp h
  rw [List.drop_eq_getElem_cons hx, List.take_succ_cons]

/-- Every position of a group is the first or one of the rest. -/
theorem first_or_rest {P : ℕ → Prop} {x m : ℕ} (hx : P x) (hrest : ∀ i, x + 1 ≤ i → i < x + 1 + m → P i) :
    ∀ i, x ≤ i → i < x + (m + 1) → P i := by
  intro i hlo hhi
  rcases Nat.eq_or_lt_of_le hlo with rfl | hlt
  · exact hx
  · exact hrest i hlt (by omega)

namespace Faithful
variable {s : Sending} {f : FecReceiver}

theorem get (h : Faithful s f) {i : ℕ} (hi : i < s.stream.length) {d : FecData}
    (hget : mapGet f.data (s.isn.add i) = some d) : s.stream[i]? = some d := by
  obtain ⟨j, hj, he⟩ := h.data _ (mem_of_mapGet hget)
  have hj' := (List.getElem?_eq_some_iff.mp hj).1
  rw [s.add_inj hi hj' he]
  exact hj

/-- Past the missing member nothing else is missing. -/
theorem survey_rest (h : Faithful s f) {lost : SeqNumber} {missing : Option SeqNumber} {m x : ℕ}
    {present found : List FecData} (hx : x + m ≤ s.stream.length)
    (hs : survey f.data m (s.isn.add x) present (some lost) = some (found, missing)) :
    missing = some lost ∧ found = present ++ (s.stream.drop x).take m
      ∧ ∀ i, x ≤ i → i < x + m → Holds s f i := by
  induction m generalizing x present with
  | zero =>
    simp only [survey, Option.some.injEq, Prod.mk.injEq] at hs
    exact ⟨hs.2.symm, by rw [List.take_zero, List.append_nil, hs.1], fun i hlo hhi => by omega⟩
  | succ m ih =>
    unfold survey at hs
    rw [SeqNumber.next_add] at hs
    split at hs
    · next d hget =>
      obtain ⟨hmissing, hfound, hrest⟩ := ih (by omega) hs
      refine ⟨hmissing, ?_, first_or_rest (by rw [Holds, hget]; rfl) hrest⟩
      rw [hfound, List.append_assoc, take_drop_succ (h.get (by omega) hget)]
      rfl
    · cases hs

/-- A survey with one member missing has all others of the sender's group. -/
theorem survey_one (h : Faithful s f) {lost : SeqNumber} {m x : ℕ} {present found : List FecData}
    (hx : x + m ≤ s.stream.length)
    (hs : survey f.data m (s.isn.add x) present none = some (found, some lost)) :
    ∃ j d held, x ≤ j ∧ j < x + m ∧ lost = s.isn.add j ∧ s.stream[j]? = some d ∧ ¬ Holds s f j
      ∧ (∀ i, x ≤ i → i < x + m → i ≠ j → Holds s f i) ∧ found = present ++ held
      ∧ ((s.stream.drop x).take m).Perm (d :: held) := by
  induction m generalizing x present with
  | zero => simp [survey] at hs
  | succ m ih =>
    have hmember := List.getElem?_eq_getElem (l := s.stream) (i := x) (by omega)
    unfold survey at hs
    rw [SeqNumber.next_add] at hs
    split at hs
    · next d hget =>
      obtain ⟨j, e, held, hlo, hhi, hlost, he, hmissing, hothers, hfound, hperm⟩ := ih (by omega) hs
      refine ⟨j, e, d :: held, by omega, by omega, hlost, he, hmissing, ?_, ?_, ?_⟩
      · exact first_or_rest (fun _ => by rw [Holds, hget]; rfl) hothers
      · rw [hfound, List.append_assoc]
        rfl
      · rw [take_drop_succ (h.get (by omega) hget)]
        exact (hperm.cons d).trans (List.Perm.swap e d held)
    · next hget =>
      obtain ⟨hlost, hfound, hrest⟩ := h.survey_rest (by omega) hs
      refine ⟨x, _, _, le_refl x, by omega, Option.some.inj hlost, hmember, ?_, ?_, hfound, ?_⟩
      · rw [Holds, hget]
        exact Bool.false_ne_true
      · exact first_or_rest (fun hne => absurd rfl hne) fun i hlo hhi _ => hrest i hlo hhi
      · rw [take_drop_succ hmember]

end Faithful

section Survey
variable {s : Sending} {f : FecReceiver}

theorem survey_all {lost : SeqNumber} {m x : ℕ} (present : List FecData)
    (hheld : ∀ i, x ≤ i → i < x + m → Holds s f i) :
    ∃ found, survey f.data m (s.isn.add x) present (some lost) = some (found, some lost) := by
  induction m generalizing x present with
  | zero => exact ⟨present, rfl⟩
  | succ m ih =>
    obtain ⟨d, hget⟩ := Option.isSome_iff_exists.mp (hheld x (le_refl x) (by omega))
    rw [survey, SeqNumber.next_add, hget]
    exact ih (present ++ [d]) fun i hlo hhi => hheld i (by omega) (by omega)

theorem survey_finds {j m x : ℕ} (present : List FecData) (hlo : x ≤ j) (hhi : j < x + m) (hmissing : ¬ Holds s f j)
    (hothers : ∀ i, x ≤ i → i < x + m → i ≠ j → Holds s f i) :
    ∃ found, survey f.data m (s.isn.add x) present none = some (found, some (s.isn.add j)) := by
  induction m generalizing x present with
  | zero => omega
  | succ m ih =>
    rw [survey, SeqNumber.next_add]
    rcases Nat.eq_or_lt_of_le hlo with rfl | hlt
    · have hget : mapGet f.data (s.isn.add x) = none := by simpa [Holds] using hmissing
      rw [hget]
      exact survey_all present fun i hlo' hhi' => hothers i (by omega) (by omega) (by omega)
    · obtain ⟨d, hget⟩ := Option.isSome_iff_exists.mp (hothers x (le_refl x) (by omega) (by omega))
      rw [hget]
      exact ih (present ++ [d]) hlt (by omega) fun i hlo' hhi' => hothers i (by omega) (by omega)

end Survey

theorem tryGroup_rebuilt {f : FecReceiver} {base lost : SeqNumber} {parity : FecParity} {present : List FecData}
    {d : FecData} (hget : mapGet f.parities base = some parity)
    (hsurvey : survey f.data f.groupSize base [] none = some (present, some lost))
    (hrow : recoverRow f.groupSize f.payloadSize parity present = some d) :
    f.tryGroup base = ({ f with parities := f.parities.filter (·.1 ≠ base), data := mapInsert f.data lost d },
      [⟨lost, d.timestamp, d.flags, d.payload⟩]) := by
  simp only [tryGroup, hget, hsurvey, hrow]

theorem tryGroup_idle {f : FecReceiver} {base : SeqNumber} {parity : FecParity}
    (hget : mapGet f.parities base = some parity)
    (hsurvey : ∀ present lost, survey f.data f.groupSize base [] none ≠ some (present, some lost)) :
    f.tryGroup base = (f, []) := by
  simp only [tryGroup, hget]

/-- `try_group` has rebuilt the member with position `j` of the group `k`. -/
structure Rebuilds (s : Sending) (f : FecReceiver) (base : SeqNumber) (k j : ℕ) (d : FecData) : Prop where
  based : base = s.isn.add (s.groupSize * k)
  complete : s.groupSize * k + s.groupSize ≤ s.stream.length
  first : s.groupSize * k ≤ j
  last : j < s.groupSize * k + s.groupSize
  member : s.stream[j]? = some d
  missing : ¬ Holds s f j
  others : ∀ i, s.groupSize * k ≤ i → i < s.groupSize * k + s.groupSize → i ≠ j → Holds s f i
  result : f.tryGroup base = ({ f with
    parities := f.parities.filter (·.1 ≠ base), data := mapInsert f.data (s.isn.add j) d }, [s.rebuilt j d])

/-- `try_group` rebuilds exactly the member that is missing, and does nothing unless it is the only one. -/
theorem Faithful.tryGroup_cases {s : Sending} {f : FecReceiver} (h : Faithful s f) (base : SeqNumber) :
    (f.tryGroup base = (f, []) ∧ ∀ k j, base = s.isn.add (s.groupSize * k) → s.groupSize * k ≤ j →
        j < s.groupSize * k + s.groupSize → ¬ Ready s k j f)
      ∨ ∃ k j d, Rebuilds s f base k j d := by
  cases hget : mapGet f.parities base with
  | none =>
    refine .inl ⟨by rw [tryGroup, hget], fun k j hbase _ _ hready => ?_⟩
    have harmed := hready.armed
    rw [Armed, ← hbase, hget] at harmed
    cases harmed
  | some parity =>
    obtain ⟨k, hcomplete, he⟩ := h.parities _ (mem_of_mapGet hget)
    obtain ⟨hbase, rfl⟩ := Prod.mk.inj he
    by_cases hone : ∃ found lost, survey f.data f.groupSize base [] none = some (found, some lost)
    · obtain ⟨found, lost, hsurvey⟩ := hone
      have hgroup := hsurvey
      rw [hbase, h.groupSize] at hgroup
      obtain ⟨j, d, held, hlo, hhi, rfl, hd, hmissing, hothers, rfl, hperm⟩ := h.survey_one hcomplete hgroup
      have hexact := recoverRow_missing hperm (s.fits d (List.mem_of_getElem? hd))
      have hlength : ((s.stream.drop (s.groupSize * k)).take s.groupSize).length = f.groupSize :=
        (Sending.group_length hcomplete).trans h.groupSize.symm
      rw [hlength, ← h.payloadSize] at hexact
      have hparity : s.parity k = rowParity f.payloadSize ((s.stream.drop (s.groupSize * k)).take s.groupSize) := by
        rw [h.payloadSize]
        rfl
      rw [hparity] at hget
      exact .inr ⟨k, j, d, hbase, hcomplete, hlo, hhi, hd, hmissing, hothers,
        tryGroup_rebuilt hget hsurvey hexact⟩
    · refine .inl ⟨tryGroup_idle hget fun found lost he => hone ⟨found, lost, he⟩, ?_⟩
      intro k' j hbase' hlo hhi hready
      rw [hbase', h.groupSize] at hone
      obtain ⟨found, hfound⟩ := survey_finds [] hlo hhi hready.missing hready.others
      exact hone ⟨found, _, hfound⟩

/-! ### Whole observations -/

theorem tryGroups_succ (n : ℕ) (f : FecReceiver) (base : SeqNumber) :
    tryGroups (n + 1) f base = ((tryGroups n (f.tryGroup base).1 base.prev).1,
      (f.tryGroup base).2 ++ (tryGroups n (f.tryGroup base).1 base.prev).2) := by
  generalize hback : base.prev = before
  conv_lhs => rw [tryGroups, hback]

/-- The packets an observation gives back. -/
def recovered (f : FecReceiver) : Observation → List RecoveredPacket
  | .data seq d => (f.observeData seq d).2
  | .parity fecSeq payload timestampClip => (f.observeParity fecSeq payload timestampClip).2

/-- A receiver and all it has given back. -/
structure Record where
  receiver : FecReceiver
  log : List RecoveredPacket

namespace Record

def fresh (groupSize payloadSize : ℕ) : Record := ⟨FecReceiver.new groupSize payloadSize, []⟩

def step (r : Record) (o : Observation) : Record := ⟨r.receiver.observe o, r.log ++ r.receiver.recovered o⟩

/-- One attempt at a group. -/
def attempt (r : Record) (base : SeqNumber) : Record :=
  ⟨(r.receiver.tryGroup base).1, r.log ++ (r.receiver.tryGroup base).2⟩

/-- The attempts at `n` groups, from `base` backwards. -/
def attempts (n : ℕ) (r : Record) (base : SeqNumber) : Record :=
  ⟨(tryGroups n r.receiver base).1, r.log ++ (tryGroups n r.receiver base).2⟩

def evict (r : Record) (newest : SeqNumber) : Record := ⟨r.receiver.evict newest, r.log⟩

def insertData (r : Record) (seq : SeqNumber) (d : FecData) : Record :=
  ⟨{ r.receiver with data := mapInsert r.receiver.data seq d }, r.log⟩

def insertParity (r : Record) (base : SeqNumber) (parity : FecParity) : Record :=
  ⟨{ r.receiver with parities := mapInsert r.receiver.parities base parity }, r.log⟩

theorem attempt_receiver (r : Record) (base : SeqNumber) :
    (r.attempt base).receiver = (r.receiver.tryGroup base).1 := rfl

theorem attempt_log (r : Record) (base : SeqNumber) :
    (r.attempt base).log = r.log ++ (r.receiver.tryGroup base).2 := rfl

theorem attempts_zero (r : Record) (base : SeqNumber) : attempts 0 r base = r := by
  rw [attempts, tryGroups, List.append_nil]

theorem attempts_succ (n : ℕ) (r : Record) (base : SeqNumber) :
    attempts (n + 1) r base = attempts n (r.attempt base) base.prev := by
  rw [attempts, attempts, attempt_receiver, attempt_log, tryGroups_succ, List.append_assoc]

theorem step_data (r : Record) (seq : SeqNumber) (d : FecData) :
    r.step (.data seq d) = (attempts r.receiver.groupSize (r.insertData seq d) seq).evict seq := rfl

/-- A row parity is stored under the base of its group, which is tried at once. -/
theorem step_parity (r : Record) (fecSeq : SeqNumber) (p : FecParity) :
    r.step (.parity fecSeq (p.encode Fec.rowIndex) p.timestampClip)
      = ((r.insertParity (prevN (r.receiver.groupSize - 1) fecSeq) p).attempt
          (prevN (r.receiver.groupSize - 1) fecSeq)).evict fecSeq := by
  generalize hbase : prevN (r.receiver.groupSize - 1) fecSeq = base
  have hobserve : r.receiver.observeParity fecSeq (p.encode Fec.rowIndex) p.timestampClip
      = (((r.insertParity base p).receiver.tryGroup base).1.evict fecSeq,
          ((r.insertParity base p).receiver.tryGroup base).2) := by
    rw [observeParity, decodeParity_encode]
    dsimp only
    rw [if_neg (not_not_intro rfl), hbase]
    rfl
  rw [step, observe, recovered, hobserve]
  rfl

end Record

/-- The base of a parity's group, counted back from its last member. -/
theorem prevN_add (isn : SeqNumber) (n i : ℕ) : prevN n (isn.add (i + n)) = isn.add i := by
  obtain ⟨x, rfl⟩ : ∃ x, isn = SeqNumber.reduce x := ⟨_, (SeqNumber.reduce_offsetFrom 0 isn).symm⟩
  have hback : x + ((i + n : ℕ) : ℤ) - n = x + i := by
    push_cast
    omega
  rw [SeqNumber.reduce_add, SeqNumber.reduce_add, prevN_reduce, hback]

/-- The receiver holds only the sender's packets and has given back nothing else. -/
structure Sound (s : Sending) (r : Record) : Prop where
  faithful : Faithful s r.receiver
  log : ∀ p ∈ r.log, ∃ i d, s.stream[i]? = some d ∧ p = s.rebuilt i d

namespace Sound
variable {s : Sending} {r : Record}

theorem fresh (s : Sending) : Sound s (Record.fresh s.groupSize s.payloadSize) where
  faithful := ⟨Nat.max_eq_left s.two_le, rfl, fun _ he => absurd he List.not_mem_nil,
    fun _ he => absurd he List.not_mem_nil⟩
  log := fun _ hp => absurd hp List.not_mem_nil

theorem insertData (h : Sound s r) {i : ℕ} {d : FecData} (hd : s.stream[i]? = some d) :
    Sound s (r.insertData (s.isn.add i) d) := by
  refine ⟨⟨h.faithful.groupSize, h.faithful.payloadSize, ?_, h.faithful.parities⟩, h.log⟩
  intro e he
  rcases mem_mapInsert _ he with rfl | he
  · exact ⟨i, hd, rfl⟩
  · exact h.faithful.data e he

theorem insertParity (h : Sound s r) {k : ℕ} (hk : s.groupSize * k + s.groupSize ≤ s.stream.length) :
    Sound s (r.insertParity (s.isn.add (s.groupSize * k)) (s.parity k)) := by
  refine ⟨⟨h.faithful.groupSize, h.faithful.payloadSize, h.faithful.data, ?_⟩, h.log⟩
  intro e he
  rcases mem_mapInsert _ he with rfl | he
  · exact ⟨k, hk, rfl⟩
  · exact h.faithful.parities e he

theorem evict (h : Sound s r) (newest : SeqNumber) : Sound s (r.evict newest) where
  faithful := ⟨h.faithful.groupSize, h.faithful.payloadSize,
    fun e he => h.faithful.data e (List.mem_filter.mp he).1,
    fun e he => h.faithful.parities e (List.mem_filter.mp he).1⟩
  log := h.log

/-- An attempt does nothing, where its group is not ready, or rebuilds one member. -/
theorem attempt_cases (h : Sound s r) (base : SeqNumber) :
    (r.attempt base = r ∧ ∀ k j, base = s.isn.add (s.groupSize * k) → s.groupSize * k ≤ j →
        j < s.groupSize * k + s.groupSize → ¬ Ready s k j r.receiver)
      ∨ ∃ k j d, Rebuilds s r.receiver base k j d ∧ r.attempt base = ⟨{ r.receiver with
          parities := r.receiver.parities.filter (·.1 ≠ base)
          data := mapInsert r.receiver.data (s.isn.add j) d }, r.log ++ [s.rebuilt j d]⟩ := by
  rcases h.faithful.tryGroup_cases base with ⟨hidle, hready⟩ | ⟨k, j, d, hrebuilds⟩
  · refine .inl ⟨?_, hready⟩
    rw [Record.attempt, hidle, List.append_nil]
  · refine .inr ⟨k, j, d, hrebuilds, ?_⟩
    rw [Record.attempt, hrebuilds.result]

theorem attempt (h : Sound s r) (base : SeqNumber) : Sound s (r.attempt base) := by
  rcases h.attempt_cases base with ⟨hsame, -⟩ | ⟨k, j, d, hrebuilds, hresult⟩
  · rw [hsame]
    exact h
  · have hdata := (h.insertData hrebuilds.member).faithful.data
    rw [hresult]
    refine ⟨⟨h.faithful.groupSize, h.faithful.payloadSize, hdata, ?_⟩, ?_⟩
    · intro e he
      exact h.faithful.parities e (List.mem_filter.mp he).1
    · intro p hp
      rcases List.mem_append.mp hp with hp | hp
      · exact h.log p hp
      · exact ⟨j, d, hrebuilds.member, List.mem_singleton.mp hp⟩

theorem attempts (h : Sound s r) (n : ℕ) (base : SeqNumber) : Sound s (Record.attempts n r base) := by
  induction n generalizing r base with
  | zero =>
    rw [Record.attempts_zero]
    exact h
  | succ n ih =>
    rw [Record.attempts_succ]
    exact ih (h.attempt base) base.prev

/-- What an observation of the sender's packets comes to. -/
theorem step_cases (h : Sound s r) {o : Observation} (ho : o ∈ s.sent) :
    (∃ i d, s.stream[i]? = some d ∧ o = .data (s.isn.add i) d
        ∧ r.step o = (Record.attempts s.groupSize (r.insertData (s.isn.add i) d) (s.isn.add i)).evict (s.isn.add i))
      ∨ ∃ k, s.groupSize * k + s.groupSize ≤ s.stream.length
        ∧ (∃ payload timestampClip,
          o = .parity (s.isn.add (s.groupSize * k + (s.groupSize - 1))) payload timestampClip)
        ∧ r.step o = ((r.insertParity (s.isn.add (s.groupSize * k)) (s.parity k)).attempt
            (s.isn.add (s.groupSize * k))).evict (s.isn.add (s.groupSize * k + (s.groupSize - 1))) := by
  rcases Sending.mem_sent ho with ⟨i, d, hd, rfl⟩ | ⟨k, hk, rfl⟩
  · refine .inl ⟨i, d, hd, rfl, ?_⟩
    rw [Record.step_data, h.faithful.groupSize]
  · refine .inr ⟨k, hk, ⟨_, _, rfl⟩, ?_⟩
    rw [Record.step_parity, h.faithful.groupSize, prevN_add]

theorem step (h : Sound s r) {o : Observation} (ho : o ∈ s.sent) : Sound s (r.step o) := by
  rcases h.step_cases ho with ⟨i, d, hd, -, he⟩ | ⟨k, hk, -, he⟩
  · rw [he]
    exact ((h.insertData hd).attempts _ _).evict _
  · rw [he]
    exact ((h.insertParity hk).attempt _).evict _

end Sound

/-- Whatever part of a protected stream is observed, in whatever order and however often: what the
receiver rebuilds are packets of the stream, under their own numbers. -/
theorem recovery_sound (s : Sending) (observations : List Observation) (hsent : ∀ o ∈ observations, o ∈ s.sent) :
    ∀ p ∈ (Runs.run Record.step (Record.fresh s.groupSize s.payloadSize) observations).log,
      ∃ i d, s.stream[i]? = some d ∧ p = s.rebuilt i d := by
  have hguard : Runs.Meets Record.step (fun _ o => o ∈ s.sent) (Record.fresh s.groupSize s.payloadSize)
      observations := Runs.meets_of_mem hsent _
  exact (Runs.invariant (fun _ _ h ho => h.step ho) (Sound.fresh s) hguard).log

/-- Two groups of two, numbered across the wrap. -/
def pairs : Sending where
  isn := SeqNumber.new 0x7FFFFFFF
  groupSize := 2
  payloadSize := 4
  stream := [⟨2, 0, 10, [1, 2]⟩, ⟨1, 1, 20, [3]⟩, ⟨0, 0, 30, []⟩, ⟨4, 1, 40, [4, 5, 6, 7]⟩]
  two_le := le_refl 2
  short := by decide
  fits := by decide

theorem recovery_sound_pairs :
    let observations := [pairs.sent[1], pairs.sent[2], pairs.sent[3], pairs.sent[5]]
    let log := (Runs.run Record.step (Record.fresh 2 4) observations).log
    log = [⟨SeqNumber.new 0x7FFFFFFF, 10, 0, [1, 2]⟩, ⟨SeqNumber.new 2, 40, 1, [4, 5, 6, 7]⟩]
      ∧ ∀ p ∈ log, ∃ i d, pairs.stream[i]? = some d ∧ p = pairs.rebuilt i d :=
  ⟨by decide +kernel, recovery_sound pairs _ (by decide +kernel)⟩

end FecReceiver

end Srtrust
