import Srtrust.Session.Teardown

/-! # Pacing through idleness

With a bandwidth limit, `send` queues its fragments and `pace` releases one for each slot that has
come, the slots one period apart. A slot in the future stays when the queue runs empty, so it can
lie far in the past at the next `send`, and every period since then is a slot that has come. Where
the slot is no older than one period, a point in time has room for one packet. -/
namespace Srtrust
open BigEndian
set_option autoImplicit false

def Trace.isOrigination : Trace → Bool
  | .originated _ => true
  | _ => false

namespace Connection

/-- The data packets released so far. -/
def releases (c : Connection) : ℕ := c.trace.countP Trace.isOrigination

/-- The send period of a paced connection. -/
def sndPeriod (c : Connection) : Option Duration := c.tx.liveCc.map (·.sndPeriod)

/-- The packets that a slot no older than one period leaves room for at time `t`. -/
def room (t : Instant) (c : Connection) : ℕ := if c.tx.nextSend.any (t < ·) then 0 else 1

/-- The slot, if there is one, is less than a period old. -/
def Recent (period : Duration) (t : Instant) (c : Connection) : Prop :=
  ∀ slot ∈ c.tx.nextSend, t < slot + (period : ℤ)

/-- Packets are released, out of the room there is. -/
structure Spends (t : Instant) (c c' : Connection) : Prop where
  grows : c.releases ≤ c'.releases
  covered : c'.releases + c'.room t ≤ c.releases + c.room t

/-! ## One packet -/

theorem sendData_tx (P : Primitives) (c : Connection) (fragment : Fragment) (now : Instant) :
    (c.sendData P fragment now).tx.nextSend = c.tx.nextSend ∧
      (c.sendData P fragment now).sndPeriod = c.sndPeriod := by
  rcases sendData_cases P c fragment now with h | ⟨stored, calls, h⟩
  · rw [h]
    exact ⟨rfl, rfl⟩
  · refine ⟨by rw [h.tx]; rfl, ?_⟩
    rw [sndPeriod, h.tx]
    simp only [sentTx, Option.map_map]
    rfl

theorem sealPacket_releases {P : Primitives} {c : Connection} {packet stored : DataPacket}
    {calls : List Trace} (h : c.sealPacket P packet = some (stored, calls)) :
    calls.countP Trace.isOrigination = 0 := by
  rcases (sealPacket_spec h).2 with ⟨-, -, hcalls⟩ | ⟨crypto, keys, -, -, hcalls⟩ <;> rw [hcalls] <;> rfl

theorem Originates.releases {P : Primitives} {fragment : Fragment} {now : Instant} {stored : DataPacket}
    {calls : List Trace} {c c' : Connection} (h : Originates P fragment now stored calls c c') :
    c'.releases = c.releases + 1 := by
  rw [Connection.releases, h.trace, List.countP_append, List.countP_append, sealPacket_releases h.sealed]
  rfl

theorem LinkStep.releases {c c' : Connection} (h : LinkStep c c') : c'.releases = c.releases := by
  obtain ⟨ts, ht, hts⟩ := h.trace
  have hnone : ts.countP Trace.isOrigination = 0 := by
    rw [List.countP_eq_zero]
    intro t hm
    rw [hts t hm]
    simp [Trace.isOrigination]
  rw [Connection.releases, ht, List.countP_append, hnone]
  rfl

theorem sendData_releases (P : Primitives) (c : Connection) (fragment : Fragment) (now : Instant) :
    c.releases ≤ (c.sendData P fragment now).releases ∧
      (c.sendData P fragment now).releases ≤ c.releases + 1 := by
  rcases sendData_cases P c fragment now with h | ⟨stored, calls, h⟩
  · have hsame : c.panicked.releases = c.releases := (LinkStep.panicked c).releases
    rw [h, hsame]
    omega
  · rw [h.releases]
    omega

/-! ## The release loop -/

/-- The release loop keeps the period. -/
theorem pace_sndPeriod (P : Primitives) (c : Connection) (now : Instant) :
    (c.pace P now).sndPeriod = c.sndPeriod := by
  unfold pace
  cases c.tx.liveCc with
  | none => rfl
  | some cc =>
    dsimp only
    rw [sndPeriod, (schedulePacing_linkStep _ now).tx]
    refine release_rule (Q := fun d => d.sndPeriod = c.sndPeriod) P _ now (fun d t h => h) ?_ rfl
    intro d fragment rest h _
    exact (sendData_tx P (d.setQueue rest) fragment now).2.trans h

theorem releaseOne_nextSend (P : Primitives) (c : Connection) (fragment : Fragment) (rest : List Fragment)
    (period : Duration) (now : Instant) :
    (c.releaseOne P fragment rest period now).tx.nextSend
      = some (c.tx.nextSend.getD now + (period : ℤ)) := by
  have h := (sendData_tx P (c.setQueue rest) fragment now).1
  unfold releaseOne
  dsimp only
  rw [h]
  rfl

/-- The slot after a released packet is in the future, if the one before was recent. -/
theorem Recent.next {period : Duration} {t : Instant} {c : Connection} (hp : 0 < period)
    (h : c.Recent period t) : t < c.tx.nextSend.getD t + (period : ℤ) := by
  cases hs : c.tx.nextSend with
  | none =>
    have hpos : (0 : ℤ) < (period : ℤ) := Int.natCast_pos.mpr hp
    simpa using hpos
  | some slot => exact h slot hs

theorem paceLoop_recent (P : Primitives) {period : Duration} (hp : 0 < period) {now : Instant} (budget : ℕ)
    {c : Connection} (h : c.Recent period now) :
    ∃ d, paceLoop P period now (budget + 2) c = (d, false) ∧ d.Recent period now ∧ Spends now c d := by
  unfold paceLoop
  split
  · exact ⟨c, rfl, h, le_rfl, le_rfl⟩
  · next hdue =>
    have hroom : c.room now = 1 := if_neg hdue
    split
    · refine ⟨c.setNextSend none, rfl, by simp [Recent, setNextSend], le_rfl, ?_⟩
      rw [hroom]
      exact le_rfl
    · next fragment rest hq =>
      have hnext := releaseOne_nextSend P c fragment rest period now
      have hcount : c.releases ≤ (c.releaseOne P fragment rest period now).releases ∧
          (c.releaseOne P fragment rest period now).releases ≤ c.releases + 1 :=
        sendData_releases P (c.setQueue rest) fragment now
      generalize c.releaseOne P fragment rest period now = d at hnext hcount
      have hfuture := h.next hp
      have hblocked : d.tx.nextSend.any (now < ·) := by
        rw [hnext]
        simpa using hfuture
      refine ⟨d, ?_, ?_, hcount.1, ?_⟩
      · rw [paceLoop, if_pos hblocked]
      · intro slot hslot
        obtain rfl := Option.some.inj (hnext.symm.trans hslot)
        exact lt_of_lt_of_le hfuture (le_add_of_nonneg_right (Int.natCast_nonneg _))
      · rw [hroom, room, if_pos hblocked]
        exact hcount.2

/-- With a recent slot, what `pace` releases comes out of the room there is. -/
theorem pace_recent (P : Primitives) {period : Duration} (hp : 0 < period) {now : Instant}
    {c : Connection} (hperiod : c.sndPeriod = some period) (h : c.Recent period now) :
    (c.pace P now).Recent period now ∧ Spends now c (c.pace P now) := by
  obtain ⟨cc, hcc, hcp⟩ := Option.map_eq_some_iff.mp hperiod
  obtain ⟨d, hd, hrecent, hspends⟩ := paceLoop_recent P hp 254 h
  have hrelease : c.release P period now = d := by
    unfold release
    rw [show maxPaceBurst = 254 + 2 from rfl, hd]
    exact if_neg (by simp)
  have hlink := schedulePacing_linkStep d now
  unfold pace
  rw [hcc]
  dsimp only
  rw [hcp, hrelease]
  generalize d.schedulePacing now = d' at hlink
  refine ⟨by rw [Recent, hlink.tx]; exact hrecent, by rw [hlink.releases]; exact hspends.grows, ?_⟩
  rw [hlink.releases, room, hlink.tx]
  exact hspends.covered

end Connection

/-! ## Calls that release -/

/-- The calls that put data on the wire for the first time. -/
def Call.Paces : Call → Prop
  | .send _ => True
  | .handleTimer .sndPacing => True
  | _ => False

namespace Connection

variable {P : Primitives} {c : Connection} {call : Call} {now : Instant}

/-- A call that paces is `pace`, on a connection whose schedule is the same, or nothing. -/
theorem perform_paces (hcall : call.Paces) (hpaced : c.sndPeriod.isSome) :
    c.perform P call now = c ∨ ∃ d : Connection, c.perform P call now = d.pace P now ∧ d.sndPeriod = c.sndPeriod ∧
      d.tx.nextSend = c.tx.nextSend ∧ d.releases = c.releases := by
  have hlive : c.tx.liveCc.isNone = false := by
    rw [sndPeriod, Option.isSome_map] at hpaced
    simpa using hpaced
  cases call with
  | send payload =>
    rcases perform_send_cases P c payload now with h | ⟨-, -, h⟩
    · exact .inl h
    · refine .inr ⟨c.countMessage.enqueue (c.fragmentMessage payload c.tx.nextMessage), ?_, rfl, rfl, rfl⟩
      rw [h, submit, hlive]
      rfl
  | handleTimer id =>
    cases id with
    | sndPacing => exact .inr ⟨c, rfl, rfl, rfl, rfl⟩
    | _ => exact absurd hcall (by simp [Call.Paces])
  | _ => exact absurd hcall (by simp [Call.Paces])

theorem perform_sndPeriod (hcall : call.Paces) (hpaced : c.sndPeriod.isSome) :
    (c.perform P call now).sndPeriod = c.sndPeriod := by
  rcases perform_paces (P := P) hcall hpaced with h | ⟨d, h, hperiod, -⟩
  · rw [h]
  · rw [h, pace_sndPeriod, hperiod]

theorem perform_recent {period : Duration} (hp : 0 < period) (hcall : call.Paces)
    (hperiod : c.sndPeriod = some period) (h : c.Recent period now) :
    (c.perform P call now).Recent period now ∧ Spends now c (c.perform P call now) := by
  rcases perform_paces (P := P) hcall (by rw [hperiod]; rfl) with he | ⟨d, he, hdp, hnext, hcount⟩
  · rw [he]
    exact ⟨h, le_rfl, le_rfl⟩
  · have hrecent : d.Recent period now := by
      rw [Recent, hnext]
      exact h
    have hroom : d.room now = c.room now := by rw [room, room, hnext]
    obtain ⟨hkept, hspends⟩ := pace_recent P hp (hdp.trans hperiod) hrecent
    rw [he]
    refine ⟨hkept, hcount ▸ hspends.grows, ?_⟩
    rw [← hcount, ← hroom]
    exact hspends.covered

end Connection

/-! ## Runs -/

namespace Session

variable {P : Primitives}

/-- The packets that the calls made at time `t` release together. -/
def releasedAt (P : Primitives) (t : Instant) : Session → List (Call × Instant) → ℕ
  | _, [] => 0
  | s, input :: inputs =>
    (if input.2 = t then (step P s input).conn.releases - s.conn.releases else 0)
      + releasedAt P t (step P s input) inputs

theorem releasedAt_append (t : Instant) (s : Session) (xs ys : List (Call × Instant)) :
    releasedAt P t s (xs ++ ys) = releasedAt P t s xs + releasedAt P t (Runs.run (step P) s xs) ys := by
  induction xs generalizing s with
  | nil => simp [releasedAt]
  | cons x xs ih => rw [List.cons_append, releasedAt, releasedAt, ih, Runs.run_cons, Nat.add_assoc]

theorem releasedAt_absent {t : Instant} {inputs : List (Call × Instant)}
    (h : ∀ input ∈ inputs, input.2 ≠ t) (s : Session) : releasedAt P t s inputs = 0 := by
  induction inputs generalizing s with
  | nil => rfl
  | cons input inputs ih =>
    rw [releasedAt, if_neg (h input List.mem_cons_self), ih fun x hx => h x (List.mem_cons_of_mem _ hx)]

theorem run_sndPeriod {period : Duration} {inputs : List (Call × Instant)}
    (hcalls : ∀ input ∈ inputs, input.1.Paces) {s : Session} (h : s.conn.sndPeriod = some period) :
    (Runs.run (step P) s inputs).conn.sndPeriod = some period := by
  induction inputs generalizing s with
  | nil => exact h
  | cons input inputs ih =>
    have hhead := hcalls input List.mem_cons_self
    refine ih (fun x hx => hcalls x (List.mem_cons_of_mem _ hx)) ?_
    exact (Connection.perform_sndPeriod hhead (by rw [h]; rfl)).trans h

/-- From a recent slot on, the calls at one time release what there is room for. -/
theorem releasedAt_le_room {period : Duration} (hp : 0 < period) {t : Instant}
    {inputs : List (Call × Instant)} (hcalls : ∀ input ∈ inputs, input.1.Paces)
    (hge : ∀ input ∈ inputs, t ≤ input.2) (horder : inputs.Pairwise fun x y => x.2 ≤ y.2) {s : Session}
    (hperiod : s.conn.sndPeriod = some period) (hrecent : s.conn.Recent period t) :
    releasedAt P t s inputs ≤ s.conn.room t := by
  induction inputs generalizing s with
  | nil => exact Nat.zero_le _
  | cons input inputs ih =>
    have hhead := hcalls input List.mem_cons_self
    by_cases hnow : input.2 = t
    · subst hnow
      obtain ⟨hkept, hgrows, hcovered⟩ := Connection.perform_recent (P := P) hp hhead hperiod hrecent
      have hrest : releasedAt P input.2 (step P s input) inputs
          ≤ (s.conn.perform P input.1 input.2).room input.2 :=
        ih (fun x hx => hcalls x (List.mem_cons_of_mem _ hx)) (fun x hx => hge x (List.mem_cons_of_mem _ hx))
          horder.of_cons ((Connection.perform_sndPeriod hhead (by rw [hperiod]; rfl)).trans hperiod) hkept
      have hcount : (step P s input).conn.releases = (s.conn.perform P input.1 input.2).releases := rfl
      rw [releasedAt, if_pos rfl, hcount]
      omega
    · have hlater : t < input.2 := lt_of_le_of_ne (hge input List.mem_cons_self) (Ne.symm hnow)
      have habsent : ∀ x ∈ inputs, x.2 ≠ t := fun x hx =>
        (lt_of_lt_of_le hlater ((List.pairwise_cons.mp horder).1 x hx)).ne'
      rw [releasedAt, if_neg hnow, releasedAt_absent habsent]
      exact Nat.zero_le _

/-- After an idle period, the calls at the time of a `send` release one packet at most, however
many fragments are queued, provided that the slot in force is not older than one period. -/
theorem no_burst_after_idling (P : Primitives) (s : Session) {period : Duration} (hp : 0 < period)
    (hperiod : s.conn.sndPeriod = some period) (before after : List (Call × Instant)) (payload : Bytes)
    (t : Instant) (hcalls : ∀ input ∈ before ++ (.send payload, t) :: after, input.1.Paces)
    (horder : (before ++ (.send payload, t) :: after).Pairwise fun x y => x.2 ≤ y.2)
    (hidle : ∀ t', releasedAt P t' s before ≠ 0 → t' ≤ t - (period : ℤ))
    (hslot : (Runs.run (step P) s before).conn.Recent period t) :
    releasedAt P t s (before ++ (.send payload, t) :: after) ≤ 1 := by
  have hpos : (0 : ℤ) < (period : ℤ) := Int.natCast_pos.mpr hp
  have hbefore : releasedAt P t s before = 0 := by
    by_contra hne
    exact absurd (hidle t hne) (not_le.mpr (sub_lt_self t hpos))
  obtain ⟨-, hafter, -⟩ := List.pairwise_append.mp horder
  have hge : ∀ input ∈ (Call.send payload, t) :: after, t ≤ input.2 := by
    intro input hm
    rcases List.mem_cons.mp hm with rfl | hm
    · exact le_rfl
    · exact (List.pairwise_cons.mp hafter).1 input hm
  have hrun := run_sndPeriod (P := P) (fun x hx => hcalls x (List.mem_append_left _ hx)) hperiod
  have hroom := releasedAt_le_room (P := P) hp (fun x hx => hcalls x (List.mem_append_right _ hx)) hge hafter
    hrun hslot
  rw [releasedAt_append, hbefore, Nat.zero_add]
  refine hroom.trans ?_
  unfold Connection.room
  split <;> omega

end Session

/-! ## Slots that come while nothing is queued -/

/-- The period is positive up to 44 MB/s: every packet counts with its headers. -/
theorem LiveCc.computePeriod_pos {maxBw : ℕ} (avgPayload : Float) (hpos : 0 < maxBw)
    (hle : maxBw ≤ 44000000) : 0 < LiveCc.computePeriod maxBw avgPayload := by
  have hbytes : maxBw ≤ RttEstimator.saturatingMul (avgPayload.round.toUInt64.toNat + 44) 1000000 := by
    unfold RttEstimator.saturatingMul
    omega
  exact Nat.mul_pos (Nat.div_pos hbytes hpos) (by decide)

namespace Connection

/-- A paced connection without encryption, with its next slot and what it has queued. -/
structure Scheduled (period : Duration) (slot : Option Instant) (queue : List Fragment)
    (c : Connection) : Prop where
  state : c.link.state = .connected
  closing : c.link.closing = false
  crypto : c.keys.crypto = none
  sndPeriod : c.sndPeriod = some period
  nextSend : c.tx.nextSend = slot
  sendQueue : c.tx.sendQueue = queue

/-- The slot after a packet released at time `now`, with nothing behind it. -/
def slotAfter (period : Duration) (now : Instant) (slot : Option Instant) : Option Instant :=
  if now < slot.getD now + (period : ℤ) then some (slot.getD now + (period : ℤ)) else none

variable {P : Primitives} {period : Duration} {slot : Option Instant} {c : Connection} {now : Instant}

theorem Scheduled.due {queue : List Fragment} (h : c.Scheduled period slot queue)
    (hdue : ∀ x ∈ slot, x ≤ now) : ¬ c.tx.nextSend.any (now < ·) := by
  rw [h.nextSend]
  simpa [Option.any_eq_true] using hdue

theorem Scheduled.paceLoop {fragment : Fragment} (h : c.Scheduled period slot [fragment])
    (hdue : ∀ x ∈ slot, x ≤ now) (budget : ℕ) :
    ∃ d, paceLoop P period now (budget + 2) c = (d, false) ∧
      d.Scheduled period (slotAfter period now slot) [] ∧ d.releases = c.releases + 1 := by
  obtain ⟨stored, calls, ho⟩ := sendData_plain (c := c.setQueue []) P fragment now h.crypto
  have hone : c.releaseOne P fragment [] period now
      = ((c.setQueue []).sendData P fragment now).setNextSend (some (slot.getD now + (period : ℤ))) := by
    rw [← h.nextSend, ← releaseOne_nextSend P c fragment [] period now]
    rfl
  have hkept := sendData_tx P (c.setQueue []) fragment now
  generalize (c.setQueue []).sendData P fragment now = d at ho hone hkept
  have hempty : d.tx.sendQueue = [] := by
    rw [ho.tx]
    rfl
  have hcrypto : d.keys.crypto = none := by
    rw [(ho.plain h.crypto).2.2.1]
    exact h.crypto
  -- the loop ends at the next slot or at the empty queue
  refine ⟨d.setNextSend (slotAfter period now slot), ?_, ?_, ho.releases⟩
  · rw [Connection.paceLoop, if_neg (h.due hdue), h.sendQueue]
    dsimp only
    rw [hone]
    unfold Connection.paceLoop slotAfter
    split
    · next hfuture => rw [if_pos (by simpa [setNextSend] using hfuture)]
    · next hpast =>
      have hleft : (d.setNextSend (some (slot.getD now + (period : ℤ)))).tx.sendQueue = [] := hempty
      rw [if_neg (by simpa [setNextSend] using hpast), hleft]
      rfl
  · exact ⟨ho.link ▸ h.state, ho.link ▸ h.closing, hcrypto, hkept.2.trans h.sndPeriod, rfl, hempty⟩

/-- With an empty queue there is only the timer to clear. -/
theorem Scheduled.schedulePacing (h : c.Scheduled period slot []) :
    c.schedulePacing now = c.output (.clearTimer .sndPacing) := by
  rw [Connection.schedulePacing, h.sendQueue, List.isEmpty_nil, if_pos rfl, finishCloseIfDrained, if_neg]
  rintro ⟨hclosing, -⟩
  exact Bool.false_ne_true (h.closing.symm.trans hclosing)

/-- A loop that ends before the cap, and leaves the queue empty, is what `pace` does. -/
theorem Scheduled.pace {queue : List Fragment} {slot' : Option Instant} {d : Connection}
    (h : c.Scheduled period slot queue) (hd : d.Scheduled period slot' [])
    (hloop : Connection.paceLoop P period now maxPaceBurst c = (d, false)) :
    c.pace P now = d.output (.clearTimer .sndPacing) := by
  obtain ⟨cc, hcc, hcp⟩ := Option.map_eq_some_iff.mp h.sndPeriod
  have hrelease : c.release P period now = d := by
    rw [release, hloop]
    exact if_neg (by simp)
  rw [Connection.pace, hcc]
  dsimp only
  rw [hcp, hrelease, hd.schedulePacing]

/-- A one-byte message goes out at once when the slot has come. -/
theorem Scheduled.send (h : c.Scheduled period slot []) (hdue : ∀ x ∈ slot, x ≤ now) (b : UInt8) :
    (c.perform P (.send [b]) now).Scheduled period (slotAfter period now slot) [] ∧
      (c.perform P (.send [b]) now).releases = c.releases + 1 := by
  obtain ⟨cc, hcc, -⟩ := Option.map_eq_some_iff.mp h.sndPeriod
  have hfragments : c.fragmentMessage [b] c.tx.nextMessage = [⟨[b], .single, c.tx.nextMessage⟩] :=
    if_pos (Nat.le_max_right _ _)
  have hperform : c.perform P (.send [b]) now
      = (c.countMessage.enqueue [⟨[b], .single, c.tx.nextMessage⟩]).pace P now := by
    have haccept : ¬ (c.link.closing = true ∨ c.link.state ≠ .connected) := by simp [h.closing, h.state]
    simp only [perform, Connection.send, if_neg haccept, submit, hcc, hfragments]
    rfl
  have hqueued : (c.countMessage.enqueue [⟨[b], .single, c.tx.nextMessage⟩]).Scheduled period slot
      [⟨[b], .single, c.tx.nextMessage⟩] := by
    refine ⟨h.state, h.closing, h.crypto, h.sndPeriod, h.nextSend, ?_⟩
    change c.tx.sendQueue ++ _ = _
    rw [h.sendQueue]
    rfl
  obtain ⟨d, hloop, hd, hcount⟩ := hqueued.paceLoop (P := P) hdue 254
  rw [hperform, hqueued.pace hd hloop]
  exact ⟨⟨hd.state, hd.closing, hd.crypto, hd.sndPeriod, hd.nextSend, hd.sendQueue⟩, hcount⟩

end Connection

namespace Session

theorem step_send {P : Primitives} {s : Session} {period : Duration} {slot : Option Instant} {now : Instant}
    (h : s.conn.Scheduled period slot []) (hdue : ∀ x ∈ slot, x ≤ now) (b : UInt8) :
    (step P s (.send [b], now)).conn.Scheduled period (Connection.slotAfter period now slot) [] ∧
      (step P s (.send [b], now)).conn.releases = s.conn.releases + 1 := by
  obtain ⟨hsent, hcount⟩ := h.send (P := P) hdue b
  exact ⟨⟨hsent.state, hsent.closing, hsent.crypto, hsent.sndPeriod, hsent.nextSend, hsent.sendQueue⟩, hcount⟩

section Burst

variable {P : Primitives} {s : Session} {period : Duration}

/-- After the first packet, at time zero, the next slot is one period away. -/
theorem scheduled_once (h : s.conn.Scheduled period none []) (hp : 0 < period) (b : UInt8) :
    (step P s (.send [b], 0)).conn.Scheduled period (some (period : ℤ)) [] := by
  have hslot : Connection.slotAfter period 0 none = some (period : ℤ) := by
    simp [Connection.slotAfter, hp]
  rw [← hslot]
  exact (step_send h (by simp) b).1

theorem recent_once (h : s.conn.Scheduled period none []) (hp : 0 < period) (b : UInt8) :
    (Runs.run (step P) s [(.send [b], 0)]).conn.Recent period (period : ℤ) := by
  intro slot hslot
  rw [Runs.run_cons, Runs.run_nil, (scheduled_once h hp b).nextSend] at hslot
  obtain rfl := Option.mem_some_iff.mp hslot
  exact lt_add_of_pos_right _ (Int.natCast_pos.mpr hp)

theorem idle_once {t t' : Instant} {b : UInt8} (h : releasedAt P t' s [(.send [b], 0)] ≠ 0)
    (ht : (period : ℤ) ≤ t) : t' ≤ t - (period : ℤ) := by
  obtain rfl : t' = 0 := by
    by_contra hne
    exact h (releasedAt_absent (by simpa using Ne.symm hne) _)
  exact sub_nonneg.mpr ht

/-- Two periods later two messages go out at once: the slot of the first period is still in
force. -/
theorem releasedAt_two_periods (h : s.conn.Scheduled period none []) (hp : 0 < period) (b₁ b₂ b₃ : UInt8) :
    releasedAt P (2 * (period : ℤ)) s
      ([(.send [b₁], 0)] ++ (.send [b₂], 2 * (period : ℤ)) :: [(.send [b₃], 2 * (period : ℤ))]) = 2 := by
  have hpos : (0 : ℤ) < (period : ℤ) := Int.natCast_pos.mpr hp
  have hdue : ∀ x ∈ some (period : ℤ), x ≤ 2 * (period : ℤ) := by
    intro x hx
    obtain rfl := Option.mem_some_iff.mp hx
    omega
  have hnone : ∀ x ∈ (none : Option Instant), x ≤ 2 * (period : ℤ) := by simp
  have hslot : Connection.slotAfter period (2 * (period : ℤ)) (some (period : ℤ)) = none :=
    if_neg (by simp [two_mul])
  obtain ⟨hsecond, hcount⟩ := step_send (P := P) (scheduled_once (P := P) h hp b₁) hdue b₂
  rw [hslot] at hsecond
  obtain ⟨-, hcount'⟩ := step_send (P := P) hsecond hnone b₃
  have hlater : ¬ (0 : ℤ) = 2 * (period : ℤ) := by omega
  rw [List.singleton_append, releasedAt, if_neg hlater, releasedAt, if_pos rfl, releasedAt, if_pos rfl,
    releasedAt, hcount', hcount]
  omega

end Burst

/-! ## Sample runs -/

/-- Paced at 1.5 MB/s. -/
def pacedConfig : Config := { Config.default with maxBw := 1500000 }

def pacedAcceptor : Session := acceptorWith pacedConfig

theorem pacedAcceptor_started : Started Primitives.absent pacedAcceptor :=
  accepting_started (by decide +kernel)

def pacedPeriod : Duration := (LiveCc.new 1500000).sndPeriod

theorem pacedPeriod_pos : 0 < pacedPeriod := LiveCc.computePeriod_pos _ (by decide) (by decide)

theorem pacedAcceptor_scheduled : pacedAcceptor.conn.Scheduled pacedPeriod none [] :=
  ⟨by decide +kernel, by decide +kernel, by decide +kernel, rfl, by decide +kernel, by decide +kernel⟩

/-- One period after a packet, one of two messages goes out. -/
theorem no_burst_after_one_period :
    0 < pacedPeriod ∧
      releasedAt Primitives.absent (pacedPeriod : ℤ) pacedAcceptor
        ([(.send [1], 0)] ++ (.send [2], (pacedPeriod : ℤ)) :: [(.send [3], (pacedPeriod : ℤ))]) ≤ 1 := by
  have hp := pacedPeriod_pos
  have hs := pacedAcceptor_scheduled
  generalize pacedPeriod = period at hp hs ⊢
  exact ⟨hp, no_burst_after_idling Primitives.absent pacedAcceptor hp hs.sndPeriod _ _ _ _
    (by simp [Call.Paces]) (by simp) (fun t' h => idle_once h le_rfl) (recent_once hs hp 1)⟩

/-- Two periods after it, both go out at once. -/
theorem burst_after_idling :
    Started Primitives.absent pacedAcceptor ∧ pacedConfig.validate = .ok () ∧
      0 < pacedPeriod ∧ pacedAcceptor.conn.sndPeriod = some pacedPeriod ∧
      Runs.Meets (step Primitives.absent) Legal pacedAcceptor
        ([(.send [1], 0)] ++ (.send [2], 2 * (pacedPeriod : ℤ)) :: [(.send [3], 2 * (pacedPeriod : ℤ))]) ∧
      (Runs.run (step Primitives.absent) pacedAcceptor [(.send [1], 0)]).conn.tx.sendQueue = [] ∧
      (∀ t', releasedAt Primitives.absent t' pacedAcceptor [(.send [1], 0)] ≠ 0 →
        t' ≤ 2 * (pacedPeriod : ℤ) - (pacedPeriod : ℤ)) ∧
      releasedAt Primitives.absent (2 * (pacedPeriod : ℤ)) pacedAcceptor
        ([(.send [1], 0)] ++ (.send [2], 2 * (pacedPeriod : ℤ)) :: [(.send [3], 2 * (pacedPeriod : ℤ))]) = 2 := by
  have hp := pacedPeriod_pos
  have hs := pacedAcceptor_scheduled
  generalize pacedPeriod = period at hp hs ⊢
  refine ⟨pacedAcceptor_started, by decide +kernel, hp, hs.sndPeriod, ?_,
    (scheduled_once (P := Primitives.absent) hs hp 1).sendQueue,
    fun t' h => idle_once h (by omega), releasedAt_two_periods hs hp 1 2 3⟩
  have hstart : pacedAcceptor.clock = 0 := by decide +kernel
  refine ⟨⟨hstart.le, trivial⟩, ⟨?_, trivial⟩, ⟨le_rfl, trivial⟩, trivial⟩
  change (0 : ℤ) ≤ 2 * (period : ℤ)
  omega

end Session

end Srtrust
