import Srtrust.Connection.Retransmission
import Srtrust.Session.Timeline

/-! # Loss reports over whole runs

An arriving packet reports the aged gaps, unless the list is the one in `reported_loss`. That is
sound while `reported_loss` holds what a report has named. A `Watch` follows, from one point where
packets are inserted to the next, which missing sequence numbers a report on the wire has named since
they went missing. -/
namespace Srtrust
open BigEndian
set_option autoImplicit false

namespace RecvBuffer

/-! ## Missing sequence numbers -/

/-- The numbers `missing` names are those of the absent slots. -/
theorem names_missing (b : RecvBuffer) (n : SeqNumber) :
    names b.missing n = true ↔ ∃ p, b.slots[p]? = some none ∧ n = b.base.add p := by
  obtain ⟨gs, hgs, hwithin, -, hcovers⟩ := b.missing_spec
  have hspan := b.span_le
  rw [hgs, names_span n fun g hg => ⟨(hwithin g hg).1, by have := (hwithin g hg).2; omega⟩]
  simp only [hcovers]

theorem names_missingAged (b : RecvBuffer) {t : ℕ} (ht : t ≤ 32) {n : SeqNumber}
    (h : names (b.missingAged t) n = true) : names b.missing n = true := by
  obtain ⟨gs, hgs, hwithin, -, hcovers⟩ := b.missingAged_spec ht
  have hspan := b.span_le
  rw [hgs, names_span n fun g hg => ⟨(hwithin g hg).1, by have := (hwithin g hg).2; omega⟩] at h
  obtain ⟨p, hp, hn⟩ := h
  exact (b.names_missing n).mpr ⟨p, ((hcovers p).mp hp).1, hn⟩

/-- Slots dropped in front leave no new number missing. -/
theorem names_missing_drop {b b' : RecvBuffer} {k : ℕ} (hslots : b'.slots = b.slots.drop k)
    (hbase : b'.base = b.base.add k) {n : SeqNumber} (h : names b'.missing n = true) :
    names b.missing n = true := by
  obtain ⟨p, hp, hn⟩ := (b'.names_missing n).mp h
  rw [hslots, List.getElem?_drop] at hp
  exact (b.names_missing n).mpr ⟨k + p, hp, by rw [hn, hbase, SeqNumber.add_add]⟩

theorem names_missing_pop {b rest : RecvBuffer} {p : DataPacket} (h : b.pop = some (p, rest))
    {n : SeqNumber} (hn : names rest.missing n = true) : names b.missing n = true := by
  obtain ⟨-, hslots, hbase, -⟩ := b.pop_spec p rest h
  exact names_missing_drop hslots hbase hn

theorem names_missing_dropRange {b : RecvBuffer} {first last n : SeqNumber}
    (h : names (b.dropRange first last).missing n = true) : names b.missing n = true := by
  rcases b.dropRange_cases first last with hs | ⟨k, -, -, hslots, hbase⟩
  · rwa [hs] at h
  · exact names_missing_drop hslots hbase h

/-- A packet stored at position `k` makes the numbers between the old end of the buffer and its own
go missing. -/
theorem names_missing_store {b b' : RecvBuffer} {k : ℕ} {packet : DataPacket} (hbase : b'.base = b.base)
    (hslots : b'.slots = (resize b.slots (k + 1)).set k (some packet)) {n : SeqNumber}
    (h : names b'.missing n = true) :
    names b.missing n = true ∨ ∃ p, b.slots.length ≤ p ∧ p < k ∧ n = b.base.add p := by
  obtain ⟨p, hp, hn⟩ := (b'.names_missing n).mp h
  rw [hbase] at hn
  rw [hslots, getElem?_resize_set] at hp
  split_ifs at hp with hown hold hopen
  · simp at hp
  · exact .inl ((b.names_missing n).mpr ⟨p, hp, hn⟩)
  · exact .inr ⟨p, by omega, hopen, hn⟩

end RecvBuffer

/-- A loss report that names the sequence number. -/
def Output.naks (n : SeqNumber) : Output → Bool
  | .sendDatagram d =>
    match Packet.decode d with
    | .ok (.control { body := .nak loss, .. }) =>
      loss.any fun r => Connection.inRange n r.start r.stop
    | _ => false
  | _ => false

namespace Connection

/-! ## Following the reports -/

/-- The missing sequence numbers that a report has named since they went missing, and how many
outputs have been looked through for reports. -/
structure Watch where
  named : SeqNumber → Bool
  seen : ℕ

namespace Watch

/-- The reports sent since are looked through too. -/
def reported (w : Watch) (c : Connection) (n : SeqNumber) : Bool :=
  w.named n || (c.outputs.drop w.seen).any (Output.naks n)

/-- A number that is no longer missing is forgotten. -/
def account (w : Watch) (c : Connection) : Watch where
  named n := w.reported c n && names c.rx.recvBuffer.missing n
  seen := c.outputs.length

end Watch

/-- The gaps old enough to report. -/
def agedLoss (c : Connection) : List (SeqNumber × SeqNumber) :=
  c.rx.recvBuffer.missingAged c.rx.reorderTolerance

/-- Aged gaps are found and not reported, because the last report is the same list. -/
def Suppresses (c : Connection) : Prop :=
  c.rx.recvBuffer.hasGaps = true ∧ c.agedLoss ≠ [] ∧ c.agedLoss = c.rx.reportedLoss

instance (c : Connection) : Decidable c.Suppresses := inferInstanceAs (Decidable (_ ∧ _ ∧ _))

/-- The state in which `insert_data` looks for gaps, if it newly stores the packet. -/
def beforeReport (P : Primitives) (c : Connection) (data : DataPacket) (now : Instant) : Option Connection :=
  if c.availableRecvBuffer = 0 then none
  else
    match c.openPacket P data with
    | none => none
    | some (data, calls) =>
      let inserted := (c.record calls).rx.recvBuffer.insert data
      if inserted.1 then
        some ((((c.record calls).arrived data inserted.2 now).deliverTsbpd now).lightAckIfDue now)
      else none

/-- What suppression relies on: every number in the list withheld is among those given. -/
def Justified (P : Primitives) (now : Instant) (named : SeqNumber → Bool) (c : Connection)
    (data : DataPacket) : Prop :=
  ∀ d ∈ c.beforeReport P data now, d.Suppresses → ∀ n, names d.agedLoss n = true → named n = true

/-- Every packet of a list is handed over in a state whose suppression is justified. -/
def AllJustified (P : Primitives) (now : Instant) : Watch → List (Connection × DataPacket) → Prop
  | _, [] => True
  | w, x :: xs => x.1.Justified P now (w.account x.1).named x.2 ∧ AllJustified P now (w.account x.1) xs

/-- What justified suppression says of the first packet and one number. -/
theorem AllJustified.head {P : Primitives} {now : Instant} {w : Watch} {xs : List (Connection × DataPacket)}
    (h : AllJustified P now w xs) (n : SeqNumber) :
    ∀ x ∈ xs.head?, ∀ d ∈ x.1.beforeReport P x.2 now, d.Suppresses → names d.agedLoss n = true →
      (w.account x.1).named n = true := by
  cases xs with
  | nil => simp
  | cons x xs =>
    intro y hy d hd hsup hn
    obtain rfl := Option.mem_some_iff.mp hy
    exact h.1 d hd hsup n hn

/-! ## One step -/

/-- The invariant: what `reported_loss` lists and is still missing is among the numbers given. -/
structure Held (named : SeqNumber → Bool) (c : Connection) : Prop where
  tolerance : c.rx.reorderTolerance ≤ 32
  listed : ∀ n, names c.rx.reportedLoss n = true → names c.rx.recvBuffer.missing n = true → named n = true

/-- No number goes missing, and the last report stays. -/
structure Recedes (c c' : Connection) : Prop where
  missing : ∀ n, names c'.rx.recvBuffer.missing n = true → names c.rx.recvBuffer.missing n = true
  reportedLoss : c'.rx.reportedLoss = c.rx.reportedLoss
  reorderTolerance : c'.rx.reorderTolerance = c.rx.reorderTolerance

namespace Recedes

theorem refl (c : Connection) : Recedes c c := ⟨fun _ => id, rfl, rfl⟩

theorem trans {a b c : Connection} (h : Recedes a b) (h' : Recedes b c) : Recedes a c :=
  ⟨fun n hn => h.missing n (h'.missing n hn), h'.reportedLoss.trans h.reportedLoss,
    h'.reorderTolerance.trans h.reorderTolerance⟩

end Recedes

theorem Clerical.recedes {c c' : Connection} (h : Clerical c c') : Recedes c c' :=
  ⟨fun n hn => by rwa [h.quiet.recvBuffer] at hn, h.reportedLoss, h.reorderTolerance⟩

theorem Held.recedes {named : SeqNumber → Bool} {c c' : Connection} (h : Held named c) (hr : Recedes c c') :
    Held named c' := by
  refine ⟨hr.reorderTolerance ▸ h.tolerance, fun n hn hmissing => h.listed n ?_ (hr.missing n hmissing)⟩
  rwa [hr.reportedLoss] at hn

theorem Held.mono {named named' : SeqNumber → Bool} {c : Connection} (h : Held named c)
    (himp : ∀ n, named n = true → named' n = true) : Held named' c :=
  ⟨h.tolerance, fun n hn hmissing => himp n (h.listed n hn hmissing)⟩

theorem deliverPopped_recedes {c : Connection} {packet : DataPacket} {rest : RecvBuffer}
    (h : c.rx.recvBuffer.pop = some (packet, rest)) : Recedes c (c.deliverPopped packet rest) := by
  refine ⟨fun n hn => ?_, ?_, ?_⟩
  · rw [deliverPopped_recvBuffer] at hn
    exact RecvBuffer.names_missing_pop h hn
  all_goals
    unfold deliverPopped deliverPacket
    dsimp only
    split <;> rfl

theorem deliverTsbpd_recedes (c : Connection) (now : Instant) : Recedes c (c.deliverTsbpd now) :=
  deliverTsbpd_rule (fun d o _ h => h.trans (Clerical.output d o).recedes)
    (fun _ _ _ hpop h => h.trans (deliverPopped_recedes hpop)) now (.refl c)

theorem flushLoop_recedes (fuel : ℕ) (c : Connection) : Recedes c (flushLoop fuel c) :=
  flushLoop_rule (fun _ _ _ hpop h => h.trans (deliverPopped_recedes hpop)) fuel (.refl c)

theorem onShutdown_recedes (c : Connection) : Recedes c c.onShutdown :=
  (flushLoop_recedes _ c).trans
    (((fail_linkStep _).trans (clearArqTimers_linkStep _)).trans (.event _ _ id)).clerical.recedes

/-! ## Inserting a packet -/

theorem trackReorder_reports (rx : Receiver) (seq : SeqNumber) (retransmitted : Bool) :
    (trackReorder rx seq retransmitted).recvBuffer = rx.recvBuffer ∧
      (trackReorder rx seq retransmitted).reportedLoss = rx.reportedLoss ∧
      (rx.reorderTolerance ≤ 32 → (trackReorder rx seq retransmitted).reorderTolerance ≤ 32) := by
  have hcap : maxReorderTolerance = 32 := rfl
  unfold trackReorder
  dsimp only
  split
  · exact ⟨rfl, rfl, id⟩
  · split
    · exact ⟨rfl, rfl, id⟩
    · split
      · split
        · exact ⟨rfl, rfl, fun h => by dsimp only; omega⟩
        · exact ⟨rfl, rfl, id⟩
      · exact ⟨rfl, rfl, fun h => by dsimp only; omega⟩

theorem arrived_reports (c : Connection) (data : DataPacket) (b : RecvBuffer) (now : Instant) :
    (c.arrived data b now).rx.recvBuffer = b ∧
      (c.arrived data b now).rx.reportedLoss = c.rx.reportedLoss ∧
      (c.rx.reorderTolerance ≤ 32 → (c.arrived data b now).rx.reorderTolerance ≤ 32) ∧
      (c.arrived data b now).outputs = c.outputs := by
  have hanchor : ∀ c : Connection, (c.anchorTsbpd data.timestamp now).rx.recvBuffer = c.rx.recvBuffer ∧
      (c.anchorTsbpd data.timestamp now).rx.reportedLoss = c.rx.reportedLoss ∧
      (c.anchorTsbpd data.timestamp now).rx.reorderTolerance = c.rx.reorderTolerance ∧
      (c.anchorTsbpd data.timestamp now).outputs = c.outputs := by
    intro c
    unfold anchorTsbpd
    split <;> exact ⟨rfl, rfl, rfl, rfl⟩
  have hdrift : ∀ c : Connection, (c.sampleDrift data now).rx.recvBuffer = c.rx.recvBuffer ∧
      (c.sampleDrift data now).rx.reportedLoss = c.rx.reportedLoss ∧
      (c.sampleDrift data now).rx.reorderTolerance = c.rx.reorderTolerance ∧
      (c.sampleDrift data now).outputs = c.outputs := by
    intro c
    unfold sampleDrift
    split <;> exact ⟨rfl, rfl, rfl, rfl⟩
  obtain ⟨hd1, hd2, hd3, hd4⟩ := hdrift ((c.recordArrival data b now).anchorTsbpd data.timestamp now)
  obtain ⟨ha1, ha2, ha3, ha4⟩ := hanchor (c.recordArrival data b now)
  have htrack := trackReorder_reports
    { c.rx with
      recvBuffer := b
      stats :=
        { c.rx.stats with
          packetsReceived := c.rx.stats.packetsReceived + 1
          bytesReceived := c.rx.stats.bytesReceived + data.payload.length } }
    data.seq data.retransmitted
  unfold arrived
  rw [hd1, hd2, hd3, hd4, ha1, ha2, ha3, ha4]
  exact ⟨htrack.1, htrack.2.1, htrack.2.2, rfl⟩

/-- A newly stored packet: the last report stays, and numbers go missing between the old end of the
buffer and the packet only. -/
structure Extends (c : Connection) (seq : SeqNumber) (d : Connection) : Prop where
  reportedLoss : d.rx.reportedLoss = c.rx.reportedLoss
  tolerance : c.rx.reorderTolerance ≤ 32 → d.rx.reorderTolerance ≤ 32
  outputs : ∃ os, d.outputs = c.outputs ++ os
  missing : ∀ n, names d.rx.recvBuffer.missing n = true → names c.rx.recvBuffer.missing n = true ∨
    ∃ p, c.rx.recvBuffer.slots.length ≤ p ∧ p < (seq.offsetFrom c.rx.recvBuffer.base).toNat ∧
      n = c.rx.recvBuffer.base.add p

theorem insertData_cases (P : Primitives) (c : Connection) (data : DataPacket) (now : Instant) :
    c.beforeReport P data now = none ∧ Clerical c (c.insertData P data now) ∧
        (c.insertData P data now).outputs = c.outputs ∨
      ∃ d, c.beforeReport P data now = some d ∧ c.insertData P data now = d.reportGaps now ∧
        Extends c data.seq d := by
  unfold insertData beforeReport
  by_cases havail : c.availableRecvBuffer = 0
  · rw [if_pos havail, if_pos havail]
    exact .inl ⟨rfl, .ofRx c _ rfl, rfl⟩
  · rw [if_neg havail, if_neg havail]
    cases hopen : c.openPacket P data with
    | none => exact .inl ⟨rfl, .ofRx c _ rfl, rfl⟩
    | some result =>
      have hbuffer : (c.record result.2).rx.recvBuffer = c.rx.recvBuffer := rfl
      have hrecord : Clerical c (c.record result.2) :=
        .ofQuiet (.record c result.2 (openPacket_quiet hopen)) rfl rfl
      have hstore := c.rx.recvBuffer.insert_spec result.1
      rw [openPacket_seq hopen] at hstore
      dsimp only
      rw [hbuffer]
      generalize c.rx.recvBuffer.insert result.1 = inserted at hstore ⊢
      by_cases hnew : inserted.1 = true
      · obtain ⟨-, -, hbase, -, hslots⟩ := hstore hnew
        rw [if_pos hnew, if_pos hnew, afterInsert_eq]
        refine .inr ⟨_, rfl, rfl, ?_⟩
        obtain ⟨hb, hreported, htolerance, houtputs⟩ := (c.record result.2).arrived_reports result.1 inserted.2 now
        generalize (c.record result.2).arrived result.1 inserted.2 now = a at hb hreported htolerance houtputs
        have hrecedes := (deliverTsbpd_recedes a now).trans (lightAckIfDue_clerical _ now).recedes
        have hgrows := ((deliverTsbpd_rxStep a now).trans (lightAckIfDue_rxStep _ now)).grows.outputs
        obtain ⟨os, hos, -⟩ := hgrows
        refine ⟨hrecedes.reportedLoss.trans hreported, ?_, ⟨os, by rw [hos, houtputs]; rfl⟩, fun n hn => ?_⟩
        · rw [hrecedes.reorderTolerance]
          exact htolerance
        · have hn := hrecedes.missing n hn
          rw [hb] at hn
          exact RecvBuffer.names_missing_store hbase hslots hn
      · rw [if_neg hnew, if_neg hnew]
        exact .inl ⟨rfl, hrecord.trans (.ofRx _ _ rfl), rfl⟩

/-! ## What the reports back -/

/-- The invariant at a point of a run where outputs are still to be looked through. -/
structure Backed (w : Watch) (c : Connection) : Prop where
  seen : w.seen ≤ c.outputs.length
  held : Held (w.reported c) c

/-- No packet makes a number go missing that the last report lists, as one can whose sequence number
is listed from before the numbers wrapped. -/
def OpensUnlisted (c : Connection) (data : DataPacket) : Prop :=
  ∀ p < (data.seq.offsetFrom c.rx.recvBuffer.base).toNat, c.rx.recvBuffer.slots.length ≤ p →
    names c.rx.reportedLoss (c.rx.recvBuffer.base.add p) = false

instance (c : Connection) (data : DataPacket) : Decidable (c.OpensUnlisted data) :=
  inferInstanceAs (Decidable (∀ p < _, _ → _))

/-- A drop request leaves missing what the last report lists and nothing else. -/
def LeavesListed (c : Connection) (range : SeqNumber × SeqNumber) : Prop :=
  ∀ p < (c.rx.recvBuffer.dropRange range.1 range.2).slots.length,
    (c.rx.recvBuffer.dropRange range.1 range.2).slots[p]? = some none →
      names c.rx.reportedLoss ((c.rx.recvBuffer.dropRange range.1 range.2).base.add p) = true

instance (c : Connection) (range : SeqNumber × SeqNumber) : Decidable (c.LeavesListed range) :=
  inferInstanceAs (Decidable (∀ p < _, _ → _))

section Backed

variable {w : Watch} {c d : Connection} {data : DataPacket}

theorem Watch.reported_mono (h : w.seen ≤ c.outputs.length) {os : List Output}
    (hos : d.outputs = c.outputs ++ os) {n : SeqNumber} (hn : w.reported c n = true) :
    w.reported d n = true := by
  rw [Watch.reported, hos, List.drop_append_of_le_length h, List.any_append]
  rw [Watch.reported, Bool.or_eq_true] at hn
  rcases hn with hn | hn <;> simp [hn]

theorem Watch.account_named {n : SeqNumber} (hn : w.reported c n = true)
    (hmissing : names c.rx.recvBuffer.missing n = true) : (w.account c).named n = true := by
  simp only [Watch.account, hn, hmissing, Bool.and_self]

theorem Backed.account (h : Backed w c) : Backed (w.account c) c := by
  refine ⟨le_rfl, h.held.tolerance, fun n hn hmissing => ?_⟩
  rw [Watch.reported, Watch.account_named (h.held.listed n hn hmissing) hmissing, Bool.true_or]

theorem Backed.clerical (h : Backed w c) (hc : Clerical c d) (hout : d.outputs = c.outputs) : Backed w d := by
  refine ⟨hout ▸ h.seen, ?_⟩
  have hsame : w.reported d = w.reported c := by
    funext n
    rw [Watch.reported, Watch.reported, hout]
  rw [hsame]
  exact h.held.recedes hc.recedes

/-- What is missing and listed after a packet is stored was so before. -/
theorem Extends.listed (hext : Extends c data.seq d) (hopens : c.OpensUnlisted data) {n : SeqNumber}
    (hn : names c.rx.reportedLoss n = true) (hmissing : names d.rx.recvBuffer.missing n = true) :
    names c.rx.recvBuffer.missing n = true := by
  rcases hext.missing n hmissing with hold | ⟨p, hlo, hhi, rfl⟩
  · exact hold
  · rw [hopens p hhi hlo] at hn
    exact absurd hn Bool.false_ne_true

theorem Backed.extends (h : Backed w c) (hopens : c.OpensUnlisted data) (hext : Extends c data.seq d) :
    Backed w d := by
  obtain ⟨os, hos⟩ := hext.outputs
  refine ⟨by rw [hos, List.length_append]; exact h.seen.trans (Nat.le_add_right _ _),
    hext.tolerance h.held.tolerance, fun n hn hmissing => ?_⟩
  rw [hext.reportedLoss] at hn
  exact Watch.reported_mono h.seen hos (h.held.listed n hn (hext.listed hopens hn hmissing))

/-- A report on the wire names the numbers of the list it is made from. -/
theorem sendNak_outputs (c : Connection) (missing : List (SeqNumber × SeqNumber)) (now : Instant) :
    ∃ datagram, (c.sendNak missing now).outputs = c.outputs ++ [.sendDatagram datagram] ∧
      ∀ n, Output.naks n (.sendDatagram datagram) = names missing n := by
  obtain ⟨datagram, hemit, hdecode⟩ :=
    @emitControl_conforming c.countNakSent (.nak (missing.map fun r => ⟨r.1, r.2⟩)) trivial now
  refine ⟨datagram, ?_, fun n => ?_⟩
  · rw [sendNak, hemit]
    rfl
  · simp only [Output.naks, hdecode, names, List.any_map]
    rfl

theorem Backed.reportGaps (h : Backed w c) (now : Instant) : Backed w (c.reportGaps now) := by
  unfold Connection.reportGaps
  dsimp only
  split
  · split
    · obtain ⟨datagram, hout, hnaks⟩ := sendNak_outputs c c.agedLoss now
      have htolerance := (sendNak_clerical c c.agedLoss now).reorderTolerance
      have hseen : w.seen ≤ (c.sendNak c.agedLoss now).outputs.length := by
        rw [hout, List.length_append]
        exact h.seen.trans (Nat.le_add_right _ _)
      refine ⟨hseen, htolerance ▸ h.held.tolerance, fun n hn _ => ?_⟩
      change (w.named n || ((c.sendNak c.agedLoss now).outputs.drop w.seen).any (Output.naks n)) = true
      rw [hout, List.drop_append_of_le_length h.seen, List.any_append, List.any_cons, hnaks n,
        show names c.agedLoss n = true from hn]
      simp
    · exact h
  · exact ⟨h.seen, h.held.tolerance, fun n hn => absurd hn (by simp [setReportedLoss, names])⟩

theorem Backed.insertData (P : Primitives) (h : Backed w c) (hopens : c.OpensUnlisted data) (now : Instant) :
    Backed w (c.insertData P data now) := by
  rcases insertData_cases P c data now with ⟨-, hclerical, hout⟩ | ⟨d, -, he, hext⟩
  · exact h.clerical hclerical hout
  · rw [he]
    exact (h.extends hopens hext).reportGaps now

/-- Where the invariant holds, suppression is justified. -/
theorem Backed.justified (P : Primitives) (h : Backed w c) (hopens : c.OpensUnlisted data) (now : Instant) :
    c.Justified P now (w.account c).named data := by
  intro d hd hsup n hn
  obtain ⟨-, -, hsame⟩ := hsup
  rcases insertData_cases P c data now with ⟨hnone, -⟩ | ⟨d', hd', -, hext⟩
  · rw [hnone] at hd
    exact absurd hd (by simp)
  obtain rfl := Option.some.inj (hd'.symm.trans hd)
  have hmissing := RecvBuffer.names_missingAged _ (hext.tolerance h.held.tolerance) hn
  rw [hsame, hext.reportedLoss] at hn
  have hold := hext.listed hopens hn hmissing
  exact Watch.account_named (h.held.listed n hn hold) hold

end Backed

/-! ## Calls -/

/-- The watch after the points at which packets are handed over. -/
def Watch.through (w : Watch) (xs : List (Connection × DataPacket)) : Watch :=
  xs.foldl (fun w x => w.account x.1) w

section Calls

variable {P : Primitives} {now : Instant}

theorem Backed.injectAll {w : Watch} {c : Connection} (recovered : List RecoveredPacket) (h : Backed w c)
    (hopens : ∀ x ∈ injections P now c recovered, x.1.OpensUnlisted x.2) :
    AllJustified P now w (injections P now c recovered) ∧
      Backed (w.through (injections P now c recovered)) (c.injectAll P recovered now) := by
  unfold Connection.injectAll
  induction recovered generalizing w c with
  | nil => exact ⟨trivial, h⟩
  | cons rp rest ih =>
    rw [List.foldl_cons]
    unfold injectRecovered
    cases hr : rebuilt c.link.peerSocketId rp with
    | none =>
      simp only [injections, hr] at hopens ⊢
      exact ih h hopens
    | some packet =>
      simp only [injections, hr] at hopens ⊢
      have hcount : Backed w c.countRecovered := h.clerical (.ofRx c _ rfl) rfl
      have hhead := hopens _ List.mem_cons_self
      obtain ⟨hrest, hend⟩ := ih (hcount.account.insertData P hhead now)
        fun x hx => hopens x (List.mem_cons_of_mem _ hx)
      exact ⟨⟨hcount.justified P hhead now, hrest⟩, hend⟩

theorem Backed.onData {w : Watch} {c : Connection} (data : DataPacket) (h : Backed w c)
    (hopens : ∀ x ∈ insertions P c data now, x.1.OpensUnlisted x.2) :
    AllJustified P now w (insertions P c data now) ∧
      Backed (w.through (insertions P c data now)) (c.onData P data now) := by
  have hfec : c.rx.fecRecv.isSome → ∀ fec, Backed w (c.setFecRecv fec) := fun hsome fec =>
    h.clerical (setFecRecv_clerical hsome fec) rfl
  unfold Connection.onData
  unfold insertions at hopens ⊢
  cases hr : c.rx.fecRecv with
  | none =>
    simp only [hr] at hopens
    have hhead := hopens (c, data) List.mem_cons_self
    exact ⟨⟨h.justified P hhead now, trivial⟩, h.account.insertData P hhead now⟩
  | some fec =>
    have hfec := hfec (by rw [hr]; rfl)
    simp only [hr] at hopens
    dsimp only
    split
    · next hm =>
      rw [if_pos hm] at hopens
      exact (hfec _).injectAll _ hopens
    · next hm =>
      rw [if_neg hm] at hopens
      have hhead := hopens _ List.mem_cons_self
      obtain ⟨hrest, hend⟩ := ((hfec _).account.insertData P hhead now).injectAll _
        fun x hx => hopens x (List.mem_cons_of_mem _ hx)
      exact ⟨⟨(hfec _).justified P hhead now, hrest⟩, hend⟩

variable {named : SeqNumber → Bool} {c : Connection}

theorem onAckack_recedes (c : Connection) (number : UInt32) (now : Instant) :
    Recedes c (c.onAckack number now) := by
  unfold onAckack
  split
  · exact .refl c
  · split
    · exact .refl c
    · exact ⟨fun _ => id, rfl, rfl⟩

theorem replaceBuffer_held (h : Held named c) {b : RecvBuffer} (skipped : ℕ)
    (hb : ∀ n, names b.missing n = true → named n = true) : Held named (c.replaceBuffer b skipped) :=
  ⟨h.tolerance, fun n hn _ => hb n hn⟩

theorem Held.onDropreq (h : Held named c) (first last : SeqNumber) (hleaves : c.LeavesListed (first, last)) :
    Held named (c.onDropreq first last now) := by
  refine Held.recedes ?_ (deliverTsbpd_recedes _ now)
  have hlisted : ∀ n, names (c.rx.recvBuffer.dropRange first last).missing n = true → named n = true := by
    intro n hmissing
    obtain ⟨p, hp, hn⟩ := (RecvBuffer.names_missing _ n).mp hmissing
    refine h.listed n ?_ (RecvBuffer.names_missing_dropRange hmissing)
    rw [hn]
    exact hleaves p (List.getElem?_eq_some_iff.mp hp).1 hp
  unfold skipRange
  dsimp only
  generalize c.rx.recvBuffer.dropRange first last = b at hlisted ⊢
  exact replaceBuffer_held h _ hlisted

theorem Held.enterConnected (h : Held named c) (negotiated : Negotiated) :
    Held named (c.enterConnected negotiated now) := by
  refine ⟨h.tolerance, fun n _ hmissing => ?_⟩
  obtain ⟨p, hp, -⟩ := (RecvBuffer.names_missing _ n).mp hmissing
  simp [(enterConnected_data c negotiated now).2.1, RecvBuffer.new] at hp

theorem Held.onControl (h : Held named c) (ctrl : ControlPacket)
    (hleaves : ∀ range ∈ dropreq? ctrl, c.LeavesListed range) :
    Held named (c.onConnectedPacket P (.control ctrl) now) := by
  have clerical {c'} (hc : Clerical c c') : Held named c' := h.recedes hc.recedes
  exact onControl_cases P c ctrl now (fun ack _ => clerical (onAck_clerical c ack now))
    (fun number => h.recedes (onAckack_recedes c number now))
    (fun loss _ => clerical (onNak_feedback c loss now).txStep.clerical) (h.recedes (onShutdown_recedes c))
    (fun message first last hbody =>
      h.onDropreq first last (hleaves (first, last) (by simp [dropreq?, hbody])))
    (fun cif => clerical (onKmReq_keyStep P c cif now).clerical)
    (fun cif => clerical (onKmRsp_keyStep c cif).clerical) (fun _ _ => clerical (.output c _)) h

theorem Held.handleTimer (h : Held named c) (id : TimerId) : Held named (c.handleTimer P id now) := by
  have clerical {c'} (hc : Clerical c c') : Held named c' := h.recedes hc.recedes
  cases id with
  | handshake => exact clerical (onHandshakeTimer_linkStep c now).clerical
  | ack => exact clerical (onAckTimer_clerical c now)
  | nak => exact clerical (onNakTimer_clerical c now)
  | exp => exact clerical (onExpTimer_feedback c now).txStep.clerical
  | tsbpd => exact h.recedes (deliverTsbpd_recedes c now)
  | sndPacing => exact clerical (pace_clerical P c now)
  | linger => exact clerical (onLingerTimer_linkStep c now).clerical
  | keepalive => exact clerical (onKeepaliveTimer_clerical c now)
  | peerIdle => exact clerical (onPeerIdleTimer_linkStep c now).clerical

theorem Held.onHandshakePacket (h : Held named c) (packet : Packet)
    (hs : c.link.state = .induction ∨ c.link.state = .conclusion) :
    Held named (c.onHandshakePacket packet now) := by
  rcases onHandshakePacket_linkStep c packet now hs with hlink | ⟨negotiated, -, he⟩
  · exact h.recedes hlink.clerical.recedes
  · rw [he]
    exact (h.recedes (Clerical.output c _).recedes).enterConnected negotiated

/-- Through a call in which no packet is handed over, the numbers named stay named. -/
theorem Held.unhanded {c' : Connection} (h : Held named c') (w : Watch) (hw : w.named = named) :
    Held (w.reported c') c' :=
  h.mono fun n hn => by rw [Watch.reported, hw, hn, Bool.true_or]

/-- At the start of a call no output is left to look through. -/
theorem Held.backed (h : Held named c) : Backed ⟨named, c.outputs.length⟩ c := ⟨le_rfl, h.unhanded _ rfl⟩

theorem Held.feedRecvBuf (h : Held named c) (datagram : Bytes)
    (hopens : ∀ x ∈ c.handed P (.feedRecvBuf datagram) now, x.1.OpensUnlisted x.2)
    (hleaves : ∀ x ∈ c.givenUp (.feedRecvBuf datagram) now, x.1.LeavesListed x.2) :
    AllJustified P now ⟨named, c.outputs.length⟩ (c.handed P (.feedRecvBuf datagram) now) ∧
      Held ((Watch.through ⟨named, c.outputs.length⟩ (c.handed P (.feedRecvBuf datagram) now)).reported
        (c.feedRecvBuf P datagram now)) (c.feedRecvBuf P datagram now) := by
  have hrecv : Clerical c { c with lastRecvAny := now } := .ofQuiet (.same id rfl rfl rfl rfl) rfl rfl
  have unhanded {c'} (hc : Held named c') : AllJustified P now ⟨named, c.outputs.length⟩ [] ∧
      Held ((Watch.through ⟨named, c.outputs.length⟩ []).reported c') c' := ⟨trivial, hc.unhanded _ rfl⟩
  unfold Connection.feedRecvBuf
  unfold handed at hopens ⊢
  unfold givenUp at hleaves
  dsimp only at hopens hleaves ⊢
  cases hd : Packet.decode datagram with
  | error _ => cases c.link.state <;> exact unhanded h
  | ok packet =>
    cases hs : c.link.state with
    | induction => exact unhanded (h.onHandshakePacket packet (.inl hs))
    | conclusion => exact unhanded (h.onHandshakePacket packet (.inr hs))
    | failed => exact unhanded h
    | connected =>
      simp only [hd, hs] at hopens hleaves ⊢
      cases packet with
      | data data =>
        obtain ⟨hall, hend⟩ := (h.backed.clerical hrecv rfl).onData data hopens
        exact ⟨hall, hend.held⟩
      | control ctrl =>
        exact unhanded ((h.recedes hrecv.recedes).onControl ctrl fun range hr =>
          hleaves (_, range) (Option.mem_map_of_mem _ hr))

theorem Held.perform (h : Held named c) (call : Call)
    (hopens : ∀ x ∈ c.handed P call now, x.1.OpensUnlisted x.2)
    (hleaves : ∀ x ∈ c.givenUp call now, x.1.LeavesListed x.2) :
    AllJustified P now ⟨named, c.outputs.length⟩ (c.handed P call now) ∧
      Held ((Watch.through ⟨named, c.outputs.length⟩ (c.handed P call now)).reported (c.perform P call now))
        (c.perform P call now) := by
  have clerical {c'} (hc : Clerical c c') : AllJustified P now ⟨named, c.outputs.length⟩ [] ∧
      Held ((Watch.through ⟨named, c.outputs.length⟩ []).reported c') c' :=
    ⟨trivial, (h.recedes hc.recedes).unhanded _ rfl⟩
  have hpoll : Recedes c { c with events := c.events.drop 1 } := ⟨fun _ => id, rfl, rfl⟩
  cases call with
  | feedRecvBuf datagram => exact h.feedRecvBuf datagram hopens hleaves
  | handleTimer id => exact ⟨trivial, (h.handleTimer id).unhanded _ rfl⟩
  | send payload => exact clerical (send_clerical P c payload now)
  | close => exact clerical (close_linkStep c now).clerical
  | provideRekey sek => exact clerical (provideRekey_keyStep P c sek now).clerical
  | pollEvent => exact ⟨trivial, (h.recedes hpoll).unhanded _ rfl⟩

/-- Draining the outputs closes the account of a call. -/
theorem Held.drained {w : Watch} (h : Held (w.reported c) c) :
    Held (w.account c).named { c with outputs := [] } :=
  ⟨h.tolerance, fun n hn hmissing => Watch.account_named (h.listed n hn hmissing) hmissing⟩

end Calls

end Connection

/-! ## Runs -/

/-- A session together with the missing sequence numbers that a loss report has named since they went
missing. -/
structure Watched where
  session : Session
  named : SeqNumber → Bool

namespace Watched

variable (P : Primitives)

/-- The watch at the start of a call. -/
def watch (w : Watched) : Connection.Watch := ⟨w.named, w.session.conn.outputs.length⟩

def step (w : Watched) (input : Call × Instant) : Watched where
  session := w.session.step P input
  named := ((w.watch.through (w.session.conn.handed P input.1 input.2)).account
    (w.session.conn.perform P input.1 input.2)).named

/-- Whenever a packet of the call finds aged gaps and reports none of them, each has been named. -/
def Justified (w : Watched) (input : Call × Instant) : Prop :=
  Connection.AllJustified P input.2 w.watch (w.session.conn.handed P input.1 input.2)

end Watched

namespace Session

/-- No arrival reopens a number that the last report lists, and no drop request leaves a gap that it
does not list. -/
def KeepsReport (P : Primitives) (s : Session) (input : Call × Instant) : Prop :=
  (∀ x ∈ s.conn.handed P input.1 input.2, x.1.OpensUnlisted x.2) ∧
    ∀ x ∈ s.conn.givenUp input.1 input.2, x.1.LeavesListed x.2

instance (P : Primitives) (s : Session) (input : Call × Instant) : Decidable (s.KeepsReport P input) :=
  inferInstanceAs (Decidable ((∀ x ∈ s.conn.handed P input.1 input.2, _) ∧
    ∀ x ∈ s.conn.givenUp input.1 input.2, _))

/-- Along every run that keeps the last report sound, whenever `insert_data` finds aged gaps and sends
no report because it would be the last one again, every number in the list has been named in a report
on the wire since it went missing. -/
theorem suppression_justified (P : Primitives) (s : Session) (hs : Started P s)
    (inputs : List (Call × Instant)) (hkeeps : Runs.Meets (step P) (KeepsReport P) s inputs) :
    Runs.Meets (Watched.step P) (Watched.Justified P) ⟨s, fun _ => false⟩ inputs := by
  have hstart : Connection.Held (fun _ => false) s.conn := by
    refine ⟨?_, fun n hn => ?_⟩
    · rw [hs.empty.1]
      exact Nat.zero_le _
    · rw [hs.empty.1] at hn
      exact absurd hn (by simp [Receiver.new, names])
  have hlift : Runs.Meets (Watched.step P) (fun w input => KeepsReport P w.session input)
      ⟨s, fun _ => false⟩ inputs := .lift Watched.session (fun _ _ => rfl) hkeeps
  refine @Runs.Meets.along _ _ _ _ (fun w : Watched => Connection.Held w.named w.session.conn) _ ?_ ?_ _ _
    hstart hlift
  · intro w input hheld hkeep
    exact (hheld.perform input.1 hkeep.1 hkeep.2).2.drained
  · intro w input hheld hkeep
    exact (hheld.perform input.1 hkeep.1 hkeep.2).1

/-! ## Sample runs -/

/-- A drop request for a number that is behind the ACK point of a fresh receiver. -/
def staleDropReq : Call :=
  let last := SeqNumber.new 0x7FFFFFFF
  .feedRecvBuf ((encodeControl ⟨2⟩ ⟨0⟩ (.dropReq 1 last last)).getD [])

/-- The gap at 1 is reported, and not reported again when 3 arrives. -/
def reportedGap : List (Call × Instant) :=
  [(plainData 0 .single, 0), (plainData 2 .single, 0), (staleDropReq, 0), (plainData 3 .single, 0)]

theorem suppression_justified_gap :
    (∃ x ∈ ((Runs.run (step Primitives.absent) plainAcceptor reportedGap.dropLast).conn.handed Primitives.absent
        (plainData 3 .single) 0).head?, ∃ d ∈ x.1.beforeReport Primitives.absent x.2 0, d.Suppresses) ∧
      Runs.Meets (Watched.step Primitives.absent) (Watched.Justified Primitives.absent)
        ⟨plainAcceptor, fun _ => false⟩ reportedGap :=
  ⟨by decide +kernel, suppression_justified Primitives.absent plainAcceptor plainAcceptor_started reportedGap
    (by decide +kernel)⟩

/-- Reordering has raised the tolerance when 3 goes missing, and the drop request lists it before it
has aged. -/
def unreportedGap : List (Call × Instant) :=
  [(plainData 2 .single, 0), (plainData 0 .single, 0), (plainData 1 .single, 0), (plainData 4 .single, 0),
    (staleDropReq, 0)]

/-- When 5 arrives the gap at 3 is not reported, and it never was. -/
theorem suppression_unjustified :
    Started Primitives.absent plainAcceptor ∧ Config.default.validate = .ok () ∧
      Runs.Meets (step Primitives.absent) Legal plainAcceptor
        (unreportedGap ++ [(plainData 5 .single, 0)]) ∧
      ¬ Runs.Meets (Watched.step Primitives.absent) (Watched.Justified Primitives.absent)
        ⟨plainAcceptor, fun _ => false⟩ (unreportedGap ++ [(plainData 5 .single, 0)]) := by
  refine ⟨plainAcceptor_started, by decide +kernel, by decide +kernel, fun h => ?_⟩
  have hlast := ((Runs.meets_append _ _ _).mp h).2.1
  have hthree := hlast.head (SeqNumber.new 3)
  revert hthree
  decide +kernel

end Session

end Srtrust
