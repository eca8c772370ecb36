import Srtrust.Driver.Simulation
import Srtrust.Session.Deadlines

/-! # What the loop waits for

At its `select!` the loop sleeps until a datagram comes, the application moves, or a deadline of its own timer
wheel passes. Where the connection has something left to do by itself, a timer for it is on that wheel, and a
connection that has ended is waited for only while the application has a payload to take. -/
namespace Srtrust
open BigEndian
set_option autoImplicit false

/-! ## A connection that has ended has said so -/

namespace Connection

theorem schedulePacing_terminations (c : Connection) (now : Instant) :
    c.terminations ≤ (c.schedulePacing now).terminations := by
  unfold schedulePacing finishCloseIfDrained
  split
  · split
    · rw [terminations, terminations, finalizeShutdown_events, List.countP_append]
      exact Nat.le_add_right _ _
    · exact le_rfl
  · exact le_rfl

theorem pace_terminations (P : Primitives) (c : Connection) (now : Instant) :
    c.terminations ≤ (c.pace P now).terminations := by
  rcases pace_cases P c now with h | ⟨d, hd, h⟩
  · rw [h]
  · have htally := hd.inner.tallies
    have hended : d.ended = c.ended := by rw [ended, ended, hd.link]
    rw [Tallies, hended] at htally
    have hsame : c.terminations = d.terminations := by omega
    rw [h, hsame]
    exact schedulePacing_terminations d now

end Connection

namespace Session

theorem step_terminations (P : Primitives) (s : Session) (call : Call) (now : Instant) :
    (s.step P (call, now)).terminations = s.polled.countP Event.isTermination
      + ((s.conn.polledBy call).countP Event.isTermination + (s.conn.perform P call now).terminations) := by
  simp [terminations, pushed, step, settle, Connection.terminations, List.countP_append]

theorem step_ended (P : Primitives) {s : Session} (h : s.conn.ended ≤ s.terminations) (call : Call) (now : Instant) :
    (s.step P (call, now)).conn.ended ≤ (s.step P (call, now)).terminations := by
  have hbefore : s.terminations = s.polled.countP Event.isTermination + s.conn.terminations := by
    simp [terminations, pushed, Connection.terminations, List.countP_append]
  change (s.conn.perform P call now).ended ≤ _
  rw [step_terminations]
  by_cases hpoll : call = .pollEvent
  · subst hpoll
    have hsplit : s.conn.terminations = (s.conn.events.take 1).countP Event.isTermination
        + (s.conn.perform P .pollEvent now).terminations := by
      change _ = _ + (s.conn.events.drop 1).countP Event.isTermination
      rw [Connection.terminations, ← List.countP_append, List.take_append_drop]
    have hkeep : (s.conn.perform P .pollEvent now).ended = s.conn.ended := rfl
    rw [hkeep, Connection.polledBy]
    omega
  have hnone : s.conn.polledBy call = [] := by
    cases call with
    | pollEvent => exact absurd rfl hpoll
    | _ => rfl
  rw [hnone, List.countP_nil]
  by_cases hpace : call = .handleTimer .sndPacing ∧ s.conn.link.state = .failed
  · -- a pacing timer that outlives its connection: the end has been reported before
    obtain ⟨rfl, hfailed⟩ := hpace
    have hmore : s.conn.terminations ≤ (s.conn.perform P (.handleTimer .sndPacing) now).terminations :=
      Connection.pace_terminations P s.conn now
    have hended : s.conn.ended = 1 := if_pos hfailed
    have hle : (s.conn.perform P (.handleTimer .sndPacing) now).ended ≤ 1 := by
      unfold Connection.ended
      split <;> simp
    omega
  · have htally := Connection.perform_tally P s.conn call now hpoll fun hcall hfailed => hpace ⟨hcall, hfailed⟩
    omega

/-- The terminal state is entered with an event. -/
theorem Reached.said_ended {P : Primitives} {s : Session} (h : s.Reached P) (hs : s.conn.link.state = .failed) :
    0 < s.terminations := by
  have hone : s.conn.ended ≤ s.terminations := by
    obtain ⟨s₀, inputs, h₀, rfl⟩ := h
    refine @Runs.invariant _ _ _ (fun _ _ => True) (fun s : Session => s.conn.ended ≤ s.terminations) ?_ s₀ inputs
      (by rw [h₀.live.2]; exact Nat.zero_le _) (Runs.meets_of_forall (fun _ _ => trivial) _ _)
    exact fun s input hs _ => step_ended P hs input.1 input.2
  rw [Connection.ended, if_pos hs] at hone
  exact hone

end Session

namespace Driver.Loop
open Channels

/-! ## Between the phases -/

/-- The loop goes on only while no termination has been polled. At its `select!` the outputs left are datagrams,
and events are left only behind a parked payload. -/
structure Rests (l : Loop) : Prop where
  polled : l.phase ≠ .stopped → l.polled.countP Event.isTermination = 0
  wheel : l.phase = .select → ∀ t, l.conn.wheelAfter l.timers t = l.timers
  parked : l.phase = .select → l.conn.events ≠ [] → l.pendingData.isSome

namespace Rests

variable {P : Primitives} {l : Loop}

/-- Past the `select!` only the polled events matter. -/
theorem moved {l' : Loop} (h : Rests l) (hphase : l.phase ≠ .stopped) (hleft : l'.phase ≠ .select)
    (hpolled : l'.polled = l.polled) : Rests l' :=
  ⟨fun _ => hpolled ▸ h.polled hphase, fun hs => absurd hs hleft, fun hs => absurd hs hleft⟩

theorem polled_foldl {α : Type} (f : Loop → α → Loop) (hf : ∀ l x, (f l x).polled = l.polled) (xs : List α) (l : Loop) :
    (xs.foldl f l).polled = l.polled := by
  induction xs generalizing l with
  | nil => rfl
  | cons x xs ih => exact (ih (f l x)).trans (hf l x)

theorem runCommands_polled (now : Instant) (commands : List Command) (l : Loop) :
    (runCommands P now commands l).polled = l.polled := by
  induction commands generalizing l with
  | nil => rfl
  | cons command rest ih =>
    cases command with
    | send payload => exact (ih _).trans (polled_call P l _ (by simp))
    | stats => exact ih l
    | close => exact polled_call P l now (by simp)

theorem iterate (h : Rests l) (hphase : l.phase = .top) (now : Instant) (due : List TimerId) (sending : Sending)
    (world : ℕ → Turn) : Rests (l.iterate P now due sending world) := by
  have hfired : (due.foldl (fire P now) l).polled = l.polled :=
    polled_foldl (fire P now) (fun l id => polled_call P _ now (by simp)) due l
  unfold Loop.iterate
  generalize due.foldl (fire P now) l = fired at hfired ⊢
  obtain ⟨hconn, htimers, hpolled, -, -⟩ := fired.drainOutputs_frame now sending
  generalize fired.drainOutputs now sending = drained at hconn htimers hpolled ⊢
  have hnone : drained.1.polled.countP Event.isTermination = 0 := by
    rw [hpolled, hfired]
    exact h.polled (by rw [hphase]; simp)
  dsimp only
  split
  · exact ⟨fun hp => absurd rfl hp, fun hs => (by cases hs), fun hs => (by cases hs)⟩
  · have hevents := drainEvents_drained P drained.1 now world
    generalize drained.1.drainEvents P now world = handed at hevents ⊢
    have hgoing : (if handed.2 = true then Phase.stopped else Phase.select) ≠ .stopped → handed.2 = false := by
      cases handed.2 <;> simp
    have hselect : (if handed.2 = true then Phase.stopped else Phase.select) = .select → handed.2 = false := by
      cases handed.2 <;> simp
    refine ⟨fun hp => ?_, fun _ t => ?_, fun hs => hevents.parked (hselect hs)⟩
    · exact (hevents.polled (hgoing hp)).trans hnone
    · change handed.1.conn.wheelAfter handed.1.timers t = handed.1.timers
      rw [hevents.timers, hevents.wheel, Connection.wheelAfter, hconn]
      rfl

theorem select (h : Rests l) (hphase : l.phase = .select) (arm : Arm) : Rests (l.select P arm) := by
  have hrunning : l.phase ≠ .stopped := by
    rw [hphase]
    simp
  cases arm with
  | received buf len stride now =>
    refine h.moved hrunning (by simp [Loop.select]) ?_
    exact polled_foldl (feed P now) (fun l d => polled_call P l _ (by simp)) _ l
  | receiveFailed => exact h.moved hrunning (by simp [Loop.select]) rfl
  | datagram bytes arrival => exact h.moved hrunning (by simp [Loop.select]) (polled_call P l arrival (by simp))
  | dropped => exact h.moved hrunning (by simp [Loop.select]) rfl
  | wake => exact h.moved hrunning (by simp [Loop.select]) rfl
  | reserve =>
    refine h.moved hrunning (by simp [Loop.select]) ?_
    exact @reserve_rule (fun l' => l'.polled = l.polled)
      (fun l' payload _ hq => (offer_frame l' payload).2.2.1.trans hq) l rfl
  | command now =>
    refine h.moved hrunning (by simp [Loop.select]) ?_
    change (l.onCommand P now).polled = l.polled
    unfold onCommand
    split
    · exact polled_call P l now (by simp)
    · exact runCommands_polled now _ l

theorem step (h : Rests l) (move : Move) : Rests (l.step P move) := by
  cases move with
  | iterate now due sending world =>
    unfold Loop.step
    dsimp only
    split
    · next hphase => exact h.iterate hphase now due sending world
    · exact h
  | select arm =>
    unfold Loop.step
    dsimp only
    split
    · next hready => exact h.select hready.1 arm
    · exact h
  | request command =>
    unfold Loop.step
    dsimp only
    split
    · exact ⟨h.polled, h.wheel, h.parked⟩
    · exact h
  | hangUp => exact ⟨h.polled, h.wheel, h.parked⟩
  | read => exact ⟨h.polled, h.wheel, h.parked⟩
  | dropReader => exact ⟨h.polled, h.wheel, h.parked⟩

theorem start (c : Connection) (owned connected : Bool) (capacity : ℕ) :
    Rests (Loop.start c owned connected capacity) :=
  ⟨fun _ => rfl, fun hs => (by cases hs), fun hs => (by cases hs)⟩

end Rests

/-! ## No wait in vain -/

/-- What ends the loop's wait. While the handshake or the connection is under way it is a timer for everything the
connection has to do by itself; events, the last of them included, wait only for the application to take a
payload. -/
structure Watched (l : Loop) : Prop where
  dialling : ¬ l.conn.Established → .panicked ∉ l.conn.trace → (l.timers .handshake).isSome
  phase : l.conn.link.state = .connected → ∀ id ∈ Connection.phaseTimers, (l.timers id).isSome
  exp : l.conn.link.state = .connected → l.conn.tx.sendBuffer.isEmpty = false → (l.timers .exp).isSome
  pacing : l.conn.link.state = .connected → l.conn.tx.sendQueue ≠ [] → (l.timers .sndPacing).isSome
  linger : l.conn.link.state = .connected → l.conn.link.closing = true → (l.timers .linger).isSome
  tsbpd : l.conn.link.state = .connected → l.conn.rx.recvBuffer.peek.isSome → (l.timers .tsbpd).isSome
  events : l.conn.events ≠ [] → l.pendingData.isSome
  ended : l.conn.link.state = .failed → l.pendingData.isSome

/-- The loop never waits in vain: whenever it comes to its `select!`, in any run, its own timer wheel has a deadline
for everything the connection has left to do. -/
theorem select_watched (P : Primitives) (c : Connection) (now : Instant) (hs : Session.Started P (.start c now))
    (owned connected : Bool) (capacity : ℕ) (moves : List Move)
    (hphase : (Runs.run (step P) (start c owned connected capacity) moves).phase = .select) :
    (Runs.run (step P) (start c owned connected capacity) moves).Watched := by
  obtain ⟨inputs, hfollows, -⟩ := (Follows.start hs owned connected capacity).run moves id
  have hrests : Rests (Runs.run (step P) (start c owned connected capacity) moves) :=
    Runs.invariant (fun _ move h _ => h.step move) (.start c owned connected capacity)
      (Runs.meets_of_forall (fun _ _ => trivial) _ moves)
  have hvigilant : (Runs.run (Session.step P) (.start c now) inputs).Vigilant :=
    Runs.invariant (fun _ input h _ => h.step P input) hs.vigilant (Runs.meets_of_forall (fun _ _ => trivial) _ inputs)
  have hdialling := Session.dialling_armed P hs inputs
  generalize Runs.run (step P) (start c owned connected capacity) moves = l at hphase hfollows hrests ⊢
  generalize Runs.run (Session.step P) (.start c now) inputs = s at hfollows hvigilant hdialling
  have hsame := hfollows.embodies.conn
  have hlink : l.conn.link = s.conn.link := by rw [← hsame]
  have htx : l.conn.tx = s.conn.tx := by rw [← hsame]
  have hrx : l.conn.rx = s.conn.rx := by rw [← hsame]
  have htrace : l.conn.trace = s.conn.trace := by rw [← hsame]
  have hwheel : ∀ id, (s.wheel id).isSome → (l.timers id).isSome := by
    intro id harmed
    have hsome := hfollows.armed id now harmed
    rw [← Connection.wheelAfter, hrests.wheel hphase now] at hsome
    exact hsome
  have harmed : l.conn.link.state = .connected → ∀ id, s.conn.Awaits id → (l.timers id).isSome := by
    intro hup id ha
    have hsome := (hvigilant.alert (hlink ▸ hup)).armed id (by simp) ha
    rw [Connection.wheelAfter, hvigilant.drained, Wheel.applyAll_nil] at hsome
    exact hwheel id hsome
  have hended : l.conn.link.state = .failed → l.conn.events ≠ [] := by
    intro hfailed hnone
    have hsaid := hfollows.reached.said_ended (hlink ▸ hfailed)
    have hevents : s.conn.events = [] := by
      rw [← hsame]
      exact hnone
    rw [Session.terminations, Session.pushed, hevents, List.append_nil, ← hfollows.polled,
      hrests.polled (by rw [hphase]; simp)] at hsaid
    exact absurd hsaid (lt_irrefl 0)
  refine ⟨fun hn hfine => ?_, fun hup id hid => ?_, fun hup hfull => ?_, fun hup hqueue => ?_, fun hup hclose => ?_,
    fun hup hpeek => ?_, hrests.parked hphase, fun hfailed => hrests.parked hphase (hended hfailed)⟩
  · rw [Connection.Established, hlink] at hn
    exact hwheel .handshake (hdialling hn (htrace ▸ hfine))
  · refine harmed hup id ?_
    fin_cases hid <;> trivial
  · exact harmed hup .exp ((Connection.awaits_exp_iff _).mpr (htx ▸ hfull))
  · rw [htx] at hqueue
    exact harmed hup .sndPacing hqueue
  · have hclosing : s.conn.link.closing = true := hlink ▸ hclose
    exact harmed hup .linger hclosing
  · obtain ⟨⟨seq, timestamp⟩, hpeek⟩ := Option.isSome_iff_exists.mp (hrx ▸ hpeek)
    obtain ⟨t, -, ht⟩ := (hvigilant.alert (hlink ▸ hup)).playout (by simp) seq timestamp hpeek
    rw [Connection.wheelAfter, hvigilant.drained, Wheel.applyAll_nil] at ht
    exact hwheel .tsbpd (by rw [ht]; rfl)

theorem select_watched_burst :
    (Runs.run (step Primitives.absent) (start plainConnection false false 4) burst).conn.link.closing = true ∧
      (Runs.run (step Primitives.absent) (start plainConnection false false 4) burst).conn.tx.sendBuffer.isEmpty
        = false ∧
      (Runs.run (step Primitives.absent) (start plainConnection false false 4) burst).Watched :=
  ⟨by decide +kernel, by decide +kernel, select_watched Primitives.absent plainConnection 0 plainConnection_started
    false false 4 burst (by decide +kernel)⟩

end Driver.Loop

end Srtrust
