import Srtrust.Driver.Loop
import Srtrust.Session.Alarms
import Srtrust.Session.Authenticity
import Srtrust.Session.Termination

/-! # Events on their way to the application (`drain_events`)

The loop polls the connection's events and puts each payload into the application's data channel. It never
waits for room: a payload the channel cannot take is parked, and no event is polled until the parked payload is
handed over, by the next drain or by the `reserve` arm. The application reads whenever it likes, also while the
loop is in the middle of a drain. -/
namespace Srtrust.Driver.Loop
open BigEndian Channels
set_option autoImplicit false

/-! ## One event -/

/-- The next event, polled and handled. -/
def hand (P : Primitives) (l : Loop) (now : Instant) (turn : Turn) (event : Event) : Loop :=
  ({ l.call P .pollEvent now with
      data := Channel.recvMany turn.reads (l.call P .pollEvent now).data }.handle P now turn event).1

/-- What has been put into the data channel, and then what is parked. -/
def held (l : Loop) : List Bytes := l.data.put ++ l.pendingData.toList

theorem polled_call (P : Primitives) (l : Loop) {call : Call} (now : Instant) (h : call ≠ .pollEvent) :
    (l.call P call now).polled = l.polled := by
  cases call with
  | pollEvent => exact absurd rfl h
  | _ => exact List.append_nil _

theorem polled_pollEvent (P : Primitives) {l : Loop} {event : Event} {rest : List Event}
    (h : l.conn.events = event :: rest) (now : Instant) :
    (l.call P .pollEvent now).polled = l.polled ++ [event] := by
  change l.polled ++ l.conn.events.take 1 = _
  rw [h]
  rfl

theorem messages_concat (events : List Event) (event : Event) :
    messages (events ++ [event]) = messages events ++ event.message.toList := by
  rw [messages, messages, List.filterMap_append]
  cases event <;> rfl

theorem offer_frame (l : Loop) (payload : Bytes) : (l.offer payload).1.conn = l.conn
    ∧ (l.offer payload).1.timers = l.timers ∧ (l.offer payload).1.polled = l.polled
    ∧ (l.offer payload).1.unread = l.unread := by
  unfold offer
  split
  · exact ⟨rfl, rfl, rfl, rfl⟩
  · split <;> exact ⟨rfl, rfl, rfl, rfl⟩

/-- An offered payload is put or parked, or nobody would read it. -/
theorem offer_held (l : Loop) (payload : Bytes) :
    (l.offer payload).1.held = l.data.put ++ if l.unread then [] else [payload] := by
  unfold offer held
  by_cases hunread : l.unread
  · rw [if_pos hunread, if_pos hunread]
    rfl
  · rw [if_neg hunread, if_neg hunread]
    cases hsend : l.data.trySend payload with
    | some data => exact (List.append_nil _).trans (Channel.put_trySend hsend)
    | none => rfl

/-- The drain goes on with nothing parked, or pauses with the payload parked. -/
theorem offer_cases (l : Loop) (payload : Bytes) :
    ((l.offer payload).2 = none ∧ (l.offer payload).1.pendingData = none)
      ∨ ((l.offer payload).2 = some false ∧ (l.offer payload).1.pendingData.isSome) := by
  unfold offer
  split
  · exact .inl ⟨rfl, rfl⟩
  · split
    · exact .inl ⟨rfl, rfl⟩
    · exact .inr ⟨rfl, rfl⟩

theorem signal_held (l : Loop) (result : Except ConnectionError Unit) :
    (l.signal result).held = l.held ∧ (l.signal result).pendingData = l.pendingData := by
  unfold signal
  split <;> exact ⟨rfl, rfl⟩

/-- Handing on an event leaves the timers and the events behind it alone. -/
structure Passes (l l' : Loop) : Prop where
  timers : l'.timers = l.timers
  wheel : ∀ w t, l'.conn.wheelAfter w t = l.conn.wheelAfter w t
  events : l'.conn.events = l.conn.events
  polled : l'.polled = l.polled
  unread : l'.unread = l.unread

theorem signal_passes (l : Loop) (result : Except ConnectionError Unit) : Passes l (l.signal result) := by
  unfold signal
  split <;> exact ⟨rfl, fun _ _ => rfl, rfl, rfl, rfl⟩

theorem handle_passes (P : Primitives) (l : Loop) (now : Instant) (turn : Turn) (event : Event) :
    Passes l (l.handle P now turn event).1 := by
  cases event with
  | connected negotiated => exact signal_passes l _
  | keyRefreshNeeded keySize =>
    have hkey := Connection.provideRekey_keyStep P l.conn (turn.sek keySize).bytes now
    exact ⟨rfl, fun w t => funext fun id => hkey.grows.wheelAfter_eq List.not_mem_nil, hkey.events,
      polled_call P l _ (by simp), rfl⟩
  | dataReceived payload =>
    obtain ⟨hconn, htimers, hpolled, hunread⟩ := offer_frame l payload
    refine ⟨htimers, fun w t => ?_, ?_, hpolled, hunread⟩
    · change (l.offer payload).1.conn.wheelAfter w t = _
      rw [hconn]
    · exact congrArg Connection.events hconn
  | failed reason => exact signal_passes l _
  | closed => exact ⟨rfl, fun _ _ => rfl, rfl, rfl, rfl⟩

section Handling

variable {P : Primitives} {l : Loop} {now : Instant} {turn : Turn} {event : Event}

/-- Of the events, only a message goes into the channel. -/
theorem handle_held (hnone : l.pendingData = none) :
    (l.handle P now turn event).1.held = l.data.put ++ if l.unread then [] else event.message.toList := by
  have hquiet : event.message = none → l.held = l.data.put ++ if l.unread then [] else event.message.toList := by
    intro he
    rw [held, hnone, he]
    cases l.unread <;> rfl
  cases event with
  | connected negotiated => exact (signal_held l _).1.trans (hquiet rfl)
  | keyRefreshNeeded keySize => exact hquiet rfl
  | dataReceived payload => exact offer_held l payload
  | failed reason => exact (signal_held l _).1.trans (hquiet rfl)
  | closed => exact hquiet rfl

/-- The drain goes on with nothing parked; it ends for now at a payload it has to park, and for good at a
termination. -/
theorem handle_cases (hnone : l.pendingData = none) :
    ((l.handle P now turn event).2 = none ∧ event.isTermination = false
        ∧ (l.handle P now turn event).1.pendingData = none)
      ∨ ((l.handle P now turn event).2 = some false ∧ event.isTermination = false
        ∧ (l.handle P now turn event).1.pendingData.isSome)
      ∨ ((l.handle P now turn event).2 = some true ∧ event.isTermination = true
        ∧ (l.handle P now turn event).1.pendingData = none) := by
  cases event with
  | connected negotiated => exact .inl ⟨rfl, rfl, (signal_held l _).2.trans hnone⟩
  | keyRefreshNeeded keySize => exact .inl ⟨rfl, rfl, hnone⟩
  | dataReceived payload =>
    rcases offer_cases l payload with ⟨hgoes, hopen⟩ | ⟨hpauses, hparked⟩
    · exact .inl ⟨hgoes, rfl, hopen⟩
    · exact .inr (.inl ⟨hpauses, rfl, hparked⟩)
  | failed reason => exact .inr (.inr ⟨rfl, rfl, (signal_held l _).2.trans hnone⟩)
  | closed => exact .inr (.inr ⟨rfl, rfl, hnone⟩)

/-- What polling and handling the next event does to the channel. -/
theorem hand_held {rest : List Event} (hevents : l.conn.events = event :: rest) (hnone : l.pendingData = none) :
    (l.hand P now turn event).held = l.data.put ++ (if l.unread then [] else event.message.toList)
      ∧ (l.hand P now turn event).polled = l.polled ++ [event]
      ∧ (l.hand P now turn event).unread = l.unread := by
  have hpolled := polled_pollEvent P hevents now
  unfold hand
  generalize hread : ({ l.call P .pollEvent now with
    data := Channel.recvMany turn.reads (l.call P .pollEvent now).data } : Loop) = read
  have hsame : read.pendingData = none ∧ read.data.put = l.data.put ∧ read.unread = l.unread
      ∧ read.polled = l.polled ++ [event] := by
    rw [← hread]
    exact ⟨hnone, Channel.put_recvMany _ _, rfl, hpolled⟩
  obtain ⟨hparked, hput, hunread, hpolled⟩ := hsame
  have hpasses := handle_passes P read now turn event
  refine ⟨?_, hpasses.polled.trans hpolled, hpasses.unread.trans hunread⟩
  rw [handle_held hparked, hput, hunread]

end Handling

/-! ## A drain -/

section Rules

variable {P : Primitives} {Q : Loop → Prop}

/-- The rule for `drain_events`: what every event keeps, and the offer of a parked payload, it keeps. -/
theorem drainLoop_rule
    (hhand : ∀ l now turn event rest, l.conn.events = event :: rest → l.pendingData = none → Q l →
      Q (hand P l now turn event))
    (now : Instant) (world : ℕ → Turn) (fuel : ℕ) {l : Loop} (hnone : l.pendingData = none) (hq : Q l) :
    Q (drainLoop P now world fuel l).1 := by
  induction fuel generalizing l with
  | zero => exact hq
  | succ fuel ih =>
    unfold drainLoop poll
    cases hevents : l.conn.events with
    | nil => exact hq
    | cons event rest =>
      have hnext := hhand l now (world fuel) event rest hevents hnone hq
      unfold hand at hnext
      dsimp only
      generalize hread : ({ l.call P .pollEvent now with
        data := Channel.recvMany (world fuel).reads (l.call P .pollEvent now).data } : Loop) = read at hnext ⊢
      have hparked : read.pendingData = none := by
        rw [← hread]
        exact hnone
      have hcases := @handle_cases P read now (world fuel) event hparked
      generalize read.handle P now (world fuel) event = handled at hnext hcases ⊢
      obtain ⟨l', result⟩ := handled
      dsimp only at hcases
      rcases hcases with ⟨rfl, -, hopen⟩ | ⟨rfl, -⟩ | ⟨rfl, -⟩
      · exact ih hopen hnext
      · exact hnext
      · exact hnext

theorem drainEvents_rule
    (hhand : ∀ l now turn event rest, l.conn.events = event :: rest → l.pendingData = none → Q l →
      Q (hand P l now turn event))
    (hoffer : ∀ l payload, l.pendingData = some payload → Q l → Q (offer l payload).1)
    (now : Instant) (world : ℕ → Turn) {l : Loop} (hq : Q l) : Q (l.drainEvents P now world).1 := by
  unfold drainEvents
  cases hparked : l.pendingData with
  | none => exact drainLoop_rule hhand now world _ hparked hq
  | some payload =>
    have hnext := hoffer l payload hparked hq
    have hcases := offer_cases l payload
    dsimp only
    generalize l.offer payload = offered at hnext hcases ⊢
    obtain ⟨l', result⟩ := offered
    dsimp only at hcases
    rcases hcases with ⟨rfl, hopen⟩ | ⟨rfl, -⟩
    · exact drainLoop_rule hhand now world _ hopen hnext
    · exact hnext

theorem reserve_rule (hoffer : ∀ l payload, l.pendingData = some payload → Q l → Q (offer l payload).1) {l : Loop}
    (hq : Q l) : Q l.reserve := by
  unfold reserve
  cases hparked : l.pendingData with
  | none => exact hq
  | some payload => exact hoffer l payload hparked hq

end Rules

/-- What a drain of the events leaves: the timers as they were, and events only behind a parked payload. It is
told to stop by a termination, with nothing parked. -/
structure Drained (l l' : Loop) (stop : Bool) : Prop where
  timers : l'.timers = l.timers
  wheel : ∀ w t, l'.conn.wheelAfter w t = l.conn.wheelAfter w t
  parked : stop = false → l'.conn.events ≠ [] → l'.pendingData.isSome
  polled : stop = false → l'.polled.countP Event.isTermination = l.polled.countP Event.isTermination
  stops : stop = true → l'.pendingData = none ∧
    ∃ before event, event.isTermination = true ∧ l'.polled = before ++ [event]

theorem drainLoop_drained (P : Primitives) (now : Instant) (world : ℕ → Turn) (fuel : ℕ) {l : Loop}
    (hnone : l.pendingData = none) (hfuel : l.conn.events.length ≤ fuel) :
    Drained l (drainLoop P now world fuel l).1 (drainLoop P now world fuel l).2 := by
  induction fuel generalizing l with
  | zero =>
    have hevents := List.length_eq_zero_iff.mp (Nat.le_zero.mp hfuel)
    exact ⟨rfl, fun _ _ => rfl, fun _ hne => absurd hevents hne, fun _ => rfl, fun h => Bool.noConfusion h⟩
  | succ fuel ih =>
    unfold drainLoop poll
    cases hevents : l.conn.events with
    | nil => exact ⟨rfl, fun _ _ => rfl, fun _ hne => absurd hevents hne, fun _ => rfl, fun h => Bool.noConfusion h⟩
    | cons event rest =>
      have hread : ∃ read : Loop, read = { l.call P .pollEvent now with
            data := Channel.recvMany (world fuel).reads (l.call P .pollEvent now).data }
          ∧ read.timers = l.timers ∧ (∀ w t, read.conn.wheelAfter w t = l.conn.wheelAfter w t)
          ∧ read.conn.events = rest ∧ read.polled = l.polled ++ [event] ∧ read.pendingData = none := by
        refine ⟨_, rfl, rfl, fun _ _ => rfl, ?_, polled_pollEvent P hevents now, hnone⟩
        exact congrArg (List.drop 1) hevents
      obtain ⟨read, heq, htimers, hwheel, hrest, hpolled, hparked⟩ := hread
      dsimp only
      rw [← heq]
      have hpasses := handle_passes P read now (world fuel) event
      have hcases := @handle_cases P read now (world fuel) event hparked
      generalize read.handle P now (world fuel) event = handled at hpasses hcases ⊢
      obtain ⟨l', result⟩ := handled
      have hcount : event.isTermination = false →
          l'.polled.countP Event.isTermination = l.polled.countP Event.isTermination := by
        intro hgoing
        rw [hpasses.polled, hpolled, List.countP_append]
        simp [hgoing]
      dsimp only at hcases
      rcases hcases with ⟨rfl, hgoing, hopen⟩ | ⟨rfl, hgoing, hsome⟩ | ⟨rfl, hfinal, hleft⟩
      · have hlength : l'.conn.events.length ≤ fuel := by
          rw [hpasses.events, hrest]
          rw [hevents] at hfuel
          exact Nat.le_of_succ_le_succ hfuel
        have hdrained := ih hopen hlength
        dsimp only
        refine ⟨hdrained.timers.trans (hpasses.timers.trans htimers), fun w t => ?_, hdrained.parked, fun hstop => ?_,
          hdrained.stops⟩
        · rw [hdrained.wheel, hpasses.wheel, hwheel]
        · exact (hdrained.polled hstop).trans (hcount hgoing)
      · exact ⟨hpasses.timers.trans htimers, fun w t => (hpasses.wheel w t).trans (hwheel w t), fun _ _ => hsome,
          fun _ => hcount hgoing, fun h => Bool.noConfusion h⟩
      · exact ⟨hpasses.timers.trans htimers, fun w t => (hpasses.wheel w t).trans (hwheel w t),
          fun h => Bool.noConfusion h, fun h => Bool.noConfusion h,
          fun _ => ⟨hleft, l.polled, event, hfinal, hpasses.polled.trans hpolled⟩⟩

theorem drainEvents_drained (P : Primitives) (l : Loop) (now : Instant) (world : ℕ → Turn) :
    Drained l (l.drainEvents P now world).1 (l.drainEvents P now world).2 := by
  unfold drainEvents
  cases hparked : l.pendingData with
  | none => exact drainLoop_drained P now world _ hparked le_rfl
  | some payload =>
    obtain ⟨hconn, htimers, hpolled, -⟩ := offer_frame l payload
    have hcases := offer_cases l payload
    dsimp only
    generalize l.offer payload = offered at hconn htimers hpolled hcases ⊢
    obtain ⟨l', result⟩ := offered
    have hwheel : ∀ w t, l'.conn.wheelAfter w t = l.conn.wheelAfter w t := by
      intro w t
      rw [show l'.conn = l.conn from hconn]
    dsimp only at hcases
    rcases hcases with ⟨rfl, hopen⟩ | ⟨rfl, hsome⟩
    · have hdrained := drainLoop_drained P now world l'.conn.events.length hopen le_rfl
      dsimp only
      refine ⟨hdrained.timers.trans htimers, fun w t => (hdrained.wheel w t).trans (hwheel w t), hdrained.parked,
        fun hstop => ?_, hdrained.stops⟩
      exact (hdrained.polled hstop).trans (congrArg (List.countP _) hpolled)
    · exact ⟨htimers, hwheel, fun _ _ => hsome, fun _ => congrArg (List.countP _) hpolled,
        fun h => Bool.noConfusion h⟩

/-! ## An application that reads -/

/-- The channel and the parked payload hold what was polled. -/
structure Kept (l : Loop) : Prop where
  read : l.unread = false
  held : l.held = messages l.polled

namespace Kept

variable {l : Loop}

theorem congr (h : l.Kept) {l' : Loop} (hput : l'.data.put = l.data.put) (hparked : l'.pendingData = l.pendingData)
    (hpolled : l'.polled = l.polled) (hunread : l'.unread = l.unread) : l'.Kept := by
  refine ⟨hunread.trans h.read, ?_⟩
  rw [Loop.held, hput, hparked, hpolled]
  exact h.held

theorem hand {P : Primitives} (h : l.Kept) {now : Instant} {turn : Turn} {event : Event} {rest : List Event}
    (hevents : l.conn.events = event :: rest) (hnone : l.pendingData = none) : (l.hand P now turn event).Kept := by
  obtain ⟨hheld, hpolled, hunread⟩ := @hand_held P l now turn event rest hevents hnone
  have hput := h.held
  rw [Loop.held, hnone, Option.toList_none, List.append_nil] at hput
  refine ⟨hunread.trans h.read, ?_⟩
  rw [hheld, hpolled, h.read, if_neg (by simp), hput, messages_concat]

theorem offer (h : l.Kept) {payload : Bytes} (hparked : l.pendingData = some payload) :
    (l.offer payload).1.Kept := by
  obtain ⟨-, -, hpolled, hunread⟩ := offer_frame l payload
  have hheld := h.held
  rw [Loop.held, hparked] at hheld
  refine ⟨hunread.trans h.read, ?_⟩
  rw [offer_held, hpolled, h.read, if_neg (by simp)]
  exact hheld

theorem drainEvents (P : Primitives) (h : l.Kept) (now : Instant) (world : ℕ → Turn) :
    (l.drainEvents P now world).1.Kept :=
  drainEvents_rule (fun _ _ _ _ _ hevents hnone hq => hq.hand hevents hnone)
    (fun _ _ hparked hq => hq.offer hparked) now world h

end Kept

end Srtrust.Driver.Loop

namespace Srtrust.Driver.Handover
open BigEndian Channels Loop
set_option autoImplicit false

/-! ## Interleavings -/

/-- The moves of a driver, in any order, and of an application that keeps its reader. Events are polled by
`drain_events` only. -/
inductive Move
  | call (call : Call) (h : call ≠ .pollEvent) (now : Instant)
  | outputs (now : Instant) (sending : Sending)
  | drain (world : ℕ → Turn) (now : Instant)
  | reserve
  | read

def step (P : Primitives) (l : Loop) : Move → Loop
  | .read => { l with data := l.data.recv }
  | .call call _ now => if l.phase = .stopped then l else l.call P call now
  | .reserve => if l.phase = .stopped then l else l.reserve
  | .outputs now sending =>
    if l.phase = .stopped then l
    else
      let drained := l.drainOutputs now sending
      { drained.1 with phase := if drained.2 then .stopped else l.phase }
  | .drain world now =>
    if l.phase = .stopped then l
    else
      let drained := l.drainEvents P now world
      { drained.1 with phase := if drained.2 then .stopped else l.phase }

theorem step_kept (P : Primitives) {l : Loop} (h : l.Kept) (move : Move) : (step P l move).Kept := by
  cases move with
  | read => exact h.congr (Channel.put_recv l.data) rfl rfl rfl
  | call call hcall now =>
    rw [step]
    split
    · exact h
    · exact h.congr rfl rfl (polled_call P l now hcall) rfl
  | reserve =>
    rw [step]
    split
    · exact h
    · exact reserve_rule (fun _ _ hparked hq => hq.offer hparked) h
  | outputs now sending =>
    rw [step]
    split
    · exact h
    · unfold drainOutputs
      cases sending.failsAfter <;> exact h.congr rfl rfl rfl rfl
  | drain world now =>
    rw [step]
    split
    · exact h
    · exact (h.drainEvents P now world).congr rfl rfl rfl rfl

/-- The hand-over keeps order and loses nothing, for every interleaving of the driver and the application. What
was put into the channel and then the parked payload are the payloads polled so far; a drain that reports
termination has just polled a final event, and has put every payload polled before into the channel; one that
does not has parked a payload or polled every event. -/
theorem events_handed_over (P : Primitives) (c : Connection) (owned connected : Bool) (capacity : ℕ)
    (moves : List Move) (l : Loop) (hl : l = Runs.run (step P) (start c owned connected capacity) moves) :
    l.data.put ++ l.pendingData.toList = messages l.polled
    ∧ ∀ (world : ℕ → Turn) (now : Instant) (l' : Loop) (stop : Bool), l.drainEvents P now world = (l', stop) →
      l'.data.put ++ l'.pendingData.toList = messages l'.polled
      ∧ (stop = true → ∃ before event, event.isTermination = true ∧ l'.polled = before ++ [event]
        ∧ l'.data.put = messages before)
      ∧ (stop = false → l'.pendingData.isSome ∨ l'.conn.events = []) := by
  have hkept : l.Kept := by
    have hstart : (start c owned connected capacity).Kept := ⟨rfl, rfl⟩
    rw [hl]
    exact @Runs.invariant _ _ _ (fun _ _ => True) Kept (fun _ move h _ => step_kept P h move) _ moves hstart
      (Runs.meets_of_forall (fun _ _ => trivial) _ moves)
  refine ⟨hkept.held, fun world now l' stop hdrain => ?_⟩
  have hafter := hkept.drainEvents P now world
  have hdrained := drainEvents_drained P l now world
  rw [hdrain] at hafter hdrained
  refine ⟨hafter.held, fun hstop => ?_, fun hstop => ?_⟩
  · obtain ⟨hnone, before, event, hfinal, hpolled⟩ := hdrained.stops hstop
    refine ⟨before, event, hfinal, hpolled, ?_⟩
    have hquiet : event.message = none := by
      cases event <;> first | rfl | cases hfinal
    have hput := hafter.held
    rw [Loop.held, hnone, hpolled, messages_concat, hquiet] at hput
    simpa using hput
  · by_cases hevents : l'.conn.events = []
    · exact .inr hevents
    · exact .inl (hdrained.parked hstop hevents)

/-- Three messages arrive and become due; then the driver drains into a channel for one payload. -/
def crowded : List Move :=
  [.call (Session.flaggedData 0 .none [1]) (by decide) 0, .call (Session.flaggedData 1 .none [2]) (by decide) 0,
    .call (Session.flaggedData 2 .none [3]) (by decide) 0, .call (.handleTimer .tsbpd) (by decide) 120000000,
    .outputs 120000000 ⟨8, none⟩, .drain (fun _ => ⟨0, fun n => Block.zero n⟩) 120000000]

/-- The first message is in the channel, the second is parked, and the third stays in the connection. -/
theorem events_handed_over_crowded :
    (Runs.run (step Primitives.absent) (start Session.plainAcceptor.conn false false 1) crowded).pendingData
      = some [2]
    ∧ (Runs.run (step Primitives.absent) (start Session.plainAcceptor.conn false false 1) crowded).data.put ++ [[2]]
      = messages
        (Runs.run (step Primitives.absent) (start Session.plainAcceptor.conn false false 1) crowded).polled := by
  have hparked : (Runs.run (step Primitives.absent) (start Session.plainAcceptor.conn false false 1)
      crowded).pendingData = some [2] := by
    decide +kernel
  have hput := (events_handed_over Primitives.absent Session.plainAcceptor.conn false false 1 crowded _ rfl).1
  rw [hparked] at hput
  exact ⟨hparked, hput⟩

end Srtrust.Driver.Handover
