import Srtrust.Driver.Handover
import Srtrust.Session.ActionEffects

/-! # The loop as a session

Every move of the loop, the batch of due timers, the drain of events, the arms of the `select!`, amounts to
a list of calls of a session. Each phase is taken apart into calls and changes of the loop's own state; the
simulation is composed from those. -/
namespace Srtrust
open BigEndian
set_option autoImplicit false

/-! ## Datagrams are not empty -/

theorem Packet.encode_ne_nil {packet : Packet} {d : Bytes} (h : packet.encode = some d) : d ≠ [] := by
  rintro rfl
  cases packet with
  | data data =>
    have hlength := congrArg List.length (Option.some.inj h)
    simp [DataPacket.encode] at hlength
  | control ctrl =>
    obtain ⟨cif, -, hwire⟩ := Option.bind_eq_some_iff.mp h
    have hlength := congrArg List.length (Option.some.inj hwire)
    simp at hlength

namespace Session
variable {P : Primitives}

/-- Every datagram of a session is a packet. -/
theorem Reached.encodes {s : Session} (h : s.Reached P) :
    (∀ d ∈ s.emitted, Encodes (fun _ => True) d) ∧ ∀ d, s.conn.Said d → Encodes (fun _ => True) d := by
  obtain ⟨s₀, inputs, h₀, rfl⟩ := h
  have hstart : ∀ d, d ∈ s₀.emitted ∨ s₀.conn.Said d → Encodes (fun _ => True) d :=
    fun d hd => h₀.says (fun _ _ _ => trivial) hd
  have hsaid : ∀ packet, Connection.Act.Keeps P packet (fun c => ∀ d, c.Said d → Encodes (fun _ => True) d) := by
    intro packet c c' hact hq d hd
    rcases hact.says d hd with hold | hnew
    · exact hq d hold
    · exact hnew.mono fun _ _ => trivial
  refine @Runs.invariant _ _ _ (fun _ _ => True) (fun s : Session =>
    (∀ d ∈ s.emitted, Encodes (fun _ => True) d) ∧ ∀ d, s.conn.Said d → Encodes (fun _ => True) d) ?_ s₀ inputs
    ⟨fun d hd => hstart d (.inl hd), fun d hd => hstart d (.inr hd)⟩ (Runs.meets_of_forall (fun _ _ => trivial) _ _)
  intro s input hs _
  refine ⟨fun d hd => ?_, step_keeps (hsaid _) hs.2⟩
  rcases List.mem_append.mp hd with hd | hd
  · exact hs.1 d hd
  · exact (hsaid _).perform input.2 hs.2 d (.inl (mem_datagrams.mp hd))

theorem Reached.emitted_ne_nil {s : Session} (h : s.Reached P) : ∀ d ∈ s.emitted, d ≠ [] := by
  intro d hd
  obtain ⟨packet, -, hencode⟩ := h.encodes.1 d hd
  exact Packet.encode_ne_nil hencode

end Session

namespace Wheel

theorem apply_isSome {w w' : Wheel} {id : TimerId} (h : (w id).isSome → (w' id).isSome) (t t' : Instant)
    (o : Output) : (apply t w o id).isSome → (apply t' w' o id).isSome := by
  cases o with
  | sendDatagram d => exact h
  | setTimer i after =>
    by_cases he : id = i
    · subst he
      simp [apply]
    · simpa [apply, he] using h
  | clearTimer i =>
    by_cases he : id = i
    · subst he
      simp [apply]
    · simpa [apply, he] using h

/-- Whether a timer ends up armed depends on whether it was, not on the times. -/
theorem applyAll_isSome {w w' : Wheel} {id : TimerId} (h : (w id).isSome → (w' id).isSome) (t t' : Instant)
    (os : List Output) : (applyAll t w os id).isSome → (applyAll t' w' os id).isSome := by
  induction os generalizing w w' with
  | nil => exact h
  | cons o os ih => exact ih (apply_isSome h t t' o)

theorem applyAll_set_ne {w : Wheel} {id i : TimerId} (h : i ≠ id) (d : Option Instant) (t : Instant)
    (os : List Output) : (applyAll t (w.set id d) os i).isSome ↔ (applyAll t w os i).isSome := by
  have hsame : w.set id d i = w i := set_ne w d h
  constructor
  · exact applyAll_isSome (fun hs => hsame ▸ hs) t t os
  · exact applyAll_isSome (fun hs => hsame.symm ▸ hs) t t os

/-- A call that spends a timer already off the other wheel as well. -/
theorem fired_isSome {w w' : Wheel} {call : Call} {id : TimerId} {t : Instant} {os : List Output}
    (h : (w id).isSome → (applyAll t w' os id).isSome) :
    (w.fired call id).isSome → (applyAll t (w'.fired call) os id).isSome := by
  cases call with
  | handleTimer spent =>
    intro hs
    by_cases he : id = spent
    · subst he
      simp [fired] at hs
    · rw [fired, set_ne w none he] at hs
      exact (applyAll_set_ne he none t os).mpr (h hs)
  | _ => exact h

end Wheel

namespace Driver.Loop
open Channels

/-- The datagrams that have left the host. -/
def transmitted (l : Loop) : List Bytes := l.wire.flatMap Transmit.split

theorem drainOutputs_frame (l : Loop) (now : Instant) (sending : Sending) :
    (l.drainOutputs now sending).1.conn = { l.conn with outputs := [] }
      ∧ (l.drainOutputs now sending).1.timers = l.timers.applyAll now l.conn.outputs
      ∧ (l.drainOutputs now sending).1.polled = l.polled
      ∧ (l.drainOutputs now sending).1.accepted = l.accepted
      ∧ (l.drainOutputs now sending).1.phase = l.phase
      ∧ (l.drainOutputs now sending).2 = sending.failsAfter.isSome := by
  unfold drainOutputs
  cases sending.failsAfter <;> exact ⟨rfl, rfl, rfl, rfl, rfl, rfl⟩

/-- The loop is at a state of the session, but for the outputs it has not drained; `intact` says that its socket
has never failed. -/
structure Follows (P : Primitives) (intact : Prop) (l : Loop) (s : Session) : Prop where
  reached : s.Reached P
  drained : s.conn.outputs = []
  conn : l.conn = s.conn.defer l.conn.outputs
  polled : l.polled = s.polled
  accepted : l.accepted = s.accepted
  /-- A failed socket ends the loop; nothing is lost before, nor when the loop ends in another way. -/
  wire : ∃ lost, s.emitted = l.transmitted ++ lost ++ Session.datagrams l.conn.outputs
    ∧ (l.phase ≠ .stopped ∨ intact → lost = [])
  armed : ∀ id t, (s.wheel id).isSome → (l.timers.applyAll t l.conn.outputs id).isSome

namespace Follows
variable {P : Primitives} {intact : Prop} {l : Loop} {s : Session}

theorem start {c : Connection} {now : Instant} (h : Session.Started P (.start c now)) (owned connected : Bool)
    (capacity : ℕ) : Follows P intact (Loop.start c owned connected capacity) (.start c now) where
  reached := ⟨_, [], h, rfl⟩
  drained := rfl
  conn := by
    simp [Loop.start, Session.start, Session.settle, Connection.defer]
  polled := rfl
  accepted := rfl
  wire := ⟨[], rfl, fun _ => rfl⟩
  armed id t := Wheel.applyAll_isSome (fun h => h) now t c.outputs

/-- The loop's own state is not the session's. -/
theorem congr (h : Follows P intact l s) {l' : Loop} (hconn : l'.conn = l.conn) (htimers : l'.timers = l.timers)
    (hpolled : l'.polled = l.polled) (haccepted : l'.accepted = l.accepted) (hwire : l'.wire = l.wire)
    (hphase : l'.phase ≠ .stopped → l.phase ≠ .stopped) : Follows P intact l' s := by
  refine ⟨h.reached, h.drained, ?_, hpolled.trans h.polled, haccepted.trans h.accepted, ?_, ?_⟩
  · rw [hconn]
    exact h.conn
  · obtain ⟨lost, hemitted, hlost⟩ := h.wire
    refine ⟨lost, ?_, fun hp => hlost (hp.imp_left hphase)⟩
    rw [transmitted, hwire, hconn]
    exact hemitted
  · rw [hconn, htimers]
    exact h.armed

/-- A call into the connection is the session's call. A timer it fires has been taken off both wheels. -/
theorem call (h : Follows P intact l s) (call : Call) (now : Instant) :
    Follows P intact ({ l with timers := l.timers.fired call }.call P call now) (s.step P (call, now)) := by
  have hperform : l.conn.perform P call now = (s.conn.perform P call now).defer l.conn.outputs := by
    conv_lhs => rw [h.conn]
    exact Connection.perform_defer _ _ P call now
  have hpolled : l.conn.polledBy call = s.conn.polledBy call := by
    rw [h.conn]
    cases call <;> rfl
  have haccepted : l.conn.acceptedBy P call now = s.conn.acceptedBy P call now := by
    rw [h.conn]
    cases call with
    | send payload =>
      have hsend := Connection.send_defer l.conn.outputs s.conn P payload now
      simp only [Connection.acceptedBy, hsend]
      cases s.conn.send P payload now <;> rfl
    | _ => rfl
  have houtputs : (l.conn.perform P call now).outputs = l.conn.outputs ++ (s.conn.perform P call now).outputs := by
    rw [hperform]
    rfl
  refine ⟨h.reached.step _, rfl, ?_, ?_, ?_, ?_, fun id t => ?_⟩
  · change l.conn.perform P call now
      = ({ s.conn.perform P call now with outputs := [] } : Connection).defer (l.conn.perform P call now).outputs
    rw [houtputs, hperform]
    simp [Connection.defer]
  · exact congrArg₂ (· ++ ·) h.polled hpolled
  · exact congrArg₂ (· ++ ·) h.accepted haccepted
  · obtain ⟨lost, hemitted, hlost⟩ := h.wire
    refine ⟨lost, ?_, hlost⟩
    change s.emitted ++ Session.datagrams (s.conn.perform P call now).outputs
      = l.transmitted ++ lost ++ Session.datagrams (l.conn.perform P call now).outputs
    rw [hemitted, houtputs, Session.datagrams, Session.datagrams, Session.datagrams, List.filterMap_append,
      List.append_assoc]
  · change ((s.wheel.fired call).applyAll now (s.conn.perform P call now).outputs id).isSome →
      ((l.timers.fired call).applyAll t (l.conn.perform P call now).outputs id).isSome
    rw [houtputs, Wheel.applyAll_append]
    exact Wheel.applyAll_isSome (Wheel.fired_isSome (h.armed id t)) now t _

/-- Draining the outputs: what the socket has taken has left the host. -/
theorem drainOutputs (h : Follows P intact l s) (hphase : l.phase ≠ .stopped) (now : Instant) (sending : Sending) :
    ∃ lost, s.emitted = (l.drainOutputs now sending).1.transmitted ++ lost
      ∧ (sending.failsAfter = none → lost = []) := by
  obtain ⟨lost, hemitted, hlost⟩ := h.wire
  rw [hlost (.inl hphase), List.append_nil] at hemitted
  have hne : ∀ d ∈ Session.datagrams l.conn.outputs, d ≠ [] := by
    intro d hd
    apply h.reached.emitted_ne_nil d
    rw [hemitted]
    exact List.mem_append_right _ hd
  have hsplit := flushSends_split (Session.datagrams l.conn.outputs) hne sending.maxSegments
  unfold Loop.drainOutputs
  dsimp only
  cases sending.failsAfter with
  | none =>
    refine ⟨[], ?_, fun _ => rfl⟩
    rw [hemitted, List.append_nil]
    simp only [transmitted, List.flatMap_append, hsplit]
  | some n =>
    refine ⟨((flushSends (Session.datagrams l.conn.outputs) sending.maxSegments).drop n).flatMap Transmit.split, ?_,
      fun hfine => by cases hfine⟩
    rw [hemitted]
    simp only [transmitted, List.flatMap_append, List.append_assoc]
    rw [← List.flatMap_append, List.take_append_drop, hsplit]

/-- Drained, the loop is at the session's own state. -/
theorem settled (h : Follows P intact l s) {now : Instant} {l' : Loop}
    (hconn : l'.conn = { l.conn with outputs := [] }) (htimers : l'.timers = l.timers.applyAll now l.conn.outputs)
    (hpolled : l'.polled = l.polled) (haccepted : l'.accepted = l.accepted)
    (hwire : ∃ lost, s.emitted = l'.transmitted ++ lost ∧ (l'.phase ≠ .stopped ∨ intact → lost = [])) :
    Follows P intact l' s := by
  have hsame : l'.conn = s.conn := by
    rw [hconn, h.conn, Connection.defer]
    have hd := h.drained
    cases hs : s.conn
    rw [hs] at hd
    simp only at hd
    subst hd
    rfl
  have hnone : l'.conn.outputs = [] := by rw [hsame, h.drained]
  refine ⟨h.reached, h.drained, ?_, hpolled.trans h.polled, haccepted.trans h.accepted, ?_, fun id t harmed => ?_⟩
  · rw [hnone, hsame]
    rfl
  · obtain ⟨lost, hemitted, hlost⟩ := hwire
    refine ⟨lost, ?_, hlost⟩
    rw [hnone, hemitted]
    exact (List.append_nil _).symm
  · rw [hnone, htimers]
    exact h.armed id now harmed

end Follows

/-! ## Moves as calls -/

/-- The loop follows some calls the session makes from `s`, with the datagrams it hears. -/
def Advances (P : Primitives) (intact : Prop) (hears : Bytes → Prop) (s : Session) (l' : Loop) : Prop :=
  ∃ inputs, Follows P intact l' (Runs.run (Session.step P) s inputs)
    ∧ ∀ d now, (.feedRecvBuf d, now) ∈ inputs → hears d

/-- From one state of the loop to another by calls of the session, within a phase. -/
structure Simulates (P : Primitives) (hears : Bytes → Prop) (l l' : Loop) : Prop where
  phase : l'.phase = l.phase
  advances : ∀ intact s, Follows P intact l s → Advances P intact hears s l'

namespace Simulates
variable {P : Primitives} {hears : Bytes → Prop} {l l' l'' : Loop}

theorem refl (l : Loop) : Simulates P hears l l :=
  ⟨rfl, fun _ _ h => ⟨[], h, fun _ _ hmem => absurd hmem List.not_mem_nil⟩⟩

theorem trans (h : Simulates P hears l l') (h' : Simulates P hears l' l'') : Simulates P hears l l'' := by
  refine ⟨h'.phase.trans h.phase, fun intact s hs => ?_⟩
  obtain ⟨inputs, hfollows, hheard⟩ := h.advances intact s hs
  obtain ⟨inputs', hfollows', hheard'⟩ := h'.advances intact _ hfollows
  refine ⟨inputs ++ inputs', by rw [Runs.run_append]; exact hfollows', fun d now hmem => ?_⟩
  rcases List.mem_append.mp hmem with hmem | hmem
  · exact hheard d now hmem
  · exact hheard' d now hmem

theorem quiet (hconn : l'.conn = l.conn) (htimers : l'.timers = l.timers) (hpolled : l'.polled = l.polled)
    (haccepted : l'.accepted = l.accepted) (hwire : l'.wire = l.wire) (hphase : l'.phase = l.phase) :
    Simulates P hears l l' := by
  refine ⟨hphase, fun _ s h => ⟨[], ?_, fun _ _ hmem => absurd hmem List.not_mem_nil⟩⟩
  exact h.congr hconn htimers hpolled haccepted hwire fun hp => hphase ▸ hp

theorem call (l : Loop) (call : Call) (now : Instant) (hheard : ∀ d, call = .feedRecvBuf d → hears d) :
    Simulates P hears l ({ l with timers := l.timers.fired call }.call P call now) := by
  refine ⟨rfl, fun _ s h => ⟨[(call, now)], h.call call now, fun d t hmem => ?_⟩⟩
  exact hheard d (congrArg Prod.fst (List.mem_singleton.mp hmem)).symm

theorem fires (now : Instant) (due : List TimerId) (l : Loop) :
    Simulates P hears l (due.foldl (fire P now) l) := by
  induction due generalizing l with
  | nil => exact refl l
  | cons id due ih =>
    have hfire : Simulates P hears l (fire P now l id) := call l (.handleTimer id) now (by simp)
    exact hfire.trans (ih (fire P now l id))

theorem feeds (now : Instant) {segments : List Bytes} (hheard : ∀ d ∈ segments, hears d) (l : Loop) :
    Simulates P hears l (segments.foldl (feed P now) l) := by
  induction segments generalizing l with
  | nil => exact refl l
  | cons d segments ih =>
    have hfeed : Simulates P hears l (feed P now l d) := by
      refine call l (.feedRecvBuf d) now fun d' he => ?_
      obtain rfl := Call.feedRecvBuf.inj he
      exact hheard d List.mem_cons_self
    exact hfeed.trans (ih (fun d' hd' => hheard d' (List.mem_cons_of_mem d hd')) (feed P now l d))

theorem signal (l : Loop) (result : Except ConnectionError Unit) : Simulates P hears l (l.signal result) := by
  unfold Loop.signal
  split
  · exact quiet rfl rfl rfl rfl rfl rfl
  · exact refl l

theorem offer (l : Loop) (payload : Bytes) : Simulates P hears l (l.offer payload).1 := by
  unfold Loop.offer
  split
  · exact quiet rfl rfl rfl rfl rfl rfl
  · split <;> exact quiet rfl rfl rfl rfl rfl rfl

theorem handle (l : Loop) (now : Instant) (turn : Turn) (event : Event) :
    Simulates P hears l (l.handle P now turn event).1 := by
  cases event with
  | connected negotiated => exact signal l _
  | keyRefreshNeeded keySize => exact call l (.provideRekey _) now (by simp)
  | dataReceived payload => exact offer l payload
  | failed reason => exact signal l _
  | closed => exact refl l

theorem hand (l : Loop) (now : Instant) (turn : Turn) (event : Event) :
    Simulates P hears l (l.hand P now turn event) := by
  have hpoll : Simulates P hears l (l.call P .pollEvent now) := call l .pollEvent now (by simp)
  unfold Loop.hand
  generalize l.call P .pollEvent now = polled at hpoll ⊢
  have hread : Simulates P hears polled { polled with data := Channel.recvMany turn.reads polled.data } :=
    quiet rfl rfl rfl rfl rfl rfl
  exact (hpoll.trans hread).trans (handle _ now turn event)

theorem drainEvents (l : Loop) (now : Instant) (world : ℕ → Turn) :
    Simulates P hears l (l.drainEvents P now world).1 :=
  drainEvents_rule (fun _ now turn event _ _ _ h => h.trans (hand _ now turn event))
    (fun _ payload _ h => h.trans (offer _ payload)) now world (refl l)

theorem reserve (l : Loop) : Simulates P hears l l.reserve :=
  reserve_rule (fun _ payload _ h => h.trans (offer _ payload)) (refl l)

theorem runCommands (now : Instant) (commands : List Command) (l : Loop) :
    Simulates P hears l (Loop.runCommands P now commands l) := by
  induction commands generalizing l with
  | nil => exact quiet rfl rfl rfl rfl rfl rfl
  | cons command rest ih =>
    cases command with
    | send payload =>
      have hsend : Simulates P hears l (l.call P (.send payload) now) := call l (.send payload) now (by simp)
      exact hsend.trans (ih _)
    | stats => exact ih l
    | close =>
      have hclose : Simulates P hears l (l.call P .close now) := call l .close now (by simp)
      exact hclose.trans (quiet rfl rfl rfl rfl rfl rfl)

theorem onCommand (l : Loop) (now : Instant) : Simulates P hears l (l.onCommand P now) := by
  unfold Loop.onCommand
  split
  · have hclose : Simulates P hears l (l.call P .close now) := call l .close now (by simp)
    exact hclose.trans (quiet rfl rfl rfl rfl rfl rfl)
  · exact runCommands now _ l

/-- A phase may end with the loop in another. -/
theorem enters (h : Simulates P hears l l') (hphase : l.phase ≠ .stopped) (phase : Phase) {intact : Prop}
    {s : Session} (hs : Follows P intact l s) : Advances P intact hears s { l' with phase := phase } := by
  obtain ⟨inputs, hfollows, hheard⟩ := h.advances intact s hs
  refine ⟨inputs, hfollows.congr rfl rfl rfl rfl rfl fun _ => ?_, hheard⟩
  rw [h.phase]
  exact hphase

end Simulates

/-- What a move makes the connection hear. -/
def Move.hears : Move → Bytes → Prop
  | .select (.received buf len stride _), d => d ∈ groSplit buf len stride
  | .select (.datagram bytes _), d => d = bytes
  | _, _ => False

/-- The socket fails in this move. -/
def Move.Fails : Move → Prop
  | .iterate _ _ sending _ => sending.failsAfter ≠ none
  | _ => False

namespace Follows
variable {P : Primitives} {intact : Prop} {l : Loop} {s : Session} {hears : Bytes → Prop}

/-- No call is made. -/
theorem idle (h : Follows P intact l s) {l' : Loop} (hconn : l'.conn = l.conn) (htimers : l'.timers = l.timers)
    (hpolled : l'.polled = l.polled) (haccepted : l'.accepted = l.accepted) (hwire : l'.wire = l.wire)
    (hphase : l'.phase = l.phase) : Advances P intact hears s l' :=
  (Simulates.quiet hconn htimers hpolled haccepted hwire hphase).advances intact s h

theorem iterate (h : Follows P intact l s) (hphase : l.phase = .top) (now : Instant) (due : List TimerId)
    (sending : Sending) (hfine : intact → sending.failsAfter = none) (world : ℕ → Turn) :
    Advances P intact hears s (l.iterate P now due sending world) := by
  have hfires : Simulates P hears l (due.foldl (fire P now) l) := .fires now due l
  have htop := hfires.phase.trans hphase
  obtain ⟨inputs, hfired, hheard⟩ := hfires.advances intact s h
  unfold Loop.iterate
  generalize due.foldl (fire P now) l = fired at hfired htop ⊢
  obtain ⟨lost, hemitted, hlost⟩ := hfired.drainOutputs (by rw [htop]; simp) now sending
  have hdrained := fired.drainOutputs_frame now sending
  generalize fired.drainOutputs now sending = drained at hemitted hdrained ⊢
  obtain ⟨hconn, htimers, hpolled, haccepted, hsame, hflag⟩ := hdrained
  dsimp only
  split
  · refine ⟨inputs, hfired.settled hconn htimers hpolled haccepted ?_, hheard⟩
    exact ⟨lost, hemitted, fun hp => hlost (hfine (hp.resolve_left fun hrunning => hrunning rfl))⟩
  · next hsent =>
    rw [hflag, Bool.not_eq_true, Option.isSome_eq_false_iff, Option.isNone_iff_eq_none] at hsent
    have hsettled := hfired.settled hconn htimers hpolled haccepted ⟨lost, hemitted, fun _ => hlost hsent⟩
    have hevents : Simulates P hears drained.1 (drained.1.drainEvents P now world).1 := .drainEvents drained.1 now world
    obtain ⟨inputs', hfollows, hheard'⟩ := hevents.enters (by rw [hsame, htop]; simp)
      (if (drained.1.drainEvents P now world).2 then .stopped else .select) hsettled
    refine ⟨inputs ++ inputs', by rw [Runs.run_append]; exact hfollows, fun d t hmem => ?_⟩
    rcases List.mem_append.mp hmem with hmem | hmem
    · exact hheard d t hmem
    · exact hheard' d t hmem

theorem select (h : Follows P intact l s) (hphase : l.phase = .select) (arm : Arm) :
    Advances P intact (Move.select arm).hears s (l.select P arm) := by
  have hrunning : l.phase ≠ .stopped := by
    rw [hphase]
    simp
  have hstop : ∀ {hears}, Advances P intact hears s { l with phase := .stopped } :=
    fun {_} => (Simulates.refl l).enters hrunning .stopped h
  cases arm with
  | received buf len stride now =>
    have hfeeds : Simulates P (Move.select (.received buf len stride now)).hears l
        ((groSplit buf len stride).foldl (feed P now) l) := .feeds now (fun _ hd => hd) l
    exact hfeeds.enters hrunning .top h
  | receiveFailed => exact hstop
  | datagram bytes arrival =>
    have hfeed : Simulates P (Move.select (.datagram bytes arrival)).hears l (l.feed P arrival bytes) :=
      .call l (.feedRecvBuf bytes) arrival fun d he => (Call.feedRecvBuf.inj he).symm
    exact hfeed.enters hrunning .top h
  | dropped => exact hstop
  | wake => exact (Simulates.refl l).enters hrunning .top h
  | reserve => exact (Simulates.reserve l).enters hrunning .top h
  | command now => exact (Simulates.onCommand l now).enters hrunning .top h

/-- One move of the driver or of the application. -/
theorem step (h : Follows P intact l s) (move : Move) (hfine : intact → ¬ move.Fails) :
    Advances P intact move.hears s (l.step P move) := by
  cases move with
  | iterate now due sending world =>
    unfold Loop.step
    dsimp only
    split
    · next hphase => exact h.iterate hphase now due sending (fun hi => not_not.mp (hfine hi)) world
    · exact h.idle rfl rfl rfl rfl rfl rfl
  | select arm =>
    unfold Loop.step
    dsimp only
    split
    · next hready => exact h.select hready.1 arm
    · exact h.idle rfl rfl rfl rfl rfl rfl
  | request command =>
    unfold Loop.step
    dsimp only
    split
    · exact h.idle rfl rfl rfl rfl rfl rfl
    · exact h.idle rfl rfl rfl rfl rfl rfl
  | hangUp => exact h.idle rfl rfl rfl rfl rfl rfl
  | read => exact h.idle rfl rfl rfl rfl rfl rfl
  | dropReader => exact h.idle rfl rfl rfl rfl rfl rfl

theorem run (h : Follows P intact l s) (moves : List Move) (hfine : intact → ∀ move ∈ moves, ¬ move.Fails) :
    Advances P intact (fun d => ∃ move ∈ moves, move.hears d) s (Runs.run (Loop.step P) l moves) := by
  induction moves generalizing l s with
  | nil => exact ⟨[], h, fun _ _ hmem => absurd hmem List.not_mem_nil⟩
  | cons move moves ih =>
    obtain ⟨inputs, hfollows, hheard⟩ := h.step move fun hi => hfine hi move List.mem_cons_self
    obtain ⟨inputs', hfollows', hheard'⟩ :=
      ih hfollows fun hi later hlater => hfine hi later (List.mem_cons_of_mem move hlater)
    refine ⟨inputs ++ inputs', by rw [Runs.run_append]; exact hfollows', fun d now hmem => ?_⟩
    rcases List.mem_append.mp hmem with hmem | hmem
    · exact ⟨move, List.mem_cons_self, hheard d now hmem⟩
    · obtain ⟨later, hlater, hears⟩ := hheard' d now hmem
      exact ⟨later, List.mem_cons_of_mem move hlater, hears⟩

end Follows

/-! ## The refinement -/

/-- A loop and a session that have seen the same: the connection is the session's but for the outputs not yet
drained, and the datagrams the session sent have left the host once each and in their order, but for those
outputs and for what a failed socket did not take. With a socket that is `intact` nothing is lost, however the
loop has ended. -/
structure Embodies (intact : Prop) (l : Loop) (s : Session) : Prop where
  conn : { l.conn with outputs := [] } = s.conn
  polled : l.polled = s.polled
  accepted : l.accepted = s.accepted
  wire : ∃ lost, s.emitted = l.transmitted ++ lost ++ Session.datagrams l.conn.outputs
    ∧ (l.phase ≠ .stopped ∨ intact → lost = [])

theorem Follows.embodies {P : Primitives} {intact : Prop} {l : Loop} {s : Session} (h : Follows P intact l s) :
    l.Embodies intact s := by
  refine ⟨?_, h.polled, h.accepted, h.wire⟩
  rw [h.conn, Connection.defer, ← h.drained]

/-- The loop refines the session: whatever the order in which its arms complete, the timers it finds due, the
segments its socket takes and what the application does, it goes through a run of the session; and if no send
fails, every datagram of that run leaves the host. -/
theorem loop_refines_session (P : Primitives) (c : Connection) (now : Instant) (hs : Session.Started P (.start c now))
    (owned connected : Bool) (capacity : ℕ) (moves : List Move) :
    ∃ inputs, (Runs.run (step P) (start c owned connected capacity) moves).Embodies (∀ move ∈ moves, ¬ move.Fails)
        (Runs.run (Session.step P) (.start c now) inputs)
      ∧ ∀ d t, (.feedRecvBuf d, t) ∈ inputs → ∃ move ∈ moves, move.hears d := by
  obtain ⟨inputs, hfollows, hheard⟩ := (Follows.start hs owned connected capacity).run moves id
  exact ⟨inputs, hfollows.embodies, hheard⟩

/-- The connection of the session that accepts at time zero. -/
def plainConnection : Connection :=
  (Connection.accept Primitives.absent Config.default ⟨2⟩ Session.plainConclusion 0).toOption.getD
    (Connection.newBase Config.default ⟨2⟩ Session.plainConclusion.initialSeq 0 .acceptor .failed)

theorem plainConnection_started : Session.Started Primitives.absent (.start plainConnection 0) :=
  Session.plainAcceptor_started

/-- Nobody reads, and no key is asked for. -/
def undisturbed : ℕ → Turn := fun _ => ⟨0, Block.zero⟩

/-- Two messages and a close taken in one go, and their outputs drained with the acknowledgement timer's. -/
def burst : List Move :=
  [.iterate 0 [] ⟨8, none⟩ undisturbed, .request (.send [1]), .request (.send [2]), .request .close,
    .select (.command 3000000), .iterate 11000000 [.ack] ⟨8, none⟩ undisturbed]

/-- The linger timer ends the connection, and its event the loop. -/
def lingered : List Move := burst ++ [.select .wake, .iterate 3000000000 [.linger] ⟨8, none⟩ undisturbed]

/-- The loop ends by itself, and nothing of the session is lost, its SHUTDOWN included. -/
theorem loop_refines_session_lingered :
    (Runs.run (step Primitives.absent) (start plainConnection false false 4) lingered).phase = .stopped ∧
      ∃ inputs, (Runs.run (Session.step Primitives.absent) (.start plainConnection 0) inputs).emitted
        = (Runs.run (step Primitives.absent) (start plainConnection false false 4) lingered).transmitted := by
  have hintact : ∀ move ∈ lingered, ¬ move.Fails := by
    simp [lingered, burst, Move.Fails]
  have hpending : Session.datagrams
      (Runs.run (step Primitives.absent) (start plainConnection false false 4) lingered).conn.outputs = [] := by
    decide +kernel
  obtain ⟨inputs, hembodies, -⟩ :=
    loop_refines_session Primitives.absent plainConnection 0 plainConnection_started false false 4 lingered
  obtain ⟨lost, hemitted, hlost⟩ := hembodies.wire
  refine ⟨by decide +kernel, inputs, ?_⟩
  rw [hemitted, hlost (.inr hintact), hpending, List.append_nil, List.append_nil]

end Driver.Loop

end Srtrust
