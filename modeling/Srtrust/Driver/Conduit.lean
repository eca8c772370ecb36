import Srtrust.Driver.Simulation
import Srtrust.Session.Deadlines

/-! # What goes through the loop's channels

The application's messages wait in the command channel until the loop passes them to the connection, and
received payloads wait in the data channel, one of them perhaps parked, until the application reads them.
Neither way loses, repeats or reorders anything while the connection is open. -/
namespace Srtrust
open BigEndian
set_option autoImplicit false

/-! ## Open connections -/

namespace Connection

/-- Connected, and not about to close. -/
def Open (c : Connection) : Prop := c.link.state = .connected ∧ c.link.closing = false

instance (c : Connection) : Decidable c.Open := inferInstanceAs (Decidable (_ ∧ _))

section Open

variable {c : Connection} {now : Instant}

/-- Past the handshake a connection does not become open again. -/
theorem Open.before {P : Primitives} {call : Call} (h : (c.perform P call now).Open) (he : c.Established) : c.Open := by
  have hup : c.link.state = .connected := by
    rcases (perform_speaks P call now he).state with hs | hs
    · exact hs.symm.trans h.1
    · exact absurd (hs.symm.trans h.1) (by simp)
  refine ⟨hup, ?_⟩
  by_cases hidle : call = .handleTimer .peerIdle
  · subst hidle
    have hlink : (c.onPeerIdleTimer now).link = c.link := by
      rw [(onPeerIdleTimer_connected hup h.1).1]
      rfl
    exact hlink ▸ h.2
  by_cases hclose : call = .close
  · subst hclose
    rcases close_connected hup h.1 with ⟨hsame, -⟩ | ⟨-, hfirst⟩
    · exact hsame ▸ h.2
    · exact hfirst
  · rcases perform_unhurried P call hup h.1 hidle hclose with hu | ⟨-, hu⟩
    · exact hu.link ▸ h.2
    · have hlink : (c.perform P call now).link = c.link := hu.link
      exact hlink ▸ h.2

theorem Open.not_closed (h : (c.close now).Open) : False := by
  unfold close at h
  split at h
  · next hagain =>
    rcases hagain with hclosing | hfailed
    · exact absurd (hclosing.symm.trans h.2) (by simp)
    · exact absurd (hfailed.symm.trans h.1) (by simp)
  · split at h
    · exact absurd h.1 (by simp [fail, event])
    · split at h
      · have hfailed := h.1
        rw [finalizeShutdown_link] at hfailed
        exact absurd hfailed (by simp)
      · exact absurd h.2 (by simp [beginClose, output])

theorem Open.accepts (P : Primitives) (h : c.Open) (payload : Bytes) :
    c.acceptedBy P (.send payload) now = [payload] := by
  have hsend : c.send P payload now = .ok (c.submit P payload now) := if_neg (by simp [h.1, h.2])
  simp [acceptedBy, hsend, Except.toOption]

/-- A connected event is pushed by a connection that is. -/
def Announced (c : Connection) : Prop := ∀ n, .connected n ∈ c.events → c.Established

theorem announced_keeps (P : Primitives) (input : Option Packet) : Act.Keeps P input Announced := by
  refine .ofReceiver ?_ ?_ ?_ ?_ ?_ ?_
  · intro c c' h hq n hn
    obtain ⟨es, hes, hother⟩ := h.events
    rw [hes] at hn
    rcases List.mem_append.mp hn with hn | hn
    · exact h.established (hq n hn)
    · exact absurd trivial (hother _ hn)
  · intro c hq n hn
    exact hq n (List.mem_of_mem_drop hn)
  · intro c _ data _ _ hs _ _ n _
    have hlink : ∀ (c : Connection) b, (c.setRecvBuffer b).link = c.link := fun _ _ => rfl
    rw [Established, hlink]
    exact .inl hs
  · intro c packet rest _ hq n hn
    have hstep := deliverPopped_rxStep c packet rest
    obtain ⟨es, hes, hdata⟩ := hstep.grows.events
    rw [hes] at hn
    rw [Established, hstep.link]
    rcases List.mem_append.mp hn with hn | hn
    · exact hq n hn
    · exact (hdata _ hn).elim
  · intro c _ _ first last _ _ hs _ n _
    have hlink : ∀ (c : Connection) b n, (c.replaceBuffer b n).link = c.link := fun _ _ _ => rfl
    rw [Established, skipRange, hlink]
    exact .inl hs
  · intro c _ _ now _ _ _ _ _ n _
    exact .inl rfl

end Open

end Connection

namespace Driver.Loop
open Channels

/-! ## Elementary moves -/

/-- The next command, taken from its channel and obeyed. -/
def take (P : Primitives) (l : Loop) (now : Instant) (rest : List Command) : Command → Loop
  | .send payload => { l.call P (.send payload) now with commands := rest }
  | .stats => { l with commands := rest }
  | .close => { l.call P .close now with closing := true, commands := rest }

/-- A property that every elementary move keeps. -/
structure Keeps (P : Primitives) (Q : Loop → Prop) : Prop where
  fire : ∀ l now id, Q l → Q (fire P now l id)
  drain : ∀ l now sending, Q l → Q (drainOutputs l now sending).1
  hand : ∀ l now turn event rest, l.conn.events = event :: rest → l.pendingData = none → Q l →
    Q (hand P l now turn event)
  offer : ∀ l payload, l.pendingData = some payload → Q l → Q (offer l payload).1
  feed : ∀ l now d, Q l → Q (feed P now l d)
  take : ∀ l now command rest, l.commands = command :: rest → Q l → Q (take P l now rest command)
  hang : ∀ l now, Q l → Q { l.call P .close now with closing := true }
  phase : ∀ l phase, Q l → Q { l with phase }
  request : ∀ l command, l.Handed → Q l →
    Q { l with commands := l.commands ++ [command], sent := l.sent ++ command.payload.toList }
  hangUp : ∀ l, Q l → Q { l with hungUp := true }
  read : ∀ l, Q l → Q { l with data := l.data.recv }
  dropReader : ∀ l, Q l → Q { l with unread := true }

namespace Keeps

theorem foldl {α : Type} {Q : Loop → Prop} {l : Loop} (f : Loop → α → Loop) (hf : ∀ l x, Q l → Q (f l x))
    (xs : List α) (hq : Q l) : Q (xs.foldl f l) := by
  induction xs generalizing l with
  | nil => exact hq
  | cons x xs ih => exact ih (hf l x hq)

variable {P : Primitives} {Q : Loop → Prop} (h : Keeps P Q) {l : Loop}
include h

theorem iterate (now : Instant) (due : List TimerId) (sending : Sending) (world : ℕ → Turn) (hq : Q l) :
    Q (l.iterate P now due sending world) := by
  have hdrained := h.drain _ now sending (foldl (Loop.fire P now) (fun l id => h.fire l now id) due hq)
  unfold Loop.iterate
  generalize (due.foldl (Loop.fire P now) l).drainOutputs now sending = drained at hdrained ⊢
  dsimp only
  split
  · exact h.phase _ _ hdrained
  · exact h.phase _ _ (drainEvents_rule h.hand h.offer now world hdrained)

theorem runCommands (now : Instant) (commands : List Command) (hq : Q { l with commands }) :
    Q (Loop.runCommands P now commands l) := by
  induction commands generalizing l with
  | nil => exact hq
  | cons command rest ih =>
    have htake := h.take { l with commands := command :: rest } now command rest rfl hq
    cases command with
    | send payload => exact ih htake
    | stats => exact ih htake
    | close => exact htake

theorem select (arm : Arm) (hq : Q l) : Q (l.select P arm) := by
  cases arm with
  | received buf len stride now =>
    exact h.phase _ _ (foldl (Loop.feed P now) (fun l d => h.feed l now d) (groSplit buf len stride) hq)
  | receiveFailed => exact h.phase _ _ hq
  | datagram bytes arrival => exact h.phase _ _ (h.feed l arrival bytes hq)
  | dropped => exact h.phase _ _ hq
  | wake => exact h.phase _ _ hq
  | reserve => exact h.phase _ _ (reserve_rule h.offer hq)
  | command now =>
    refine h.phase _ _ ?_
    unfold onCommand
    split
    · exact h.hang l now hq
    · exact h.runCommands now l.commands hq

theorem step (move : Move) (hq : Q l) : Q (l.step P move) := by
  cases move with
  | iterate now due sending world =>
    unfold Loop.step
    dsimp only
    split
    · exact h.iterate now due sending world hq
    · exact hq
  | select arm =>
    unfold Loop.step
    dsimp only
    split
    · exact h.select arm hq
    · exact hq
  | request command =>
    unfold Loop.step
    dsimp only
    split
    · next hready => exact h.request l command hready.2 hq
    · exact hq
  | hangUp => exact h.hangUp l hq
  | read => exact h.read l hq
  | dropReader => exact h.dropReader l hq

theorem run (moves : List Move) (hq : Q l) : Q (Runs.run (Loop.step P) l moves) :=
  @Runs.invariant _ _ _ (fun _ _ => True) Q (fun _ move hq _ => h.step move hq) l moves hq
    (Runs.meets_of_forall (fun _ _ => trivial) l moves)

end Keeps

/-! ## Payloads received -/

/-- What has been put into the data channel, and then what is parked, are messages the connection delivered. -/
def Conveys (l : Loop) : Prop := l.held.Sublist (messages l.polled)

theorem Conveys.congr {l l' : Loop} (h : l.Conveys) (hput : l'.data.put = l.data.put)
    (hparked : l'.pendingData = l.pendingData) (hpolled : l'.polled = l.polled) : l'.Conveys := by
  rw [Conveys, held, hput, hparked, hpolled]
  exact h

/-- A payload is put or parked, or dropped because nobody reads. -/
theorem sublist_unless (unread : Bool) {put polled payload : List Bytes} (h : put.Sublist polled) :
    (put ++ if unread then [] else payload).Sublist (polled ++ payload) := by
  cases unread with
  | true => exact h.append (List.nil_sublist payload)
  | false => exact h.append (List.Sublist.refl payload)

theorem Conveys.offer {l : Loop} {payload : Bytes} (h : l.Conveys) (hparked : l.pendingData = some payload) :
    (l.offer payload).1.Conveys := by
  rw [Conveys, held, hparked] at h
  rw [Conveys, offer_held, (offer_frame l payload).2.2.1]
  refine List.Sublist.trans ?_ h
  exact sublist_unless l.unread (List.Sublist.refl l.data.put)

theorem Conveys.hand {l : Loop} {event : Event} {rest : List Event} (h : l.Conveys) (P : Primitives) (now : Instant)
    (turn : Turn) (hevents : l.conn.events = event :: rest) (hnone : l.pendingData = none) :
    (l.hand P now turn event).Conveys := by
  obtain ⟨hheld, hpolled, -⟩ := @hand_held P l now turn event rest hevents hnone
  rw [Conveys, held, hnone, Option.toList_none, List.append_nil] at h
  rw [Conveys, hheld, hpolled, messages_concat]
  exact sublist_unless l.unread h

theorem conveys_keeps (P : Primitives) : Keeps P Conveys where
  fire l now id hq := hq.congr rfl rfl (List.append_nil _)
  drain l now sending hq := by
    unfold drainOutputs
    cases sending.failsAfter <;> exact hq
  hand l now turn event rest hevents hnone hq := hq.hand P now turn hevents hnone
  offer l payload hparked hq := hq.offer hparked
  feed l now d hq := hq.congr rfl rfl (List.append_nil _)
  take l now command rest _ hq := by
    cases command with
    | send payload => exact hq.congr rfl rfl (List.append_nil _)
    | stats => exact hq
    | close => exact hq.congr rfl rfl (List.append_nil _)
  hang l now hq := hq.congr rfl rfl (List.append_nil _)
  phase l phase hq := hq
  request l command _ hq := hq
  hangUp l hq := hq
  read l hq := hq.congr (Channel.put_recv l.data) rfl rfl
  dropReader l hq := hq

/-! ## Messages sent -/

/-- The messages that wait for the connection. -/
def queued (l : Loop) : List Bytes := l.commands.filterMap Command.payload

/-- Messages come only once the connection is there, and go to it in their order; while it is open none is
refused. -/
structure Submits (l : Loop) : Prop where
  announced : l.conn.Announced
  handed : l.connected = false → l.outcome.all (·.isOk) = true → l.conn.Established
  early : ¬ l.conn.Established → l.commands = [] ∧ l.sent = []
  taken : (l.accepted ++ l.queued).Sublist l.sent
  all : l.conn.Open → l.accepted ++ l.queued = l.sent

namespace Submits

variable {P : Primitives} {l : Loop}

theorem established_call {c : Connection} (h : c.Established) (call : Call) (now : Instant) :
    (c.perform P call now).Established :=
  (Connection.perform_speaks P call now h).established h

/-- A call that is not a `send`. -/
theorem call (h : Submits l) {call : Call} (hcall : ∀ payload, call ≠ .send payload) (now : Instant) :
    Submits (l.call P call now) := by
  have haccepted : (l.call P call now).accepted = l.accepted := by
    cases call with
    | send payload => exact absurd rfl (hcall payload)
    | _ => exact List.append_nil _
  refine ⟨(Connection.announced_keeps P _).perform now h.announced, fun hc ho => ?_, fun hn => ?_, ?_, fun hopen => ?_⟩
  · exact established_call (h.handed hc ho) call now
  · exact h.early fun he => hn (established_call he call now)
  · rw [haccepted]
    exact h.taken
  · rw [haccepted]
    by_cases he : l.conn.Established
    · exact h.all (hopen.before he)
    · have hnone : l.sent = [] := (h.early he).2
      have htaken := h.taken
      rw [hnone] at htaken
      exact (List.sublist_nil.mp htaken).trans hnone.symm

/-- The fields that concern the messages. -/
theorem congr (h : Submits l) {l' : Loop} (hconn : l'.conn = l.conn) (hconnected : l'.connected = l.connected)
    (houtcome : l'.outcome = l.outcome) (hcommands : l'.commands = l.commands) (hsent : l'.sent = l.sent)
    (haccepted : l'.accepted = l.accepted) : Submits l' := by
  refine ⟨?_, ?_, ?_, ?_, ?_⟩
  · rw [hconn]
    exact h.announced
  · rw [hconn, hconnected, houtcome]
    exact h.handed
  · rw [hconn, hcommands, hsent]
    exact h.early
  · rw [haccepted, hsent, queued, hcommands]
    exact h.taken
  · rw [hconn, haccepted, hsent, queued, hcommands]
    exact h.all

theorem signal (h : Submits l) (result : Except ConnectionError Unit) (hok : result.isOk = true → l.conn.Established) :
    Submits (l.signal result) := by
  unfold Loop.signal
  split
  · exact ⟨h.announced, fun _ ho => hok ho, h.early, h.taken, h.all⟩
  · exact h

theorem offer (h : Submits l) (payload : Bytes) : Submits (l.offer payload).1 := by
  unfold Loop.offer
  split
  · exact h.congr rfl rfl rfl rfl rfl rfl
  · split <;> exact h.congr rfl rfl rfl rfl rfl rfl

theorem hand (h : Submits l) {event : Event} {rest : List Event} (now : Instant) (turn : Turn)
    (hevents : l.conn.events = event :: rest) : Submits (l.hand P now turn event) := by
  have hread : Submits { l.call P .pollEvent now with
      data := Channel.recvMany turn.reads (l.call P .pollEvent now).data } :=
    (@call P l h .pollEvent (by simp) now).congr rfl rfl rfl rfl rfl rfl
  unfold Loop.hand
  cases event with
  | connected negotiated =>
    refine hread.signal _ fun _ => ?_
    have hmem : .connected negotiated ∈ l.conn.events := by
      rw [hevents]
      exact List.mem_cons_self
    exact established_call (P := P) (h.announced negotiated hmem) .pollEvent now
  | keyRefreshNeeded keySize => exact hread.call (by simp) now
  | dataReceived payload => exact hread.offer payload
  | failed reason => exact hread.signal _ fun hok => (by cases hok)
  | closed => exact hread

theorem send (h : Submits l) {payload : Bytes} {rest : List Command} (now : Instant)
    (hcommands : l.commands = .send payload :: rest) :
    Submits { l.call P (.send payload) now with commands := rest } := by
  have hbefore : l.conn.Established := by
    by_contra hn
    rw [(h.early hn).1] at hcommands
    cases hcommands
  have hqueued : l.queued = payload :: rest.filterMap Command.payload := by
    rw [queued, hcommands]
    rfl
  have hafter : (l.conn.perform P (.send payload) now).Established := established_call hbefore _ now
  refine ⟨(Connection.announced_keeps P _).perform now h.announced, fun _ _ => hafter, fun hn => absurd hafter hn, ?_,
    fun hopen => ?_⟩
  · have htook : (l.conn.acceptedBy P (.send payload) now).Sublist [payload] := by
      rw [Connection.acceptedBy]
      split
      · exact .refl _
      · exact List.nil_sublist _
    have htaken := h.taken
    rw [hqueued] at htaken
    change (l.accepted ++ l.conn.acceptedBy P (.send payload) now ++ rest.filterMap Command.payload).Sublist l.sent
    rw [List.append_assoc]
    exact ((List.Sublist.refl _).append (htook.append (List.Sublist.refl _))).trans htaken
  · have hall := h.all (hopen.before hbefore)
    rw [hqueued] at hall
    change l.accepted ++ l.conn.acceptedBy P (.send payload) now ++ rest.filterMap Command.payload = l.sent
    rw [(hopen.before hbefore).accepts P payload, List.append_assoc]
    exact hall

theorem close (h : Submits l) (now : Instant) {rest : List Command}
    (hrest : (rest.filterMap Command.payload).Sublist l.queued) (hearly : l.commands = [] → rest = []) :
    Submits { l.call P .close now with closing := true, commands := rest } := by
  have hcall := @call P l h .close (by simp) now
  refine ⟨hcall.announced, hcall.handed, fun hn => ?_, ?_, fun hopen => (hopen.not_closed).elim⟩
  · exact ⟨hearly (hcall.early hn).1, (hcall.early hn).2⟩
  · exact ((List.Sublist.refl _).append hrest).trans hcall.taken

end Submits

theorem submits_keeps (P : Primitives) : Keeps P Submits where
  fire l now id hq := by
    have hoff : Submits { l with timers := l.timers.set id none } := hq.congr rfl rfl rfl rfl rfl rfl
    exact hoff.call (by simp) now
  drain l now sending hq := by
    unfold drainOutputs
    cases sending.failsAfter <;> exact ⟨hq.announced, hq.handed, hq.early, hq.taken, hq.all⟩
  hand l now turn event rest hevents _ hq := hq.hand now turn hevents
  offer l payload _ hq := hq.offer payload
  feed l now d hq := hq.call (by simp) now
  take l now command rest hcommands hq := by
    cases command with
    | send payload => exact hq.send now hcommands
    | stats =>
      refine ⟨hq.announced, hq.handed, fun hn => ?_, ?_, ?_⟩
      · exact absurd (hcommands.symm.trans (hq.early hn).1) (by simp)
      · have htaken := hq.taken
        rw [queued, hcommands] at htaken
        exact htaken
      · have hall := hq.all
        rw [queued, hcommands] at hall
        exact hall
    | close =>
      refine hq.close now ?_ fun hnone => absurd (hcommands.symm.trans hnone) (by simp)
      rw [queued, hcommands]
      exact .refl _
  hang l now hq := hq.close now (.refl _) id
  phase l phase hq := hq.congr rfl rfl rfl rfl rfl rfl
  request l command hhanded hq := by
    have he := hq.handed hhanded.1 hhanded.2.1
    have hqueued : (l.commands ++ [command]).filterMap Command.payload = l.queued ++ command.payload.toList := by
      rw [List.filterMap_append]
      cases command <;> rfl
    refine ⟨hq.announced, hq.handed, fun hn => absurd he hn, ?_, fun hopen => ?_⟩
    · change (l.accepted ++ (l.commands ++ [command]).filterMap Command.payload).Sublist _
      rw [hqueued, ← List.append_assoc]
      exact hq.taken.append (.refl _)
    · change l.accepted ++ (l.commands ++ [command]).filterMap Command.payload = _
      rw [hqueued, ← List.append_assoc, hq.all hopen]
  hangUp l hq := hq.congr rfl rfl rfl rfl rfl rfl
  read l hq := hq.congr rfl rfl rfl rfl rfl rfl
  dropReader l hq := hq.congr rfl rfl rfl rfl rfl rfl

/-! ## Nothing is lost on the way -/

theorem submits_start {P : Primitives} {c : Connection} {now : Instant} (h : Session.Started P (.start c now))
    {connected : Bool} (hconnected : connected = false → c.link.state = .connected) (owned : Bool) (capacity : ℕ) :
    (start c owned connected capacity).Submits := by
  obtain ⟨c', now', hfresh, heq⟩ := h.fresh
  have hevents : c.events = c'.events := congrArg (·.conn.events) heq
  have hlink : c.link = c'.link := congrArg (·.conn.link) heq
  refine ⟨fun n hn => ?_, fun hc _ => .inl (hconnected hc), fun _ => ⟨rfl, rfl⟩, .refl _, fun _ => rfl⟩
  change .connected n ∈ c.events at hn
  change c.Established
  rw [hevents] at hn
  rw [Connection.Established, hlink]
  rcases hfresh.phase with ⟨-, hnone⟩ | ⟨hup, -⟩
  · rw [hnone] at hn
    cases hn
  · exact .inl hup

/-- While the connection is open, every message the application has sent is with it or waits for it, in the order
sent; afterwards messages may be missing, but none is out of order or twice. Payloads the application can read
are those the connection delivered. -/
theorem channels_in_order (P : Primitives) (c : Connection) (now : Instant) (hs : Session.Started P (.start c now))
    (owned connected : Bool) (hconnected : connected = false → c.link.state = .connected) (capacity : ℕ)
    (moves : List Move) (l : Loop) (hl : l = Runs.run (step P) (start c owned connected capacity) moves) :
    (l.accepted ++ l.queued).Sublist l.sent
      ∧ (l.conn.link.state = .connected → l.conn.link.closing = false → l.accepted ++ l.queued = l.sent)
      ∧ (l.data.put ++ l.pendingData.toList).Sublist (messages l.polled) := by
  have hsubmits : l.Submits := by
    rw [hl]
    exact (submits_keeps P).run moves (submits_start hs hconnected owned capacity)
  have hconveys : l.Conveys := by
    rw [hl]
    exact (conveys_keeps P).run moves (List.Sublist.refl _)
  exact ⟨hsubmits.taken, fun hup hopen => hsubmits.all ⟨hup, hopen⟩, hconveys⟩

/-- One message taken before the next one is sent. -/
def paced : List Move :=
  [.iterate 0 [] ⟨8, none⟩ undisturbed, .request (.send [1]), .select (.command 3000000), .request (.send [2])]

theorem channels_in_order_paced :
    (Runs.run (step Primitives.absent) (start plainConnection false false 4) paced).accepted = [[1]] ∧
      (Runs.run (step Primitives.absent) (start plainConnection false false 4) paced).accepted
          ++ (Runs.run (step Primitives.absent) (start plainConnection false false 4) paced).queued
        = (Runs.run (step Primitives.absent) (start plainConnection false false 4) paced).sent :=
  ⟨by decide +kernel, (channels_in_order Primitives.absent plainConnection 0 plainConnection_started false false
    (by decide +kernel) 4 paced _ rfl).2.1 (by decide +kernel) (by decide +kernel)⟩

end Driver.Loop

end Srtrust
