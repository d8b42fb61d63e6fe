import AsyncJobs.Model.Client
import AsyncJobs.Interaction.Channel
import AsyncJobs.Interaction.Run

/-!
# Listing the tasks

`Tasks` subscribes to the messages of a consumer and returns a channel to which the callback
of the subscription sends the tasks it decodes. The callback unsubscribes and cancels the
context of the call when it has sent the last task; the context also ends after a minute and
with the context of the caller. A goroutine waits for the end of the context, closes the
channel and only then unsubscribes.

The client runs one callback at a time, and none is started once the subscription ended. A
callback that is still to send when the context ends by itself may find the channel closed.
-/

namespace AsyncJobs

open Interaction

/-- The metadata is `none` where `Metadata` returns an error, otherwise it is the `NumPending`. -/
structure TaskMessage where
  data : Option (Except Error Task)
  metadata : Option Nat

/-- The task of a message that is neither empty nor undecodable. -/
def TaskMessage.task (m : TaskMessage) : Option Task := m.data.bind Except.toOption

/-- Where the callback is: not running, at its `select`, at the metadata of what it sent,
before `Unsubscribe`, before `cancel` or before `Ack`. -/
inductive CallbackPhase where
  | idle
  | sending (task : Task) (metadata : Option Nat)
  | counting (metadata : Option Nat)
  | unsubscribing
  | cancelling
  | acking

/-- Where `Tasks` and its goroutine are: creating the consumer, returned with an error,
waiting for the end of the context, between `close` and `Unsubscribe`, or done. -/
inductive CloserPhase where
  | creating
  | failed (err : Error)
  | waiting
  | unsubscribing
  | returned

inductive ListingEnd where
  | timeout
  | caller
  | callback
  deriving DecidableEq, Repr

/-- `inbox` holds the messages for which no callback was started, `received` what the caller
took from the channel. `closes` counts the calls of `close` and `panicked` says that a send
found the channel closed. -/
structure TaskStream (limit : Nat) where
  inbox : List TaskMessage
  out : Chan Task limit := {}
  received : List Task := []
  cnt : Nat := 0
  subscribed : Bool := true
  ctx : Option ListingEnd := none
  callback : CallbackPhase := .idle
  closer : CloserPhase := .creating
  closes : Nat := 0
  panicked : Bool := false

/-- What happens next: a callback starts or goes on, the minute is over, the caller's context
ends, the consumer is created or not, the goroutine goes on, or the caller receives. -/
inductive StreamEvent where
  | deliver
  | send
  | count
  | unsubscribe
  | cancel
  | ack
  | expire
  | callerEnds
  | created (err : Option Error)
  | close
  | closerUnsubscribe
  | receive

def taskLimit (limit : Int) : Nat := if limit ≤ 0 then 10000 else limit.toNat

/-- `Tasks` up to the creation of its consumer. `state` is the number of stored messages. -/
def tasksStart (ready : Bool) (limit : Int) (state : Except Error Nat) (subscribe : Option Error)
    (inbox : List TaskMessage) : Except Error (TaskStream (taskLimit limit)) :=
  if !ready then .error (Sentinel.storageNotReady.error.wrap ": task store not initialized")
  else
    match state with
    | .error err => .error err
    | .ok 0 => .error Sentinel.noTasks.error
    | .ok _ =>
      match subscribe with
      | some err => .error err
      | none => .ok { inbox }

namespace TaskStream

variable {limit : Nat}

def stepCallback (s : TaskStream limit) : StreamEvent → CallbackPhase → Option (TaskStream limit)
  | .deliver, .idle =>
    match s.inbox with
    | [] => none
    | m :: inbox =>
      if !s.subscribed then none
      else
        match m.task with
        | none => some { s with inbox }
        | some task => some { s with inbox, callback := .sending task m.metadata }
  | .send, .sending task metadata =>
    match s.out.send task with
    | .panicked => some { s with panicked := true }
    | .sent out => some { s with out, callback := .counting metadata }
    | .blocked => some { s with callback := .unsubscribing }
  | .count, .counting none => some { s with callback := .idle }
  | .count, .counting (some numPending) =>
    some { s with
      cnt := s.cnt + 1
      callback := if numPending = 0 ∨ s.cnt + 1 = limit then .unsubscribing else .acking }
  | .unsubscribe, .unsubscribing => some { s with subscribed := false, callback := .cancelling }
  | .cancel, .cancelling => some { s with ctx := s.ctx.or (some .callback), callback := .acking }
  | .ack, .acking => some { s with callback := .idle }
  | _, _ => none

/-- One step of `Tasks` after the subscription and of its goroutine. -/
def stepCloser (s : TaskStream limit) : StreamEvent → CloserPhase → Option (TaskStream limit)
  | .created none, .creating => some { s with closer := .waiting }
  | .created (some err), .creating => some { s with closer := .failed err }
  | .close, .waiting =>
    if s.ctx.isNone then none
    else
      match s.out.close with
      | none => some { s with closes := s.closes + 1, panicked := true }
      | some out => some { s with out, closes := s.closes + 1, closer := .unsubscribing }
  | .closerUnsubscribe, .unsubscribing => some { s with subscribed := false, closer := .returned }
  | _, _ => none

def step (s : TaskStream limit) (event : StreamEvent) : Option (TaskStream limit) :=
  if s.panicked then none
  else
    match event with
    | .expire => some { s with ctx := s.ctx.or (some .timeout) }
    | .callerEnds => some { s with ctx := s.ctx.or (some .caller) }
    | .receive =>
      match s.out.receive with
      | some (some task, out) => some { s with out, received := s.received ++ [task] }
      | _ => none
    | .created _ | .close | .closerUnsubscribe => s.stepCloser event s.closer
    | _ => s.stepCallback event s.callback

def run (s : TaskStream limit) (events : List StreamEvent) : Option (TaskStream limit) :=
  Interaction.run step s events

/-- The tasks that were sent on the channel, in order. -/
def delivered (s : TaskStream limit) : List Task := s.received ++ s.out.buffer

/-- A callback has a task and has not sent it. -/
def beforeSend (s : TaskStream limit) : Bool :=
  match s.callback with
  | .sending _ _ => true
  | _ => false

/-- The minute and the caller's context end while no callback is before its send, and no
callback starts after the end of the context. -/
def calm (s : TaskStream limit) : StreamEvent → Bool
  | .expire | .callerEnds => !s.beforeSend
  | .deliver => s.ctx.isNone
  | _ => true

/-- The possible steps, with what each of them needs. -/
inductive Step (s : TaskStream limit) : StreamEvent → TaskStream limit → Prop
  | skip {m : TaskMessage} {inbox : List TaskMessage} (hidle : s.callback = .idle)
      (hinbox : s.inbox = m :: inbox) (hsub : s.subscribed = true) (hm : m.task = none) :
      Step s .deliver { s with inbox }
  | deliver {m : TaskMessage} {inbox : List TaskMessage} {task : Task}
      (hidle : s.callback = .idle) (hinbox : s.inbox = m :: inbox) (hsub : s.subscribed = true)
      (hm : m.task = some task) :
      Step s .deliver { s with inbox, callback := .sending task m.metadata }
  | panic {task : Task} {metadata : Option Nat} (hphase : s.callback = .sending task metadata)
      (hsend : s.out.send task = .panicked) : Step s .send { s with panicked := true }
  | send {task : Task} {metadata : Option Nat} {out : Chan Task limit}
      (hphase : s.callback = .sending task metadata) (hsend : s.out.send task = .sent out) :
      Step s .send { s with out, callback := .counting metadata }
  | drop {task : Task} {metadata : Option Nat} (hphase : s.callback = .sending task metadata)
      (hsend : s.out.send task = .blocked) : Step s .send { s with callback := .unsubscribing }
  | noMetadata (hphase : s.callback = .counting none) : Step s .count { s with callback := .idle }
  | count {numPending : Nat} (hphase : s.callback = .counting (some numPending)) :
      Step s .count { s with
        cnt := s.cnt + 1
        callback := if numPending = 0 ∨ s.cnt + 1 = limit then .unsubscribing else .acking }
  | unsubscribe (hphase : s.callback = .unsubscribing) :
      Step s .unsubscribe { s with subscribed := false, callback := .cancelling }
  | cancel (hphase : s.callback = .cancelling) :
      Step s .cancel { s with ctx := s.ctx.or (some .callback), callback := .acking }
  | ack (hphase : s.callback = .acking) : Step s .ack { s with callback := .idle }
  | expire : Step s .expire { s with ctx := s.ctx.or (some .timeout) }
  | callerEnds : Step s .callerEnds { s with ctx := s.ctx.or (some .caller) }
  | created (hphase : s.closer = .creating) : Step s (.created none) { s with closer := .waiting }
  | failed {err : Error} (hphase : s.closer = .creating) :
      Step s (.created (some err)) { s with closer := .failed err }
  | close {out : Chan Task limit} (hphase : s.closer = .waiting) (hctx : s.ctx ≠ none)
      (hclose : s.out.close = some out) :
      Step s .close { s with out, closes := s.closes + 1, closer := .unsubscribing }
  | closeAgain (hphase : s.closer = .waiting) (hclose : s.out.close = none) :
      Step s .close { s with closes := s.closes + 1, panicked := true }
  | closerUnsubscribe (hphase : s.closer = .unsubscribing) :
      Step s .closerUnsubscribe { s with subscribed := false, closer := .returned }
  | receive {task : Task} {out : Chan Task limit}
      (hreceive : s.out.receive = some (some task, out)) :
      Step s .receive { s with out, received := s.received ++ [task] }

variable {s s' : TaskStream limit} {event : StreamEvent}

theorem stepCallback_sound {phase : CallbackPhase} (hphase : s.callback = phase)
    (h : s.stepCallback event phase = some s') : Step s event s' := by
  unfold stepCallback at h
  split at h
  · split at h
    · cases h
    · rename_i m inbox hinbox
      split_ifs at h with hsub
      have hsub : s.subscribed = true := by simpa using hsub
      split at h
      · rename_i hm
        cases h
        exact .skip hphase hinbox hsub hm
      · rename_i task hm
        cases h
        exact .deliver hphase hinbox hsub hm
  · split at h <;> rename_i hsend <;> cases h
    · exact .panic hphase hsend
    · exact .send hphase hsend
    · exact .drop hphase hsend
  · cases h
    exact .noMetadata hphase
  · cases h
    exact .count hphase
  · cases h
    exact .unsubscribe hphase
  · cases h
    exact .cancel hphase
  · cases h
    exact .ack hphase
  · cases h

theorem stepCloser_sound {phase : CloserPhase} (hphase : s.closer = phase)
    (h : s.stepCloser event phase = some s') : Step s event s' := by
  unfold stepCloser at h
  split at h
  · cases h
    exact .created hphase
  · cases h
    exact .failed hphase
  · split_ifs at h with hctx
    split at h <;> rename_i hclose <;> cases h
    · exact .closeAgain hphase hclose
    · exact .close hphase (by simpa using hctx) hclose
  · cases h
    exact .closerUnsubscribe hphase
  · cases h

theorem step_sound (h : s.step event = some s') : s.panicked = false ∧ Step s event s' := by
  unfold step at h
  split_ifs at h with hpanicked
  refine ⟨by simpa using hpanicked, ?_⟩
  split at h
  · cases h
    exact .expire
  · cases h
    exact .callerEnds
  · split at h
    · rename_i hreceive
      cases h
      exact .receive hreceive
    · cases h
  · exact stepCloser_sound rfl h
  · exact stepCloser_sound rfl h
  · exact stepCloser_sound rfl h
  · exact stepCallback_sound rfl h

/-- The task of a callback that is still to send it. -/
def pending (s : TaskStream limit) : List Task :=
  match s.callback with
  | .sending task _ => [task]
  | _ => []

def beforeClose (s : TaskStream limit) : Bool :=
  match s.closer with
  | .creating | .failed _ | .waiting => true
  | .unsubscribing | .returned => false

/-- The channel is closed once, by the goroutine, after the end of the context. -/
structure Closing (s : TaskStream limit) : Prop where
  isClosed : s.out.closed = !s.beforeClose
  closes : s.closes = if s.out.closed then 1 else 0
  ended : s.out.closed = true → s.ctx ≠ none

theorem Closing.start (messages : List TaskMessage) :
    ({ inbox := messages } : TaskStream limit).Closing :=
  ⟨rfl, rfl, nofun⟩

theorem Closing.endCtx (hs : s.Closing) (cause : ListingEnd) :
    ({ s with ctx := s.ctx.or (some cause) } : TaskStream limit).Closing := by
  refine ⟨hs.isClosed, hs.closes, ?_⟩
  intro _
  cases s.ctx <;> simp

theorem Closing.keep (hs : s.Closing) (hclosed : s'.out.closed = s.out.closed)
    (hbefore : s'.beforeClose = s.beforeClose) (hcloses : s'.closes = s.closes)
    (hctx : s'.ctx = s.ctx) : s'.Closing where
  isClosed := by
    rw [hclosed, hbefore]
    exact hs.isClosed
  closes := by
    rw [hcloses, hclosed]
    exact hs.closes
  ended := by
    rw [hclosed, hctx]
    exact hs.ended

theorem Closing.step (hs : s.Closing) (h : s.step event = some s') : s'.Closing := by
  cases (step_sound h).2 with
  | skip | deliver | panic | drop | noMetadata | count | unsubscribe | ack =>
    exact hs.keep rfl rfl rfl rfl
  | cancel => exact (hs.endCtx .callback).keep rfl rfl rfl rfl
  | expire => exact hs.endCtx .timeout
  | callerEnds => exact hs.endCtx .caller
  | created hphase | failed hphase => exact hs.keep rfl (by simp [beforeClose, hphase]) rfl rfl
  | send hphase hsend =>
    obtain ⟨hopen, -, hstill, -⟩ := Chan.send_sent hsend
    exact hs.keep (hstill.trans hopen.symm) rfl rfl rfl
  | receive hreceive =>
    obtain ⟨a, -, -, hclosed⟩ | ⟨hnone, -⟩ := Chan.receive_some hreceive
    · exact hs.keep hclosed rfl rfl rfl
    · cases hnone
  | close hphase hctx hclose =>
    obtain ⟨hopen, hclosed, -⟩ := Chan.close_some hclose
    have hzero : s.closes = 0 := by
      rw [hs.closes, hopen]
      rfl
    refine ⟨hclosed, ?_, fun _ => hctx⟩
    simp [hzero, hclosed]
  | closeAgain hphase hclose =>
    have hopen := hs.isClosed
    simp [beforeClose, hphase, Chan.close_none hclose] at hopen
  | closerUnsubscribe hphase => exact hs.keep rfl (by simp [beforeClose, hphase]) rfl rfl

theorem delivered_send {task : Task} {out : Chan Task limit} (h : s.out.send task = .sent out) :
    s.received ++ out.buffer = s.delivered ++ [task] := by
  obtain ⟨-, -, -, hbuffer⟩ := Chan.send_sent h
  rw [hbuffer, delivered, List.append_assoc]

theorem delivered_receive {task : Task} {out : Chan Task limit}
    (h : s.out.receive = some (some task, out)) :
    s.received ++ [task] ++ out.buffer = s.delivered := by
  obtain ⟨a, ha, hbuffer, -⟩ | ⟨hnone, -⟩ := Chan.receive_some h
  · cases ha
    rw [delivered, hbuffer, List.append_assoc]
    rfl
  · cases hnone

theorem delivered_close {out : Chan Task limit} (h : s.out.close = some out) :
    s.received ++ out.buffer = s.delivered := by
  rw [(Chan.close_some h).2.2, delivered]

/-- What was sent and is about to be sent is a prefix of what is in the messages; until the
callback gives up, the rest of it is in the messages to come. -/
structure InOrder (messages : List TaskMessage) (s : TaskStream limit) : Prop where
  sent : s.delivered ++ s.pending <+: messages.filterMap TaskMessage.task
  rest : s.subscribed = true → s.callback ≠ .unsubscribing →
    s.delivered ++ s.pending ++ s.inbox.filterMap TaskMessage.task =
      messages.filterMap TaskMessage.task

variable {messages : List TaskMessage}

theorem InOrder.start (messages : List TaskMessage) :
    ({ inbox := messages } : TaskStream limit).InOrder messages :=
  ⟨List.nil_prefix, fun _ _ => rfl⟩

theorem InOrder.keep (hs : s.InOrder messages) (hdelivered : s'.delivered = s.delivered)
    (hpending : s'.pending = s.pending) (hinbox : s'.inbox = s.inbox)
    (hrest : s'.subscribed = true → s'.callback ≠ .unsubscribing →
      s.subscribed = true ∧ s.callback ≠ .unsubscribing) : s'.InOrder messages := by
  constructor
  · rw [hdelivered, hpending]
    exact hs.sent
  · intro hsub hphase
    obtain ⟨hsub', hphase'⟩ := hrest hsub hphase
    rw [hdelivered, hpending, hinbox]
    exact hs.rest hsub' hphase'

theorem InOrder.step (hs : s.InOrder messages) (h : s.step event = some s') :
    s'.InOrder messages := by
  cases (step_sound h).2 with
  | skip hidle hinbox hsub hm =>
    refine ⟨hs.sent, ?_⟩
    intro _ hphase
    have hrest := hs.rest hsub hphase
    rwa [hinbox, List.filterMap_cons_none hm] at hrest
  | @deliver m inbox task hidle hinbox hsub hm =>
    have hrest := hs.rest hsub (by simp [hidle])
    have hnone : s.pending = [] := by simp [pending, hidle]
    rw [hinbox, List.filterMap_cons_some hm, hnone, List.append_nil] at hrest
    have hsplit : s.delivered ++ [task] ++ inbox.filterMap TaskMessage.task =
        messages.filterMap TaskMessage.task := by
      rw [List.append_assoc]
      exact hrest
    exact ⟨⟨_, hsplit⟩, fun _ _ => hsplit⟩
  | @send task metadata out hphase hsend =>
    have hpending : s.pending = [task] := by simp [pending, hphase]
    have hdelivered : s.received ++ out.buffer ++ [] = s.delivered ++ s.pending := by
      rw [delivered_send hsend, hpending, List.append_nil]
    constructor
    · exact hdelivered ▸ hs.sent
    · intro hsub _
      exact hdelivered ▸ hs.rest hsub (by simp [hphase])
  | drop hphase hsend =>
    constructor
    · have hprefix : s.delivered ++ [] <+: s.delivered ++ s.pending := by simp
      exact hprefix.trans hs.sent
    · intro _ hgone
      exact absurd rfl hgone
  | noMetadata hphase => exact hs.keep rfl (by simp [pending, hphase]) rfl (by simp [hphase])
  | count hphase =>
    refine hs.keep rfl ?_ rfl fun hsub _ => ⟨hsub, by simp [hphase]⟩
    simp only [pending, hphase]
    split_ifs <;> rfl
  | unsubscribe hphase => exact hs.keep rfl (by simp [pending, hphase]) rfl nofun
  | cancel hphase | ack hphase =>
    exact hs.keep rfl (by simp [pending, hphase]) rfl (by simp [hphase])
  | panic | expire | callerEnds | created | failed | closeAgain =>
    exact hs.keep rfl rfl rfl fun hsub hphase => ⟨hsub, hphase⟩
  | close hphase hctx hclose =>
    exact hs.keep (delivered_close hclose) rfl rfl fun hsub hphase => ⟨hsub, hphase⟩
  | closerUnsubscribe hphase => exact hs.keep rfl rfl rfl nofun
  | receive hreceive =>
    exact hs.keep (delivered_receive hreceive) rfl rfl fun hsub hphase => ⟨hsub, hphase⟩

def lacksMetadata (s : TaskStream limit) : Bool :=
  match s.callback with
  | .sending _ none | .counting none => true
  | _ => false

/-- The tasks that were sent and are not counted yet. -/
def uncounted (s : TaskStream limit) : Nat :=
  match s.callback with
  | .counting _ => 1
  | _ => 0

/-- A callback is before its send, or another one may start. -/
def mayTake (s : TaskStream limit) : Bool :=
  match s.callback with
  | .sending _ _ => true
  | .idle | .acking => s.subscribed
  | _ => false

/-- With metadata on every message each task is counted, and there is room for one more
before every send. -/
structure Bounded (s : TaskStream limit) : Prop where
  inbox : ∀ m ∈ s.inbox, m.metadata ≠ none
  current : s.lacksMetadata = false
  counted : s.delivered.length = s.cnt + s.uncounted
  bound : s.delivered.length ≤ limit
  room : s.mayTake = true → s.delivered.length < limit
  gone : s.callback = .cancelling → s.subscribed = false

theorem Bounded.start (hlimit : 0 < limit) (hmessages : ∀ m ∈ messages, m.metadata ≠ none) :
    ({ inbox := messages } : TaskStream limit).Bounded :=
  ⟨hmessages, rfl, rfl, Nat.zero_le _, fun _ => hlimit, nofun⟩

theorem Bounded.keep (hs : s.Bounded) (hinbox : s'.inbox = s.inbox)
    (hcurrent : s'.lacksMetadata = false) (hdelivered : s'.delivered = s.delivered)
    (hcount : s'.cnt + s'.uncounted = s.cnt + s.uncounted)
    (hroom : s'.mayTake = true → s.delivered.length < limit)
    (hgone : s'.callback = .cancelling → s'.subscribed = false) : s'.Bounded where
  inbox := hinbox ▸ hs.inbox
  current := hcurrent
  counted := by
    rw [hdelivered, hcount]
    exact hs.counted
  bound := hdelivered ▸ hs.bound
  room := hdelivered ▸ hroom
  gone := hgone

theorem Bounded.uncons (hs : s.Bounded) {m : TaskMessage} {inbox : List TaskMessage}
    (hinbox : s.inbox = m :: inbox) : m.metadata ≠ none ∧ ∀ m' ∈ inbox, m'.metadata ≠ none := by
  have hall := hs.inbox
  rw [hinbox] at hall
  exact List.forall_mem_cons.mp hall

/-- A send takes the room that was kept for it and leaves one task to be counted. -/
theorem Bounded.send (hs : s.Bounded) {task : Task} {metadata : Option Nat}
    {out : Chan Task limit} (hphase : s.callback = .sending task metadata)
    (hsend : s.out.send task = .sent out) :
    ({ s with out, callback := .counting metadata } : TaskStream limit).Bounded := by
  have hroom := hs.room (by simp [mayTake, hphase])
  have hone : (s.received ++ out.buffer).length = s.delivered.length + 1 := by
    rw [delivered_send hsend, List.length_append, List.length_singleton]
  have hcounted := hs.counted
  have hcurrent := hs.current
  simp only [uncounted, hphase] at hcounted
  refine ⟨hs.inbox, ?_, ?_, hone ▸ hroom, nofun, nofun⟩
  · cases metadata with
    | none => simp [lacksMetadata, hphase] at hcurrent
    | some numPending => rfl
  · exact hone.trans (congrArg (· + 1) hcounted)

theorem Bounded.step (hs : s.Bounded) (h : s.step event = some s') : s'.Bounded := by
  cases (step_sound h).2 with
  | skip hidle hinbox hsub hm =>
    exact ⟨(hs.uncons hinbox).2, hs.current, hs.counted, hs.bound, hs.room, hs.gone⟩
  | deliver hidle hinbox hsub hm =>
    obtain ⟨hmetadata, hrest⟩ := hs.uncons hinbox
    obtain ⟨numPending, hmetadata⟩ := Option.ne_none_iff_exists'.mp hmetadata
    have hcounted := hs.counted
    simp only [uncounted, hidle] at hcounted
    refine ⟨hrest, by simp [lacksMetadata, hmetadata], hcounted, hs.bound, ?_, nofun⟩
    intro _
    exact hs.room (by simp [mayTake, hidle, hsub])
  | send hphase hsend => exact hs.send hphase hsend
  | drop hphase hsend =>
    exact hs.keep rfl rfl rfl (by simp [uncounted, hphase]) nofun nofun
  | noMetadata hphase =>
    have hcurrent := hs.current
    simp [lacksMetadata, hphase] at hcurrent
  | @count numPending hphase =>
    have hcounted := hs.counted
    have hbound := hs.bound
    simp only [uncounted, hphase] at hcounted
    by_cases hlast : numPending = 0 ∨ s.cnt + 1 = limit
    · simp only [hlast, if_true]
      exact hs.keep rfl rfl rfl (by simp [uncounted, hphase]) nofun nofun
    · simp only [hlast, if_false]
      refine hs.keep rfl rfl rfl (by simp [uncounted, hphase]) ?_ nofun
      intro _
      omega
  | unsubscribe hphase =>
    exact hs.keep rfl rfl rfl (by simp [uncounted, hphase]) nofun fun _ => rfl
  | cancel hphase =>
    refine hs.keep rfl rfl rfl (by simp [uncounted, hphase]) ?_ nofun
    intro htake
    have hsub : s.subscribed = true := htake
    rw [hs.gone hphase] at hsub
    cases hsub
  | ack hphase =>
    refine hs.keep rfl rfl rfl (by simp [uncounted, hphase]) ?_ nofun
    intro htake
    exact hs.room (by simpa [mayTake, hphase] using htake)
  | panic | expire | callerEnds | created | failed | closeAgain =>
    exact hs.keep rfl hs.current rfl rfl hs.room hs.gone
  | close hphase hctx hclose =>
    exact hs.keep rfl hs.current (delivered_close hclose) rfl hs.room hs.gone
  | receive hreceive =>
    exact hs.keep rfl hs.current (delivered_receive hreceive) rfl hs.room hs.gone
  | closerUnsubscribe hphase =>
    refine hs.keep rfl hs.current rfl rfl ?_ fun _ => rfl
    intro htake
    apply hs.room
    simp only [mayTake] at htake ⊢
    split at htake <;> simp_all

/-- In a calm run the context goes on while a callback is before its send. -/
structure Calm (s : TaskStream limit) : Prop where
  going : s.beforeSend = true → s.ctx = none
  unharmed : s.panicked = false

theorem Calm.step (hs : s.Calm) (hclosing : s.Closing) (hcalm : s.calm event = true)
    (h : s.step event = some s') : s'.Calm := by
  cases (step_sound h).2 with
  | skip hidle => exact ⟨hs.going, hs.unharmed⟩
  | deliver => exact ⟨fun _ => by simpa [calm] using hcalm, hs.unharmed⟩
  | panic hphase hsend =>
    have hgoing := hs.going (by simp [beforeSend, hphase])
    exact absurd hgoing (hclosing.ended (Chan.send_panicked hsend))
  | send | drop | noMetadata | unsubscribe | cancel | ack => exact ⟨nofun, hs.unharmed⟩
  | count =>
    refine ⟨?_, hs.unharmed⟩
    simp only [beforeSend]
    split_ifs <;> nofun
  | expire | callerEnds =>
    refine ⟨?_, hs.unharmed⟩
    intro hbefore
    have hnot : s.beforeSend = false := by simpa [calm] using hcalm
    rw [show s.beforeSend = true from hbefore] at hnot
    cases hnot
  | created | failed | close | closerUnsubscribe | receive => exact ⟨hs.going, hs.unharmed⟩
  | closeAgain hphase hclose =>
    have hopen := hclosing.isClosed
    simp [beforeClose, hphase, Chan.close_none hclose] at hopen

theorem Closing.exists_step_close (hs : s.Closing) (hunharmed : s.panicked = false)
    (hctx : s.ctx ≠ none) (hwaiting : s.closer = .waiting) :
    ∃ s', s.step .close = some s' ∧ s'.out.closed = true ∧ s'.callback = s.callback ∧
      s'.panicked = false := by
  have hopen : s.out.closed = false := by simpa [beforeClose, hwaiting] using hs.isClosed
  let out : Chan Task limit := { s.out with closed := true }
  refine ⟨{ s with out, closes := s.closes + 1, closer := .unsubscribing }, ?_, rfl, rfl,
    hunharmed⟩
  simp [TaskStream.step, stepCloser, hunharmed, hwaiting, hctx, Chan.close, hopen, out]

/-- Unless the consumer could not be created, the channel can be closed once the context
ended, whatever the callback does. -/
theorem Closing.exists_close (hs : s.Closing) (hunharmed : s.panicked = false)
    (hctx : s.ctx ≠ none) (hcreated : ∀ err, s.closer ≠ .failed err) :
    ∃ more s', s.run more = some s' ∧ s'.out.closed = true ∧ s'.callback = s.callback ∧
      s'.panicked = false := by
  have hisClosed := hs.isClosed
  cases hphase : s.closer with
  | failed err => exact absurd hphase (hcreated err)
  | creating =>
    have hcreate : s.step (.created none) = some { s with closer := .waiting } := by
      simp [TaskStream.step, stepCloser, hunharmed, hphase]
    obtain ⟨u, hstep, hclosed, hcallback, hu⟩ :=
      (hs.step hcreate).exists_step_close hunharmed hctx rfl
    exact ⟨[.created none, .close], u, (run_cons hcreate _).trans (run_cons hstep []), hclosed,
      hcallback, hu⟩
  | waiting =>
    obtain ⟨u, hstep, hclosed, hcallback, hu⟩ := hs.exists_step_close hunharmed hctx hphase
    exact ⟨[.close], u, run_cons hstep [], hclosed, hcallback, hu⟩
  | unsubscribing | returned =>
    refine ⟨[], s, rfl, ?_, rfl, hunharmed⟩
    simpa [beforeClose, hphase] using hisClosed

theorem step_send_closed (hunharmed : s.panicked = false) (hbefore : s.beforeSend = true)
    (hclosed : s.out.closed = true) : ∃ s', s.step .send = some s' ∧ s'.panicked = true := by
  unfold beforeSend at hbefore
  split at hbefore
  · rename_i task metadata hphase
    refine ⟨{ s with panicked := true }, ?_, rfl⟩
    simp [step, stepCallback, hunharmed, hphase, Chan.send, hclosed]
  · cases hbefore

/-- A callback that is before its send when the context has ended can be made to panic. -/
theorem Closing.exists_panic (hs : s.Closing) (hunharmed : s.panicked = false)
    (hbefore : s.beforeSend = true) (hctx : s.ctx ≠ none)
    (hcreated : ∀ err, s.closer ≠ .failed err) :
    ∃ more s', s.run more = some s' ∧ s'.panicked = true := by
  obtain ⟨more, u, hrun, hclosed, hcallback, hu⟩ := hs.exists_close hunharmed hctx hcreated
  have hbefore' : u.beforeSend = true := by
    rw [beforeSend, hcallback]
    exact hbefore
  obtain ⟨s', hsend, hpanicked⟩ := step_send_closed hu hbefore' hclosed
  exact ⟨more ++ [.send], s', (run_append hrun _).trans (run_cons hsend []), hpanicked⟩

end TaskStream

theorem taskLimit_pos (limit : Int) : 0 < taskLimit limit := by
  unfold taskLimit
  split_ifs <;> omega

theorem tasksStart_ok {ready : Bool} {limit : Int} {state : Except Error Nat}
    {subscribe : Option Error} {messages : List TaskMessage} {start : TaskStream (taskLimit limit)}
    (h : tasksStart ready limit state subscribe messages = .ok start) :
    start = { inbox := messages } := by
  unfold tasksStart at h
  split_ifs at h
  split at h
  · cases h
  · cases h
  · split at h
    · cases h
    · exact (Except.ok.inj h).symm

/-- In every run the channel is closed at most once and carries a prefix, in order, of the
tasks in the messages, no more than the limit if the messages have metadata. If no callback
is before its send when the context ends by itself and none starts after it, no send finds
the channel closed; otherwise one may. -/
theorem tasks_stream (ready : Bool) (limit : Int) (state : Except Error Nat)
    (subscribe : Option Error) (messages : List TaskMessage)
    (start : TaskStream (taskLimit limit))
    (hstart : tasksStart ready limit state subscribe messages = .ok start)
    (events : List StreamEvent) (s : TaskStream (taskLimit limit))
    (hrun : start.run events = some s) :
    s.closes ≤ 1 ∧ s.delivered <+: messages.filterMap TaskMessage.task ∧
    ((∀ m ∈ messages, m.metadata ≠ none) → s.delivered.length ≤ taskLimit limit) ∧
    (runWhile TaskStream.step TaskStream.calm start events = some s → s.panicked = false) ∧
    (s.panicked = false → s.beforeSend = true → s.ctx ≠ none →
      (∀ err, s.closer ≠ .failed err) → ∃ more s', s.run more = some s' ∧ s'.panicked = true) := by
  obtain rfl := tasksStart_ok hstart
  have hclosing : s.Closing :=
    run_induction TaskStream.Closing.step events (.start messages) hrun
  refine ⟨?_, ?_, ?_, ?_, hclosing.exists_panic⟩
  · rw [hclosing.closes]
    split <;> omega
  · have horder : s.InOrder messages :=
      run_induction TaskStream.InOrder.step events (.start messages) hrun
    exact (List.prefix_append _ _).trans horder.sent
  · intro hmessages
    have hbounded : s.Bounded := run_induction TaskStream.Bounded.step events
      (.start (taskLimit_pos limit) hmessages) hrun
    exact hbounded.bound
  · intro hcalm
    have hboth : s.Closing ∧ s.Calm := by
      apply runWhile_induction (P := fun u => u.Closing ∧ u.Calm) ?_ events
        ⟨.start messages, ⟨nofun, rfl⟩⟩ hcalm
      intro u u' event hu hmeets hstep
      exact ⟨hu.1.step hstep, hu.2.step hu.1 hmeets hstep⟩
    exact hboth.2.unharmed

/-- A message with the sample task and as many others pending. -/
def sampleMessage (numPending : Nat) : TaskMessage where
  data := some (.ok sampleTask)
  metadata := some numPending

/-- The only stored task is sent and the channel is closed. -/
def listOne : List StreamEvent :=
  [.created none, .deliver, .send, .count, .unsubscribe, .cancel, .ack, .close,
    .closerUnsubscribe]

theorem tasks_stream_one :
    ∃ start s, tasksStart true 5 (.ok 1) none [sampleMessage 0] = .ok start ∧
      start.run listOne = some s ∧ s.delivered = [sampleTask] ∧ s.out.closed = true ∧
      s.closes ≤ 1 ∧ s.panicked = false := by
  let start : TaskStream (taskLimit 5) := { inbox := [sampleMessage 0] }
  have hany : (runWhile TaskStream.step TaskStream.calm start listOne).any
      (fun s => s.delivered = [sampleTask] && s.out.closed) = true := by decide +kernel
  obtain ⟨s, hcalm, htest⟩ := (Option.any_eq_true _ _).mp hany
  obtain ⟨hdelivered, hclosed⟩ := (Bool.and_eq_true _ _).mp htest
  have hrun : start.run listOne = some s := run_of_runWhile hcalm
  obtain ⟨hcloses, -, -, hunharmed, -⟩ :=
    tasks_stream true 5 (.ok 1) none [sampleMessage 0] start rfl listOne s hrun
  exact ⟨start, s, rfl, hrun, of_decide_eq_true hdelivered, hclosed, hcloses, hunharmed hcalm⟩

/-- The caller goes away after the callback was started: the channel is closed before the
callback sends. -/
theorem tasks_sends_on_closed_channel :
    ∃ start s s', tasksStart true 5 (.ok 2) none [sampleMessage 1] = .ok start ∧
      start.run [.created none, .deliver, .callerEnds, .close] = some s ∧
      s.out.closed = true ∧ s.step .send = some s' ∧ s'.panicked = true := by
  let start : TaskStream (taskLimit 5) := { inbox := [sampleMessage 1] }
  have hany : (start.run [.created none, .deliver, .callerEnds, .close]).any
      (fun s => s.out.closed && (s.step .send).any (·.panicked)) = true := by decide +kernel
  obtain ⟨s, hrun, htest⟩ := (Option.any_eq_true _ _).mp hany
  obtain ⟨hclosed, hsend⟩ := (Bool.and_eq_true _ _).mp htest
  obtain ⟨s', hstep, hpanicked⟩ := (Option.any_eq_true _ _).mp hsend
  exact ⟨start, s, s', rfl, hrun, hclosed, hstep, hpanicked⟩

end AsyncJobs
