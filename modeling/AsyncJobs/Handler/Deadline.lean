import AsyncJobs.Model.Storage
import AsyncJobs.Interaction.Run
import AsyncJobs.Interaction.Timer

/-!
# The deadline of a handler

`handle` gives its handler a context that a timer cancels after the `MaxRunTime` of the
queue. Every goroutine that has the task may call `MarkInProgress`: it holds the mutex of
the task while the lease is extended at the server and resets the timer when that worked.
The timer fires, the parent context ends, requests are answered and time passes in any
order.

A timer that fired while the lease was being extended is reset like any other, yet the
function it started still cancels the context. A call that returns nil gives the handler
another `MaxRunTime` exactly when the timer has not fired before.
-/

namespace AsyncJobs

open Interaction

/-- What ended the context of the handler: the function of the timer, the parent context
or the deferred `cancel` of `handle`. -/
inductive Cancellation where
  | timer
  | parent
  | returned
  deriving DecidableEq, Repr

/-- Where the goroutine of `handle` is: before `setInProgressFunc`, in the handler, before
`clearInProgressFunc`, in the requests that follow it, or returned. -/
inductive HandlePhase where
  | starting
  | running
  | clearing
  | finishing
  | returned
  deriving DecidableEq, Repr

/-- `mu` says that a call of `MarkInProgress` waits for its reply and holds the mutex. -/
structure HandlerRun where
  now : Int
  timer : Timer
  ctx : Option Cancellation := none
  inProgressFunc : Bool := false
  mu : Bool := false
  phase : HandlePhase := .starting
  deriving DecidableEq, Repr

/-- What happens next. `mark` is a call of `MarkInProgress` that gets the mutex and `reply`
is the answer to its request; `err` is its error. -/
inductive HandlerEvent where
  | pass (duration : Nat)
  | fire
  | cancel
  | parentEnds
  | setInProgressFunc
  | mark
  | reply (err : Option Error)
  | handlerReturns
  | clearInProgressFunc
  | handleReturns
  deriving DecidableEq, Repr

/-- The state after `time.AfterFunc(to, cancel)`; `to` is the `MaxRunTime` of the queue. -/
def HandlerRun.start (now maxRunTime : Int) : HandlerRun where
  now := now
  timer := { deadline := now + maxRunTime }

namespace HandlerRun

/-- The first cancellation of a context is the one that counts. -/
def endCtx (s : HandlerRun) (cause : Cancellation) : HandlerRun :=
  { s with ctx := s.ctx.or (some cause) }

/-- The error with which `MarkInProgress` returns before it sends a request. -/
def refusal (item : ProcessItem) (s : HandlerRun) : Option Error :=
  if !s.inProgressFunc then some Sentinel.inProgressNotSupported.error
  else if item.storageMeta.isNone then some Sentinel.invalidStorageItem.error
  else none

/-- The lease was extended: the timer is reset and the call returns nil. -/
def extend (maxRunTime : Int) (s : HandlerRun) : HandlerRun :=
  { s with mu := false, timer := s.timer.reset s.now maxRunTime }

def step (item : ProcessItem) (maxRunTime : Int) (s : HandlerRun) : HandlerEvent → Option HandlerRun
  | .pass duration => some { s with now := s.now + duration }
  | .fire => (s.timer.fire s.now).map fun timer => { s with timer }
  | .cancel => s.timer.finish.map fun timer => { s.endCtx .timer with timer }
  | .parentEnds => some (s.endCtx .parent)
  | .setInProgressFunc =>
    if s.phase = .starting ∧ !s.mu then some { s with inProgressFunc := true, phase := .running }
    else none
  | .mark =>
    if s.mu then none
    else if (s.refusal item).isSome then some s
    else some { s with mu := true }
  | .reply none => if s.mu then some (s.extend maxRunTime) else none
  | .reply (some _) => if s.mu then some { s with mu := false } else none
  | .handlerReturns => if s.phase = .running then some { s with phase := .clearing } else none
  | .clearInProgressFunc =>
    if s.phase = .clearing ∧ !s.mu then some { s with inProgressFunc := false, phase := .finishing }
    else none
  | .handleReturns =>
    if s.phase = .finishing then
      some { s.endCtx .returned with timer := s.timer.stop, phase := .returned }
    else none

def run (item : ProcessItem) (maxRunTime : Int) (s : HandlerRun) (events : List HandlerEvent) :
    Option HandlerRun :=
  Interaction.run (step item maxRunTime) s events

/-- What a call of `MarkInProgress` returns in an event that ends one. -/
def returns (item : ProcessItem) (s : HandlerRun) : HandlerEvent → Option (Option Error)
  | .mark => (s.refusal item).map some
  | .reply err => some err
  | _ => none

/-- The timer has not cancelled the context and does not before this instant, whatever
happens next. -/
def KeepsContextUntil (item : ProcessItem) (maxRunTime : Int) (s : HandlerRun) (instant : Int) :
    Prop :=
  s.ctx ≠ some .timer ∧
    ∀ events s', s.run item maxRunTime events = some s' → s'.now < instant → s'.ctx ≠ some .timer

/-- What an event does to the clock, the timer and the context. -/
inductive Effect (maxRunTime : Int) (s : HandlerRun) : HandlerEvent → HandlerRun → Prop
  | pass (duration : Nat) :
      Effect maxRunTime s (.pass duration) { s with now := s.now + duration }
  | fire {timer : Timer} (h : s.timer.fire s.now = some timer) :
      Effect maxRunTime s .fire { s with timer }
  | cancel {timer : Timer} (h : s.timer.finish = some timer) :
      Effect maxRunTime s .cancel { s.endCtx .timer with timer }
  | parentEnds : Effect maxRunTime s .parentEnds (s.endCtx .parent)
  | extended : Effect maxRunTime s (.reply none) (s.extend maxRunTime)
  | handleReturns :
      Effect maxRunTime s .handleReturns
        { s.endCtx .returned with timer := s.timer.stop, phase := .returned }
  | quiet {event : HandlerEvent} {s' : HandlerRun} (hreply : event ≠ .reply none)
      (hnow : s'.now = s.now) (htimer : s'.timer = s.timer) (hctx : s'.ctx = s.ctx) :
      Effect maxRunTime s event s'

variable {item : ProcessItem} {maxRunTime instant : Int} {s s' : HandlerRun} {event : HandlerEvent}

theorem step_effect (h : s.step item maxRunTime event = some s') :
    Effect maxRunTime s event s' := by
  cases event with
  | pass duration =>
    cases h
    exact .pass duration
  | fire =>
    obtain ⟨timer, hfire, rfl⟩ := Option.map_eq_some_iff.mp h
    exact .fire hfire
  | cancel =>
    obtain ⟨timer, hfinish, rfl⟩ := Option.map_eq_some_iff.mp h
    exact .cancel hfinish
  | parentEnds =>
    cases h
    exact .parentEnds
  | reply err =>
    cases err with
    | none =>
      simp only [step] at h
      split_ifs at h
      cases h
      exact .extended
    | some err =>
      simp only [step] at h
      split_ifs at h
      cases h
      exact .quiet (by simp) rfl rfl rfl
  | handleReturns =>
    simp only [step] at h
    split_ifs at h
    cases h
    exact .handleReturns
  | setInProgressFunc | mark | handlerReturns | clearInProgressFunc =>
    simp only [step] at h
    split_ifs at h <;> cases h <;> exact .quiet (by simp) rfl rfl rfl

/-- The context is ended by the timer only after its function ran, and no function ran
while the context goes on. -/
structure Consistent (s : HandlerRun) : Prop where
  finished : s.timer.finished ≤ s.timer.fired
  live : s.ctx = none → s.timer.finished = 0
  ended : s.ctx = some .timer → 0 < s.timer.finished

theorem endCtx_ctx_ne_none (s : HandlerRun) (cause : Cancellation) :
    (s.endCtx cause).ctx ≠ none := by
  unfold endCtx
  cases s.ctx <;> simp

theorem endCtx_ctx_timer {cause : Cancellation} (hcause : cause ≠ .timer)
    (h : (s.endCtx cause).ctx = some .timer) : s.ctx = some .timer := by
  unfold endCtx at h
  cases hctx : s.ctx with
  | none =>
    rw [hctx] at h
    exact absurd (Option.some.inj h) hcause
  | some c =>
    rw [hctx] at h
    exact h

theorem Consistent.start (now maxRunTime : Int) : (start now maxRunTime).Consistent :=
  ⟨Nat.le_refl 0, fun _ => rfl, nofun⟩

theorem Consistent.step (hs : s.Consistent) (h : s.step item maxRunTime event = some s') :
    s'.Consistent := by
  cases step_effect h with
  | pass duration => exact ⟨hs.finished, hs.live, hs.ended⟩
  | fire hfire =>
    obtain ⟨-, -, rfl⟩ := Timer.fire_some hfire
    exact ⟨Nat.le_succ_of_le hs.finished, hs.live, hs.ended⟩
  | cancel hfinish =>
    obtain ⟨hstarted, rfl⟩ := Timer.finish_some hfinish
    exact ⟨hstarted, fun hnone => absurd hnone (endCtx_ctx_ne_none s _), fun _ => Nat.succ_pos _⟩
  | parentEnds =>
    refine ⟨hs.finished, fun hnone => absurd hnone (endCtx_ctx_ne_none s _), ?_⟩
    intro htimer
    exact hs.ended (endCtx_ctx_timer (by simp) htimer)
  | extended => exact ⟨hs.finished, hs.live, hs.ended⟩
  | handleReturns =>
    refine ⟨hs.finished, fun hnone => absurd hnone (endCtx_ctx_ne_none s _), ?_⟩
    intro htimer
    exact hs.ended (endCtx_ctx_timer (by simp) htimer)
  | quiet hreply hnow htimer hctx =>
    constructor
    · rw [htimer]
      exact hs.finished
    · rw [htimer, hctx]
      exact hs.live
    · rw [htimer, hctx]
      exact hs.ended

theorem Consistent.run (hs : s.Consistent) {events : List HandlerEvent}
    (h : s.run item maxRunTime events = some s') : s'.Consistent :=
  run_induction Consistent.step events hs h

/-- Up to an instant that is at most the run time away, the timer is quiet. -/
structure Undisturbed (maxRunTime instant : Int) (s : HandlerRun) : Prop where
  quiet : s.timer.QuietUntil s.now instant
  near : instant ≤ s.now + maxRunTime

theorem Undisturbed.step (hs : s.Undisturbed maxRunTime instant)
    (h : s.step item maxRunTime event = some s') :
    s'.Undisturbed maxRunTime instant := by
  obtain ⟨hquiet, hnear⟩ := hs
  cases step_effect h with
  | pass duration =>
    have hnow : s.now ≤ s.now + duration := by omega
    exact ⟨hquiet.pass hnow, by simp only; omega⟩
  | fire hfire => exact ⟨hquiet.fire hfire, hnear⟩
  | cancel hfinish => exact ⟨hquiet.finish hfinish, hnear⟩
  | parentEnds => exact ⟨hquiet, hnear⟩
  | extended => exact ⟨hquiet.reset hnear, hnear⟩
  | handleReturns => exact ⟨hquiet.stop, hnear⟩
  | quiet hreply hnow htimer hctx =>
    constructor
    · rw [htimer, hnow]
      exact hquiet
    · rw [hnow]
      exact hnear

theorem Undisturbed.keepsContext (hs : s.Undisturbed maxRunTime instant) (hc : s.Consistent)
    (hctx : s.ctx ≠ some .timer) : s.KeepsContextUntil item maxRunTime instant := by
  refine ⟨hctx, ?_⟩
  intro events s' hrun hnow htimer
  have hs' : s'.Undisturbed maxRunTime instant := run_induction Undisturbed.step events hs hrun
  have hc' : s'.Consistent := hc.run hrun
  have hfired : 0 < s'.timer.fired := Nat.lt_of_lt_of_le (hc'.ended htimer) hc'.finished
  have hlate : instant ≤ s'.now := hs'.quiet.fired hfired
  omega

theorem ctx_stable {cause : Cancellation} (hs : s.ctx = some cause)
    (h : s.step item maxRunTime event = some s') : s'.ctx = some cause := by
  cases step_effect h with
  | pass | fire | extended => exact hs
  | cancel | parentEnds | handleReturns => simp [endCtx, hs]
  | quiet hreply hnow htimer hctx => exact hctx.trans hs

theorem keepsContext_of_ended {cause : Cancellation} (hcause : cause ≠ .timer)
    (hs : s.ctx = some cause) : s.KeepsContextUntil item maxRunTime instant := by
  have hne : ∀ {u : HandlerRun}, u.ctx = some cause → u.ctx ≠ some .timer := by
    intro u hu htimer
    exact hcause (Option.some.inj (hu.symm.trans htimer))
  refine ⟨hne hs, ?_⟩
  intro events s' hrun hnow
  exact hne (run_induction ctx_stable events hs hrun)

/-- A function that was started before the timer was reset cancels the context. -/
theorem not_keepsContext (hc : s.Consistent) (hfired : s.timer.fired ≠ 0)
    (hctx : s.ctx = none ∨ s.ctx = some .timer) (hinstant : s.now < instant) :
    ¬ s.KeepsContextUntil item maxRunTime instant := by
  intro hkeeps
  obtain hlive | hended := hctx
  · have hstarted : s.timer.finished < s.timer.fired := by
      have := hc.live hlive
      omega
    have hcancel : s.run item maxRunTime [.cancel] = some { s.endCtx .timer with
        timer := { s.timer with finished := s.timer.finished + 1 } } := by
      simp [run, Interaction.run, runWhile, step, Timer.finish_of_lt hstarted]
    exact hkeeps.2 _ _ hcancel hinstant (by simp [endCtx, hlive])
  · exact hkeeps.1 hended

/-- While a call waits for its reply nothing but the reply sets a deadline. -/
def SameDeadline (t : Timer) (s : HandlerRun) : Prop :=
  s.timer.deadline = t.deadline ∧ (s.timer.armed = true → t.armed = true)

theorem SameDeadline.step {t : Timer} (hs : s.SameDeadline t) (hevent : event ≠ .reply none)
    (h : s.step item maxRunTime event = some s') : s'.SameDeadline t := by
  cases step_effect h with
  | pass | parentEnds => exact hs
  | fire hfire =>
    obtain ⟨harmed, -, rfl⟩ := Timer.fire_some hfire
    exact ⟨hs.1, nofun⟩
  | cancel hfinish =>
    obtain ⟨-, rfl⟩ := Timer.finish_some hfinish
    exact hs
  | extended => exact absurd rfl hevent
  | handleReturns => exact ⟨hs.1, nofun⟩
  | quiet hreply hnow htimer hctx =>
    rw [SameDeadline, htimer]
    exact hs

theorem mark_timer (h : s.step item maxRunTime .mark = some s') : s'.timer = s.timer := by
  cases step_effect h with
  | quiet hreply hnow htimer hctx => exact htimer

/-- The timer has not fired, or the context ended for another reason first. -/
def NotTimedOut (s : HandlerRun) : Prop :=
  s.timer.fired = 0 ∨ s.ctx = some .parent ∨ s.ctx = some .returned

theorem Consistent.ctx_ne_timer (hc : s.Consistent) (hfired : s.timer.fired = 0) :
    s.ctx ≠ some .timer := by
  intro htimer
  have hran := hc.ended htimer
  have hbound := hc.finished
  omega

theorem extend_consistent (hc : s.Consistent) : (s.extend maxRunTime).Consistent :=
  ⟨hc.finished, hc.live, hc.ended⟩

theorem extend_keepsContext (hc : s.Consistent) (hs : s.NotTimedOut) :
    (s.extend maxRunTime).KeepsContextUntil item maxRunTime (s.now + maxRunTime) := by
  obtain hfired | hparent | hreturned := hs
  · have hquiet : (s.extend maxRunTime).Undisturbed maxRunTime (s.now + maxRunTime) :=
      ⟨Timer.QuietUntil.of_reset hfired, Int.le_refl _⟩
    exact hquiet.keepsContext (extend_consistent hc) (hc.ctx_ne_timer hfired)
  · exact keepsContext_of_ended (by simp) hparent
  · exact keepsContext_of_ended (by simp) hreturned

theorem notTimedOut_of_extend (hc : s.Consistent) (hpos : 0 < maxRunTime)
    (h : (s.extend maxRunTime).KeepsContextUntil item maxRunTime (s.now + maxRunTime)) :
    s.NotTimedOut := by
  by_contra hcond
  obtain ⟨hfired, hparent, hreturned⟩ : s.timer.fired ≠ 0 ∧ s.ctx ≠ some .parent ∧
    s.ctx ≠ some .returned := by simpa [NotTimedOut] using hcond
  have hctx : s.ctx = none ∨ s.ctx = some .timer := by
    rcases hctx : s.ctx with - | (- | - | -)
    · exact .inl rfl
    · exact .inr rfl
    · exact absurd hctx hparent
    · exact absurd hctx hreturned
  have hlater : (s.extend maxRunTime).now < s.now + maxRunTime := by
    simp only [extend]
    omega
  exact not_keepsContext (extend_consistent hc) hfired hctx hlater h

/-- Only a reply ends a call with nil, and it resets the timer. -/
theorem returns_nil (hstep : s.step item maxRunTime event = some s')
    (hreturns : s.returns item event = some none) : s' = s.extend maxRunTime := by
  obtain rfl : event = .reply none := by
    cases event with
    | reply err => exact congrArg _ (Option.some.inj hreturns)
    | mark =>
      obtain ⟨err, -, herr⟩ := Option.map_eq_some_iff.mp hreturns
      cases herr
    | _ => cases hreturns
  cases step_effect hstep with
  | quiet hreply => exact absurd rfl hreply
  | extended => rfl

/-- A call that waits for its reply and gets an error has not moved the deadline. -/
theorem failed_sameDeadline {s₀ u : HandlerRun} {during : List HandlerEvent} {err : Error}
    (hmark : s.step item maxRunTime .mark = some s₀)
    (hduring : ∀ reply, HandlerEvent.reply reply ∉ during)
    (hrun : s₀.run item maxRunTime during = some u)
    (hreply : u.step item maxRunTime (.reply (some err)) = some s') : s'.SameDeadline s.timer := by
  have hbegun : s₀.SameDeadline s.timer := by
    rw [SameDeadline, mark_timer hmark]
    exact ⟨rfl, id⟩
  have hother : ∀ event ∈ during, event ≠ .reply none := by
    intro event hevent heq
    exact hduring none (heq ▸ hevent)
  have hwaits : u.SameDeadline s.timer :=
    run_induction_of SameDeadline.step during hother hbegun hrun
  exact hwaits.step (by simp) hreply

/-- A call that returns nil gives the handler another `MaxRunTime` exactly when the timer
had not fired by then. A call that returns an error, at once or after any wait for its
reply, leaves the deadline alone. -/
theorem markInProgress_deadline (item : ProcessItem) (now maxRunTime : Int)
    (before : List HandlerEvent) (s : HandlerRun)
    (hs : (start now maxRunTime).run item maxRunTime before = some s) :
    (∀ event s', s.step item maxRunTime event = some s' → s.returns item event = some none →
      (s.NotTimedOut → s'.KeepsContextUntil item maxRunTime (s'.now + maxRunTime)) ∧
      (0 < maxRunTime → s'.KeepsContextUntil item maxRunTime (s'.now + maxRunTime) →
        s.NotTimedOut)) ∧
    (∀ s' err, s.step item maxRunTime .mark = some s' →
      s.returns item .mark = some (some err) → s'.timer = s.timer) ∧
    (∀ s₀ during u s' err, s.step item maxRunTime .mark = some s₀ →
      (∀ reply, HandlerEvent.reply reply ∉ during) → s₀.run item maxRunTime during = some u →
      u.step item maxRunTime (.reply (some err)) = some s' → s'.SameDeadline s.timer) := by
  have hc : s.Consistent := (Consistent.start now maxRunTime).run hs
  refine ⟨?_, fun s' err hstep _ => mark_timer hstep, ?_⟩
  · intro event s' hstep hreturns
    rw [returns_nil hstep hreturns]
    exact ⟨extend_keepsContext hc, notTimedOut_of_extend hc⟩
  · intro s₀ during u s' err hmark hduring hrun hreply
    exact failed_sameDeadline hmark hduring hrun hreply

/-- An item as `PollQueue` returns it. -/
def sampleItem : ProcessItem :=
  { jobID := "T1", storageMeta := some { queue := "EMAIL", seq := 1, numDelivered := 1 } }

/-- A call waits for its reply fifty units after the start. -/
def waiting : HandlerRun where
  now := 50
  timer := { deadline := 60 }
  inProgressFunc := true
  mu := true
  phase := .running

/-- A call is answered ten units before the deadline and the handler keeps its context for
sixty more. -/
theorem markInProgress_in_time :
    (start 0 60).run sampleItem 60 [.setInProgressFunc, .mark, .pass 50] = some waiting ∧
      waiting.step sampleItem 60 (.reply none) = some (waiting.extend 60) ∧
      (waiting.extend 60).KeepsContextUntil sampleItem 60 110 := by
  refine ⟨rfl, rfl, ?_⟩
  obtain ⟨hnil, -⟩ := markInProgress_deadline sampleItem 0 60
    [.setInProgressFunc, .mark, .pass 50] waiting rfl
  exact (hnil (.reply none) (waiting.extend 60) rfl rfl).1 (.inl rfl)

/-- The timer fires while the lease is extended: the call returns nil and the function that
was started cancels the context at once. -/
theorem markInProgress_races_timer :
    ∃ s s' s'',
      (start 0 60).run sampleItem 60 [.setInProgressFunc, .mark, .pass 60, .fire] = some s ∧
      s.step sampleItem 60 (.reply none) = some s' ∧
      s.returns sampleItem (.reply none) = some none ∧
      s'.run sampleItem 60 [.cancel] = some s'' ∧ s''.now < s'.now + 60 ∧
      s''.ctx = some .timer :=
  ⟨_, _, _, rfl, rfl, rfl, rfl, by decide, rfl⟩

end HandlerRun

end AsyncJobs
