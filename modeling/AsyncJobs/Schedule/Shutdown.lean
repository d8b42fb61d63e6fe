import AsyncJobs.Model.Scheduler
import AsyncJobs.Interaction.Channel
import AsyncJobs.Interaction.Run

/-!
# Shutting the scheduler down

`prepareAndWatch` starts a goroutine that reads the channel of `ScheduledTasksWatch` and
waits for the first signal on a channel with one slot. The goroutine signals for every nil
it reads and once more when the context ends, and nobody receives after the first signal.
A nil is read for the end of the snapshot, and any number of times once
`ScheduledTasksWatch` has closed its channel.

The goroutine returns after the context ended exactly when it has read at most one nil.
-/

namespace AsyncJobs

open Interaction

/-- The goroutine of `ScheduledTasksWatch`: at its `select`, sending on its channel, or
returned. -/
inductive WatchPhase where
  | select
  | sending (entry : Option ScheduleWatchEntry)
  | returned
  deriving DecidableEq, Repr

/-- The goroutine of `prepareAndWatch`: at its `select`, sending on `ready` for a nil or for
the end of the context, or returned, which releases the wait group. -/
inductive LoaderPhase where
  | select
  | signalling (ctxDone : Bool)
  | returned
  deriving DecidableEq, Repr

/-- `nils` counts the nils that the goroutine has read. -/
structure WatchRun (σ : Type) where
  scheduler : TaskScheduler σ
  cancelled : Bool := false
  storage : WatchPhase := .select
  watch : Chan (Option ScheduleWatchEntry) 100 := {}
  loader : LoaderPhase := .select
  ready : Chan Unit 1 := {}
  mainReturned : Bool := false
  nils : Nat := 0

/-- What happens next. `update` is what the watch of the bucket yields; `push` and `signal`
are sends that go through, on the channel of the watch and on `ready`. -/
inductive WatchEvent where
  | cancel
  | update (entry : Option BucketEntry)
  | push
  | closeWatch
  | take
  | ctxDone
  | signal
  | receiveReady

namespace WatchRun

variable {σ : Type}

/-- The context of `ScheduledTasksWatch` also ends when the goroutine returns. -/
def watchCtxDone (s : WatchRun σ) : Bool := s.cancelled || s.loader = .returned

def step (parse : String → Except Error σ) (keepWatch : Bool) (s : WatchRun σ) :
    WatchEvent → Option (WatchRun σ)
  | .cancel => some { s with cancelled := true }
  | .update entry =>
    if s.storage = .select then
      match scheduledTasksWatch entry with
      | none => some s
      | some item => some { s with storage := .sending item }
    else none
  | .push =>
    match s.storage with
    | .sending item =>
      match s.watch.send item with
      | .sent watch => some { s with storage := .select, watch }
      | _ => none
    | _ => none
  | .closeWatch =>
    if s.storage = .select ∧ s.watchCtxDone then
      s.watch.close.map fun watch => { s with storage := .returned, watch }
    else none
  | .take =>
    if s.loader = .select then
      s.watch.receive.map fun received =>
        match received.1.join with
        | none =>
          { s with watch := received.2, loader := .signalling false, nils := s.nils + 1 }
        | some item =>
          { s with
            watch := received.2, scheduler := s.scheduler.handleEntry parse (some item) }
    else none
  | .ctxDone =>
    if s.loader = .select ∧ s.cancelled then some { s with loader := .signalling true } else none
  | .signal =>
    match s.loader with
    | .signalling ctxDone =>
      match s.ready.send () with
      | .sent ready =>
        some { s with ready, loader := if ctxDone || !keepWatch then .returned else .select }
      | _ => none
    | _ => none
  | .receiveReady =>
    if s.mainReturned then none
    else s.ready.receive.map fun received => { s with ready := received.2, mainReturned := true }

def run (parse : String → Except Error σ) (keepWatch : Bool) (s : WatchRun σ)
    (events : List WatchEvent) : Option (WatchRun σ) :=
  Interaction.run (step parse keepWatch) s events

/-- The goroutine waits to send on `ready` and nobody is left to receive. -/
def Stuck (s : WatchRun σ) : Prop :=
  (∃ ctxDone, s.loader = .signalling ctxDone) ∧ s.ready.send () = .blocked ∧
    s.mainReturned = true

end WatchRun

/-- The signals that the goroutine still has to send. -/
def LoaderPhase.pending : LoaderPhase → Nat
  | .signalling _ => 1
  | _ => 0

/-- Whether the goroutine has seen the end of the context. -/
def LoaderPhase.last : LoaderPhase → Nat
  | .signalling true | .returned => 1
  | _ => 0

/-- Where the goroutine is after a signal, when the watch is kept. -/
def LoaderPhase.signalled (ctxDone : Bool) : LoaderPhase := if ctxDone then .returned else .select

@[simp] theorem LoaderPhase.signalled_pending (ctxDone : Bool) :
    (signalled ctxDone).pending = 0 := by cases ctxDone <;> rfl

@[simp] theorem LoaderPhase.signalled_last (ctxDone : Bool) :
    (signalled ctxDone).last = (signalling ctxDone).last := by cases ctxDone <;> rfl

theorem LoaderPhase.last_le (phase : LoaderPhase) : phase.last ≤ 1 := by
  unfold last
  split <;> omega

namespace WatchRun

variable {σ : Type} {parse : String → Except Error σ} {s s' : WatchRun σ} {event : WatchEvent}

def received (s : WatchRun σ) : Nat := if s.mainReturned then 1 else 0

/-- Every nil and the end of the context is one signal, which is on its way, in the slot or
received. -/
structure Counted (s : WatchRun σ) : Prop where
  isOpen : s.ready.closed = false
  signals : s.ready.buffer.length + s.received + s.loader.pending = s.nils + s.loader.last

/-- What an event does to the signals, when the watch is kept. -/
inductive Effect (s : WatchRun σ) : WatchRun σ → Prop
  | quiet {s' : WatchRun σ} (hloader : s'.loader = s.loader) (hready : s'.ready = s.ready)
      (hmain : s'.mainReturned = s.mainReturned) (hnils : s'.nils = s.nils) : Effect s s'
  | nil {s' : WatchRun σ} (hselect : s.loader = .select) (hloader : s'.loader = .signalling false)
      (hready : s'.ready = s.ready) (hmain : s'.mainReturned = s.mainReturned)
      (hnils : s'.nils = s.nils + 1) : Effect s s'
  | ctxDone (hselect : s.loader = .select) : Effect s { s with loader := .signalling true }
  | signal {ctxDone : Bool} {ready : Chan Unit 1} (hloader : s.loader = .signalling ctxDone)
      (hsend : s.ready.send () = .sent ready) :
      Effect s { s with ready, loader := .signalled ctxDone }
  | receiveReady {r : Option Unit} {ready : Chan Unit 1} (hmain : s.mainReturned = false)
      (hreceive : s.ready.receive = some (r, ready)) :
      Effect s { s with ready, mainReturned := true }

theorem step_effect (h : s.step parse true event = some s') : Effect s s' := by
  cases event with
  | cancel =>
    cases h
    exact .quiet rfl rfl rfl rfl
  | update entry =>
    simp only [step] at h
    split_ifs at h
    split at h <;> cases h <;> exact .quiet rfl rfl rfl rfl
  | push =>
    simp only [step] at h
    split at h
    · split at h <;> cases h
      exact .quiet rfl rfl rfl rfl
    · cases h
  | closeWatch =>
    simp only [step] at h
    split_ifs at h
    obtain ⟨watch, -, rfl⟩ := Option.map_eq_some_iff.mp h
    exact .quiet rfl rfl rfl rfl
  | take =>
    simp only [step] at h
    split_ifs at h with hselect
    obtain ⟨received, -, rfl⟩ := Option.map_eq_some_iff.mp h
    split
    · exact .nil hselect rfl rfl rfl rfl
    · exact .quiet rfl rfl rfl rfl
  | ctxDone =>
    simp only [step] at h
    split_ifs at h with hselect
    cases h
    exact .ctxDone hselect.1
  | signal =>
    simp only [step] at h
    split at h
    · rename_i ctxDone hloader
      split at h
      · rename_i ready hsend
        cases h
        simpa [LoaderPhase.signalled] using Effect.signal hloader hsend
      · cases h
    · cases h
  | receiveReady =>
    simp only [step] at h
    split_ifs at h with hmain
    obtain ⟨⟨r, ready⟩, hreceive, rfl⟩ := Option.map_eq_some_iff.mp h
    exact .receiveReady (by simpa using hmain) hreceive

theorem Counted.start (scheduler : TaskScheduler σ) : ({ scheduler } : WatchRun σ).Counted :=
  ⟨rfl, rfl⟩

theorem Counted.step (hs : s.Counted) (h : s.step parse true event = some s') : s'.Counted := by
  obtain ⟨hopen, hsignals⟩ := hs
  cases step_effect h with
  | quiet hloader hready hmain hnils =>
    refine ⟨hready ▸ hopen, ?_⟩
    rw [received, hready, hmain, hloader, hnils]
    exact hsignals
  | nil hselect hloader hready hmain hnils =>
    refine ⟨hready ▸ hopen, ?_⟩
    rw [received, hready, hmain, hloader, hnils]
    simp only [hselect, received, LoaderPhase.pending, LoaderPhase.last] at hsignals ⊢
    omega
  | ctxDone hselect =>
    refine ⟨hopen, ?_⟩
    simp only [hselect, received, LoaderPhase.pending, LoaderPhase.last] at hsignals ⊢
    omega
  | @signal ctxDone ready hloader hsend =>
    obtain ⟨-, -, hstill, hbuffer⟩ := Chan.send_sent hsend
    refine ⟨hstill, ?_⟩
    have hone : (LoaderPhase.signalling ctxDone).pending = 1 := rfl
    rw [hloader, hone] at hsignals
    simp only [received, hbuffer, List.length_append, List.length_singleton,
      LoaderPhase.signalled_pending, LoaderPhase.signalled_last] at hsignals ⊢
    omega
  | receiveReady hmain hreceive =>
    obtain ⟨a, -, hbuffer, hclosed⟩ | ⟨-, -, hclosed, -⟩ := Chan.receive_some hreceive
    · refine ⟨hclosed.trans hopen, ?_⟩
      simp only [received, hmain, hbuffer, List.length_cons, Bool.false_eq_true, if_false,
        if_true] at hsignals ⊢
      omega
    · rw [hopen] at hclosed
      cases hclosed

theorem nils_le (h : s.step parse true event = some s') : s.nils ≤ s'.nils := by
  cases step_effect h with
  | quiet hloader hready hmain hnils => exact hnils.ge
  | nil hselect hloader hready hmain hnils => exact hnils ▸ Nat.le_succ _
  | ctxDone | signal | receiveReady => exact Nat.le_refl _

theorem Counted.not_stuck (hs : s.Counted) (hnils : s.nils ≤ 1) : ¬ s.Stuck := by
  rintro ⟨⟨ctxDone, hloader⟩, hblocked, hmain⟩
  have hfull := (Chan.send_blocked hblocked).2
  have hlast := LoaderPhase.last_le s.loader
  have hpending : s.loader.pending = 1 := by rw [hloader]; rfl
  have hreceived : s.received = 1 := by simp [received, hmain]
  have hsignals := hs.signals
  omega

/-- With two nils read, the signal for the end of the context finds no room. -/
theorem Counted.not_returned (hs : s.Counted) (hnils : 2 ≤ s.nils) : s.loader ≠ .returned := by
  intro hloader
  have hslot := s.ready.bounded
  have hlast : s.loader.last = 1 := by rw [hloader]; rfl
  have hpending : s.loader.pending = 0 := by rw [hloader]; rfl
  have hreceived : s.received ≤ 1 := by
    unfold received
    split <;> omega
  have hsignals := hs.signals
  omega

theorem step_signal {ctxDone : Bool} {ready : Chan Unit 1}
    (hloader : s.loader = .signalling ctxDone)
    (hsend : s.ready.send () = .sent ready) :
    s.step parse true .signal = some { s with ready, loader := .signalled ctxDone } := by
  simp [step, hloader, hsend, LoaderPhase.signalled]

theorem step_receiveReady {r : Option Unit} {ready : Chan Unit 1} (hmain : s.mainReturned = false)
    (hreceive : s.ready.receive = some (r, ready)) :
    s.step parse true .receiveReady = some { s with ready, mainReturned := true } := by
  simp [step, hmain, hreceive]

theorem step_ctxDone (hcancelled : s.cancelled = true) (hloader : s.loader = .select) :
    s.step parse true .ctxDone = some { s with loader := .signalling true } := by
  simp only [step]
  rw [if_pos ⟨hloader, hcancelled⟩]

/-- A goroutine that is not stuck sends its signal, after the slot was emptied if need be. -/
theorem Counted.exists_signal {ctxDone : Bool} (hs : s.Counted)
    (parse : String → Except Error σ) (hloader : s.loader = .signalling ctxDone)
    (hstuck : ¬ s.Stuck) :
    ∃ more s', s.run parse true more = some s' ∧ s'.loader = .signalled ctxDone ∧
      s'.nils = s.nils ∧ s'.cancelled = s.cancelled := by
  cases hsend : s.ready.send () with
  | panicked =>
    have hclosed := Chan.send_panicked hsend
    rw [hs.isOpen] at hclosed
    cases hclosed
  | sent ready => exact ⟨[.signal], _, run_cons (step_signal hloader hsend) [], rfl, rfl, rfl⟩
  | blocked =>
    have hmain : s.mainReturned = false := by
      by_contra hmain
      exact hstuck ⟨⟨ctxDone, hloader⟩, hsend, by simpa using hmain⟩
    have hfull := (Chan.send_blocked hsend).2
    have hnonempty : s.ready.buffer ≠ [] := by
      intro hempty
      rw [hempty] at hfull
      cases hfull
    obtain ⟨r, ready, hreceive⟩ := Chan.exists_receive hnonempty
    obtain ⟨a, -, hbuffer, hclosed⟩ | ⟨-, hempty, -⟩ := Chan.receive_some hreceive
    · have hroom : ready.buffer.length < 1 := by
        rw [hbuffer, List.length_cons] at hfull
        omega
      obtain ⟨ready', hsend'⟩ := Chan.exists_send (a := ()) (hclosed.trans hs.isOpen) hroom
      let u : WatchRun σ := { s with ready, mainReturned := true }
      let v : WatchRun σ := { u with ready := ready', loader := .signalled ctxDone }
      have hfirst : s.step parse true .receiveReady = some u := step_receiveReady hmain hreceive
      have hlast : u.step parse true .signal = some v := step_signal hloader hsend'
      exact ⟨[.receiveReady, .signal], v, (run_cons hfirst _).trans (run_cons hlast []),
        rfl, rfl, rfl⟩
    · exact absurd hempty hnonempty

/-- From its `select` the goroutine can take the end of the context and return. -/
theorem Counted.exists_return_of_select (hs : s.Counted) (parse : String → Except Error σ)
    (hnils : s.nils ≤ 1)
    (hcancelled : s.cancelled = true) (hloader : s.loader = .select) :
    ∃ more s', s.run parse true more = some s' ∧ s'.loader = .returned := by
  have hstep : s.step parse true .ctxDone = some { s with loader := .signalling true } :=
    step_ctxDone hcancelled hloader
  have hs' := hs.step hstep
  obtain ⟨more, s', hrun, hsignalled, -⟩ := hs'.exists_signal parse rfl (hs'.not_stuck hnils)
  exact ⟨.ctxDone :: more, s', (run_cons hstep more).trans hrun, hsignalled⟩

theorem Counted.exists_return (hs : s.Counted) (parse : String → Except Error σ)
    (hnils : s.nils ≤ 1)
    (hcancelled : s.cancelled = true) :
    ∃ more s', s.run parse true more = some s' ∧ s'.loader = .returned := by
  cases hloader : s.loader with
  | returned => exact ⟨[], s, rfl, hloader⟩
  | select => exact hs.exists_return_of_select parse hnils hcancelled hloader
  | signalling ctxDone =>
    obtain ⟨more, u, hrun, hsignalled, hsame, hstill⟩ :=
      hs.exists_signal parse hloader (hs.not_stuck hnils)
    have hu : u.Counted := run_induction Counted.step more hs hrun
    cases ctxDone with
    | true => exact ⟨more, u, hrun, hsignalled⟩
    | false =>
      obtain ⟨rest, s', hrest, hreturned⟩ := hu.exists_return_of_select parse
        (hsame ▸ hnils) (hstill.trans hcancelled) hsignalled
      exact ⟨more ++ rest, s', (run_append hrun rest).trans hrest, hreturned⟩

theorem never_returned {more : List WatchEvent} (hs : s.Counted) (hnils : 2 ≤ s.nils)
    (hrun : s.run parse true more = some s') : s'.loader ≠ .returned := by
  have hmore : s.nils ≤ s'.nils := run_induction (P := fun u => s.nils ≤ u.nils)
    (fun hu hstep => hu.trans (nils_le hstep)) more (Nat.le_refl _) hrun
  have hs' : s'.Counted := run_induction Counted.step more hs hrun
  exact hs'.not_returned (hnils.trans hmore)

/-- As long as the goroutine has read at most one nil it is not stuck, and once the context
ended it can return and release the wait group. After a second nil it never returns. -/
theorem prepareAndWatch_returns_iff (parse : String → Except Error σ) (scheduler : TaskScheduler σ)
    (events : List WatchEvent) (s : WatchRun σ)
    (h : ({ scheduler } : WatchRun σ).run parse true events = some s) :
    (s.nils ≤ 1 → ¬ s.Stuck ∧ (s.cancelled = true →
      ∃ more s', s.run parse true more = some s' ∧ s'.loader = .returned)) ∧
    (2 ≤ s.nils → ∀ more s', s.run parse true more = some s' → s'.loader ≠ .returned) := by
  have hs : s.Counted := run_induction Counted.step events (Counted.start scheduler) h
  constructor
  · intro hnils
    exact ⟨hs.not_stuck hnils, hs.exists_return parse hnils⟩
  · intro hnils more s' hrun
    exact never_returned hs hnils hrun

/-- The snapshot ends, `prepareAndWatch` returns and the context ends. -/
def loaded : List WatchEvent := [.update none, .push, .take, .signal, .receiveReady, .cancel]

def parseNothing (_ : String) : Except Error Unit := .ok ()

theorem prepareAndWatch_returns_once_loaded :
    ∃ s more s', ({ scheduler := {} } : WatchRun Unit).run parseNothing true loaded = some s ∧
      s.run parseNothing true more = some s' ∧ s'.loader = .returned := by
  obtain ⟨s, hs, hnils, hcancelled⟩ : ∃ s : WatchRun Unit,
      ({ scheduler := {} } : WatchRun Unit).run parseNothing true loaded = some s ∧
        s.nils ≤ 1 ∧ s.cancelled = true := ⟨_, rfl, by decide, rfl⟩
  obtain ⟨hone, -⟩ := prepareAndWatch_returns_iff parseNothing {} loaded s hs
  obtain ⟨more, s', hrun, hreturned⟩ := (hone hnils).2 hcancelled
  exact ⟨s, more, s', hs, hrun, hreturned⟩

/-- The closed channel is read once before the end of the context is: the goroutine stays in
its send on `ready` for ever. -/
theorem prepareAndWatch_stuck_after_close :
    ∃ s, ({ scheduler := {} } : WatchRun Unit).run parseNothing true
        (loaded ++ [.closeWatch, .take, .signal, .ctxDone]) = some s ∧
      s.cancelled = true ∧ s.Stuck ∧
      ∀ more s', s.run parseNothing true more = some s' → s'.loader ≠ .returned := by
  obtain ⟨s, hs, hnils, hcancelled, hloader, hblocked, hmain⟩ : ∃ s : WatchRun Unit,
      ({ scheduler := {} } : WatchRun Unit).run parseNothing true
        (loaded ++ [.closeWatch, .take, .signal, .ctxDone]) = some s ∧ s.nils = 2 ∧
        s.cancelled = true ∧ s.loader = .signalling true ∧ s.ready.send () = .blocked ∧
        s.mainReturned = true := ⟨_, rfl, rfl, rfl, rfl, rfl, rfl⟩
  refine ⟨s, hs, hcancelled, ⟨⟨true, hloader⟩, hblocked, hmain⟩, ?_⟩
  have hcounted : s.Counted := run_induction Counted.step _ (Counted.start {}) hs
  exact fun more s' hrun => never_returned hcounted hnils.ge hrun

end WatchRun

end AsyncJobs
