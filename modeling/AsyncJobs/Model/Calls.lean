import AsyncJobs.Model.Processor

/-!
# The calls of the modelled functions

Which requests each function can send, whatever the answers are. The requests that load or
store a task, publish an item, or start or run a handler are listed by name; all others are
quiet.
-/

namespace AsyncJobs

open Interaction

section

variable {C : Call → Prop}

theorem Client.raise_yields {α : Type} {Q : α → Prop} {message : String}
    (hpanic : C (.panic message)) : (Client.raise message : Job α).Yields C Q :=
  ⟨hpanic, fun impossible => nomatch (impossible : Empty)⟩

section Submission

variable (hevent : ∀ t, C (.publishEvent t))

namespace Storage

include hevent in
theorem saveTaskState_yields {task : Copy} (hsave : C (.publishTask task)) (notify : Bool) :
    (saveTaskState task notify).Yields C fun r => r.2.toTask = task.toTask := by
  refine ⟨hsave, fun r => ?_⟩
  cases r with
  | error err => rfl
  | ok seq =>
    cases notify with
    | false => rfl
    | true => exact ⟨hevent _, fun _ => rfl⟩

/-- The records `EnqueueTask` saves for a task: on the queue, and after its item was refused. -/
def Submission (queue : Queue) (task t : Task) : Prop :=
  t = { task with queue := queue.name } ∨
    ∃ lastErr, t = { task with queue := queue.name, state := .queueError, lastErr := lastErr }

variable (queue : Queue) (task : Copy) (hitem : ∀ q id msgID, C (.publishItem q id msgID))
  (hsubmit : ∀ t : Copy, Submission queue task.toTask t.toTask → C (.publishTask t))

include hevent hsubmit in
theorem queueError_yields {t : Copy} (ht : t.toTask = { task.toTask with queue := queue.name })
    (lastErr : String) (err : Error) :
    (queueError t lastErr err).Yields C fun r => Submission queue task.toTask r.2.toTask := by
  have hrecord : Submission queue task.toTask
      { t.toTask with state := .queueError, lastErr := lastErr } := by
    rw [ht]
    exact Or.inr ⟨lastErr, rfl⟩
  apply (saveTaskState_yields hevent (hsubmit _ hrecord) true).bind
  rintro ⟨saveErr, saved⟩ hsaved
  have hresult : Submission queue task.toTask saved.toTask := by
    rw [show saved.toTask = _ from hsaved]
    exact hrecord
  cases saveErr with
  | none => exact hresult
  | some e => exact hresult

include hevent hitem hsubmit in
theorem enqueueTask_yields :
    (enqueueTask queue task).Yields C fun r =>
      r.2.toTask = task.toTask ∨ Submission queue task.toTask r.2.toTask := by
  unfold enqueueTask
  by_cases hstate : task.state ≠ .new ∧ task.state ≠ .retry ∧ task.state ≠ .blocked
  · rw [if_pos hstate]
    exact Or.inl rfl
  · rw [if_neg hstate]
    apply (saveTaskState_yields hevent (hsubmit { task with queue := queue.name } (Or.inl rfl))
      true).bind
    rintro ⟨saveErr, saved⟩ hsaved
    have hsaved : saved.toTask = { task.toTask with queue := queue.name } := hsaved
    cases saveErr with
    | some e => exact Or.inr (Or.inl hsaved)
    | none =>
      refine ⟨hitem .., fun reply => ?_⟩
      have hfailed : ∀ lastErr err, (queueError saved lastErr err).Yields C fun r =>
          r.2.toTask = task.toTask ∨ Submission queue task.toTask r.2.toTask := by
        intro lastErr err
        apply (queueError_yields hevent queue task hsubmit hsaved lastErr err).mono fun _ h => h
        exact fun _ h => Or.inr h
      rcases reply with e | duplicate
      · exact hfailed _ _
      · cases duplicate with
        | true => exact hfailed _ _
        | false => exact Or.inr (Or.inl hsaved)

end Storage

namespace Client

variable (c : Client)

/-- The task `EnqueueTask` goes on with: on its queue, and signed unless that failed. -/
def prepared (t : Task) : Task :=
  match c.signTask { t with queue := c.opts.queue.name } with
  | .ok signed => signed
  | .error _ => { t with queue := c.opts.queue.name }

/-- What `EnqueueTask` of the client saves for a task. -/
def Submits (t x : Task) : Prop :=
  c.signTask { t with queue := c.opts.queue.name } = .ok (c.prepared t) ∧
    Storage.Submission c.opts.queue (c.prepared t) x

/-- The task a caller gets back: as it was prepared, or as it was saved. -/
def Returns (t x : Task) : Prop :=
  x = c.prepared t ∨ Storage.Submission c.opts.queue (c.prepared t) x

include hevent in
theorem enqueueTask_yields {t : Copy} (hitem : ∀ q id msgID, C (.publishItem q id msgID))
    (hpanic : ∀ message, C (.panic message))
    (hsubmit : ∀ x : Copy, c.Submits t.toTask x.toTask → C (.publishTask x)) :
    (c.enqueueTask t).Yields C fun r => c.Returns t.toTask r.2.toTask := by
  unfold enqueueTask
  dsimp only
  split
  · rename_i err hfailed
    refine Or.inl ?_
    simp only [prepared, hfailed]
  · exact raise_yields (hpanic _)
  · rename_i signed hsigned
    have hprepared : c.prepared t.toTask = signed := by
      simp only [prepared, hsigned]
    have hsave : ∀ x : Copy, Storage.Submission c.opts.queue signed x.toTask →
        C (.publishTask x) := by
      intro x hx
      apply hsubmit x
      rw [Submits, hprepared]
      exact ⟨hsigned, hx⟩
    unfold Returns
    rw [hprepared]
    exact Storage.enqueueTask_yields hevent c.opts.queue { t with toTask := signed } hitem hsave

end Client

end Submission

/-- The calls that only look up, report, settle or remove. -/
def Call.Quiet : Call → Prop
  | .readLast .task _ | .publishTask _ | .publishItem _ _ _ | .goHandle _ _ | .runHandler _
  | .done _ _ => False
  | _ => True

variable (hC : ∀ c : Call, c.Quiet → C c)

include hC

theorem request_yields {c : Call} (hc : c.Quiet) : (request c).Yields C fun _ => True :=
  Prog.Yields.invoke (S := jobs) (hC c hc) fun _ => trivial

theorem readClock_yields : readClock.Yields C fun _ => True :=
  request_yields hC trivial

theorem release_yields : (request .release).Yields C fun _ => True :=
  request_yields hC trivial

namespace Storage

omit hC in
theorem loadTaskByID_yields {use : ReadUse} {id : String} (hread : C (.readLast use id)) :
    (loadTaskByID use id).Yields C fun _ => True := by
  refine ⟨hread, fun r => ?_⟩
  rcases r with (_ | err) | msg <;> trivial

theorem deleteTaskByID_yields (id : String) : (deleteTaskByID id).Yields C fun _ => True := by
  refine ⟨hC _ trivial, fun r => ?_⟩
  rcases r with (_ | err) | msg
  · trivial
  · trivial
  · exact ⟨hC _ trivial, fun _ => trivial⟩

theorem retryTaskByID_yields (queue : Queue) {id : String} (hread : C (.readLast .task id))
    (hitem : ∀ q id msgID, C (.publishItem q id msgID))
    (hsave : ∀ t : Copy, t.queue = queue.name → C (.publishTask t)) :
    (retryTaskByID queue id).Yields C fun _ => True := by
  apply (loadTaskByID_yields hread).bind
  intro loaded _
  cases loaded with
  | error err => trivial
  | ok task =>
    have hsubmit : ∀ t : Copy,
        Submission queue { task.toTask with state := .retry, result := none } t.toTask →
          C (.publishTask t) := by
      rintro t (ht | ⟨lastErr, ht⟩)
      · exact hsave t (congrArg Task.queue ht)
      · exact hsave t (congrArg Task.queue ht)
    exact (enqueueTask_yields (fun _ => hC _ trivial) queue
      { task with state := .retry, result := none } hitem hsubmit).bind fun _ _ => trivial

omit hC in
theorem withMeta_yields (item : ProcessItem) {send : MsgRef → Job (Option Error)}
    (hsend : ∀ msg, (send msg).Yields C fun _ => True) :
    (withMeta item send).Yields C fun _ => True := by
  unfold withMeta
  cases item.storageMeta with
  | none => trivial
  | some msg => exact hsend msg

theorem ackItem_yields (item : ProcessItem) : (ackItem item).Yields C fun _ => True :=
  withMeta_yields item fun _ => request_yields hC trivial

theorem terminateItem_yields (item : ProcessItem) : (terminateItem item).Yields C fun _ => True :=
  withMeta_yields item fun _ => request_yields hC trivial

theorem nakBlockedItem_yields (item : ProcessItem) :
    (nakBlockedItem item).Yields C fun _ => True :=
  withMeta_yields item fun _ => request_yields hC trivial

theorem nakItem_yields (retry : Int → Int) (item : ProcessItem) :
    (nakItem retry item).Yields C fun _ => True :=
  withMeta_yields item fun _ => request_yields hC trivial

end Storage

namespace Client

variable (c : Client)

theorem loadTaskByID_yields {use : ReadUse} {id : String} (hread : C (.readLast use id)) :
    (c.loadTaskByID use id).Yields C fun _ => True := by
  apply (Storage.loadTaskByID_yields hread).bind
  intro loaded _
  cases loaded with
  | error err => trivial
  | ok task =>
    dsimp only
    split
    · trivial
    · exact raise_yields (hC _ trivial)
    · trivial

theorem saveOrDiscardTaskIfDesired_yields {t : Copy} (hsave : C (.publishTask t)) :
    (c.saveOrDiscardTaskIfDesired t).Yields C fun _ => True := by
  unfold saveOrDiscardTaskIfDesired
  split
  · apply (Storage.saveTaskState_yields (fun _ => hC _ trivial) hsave true).mono fun _ h => h
    exact fun _ _ => trivial
  · refine ⟨hC _ trivial, fun _ => ?_⟩
    exact (Storage.deleteTaskByID_yields hC t.id).bind fun _ _ => trivial

variable (hsave : ∀ t, C (.publishTask t))

include hsave

theorem setTaskSuccess_yields (t : Copy) (payload : String) :
    (c.setTaskSuccess t payload).Yields C fun _ => True :=
  ⟨hC _ trivial, fun _ => ⟨hC _ trivial, fun _ =>
    saveOrDiscardTaskIfDesired_yields hC c (hsave _)⟩⟩

theorem handleTaskExpired_yields (t : Copy) :
    (c.handleTaskExpired t).Yields C fun _ => True :=
  saveOrDiscardTaskIfDesired_yields hC c (hsave _)

theorem handleTaskTerminated_yields (t : Copy) (terr : Error) :
    (c.handleTaskTerminated t terr).Yields C fun _ => True :=
  ⟨hC _ trivial, fun _ => saveOrDiscardTaskIfDesired_yields hC c (hsave _)⟩

theorem handleTaskError_yields (t : Copy) (terr : Error) :
    (c.handleTaskError t terr).Yields C fun _ => True :=
  ⟨hC _ trivial, fun _ => saveOrDiscardTaskIfDesired_yields hC c (hsave _)⟩

end Client

namespace Processor

variable (p : Processor)

theorem loadDependencies_yields (parents : List String) (task : Copy) (ready : Bool) :
    (p.loadDependencies task ready parents).Yields C fun _ => True := by
  induction parents generalizing task ready with
  | nil => trivial
  | cons parent parents ih =>
    apply (Client.loadTaskByID_yields hC p.c (hC (.readLast .dependency parent) trivial)).bind
    intro loaded _
    cases loaded with
    | error err =>
      dsimp only
      split <;> trivial
    | ok pt =>
      dsimp only
      split
      · exact ih ..
      · trivial
      · trivial
      · trivial
      · trivial
      · exact ih ..

theorem checkState_yields (item : ProcessItem) (task : Copy) :
    (p.checkState item task).Yields C fun _ => True := by
  have hack : ∀ err : Error, (do
      let _ ← Storage.ackItem item
      return some err : Job (Option Error)).Yields C fun _ => True := fun err =>
    (Storage.ackItem_yields hC item).bind fun _ _ => trivial
  unfold checkState
  split
  · split
    · trivial
    · apply (readClock_yields hC).bind
      intro now _
      split <;> trivial
  · exact hack _
  · exact hack _
  · exact hack _
  · trivial

section Worker

variable (hsave : ∀ t, C (.publishTask t))

include hsave

theorem processDependencies_yields (item : ProcessItem) (task : Copy) :
    (p.processDependencies item task).Yields C fun _ => True := by
  have hfail : ∀ (task : Copy) (terr : Error) (err : Option Error), (do
      let _ ← Storage.terminateItem item
      let r ← p.c.handleTaskError task terr
      return (false, err, r.2) : Job (Bool × Option Error × Copy)).Yields C fun _ => True := by
    intro task terr err
    apply (Storage.terminateItem_yields hC item).bind
    intro _ _
    exact (Client.handleTaskError_yields hC p.c hsave task terr).bind fun _ _ => trivial
  unfold processDependencies
  apply (loadDependencies_yields hC p task.dependencies task true).bind
  rintro ⟨ready, failed, err, task⟩ _
  cases err with
  | some err =>
    cases failed with
    | true => exact hfail task _ _
    | false => exact (Storage.nakBlockedItem_yields hC item).bind fun _ _ => trivial
  | none =>
    cases failed with
    | true => exact hfail task _ _
    | false =>
      cases ready with
      | false => exact (Storage.nakBlockedItem_yields hC item).bind fun _ _ => trivial
      | true => trivial

theorem checkLimits_yields (task : Copy) : (p.checkLimits task).Yields C fun _ => True := by
  have hexpire : ∀ err : Error, (do
      let _ ← p.c.handleTaskExpired task
      return some err : Job (Option Error)).Yields C fun _ => True := fun err =>
    (Client.handleTaskExpired_yields hC p.c hsave task).bind fun _ _ => trivial
  apply (readClock_yields hC).bind
  intro now _
  split
  · exact hexpire _
  · split
    · exact hexpire _
    · trivial

theorem setTaskActive_yields (task : Copy) :
    (Client.setTaskActive task).Yields C fun _ => True := by
  apply (readClock_yields hC).bind
  intro now _
  apply (Storage.saveTaskState_yields (fun _ => hC _ trivial) (hsave _) true).mono fun _ h => h
  exact fun _ _ => trivial

section Start

variable {item : ProcessItem} (hgo : ∀ t, C (.goHandle t item))

include hgo

theorem startHandler_yields (task : Copy) : (startHandler item task).Yields C fun _ => True := by
  apply (setTaskActive_yields hC hsave task).bind
  rintro ⟨err, task⟩ _
  cases err with
  | some err => trivial
  | none => exact ⟨hgo task, fun _ => trivial⟩

theorem checkDependencies_yields (task : Copy) :
    (p.checkDependencies item task).Yields C fun _ => True := by
  unfold checkDependencies
  split
  · apply (processDependencies_yields hC p hsave item task).bind
    rintro ⟨should, err, task⟩ _
    dsimp only
    split
    · trivial
    · cases should with
      | false => exact (release_yields hC).bind fun _ _ => trivial
      | true => exact startHandler_yields hC hsave hgo task
  · exact startHandler_yields hC hsave hgo task

theorem processMessage_yields (hload : C (.readLast .task item.jobID)) :
    (p.processMessage item).Yields C fun _ => True := by
  apply (Client.loadTaskByID_yields hC p.c hload).bind
  intro loaded _
  cases loaded with
  | error err =>
    dsimp only
    split
    · apply (Storage.terminateItem_yields hC item).bind
      intro _ _
      exact (release_yields hC).bind fun _ _ => trivial
    · trivial
  | ok task =>
    apply (checkState_yields hC p item task).bind
    intro stopped _
    cases stopped with
    | some err => trivial
    | none =>
      apply (checkLimits_yields hC p hsave task).bind
      intro exceeded _
      cases exceeded with
      | some err => trivial
      | none => exact checkDependencies_yields hC p hsave hgo task

theorem processItem_yields (hload : C (.readLast .task item.jobID)) :
    (p.processItem item).Yields C fun _ => True := by
  apply (processMessage_yields hC p hsave hgo hload).bind
  intro err _
  cases err with
  | some err => exact release_yields hC
  | none => trivial

end Start

end Worker

/-- What `handle` does once the handler has returned. -/
def afterHandler (t : Copy) (item : ProcessItem) : Except Error String → Job Unit
  | .error err => do
    if err.is .terminateTask then
      let _ ← p.c.handleTaskTerminated t err
      let _ ← Storage.terminateItem item
      request .release
    else
      let _ ← p.c.handleTaskError t err
      let _ ← Storage.nakItem p.c.opts.retryPolicy item
      request .release
  | .ok payload => do
    let _ ← p.c.setTaskSuccess t payload
    let _ ← Storage.ackItem item
    request .release

omit hC in
theorem handle_eq (t : Copy) (item : ProcessItem) :
    p.handle t item = .call (.runHandler { t with tries := t.tries + 1 })
      (p.afterHandler { t with tries := t.tries + 1 } item) := by
  refine congrArg (Prog.call _) (funext fun r => ?_)
  cases r <;> rfl

theorem afterHandler_yields (hsave : ∀ t, C (.publishTask t)) (t : Copy) (item : ProcessItem)
    (r : Except Error String) : (p.afterHandler t item r).Yields C fun _ => True := by
  cases r with
  | ok payload =>
    apply (Client.setTaskSuccess_yields hC p.c hsave t payload).bind
    intro _ _
    exact (Storage.ackItem_yields hC item).bind fun _ _ => release_yields hC
  | error err =>
    by_cases hterminate : err.is .terminateTask = true
    · simp only [afterHandler, hterminate]
      apply (Client.handleTaskTerminated_yields hC p.c hsave t err).bind
      intro _ _
      exact (Storage.terminateItem_yields hC item).bind fun _ _ => release_yields hC
    · simp only [afterHandler, hterminate]
      apply (Client.handleTaskError_yields hC p.c hsave t err).bind
      intro _ _
      exact (Storage.nakItem_yields hC _ item).bind fun _ _ => release_yields hC

theorem handle_yields {t : Copy} (item : ProcessItem) (hsave : ∀ t, C (.publishTask t))
    (hrun : C (.runHandler { t with tries := t.tries + 1 })) :
    (p.handle t item).Yields C fun _ => True := by
  rw [handle_eq]
  exact ⟨hrun, afterHandler_yields hC p hsave _ item⟩

end Processor

end

def Call.Starts : Call → Prop
  | .goHandle _ _ => True
  | _ => False

def Call.Runs : Call → Prop
  | .runHandler _ => True
  | _ => False

theorem Call.Quiet.not_starts {c : Call} (h : c.Quiet) : ¬ c.Starts := by
  cases c with
  | goHandle t item => exact absurd h id
  | _ => exact id

theorem Call.Quiet.not_runs {c : Call} (h : c.Quiet) : ¬ c.Runs := by
  cases c with
  | runHandler t => exact absurd h id
  | _ => exact id

namespace Processor

variable (p : Processor) (item : ProcessItem)

theorem startHandler_once (task : Copy) : (startHandler item task).Once Call.Starts := by
  apply (setTaskActive_yields (fun _ => Call.Quiet.not_starts) (fun _ => id) task).once_bind
  rintro ⟨err, task⟩ _
  cases err with
  | some err => trivial
  | none => exact ⟨fun _ _ => trivial, fun _ => trivial⟩

theorem checkDependencies_once (task : Copy) :
    (p.checkDependencies item task).Once Call.Starts := by
  unfold checkDependencies
  split
  · apply (processDependencies_yields (fun _ => Call.Quiet.not_starts) p (fun _ => id) item
      task).once_bind
    rintro ⟨should, err, task⟩ _
    dsimp only
    split
    · trivial
    · cases should with
      | false => exact ⟨fun hc => absurd hc id, fun _ => trivial⟩
      | true => exact startHandler_once item task
  · exact startHandler_once item task

theorem processMessage_once : (p.processMessage item).Once Call.Starts := by
  have hquiet : ∀ c : Call, c.Quiet → ¬ c.Starts := fun _ => Call.Quiet.not_starts
  have hload : ¬ (Call.readLast .task item.jobID).Starts := id
  apply (Client.loadTaskByID_yields hquiet p.c hload).once_bind
  intro loaded _
  cases loaded with
  | error err =>
    dsimp only
    split
    · apply (Storage.terminateItem_yields hquiet item).once_bind
      intro _ _
      exact ⟨fun hc => absurd hc id, fun _ => trivial⟩
    · trivial
  | ok task =>
    apply (checkState_yields hquiet p item task).once_bind
    intro stopped _
    cases stopped with
    | some err => trivial
    | none =>
      apply (checkLimits_yields hquiet p (fun _ => id) task).once_bind
      intro exceeded _
      cases exceeded with
      | some err => trivial
      | none => exact p.checkDependencies_once item task

theorem processItem_once : (p.processItem item).Once Call.Starts := by
  apply (p.processMessage_once item).bind
  intro err
  cases err with
  | some err => exact ⟨id, fun _ => trivial⟩
  | none => trivial

end Processor

end AsyncJobs
