import AsyncJobs.Model.Client

/-!
# The processor

One worker process: it takes a token from its limiter, polls the work queue,
decides what to do with the delivered item and starts a handler for it. The
token returns to the limiter exactly where the source sends on the channel.
-/

namespace AsyncJobs

open Interaction

structure Processor where
  c : Client

namespace Processor

variable (p : Processor)

def queue : Queue := p.c.opts.queue

/-- `task.DependencyResults[id] = result`. -/
def setDependencyResult (results : List (String × Option TaskResult)) (id : String)
    (result : Option TaskResult) : List (String × Option TaskResult) :=
  (id, result) :: results.filter (·.1 ≠ id)

/-- The loop of `loadDependencies` over the remaining parents. The result is
`ready`, `failed`, the error and the task with the results collected so far. -/
def loadDependencies (task : Copy) (ready : Bool) :
    List String → Job (Bool × Bool × Option Error × Copy)
  | [] => return (ready, false, none, task)
  | parent :: parents => do
    match ← p.c.loadTaskByID .dependency parent with
    | .error err =>
      if err.is .taskNotFound then
        return (false, true, some (Sentinel.taskNotFound.error.wrap (": " ++ parent)), task)
      else
        return (false, false, some (.plain
          (Sentinel.taskLoadFailed.text ++ ": " ++ parent ++ ": " ++ err.text)), task)
    | .ok pt =>
      match pt.state with
      | .completed =>
        let task := if task.loadDependencies then
          { task with
            dependencyResults := setDependencyResult task.dependencyResults pt.id pt.result }
          else task
        loadDependencies task ready parents
      | .expired | .terminated | .queueError | .unknown => return (false, true, none, task)
      | _ => loadDependencies task false parents

/-- `fmt.Errorf("%w: %v", ErrTaskDependenciesFailed, err)`, where a nil error prints as `<nil>`. -/
def dependenciesFailed (err : Option Error) : Error :=
  Sentinel.taskDependenciesFailed.error.wrap
    (": " ++ match err with | none => "<nil>" | some e => e.text)

/-- Whether the task may run now, the error, and the task as left by the loop. -/
def processDependencies (item : ProcessItem) (task : Copy) :
    Job (Bool × Option Error × Copy) := do
  let (ready, failed, err, task) ← p.loadDependencies task true task.dependencies
  match err with
  | some err =>
    if failed then
      let _ ← Storage.terminateItem item
      let (_, task) ← p.c.handleTaskError task (dependenciesFailed (some err))
      return (false, some err, task)
    else
      return (false, ← Storage.nakBlockedItem item, task)
  | none =>
    if failed then
      let _ ← Storage.terminateItem item
      let (_, task) ← p.c.handleTaskError task (dependenciesFailed none)
      return (false, some Sentinel.taskDependenciesFailed.error, task)
    else if !ready then
      let _ ← Storage.nakBlockedItem item
      return (false, none, task)
    else
      return (true, none, task)

/-- The `switch` on the stored state; `none` falls through it. -/
def checkState (item : ProcessItem) (task : Copy) : Job (Option Error) := do
  match task.state with
  | .active =>
    match task.lastTriedAt with
    | none => return some Sentinel.taskAlreadyActive.error
    | some lastTriedAt =>
      let now ← readClock
      if now - lastTriedAt < p.queue.maxRunTime then
        return some Sentinel.taskAlreadyActive.error
      else return none
  | .unreachable =>
    let _ ← Storage.ackItem item
    return some Sentinel.taskDependenciesFailed.error
  | .completed | .expired =>
    let _ ← Storage.ackItem item
    return some (Sentinel.taskAlreadyInState.error.wrap (" \"" ++ task.state.text ++ "\""))
  | _ => return none

def checkLimits (task : Copy) : Job (Option Error) := do
  let now ← readClock
  if task.isPastDeadline now then
    let _ ← p.c.handleTaskExpired task
    return some Sentinel.taskPastDeadline.error
  else if 0 < task.maxTries ∧ task.maxTries ≤ task.tries then
    let _ ← p.c.handleTaskExpired task
    return some Sentinel.taskExceedsMaxTries.error
  else return none

/-- The last part of `processMessage`: activate the task and start its handler. -/
def startHandler (item : ProcessItem) (task : Copy) : Job (Option Error) := do
  match ← Client.setTaskActive task with
  | (some err, task) =>
    return some (Sentinel.taskUpdateFailed.error.wrap
      (" " ++ task.state.text ++ ": " ++ err.text))
  | (none, task) =>
    request (.goHandle task item)
    return none

/-- The dependency gate in front of `startHandler`. -/
def checkDependencies (item : ProcessItem) (task : Copy) : Job (Option Error) := do
  if task.state = .blocked ∧ task.hasDependencies then
    match ← p.processDependencies item task with
    | (should, err, task) =>
      match err.filter (·.is .taskDependenciesFailed) with
      | some err => return some err
      | none =>
        if !should then
          request .release
          return none
        else startHandler item task
  else startHandler item task

def processMessage (item : ProcessItem) : Job (Option Error) := do
  match ← p.c.loadTaskByID .task item.jobID with
  | .error err =>
    if err.is .taskNotFound then
      let _ ← Storage.terminateItem item
      request .release
      return none
    else
      return some (.plain (Sentinel.taskLoadFailed.text ++ ": " ++ err.text))
  | .ok task =>
    match ← p.checkState item task with
    | some err => return some err
    | none =>
      match ← p.checkLimits task with
      | some err => return some err
      | none => p.checkDependencies item task

/-- The part of one turn of `processMessages` that follows a successful poll: a
failed message gives its token back. -/
def processItem (item : ProcessItem) : Job Unit := do
  match ← p.processMessage item with
  | some _ => request .release
  | none => return ()

/-- `handle` for a processor whose mux is set. The release is the deferred send. -/
def handle (t : Copy) (item : ProcessItem) : Job Unit := do
  let t := { t with tries := t.tries + 1 }
  match ← request (.runHandler t) with
  | .error err =>
    if err.is .terminateTask then
      let _ ← p.c.handleTaskTerminated t err
      let _ ← Storage.terminateItem item
      request .release
    else
      let _ ← p.c.handleTaskError t err
      let _ ← Storage.nakItem p.c.opts.retryPolicy item
      request .release
  | .ok payload =>
    let _ ← p.c.setTaskSuccess t payload
    let _ ← Storage.ackItem item
    request .release

end Processor

end AsyncJobs
