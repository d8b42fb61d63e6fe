import AsyncJobs.Model.Storage
import Mathlib.Data.List.AList

/-!
# Scheduled tasks and the task scheduler

A scheduled task is the template of the tasks its schedule creates. It is kept as a JSON
document in the configuration bucket, reaches the scheduler through a watch on the bucket
and is registered with cron. The cron library is modelled by its table of entries; the
meaning of a schedule is whatever its parser returns. Times and durations are nanoseconds.
-/

namespace AsyncJobs

open Interaction

def second : Int := 10 ^ 9

def shortedScheduledDeadline : Int := 30 * second

def minDuration : Int := -2 ^ 63

def maxDuration : Int := 2 ^ 63 - 1

/-- `time.Until`, a difference that saturates. -/
def timeUntil (instant now : Int) : Int := max minDuration (min maxDuration (instant - now))

/-- `Duration.Round`, halfway values away from zero. -/
def durationRound (d m : Int) : Int :=
  if m ≤ 0 then d
  else
    let r := d.tmod m
    if d < 0 then
      if -r + -r < m then d - r else max minDuration (d - m - r)
    else
      if r + r < m then d - r else min maxDuration (d + m - r)

structure ScheduledTask where
  name : String
  schedule : String
  queue : String
  taskType : String
  payload : Option Bytes := none
  deadline : Int := 0
  maxTries : Int
  createdAt : Int
  deriving DecidableEq, Repr

/-- The JSON object of a scheduled task: the payload is JSON text and a deadline of zero is
left out. -/
structure ScheduleDocument where
  name : String
  schedule : String
  queue : String
  taskType : String
  payload : Bytes
  deadline : Option Int
  maxTries : Int
  createdAt : Int
  deriving DecidableEq, Repr

def ScheduledTask.marshal (st : ScheduledTask) : ScheduleDocument where
  name := st.name
  schedule := st.schedule
  queue := st.queue
  taskType := st.taskType
  payload := jsonMarshalBytes st.payload
  deadline := if st.deadline = 0 then none else some st.deadline
  maxTries := st.maxTries
  createdAt := st.createdAt

def ScheduleDocument.unmarshal (doc : ScheduleDocument) : Except Error ScheduledTask :=
  match jsonUnmarshalBytes doc.payload with
  | .error err => .error err
  | .ok payload => .ok {
      name := doc.name
      schedule := doc.schedule
      queue := doc.queue
      taskType := doc.taskType
      payload := payload
      deadline := doc.deadline.getD 0
      maxTries := doc.maxTries
      createdAt := doc.createdAt }

theorem ScheduledTask.unmarshal_marshal (st : ScheduledTask) : st.marshal.unmarshal = .ok st := by
  have hdeadline : (if st.deadline = 0 then none else some st.deadline).getD 0 = st.deadline := by
    split_ifs with hzero
    · exact hzero.symm
    · rfl
  simp [marshal, ScheduleDocument.unmarshal, jsonUnmarshalBytes_jsonMarshalBytes, hdeadline]

/-- `createdAt` and `now` are its two clock readings, `parse` is the parser of cron. -/
def newScheduledTaskFromTask {σ : Type} (parse : String → Except Error σ) (createdAt now : Int)
    (name schedule queue : String) (task : Task) : Except Error (ScheduledTask × σ) :=
  if name = "" then .error Sentinel.scheduleNameIsRequired.error
  else if !isValidName name then
    .error (Sentinel.scheduleNameInvalid.error.wrap (": must match " ++ validNameMatcher))
  else if schedule = "" then .error Sentinel.scheduleIsRequired.error
  else if queue = "" then .error Sentinel.queueNameRequired.error
  else
    match parse schedule with
    | .error err => .error (Sentinel.scheduleInvalid.error.wrap (": " ++ err.text))
    | .ok cs =>
      let sched : ScheduledTask := {
        name, schedule, queue, taskType := task.type, payload := task.payload,
        maxTries := task.maxTries, createdAt }
      match task.deadline with
      | none => .ok (sched, cs)
      | some deadline =>
        let offset := durationRound (timeUntil deadline now) second
        if offset < shortedScheduledDeadline then
          .error Sentinel.scheduledTaskShortDeadline.error
        else .ok ({ sched with deadline := offset }, cs)

/-- The live documents of the configuration bucket. -/
abbrev ConfigBucket := AList fun _ : String => ScheduleDocument

def configKey (name : String) : String := "scheduled_tasks." ++ name

/-- `failure` is the error of a request that did not reach the bucket. -/
def ConfigBucket.saveScheduledTask (b : ConfigBucket) (failure : Option Error)
    (st : ScheduledTask) (update : Bool) : Except Error ConfigBucket :=
  match failure with
  | some err => .error err
  | none =>
    if !update ∧ configKey st.name ∈ b then .error Sentinel.scheduledTaskAlreadyExist.error
    else .ok (b.insert (configKey st.name) st.marshal)

/-- `Client.NewScheduledTask`. -/
def newScheduledTask {σ : Type} (parse : String → Except Error σ) (createdAt now : Int)
    (b : ConfigBucket) (failure : Option Error) (name schedule queue : String) (task : Task) :
    Except Error ConfigBucket :=
  match newScheduledTaskFromTask parse createdAt now name schedule queue task with
  | .error err => .error err
  | .ok (st, _) => b.saveScheduledTask failure st false

/-- `nil` marks the end of the snapshot and is not an entry. -/
inductive BucketEntry where
  | put (key : String) (value : ScheduleDocument)
  | delete (key : String)
  | purge (key : String)

structure ScheduleWatchEntry where
  name : String
  task : Option ScheduledTask := none
  delete : Bool := false
  deriving DecidableEq, Repr

/-- What `ScheduledTasksWatch` sends on for an update of the bucket, if anything. -/
def scheduledTasksWatch : Option BucketEntry → Option (Option ScheduleWatchEntry)
  | none => some none
  | some (.put _ value) =>
    match value.unmarshal with
    | .error _ => none
    | .ok st => some (some { name := st.name, task := some st })
  | some (.delete key) | some (.purge key) =>
    some (some { name := (key.splitOn ".").getLastD "", delete := true })

/-- A cron entry with the name whose handler it runs. -/
structure CronEntry (σ : Type) where
  id : Nat
  schedule : σ
  job : String
  deriving DecidableEq, Repr

structure Cron (σ : Type) where
  entries : List (CronEntry σ) := []
  nextID : Nat := 0
  deriving DecidableEq, Repr

namespace Cron

variable {σ : Type}

def addFunc (parse : String → Except Error σ) (c : Cron σ) (spec job : String) :
    Except Error (Nat × Cron σ) :=
  match parse spec with
  | .error err => .error err
  | .ok schedule =>
    let id := c.nextID + 1
    .ok (id, { entries := c.entries ++ [{ id, schedule, job }], nextID := id })

def remove (c : Cron σ) (id : Nat) : Cron σ :=
  { c with entries := c.entries.filter fun e => e.id ≠ id }

end Cron

/-- The `scheduledTask` of the scheduler's map. -/
structure RegisteredTask where
  item : ScheduledTask
  cronID : Nat
  deriving DecidableEq, Repr

structure TaskScheduler (σ : Type) where
  tasks : AList fun _ : String => RegisteredTask := ∅
  cron : Cron σ := {}
  leader : Bool := false

/-- The options of the task that is created at the time `fired`. -/
def ScheduledTask.taskOpts (item : ScheduledTask) (fired : Int) : List (TaskOpt (Option Bytes)) :=
  (if 0 < item.deadline then [taskDeadline (fired + item.deadline)] else []) ++
    if 0 < item.maxTries then [taskMaxTries item.maxTries] else []

/-- The task one firing creates. The payload is passed to `NewTask` as a byte slice, which
is not the nil interface even when the slice is nil. -/
def ScheduledTask.createTask (item : ScheduledTask) (id : String) (fired created : Int) :
    Except Error Copy :=
  newTask (fun slice => .ok (jsonMarshalBytes slice)) id created item.taskType (some item.payload)
    (item.taskOpts fired)

namespace TaskScheduler

variable {σ : Type} (s : TaskScheduler σ)

def count : Nat := s.tasks.keys.length

/-- The function cron runs for a name. It looks the name up when it is run. -/
def handlerFactory (name id : String) (fired created : Int) : Job Unit :=
  match s.tasks.lookup name with
  | none => return ()
  | some task =>
    if !s.leader then return ()
    else
      match task.item.createTask id fired created with
      | .error _ => return ()
      | .ok nt => do
        let _ ← Storage.enqueueTask { name := task.item.queue } nt
        return ()

def deleteItem (name : String) : TaskScheduler σ :=
  match s.tasks.lookup name with
  | none => s
  | some item => { s with cron := s.cron.remove item.cronID }

/-- The body of the loop of `prepareAndWatch` for one entry of the watch. -/
def handleEntry (parse : String → Except Error σ) : Option ScheduleWatchEntry → TaskScheduler σ
  | none => s
  | some entry =>
    if entry.delete then s.deleteItem entry.name
    else
      match entry.task with
      | none => s
      | some task =>
        match s.cron.addFunc parse task.schedule entry.name with
        | .error _ => s
        | .ok (id, cron) =>
          { s with cron, tasks := s.tasks.insert entry.name { item := task, cronID := id } }

end TaskScheduler

end AsyncJobs
