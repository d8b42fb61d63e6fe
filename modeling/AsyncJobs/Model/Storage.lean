import AsyncJobs.Interaction.Prog
import AsyncJobs.Model.Task

/-!
# The JetStream storage

The storage functions are programs over the requests they send to the server,
one constructor of `Call` for each kind of request, and over the few local
effects the processor needs (the clock, the handler, the concurrency limiter).
A `nil` error is `none`. A function that changes the task it was given a pointer
to returns the changed copy beside its error.
-/

namespace AsyncJobs

open Interaction

/-- Why the last message of a task subject is read. The request is the same; the
three readers put the answer in different variables. -/
inductive ReadUse where
  | task
  | dependency
  | delete
  deriving DecidableEq, Repr

/-- The JetStream state of a received work item: its queue, its stream sequence
and how often it had been delivered when this delivery was made. -/
structure MsgRef where
  queue : String
  seq : Nat
  numDelivered : Nat
  deriving DecidableEq, Repr

structure ProcessItem where
  jobID : String
  storageMeta : Option MsgRef := none
  deriving DecidableEq, Repr

structure StoredTask where
  seq : Nat
  task : Task
  deriving DecidableEq, Repr

/-- A failed read: error 10037 says the subject has no message. -/
inductive ReadError where
  | noMessage
  | failed (e : Error)
  deriving DecidableEq, Repr

/-- The part of `Queue` that the modelled functions use. -/
structure Queue where
  name : String
  maxTries : Int := 0
  maxRunTime : Int := 0
  deriving DecidableEq, Repr

/-- `publishTask` is the request of `SaveTaskState` and `publishItem` the one that
puts a work item on a queue; `goHandle` starts the handler goroutine, `release`
sends on the limiter and `done` returns from an API call to the caller who owns
the task. -/
inductive Call where
  | readLast (use : ReadUse) (id : String)
  | publishTask (task : Copy)
  | publishEvent (task : Task)
  | deleteMessage (seq : Nat)
  | publishItem (queue id : String) (msgID : Option String)
  | ackItem (msg : MsgRef)
  | termItem (msg : MsgRef)
  | nakItem (msg : MsgRef) (delay : Int)
  | now
  | goHandle (task : Copy) (item : ProcessItem)
  | runHandler (task : Copy)
  | release
  | done (task : Option Copy) (err : Option Error)
  | panic (message : String)

def Call.Reply : Call → Type
  | readLast _ _ => Except ReadError StoredTask
  | publishTask _ => Except Error Nat
  | publishEvent _ => Option Error
  | deleteMessage _ => Option Error
  | publishItem _ _ _ => Except Error Bool
  | ackItem _ => Option Error
  | termItem _ => Option Error
  | nakItem _ _ => Option Error
  | now => Int
  | goHandle _ _ => Unit
  | runHandler _ => Except Error String
  | release => Unit
  | done _ _ => Unit
  | panic _ => Empty

/-- The interface between the package and everything it talks to. -/
def jobs : Signature := ⟨Call, Call.Reply⟩

abbrev Job (α : Type) := Prog jobs α

def request (c : Call) : Job c.Reply := Prog.invoke (S := jobs) c

def readClock : Job Int := request .now

namespace Storage

def publishTaskStateChangeEvent (task : Copy) : Job (Option Error) :=
  request (.publishEvent task.toTask)

/-- The expected last subject sequence is the one the copy carries, and 0 for a
copy that was never loaded or saved; `publishTask` sends both with the record. -/
def saveTaskState (task : Copy) (notify : Bool) : Job (Option Error × Copy) := do
  match ← request (.publishTask task) with
  | .error err => return (some err, task)
  | .ok seq =>
    let task := { task with storageOptions := some seq }
    if notify then
      return (← publishTaskStateChangeEvent task, task)
    else
      return (none, task)

def loadTaskByID (use : ReadUse) (id : String) : Job (Except Error Copy) := do
  match ← request (.readLast use id) with
  | .error .noMessage => return .error Sentinel.taskNotFound.error
  | .error (.failed err) => return .error err
  | .ok msg => return .ok ⟨msg.task, some msg.seq⟩

def deleteTaskByID (id : String) : Job (Option Error) := do
  match ← request (.readLast .delete id) with
  | .error .noMessage => return some Sentinel.taskNotFound.error
  | .error (.failed err) => return some err
  | .ok msg => request (.deleteMessage msg.seq)

/-- The compensation shared by the three failure branches of `EnqueueTask`. -/
def queueError (task : Copy) (lastErr : String) (err : Error) :
    Job (Option Error × Copy) := do
  let task := { task with state := .queueError, lastErr := lastErr }
  match ← saveTaskState task true with
  | (some saveErr, task) => return (some saveErr, task)
  | (none, task) => return (some err, task)

/-- A rejected publish and an unparsable acknowledgement are both a failed
`publishItem`; the former is reported as a missing queue when nobody answered. -/
def enqueueTask (queue : Queue) (task : Copy) : Job (Option Error × Copy) := do
  if task.state ≠ .new ∧ task.state ≠ .retry ∧ task.state ≠ .blocked then
    return (some (Sentinel.taskTypeCannotEnqueue.error.wrap
      (" \"" ++ task.state.text ++ "\"")), task)
  else
    match ← saveTaskState { task with queue := queue.name } true with
    | (some err, task) => return (some err, task)
    | (none, task) =>
      let msgID := if task.state ≠ .retry then some task.id else none
      match ← request (.publishItem queue.name task.id msgID) with
      | .error err =>
        let reported := if err = Sentinel.natsNoResponders.error then
          Sentinel.queueNotFound.error.wrap (": " ++ err.text) else err
        queueError task err.text reported
      | .ok true =>
        queueError task Sentinel.duplicateItem.text Sentinel.duplicateItem.error
      | .ok false => return (none, task)

def retryTaskByID (queue : Queue) (id : String) : Job (Option Error) := do
  match ← loadTaskByID .task id with
  | .error err => return some err
  | .ok task =>
    let (err, _) ← enqueueTask queue { task with state := .retry, result := none }
    return err

/-- The nil check every operation on a received item starts with. -/
def withMeta (item : ProcessItem) (send : MsgRef → Job (Option Error)) : Job (Option Error) :=
  match item.storageMeta with
  | none => return some Sentinel.invalidStorageItem.error
  | some msg => send msg

def ackItem (item : ProcessItem) : Job (Option Error) :=
  withMeta item fun msg => request (.ackItem msg)

def terminateItem (item : ProcessItem) : Job (Option Error) :=
  withMeta item fun msg => request (.termItem msg)

def defaultBlockedNakTime : Int := 5 * 10 ^ 9

def nakBlockedItem (item : ProcessItem) : Job (Option Error) :=
  withMeta item fun msg => request (.nakItem msg defaultBlockedNakTime)

/-- `retry` is the backoff policy of the storage. -/
def nakItem (retry : Int → Int) (item : ProcessItem) : Job (Option Error) :=
  withMeta item fun msg => request (.nakItem msg (retry msg.numDelivered))

end Storage

end AsyncJobs
