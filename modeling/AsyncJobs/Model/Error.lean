import Mathlib.Tactic.Common

/-!
# Errors

An error is its text together with the sentinels `errors.Is` finds in its
chain. A `%w` verb keeps the chain of the wrapped error; `%s` and `%v` keep only
its text. A panic is not an error: the call it happens in never returns.
-/

namespace AsyncJobs

/-- The package sentinels of `errors.go` that the modelled functions return or
test for, and the three library sentinels they compare against. -/
inductive Sentinel where
  | taskNotFound
  | terminateTask
  | noTasks
  | taskPastDeadline
  | taskExceedsMaxTries
  | taskAlreadyActive
  | taskTypeCannotEnqueue
  | taskUpdateFailed
  | taskAlreadyInState
  | taskLoadFailed
  | taskTypeRequired
  | taskTypeInvalid
  | taskIDInvalid
  | taskDependenciesFailed
  | taskAlreadySigned
  | taskPayloadEncoderAlreadySet
  | taskSignatureRequiresQueue
  | taskNotSigned
  | taskSignatureInvalid
  | inProgressNotSupported
  | contextWithoutDeadline
  | invalidStorageItem
  | storageNotReady
  | queueNotFound
  | queueNameRequired
  | noNatsConn
  | queueConsumerNotFound
  | queueItemCorrupt
  | queueItemInvalid
  | invalidQueueState
  | unknownRetryPolicy
  | unknownDiscardPolicy
  | duplicateItem
  | scheduleNameIsRequired
  | scheduleNameInvalid
  | scheduleIsRequired
  | scheduleInvalid
  | scheduledTaskShortDeadline
  | scheduledTaskAlreadyExist
  | scheduledTaskNotFound
  | noHandlerForTaskType
  | duplicateHandlerForTaskType
  | invalidMiddleware
  | requestReplyFailed
  | requestReplyNoDeadline
  | requestReplyShortDeadline
  | contextCanceled
  | contextDeadlineExceeded
  | natsNoResponders
  deriving DecidableEq, Repr

namespace Sentinel

def text : Sentinel → String
  | taskNotFound => "task not found"
  | terminateTask => "terminate task"
  | noTasks => "no tasks found"
  | taskPastDeadline => "past deadline"
  | taskExceedsMaxTries => "exceeded maximum tries"
  | taskAlreadyActive => "task already active"
  | taskTypeCannotEnqueue => "cannot enqueue a task in state"
  | taskUpdateFailed => "failed updating task state"
  | taskAlreadyInState => "failed updating task state, already in desired state"
  | taskLoadFailed => "loading task failed"
  | taskTypeRequired => "task type is required"
  | taskTypeInvalid => "task type is invalid"
  | taskIDInvalid => "task ID is invalid"
  | taskDependenciesFailed => "task dependencies failed"
  | taskAlreadySigned => "task is already signed"
  | taskPayloadEncoderAlreadySet => "task payload encoder is already set"
  | taskSignatureRequiresQueue => "signing a task requires the queue to be set"
  | taskNotSigned => "task is not signed"
  | taskSignatureInvalid => "invalid task signature"
  | inProgressNotSupported => "task is not being processed by a handler"
  | contextWithoutDeadline => "non deadline context given"
  | invalidStorageItem => "invalid storage item"
  | storageNotReady => "storage not ready"
  | queueNotFound => "queue not found"
  | queueNameRequired => "queue name is required"
  | noNatsConn => "no NATS connection supplied"
  | queueConsumerNotFound => "queue consumer not found"
  | queueItemCorrupt => "corrupt queue item received"
  | queueItemInvalid => "invalid queue item received"
  | invalidQueueState => "invalid queue storage state"
  | unknownRetryPolicy => "unknown retry policy"
  | unknownDiscardPolicy => "unknown discard policy"
  | duplicateItem => "duplicate work queue item"
  | scheduleNameIsRequired => "name is required"
  | scheduleNameInvalid => "name is invalid"
  | scheduleIsRequired => "schedule is required"
  | scheduleInvalid => "invalid cron schedule"
  | scheduledTaskShortDeadline => "deadline too short"
  | scheduledTaskAlreadyExist => "scheduled task already exist"
  | scheduledTaskNotFound => "scheduled task not found"
  | noHandlerForTaskType => "no handler for task type"
  | duplicateHandlerForTaskType => "duplicate handler for task type"
  | invalidMiddleware => "invalid middleware"
  | requestReplyFailed => "request-reply callout failed"
  | requestReplyNoDeadline => "request-reply requires deadline context"
  | requestReplyShortDeadline => "deadline too short"
  | contextCanceled => "context canceled"
  | contextDeadlineExceeded => "context deadline exceeded"
  | natsNoResponders => "nats: no responders available for request"

/-- `ErrTaskAlreadyInState` is itself built with `%w` over `ErrTaskUpdateFailed`. -/
def chain : Sentinel → List Sentinel
  | taskAlreadyInState => [taskAlreadyInState, taskUpdateFailed]
  | s => [s]

end Sentinel

structure Error where
  text : String
  chain : List Sentinel
  deriving DecidableEq, Repr

namespace Error

/-- `errors.Is`. -/
def is (e : Error) (s : Sentinel) : Bool := e.chain.contains s

def plain (text : String) : Error := ⟨text, []⟩

/-- `fmt.Errorf` with a single leading `%w` verb. -/
def wrap (e : Error) (rest : String) : Error := ⟨e.text ++ rest, e.chain⟩

end Error

def Sentinel.error (s : Sentinel) : Error := ⟨s.text, s.chain⟩

@[simp] theorem Error.wrap_is (e : Error) (rest : String) (s : Sentinel) :
    (e.wrap rest).is s = e.is s := rfl

inductive ContextEnd where
  | canceled
  | deadlineExceeded
  deriving DecidableEq, Repr

/-- `ctx.Err()`. -/
def ContextEnd.error : ContextEnd → Error
  | .canceled => Sentinel.contextCanceled.error
  | .deadlineExceeded => Sentinel.contextDeadlineExceeded.error

/-- How a Go function fails: it returns an error or it panics. -/
inductive Fault where
  | error (e : Error)
  | panic (message : String)
  deriving DecidableEq, Repr

/-- The message of the panic at a nil pointer, or at a call of a nil function. -/
def nilDereference : String :=
  "runtime error: invalid memory address or nil pointer dereference"

end AsyncJobs
