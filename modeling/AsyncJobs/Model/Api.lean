import AsyncJobs.Model.Http
import AsyncJobs.Model.Scheduler
import AsyncJobs.Model.Setup

/-!
# Creating queues and schedules and retrying tasks over HTTP

The handlers of the HTTP server that read a body, beside `CreateTask`. A handler is a program
over the requests of the storage, the client functions it calls and the response it writes.
Bodies are given as what decoding them returns.
-/

namespace AsyncJobs

open Interaction

/-- What the response tells about a queue: its name, when it was looked up and the settings
of its stream and of its consumer. -/
structure QueueInfo where
  name : String
  time : Int
  stream : StreamHandle
  consumer : ConsumerHandle
  deriving DecidableEq, Repr

structure Schedule where
  name : String
  schedule : String
  queue : String
  taskType : String
  createdAt : Int
  payload : Option Bytes
  deadline : Option Int
  maxTries : Option Int
  deriving DecidableEq, Repr

def toGenSchedule (st : ScheduledTask) : Schedule where
  name := st.name
  schedule := st.schedule
  queue := st.queue
  taskType := st.taskType
  createdAt := st.createdAt
  payload := if 0 < (st.payload.getD []).length then st.payload else none
  deadline := if st.deadline ≠ 0 then some st.deadline else none
  maxTries := if st.maxTries ≠ 0 then some st.maxTries else none

inductive BulkRetryStatus where
  | ok
  | notFound
  | failed
  deriving DecidableEq, Repr

structure BulkRetryResult where
  id : String
  status : BulkRetryStatus
  error : Option String
  deriving DecidableEq, Repr

inductive ApiResponse where
  | queue (status : Nat) (info : QueueInfo)
  | schedule (status : Nat) (schedule : Schedule)
  | retried (status : Nat) (results : List BulkRetryResult)
  | error (e : ErrorResponse)
  deriving DecidableEq, Repr

/-- The calls of a handler. `latestInformation` and `latestState` ask the server for a stream
and for a consumer once more; `newID` is the random identifier in `NewTask`. -/
inductive ApiCall where
  | now
  | newID
  | setup (c : SetupCall)
  | latestInformation (stream : String)
  | latestState (stream durable : String)
  | retryTaskByID (id : String)
  | newScheduledTask (name schedule queue : String) (task : Task)
  | loadScheduledTaskByName (name : String)
  | respond (response : ApiResponse)

def ApiCall.Reply : ApiCall → Type
  | now => Int
  | newID => String
  | setup c => c.Reply
  | latestInformation _ => Except Error StreamHandle
  | latestState _ _ => Except Error ConsumerHandle
  | retryTaskByID _ => Option Error
  | newScheduledTask _ _ _ _ => Option Error
  | loadScheduledTaskByName _ => Except Error ScheduledTask
  | respond _ => Unit

def api : Signature := ⟨ApiCall, ApiCall.Reply⟩

abbrev Api (β : Type) := Prog api β

def ApiCall.send (c : ApiCall) : Api c.Reply := Prog.invoke (S := api) c

def respondError (e : ErrorResponse) : Api Unit := (ApiCall.respond (.error e)).send

def invalidJson (err : Error) : ErrorResponse :=
  ⟨400, .invalidArgument, err.text, "invalid_json", ""⟩

section Queues

structure QueueCreateRequest where
  name : String
  maxAge : Option String := none
  maxRuntime : Option String := none
  maxEntries : Option Int := none
  discardOld : Option Bool := none
  maxTries : Option Int := none
  maxConcurrent : Option Int := none
  deriving DecidableEq, Repr

variable (parseDuration : String → Except Error Int)

/-- A duration given as text, zero if it is not given. -/
def parseField (field : String) : Option String → Except ErrorResponse Int
  | none => .ok 0
  | some text =>
    match parseDuration text with
    | .error err =>
      .error ⟨400, .invalidArgument, field ++ ": " ++ err.text, "invalid_duration", field⟩
    | .ok d => .ok d

/-- The queue a request asks for, or the response that was written. -/
def QueueCreateRequest.queue (req : QueueCreateRequest) (allowCreateDefaultQueue : Bool) :
    Except ErrorResponse QueueConfig :=
  if req.name = "" then
    .error ⟨400, .invalidArgument, "name is required", "queue_name_required", "name"⟩
  else if req.name = "DEFAULT" ∧ !allowCreateDefaultQueue then
    .error ⟨400, .invalidArgument, "DEFAULT queue creation is disabled; start the server with " ++
      "WithAllowCreateDefaultQueue or pick a different name", "default_queue_disallowed", "name"⟩
  else do
    let maxAge ← parseField parseDuration "max_age" req.maxAge
    let maxRunTime ← parseField parseDuration "max_runtime" req.maxRuntime
    .ok {
      name := req.name
      maxAge
      maxRunTime
      maxEntries := req.maxEntries.getD 0
      discardOld := req.discardOld.getD false
      maxTries := req.maxTries.getD 0
      maxConcurrent := req.maxConcurrent.getD 0 }

/-- The part of `QueueInfo` behind the lookup of the stream. -/
def streamQueueInfo (name : String) (time : Int) : Api (Except Error QueueInfo) := do
  match ← (ApiCall.setup (.loadConsumer (workStreamName name) "WORKERS")).send with
  | .error e => return .error e.err
  | .ok _ =>
    match ← (ApiCall.latestInformation (workStreamName name)).send with
    | .error err => return .error err
    | .ok stream =>
      match ← (ApiCall.latestState (workStreamName name) "WORKERS").send with
      | .error err => return .error err
      | .ok consumer => return .ok ⟨name, time, stream, consumer⟩

/-- `QueueInfo` of the storage. -/
def queueInfo (name : String) : Api (Except Error QueueInfo) := do
  let time ← ApiCall.now.send
  match ← (ApiCall.setup (.loadStream (workStreamName name))).send with
  | .error e =>
    return .error (if e.code = some 10059 then Sentinel.queueNotFound.error else e.err)
  | .ok _ => streamQueueInfo name time

def defaultQueueReplicas : Int := 1

def defaultQueueMemory : Bool := false

/-- `PrepareQueue` on the storage of the server; it reads the bindings of no other queue. -/
def prepareQueue (q : QueueConfig) : Api (Option Error) := do
  let result ← (Bindings.prepareQueue {} q defaultQueueReplicas defaultQueueMemory).interpret
    fun c => (ApiCall.setup c).send
  return result.1

/-- The part of `CreateQueue` behind the checks of the request. -/
def createCheckedQueue (q : QueueConfig) : Api Unit := do
  match ← queueInfo q.name with
  | .ok _ =>
    respondError ⟨409, .duplicate, "queue " ++ q.name.quote ++ " already exists",
      "queue_already_exists", ""⟩
  | .error _ =>
    match ← prepareQueue q with
    | some err => respondError (writeLibraryError err)
    | none =>
      match ← queueInfo q.name with
      | .error err => respondError (writeLibraryError err)
      | .ok nfo => (ApiCall.respond (.queue 201 nfo)).send

def createQueue (allowCreateDefaultQueue : Bool) (body : Except Error QueueCreateRequest) :
    Api Unit :=
  match body with
  | .error err => respondError (invalidJson err)
  | .ok req =>
    match req.queue parseDuration allowCreateDefaultQueue with
    | .error e => respondError e
    | .ok q => createCheckedQueue q

end Queues

section Schedules

/-- `α` are the JSON values. -/
structure ScheduleCreateRequest (α : Type) where
  name : String
  schedule : String
  queue : String
  taskType : String
  deadlineOffset : Option String := none
  maxTries : Option Int := none
  payload : Option α := none
  payloadBase64 : Option Bytes := none

variable {α : Type} (jsonMarshal : α → Except Error Bytes)
  (parseDuration : String → Except Error Int)

/-- The deadline for the offset of a request; the clock is read once the offset is parsed. -/
def ScheduleCreateRequest.deadline (req : ScheduleCreateRequest α) :
    Api (Except ErrorResponse (Option Int)) :=
  match req.deadlineOffset with
  | none => return .ok none
  | some offset =>
    match parseField parseDuration "deadline_offset" (some offset) with
    | .error e => return .error e
    | .ok d => do
      let now : Int ← ApiCall.now.send
      return .ok (some (now + d))

/-- The call of `NewTask` and what is set on its result. -/
def ScheduleCreateRequest.newTask (req : ScheduleCreateRequest α) (deadline : Option Int)
    (id : String) (now : Int) : Except Error Task :=
  let opts := (match req.maxTries with
      | some tries => [taskMaxTries tries]
      | none => []) ++
    (match deadline with
      | some deadline => [taskDeadline deadline]
      | none => [])
  let initialPayload := if req.payloadBase64.isNone then req.payload else none
  match AsyncJobs.newTask jsonMarshal id now req.taskType initialPayload opts with
  | .error err => .error err
  | .ok task =>
    .ok { task.toTask with
      payload := match req.payloadBase64 with
        | some bytes => some bytes
        | none => task.payload }

/-- The part of `CreateSchedule` behind the decoding of the body. -/
def createDecodedSchedule (req : ScheduleCreateRequest α) : Api Unit := do
  if req.payload.isSome ∧ req.payloadBase64.isSome then
    respondError ⟨400, .invalidArgument,
      "payload and payload_base64 are mutually exclusive", "payload_both_set", "payload"⟩
  else
    match ← req.deadline parseDuration with
    | .error e => respondError e
    | .ok deadline =>
      let id ← ApiCall.newID.send
      let now ← ApiCall.now.send
      match req.newTask jsonMarshal deadline id now with
      | .error err => respondError (writeLibraryError err)
      | .ok task =>
        match ← (ApiCall.newScheduledTask req.name req.schedule req.queue task).send with
        | some err => respondError (writeLibraryError err)
        | none =>
          match ← (ApiCall.loadScheduledTaskByName req.name).send with
          | .error err => respondError (writeLibraryError err)
          | .ok st => (ApiCall.respond (.schedule 201 (toGenSchedule st))).send

def createSchedule (body : Except Error (ScheduleCreateRequest α)) : Api Unit :=
  match body with
  | .error err => respondError (invalidJson err)
  | .ok req => createDecodedSchedule jsonMarshal parseDuration req

end Schedules

section Retries

def bulkRetryMax : Nat := 100

def bulkRetryResult (id : String) : Option Error → BulkRetryResult
  | none => ⟨id, .ok, none⟩
  | some err => ⟨id, if err.is .taskNotFound then .notFound else .failed, some err.text⟩

def retryEach : List String → Api (List BulkRetryResult)
  | [] => return []
  | id :: ids => do
    let err ← (ApiCall.retryTaskByID id).send
    let results ← retryEach ids
    return bulkRetryResult id err :: results

/-- The body holds the identifiers. -/
def retryTasks (body : Except Error (List String)) : Api Unit :=
  match body with
  | .error err => respondError (invalidJson err)
  | .ok ids =>
    if ids = [] then
      respondError ⟨400, .invalidArgument, "ids is required", "ids_required", "ids"⟩
    else if bulkRetryMax < ids.length then
      respondError ⟨400, .invalidArgument,
        "ids may not exceed " ++ toString bulkRetryMax ++ " entries", "ids_too_many", "ids"⟩
    else do
      let results ← retryEach ids
      (ApiCall.respond (.retried 200 results)).send

end Retries

end AsyncJobs
