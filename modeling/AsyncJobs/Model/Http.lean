import AsyncJobs.Interaction.Prog
import AsyncJobs.Model.Task
import Mathlib.Logic.Function.Basic

/-!
# Creating tasks over HTTP

`CreateTask` of the HTTP server and the store that remembers which task an
`Idempotency-Key` created. The handler of a request is a program over the locked operations
of that store, the two client functions it calls and the response it writes.
-/

namespace AsyncJobs

open Interaction

def idempotencyTTL : Int := 10 * 60 * 10 ^ 9

structure IdempotencyEntry where
  taskID : String
  expires : Int
  deriving DecidableEq, Repr

structure IdempotencyStore where
  entries : String → Option IdempotencyEntry := fun _ => none

namespace IdempotencyStore

variable (s : IdempotencyStore) (now : Int)

/-- The task remembered for the key and the store without the key if it has expired. -/
def lookup (key : String) : Option String × IdempotencyStore :=
  match s.entries key with
  | none => (none, s)
  | some e =>
    if e.expires < now then (none, ⟨Function.update s.entries key none⟩)
    else (some e.taskID, s)

/-- The loop of `store` that deletes what has expired. -/
def sweep : IdempotencyStore :=
  ⟨fun key => (s.entries key).filter fun e => ¬ e.expires < now⟩

def store (key taskID : String) : IdempotencyStore :=
  ⟨Function.update (s.sweep now).entries key (some ⟨taskID, now + idempotencyTTL⟩)⟩

end IdempotencyStore

inductive ErrorCode where
  | conflict
  | dependencyFailed
  | duplicate
  | internal
  | invalidArgument
  | notFound
  | payloadTooLarge
  | rateLimited
  | signatureInvalid
  | signatureRequired
  | unavailable
  deriving DecidableEq, Repr

/-- The reason and the field are left out of the details when they are empty. -/
structure ErrorResponse where
  status : Nat
  code : ErrorCode
  message : String
  reason : String
  field : String
  deriving DecidableEq, Repr

/-- A task with its `Location`, or an error. -/
inductive Response where
  | task (status : Nat) (location : String) (task : Task)
  | error (e : ErrorResponse)
  deriving DecidableEq, Repr

/-- The cases of `writeLibraryError`, in order: the errors, the status, the code and the
reason. -/
def libraryErrors : List (List Sentinel × Nat × ErrorCode × String) :=
  [([.taskNotFound], 404, .notFound, "task_not_found"),
    ([.taskTypeInvalid, .taskTypeRequired], 400, .invalidArgument, "task_type_invalid"),
    ([.taskIDInvalid], 400, .invalidArgument, "task_id_invalid"),
    ([.taskTypeCannotEnqueue], 409, .conflict, "task_cannot_enqueue"),
    ([.taskPastDeadline], 409, .conflict, "task_past_deadline"),
    ([.taskAlreadyActive], 409, .conflict, "task_already_active"),
    ([.taskAlreadyInState], 409, .conflict, "task_already_in_state"),
    ([.taskAlreadySigned], 409, .conflict, "task_already_signed"),
    ([.taskNotSigned], 400, .signatureRequired, "task_not_signed"),
    ([.taskSignatureInvalid], 400, .signatureInvalid, "task_signature_invalid"),
    ([.storageNotReady, .noNatsConn], 503, .unavailable, "storage_not_ready"),
    ([.queueNotFound, .queueConsumerNotFound], 404, .notFound, "queue_not_found"),
    ([.queueNameRequired], 400, .invalidArgument, "queue_name_required"),
    ([.invalidQueueState], 503, .unavailable, "queue_state_invalid"),
    ([.scheduledTaskNotFound], 404, .notFound, "schedule_not_found"),
    ([.scheduledTaskAlreadyExist], 409, .duplicate, "schedule_already_exists"),
    ([.duplicateItem], 409, .duplicate, "duplicate_item"),
    ([.scheduleInvalid, .scheduleNameInvalid, .scheduleNameIsRequired, .scheduleIsRequired,
      .scheduledTaskShortDeadline], 400, .invalidArgument, "schedule_invalid"),
    ([.unknownRetryPolicy], 400, .invalidArgument, "unknown_retry_policy")]

def writeLibraryError (err : Error) : ErrorResponse :=
  match libraryErrors.find? fun row => row.1.any err.is with
  | some (_, status, code, reason) => ⟨status, code, err.text, reason, ""⟩
  | none => ⟨500, .internal, err.text, "", ""⟩

/-- The decoded body of a request; `α` are the JSON values. -/
structure TaskCreateRequest (α : Type) where
  deadline : Option Int := none
  dependencies : Option (List String) := none
  loadDependencies : Option Bool := none
  maxTries : Option Int := none
  payload : Option α := none
  payloadBase64 : Option Bytes := none
  queue : Option String := none
  signature : Option String := none
  type : String

/-- The options `readCreateTaskBody` collects. -/
def TaskCreateRequest.opts {α : Type} (req : TaskCreateRequest α) : List (TaskOpt α) :=
  (match req.deadline with
    | some deadline => [taskDeadline deadline]
    | none => []) ++
  (match req.maxTries with
    | some tries => [taskMaxTries tries]
    | none => []) ++
  (match req.dependencies with
    | some (id :: ids) => [taskDependsOnIDs (id :: ids)]
    | _ => []) ++
  (match req.loadDependencies with
    | some true => [taskRequiresDependencyResults]
    | _ => [])

/-- The calls of a request handler. `newID` is the random identifier in `NewTask`; a
successful `enqueueTask` returns the task as `EnqueueTask` left it. -/
inductive HttpCall where
  | lookup (key : String)
  | loadTaskByID (id : String)
  | newID
  | now
  | enqueueTask (task : Task)
  | store (key taskID : String)
  | respond (response : Response)

def HttpCall.Reply : HttpCall → Type
  | lookup _ => Option String
  | loadTaskByID _ => Except Error Task
  | newID => String
  | now => Int
  | enqueueTask _ => Except Error Task
  | store _ _ => Unit
  | respond _ => Unit

def http : Signature := ⟨HttpCall, HttpCall.Reply⟩

abbrev Http (β : Type) := Prog http β

def HttpCall.send (c : HttpCall) : Http c.Reply := Prog.invoke (S := http) c

section

variable {α : Type} (jsonMarshal : α → Except Error Bytes)

/-- The call of `NewTask` and what is set on its result. A payload in base64 replaces the
encoded one. -/
def TaskCreateRequest.newTask (req : TaskCreateRequest α) (id : String) (now : Int) :
    Except ErrorResponse Task :=
  let initialPayload := if req.payloadBase64.isNone then req.payload else none
  match AsyncJobs.newTask jsonMarshal id now req.type initialPayload req.opts with
  | .error err => .error (writeLibraryError err)
  | .ok task =>
    let payload := match req.payloadBase64 with
      | some bytes => some bytes
      | none => task.payload
    .ok { task.toTask with payload, signature := req.signature.getD task.signature }

def readCreateTaskBody (body : Except Error (TaskCreateRequest α)) :
    Http (Except ErrorResponse Task) :=
  match body with
  | .error err => return .error ⟨400, .invalidArgument, err.text, "invalid_json", ""⟩
  | .ok req =>
    if req.payload.isSome ∧ req.payloadBase64.isSome then
      return .error ⟨400, .invalidArgument,
        "payload and payload_base64 are mutually exclusive", "payload_both_set", "payload"⟩
    else do
      let id ← HttpCall.newID.send
      let now ← HttpCall.now.send
      return req.newTask jsonMarshal id now

/-- The part of `CreateTask` behind the lookup. -/
def createFresh (key : Option String) (body : Except Error (TaskCreateRequest α)) :
    Http Unit := do
  match ← readCreateTaskBody jsonMarshal body with
  | .error e => (HttpCall.respond (.error e)).send
  | .ok task =>
    match ← (HttpCall.enqueueTask task).send with
    | .error err => (HttpCall.respond (.error (writeLibraryError err))).send
    | .ok task =>
      match key with
      | none => (HttpCall.respond (.task 201 ("/v1/tasks/" ++ task.id) task)).send
      | some key =>
        (HttpCall.store key task.id).send
        (HttpCall.respond (.task 201 ("/v1/tasks/" ++ task.id) task)).send

/-- A remembered task that does not load is created again. -/
def createTask (key : Option String) (body : Except Error (TaskCreateRequest α)) :
    Http Unit := do
  match key with
  | none => createFresh jsonMarshal none body
  | some key =>
    match ← (HttpCall.lookup key).send with
    | none => createFresh jsonMarshal (some key) body
    | some id =>
      match ← (HttpCall.loadTaskByID id).send with
      | .error _ => createFresh jsonMarshal (some key) body
      | .ok task => (HttpCall.respond (.task 200 ("/v1/tasks/" ++ task.id) task)).send

end

end AsyncJobs
