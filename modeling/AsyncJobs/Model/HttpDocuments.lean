import AsyncJobs.Model.Documents
import AsyncJobs.Model.Http

/-!
# Tasks as the HTTP server sends them

The type `Task` of the OpenAPI specification, which has a pointer for each field that may be
left out, the conversion of a task of the library to it, and the responses that are made of
such tasks: one task, a list of tasks that pass the filters of the request, or a stream of
them with one task on each line.
-/

namespace AsyncJobs

open Record Rfc3339 Numeral

/-- `gen.TaskResult`. -/
structure GenTaskResult where
  completed : Timestamp
  payload : AnyDocument

/-- `gen.Task`. -/
structure GenTask where
  created : Timestamp
  deadline : Option Timestamp
  dependencies : Option (List String)
  dependencyResults : Option (Entries GenTaskResult)
  id : String
  lastErr : Option String
  loadDependencies : Option Bool
  maxTries : Option Int64
  payload : Option Bytes
  queue : Option String
  result : Option GenTaskResult
  signature : Option String
  state : String
  tried : Option Timestamp
  tries : Option Int64
  type : String

/-- A pointer to the value, or nil if that is the empty one. -/
def unlessEmpty {α : Type} (empty : Bool) (x : α) : Option α := if empty then none else some x

def toGenTaskResult (r : ResultDocument) : GenTaskResult := ⟨r.completedAt, r.payload⟩

def toGenTask (t : TaskDocument) : GenTask where
  id := t.id
  type := t.type
  payload := t.payload
  state := t.state
  created := t.createdAt
  queue := unlessEmpty t.queue.isEmpty t.queue
  deadline := t.deadline
  dependencies := unlessEmpty t.dependencies.isEmpty t.dependencies
  -- Results that are nil are left out of the map.
  dependencyResults := unlessEmpty t.dependencyResults.list.isEmpty
    (t.dependencyResults.filterMap (Option.map toGenTaskResult))
  loadDependencies := unlessEmpty (!t.loadDependencies) t.loadDependencies
  maxTries := unlessEmpty (t.maxTries = 0) t.maxTries
  result := t.result.map toGenTaskResult
  signature := unlessEmpty t.signature.isEmpty t.signature
  tried := t.lastTriedAt
  tries := unlessEmpty (t.tries = 0) t.tries
  lastErr := unlessEmpty t.lastErr.isEmpty t.lastErr

def GenTaskResult.marshal (r : GenTaskResult) : Except Error (Json Literal) := do
  let completed ← marshalTime "time.Time" r.completed
  let payload ← r.payload
  return .object
    [member "completed" (some completed), member "payload" (some payload)].flatten

namespace GenTask

/-- The members of the document, given those that can fail. -/
def members (t : GenTask) (created : Json Literal) (deadline : Option (Json Literal))
    (results : Option (List (String × Json Literal))) (result tried : Option (Json Literal)) :
    List (List (String × Json Literal)) :=
  [member "created" (some created),
    member "deadline" deadline,
    member "dependencies" (t.dependencies.map fun ids => .array (ids.map .string)),
    member "dependency_results" (results.map .object),
    member "id" (some (.string t.id)),
    member "last_err" (t.lastErr.map .string),
    member "load_dependencies" (t.loadDependencies.map .bool),
    member "max_tries" (t.maxTries.map ofInt64),
    member "payload" (some (ofBytes t.payload)),
    member "queue" (t.queue.map .string),
    member "result" result,
    member "signature" (t.signature.map .string),
    member "state" (some (.string t.state)),
    member "tried" tried,
    member "tries" (t.tries.map ofInt64),
    member "type" (some (.string t.type))]

/-- What `json.Marshal` writes for the task. -/
def marshal (t : GenTask) : Except Error (Json Literal) := do
  let created ← marshalTime "time.Time" t.created
  let deadline ← t.deadline.mapM (marshalTime "*time.Time")
  let results ← t.dependencyResults.mapM fun entries =>
    entries.list.mapM fun e => do return (e.1, ← e.2.marshal)
  let result ← t.result.mapM GenTaskResult.marshal
  let tried ← t.tried.mapM (marshalTime "*time.Time")
  return .object (t.members created deadline results result tried).flatten

end GenTask

inductive Reply where
  | body (status : Nat) (contentType : String) (bytes : Bytes)
  | error (e : ErrorResponse)

def contentTypeJSON : String := "application/json; charset=utf-8"

def contentTypeNDJSON : String := "application/x-ndjson"

def writeJSON (status : Nat) (value : Except Error (Json Literal)) : Reply :=
  match value with
  | .error _ => .error ⟨500, .internal, "response marshal failed", "", ""⟩
  | .ok v => .body status contentTypeJSON (document v)

/-- `GetTask`, given what `LoadTaskByID` returned. -/
def getTask : Except Error TaskDocument → Reply
  | .error err => .error (writeLibraryError err)
  | .ok task => writeJSON 200 (toGenTask task).marshal

structure TaskFilter where
  states : List String
  queue : String
  taskType : String
  createdSince : Option Timestamp

def TaskFilter.accepts (f : TaskFilter) (t : TaskDocument) : Bool :=
  (f.states.isEmpty || f.states.contains t.state) &&
    (f.queue.isEmpty || t.queue = f.queue) &&
    (f.taskType.isEmpty || t.type = f.taskType) &&
    match f.createdSince with
    | none => true
    | some since => ¬ t.createdAt.instant < since.instant

/-- What the loop of `ListTasks` keeps of the channel, which may hold nil. -/
def TaskFilter.select (f : TaskFilter) (ch : List (Option TaskDocument)) : List TaskDocument :=
  ch.filterMap fun task => task.bind fun t => if f.accepts t then some t else none

/-- The response of `ListTasks` without a stream: `gen.TaskListResponse`. -/
def listTasksJSON (f : TaskFilter) (ch : List (Option TaskDocument)) : Reply :=
  writeJSON 200 (do
    let tasks ← (f.select ch).mapM fun t => (toGenTask t).marshal
    return .object [member "count" (some (ofInt64 (Int64.ofNat (f.select ch).length))),
      member "tasks" (some (.array tasks))].flatten)

/-- The loop of `streamTasksNDJSON`, which ends at a task that cannot be encoded. -/
def streamLines (f : TaskFilter) : List (Option TaskDocument) → List (Json Literal)
  | [] => []
  | none :: ch => streamLines f ch
  | some t :: ch =>
    if f.accepts t then
      match (toGenTask t).marshal with
      | .error _ => []
      | .ok v => v :: streamLines f ch
    else streamLines f ch

/-- `streamTasksNDJSON`; `received` tasks are taken before the end of the context is seen. -/
def streamTasksNDJSON (f : TaskFilter) (received : Nat) (ch : List (Option TaskDocument)) :
    Reply :=
  .body 200 contentTypeNDJSON (Json.encodeLines (fun l => l) (streamLines f (ch.take received)))

end AsyncJobs
