import AsyncJobs.Model.Encoding

/-!
# Tasks

`Task` holds the fields that are serialised to the task store. A `Copy` is a
`*Task` in some client's memory: the same fields plus the unexported
`storageOptions`, the stream sequence the copy was last loaded from or last
acknowledged at. Times are instants in nanoseconds since the Unix epoch and
durations are nanoseconds. The result payload, an arbitrary JSON value in the
source, is kept as its JSON text.
-/

namespace AsyncJobs

inductive TaskState where
  | unknown
  | new
  | active
  | retry
  | expired
  | terminated
  | completed
  | queueError
  | blocked
  | unreachable
  deriving DecidableEq, Repr

def TaskState.text : TaskState → String
  | unknown => ""
  | new => "new"
  | active => "active"
  | retry => "retry"
  | expired => "expired"
  | terminated => "terminated"
  | completed => "complete"
  | queueError => "queue_error"
  | blocked => "blocked"
  | unreachable => "unreachable"

/-- The states no further processing follows without a manual retry. -/
def TaskState.final : TaskState → Bool
  | completed | expired | terminated | unreachable => true
  | _ => false

structure TaskResult where
  payload : String
  completedAt : Int
  deriving DecidableEq, Repr

structure Task where
  id : String
  type : String
  queue : String := ""
  dependencies : List String := []
  dependencyResults : List (String × Option TaskResult) := []
  loadDependencies : Bool := false
  payload : Option Bytes := none
  deadline : Option Int := none
  maxTries : Int
  result : Option TaskResult := none
  state : TaskState
  createdAt : Int
  lastTriedAt : Option Int := none
  tries : Int := 0
  lastErr : String := ""
  signature : String := ""
  deriving DecidableEq, Repr

structure Copy extends Task where
  storageOptions : Option Nat := none
  deriving DecidableEq, Repr

def defaultMaxTries : Int := 10

def isNameChar (c : Char) : Bool :=
  ('a' ≤ c && c ≤ 'z') || ('A' ≤ c && c ≤ 'Z') || ('0' ≤ c && c ≤ '9') ||
    c == '_' || c == ':' || c == '-'

def validNameMatcher : String := "^[a-zA-Z0-9_:-]+$"

/-- `IsValidName`: a non-empty name over the characters of `validNameMatcher`. -/
def isValidName (name : String) : Bool :=
  !name.toList.isEmpty && name.toList.all isNameChar

namespace Task

variable (t : Task)

/-- `IsPastDeadline` with the clock reading it makes. -/
def isPastDeadline (now : Int) : Bool :=
  match t.deadline with
  | none => false
  | some deadline => 0 < now - deadline

def hasDependencies : Bool := 0 < t.dependencies.length

/-- `Time.UnixNano` is a 64-bit count that wraps outside its range. -/
def unixNano (instant : Int) : Int := instant.bmod (2 ^ 64)

def signatureMessage : Except Error String :=
  if t.queue = "" then .error Sentinel.taskSignatureRequiresQueue.error
  else
    let deadline := match t.deadline with
      | none => 0
      | some deadline => unixNano deadline
    .ok (t.id ++ ":" ++ t.queue ++ ":" ++ t.type ++ ":" ++ toString t.maxTries ++ ":" ++
      toString (unixNano t.createdAt) ++ ":" ++ toString deadline ++ ":" ++
      String.ofList (Base64.encode (t.payload.getD [])))

end Task

/-- A task under construction: the encoder option is not part of the record. -/
structure TaskBuilder (α : Type) where
  task : Task
  payloadMarshaller : Option (α → Except Error Bytes) := none

/-- An option may change the task in any way or refuse it. -/
abbrev TaskOpt (α : Type) := TaskBuilder α → Except Error (TaskBuilder α)

section Options

variable {α : Type}

def taskDeadline (deadline : Int) : TaskOpt α := fun b =>
  .ok { b with task := { b.task with deadline := some deadline } }

def taskMaxTries (tries : Int) : TaskOpt α := fun b =>
  .ok { b with task := { b.task with maxTries := tries } }

/-- Every identifier is appended unless it is already listed. -/
def taskDependsOnIDs (ids : List String) : TaskOpt α := fun b =>
  .ok { b with
    task := { b.task with
      dependencies := ids.foldl (fun deps id => if id ∈ deps then deps else deps ++ [id])
        b.task.dependencies } }

def taskRequiresDependencyResults : TaskOpt α := fun b =>
  .ok { b with task := { b.task with loadDependencies := true } }

def taskPayloadEncoder (encode : α → Except Error Bytes) : TaskOpt α := fun b =>
  match b.payloadMarshaller with
  | some _ => .error Sentinel.taskPayloadEncoderAlreadySet.error
  | none => .ok { b with payloadMarshaller := some encode }

def applyTaskOpts : List (TaskOpt α) → TaskOpt α
  | [], b => .ok b
  | opt :: opts, b =>
    match opt b with
    | .error e => .error e
    | .ok b => applyTaskOpts opts b

def taskDependsOn (tasks : List Task) : TaskOpt α :=
  applyTaskOpts (tasks.map fun task => taskDependsOnIDs [task.id])

end Options

/-- `NewTask` for payload values of type `α`. The random identifier, the clock
reading and `json.Marshal` on `α` are arguments; `none` is the nil interface. -/
def newTask {α : Type} (jsonMarshal : α → Except Error Bytes) (id : String) (now : Int)
    (taskType : String) (payload : Option α) (opts : List (TaskOpt α)) : Except Error Copy :=
  if !isValidName taskType then
    .error (Sentinel.taskTypeInvalid.error.wrap (": must match " ++ validNameMatcher))
  else if taskType = "" then .error Sentinel.taskTypeRequired.error
  else
    let start : Task :=
      { id := id, type := taskType, createdAt := now, maxTries := defaultMaxTries, state := .new }
    match applyTaskOpts opts { task := start } with
    | .error e => .error e
    | .ok b =>
      if !isValidName b.task.id then
        .error (Sentinel.taskIDInvalid.error.wrap (": must match " ++ validNameMatcher))
      else
        let encoded : Except Error Task :=
          match payload with
          | none => .ok b.task
          | some value =>
            match (b.payloadMarshaller.getD jsonMarshal) value with
            | .error e => .error e
            | .ok bytes => .ok { b.task with payload := some bytes }
        match encoded with
        | .error e => .error e
        | .ok task =>
          if 0 < task.dependencies.length then .ok ⟨{ task with state := .blocked }, none⟩
          else .ok ⟨task, none⟩

end AsyncJobs
