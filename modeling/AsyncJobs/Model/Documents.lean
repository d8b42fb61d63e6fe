import AsyncJobs.Codec.Record
import AsyncJobs.Model.Payload

/-!
# Stored documents

The JSON documents of the package: the task as the task store holds it and as the HTTP server
sends it, the item of a work queue and the events. A `TaskDocument` has the fields of the Go
struct that are written. What the record model leaves out is here: times have the offset of
their zone, and the payload of a result is the JSON value it is written as, or the error with
which it cannot be. Strings are valid UTF-8.
-/

namespace AsyncJobs

open Record Rfc3339 Numeral

section Values

/-- `json.Marshal` of a time in a variable of the given type. -/
def marshalTime (goType : String) (t : Timestamp) : Except Error (Json Literal) :=
  match t.text with
  | .ok text => .ok (ofText text)
  | .error err => .error (.plain ("json: error calling MarshalJSON for type " ++ goType ++
      ": Time.MarshalJSON: " ++ err))

def zeroTime : Timestamp := ⟨-62135596800000000000, 0⟩

/-- A value of type `any` in terms of what `json.Marshal` makes of it; a function or a float
that is not a number has an error. -/
abbrev AnyDocument := Except Error (Json Literal)

/-- A value of type `any` is replaced by what was decoded. -/
def anyValue : Decoder AnyDocument := fun v _ =>
  match unmarshalAny (v.map Scanned.value) with
  | .ok a => some (.ok (a.map formatFloat))
  | .error _ => none

end Values

structure ResultDocument where
  payload : AnyDocument
  completedAt : Timestamp

namespace ResultDocument

def zero : ResultDocument := ⟨.ok .null, zeroTime⟩

def marshal (r : ResultDocument) : Except Error (Json Literal) := do
  let payload ← r.payload
  let completed ← marshalTime "time.Time" r.completedAt
  return .object
    [member "payload" (some payload), member "completed" (some completed)].flatten

def fields : List (FieldOf ResultDocument) :=
  [field "payload" (.mk payload fun x r => { r with payload := x }) anyValue,
    field "completed" (.mk completedAt fun x r => { r with completedAt := x }) timestamp]

/-- A pointer to a result, which may be nil. -/
def marshalPointer : Option ResultDocument → Except Error (Json Literal)
  | none => .ok .null
  | some r => r.marshal

def decoder : Decoder (Option ResultDocument) := pointer zero (object fields)

end ResultDocument

structure TaskDocument where
  id : String
  type : String
  queue : String
  dependencies : List String
  dependencyResults : Entries (Option ResultDocument)
  loadDependencies : Bool
  payload : Option Bytes
  deadline : Option Timestamp
  maxTries : Int64
  result : Option ResultDocument
  state : String
  createdAt : Timestamp
  lastTriedAt : Option Timestamp
  tries : Int64
  lastErr : String
  signature : String

namespace TaskDocument

def zero : TaskDocument where
  id := ""
  type := ""
  queue := ""
  dependencies := []
  dependencyResults := .empty
  loadDependencies := false
  payload := none
  deadline := none
  maxTries := 0
  result := none
  state := ""
  createdAt := zeroTime
  lastTriedAt := none
  tries := 0
  lastErr := ""
  signature := ""

/-- The members of the document, given those that can fail. -/
def members (d : TaskDocument) (results : List (String × Json Literal))
    (deadline result : Option (Json Literal)) (created : Json Literal)
    (tried : Option (Json Literal)) : List (List (String × Json Literal)) :=
  [member "id" (some (.string d.id)),
    member "type" (some (.string d.type)),
    member "queue" (some (.string d.queue)),
    member "dependencies" (omitIf d.dependencies.isEmpty (.array (d.dependencies.map .string))),
    member "dependency_results" (omitIf results.isEmpty (.object results)),
    member "load_dependencies" (omitIf (!d.loadDependencies) (.bool d.loadDependencies)),
    member "payload" (some (ofBytes d.payload)),
    member "deadline" deadline,
    member "max_tries" (some (ofInt64 d.maxTries)),
    member "result" result,
    member "state" (some (.string d.state)),
    member "created" (some created),
    member "tried" tried,
    member "tries" (some (ofInt64 d.tries)),
    member "last_err" (omitIf d.lastErr.isEmpty (.string d.lastErr)),
    member "signature" (omitIf d.signature.isEmpty (.string d.signature))]

/-- `json.Marshal` of a `*Task`: the fields in their order, those marked `omitempty` only if
they are not empty. A time without a text and a payload that cannot be encoded fail it. -/
def marshal (d : TaskDocument) : Except Error Bytes := do
  let results ← d.dependencyResults.list.mapM fun e => do
    return (e.1, ← ResultDocument.marshalPointer e.2)
  let deadline ← d.deadline.mapM (marshalTime "*time.Time")
  let result ← d.result.mapM ResultDocument.marshal
  let created ← marshalTime "time.Time" d.createdAt
  let tried ← d.lastTriedAt.mapM (marshalTime "*time.Time")
  return document (.object (d.members results deadline result created tried).flatten)

def fields : List (FieldOf TaskDocument) :=
  [field "id" (.mk TaskDocument.id fun x d => { d with id := x }) string,
    field "type" (.mk type fun x d => { d with type := x }) string,
    field "queue" (.mk queue fun x d => { d with queue := x }) string,
    field "dependencies" (.mk dependencies fun x d => { d with dependencies := x })
      (slice "" string),
    field "dependency_results" (.mk dependencyResults fun x d => { d with dependencyResults := x })
      (map none ResultDocument.decoder),
    field "load_dependencies" (.mk loadDependencies fun x d => { d with loadDependencies := x })
      bool,
    field "payload" (.mk payload fun x d => { d with payload := x }) bytes,
    field "deadline" (.mk deadline fun x d => { d with deadline := x })
      (pointer zeroTime timestamp),
    field "max_tries" (.mk maxTries fun x d => { d with maxTries := x }) int64,
    field "result" (.mk result fun x d => { d with result := x }) ResultDocument.decoder,
    field "state" (.mk state fun x d => { d with state := x }) string,
    field "created" (.mk createdAt fun x d => { d with createdAt := x }) timestamp,
    field "tried" (.mk lastTriedAt fun x d => { d with lastTriedAt := x })
      (pointer zeroTime timestamp),
    field "tries" (.mk tries fun x d => { d with tries := x }) int64,
    field "last_err" (.mk lastErr fun x d => { d with lastErr := x }) string,
    field "signature" (.mk signature fun x d => { d with signature := x }) string]

/-- `json.Unmarshal` into a new `Task`; the texts of its errors are left out. -/
def unmarshal (bytes : Bytes) : Option TaskDocument :=
  (Json.scan bytes).bind fun v => object fields v .zero

end TaskDocument

end AsyncJobs
