import AsyncJobs.Model.Documents

/-!
# Lifecycle events

The events that are published when the state of a task changes and when a leader is elected,
as JSON documents, and `ParseEventJSON`, with which listeners read them. An event has an id, a
type and a time in front of its own fields.
-/

namespace AsyncJobs

open Record Rfc3339 Numeral

structure BaseEvent where
  eventID : String
  eventType : String
  timeStamp : Timestamp

structure TaskStateChangeEvent extends BaseEvent where
  taskID : String
  state : String
  tries : Int64
  queue : String
  taskType : String
  lastErr : String
  age : Int64

structure LeaderElectedEvent extends BaseEvent where
  name : String
  component : String

def taskStateChangeEventType : String := "io.choria.asyncjobs.v1.task_state"

def leaderElectedEventType : String := "io.choria.asyncjobs.v1.leader_elected"

namespace BaseEvent

def zero : BaseEvent := ⟨"", "", zeroTime⟩

def members (e : BaseEvent) (timestamp : Json Literal) : List (List (String × Json Literal)) :=
  [member "event_id" (some (.string e.eventID)), member "type" (some (.string e.eventType)),
    member "timestamp" (some timestamp)]

def fields : List (FieldOf BaseEvent) :=
  [field "event_id" (.mk eventID fun x e => { e with eventID := x }) string,
    field "type" (.mk eventType fun x e => { e with eventType := x }) string,
    field "timestamp" (.mk timeStamp fun x e => { e with timeStamp := x }) timestamp]

end BaseEvent

namespace TaskStateChangeEvent

def zero : TaskStateChangeEvent :=
  { BaseEvent.zero with
    taskID := "", state := "", tries := 0, queue := "", taskType := "", lastErr := "", age := 0 }

def members (e : TaskStateChangeEvent) (timestamp : Json Literal) :
    List (List (String × Json Literal)) :=
  e.toBaseEvent.members timestamp ++
    [member "task_id" (some (.string e.taskID)),
      member "state" (some (.string e.state)),
      member "tries" (some (ofInt64 e.tries)),
      member "queue" (omitIf e.queue.isEmpty (.string e.queue)),
      member "task_type" (some (.string e.taskType)),
      member "last_error" (omitIf e.lastErr.isEmpty (.string e.lastErr)),
      member "task_age" (omitIf (e.age = 0) (ofInt64 e.age))]

/-- `json.Marshal` of the event. -/
def marshal (e : TaskStateChangeEvent) : Except Error Bytes := do
  let timestamp ← marshalTime "time.Time" e.timeStamp
  return document (.object (e.members timestamp).flatten)

def baseFields : List (FieldOf TaskStateChangeEvent) :=
  [field "event_id" (.mk (·.eventID) fun x e => { e with eventID := x }) string,
    field "type" (.mk (·.eventType) fun x e => { e with eventType := x }) string,
    field "timestamp" (.mk (·.timeStamp) fun x e => { e with timeStamp := x }) timestamp]

def ownFields : List (FieldOf TaskStateChangeEvent) :=
  [field "task_id" (.mk taskID fun x e => { e with taskID := x }) string,
    field "state" (.mk state fun x e => { e with state := x }) string,
    field "tries" (.mk tries fun x e => { e with tries := x }) int64,
    field "queue" (.mk queue fun x e => { e with queue := x }) string,
    field "task_type" (.mk taskType fun x e => { e with taskType := x }) string,
    field "last_error" (.mk lastErr fun x e => { e with lastErr := x }) string,
    field "task_age" (.mk age fun x e => { e with age := x }) int64]

def fields : List (FieldOf TaskStateChangeEvent) := baseFields ++ ownFields

end TaskStateChangeEvent

namespace LeaderElectedEvent

def zero : LeaderElectedEvent := { BaseEvent.zero with name := "", component := "" }

def members (e : LeaderElectedEvent) (timestamp : Json Literal) :
    List (List (String × Json Literal)) :=
  e.toBaseEvent.members timestamp ++
    [member "name" (some (.string e.name)), member "component" (some (.string e.component))]

/-- `json.Marshal` of the event. -/
def marshal (e : LeaderElectedEvent) : Except Error Bytes := do
  let timestamp ← marshalTime "time.Time" e.timeStamp
  return document (.object (e.members timestamp).flatten)

def baseFields : List (FieldOf LeaderElectedEvent) :=
  [field "event_id" (.mk (·.eventID) fun x e => { e with eventID := x }) string,
    field "type" (.mk (·.eventType) fun x e => { e with eventType := x }) string,
    field "timestamp" (.mk (·.timeStamp) fun x e => { e with timeStamp := x }) timestamp]

def ownFields : List (FieldOf LeaderElectedEvent) :=
  [field "name" (.mk name fun x e => { e with name := x }) string,
    field "component" (.mk component fun x e => { e with component := x }) string]

def fields : List (FieldOf LeaderElectedEvent) := baseFields ++ ownFields

end LeaderElectedEvent

section Making

/-- A `ksuid.KSUID`: its text, and the seconds since the start of its own epoch. -/
structure Ksuid where
  text : String
  timestamp : UInt32

/-- `eid.Time().UTC()`. -/
def Ksuid.time (id : Ksuid) : Timestamp := ⟨(1400000000 + id.timestamp.toNat) * 1000000000, 0⟩

/-- `Time.Round(time.Millisecond)`, with halves rounded up. -/
def roundMillisecond (t : Timestamp) : Timestamp :=
  let r := (t.instant - zeroTime.instant) % 1000000
  if r + r < 1000000 then { t with instant := t.instant - r }
  else { t with instant := t.instant + (1000000 - r) }

/-- `Time.Sub`, which stays within the durations. -/
def timeSub (t u : Timestamp) : Int64 :=
  if t.instant - u.instant < Int64.minValue.toInt then Int64.minValue
  else if Int64.maxValue.toInt < t.instant - u.instant then Int64.maxValue
  else Int64.ofInt (t.instant - u.instant)

/-- `NewTaskStateChangeEvent` with the id it draws and the clock reading it makes. -/
def newTaskStateChangeEvent (eid : Ksuid) (now : Timestamp) (t : TaskDocument) :
    TaskStateChangeEvent where
  eventID := eid.text
  eventType := taskStateChangeEventType
  timeStamp := eid.time
  taskID := t.id
  state := t.state
  tries := t.tries
  queue := t.queue
  taskType := t.type
  lastErr := t.lastErr
  age := if t.createdAt.instant = zeroTime.instant then 0
    else timeSub now (roundMillisecond t.createdAt)

/-- `NewLeaderElectedEvent` with the id it draws. -/
def newLeaderElectedEvent (eid : Ksuid) (name component : String) : LeaderElectedEvent where
  eventID := eid.text
  eventType := leaderElectedEventType
  timeStamp := eid.time
  name := name
  component := component

end Making

section Parsing

inductive LifecycleEvent where
  | taskStateChange (e : TaskStateChangeEvent)
  | leaderElected (e : LeaderElectedEvent)

/-- The errors of `encoding/json` are one here; the other is `ErrUnknownEventType`, with the
type that is also returned beside it. -/
inductive EventError where
  | json
  | unknownEventType (eventType : String)

def unmarshalEvent {α : Type} (fields : List (FieldOf α)) (zero : α) (event : Bytes) :
    Except EventError α :=
  match (Json.scan event).bind fun v => object fields v zero with
  | none => .error .json
  | some e => .ok e

/-- `ParseEventJSON`: the event and its type. -/
def parseEventJSON (event : Bytes) : Except EventError (LifecycleEvent × String) := do
  let base ← unmarshalEvent BaseEvent.fields .zero event
  if base.eventType = taskStateChangeEventType then
    let e ← unmarshalEvent TaskStateChangeEvent.fields .zero event
    return (.taskStateChange e, base.eventType)
  else if base.eventType = leaderElectedEventType then
    let e ← unmarshalEvent LeaderElectedEvent.fields .zero event
    return (.leaderElected e, base.eventType)
  else
    .error (.unknownEventType base.eventType)

end Parsing

namespace LifecycleEvent

def base : LifecycleEvent → BaseEvent
  | taskStateChange e => e.toBaseEvent
  | leaderElected e => e.toBaseEvent

def marshal : LifecycleEvent → Except Error Bytes
  | taskStateChange e => e.marshal
  | leaderElected e => e.marshal

end LifecycleEvent

end AsyncJobs
