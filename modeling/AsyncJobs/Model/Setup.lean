import AsyncJobs.Model.Storage
import Mathlib.Data.List.AList

/-!
# Preparing the storage

`PrepareQueue`, `PrepareTasks` and `PrepareConfigurationStore` load or create the streams,
consumers and buckets and bind the storage to them. The bindings are returned beside the
error, as each function leaves them. A nil pointer is `none`; an entry of a map may hold one.
-/

namespace AsyncJobs

open Interaction

/-- What `updateQueueSettings` reads of a stream. -/
structure StreamHandle where
  discardOld : Bool
  maxAge : Int
  maxMsgs : Int
  deriving DecidableEq, Repr

/-- What `updateQueueSettings` reads of a consumer. -/
structure ConsumerHandle where
  ackWait : Int
  maxAckPending : Int
  maxDeliver : Int
  deriving DecidableEq, Repr

structure BucketHandle where
  bucket : String
  deriving DecidableEq, Repr

/-- The options of a stream; `maxMsgs` and `discardOld` are only set for a queue. -/
structure StreamOptions where
  subjects : String
  workQueue : Bool := false
  maxMsgsPerSubject : Nat := 1
  replicas : Int
  memory : Bool
  maxAge : Int
  maxMsgs : Option Int := none
  discardOld : Option Bool := none
  description : String
  deriving DecidableEq, Repr

structure ConsumerOptions where
  durable : String
  ackWait : Int
  maxAckPending : Int
  maxDeliver : Int
  deriving DecidableEq, Repr

structure BucketConfig where
  bucket : String
  description : String
  memory : Bool
  replicas : Int
  ttl : Option Int := none
  deriving DecidableEq, Repr

/-- An error of the JetStream API with its code, if the server sent one. -/
structure ApiError where
  err : Error
  code : Option Nat := none
  deriving DecidableEq, Repr

inductive BucketError where
  | notFound
  | failed (err : Error)
  deriving DecidableEq, Repr

def BucketError.error : BucketError → Error
  | .notFound => .plain "nats: bucket not found"
  | .failed err => err

/-- The requests of the preparations. A consumer is named by the stream it belongs to. -/
inductive SetupCall where
  | loadOrNewStream (name : String) (opts : StreamOptions)
  | loadStream (name : String)
  | loadOrNewConsumer (stream : String) (opts : ConsumerOptions)
  | loadConsumer (stream : String) (durable : String)
  | keyValue (bucket : String)
  | createKeyValue (config : BucketConfig)
  | panic (message : String)

def SetupCall.Reply : SetupCall → Type
  | loadOrNewStream _ _ | loadStream _ => Except ApiError StreamHandle
  | loadOrNewConsumer _ _ | loadConsumer _ _ => Except ApiError ConsumerHandle
  | keyValue _ | createKeyValue _ => Except BucketError BucketHandle
  | panic _ => Empty

def setup : Signature := ⟨SetupCall, SetupCall.Reply⟩

abbrev Setup (α : Type) := Prog setup α

def setupRequest (c : SetupCall) : Setup c.Reply := Prog.invoke (S := setup) c

structure QueueConfig extends Queue where
  maxAge : Int := 0
  maxEntries : Int := 0
  discardOld : Bool := false
  maxConcurrent : Int := 0
  noCreate : Bool := false
  deriving DecidableEq, Repr

/-- The part of the storage that the preparations assign. `tasks` is the `taskStorage` with
its stream. -/
structure Bindings where
  qStreams : AList fun _ : String => Option StreamHandle := ∅
  qConsumers : AList fun _ : String => Option ConsumerHandle := ∅
  tasks : Option (Option StreamHandle) := none
  configBucket : Option BucketHandle := none
  leaderElections : Option BucketHandle := none

def defaultJobRunTime : Int := 3600 * 10 ^ 9

def defaultQueueMaxConcurrent : Int := 100

def workStreamName (queue : String) : String := "CHORIA_AJ_Q_" ++ queue

def tasksStreamName : String := "CHORIA_AJ_TASKS"

def configBucketName : String := "CHORIA_AJ_CONFIGURATION"

def leaderElectionBucketName : String := "CHORIA_AJ_ELECTIONS"

/-- The defaults that `createQueue` fills in. -/
def QueueConfig.withDefaults (q : QueueConfig) : QueueConfig :=
  { q with
    maxTries := if q.maxTries = 0 then -1 else q.maxTries
    maxRunTime := if q.maxRunTime = 0 then defaultJobRunTime else q.maxRunTime
    maxConcurrent := if q.maxConcurrent = 0 then defaultQueueMaxConcurrent else q.maxConcurrent }

def QueueConfig.streamOptions (q : QueueConfig) (replicas : Int) (memory : Bool) :
    StreamOptions where
  subjects := "CHORIA_AJ.Q." ++ q.name ++ ".>"
  workQueue := true
  replicas := replicas
  memory := memory
  maxAge := if 0 < q.maxAge then q.maxAge else 0
  maxMsgs := if 0 < q.maxEntries then some q.maxEntries else none
  discardOld := some q.discardOld
  description := "Choria Async Jobs Work Queue"

def QueueConfig.consumerOptions (q : QueueConfig) : ConsumerOptions where
  durable := "WORKERS"
  ackWait := q.maxRunTime
  maxAckPending := q.maxConcurrent
  maxDeliver := q.maxTries

def taskStreamOptions (memory : Bool) (replicas retention : Int) : StreamOptions where
  subjects := "CHORIA_AJ.T.*"
  replicas := if replicas = 0 then 1 else replicas
  memory := memory
  maxAge := retention
  description := "Choria Async Jobs Tasks"

def setupPanic {α : Type} : Setup α :=
  setupRequest (.panic nilDereference) >>= fun impossible => nomatch (impossible : Empty)

namespace Bindings

variable (b : Bindings)

/-- The queue with the settings of the stream and the consumer it is bound to. -/
def updateQueueSettings (q : QueueConfig) : Setup (Option Error × QueueConfig) :=
  match b.qStreams.lookup q.name, b.qConsumers.lookup q.name with
  | some (some ss), some (some sc) =>
    return (none, { q with
      maxRunTime := sc.ackWait
      maxConcurrent := sc.maxAckPending
      maxTries := sc.maxDeliver
      discardOld := ss.discardOld
      maxAge := ss.maxAge
      maxEntries := ss.maxMsgs })
  | some _, some _ => setupPanic
  | _, _ => return (some Sentinel.queueNotFound.error, q)

/-- What `createQueue` and `joinQueue` have in common: each binding is assigned what its
request returned, which is nil with an error. -/
def bindQueue (q : QueueConfig) (stream : Setup (Except ApiError StreamHandle))
    (consumer : Setup (Except ApiError ConsumerHandle))
    (streamError consumerError : ApiError → Error) :
    Setup (Option Error × Bindings × QueueConfig) := do
  match ← stream with
  | .error e =>
    return (some (streamError e), { b with qStreams := b.qStreams.insert q.name none }, q)
  | .ok ss =>
    let b := { b with qStreams := b.qStreams.insert q.name (some ss) }
    match ← consumer with
    | .error e =>
      return (some (consumerError e), { b with qConsumers := b.qConsumers.insert q.name none }, q)
    | .ok sc =>
      let b := { b with qConsumers := b.qConsumers.insert q.name (some sc) }
      let (err, q) ← b.updateQueueSettings q
      return (err, b, q)

def createQueue (q : QueueConfig) (replicas : Int) (memory : Bool) :
    Setup (Option Error × Bindings × QueueConfig) :=
  let q := q.withDefaults
  b.bindQueue q
    (setupRequest (.loadOrNewStream (workStreamName q.name) (q.streamOptions replicas memory)))
    (setupRequest (.loadOrNewConsumer (workStreamName q.name) q.consumerOptions))
    ApiError.err ApiError.err

def joinQueue (q : QueueConfig) : Setup (Option Error × Bindings × QueueConfig) :=
  b.bindQueue q (setupRequest (.loadStream (workStreamName q.name)))
    (setupRequest (.loadConsumer (workStreamName q.name) "WORKERS"))
    (fun e => if e.code = some 10059 then Sentinel.queueNotFound.error else e.err)
    (fun e => if e.code = some 10014 then Sentinel.queueConsumerNotFound.error else e.err)

def prepareQueue (q : QueueConfig) (replicas : Int) (memory : Bool) :
    Setup (Option Error × Bindings × QueueConfig) :=
  if q.name = "" then return (some Sentinel.queueNameRequired.error, b, q)
  else if q.noCreate then b.joinQueue q
  else b.createQueue q replicas memory

def notInitialized (kind name : String) : Error :=
  Sentinel.storageNotReady.error.wrap (": " ++ kind ++ " " ++ name ++
    " does not exist, create it with 'ajc tasks initialize'")

/-- The task stream is assigned what the request returned. -/
def bindTasks (streamError : ApiError → Error) :
    Except ApiError StreamHandle → Option Error × Bindings
  | .error e => (some (streamError e), { b with tasks := some none })
  | .ok stream => (none, { b with tasks := some (some stream) })

def prepareTasks (noCreate memory : Bool) (replicas retention : Int) :
    Setup (Option Error × Bindings) :=
  if noCreate then do
    let stream ← setupRequest (.loadStream tasksStreamName)
    return b.bindTasks (fun e =>
      if e.code = some 10059 then notInitialized "stream" tasksStreamName else e.err) stream
  else do
    let stream ← setupRequest (.loadOrNewStream tasksStreamName
      (taskStreamOptions memory replicas retention))
    return b.bindTasks ApiError.err stream

/-- A bucket that is looked up and, unless that is ruled out, created when it is missing. -/
def loadOrCreateBucket (noCreate : Bool) (config : BucketConfig) :
    Setup (Except Error BucketHandle) := do
  match ← setupRequest (.keyValue config.bucket) with
  | .ok kv => return .ok kv
  | .error (.failed err) => return .error err
  | .error .notFound =>
    if noCreate then return .error (notInitialized "bucket" config.bucket)
    else
      match ← setupRequest (.createKeyValue config) with
      | .ok kv => return .ok kv
      | .error e => return .error e.error

def prepareConfigurationStore (noCreate memory : Bool) (replicas : Int) :
    Setup (Option Error × Bindings) := do
  let replicas := if replicas = 0 then 1 else replicas
  match ← loadOrCreateBucket noCreate {
      bucket := configBucketName, description := "Choria Async Jobs Configuration"
      memory, replicas } with
  | .error err => return (some err, b)
  | .ok kv =>
    let b := { b with configBucket := some kv }
    match ← loadOrCreateBucket noCreate {
        bucket := leaderElectionBucketName, description := "Choria Async Jobs Leader Elections"
        memory, replicas, ttl := some (10 * 10 ^ 9) } with
    | .error err => return (some err, b)
    | .ok ekv => return (none, { b with leaderElections := some ekv })

end Bindings

/-- A message that answers a poll: its `Status` header and, unless it is empty, the item in
it. -/
structure PolledMessage where
  status : String := ""
  data : Option (Except Error ProcessItem)

/-- `PollQueue`. `hasDeadline` says that its context has one; `reply` answers the request. -/
def Bindings.pollQueue (b : Bindings) (queue : String) (hasDeadline : Bool)
    (reply : Except Error PolledMessage) : Except Fault (Option ProcessItem) :=
  match b.qConsumers.lookup queue with
  | none => .error (.error Sentinel.invalidQueueState.error)
  | some qc =>
    if !hasDeadline then .error (.error Sentinel.contextWithoutDeadline.error)
    else
      match qc with
      | none => .error (.panic nilDereference)
      | some _ =>
        match reply with
        | .error err => .error (.error err)
        | .ok msg =>
          if msg.status = "404" ∨ msg.status = "409" ∨ msg.status = "408" then .ok none
          else
            match msg.data with
            | none => .error (.error Sentinel.queueItemInvalid.error)
            | some (.error _) => .error (.error Sentinel.queueItemCorrupt.error)
            | some (.ok item) =>
              if item.jobID = "" then .error (.error Sentinel.queueItemCorrupt.error)
              else .ok (some item)

end AsyncJobs
