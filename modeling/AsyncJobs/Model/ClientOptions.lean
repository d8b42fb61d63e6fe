import AsyncJobs.Model.Client
import AsyncJobs.Model.RetryPolicy
import AsyncJobs.Model.Setup

/-!
# Client options

The options of `NewClient` in the order in which they are given, the check of the whole and
the preparation of the storage. The logger and the port of the statistics are read by no
function modelled here.
-/

namespace AsyncJobs

open Interaction

/-- A connection: the option `NatsConn` asks for and the errors of the two libraries that
are opened on it. -/
structure Connection where
  useOldRequestStyle : Bool
  jsm : Option Error := none
  jetstream : Option Error := none
  deriving DecidableEq, Repr

def newDefaultQueue : QueueConfig where
  name := "DEFAULT"
  maxRunTime := minute
  maxTries := 100
  maxConcurrent := defaultQueueMaxConcurrent

/-- `ClientOpts` of the source while the options are applied. -/
structure ClientSettings where
  concurrency : Int := 10
  replicas : Int := 1
  queue : Option QueueConfig := none
  taskRetention : Int := 0
  retryPolicy : Int → Int
  memoryStore : Bool := false
  skipPrepare : Bool := false
  noStorageCreate : Bool := false
  discard : List TaskState := []
  privateKey : Option Bytes := none
  seedFile : String := ""
  publicKey : Option Bytes := none
  publicKeyFile : String := ""
  optionalTaskSignatures : Bool := false
  nc : Option Connection := none

/-- `natsContext` holds what connecting with the context returned. -/
inductive ClientOpt where
  | discardTaskStates (states : List TaskState)
  | discardTaskStatesByName (states : List String)
  | noStorageInit
  | noStorageCreate
  | customLogger
  | natsConn (nc : Option Connection)
  | prometheusListenPort (port : Int)
  | natsContext (connected : Except Error Connection)
  | memoryStorage
  | retryBackoffPolicy (p : Int → Int)
  | retryBackoffPolicyName (name : String)
  | clientConcurrency (c : Int)
  | storeReplicas (r : Nat)
  | workQueue (queue : Option QueueConfig)
  | bindWorkQueue (queue : String)
  | taskRetention (r : Int)
  | taskSigningKey (pk : Option Bytes)
  | taskSigningSeedFile (sf : String)
  | taskVerificationKeyHexEncoded (pks : String)
  | taskVerificationKey (pk : Option Bytes)
  | taskVerificationKeyFile (sf : String)
  | taskSignaturesOptional

def taskStates : List TaskState :=
  [.unknown, .new, .active, .retry, .expired, .terminated, .completed, .queueError, .blocked,
    .unreachable]

/-- The names of the states and one more that means `completed`. -/
def nameToTaskState (name : String) : Option TaskState :=
  if name = "completed" then some .completed else taskStates.find? fun s => s.text = name

/-- A policy of the package as a provider; none of them panics at a try. -/
def RetryPolicy.provider (rand : Int63n) (p : RetryPolicy) (n : Int) : Int :=
  (p.duration rand n).toOption.getD 0

namespace ClientSettings

def discardTaskStates (s : ClientSettings) (states : List TaskState) :
    Except Fault ClientSettings :=
  if states.any fun t => t ≠ .completed ∧ t ≠ .expired ∧ t ≠ .terminated then
    .error (.error (.plain "only states completed, expired or terminated can be discarded"))
  else .ok { s with discard := s.discard ++ states }

def discardTaskStatesByName (s : ClientSettings) : List String → Except Fault ClientSettings
  | [] => .ok s
  | name :: names =>
    match nameToTaskState name with
    | none => .error (.error (Sentinel.unknownDiscardPolicy.error.wrap (": " ++ name)))
    | some state => do discardTaskStatesByName (← s.discardTaskStates [state]) names

end ClientSettings

def ClientOpt.apply (rand : Int63n) (s : ClientSettings) : ClientOpt → Except Fault ClientSettings
  | discardTaskStates states => s.discardTaskStates states
  | discardTaskStatesByName states => s.discardTaskStatesByName states
  | noStorageInit => .ok { s with skipPrepare := true }
  | noStorageCreate => .ok { s with noStorageCreate := true }
  | customLogger | prometheusListenPort _ => .ok s
  | natsConn none => .error (.panic nilDereference)
  | natsConn (some nc) =>
    if !nc.useOldRequestStyle then
      .error (.error (.plain "connection with UseOldRequestStyle() is required"))
    else .ok { s with nc := some nc }
  | natsContext (.error err) => .error (.error err)
  | natsContext (.ok nc) => .ok { s with nc := some nc }
  | memoryStorage => .ok { s with memoryStore := true }
  | retryBackoffPolicy p => .ok { s with retryPolicy := p }
  | retryBackoffPolicyName name => do
    let p ← retryPolicyLookup name
    .ok { s with retryPolicy := p.provider rand }
  | clientConcurrency c => .ok { s with concurrency := c }
  | storeReplicas r =>
    if r < 1 ∨ 5 < r then .error (.error (.plain "replicas must be between 1 and 5"))
    else .ok { s with replicas := r }
  | workQueue queue =>
    if s.queue.isSome then .error (.error (.plain "a queue has already been defined"))
    else .ok { s with queue := queue }
  | bindWorkQueue queue =>
    if queue = "" then .error (.error (.plain "a queue name is required"))
    else if s.queue.isSome then .error (.error (.plain "a queue has already been defined"))
    else .ok { s with queue := some { name := queue, noCreate := true } }
  | taskRetention r => .ok { s with taskRetention := r }
  | taskSigningKey pk => .ok { s with privateKey := pk }
  | taskSigningSeedFile sf => .ok { s with seedFile := sf }
  | taskVerificationKeyHexEncoded pks =>
    if pks = "" then .ok s
    else
      match hexDecode pks.toList with
      | .error err => .error (.error err)
      | .ok pk => .ok { s with publicKey := some pk }
  | taskVerificationKey pk => .ok { s with publicKey := pk }
  | taskVerificationKeyFile sf => .ok { s with publicKeyFile := sf }
  | taskSignaturesOptional => .ok { s with optionalTaskSignatures := true }

namespace ClientSettings

def initial (rand : Int63n) : Except Fault ClientSettings := do
  let p ← retryDefault
  .ok { retryPolicy := p.provider rand }

/-- The settings after the options, or the first failure. -/
def configure (rand : Int63n) (opts : List ClientOpt) : Except Fault ClientSettings := do
  opts.foldlM (fun s opt => opt.apply rand s) (← initial rand)

/-- The settings as the modelled client reads them, on the queue it was given. -/
def clientOpts (s : ClientSettings) (queue : QueueConfig) : ClientOpts where
  queue := queue.toQueue
  concurrency := s.concurrency.toNat
  retryPolicy := s.retryPolicy
  discard := s.discard
  privateKey := s.privateKey
  seedFile := s.seedFile
  publicKey := s.publicKey
  publicKeyFile := s.publicKeyFile
  optionalTaskSignatures := s.optionalTaskSignatures

/-- `newJetStreamStorage`. -/
def storageError (s : ClientSettings) : Option Error :=
  match s.nc with
  | none => some Sentinel.noNatsConn.error
  | some nc => nc.jsm <|> nc.jetstream

/-- `setupStreams` and `setupQueues`. -/
def setup (s : ClientSettings) (queue : QueueConfig) :
    Setup (Except Error (Bindings × QueueConfig)) := do
  let tasks ← Bindings.prepareTasks {} s.noStorageCreate s.memoryStore s.replicas s.taskRetention
  match tasks.1 with
  | some err => return .error err
  | none =>
    let store ← tasks.2.prepareConfigurationStore s.noStorageCreate s.memoryStore s.replicas
    match store.1 with
    | some err => return .error err
    | none =>
      let queues ← store.2.prepareQueue queue s.replicas s.memoryStore
      match queues.1 with
      | some err => return .error err
      | none => return .ok queues.2

end ClientSettings

def newClient (host : Host) (rand : Int63n) (opts : List ClientOpt) :
    Setup (Except Error (Client × Bindings)) :=
  match ClientSettings.configure rand opts with
  | .error (.error err) => return .error err
  | .error (.panic message) =>
    setupRequest (.panic message) >>= fun impossible => nomatch (impossible : Empty)
  | .ok copts =>
    let queue := copts.queue.getD newDefaultQueue
    match (copts.clientOpts queue).validate with
    | some err => return .error err
    | none =>
      match copts.storageError with
      | some err => return .error err
      | none =>
        if copts.skipPrepare then return .ok (⟨copts.clientOpts queue, host⟩, {})
        else do
          match ← copts.setup queue with
          | .error err => return .error err
          | .ok (b, queue) => return .ok (⟨copts.clientOpts queue, host⟩, b)

end AsyncJobs
