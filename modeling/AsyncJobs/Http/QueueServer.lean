import AsyncJobs.Interaction.Pool
import AsyncJobs.Interaction.Run
import AsyncJobs.Model.Api

/-!
# Servers that create queues at the same time

Any number of `CreateQueue` requests take turns call by call on the streams and consumers of
one JetStream server; none is ever deleted. Loading or creating an object is one step and
succeeds when the object exists; otherwise it may fail, with or without having created it.
The mutex of the storage is held only inside of `PrepareQueue` and is left out, so the runs
of several servers are among those considered. The log, newest first, records the lookups of
streams, the consumers that were loaded or created and the responses; no request reads it.
-/

namespace AsyncJobs

open Interaction

def StreamOptions.handle (o : StreamOptions) : StreamHandle where
  discardOld := o.discardOld.getD false
  maxAge := o.maxAge
  maxMsgs := o.maxMsgs.getD (-1)

def ConsumerOptions.handle (o : ConsumerOptions) : ConsumerHandle where
  ackWait := o.ackWait
  maxAckPending := o.maxAckPending
  maxDeliver := o.maxDeliver

/-- `created` says that the consumer was not there before. -/
inductive QueueEvent where
  | looked (request : Nat) (stream : String)
  | bound (request : Nat) (stream : String) (created : Bool)
  | responded (request : Nat) (response : ApiResponse)
  deriving DecidableEq, Repr

def QueueEvent.request : QueueEvent → Nat
  | looked r _ | bound r _ _ | responded r _ => r

/-- `lost` is an error that is reported although the call has had its effect. -/
inductive QueueOutcome where
  | ok
  | time (now : Int)
  | failed (e : ApiError)
  | lost (e : ApiError)
  deriving DecidableEq, Repr

/-- A stream with the consumer of its workers, if that exists. -/
structure ServerStream where
  handle : StreamHandle
  workers : Option ConsumerHandle := none
  deriving DecidableEq, Repr

structure QueueWorld where
  streams : String → Option ServerStream := fun _ => none
  log : List QueueEvent := []

namespace QueueWorld

variable (w : QueueWorld) (r : Nat)

def note (e : QueueEvent) : QueueWorld := { w with log := e :: w.log }

def put (name : String) (s : ServerStream) : QueueWorld :=
  { w with streams := Function.update w.streams name (some s) }

/-- The queue with this stream exists: the stream has the consumer of its workers. -/
def hasQueue (stream : String) : Bool := (w.streams stream).any fun s => s.workers.isSome

def findStream (name : String) : Except ApiError StreamHandle :=
  match w.streams name with
  | some s => .ok s.handle
  | none => .error ⟨.plain "stream not found", some 10059⟩

def findConsumer (stream : String) : Except ApiError ConsumerHandle :=
  match (w.streams stream).bind ServerStream.workers with
  | some c => .ok c
  | none => .error ⟨.plain "consumer not found", some 10014⟩

/-- A load-or-create call on an object that is not there, which the call makes. -/
def make {β : Type} (made : β) (w' : QueueWorld) : QueueOutcome →
    Option (Except ApiError β × QueueWorld)
  | .ok => some (.ok made, w')
  | .lost e => some (.error e, w')
  | .failed e => some (.error e, w)
  | .time _ => none

def found {β : Type} (b : β) (w' : QueueWorld) : QueueOutcome →
    Option (Except ApiError β × QueueWorld)
  | .ok => some (.ok b, w')
  | _ => none

def ask {β : Type} (answer : Except ApiError β) : QueueOutcome → Option (Except ApiError β)
  | .ok => some answer
  | .failed e => some (.error e)
  | _ => none

def loadOrNewStream (name : String) (opts : StreamOptions) (o : QueueOutcome) :
    Option (Except ApiError StreamHandle × QueueWorld) :=
  match w.streams name with
  | some s => found s.handle w o
  | none => w.make opts.handle (w.put name ⟨opts.handle, none⟩) o

def loadOrNewConsumer (stream : String) (opts : ConsumerOptions) (o : QueueOutcome) :
    Option (Except ApiError ConsumerHandle × QueueWorld) :=
  match w.streams stream with
  | none => none
  | some ⟨_, some c⟩ => found c (w.note (.bound r stream false)) o
  | some ⟨handle, none⟩ =>
    w.make opts.handle
      ((w.put stream ⟨handle, some opts.handle⟩).note (.bound r stream true)) o

def exec : (c : ApiCall) → QueueOutcome → Option (c.Reply × QueueWorld)
  | .now, .time t => some (t, w)
  | .setup (.loadStream name), o =>
    (ask (w.findStream name) o).map fun reply => (reply, w.note (.looked r name))
  | .setup (.loadConsumer stream _), o =>
    (ask (w.findConsumer stream) o).map fun reply => (reply, w)
  | .latestInformation name, o =>
    (ask (w.findStream name) o).map fun reply => (reply.mapError ApiError.err, w)
  | .latestState stream _, o =>
    (ask (w.findConsumer stream) o).map fun reply => (reply.mapError ApiError.err, w)
  | .setup (.loadOrNewStream name opts), o => w.loadOrNewStream name opts o
  | .setup (.loadOrNewConsumer stream opts), o => w.loadOrNewConsumer r stream opts o
  | .respond response, .ok => some ((), w.note (.responded r response))
  | _, _ => none

end QueueWorld

structure QueueServer where
  world : QueueWorld
  threads : List (Thread api Nat)

inductive QueueAction where
  | run (i : Nat) (o : QueueOutcome)
  | request (body : Except Error QueueCreateRequest)

namespace QueueServer

def init (streams : String → Option ServerStream) : QueueServer := ⟨{ streams }, []⟩

variable (cfg : QueueServer)

variable (parseDuration : String → Except Error Int) (allowCreateDefaultQueue : Bool)

def step : QueueAction → Option QueueServer
  | .run i o =>
    (stepThread QueueWorld.exec cfg.world cfg.threads i o).map fun s => ⟨s.1, s.2⟩
  | .request body =>
    some { cfg with
      threads := cfg.threads ++
        [⟨cfg.threads.length, createQueue parseDuration allowCreateDefaultQueue body⟩] }

/-- The configuration a schedule leads to, if each of its actions is possible and meets the
condition in the configuration it is taken in. -/
def runWhile (meets : QueueServer → QueueAction → Bool) (cfg : QueueServer)
    (actions : List QueueAction) : Option QueueServer :=
  Interaction.runWhile (fun cfg a => cfg.step parseDuration allowCreateDefaultQueue a) meets cfg
    actions

/-- The call request `i` makes next. -/
def nextCall (i : Nat) : Option (Nat × ApiCall) := Interaction.nextCall cfg.threads i

end QueueServer

end AsyncJobs
