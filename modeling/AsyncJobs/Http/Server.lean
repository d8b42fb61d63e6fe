import AsyncJobs.Interaction.Pool
import AsyncJobs.Interaction.Run
import AsyncJobs.Model.Http

/-!
# A server that handles requests at the same time

Any number of `CreateTask` requests, with or without a key, take turns call by call on one
server. Loading a task may fail; `EnqueueTask` succeeds, fails, or fails after it has
enqueued the task. The log, newest first, records the lookups that found nothing, the tasks
that were enqueued, the keys that were stored and the responses; no request reads it.
-/

namespace AsyncJobs

open Interaction

/-- The `CreateTask` request a thread serves. -/
structure Request where
  number : Nat
  key : Option String
  deriving DecidableEq, Repr

inductive HttpEvent where
  | missed (request : Request) (key : String)
  | enqueued (request : Request) (taskID : String)
  | stored (request : Request) (key taskID : String)
  | responded (request : Request) (response : Response)
  deriving DecidableEq, Repr

def HttpEvent.request : HttpEvent → Request
  | missed r _ | enqueued r _ | stored r _ _ | responded r _ => r

/-- `lost` is an error that is reported although the call has had its effect. -/
inductive HttpOutcome where
  | ok
  | loaded (task : Task)
  | named (id : String)
  | enqueued (task : Task)
  | lost (e : Error)
  | failed (e : Error)

structure HttpWorld where
  clock : Int
  idempotency : IdempotencyStore := {}
  log : List HttpEvent := []

namespace HttpWorld

variable (w : HttpWorld) (r : Request)

def note (e : HttpEvent) : HttpWorld := { w with log := e :: w.log }

def execLookup (key : String) : Option String × HttpWorld :=
  match w.idempotency.lookup w.clock key with
  | (none, store) =>
    (none, { w with idempotency := store, log := .missed r key :: w.log })
  | (some id, store) => (some id, { w with idempotency := store })

/-- One call of a request. Loading and enqueueing keep the identifier of the task. -/
def exec : (c : HttpCall) → HttpOutcome → Option (c.Reply × HttpWorld)
  | .lookup key, .ok => some (w.execLookup r key)
  | .loadTaskByID id, .loaded t => if t.id = id then some (.ok t, w) else none
  | .loadTaskByID _, .failed e => some (.error e, w)
  | .newID, .named id => some (id, w)
  | .now, .ok => some (w.clock, w)
  | .enqueueTask task, .enqueued t =>
    if t.id = task.id then some (.ok t, w.note (.enqueued r task.id)) else none
  | .enqueueTask task, .lost e => some (.error e, w.note (.enqueued r task.id))
  | .enqueueTask _, .failed e => some (.error e, w)
  | .store key taskID, .ok =>
    some ((), { w with
      idempotency := w.idempotency.store w.clock key taskID
      log := .stored r key taskID :: w.log })
  | .respond response, .ok => some ((), w.note (.responded r response))
  | _, _ => none

inductive Effect (w : HttpWorld) (r : Request) :
    (c : HttpCall) → HttpOutcome → c.Reply → HttpWorld → Prop
  | lookup (key : String) :
      Effect w r (.lookup key) .ok (w.execLookup r key).1 (w.execLookup r key).2
  | loaded (t : Task) : Effect w r (.loadTaskByID t.id) (.loaded t) (.ok t) w
  | unloaded (id : String) (e : Error) : Effect w r (.loadTaskByID id) (.failed e) (.error e) w
  | newID (id : String) : Effect w r .newID (.named id) id w
  | now : Effect w r .now .ok w.clock w
  | enqueued (task t : Task) (h : t.id = task.id) :
      Effect w r (.enqueueTask task) (.enqueued t) (.ok t) (w.note (.enqueued r task.id))
  | lost (task : Task) (e : Error) :
      Effect w r (.enqueueTask task) (.lost e) (.error e) (w.note (.enqueued r task.id))
  | failed (task : Task) (e : Error) : Effect w r (.enqueueTask task) (.failed e) (.error e) w
  | store (key taskID : String) :
      Effect w r (.store key taskID) .ok () { w with
        idempotency := w.idempotency.store w.clock key taskID
        log := .stored r key taskID :: w.log }
  | respond (response : Response) :
      Effect w r (.respond response) .ok () (w.note (.responded r response))

theorem exec_effect {w w' : HttpWorld} {r : Request} {c : HttpCall} {o : HttpOutcome}
    {reply : c.Reply} (h : w.exec r c o = some (reply, w')) : Effect w r c o reply w' := by
  cases c with
  | lookup key =>
    cases o <;> simp only [exec, reduceCtorEq] at h
    obtain ⟨rfl, rfl⟩ := Prod.ext_iff.mp (Option.some.inj h)
    exact .lookup key
  | loadTaskByID id =>
    cases o <;> simp only [exec, reduceCtorEq] at h
    · split_ifs at h with hid
      cases h
      subst hid
      exact .loaded _
    · cases h
      exact .unloaded id _
  | newID =>
    cases o <;> cases h
    exact .newID _
  | now =>
    cases o <;> cases h
    exact .now
  | enqueueTask task =>
    cases o <;> simp only [exec, reduceCtorEq] at h
    · split_ifs at h with hid
      cases h
      exact .enqueued task _ hid
    · cases h
      exact .lost task _
    · cases h
      exact .failed task _
  | store key taskID =>
    cases o <;> cases h
    exact .store key taskID
  | respond response =>
    cases o <;> cases h
    exact .respond response

end HttpWorld

structure HttpConfig where
  world : HttpWorld
  threads : List (Thread http Request)

inductive HttpAction (α : Type) where
  | run (i : Nat) (o : HttpOutcome)
  | request (key : Option String) (body : Except Error (TaskCreateRequest α))
  | tick (d : Nat)

namespace HttpConfig

def init (start : Int) : HttpConfig := ⟨{ clock := start }, []⟩

variable (cfg : HttpConfig)

section

variable {α : Type} (jsonMarshal : α → Except Error Bytes)

def step : HttpAction α → Option HttpConfig
  | .run i o =>
    (stepThread HttpWorld.exec cfg.world cfg.threads i o).map fun s => ⟨s.1, s.2⟩
  | .request key body =>
    some { cfg with
      threads := cfg.threads ++ [⟨⟨cfg.threads.length, key⟩, createTask jsonMarshal key body⟩] }
  | .tick d => some { cfg with world := { cfg.world with clock := cfg.world.clock + d } }

/-- The configuration a schedule leads to, if each of its actions is possible and meets the
condition in the configuration it is taken in. -/
def runWhile (meets : HttpConfig → HttpAction α → Bool) (cfg : HttpConfig)
    (actions : List (HttpAction α)) : Option HttpConfig :=
  Interaction.runWhile (fun cfg a => cfg.step jsonMarshal a) meets cfg actions

end

/-- The call request `i` makes next. -/
def nextCall (i : Nat) : Option (Request × HttpCall) := Interaction.nextCall cfg.threads i

end HttpConfig

end AsyncJobs
