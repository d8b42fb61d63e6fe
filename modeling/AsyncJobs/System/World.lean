import AsyncJobs.Interaction.Execution
import AsyncJobs.Interaction.Pool
import AsyncJobs.Interaction.Run
import AsyncJobs.Model.Processor
import Mathlib.Logic.Function.Basic

/-!
# The server and the running system

The server side is JetStream as the package configures it: a task stream that
keeps one message for each subject and checks the expected last subject
sequence, and work queue streams that keep one item for each task and count its
deliveries. Each request either is carried out and answered, is carried out with
the answer lost, or fails without effect.

A configuration is a world and a pool of threads, each with the rest of its
program. Clients start API calls at any time, the consumer hands items to any
worker, threads take turns request by request, and may crash between two of
them. The log records, newest first, what happened to the stored tasks; nothing
the modelled code does depends on it.
-/

namespace AsyncJobs

open Interaction

/-- What happened to a request. `handled` is the outcome of the task handler. -/
inductive Outcome where
  | ok
  | lost (e : Error)
  | failed (e : Error)
  | handled (r : Except Error String)

/-- A message of a work queue stream, and from when it may be delivered again. -/
structure WorkItem where
  queue : String
  id : String
  seq : Nat
  delivered : Nat
  availableAt : Int
  deriving DecidableEq, Repr

/-- Which of the package's entry points a thread is running. -/
inductive Writer where
  | worker
  | handler
  | enqueuer
  | retrier
  | reader
  deriving DecidableEq, Repr

/-- The numbers name copies: each thread works on one copy of a task, and a copy
passes from one holder to the next under a fresh number: submitted to an API call,
passed back by it, or handed to the handler that was started. `unqueued` is a work item
publish that was not answered with a new item. -/
inductive Event where
  | read (holder : Nat) (writer : Writer) (use : ReadUse) (found : StoredTask) (clock : Int)
  | saved (holder : Nat) (writer : Writer) (old : Option StoredTask) (new : StoredTask)
      (acked : Bool)
  | deleted (holder : Nat) (removed : StoredTask)
  | dropped (removed : StoredTask)
  | submitted (copy next : Nat) (task : Copy)
  | passed (holder next : Nat) (task : Copy)
  | started (holder next : Nat) (task : Copy) (item : ProcessItem)
  | returned (holder : Nat) (err : Option Error)
  | published (holder : Nat) (queue id : String) (seq : Nat)
  | unqueued (holder : Nat)
  | removed (holder : Nat) (msg : MsgRef)
  deriving DecidableEq, Repr

/-- A delivery whose limiter token has not been returned. -/
structure Delivery where
  holder : Nat
  id : String
  msg : MsgRef
  deriving DecidableEq, Repr

structure World where
  clock : Int
  lastSeq : Nat
  tasks : List StoredTask
  itemSeq : Nat
  items : List WorkItem
  msgIDs : List (String × String)
  deliveries : List Delivery
  nextCopy : Nat
  copies : Nat → Option Copy
  log : List Event

namespace World

def init (start : Int) : World where
  clock := start
  lastSeq := 0
  tasks := []
  itemSeq := 0
  items := []
  msgIDs := []
  deliveries := []
  nextCopy := 0
  copies := fun _ => none
  log := []

variable (w : World)

def stored (id : String) : Option StoredTask := w.tasks.find? fun m => m.task.id = id

/-- A NATS wildcard matches every task subject. -/
def isWildcard (token : String) : Bool := token = "*" ∨ token = ">"

/-- The newest message on the subjects the token names. -/
def readLast (token : String) : Option StoredTask :=
  if isWildcard token then w.tasks.head? else w.stored token

def lastSubjectSeq (id : String) : Nat :=
  match w.stored id with
  | none => 0
  | some m => m.seq

def note (e : Event) : World := { w with log := e :: w.log }

/-- An accepted publish replaces the message of the subject. -/
def store (holder : Nat) (writer : Writer) (t : Copy) (acked : Bool) : World :=
  let new := { seq := w.lastSeq + 1, task := t.toTask }
  { w with
    lastSeq := w.lastSeq + 1
    tasks := new :: w.tasks.filter fun m => m.task.id ≠ t.id
    log := .saved holder writer (w.stored t.id) new acked :: w.log }

def accepts (t : Copy) : Bool := w.lastSubjectSeq t.id = t.storageOptions.getD 0

def removeTask (m : StoredTask) (e : Event) : World :=
  { w with tasks := w.tasks.filter fun n => n.seq ≠ m.seq, log := e :: w.log }

/-- Publishing replaces an item of the same task on the same queue. -/
def putItem (holder : Nat) (queue id : String) (msgID : Option String) : World :=
  { w with
    itemSeq := w.itemSeq + 1
    items := ⟨queue, id, w.itemSeq + 1, 0, w.clock⟩ ::
      w.items.filter fun i => ¬ (i.queue = queue ∧ i.id = id)
    msgIDs := match msgID with
      | none => w.msgIDs
      | some m => (queue, m) :: w.msgIDs
    log := .published holder queue id (w.itemSeq + 1) :: w.log }

def isDuplicate (queue : String) (msgID : Option String) : Bool :=
  match msgID with
  | none => false
  | some m => w.msgIDs.contains (queue, m)

/-- An acknowledged or terminated item leaves the work queue. -/
def removeItem (holder : Nat) (msg : MsgRef) : World :=
  { w with
    items := w.items.filter fun i => ¬ (i.queue = msg.queue ∧ i.seq = msg.seq)
    log := .removed holder msg :: w.log }

def delayItem (msg : MsgRef) (delay : Int) : World :=
  { w with
    items := w.items.map fun i =>
      if i.queue = msg.queue ∧ i.seq = msg.seq then { i with availableAt := w.clock + delay }
      else i }

def releaseDelivery (holder : Nat) : World :=
  { w with deliveries := w.deliveries.filter fun d => d.holder ≠ holder }

/-- The handler goroutine takes over the copy and the delivery of its worker. -/
def beginHandler (holder : Nat) (t : Copy) (item : ProcessItem) : World :=
  { w with
    nextCopy := w.nextCopy + 1
    deliveries := w.deliveries.map fun d =>
      if d.holder = holder then { d with holder := w.nextCopy } else d
    log := .started holder w.nextCopy t item :: w.log }

/-- An API call returns; its caller keeps the task it passed in or received. -/
def finish (holder : Nat) (t : Option Copy) (err : Option Error) : World :=
  match t with
  | none => w.note (.returned holder err)
  | some t =>
    { w with
      nextCopy := w.nextCopy + 1
      copies := Function.update w.copies w.nextCopy (some t)
      log := .passed holder w.nextCopy t :: .returned holder err :: w.log }

section Finish

variable (holder : Nat) (t : Option Copy) (err : Option Error)

@[simp] theorem finish_tasks : (w.finish holder t err).tasks = w.tasks := by cases t <;> rfl

@[simp] theorem finish_stored (id : String) : (w.finish holder t err).stored id = w.stored id := by
  rw [stored, finish_tasks, stored]

@[simp] theorem finish_items : (w.finish holder t err).items = w.items := by cases t <;> rfl

@[simp] theorem finish_itemSeq : (w.finish holder t err).itemSeq = w.itemSeq := by cases t <;> rfl

@[simp] theorem finish_deliveries : (w.finish holder t err).deliveries = w.deliveries := by
  cases t <;> rfl

@[simp] theorem finish_clock : (w.finish holder t err).clock = w.clock := by cases t <;> rfl

end Finish

/-- The caller of a call that returned owns what it owned before and the task it got. -/
theorem finish_copies_cases {holder : Nat} {t t' : Copy} {err : Option Error} {j : Nat}
    (h : (w.finish holder (some t) err).copies j = some t') :
    (j = w.nextCopy ∧ t = t') ∨ w.copies j = some t' := by
  have hupdate : Function.update w.copies w.nextCopy (some t) j = some t' := h
  by_cases hj : j = w.nextCopy
  · rw [hj, Function.update_self] at hupdate
    exact Or.inl ⟨hj, Option.some.inj hupdate⟩
  · rw [Function.update_of_ne hj] at hupdate
    exact Or.inr hupdate

def wrongLastSequence : Error := .plain "wrong last sequence"

/-- A request that changes the world and reports nothing but success or failure. -/
def perform (done : World) : Outcome → Option (Option Error × World)
  | .ok => some (none, done)
  | .lost e => some (some e, done)
  | .failed e => some (some e, w)
  | .handled _ => none

def execRead (holder : Nat) (writer : Writer) (use : ReadUse) (id : String) :
    Outcome → Option (Except ReadError StoredTask × World)
  | .ok =>
    match w.readLast id with
    | none => some (.error .noMessage, w)
    | some m => some (.ok m, w.note (.read holder writer use m w.clock))
  | .failed e => some (.error (.failed e), w)
  | _ => none

def execSave (holder : Nat) (writer : Writer) (t : Copy) :
    Outcome → Option (Except Error Nat × World)
  | .ok =>
    if w.accepts t then some (.ok (w.lastSeq + 1), w.store holder writer t true)
    else some (.error wrongLastSequence, w)
  | .lost e =>
    if w.accepts t then some (.error e, w.store holder writer t false) else some (.error e, w)
  | .failed e => some (.error e, w)
  | .handled _ => none

/-- Deleting a sequence that is no longer stored is refused. -/
def execDelete (holder seq : Nat) (o : Outcome) : Option (Option Error × World) :=
  match w.tasks.find? fun m => m.seq = seq with
  | none => w.perform w (match o with | .ok => .failed (.plain "no message found") | o => o)
  | some m => w.perform (w.removeTask m (.deleted holder m)) o

def execPublishItem (holder : Nat) (queue id : String) (msgID : Option String) :
    Outcome → Option (Except Error Bool × World)
  | .ok =>
    if w.isDuplicate queue msgID then some (.ok true, w.note (.unqueued holder))
    else some (.ok false, w.putItem holder queue id msgID)
  | .lost e =>
    if w.isDuplicate queue msgID then some (.error e, w.note (.unqueued holder))
    else some (.error e, (w.putItem holder queue id msgID).note (.unqueued holder))
  | .failed e => some (.error e, w.note (.unqueued holder))
  | .handled _ => none

/-- One request of the thread that holds copy `holder`. -/
def exec (holder : Nat) (writer : Writer) : (c : Call) → Outcome → Option (c.Reply × World)
  | .readLast use id, o => w.execRead holder writer use id o
  | .publishTask t, o => w.execSave holder writer t o
  | .publishEvent _, o => w.perform w o
  | .deleteMessage seq, o => w.execDelete holder seq o
  | .publishItem queue id msgID, o => w.execPublishItem holder queue id msgID o
  | .ackItem msg, o => w.perform (w.removeItem holder msg) o
  | .termItem msg, o => w.perform (w.removeItem holder msg) o
  | .nakItem msg delay, o => w.perform (w.delayItem msg delay) o
  | .now, .ok => some (w.clock, w)
  | .goHandle t item, .ok => some ((), w.beginHandler holder t item)
  | .runHandler _, .handled r => some (r, w)
  | .release, .ok => some ((), w.releaseDelivery holder)
  | .done t err, .ok => some ((), w.finish holder t err)
  | _, _ => none

theorem exec_publishTask_ok {holder : Nat} {writer : Writer} {t : Copy} (h : w.accepts t = true) :
    w.exec holder writer (.publishTask t) .ok =
      some (.ok (w.lastSeq + 1), w.store holder writer t true) := if_pos h

/-- A program that runs alone, given what becomes of each of its requests. -/
def execute {α : Type} (holder : Nat) (writer : Writer) (p : Job α) (outcomes : List Outcome) :
    Option (α × List Outcome × World) :=
  Prog.execute (S := jobs) (fun c o v => World.exec v holder writer c o) p outcomes w

/-- A program that runs alone and has every request answered. -/
def evaluate {α : Type} (holder : Nat) (writer : Writer) (p : Job α) : Option (α × World) :=
  Prog.evaluate (S := jobs) (fun c v => World.exec v holder writer c .ok) p w

section

variable {w} {w' : World} {α : Type} {holder : Nat} {writer : Writer} {c : Call}
  {k : c.Reply → Job α}

theorem execute_call {o : Outcome} {os : List Outcome} {r : c.Reply}
    (h : w.exec holder writer c o = some (r, w')) :
    w.execute holder writer (.call c k) (o :: os) = w'.execute holder writer (k r) os :=
  Prog.execute_call h

theorem execute_request {outcomes rest : List Outcome} {a : α}
    (h : w.execute holder writer (.call c k) outcomes = some (a, rest, w')) :
    ∃ o os r u, outcomes = o :: os ∧ w.exec holder writer c o = some (r, u) ∧
      u.execute holder writer (k r) os = some (a, rest, w') :=
  Prog.of_execute_call h

theorem execute_bind {β : Type} (p : Job α) (f : α → Job β) (outcomes : List Outcome) :
    w.execute holder writer (p >>= f) outcomes =
      (w.execute holder writer p outcomes).bind fun r =>
        r.2.2.execute holder writer (f r.1) r.2.1 :=
  Prog.execute_bind p f outcomes w

theorem evaluate_call {r : c.Reply} (h : w.exec holder writer c .ok = some (r, w')) :
    w.evaluate holder writer (.call c k) = w'.evaluate holder writer (k r) :=
  Prog.evaluate_call h

theorem evaluate_bind {β : Type} {p : Job α} {f : α → Job β} {a : α}
    (h : w.evaluate holder writer p = some (a, w')) :
    w.evaluate holder writer (p >>= f) = w'.evaluate holder writer (f a) :=
  Prog.evaluate_bind h

end

end World

inductive Role where
  | worker (p : Processor) (item : ProcessItem)
  | handler (p : Processor) (task : Copy) (item : ProcessItem)
  | enqueue (c : Client) (task : Copy)
  | enqueueInto (queue : Queue) (task : Copy)
  | retry (c : Client) (id : String)
  | load (c : Client) (id : String)
  | delete (id : String)

def Role.writer : Role → Writer
  | worker _ _ => .worker
  | handler _ _ _ => .handler
  | enqueue _ _ | enqueueInto _ _ => .enqueuer
  | retry _ _ => .retrier
  | load _ _ | delete _ => .reader

def Role.prog : Role → Job Unit
  | worker p item => p.processItem item
  | handler p task item => p.handle task item
  | enqueue c task => do
    let (err, task) ← c.enqueueTask task
    request (.done (some task) err)
  | enqueueInto queue task => do
    let (err, task) ← Storage.enqueueTask queue task
    request (.done (some task) err)
  | retry c id => do
    let err ← c.retryTaskByID id
    request (.done none err)
  | load c id => do
    match ← c.loadTaskByID .task id with
    | .ok task => request (.done (some task) none)
    | .error err => request (.done none (some err))
  | delete id => do
    let err ← Storage.deleteTaskByID id
    request (.done none err)

structure Tag where
  holder : Nat
  role : Role

structure Config where
  world : World
  threads : List (Thread jobs Tag)

inductive Action where
  | run (i : Nat) (o : Outcome)
  | crash (i : Nat)
  | deliver (p : Processor) (id : String)
  | newTask (task : Task)
  | edit (copy : Nat) (task : Task)
  | enqueue (c : Client) (copy : Nat)
  | enqueueInto (queue : Queue) (copy : Nat)
  | retry (c : Client) (id : String)
  | load (c : Client) (id : String)
  | delete (id : String)
  | tick (d : Nat)
  | dropTask (id : String)
  | dropItem (queue id : String)
  | forgetMsgID (queue msgID : String)

namespace Config

def init (start : Int) : Config := ⟨.init start, []⟩

variable (cfg : Config)

/-- A new thread starts under the next free copy number. -/
def spawn (w : World) (role : Role) : Config where
  world := { w with nextCopy := w.nextCopy + 1 }
  threads := cfg.threads ++ [⟨⟨w.nextCopy, role⟩, role.prog⟩]

/-- The thread started by `go p.handle(...)`. -/
def spawned (tag : Tag) (next : Nat) : Call → List (Thread jobs Tag)
  | .goHandle task item =>
    match tag.role with
    | .worker p _ => [⟨⟨next, .handler p task item⟩, p.handle task item⟩]
    | _ => []
  | _ => []

def stepThread (i : Nat) (tag : Tag) : Job Unit → Outcome → Option Config
  | .ret _, _ => none
  | .call c k, o =>
    match cfg.world.exec tag.holder tag.role.writer c o with
    | none => none
    | some (r, w) => some
        { world := w
          threads := cfg.threads.set i ⟨tag, k r⟩ ++ spawned tag cfg.world.nextCopy c }

/-- The consumer hands an available item to a worker while attempts remain. -/
def deliver (p : Processor) (id : String) : Option Config :=
  match cfg.world.items.find? fun i => i.queue = p.queue.name ∧ i.id = id with
  | none => none
  | some i =>
    if i.availableAt ≤ cfg.world.clock ∧
        (p.queue.maxTries ≤ 0 ∨ i.delivered < p.queue.maxTries) then
      let msg : MsgRef := ⟨i.queue, i.seq, i.delivered + 1⟩
      let w := { cfg.world with
        items := cfg.world.items.map fun j =>
          if j.queue = i.queue ∧ j.seq = i.seq then
            { j with
              delivered := j.delivered + 1
              availableAt := cfg.world.clock + p.queue.maxRunTime }
          else j
        deliveries := ⟨cfg.world.nextCopy, id, msg⟩ :: cfg.world.deliveries }
      some (cfg.spawn w (.worker p ⟨id, some msg⟩))
    else none

def submit (copy : Nat) (role : Copy → Role) : Option Config :=
  match cfg.world.copies copy with
  | none => none
  | some t =>
    let w := { cfg.world with
      copies := Function.update cfg.world.copies copy none
      log := .submitted copy cfg.world.nextCopy t :: cfg.world.log }
    some (cfg.spawn w (role t))

def step : Action → Option Config
  | .run i o =>
    match cfg.threads[i]? with
    | none => none
    | some thread => cfg.stepThread i thread.tag thread.prog o
  | .crash i =>
    match cfg.threads[i]? with
    | none => none
    | some thread => some { cfg with threads := cfg.threads.set i ⟨thread.tag, .ret ()⟩ }
  | .deliver p id => cfg.deliver p id
  | .newTask task =>
    if isValidName task.id then
      some { cfg with world := { cfg.world with
        nextCopy := cfg.world.nextCopy + 1
        copies := Function.update cfg.world.copies cfg.world.nextCopy (some ⟨task, none⟩) } }
    else none
  | .edit copy task =>
    match cfg.world.copies copy with
    | none => none
    | some t =>
      if task.id = t.id then
        some { cfg with world := { cfg.world with
          copies := Function.update cfg.world.copies copy (some ⟨task, t.storageOptions⟩) } }
      else none
  | .enqueue c copy => cfg.submit copy (.enqueue c)
  | .enqueueInto queue copy => cfg.submit copy (.enqueueInto queue)
  | .retry c id => some (cfg.spawn cfg.world (.retry c id))
  | .load c id => some (cfg.spawn cfg.world (.load c id))
  | .delete id => some (cfg.spawn cfg.world (.delete id))
  | .tick d => some { cfg with world := { cfg.world with clock := cfg.world.clock + d } }
  | .dropTask id =>
    match cfg.world.stored id with
    | none => none
    | some m => some { cfg with world := cfg.world.removeTask m (.dropped m) }
  | .dropItem queue id =>
    some { cfg with world := { cfg.world with
      items := cfg.world.items.filter fun i => ¬ (i.queue = queue ∧ i.id = id) } }
  | .forgetMsgID queue msgID =>
    some { cfg with world := { cfg.world with
      msgIDs := cfg.world.msgIDs.filter fun m => m ≠ (queue, msgID) } }

/-- The configuration a schedule leads to, if each of its actions is possible and
meets the condition in the configuration it is taken in. -/
def runWhile (meets : Config → Action → Bool) (cfg : Config) (actions : List Action) :
    Option Config :=
  Interaction.runWhile Config.step meets cfg actions

def run (cfg : Config) (actions : List Action) : Option Config :=
  cfg.runWhile (fun _ _ => true) actions

/-- The request thread `i` sends next. -/
def nextCall (i : Nat) : Option (Tag × Call) :=
  match cfg.threads[i]? with
  | some ⟨tag, .call c _⟩ => some (tag, c)
  | _ => none

end Config

end AsyncJobs
