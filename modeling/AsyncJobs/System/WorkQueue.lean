import AsyncJobs.System.Reachable
import Mathlib.Data.List.Pairwise

/-!
# One work queue without failures

The runs in which every request succeeds and nothing is removed behind the
package's back, on a single queue that delivers an item a limited number of times.
`HealthyEffect` says what a request does there. A delivery is done with its item
either because the task is finished or because somebody else has taken over: a
newer item was published, or a call that stored the task is about to publish one.
Both facts survive every step.
-/

namespace AsyncJobs

open Interaction

namespace World

variable (w : World) (q : Queue)

/-- The queue will deliver the item of the task once more. -/
def attemptsLeft (id : String) : Bool :=
  w.items.any fun i => i.queue = q.name ∧ i.id = id ∧ (i.delivered : Int) < q.maxTries

def succeeds (c : Call) (o : Outcome) : Bool :=
  match c, o with
  | .publishTask t, .ok => w.accepts t
  | .publishItem queue _ msgID, .ok => queue = q.name ∧ w.isDuplicate queue msgID = false
  | .deleteMessage _, _ => false
  | .runHandler _, .handled _ => true
  | _, .ok => true
  | _, _ => false

/-- A worker accepts the signature of the task it loads. -/
def verifies (p : Processor) (t : Task) : Bool :=
  match p.c.verifyTaskSignature t with
  | .ok _ => true
  | .error _ => false

/-- The task is stored in a state in which it waits for a delivery. -/
def waiting (id : String) : Bool :=
  match w.stored id with
  | some m => m.task.state = .new ∨ m.task.state = .retry ∨ m.task.state = .blocked
  | none => false

/-- The requests that would leave a waiting task without a delivery: a nak for unfinished
dependencies and a failed handler need an attempt that is left, and a worker must
neither terminate the item of a waiting task, nor reject the task it loads, nor revive
a terminated one. -/
def keepsAttempts (role : Role) (c : Call) : Bool :=
  match role, c with
  | .worker p _, .readLast .task id =>
    match w.readLast id with
    | some m => verifies p m.task ∧ m.task.state ≠ .terminated
    | none => true
  | .worker _ item, .nakItem _ _ => w.attemptsLeft q item.jobID
  | .worker _ _, .termItem msg => w.items.all fun i =>
      i.queue = msg.queue ∧ i.seq = msg.seq → w.waiting i.id = false
  | .handler _ _ _, .publishTask t => t.state ≠ .retry ∨ w.attemptsLeft q t.id
  | _, _ => true

end World

/-- Every call succeeds, nothing is deleted or lost, and everybody works on the one queue. -/
def Config.undisturbed (q : Queue) (cfg : Config) : Action → Bool
  | .run i o =>
    match cfg.nextCall i with
    | some (_, c) => cfg.world.succeeds q c o
    | none => true
  | .deliver p _ => p.queue = q
  | .enqueue c _ | .retry c _ => c.opts.queue.name = q.name
  | .enqueueInto queue _ => queue.name = q.name
  | .crash _ | .newTask _ | .edit _ _ | .load _ _ | .tick _ | .forgetMsgID _ _ => true
  | .delete _ | .dropTask _ | .dropItem _ _ => false

/-- No request leaves a waiting task without a delivery, and nobody stops on the way. -/
def Config.keepsAttempts (q : Queue) (cfg : Config) : Action → Bool
  | .run i _ =>
    match cfg.nextCall i with
    | some (tag, c) => cfg.world.keepsAttempts q tag.role c
    | none => true
  | .crash _ => false
  | _ => true

/-- What a request does when it succeeds and keeps the attempts. -/
inductive HealthyEffect (q : Queue) (tag : Tag) (w : World) : (c : Call) → c.Reply → World → Prop
  | absent {use : ReadUse} {id : String} (missing : w.readLast id = none) :
      HealthyEffect q tag w (.readLast use id) (.error .noMessage) w
  | read {use : ReadUse} {id : String} {m : StoredTask} (found : w.readLast id = some m)
      (kept : w.keepsAttempts q tag.role (.readLast use id) = true) :
      HealthyEffect q tag w (.readLast use id) (.ok m)
        (w.note (.read tag.holder tag.role.writer use m w.clock))
  | save {t : Copy} (accepted : w.accepts t = true)
      (kept : w.keepsAttempts q tag.role (.publishTask t) = true) :
      HealthyEffect q tag w (.publishTask t) (.ok (w.lastSeq + 1))
        (w.store tag.holder tag.role.writer t true)
  | event (t : Task) : HealthyEffect q tag w (.publishEvent t) none w
  | queue (id : String) (msgID : Option String) :
      HealthyEffect q tag w (.publishItem q.name id msgID) (.ok false)
        (w.putItem tag.holder q.name id msgID)
  | ack (msg : MsgRef) : HealthyEffect q tag w (.ackItem msg) none (w.removeItem tag.holder msg)
  | term (msg : MsgRef) (kept : w.keepsAttempts q tag.role (.termItem msg) = true) :
      HealthyEffect q tag w (.termItem msg) none (w.removeItem tag.holder msg)
  | nak (msg : MsgRef) (delay : Int)
      (kept : w.keepsAttempts q tag.role (.nakItem msg delay) = true) :
      HealthyEffect q tag w (.nakItem msg delay) none (w.delayItem msg delay)
  | now : HealthyEffect q tag w .now w.clock w
  | start (t : Copy) (item : ProcessItem) :
      HealthyEffect q tag w (.goHandle t item) () (w.beginHandler tag.holder t item)
  | handled (t : Copy) (r : Except Error String) : HealthyEffect q tag w (.runHandler t) r w
  | release : HealthyEffect q tag w .release () (w.releaseDelivery tag.holder)
  | done (t : Option Copy) (err : Option Error) :
      HealthyEffect q tag w (.done t err) () (w.finish tag.holder t err)

namespace World

variable {q : Queue} {tag : Tag} {w w' : World}

theorem execRead_ok {n : Nat} {writer : Writer} {use : ReadUse} {id : String}
    {r : Except ReadError StoredTask} (h : w.execRead n writer use id .ok = some (r, w')) :
    (w.readLast id = none ∧ r = .error .noMessage ∧ w' = w) ∨
      ∃ m, w.readLast id = some m ∧ r = .ok m ∧ w' = w.note (.read n writer use m w.clock) := by
  simp only [execRead] at h
  split at h
  · rename_i hnone
    cases h
    exact Or.inl ⟨hnone, rfl, rfl⟩
  · rename_i m hm
    cases h
    exact Or.inr ⟨m, hm, rfl, rfl⟩

/-- A request that succeeds was answered, or it was the handler that returned. -/
theorem succeeds_ok {c : Call} {o : Outcome} (h : w.succeeds q c o = true) :
    o = .ok ∨ ∃ t r, c = .runHandler t ∧ o = .handled r := by
  unfold succeeds at h
  split at h
  · exact Or.inl rfl
  · exact Or.inl rfl
  · cases h
  · exact Or.inr ⟨_, _, rfl, rfl⟩
  · exact Or.inl rfl
  · cases h

theorem exec_healthy {c : Call} {o : Outcome} {r : c.Reply}
    (h : w.exec tag.holder tag.role.writer c o = some (r, w'))
    (hs : w.succeeds q c o = true) (hk : w.keepsAttempts q tag.role c = true) :
    HealthyEffect q tag w c r w' := by
  rcases succeeds_ok hs with rfl | ⟨t, result, rfl, rfl⟩
  · cases c with
    | readLast use id =>
      rcases execRead_ok h with ⟨hnone, rfl, rfl⟩ | ⟨m, hm, rfl, rfl⟩
      · exact .absent hnone
      · exact .read hm hk
    | publishTask t =>
      have hacc : w.accepts t = true := hs
      cases (w.exec_publishTask_ok hacc).symm.trans h
      exact .save hacc hk
    | publishEvent t => cases h; exact .event t
    | deleteMessage seq => cases hs
    | publishItem queue id msgID =>
      obtain ⟨hqueue, hdup⟩ := of_decide_eq_true hs
      subst hqueue
      have hput : w.execPublishItem tag.holder q.name id msgID .ok =
          some (.ok false, w.putItem tag.holder q.name id msgID) := by
        simp only [execPublishItem, hdup]
        rfl
      cases hput.symm.trans h
      exact .queue id msgID
    | ackItem msg => cases h; exact .ack msg
    | termItem msg => cases h; exact .term msg hk
    | nakItem msg delay => cases h; exact .nak msg delay hk
    | now => cases h; exact .now
    | goHandle t item => cases h; exact .start t item
    | runHandler t => cases h
    | release => cases h; exact .release
    | done t err => cases h; exact .done t err
    | panic message => exact r.elim
  · cases h
    exact .handled t _

end World

/-- The sequence of the newest work item of a task. -/
def lastItem (id : String) : List Event → Option Nat
  | [] => none
  | .published _ _ id' seq :: log => if id' = id then some seq else lastItem id log
  | _ :: log => lastItem id log

/-- Calls that store a task and then publish a work item for it. -/
def Writer.submits : Writer → Bool
  | .enqueuer | .retrier => true
  | _ => false

/-- Whose call stored the task last, among those that then publish an item. -/
def lastSubmit (id : String) : List Event → Option Nat
  | [] => none
  | .saved n writer _ new _ :: log =>
    if writer.submits = true ∧ new.task.id = id then some n else lastSubmit id log
  | _ :: log => lastSubmit id log

/-- The call that stored the task last has not yet published its item. -/
def Pending (id : String) (log : List Event) : Prop :=
  ∃ n, lastSubmit id log = some n ∧ ∀ queue id' seq, Event.published n queue id' seq ∉ log

/-- Nobody needs item `seq` of the task any more. -/
structure Settled (id : String) (seq : Nat) (w : World) : Prop where
  issued : seq ≤ w.itemSeq
  unneeded : lastItem id w.log ≠ some seq ∨ Pending id w.log ∨
    ∀ m, w.stored id = some m → m.task.state.final = true

/-- Item `seq` of the task has no delivery left, and nobody waits for one. -/
structure Spent (q : Queue) (id : String) (seq : Nat) (w : World) : Prop where
  issued : seq ≤ w.itemSeq
  used : ∀ i ∈ w.items, i.seq = seq → q.maxTries ≤ (i.delivered : Int)
  unneeded : lastItem id w.log ≠ some seq ∨ Pending id w.log ∨
    ∀ m, w.stored id = some m → ¬ m.task.enqueueable

/-- Item `seq` was published for the task. -/
def Issued (id : String) (seq : Nat) (log : List Event) : Prop :=
  ∃ n queue, Event.published n queue id seq ∈ log

/-- The thread works on a delivery of item `msg.seq` of the task, or on none. -/
structure Assigned (tag : Tag) (id : String) (msg : MsgRef) (w : World) : Prop where
  issued : Issued id msg.seq w.log
  own : ∀ d ∈ w.deliveries, d.holder = tag.holder → d.id = id ∧ d.msg = msg

/-- What a thread must know before it sends a request on the queue. An item is taken
off the queue when it is settled, and its last delivery is released when it is spent. -/
def QueuePermit (q : Queue) (tag : Tag) (w : World) : Call → Prop
  | .publishTask _ => tag.role.writer.submits = true →
      (∀ queue id seq, Event.published tag.holder queue id seq ∉ w.log) ∧
        ∀ err, Event.returned tag.holder err ∉ w.log
  | .publishItem _ id _ => ∀ id', lastSubmit id' w.log = some tag.holder → id' = id
  | .done _ _ => ∀ id, lastSubmit id w.log = some tag.holder →
      ∃ queue id' seq, Event.published tag.holder queue id' seq ∈ w.log
  | .ackItem msg => ∃ id, Issued id msg.seq w.log ∧ Settled id msg.seq w
  | .termItem msg => (∃ p item, tag.role = .worker p item) ∨
      ∃ id, Issued id msg.seq w.log ∧ Settled id msg.seq w
  | .goHandle t item => ∃ msg, item = ⟨t.id, some msg⟩ ∧ Assigned tag t.id msg w
  | .release => ∀ d ∈ w.deliveries, d.holder = tag.holder →
      q.maxTries ≤ (d.msg.numDelivered : Int) → Spent q d.id d.msg.seq w
  | _ => True

/-- Items are the newest of their tasks, deliveries are of items that were published, and
a call that has returned has published the item of the task it stored. -/
structure QueueInv (q : Queue) (w : World) : Prop where
  distinct : w.items.Pairwise fun a b => a.id ≠ b.id
  latest : ∀ i ∈ w.items, lastItem i.id w.log = some i.seq
  inQueue : ∀ i ∈ w.items, i.queue = q.name
  issued : ∀ {n queue id seq}, Event.published n queue id seq ∈ w.log → seq ≤ w.itemSeq
  unique : ∀ {n n' queue queue' id id' seq}, Event.published n queue id seq ∈ w.log →
    Event.published n' queue' id' seq ∈ w.log → id = id'
  loads : ∀ {n m clock}, Event.read n .worker .task m clock ∈ w.log → m.task.state ≠ .terminated
  returned : ∀ {n err id}, Event.returned n err ∈ w.log → lastSubmit id w.log = some n →
    ∃ queue id' seq, Event.published n queue id' seq ∈ w.log
  delivered : ∀ d ∈ w.deliveries, Issued d.id d.msg.seq w.log ∧
    d.msg.queue = q.name ∧ ∀ i ∈ w.items, i.seq = d.msg.seq → d.msg.numDelivered ≤ i.delivered
  holders : ∀ d ∈ w.deliveries, d.holder < w.nextCopy ∧
    ∀ d' ∈ w.deliveries, d'.holder = d.holder → d' = d

section Log

variable {log : List Event} {e : Event} {id : String}

/-- Events that neither publish an item nor store a task. -/
def Event.steady : Event → Bool
  | .published _ _ _ _ | .saved _ _ _ _ _ => false
  | _ => true

theorem lastItem_cons (he : ∀ n queue id seq, e ≠ .published n queue id seq) :
    lastItem id (e :: log) = lastItem id log := by
  cases e with
  | published _ _ _ _ => exact absurd rfl (he _ _ _ _)
  | _ => rfl

theorem lastItem_issued {seq : Nat} (h : lastItem id log = some seq) : Issued id seq log := by
  induction log with
  | nil => cases h
  | cons e log ih =>
    have hlater : lastItem id log = some seq → Issued id seq (e :: log) := by
      intro h
      obtain ⟨n, queue, hmem⟩ := ih h
      exact ⟨n, queue, List.mem_cons_of_mem _ hmem⟩
    by_cases he : ∃ n queue id' seq', e = .published n queue id' seq'
    · obtain ⟨n, queue, id', seq', rfl⟩ := he
      simp only [lastItem] at h
      split_ifs at h with hid
      · cases h
        exact ⟨n, queue, hid ▸ List.mem_cons_self ..⟩
      · exact hlater h
    · refine hlater ?_
      rwa [lastItem_cons fun n queue id' seq' heq => he ⟨n, queue, id', seq', heq⟩] at h

theorem lastSubmit_cons (he : ∀ n writer old new acked, e = .saved n writer old new acked →
    writer.submits = true → new.task.id ≠ id) : lastSubmit id (e :: log) = lastSubmit id log := by
  cases e with
  | saved n writer old new acked =>
    refine if_neg ?_
    rintro ⟨hs, hid⟩
    exact he n writer old new acked rfl hs hid
  | _ => rfl

theorem Issued.append {seq : Nat} (h : Issued id seq log) (es : List Event) :
    Issued id seq (es ++ log) := by
  obtain ⟨n, queue, hmem⟩ := h
  exact ⟨n, queue, List.mem_append_right es hmem⟩

theorem Event.steady.not_saved (he : e.steady = true) {n : Nat} {writer : Writer}
    {old : Option StoredTask} {new : StoredTask} {acked : Bool} :
    e ≠ .saved n writer old new acked := by
  rintro rfl
  cases he

theorem Event.steady.not_published (he : e.steady = true) {n seq : Nat} {queue id : String} :
    e ≠ .published n queue id seq := by
  rintro rfl
  cases he

/-- A task stays pending until its item is published or another call stores it. -/
theorem Pending.cons (h : Pending id log)
    (hs : ∀ n writer old new acked, e = .saved n writer old new acked → writer.submits = true →
      new.task.id ≠ id)
    (hp : ∀ n queue id' seq, e = .published n queue id' seq → lastSubmit id log ≠ some n) :
    Pending id (e :: log) := by
  obtain ⟨n, hn, hun⟩ := h
  refine ⟨n, (lastSubmit_cons hs).trans hn, ?_⟩
  intro queue id' seq hmem
  rcases List.mem_cons.mp hmem with heq | hmem
  · exact hp n queue id' seq heq.symm hn
  · exact hun queue id' seq hmem

theorem Pending.steady (h : Pending id log) (he : e.steady = true) : Pending id (e :: log) :=
  h.cons (fun _ _ _ _ _ heq => absurd heq (Event.steady.not_saved he))
    fun _ _ _ _ heq => absurd heq (Event.steady.not_published he)

end Log

end AsyncJobs
