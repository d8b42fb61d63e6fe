import AsyncJobs.System.Dependencies
import AsyncJobs.System.Discard
import AsyncJobs.System.Enqueue

/-!
# What becomes of a blocked task

One processing of the item of a blocked task, alone and with every request answered, over
every content of the store. The loop over the dependencies stops at the first one that can
not be had any more, waits for the others that are not complete, and decides whether the
handler is started, the task is given up, or the item is delivered again later.
-/

namespace AsyncJobs

open Interaction

namespace World

variable (w : World)

def dependencyState (d : String) : Option TaskState := (w.readLast d).map fun m => m.task.state

/-- The states that end the loop of `loadDependencies`. -/
def endsWaiting : TaskState → Bool
  | .expired | .terminated | .queueError | .unknown => true
  | _ => false

/-- The dependency is missing or in one of those states. -/
def dependencyFails (d : String) : Bool :=
  match w.dependencyState d with
  | none => true
  | some state => endsWaiting state

def dependencyComplete (d : String) : Bool := w.dependencyState d = some .completed

def dependencyUnreachable (d : String) : Bool := w.dependencyState d = some .unreachable

end World

/-- The ways to deal with the item of a blocked task. -/
inductive GateChoice where
  | start
  | fail
  | wait
  deriving DecidableEq, Repr

/-- The choice the loop over the dependencies makes. -/
def World.gate (w : World) (dependencies : List String) : GateChoice :=
  if dependencies.any w.dependencyFails then .fail
  else if dependencies.all w.dependencyComplete then .start
  else .wait

/-- The choice that also gives up on a dependency that is itself unreachable. -/
def World.intendedGate (w : World) (dependencies : List String) : GateChoice :=
  if dependencies.any fun d => w.dependencyFails d || w.dependencyUnreachable d then .fail
  else if dependencies.all w.dependencyComplete then .start
  else .wait

def Processor.settle (w : World) (task : Copy) (ready : Bool) :
    List String → Bool × Bool × Option Error × Copy
  | [] => (ready, false, none, task)
  | d :: ds =>
    match w.readLast d with
    | none => (false, true, some (Sentinel.taskNotFound.error.wrap (": " ++ d)), task)
    | some m =>
      match m.task.state with
      | .completed =>
        let task := if task.loadDependencies then
          { task with dependencyResults :=
              setDependencyResult task.dependencyResults m.task.id m.task.result }
          else task
        settle w task ready ds
      | .expired | .terminated | .queueError | .unknown => (false, true, none, task)
      | _ => settle w task false ds

section Evaluation

variable {w : World} {n : Nat} {writer : Writer} {c : Client} {use : ReadUse} {id : String}

theorem evaluate_load_found {m : StoredTask} (hread : w.readLast id = some m)
    (hverify : c.verifyTaskSignature m.task = .ok ()) :
    w.evaluate n writer (c.loadTaskByID use id) =
      some (.ok ⟨m.task, some m.seq⟩, w.note (.read n writer use m w.clock)) := by
  have hload : w.evaluate n writer (Storage.loadTaskByID use id) =
      some (.ok ⟨m.task, some m.seq⟩, w.note (.read n writer use m w.clock)) :=
    World.evaluate_call (World.exec_readLast_ok hread)
  rw [Client.loadTaskByID, World.evaluate_bind hload]
  simp only [hverify]
  rfl

theorem evaluate_load_missing (hread : w.readLast id = none) :
    w.evaluate n writer (c.loadTaskByID use id) = some (.error Sentinel.taskNotFound.error, w) := by
  have hexec : w.exec n writer (.readLast use id) .ok = some (.error .noMessage, w) := by
    show w.execRead n writer use id .ok = _
    simp only [World.execRead, hread]
    rfl
  exact World.evaluate_call hexec

end Evaluation

/-- The world after the loop has looked up these tasks. -/
def World.afterReads (w : World) (n : Nat) (writer : Writer) (found : List StoredTask) : World :=
  { w with log := (found.map fun m => .read n writer .dependency m w.clock) ++ w.log }

section Loop

variable {p : Processor} {w : World} {n : Nat}

theorem evaluate_loadDependencies_after (task : Copy) (ready : Bool) {ds : List String}
    (hverify : ∀ d ∈ ds, ∀ m, w.readLast d = some m →
      p.c.verifyTaskSignature m.task = .ok ()) (seen : List StoredTask) :
    ∃ found, (w.afterReads n .worker seen).evaluate n .worker (p.loadDependencies task ready ds) =
      some (Processor.settle w task ready ds, w.afterReads n .worker found) := by
  induction ds generalizing task ready seen with
  | nil => exact ⟨seen, rfl⟩
  | cons d ds ih =>
    have hrest : ∀ d' ∈ ds, ∀ m, w.readLast d' = some m →
        p.c.verifyTaskSignature m.task = .ok () :=
      fun d' hd' => hverify d' (List.mem_cons_of_mem d hd')
    rw [Processor.loadDependencies, Processor.settle]
    cases hread : w.readLast d with
    | none =>
      refine ⟨seen, ?_⟩
      rw [World.evaluate_bind (evaluate_load_missing (w := w.afterReads n .worker seen) hread)]
      rfl
    | some m =>
      have hm := hverify d (List.mem_cons_self ..) m hread
      rw [World.evaluate_bind
        (evaluate_load_found (w := w.afterReads n .worker seen) hread hm)]
      cases hstate : m.task.state with
      | completed =>
        simp only [hstate]
        exact ih _ ready hrest (m :: seen)
      | expired | terminated | queueError | unknown =>
        simp only [hstate]
        exact ⟨m :: seen, rfl⟩
      | new | active | retry | blocked | unreachable =>
        simp only [hstate]
        exact ih _ false hrest (m :: seen)

/-- The loop alone: it looks tasks up and returns what `settle` says. -/
theorem evaluate_loadDependencies (task : Copy) (ready : Bool) {ds : List String}
    (hverify : ∀ d ∈ ds, ∀ m, w.readLast d = some m →
      p.c.verifyTaskSignature m.task = .ok ()) :
    ∃ found, w.evaluate n .worker (p.loadDependencies task ready ds) =
      some (Processor.settle w task ready ds, w.afterReads n .worker found) :=
  evaluate_loadDependencies_after task ready hverify []

end Loop

section Settle

variable {w : World}

/-- The results of complete dependencies, as the loop collects them. -/
def collectResults (w : World) (load : Bool) (results : List (String × Option TaskResult))
    (ds : List String) : List (String × Option TaskResult) :=
  ds.foldl (fun results d =>
    match w.readLast d with
    | none => results
    | some m =>
      if load ∧ m.task.state = .completed then
        Processor.setDependencyResult results m.task.id m.task.result
      else results) results

def Copy.withResults (t : Copy) (results : List (String × Option TaskResult)) : Copy :=
  { t with dependencyResults := results }

theorem record_result (t : Copy) (results : List (String × Option TaskResult)) :
    (if t.loadDependencies then { t with dependencyResults := results } else t) =
      t.withResults (if t.loadDependencies then results else t.dependencyResults) := by
  split <;> rfl

theorem settle_fails {ds : List String} (h : ds.any w.dependencyFails = true) (t : Copy)
    (ready : Bool) :
    ∃ err results, Processor.settle w t ready ds = (false, true, err, t.withResults results) ∧
      ∀ e, err = some e → e.is .taskDependenciesFailed = false := by
  induction ds generalizing t ready with
  | nil => cases h
  | cons d ds ih =>
    rw [Processor.settle]
    cases hread : w.readLast d with
    | none =>
      refine ⟨_, t.dependencyResults, rfl, ?_⟩
      intro e he
      cases he
      rfl
    | some m =>
      have hrest : World.endsWaiting m.task.state = false → ds.any w.dependencyFails = true := by
        intro hstate
        simpa [World.dependencyFails, World.dependencyState, hread, hstate] using h
      cases hstate : m.task.state with
      | completed =>
        simp only [hstate, record_result]
        exact ih (hrest (by rw [hstate]; rfl)) (t.withResults _) ready
      | expired | terminated | queueError | unknown =>
        simp only [hstate]
        exact ⟨none, t.dependencyResults, rfl, nofun⟩
      | new | active | retry | blocked | unreachable =>
        simp only [hstate]
        exact ih (hrest (by rw [hstate]; rfl)) t false

theorem settle_open {ds : List String} (h : ds.any w.dependencyFails = false) (t : Copy)
    (ready : Bool) :
    Processor.settle w t ready ds = (ready && ds.all w.dependencyComplete, false, none,
      t.withResults (collectResults w t.loadDependencies t.dependencyResults ds)) := by
  induction ds generalizing t ready with
  | nil =>
    rw [List.all_nil, Bool.and_true]
    rfl
  | cons d ds ih =>
    rw [List.any_cons, Bool.or_eq_false_iff] at h
    obtain ⟨hd, hrest⟩ := h
    rw [Processor.settle, List.all_cons, collectResults, List.foldl_cons]
    cases hread : w.readLast d with
    | none => simp [World.dependencyFails, World.dependencyState, hread] at hd
    | some m =>
      have hstored : w.dependencyState d = some m.task.state := by
        rw [World.dependencyState, hread]
        rfl
      cases hstate : m.task.state with
      | completed =>
        have hcomplete : w.dependencyComplete d = true := by
          simp [World.dependencyComplete, hstored, hstate]
        simp only [hstate, record_result, hcomplete, Bool.true_and, and_true]
        exact ih hrest (t.withResults _) ready
      | expired | terminated | queueError | unknown =>
        simp [World.dependencyFails, hstored, hstate, World.endsWaiting] at hd
      | new | active | retry | blocked | unreachable =>
        have hcomplete : w.dependencyComplete d = false := by
          simp [World.dependencyComplete, hstored, hstate]
        simp only [hstate, hcomplete, Bool.false_and, Bool.and_false, reduceCtorEq, and_false,
          if_false]
        exact ih hrest t false

theorem lookup_setDependencyResult (results : List (String × Option TaskResult)) (id key : String)
    (result : Option TaskResult) :
    (Processor.setDependencyResult results id result).lookup key =
      if key = id then some result else results.lookup key := by
  have hothers : key ≠ id → (results.filter fun r => r.1 ≠ id).lookup key = results.lookup key := by
    intro hkey
    induction results with
    | nil => rfl
    | cons entry results ih =>
      by_cases hid : entry.1 = id
      · have hne : key ≠ entry.1 := hid ▸ hkey
        rw [List.filter_cons_of_neg (by simpa using hid), List.lookup_cons, beq_false_of_ne hne]
        exact ih
      · rw [List.filter_cons_of_pos (by simpa using hid), List.lookup_cons, List.lookup_cons, ih]
  by_cases hkey : key = id
  · simp [Processor.setDependencyResult, hkey]
  · rw [if_neg hkey, Processor.setDependencyResult, List.lookup_cons, beq_false_of_ne hkey]
    exact hothers hkey

/-- With every dependency complete and named by its ID, each gets its own result. -/
theorem lookup_collectResults {ds : List String} (hplain : ∀ d ∈ ds, World.isWildcard d = false)
    (hcomplete : ∀ d ∈ ds, w.dependencyComplete d = true)
    (results : List (String × Option TaskResult)) (key : String) :
    (collectResults w true results ds).lookup key =
      if key ∈ ds then (w.readLast key).map fun m => m.task.result else results.lookup key := by
  induction ds generalizing results with
  | nil => rfl
  | cons d ds ih =>
    obtain ⟨hd, hplain⟩ := List.forall_mem_cons.mp hplain
    obtain ⟨hd', hcomplete⟩ := List.forall_mem_cons.mp hcomplete
    obtain ⟨m, hread, hstate⟩ : ∃ m, w.readLast d = some m ∧ m.task.state = .completed := by
      simpa [World.dependencyComplete, World.dependencyState] using hd'
    have hid : m.task.id = d := by
      rw [World.readLast, hd] at hread
      exact World.stored_id hread
    have hfirst : collectResults w true results (d :: ds) =
        collectResults w true
          (Processor.setDependencyResult results m.task.id m.task.result) ds := by
      simp [collectResults, hread, hstate]
    rw [hfirst, ih hplain hcomplete, lookup_setDependencyResult, hid]
    by_cases hkey : key = d
    · simp [hkey, hread]
    · simp [hkey]

end Settle

section Requests

variable {p : Processor} {w : World} {n : Nat} {writer : Writer} {item : ProcessItem} {msg : MsgRef}

theorem evaluate_saveTaskState {t : Copy} (h : w.accepts t = true) :
    w.evaluate n writer (Storage.saveTaskState t true) =
      some ((none, w.savedCopy t), w.store n writer t true) :=
  World.evaluate_call (w.exec_publishTask_ok h)

theorem evaluate_terminateItem (h : item.storageMeta = some msg) :
    w.evaluate n writer (Storage.terminateItem item) = some (none, w.removeItem n msg) := by
  simp only [Storage.terminateItem, Storage.withMeta, h]
  rfl

theorem evaluate_nakBlockedItem (h : item.storageMeta = some msg) :
    w.evaluate n writer (Storage.nakBlockedItem item) =
      some (none, w.delayItem msg Storage.defaultBlockedNakTime) := by
  simp only [Storage.nakBlockedItem, Storage.withMeta, h]
  rfl

/-- A task as `setTaskActive` saves it. -/
def Copy.activated (t : Copy) (now : Int) : Copy :=
  { t with state := .active, lastTriedAt := some now, lastErr := "" }

theorem evaluate_startHandler {t : Copy} (h : w.accepts t = true) :
    w.evaluate n .worker (Processor.startHandler item t) =
      some (none, (w.store n .worker (t.activated w.clock) true).beginHandler n
        (w.savedCopy (t.activated w.clock)) item) := by
  have hactive : w.evaluate n .worker (Client.setTaskActive t) =
      some ((none, w.savedCopy (t.activated w.clock)),
        w.store n .worker (t.activated w.clock) true) :=
    evaluate_saveTaskState (t := t.activated w.clock) h
  rw [Processor.startHandler, World.evaluate_bind hactive]
  rfl

/-- A task as `handleTaskError` saves it when its dependencies failed. -/
def Copy.unreachableSince (t : Copy) (lastErr : String) (now : Int) : Copy :=
  { t with lastErr := lastErr, lastTriedAt := some now, state := .unreachable }

/-- With failed dependencies the record is saved as unreachable, or discarded. -/
theorem evaluate_handleTaskError {c : Client} {t : Copy} {err : Error}
    (herr : err.is .taskDependenciesFailed = true) :
    w.evaluate n writer (c.handleTaskError t err) = w.evaluate n writer
      (c.saveOrDiscardTaskIfDesired (t.unreachableSince err.text w.clock)) := by
  have hstate : c.errorState t.toTask err = .unreachable := if_pos herr
  show w.evaluate n writer (c.saveOrDiscardTaskIfDesired { t with
    lastErr := err.text, lastTriedAt := some w.clock, state := c.errorState t.toTask err }) = _
  rw [hstate]
  rfl

theorem evaluate_save_unlessDiscarded (n : Nat) (writer : Writer) {c : Client} {t : Copy}
    (hkept : c.opts.discard.contains t.state = false) (h : w.accepts t = true) :
    w.evaluate n writer (c.saveOrDiscardTaskIfDesired t) =
      some ((none, w.savedCopy t), w.store n writer t true) := by
  rw [Client.saveOrDiscardTaskIfDesired, Client.shouldDiscardTask, hkept]
  exact evaluate_saveTaskState h

/-- A discarded record is gone; nothing but the lookup and the delete is logged. -/
theorem evaluate_discard (n : Nat) (writer : Writer) {c : Client} {t : Copy}
    (hdiscarded : c.opts.discard.contains t.state = true)
    {m : StoredTask} (hread : w.readLast t.id = some m) (hmem : m ∈ w.tasks) :
    ∃ found, w.evaluate n writer (c.saveOrDiscardTaskIfDesired t) =
      some ((none, t), (w.note (.read n writer .delete m w.clock)).removeTask found
        (.deleted n found)) ∧ found.seq = m.seq := by
  obtain ⟨found, hfound⟩ : ∃ found, (w.tasks.find? fun r => r.seq = m.seq) = some found := by
    rw [← Option.isSome_iff_exists, List.find?_isSome]
    exact ⟨m, hmem, decide_eq_true rfl⟩
  have hseq : found.seq = m.seq := by simpa using List.find?_some hfound
  refine ⟨found, ?_, hseq⟩
  have hdelete : (w.note (.read n writer .delete m w.clock)).exec n writer
      (.deleteMessage m.seq) .ok = some (none,
        (w.note (.read n writer .delete m w.clock)).removeTask found (.deleted n found)) :=
    World.exec_deleteMessage_found hfound
  have hremoved : w.evaluate n writer (Storage.deleteTaskByID t.id) = some (none,
      (w.note (.read n writer .delete m w.clock)).removeTask found (.deleted n found)) :=
    (World.evaluate_call (World.exec_readLast_ok hread)).trans (World.evaluate_call hdelete)
  rw [Client.saveOrDiscardTaskIfDesired, Client.shouldDiscardTask, hdiscarded]
  exact World.evaluate_bind hremoved

/-- What `handleTaskError` leaves of the record of a task that is given up. -/
inductive GivesUp (c : Client) (w : World) (n : Nat) (t : Copy) (m : StoredTask) : World → Prop
  | stored (hkept : c.opts.discard.contains .unreachable = false) (lastErr : String) :
      GivesUp c w n t m (w.store n .worker (t.unreachableSince lastErr w.clock) true)
  | discarded (hdiscarded : c.opts.discard.contains .unreachable = true) {found : StoredTask}
      (hseq : found.seq = m.seq) :
      GivesUp c w n t m
        ((w.note (.read n .worker .delete m w.clock)).removeTask found (.deleted n found))

theorem evaluate_giveUp (c : Client) (n : Nat) {t : Copy} {m : StoredTask} {err : Error}
    (herr : err.is .taskDependenciesFailed = true) (haccepts : w.accepts t = true)
    (hread : w.readLast t.id = some m) (hmem : m ∈ w.tasks) :
    ∃ r v, w.evaluate n .worker (c.handleTaskError t err) = some (r, v) ∧
      GivesUp c w n t m v := by
  rw [evaluate_handleTaskError herr]
  cases hdiscard : c.opts.discard.contains .unreachable with
  | false =>
    have hsave := evaluate_save_unlessDiscarded n .worker
      (t := t.unreachableSince err.text w.clock) hdiscard haccepts
    exact ⟨_, _, hsave, .stored hdiscard err.text⟩
  | true =>
    obtain ⟨found, hrun, hseq⟩ := evaluate_discard n .worker
      (t := t.unreachableSince err.text w.clock) hdiscard hread hmem
    exact ⟨_, _, hrun, .discarded hdiscard hseq⟩

end Requests

section Gate

variable {p : Processor} {w : World} {n : Nat} {item : ProcessItem} {msg : MsgRef} {t : Copy}
  {m : StoredTask}

theorem evaluate_processDependencies_fail (hitem : item.storageMeta = some msg)
    (hverify : ∀ d ∈ t.dependencies, ∀ r, w.readLast d = some r →
      p.c.verifyTaskSignature r.task = .ok ())
    (haccepts : w.accepts t = true) (hread : w.readLast t.id = some m) (hmem : m ∈ w.tasks)
    (hfails : t.dependencies.any w.dependencyFails = true) :
    ∃ found results err t' v,
      w.evaluate n .worker (p.processDependencies item t) = some ((false, some err, t'), v) ∧
      GivesUp p.c ((w.afterReads n .worker found).removeItem n msg) n (t.withResults results) m
        v := by
  obtain ⟨found, hloop⟩ := evaluate_loadDependencies (n := n) t true hverify
  obtain ⟨err, results, hsettle, -⟩ := settle_fails hfails t true
  rw [hsettle] at hloop
  have herr : (Processor.dependenciesFailed err).is .taskDependenciesFailed = true := rfl
  obtain ⟨r, v, hgiveUp, hleft⟩ := evaluate_giveUp p.c n (t := t.withResults results)
    (w := (w.afterReads n .worker found).removeItem n msg) herr haccepts hread hmem
  rw [Processor.processDependencies, World.evaluate_bind hloop]
  cases err with
  | some e =>
    refine ⟨found, results, e, r.2, v, ?_, hleft⟩
    refine (World.evaluate_bind (evaluate_terminateItem hitem)).trans ?_
    exact World.evaluate_bind hgiveUp
  | none =>
    refine ⟨found, results, Sentinel.taskDependenciesFailed.error, r.2, v, ?_, hleft⟩
    refine (World.evaluate_bind (evaluate_terminateItem hitem)).trans ?_
    exact World.evaluate_bind hgiveUp

/-- No dependency fails and some are not complete: the item is delivered again later. -/
theorem evaluate_processDependencies_wait (hitem : item.storageMeta = some msg)
    (hverify : ∀ d ∈ t.dependencies, ∀ r, w.readLast d = some r →
      p.c.verifyTaskSignature r.task = .ok ())
    (hfails : t.dependencies.any w.dependencyFails = false)
    (hcomplete : t.dependencies.all w.dependencyComplete = false) :
    ∃ found t', w.evaluate n .worker (p.processDependencies item t) = some ((false, none, t'),
      (w.afterReads n .worker found).delayItem msg Storage.defaultBlockedNakTime) := by
  obtain ⟨found, hloop⟩ := evaluate_loadDependencies (n := n) t true hverify
  rw [settle_open hfails, hcomplete] at hloop
  rw [Processor.processDependencies, World.evaluate_bind hloop]
  exact ⟨found, _, World.evaluate_bind (evaluate_nakBlockedItem hitem)⟩

theorem evaluate_processDependencies_start (n : Nat) (item : ProcessItem)
    (hverify : ∀ d ∈ t.dependencies, ∀ r, w.readLast d = some r →
      p.c.verifyTaskSignature r.task = .ok ())
    (hfails : t.dependencies.any w.dependencyFails = false)
    (hcomplete : t.dependencies.all w.dependencyComplete = true) :
    ∃ found, w.evaluate n .worker (p.processDependencies item t) = some ((true, none,
      t.withResults (collectResults w t.loadDependencies t.dependencyResults t.dependencies)),
      w.afterReads n .worker found) := by
  obtain ⟨found, hloop⟩ := evaluate_loadDependencies (n := n) t true hverify
  rw [settle_open hfails, hcomplete] at hloop
  rw [Processor.processDependencies, World.evaluate_bind hloop]
  exact ⟨found, rfl⟩

end Gate

/-- A worker takes an item of a task that is blocked, within its deadline and its tries, and
whose dependencies can be loaded as far as they are stored. -/
structure BlockedTurn (p : Processor) (w : World) (item : ProcessItem) (msg : MsgRef)
    (m : StoredTask) : Prop where
  delivered : item.storageMeta = some msg
  named : World.isWildcard item.jobID = false
  distinct : w.tasks.Pairwise fun a b => a.task.id ≠ b.task.id
  stored : w.stored item.jobID = some m
  verifies : p.c.verifyTaskSignature m.task = .ok ()
  blocked : m.task.state = .blocked
  inTime : m.task.isPastDeadline w.clock = false
  triesLeft : ¬ (0 < m.task.maxTries ∧ m.task.maxTries ≤ m.task.tries)
  loads : ∀ d ∈ m.task.dependencies, ∀ r, w.readLast d = some r →
    p.c.verifyTaskSignature r.task = .ok ()

def StoredTask.loaded (m : StoredTask) : Copy := ⟨m.task, some m.seq⟩

/-- The copy the handler is started with, but for the revision. -/
def World.startedCopy (w : World) (m : StoredTask) : Copy :=
  (m.loaded.withResults (collectResults w m.task.loadDependencies m.task.dependencyResults
    m.task.dependencies)).activated w.clock

/-- The world after a worker loaded the task and looked up dependencies. -/
def World.afterLoads (w : World) (n : Nat) (m : StoredTask) (found : List StoredTask) : World :=
  (w.note (.read n .worker .task m w.clock)).afterReads n .worker found

/-- What one processing comes to: the choice and the world it leaves. -/
inductive GateResult (p : Processor) (w : World) (n : Nat) (item : ProcessItem) (msg : MsgRef)
    (m : StoredTask) : GateChoice → World → Prop
  | start (found : List StoredTask) :
      GateResult p w n item msg m .start
        (((w.afterLoads n m found).store n .worker (w.startedCopy m) true).beginHandler n
          (w.savedCopy (w.startedCopy m)) item)
  | fail (found : List StoredTask) (results : List (String × Option TaskResult)) {v : World}
      (hleft : GivesUp p.c ((w.afterLoads n m found).removeItem n msg) n
        (m.loaded.withResults results) m v) :
      GateResult p w n item msg m .fail (v.releaseDelivery n)
  | wait (found : List StoredTask) :
      GateResult p w n item msg m .wait
        (((w.afterLoads n m found).delayItem msg Storage.defaultBlockedNakTime).releaseDelivery n)

namespace BlockedTurn

variable {p : Processor} {w : World} {item : ProcessItem} {msg : MsgRef} {m : StoredTask}

theorem read (h : BlockedTurn p w item msg m) : w.readLast item.jobID = some m := by
  rw [World.readLast, h.named]
  exact h.stored

theorem id (h : BlockedTurn p w item msg m) : m.task.id = item.jobID :=
  World.stored_id h.stored

theorem accepts (h : BlockedTurn p w item msg m) : w.accepts m.loaded = true := by
  have hstored : w.stored m.task.id = some m := by rw [h.id, h.stored]
  simp [World.accepts, World.lastSubjectSeq, StoredTask.loaded, hstored]

theorem evaluate_processMessage (h : BlockedTurn p w item msg m) (n : Nat) :
    w.evaluate n .worker (p.processMessage item) =
      (w.note (.read n .worker .task m w.clock)).evaluate n .worker
        (p.checkDependencies item m.loaded) := by
  have hstate : p.checkState item m.loaded = .ret none := by
    have hblocked : m.loaded.state = .blocked := h.blocked
    simp only [Processor.checkState, hblocked]
    rfl
  have hlimits : (w.note (.read n .worker .task m w.clock)).evaluate n .worker
      (p.checkLimits m.loaded) = some (none, w.note (.read n .worker .task m w.clock)) := by
    show World.evaluate _ n .worker (if m.task.isPastDeadline w.clock then _
      else if 0 < m.task.maxTries ∧ m.task.maxTries ≤ m.task.tries then _ else _) = _
    rw [h.inTime, if_neg h.triesLeft]
    rfl
  rw [Processor.processMessage, World.evaluate_bind (evaluate_load_found h.read h.verifies)]
  show World.evaluate _ n .worker (p.checkState item m.loaded >>= _) = _
  rw [hstate]
  exact World.evaluate_bind hlimits

/-- A task that may not run now gives the token back, whichever way `processMessage` returns. -/
theorem evaluate_held (h : BlockedTurn p w item msg m) {n : Nat}
    (hdependent : m.task.hasDependencies = true) {err : Option Error} {t : Copy} {v : World}
    (hgate : (w.note (.read n .worker .task m w.clock)).evaluate n .worker
      (p.processDependencies item m.loaded) = some ((false, err, t), v)) :
    w.evaluate n .worker (p.processItem item) = some ((), v.releaseDelivery n) := by
  have hmessage := h.evaluate_processMessage n
  rw [Processor.checkDependencies, if_pos ⟨h.blocked, hdependent⟩,
    World.evaluate_bind hgate] at hmessage
  cases hfilter : err.filter (·.is .taskDependenciesFailed) with
  | some e =>
    simp only [hfilter] at hmessage
    exact World.evaluate_bind hmessage
  | none =>
    simp only [hfilter] at hmessage
    exact World.evaluate_bind hmessage

theorem evaluate_started (h : BlockedTurn p w item msg m) {n : Nat}
    (hfails : m.task.dependencies.any w.dependencyFails = false)
    (hcomplete : m.task.dependencies.all w.dependencyComplete = true) :
    ∃ w', w.evaluate n .worker (p.processItem item) = some ((), w') ∧
      GateResult p w n item msg m .start w' := by
  obtain ⟨found, hcheck⟩ : ∃ found, (w.note (.read n .worker .task m w.clock)).evaluate n .worker
      (p.checkDependencies item m.loaded) = some (none,
        ((w.afterLoads n m found).store n .worker (w.startedCopy m) true).beginHandler n
          (w.savedCopy (w.startedCopy m)) item) := by
    cases hdependent : m.task.hasDependencies with
    | true =>
      obtain ⟨found, hgate⟩ := evaluate_processDependencies_start n item
        (w := w.note (.read n .worker .task m w.clock)) (t := m.loaded) h.loads hfails hcomplete
      refine ⟨found, ?_⟩
      rw [Processor.checkDependencies, if_pos ⟨h.blocked, hdependent⟩, World.evaluate_bind hgate]
      exact evaluate_startHandler (w := w.afterLoads n m found) h.accepts
    | false =>
      have hnone : m.task.dependencies = [] := by
        simpa [Task.hasDependencies] using hdependent
      have hcopy : w.startedCopy m = m.loaded.activated w.clock := by
        rw [World.startedCopy, hnone]
        rfl
      have hskip : ¬ (m.loaded.state = .blocked ∧ m.loaded.hasDependencies = true) := by
        intro hboth
        exact Bool.false_ne_true (hdependent.symm.trans hboth.2)
      refine ⟨[], ?_⟩
      rw [Processor.checkDependencies, if_neg hskip, hcopy]
      exact evaluate_startHandler (w := w.note (.read n .worker .task m w.clock)) h.accepts
  have hmessage := (h.evaluate_processMessage n).trans hcheck
  exact ⟨_, World.evaluate_bind hmessage, .start found⟩

theorem evaluate (h : BlockedTurn p w item msg m) (n : Nat) :
    ∃ w', w.evaluate n .worker (p.processItem item) = some ((), w') ∧
      GateResult p w n item msg m (w.gate m.task.dependencies) w' := by
  have hdependent : m.task.dependencies ≠ [] → m.task.hasDependencies = true := by
    intro hne
    exact decide_eq_true (List.length_pos_of_ne_nil hne)
  unfold World.gate
  cases hfails : m.task.dependencies.any w.dependencyFails with
  | true =>
    have hne : m.task.dependencies ≠ [] := by
      intro hnil
      rw [hnil] at hfails
      cases hfails
    have hmem : m ∈ w.tasks := List.mem_of_find?_eq_some h.stored
    have hread : w.readLast m.loaded.id = some m := (congrArg w.readLast h.id).trans h.read
    obtain ⟨found, results, err, t, v, hgate, hleft⟩ := evaluate_processDependencies_fail (n := n)
      (w := w.note (.read n .worker .task m w.clock)) h.delivered h.loads h.accepts hread hmem
      hfails
    exact ⟨_, h.evaluate_held (hdependent hne) hgate, .fail found results hleft⟩
  | false =>
    cases hcomplete : m.task.dependencies.all w.dependencyComplete with
    | true => exact h.evaluate_started hfails hcomplete
    | false =>
      have hne : m.task.dependencies ≠ [] := by
        intro hnil
        rw [hnil] at hcomplete
        cases hcomplete
      obtain ⟨found, t, hgate⟩ := evaluate_processDependencies_wait (n := n) (t := m.loaded)
        (w := w.note (.read n .worker .task m w.clock)) h.delivered h.loads hfails hcomplete
      exact ⟨_, h.evaluate_held (hdependent hne) hgate, .wait found⟩

end BlockedTurn

def World.Logs (w w' : World) (e : Event) : Prop := ∃ es, w'.log = es ++ w.log ∧ e ∈ es

theorem World.logs_iff {w w' : World} {es : List Event} (h : w'.log = es ++ w.log) (e : Event) :
    w.Logs w' e ↔ e ∈ es := by
  constructor
  · intro ⟨es', hes', he⟩
    rw [h] at hes'
    rwa [List.append_cancel_right hes']
  · intro he
    exact ⟨es, h, he⟩

/-- What is seen of a choice: a handler is started; the item is terminated and the task stored
as unreachable; or the item is delayed and the stored tasks are as they were. -/
def GateChoice.Made (w w' : World) (n : Nat) (item : ProcessItem) (msg : MsgRef) :
    GateChoice → Prop
  | .start => ∃ next t, w.Logs w' (.started n next t item)
  | .fail => w.Logs w' (.removed n msg) ∧ w'.items = (w.removeItem n msg).items ∧
      ∃ r, w'.stored item.jobID = some r ∧ r.task.state = .unreachable
  | .wait => w'.items = (w.delayItem msg Storage.defaultBlockedNakTime).items ∧
      w'.tasks = w.tasks

section Made

variable {p : Processor} {w w' : World} {n : Nat} {item : ProcessItem} {msg : MsgRef}
  {m : StoredTask} {choice : GateChoice}

theorem BlockedTurn.tasks_ne (h : BlockedTurn p w item msg m) {r : StoredTask}
    (hr : w'.stored item.jobID = some r) (hstate : r.task.state ≠ .blocked) :
    w'.tasks ≠ w.tasks := by
  intro hsame
  rw [World.stored, hsame] at hr
  cases h.stored.symm.trans hr
  exact hstate h.blocked

def loadEvents (w : World) (n : Nat) (m : StoredTask) (found : List StoredTask) : List Event :=
  (found.map fun r => .read n .worker .dependency r w.clock) ++ [.read n .worker .task m w.clock]

theorem afterLoads_log (w : World) (n : Nat) (m : StoredTask) (found : List StoredTask) :
    (w.afterLoads n m found).log = loadEvents w n m found ++ w.log := by
  simp [World.afterLoads, World.afterReads, World.note, loadEvents]

theorem started_notMem_loadEvents (found : List StoredTask) (k next : Nat) (t : Copy)
    (item : ProcessItem) : Event.started k next t item ∉ loadEvents w n m found := by
  simp [loadEvents]

theorem removed_notMem_loadEvents (found : List StoredTask) (k : Nat) (msg : MsgRef) :
    Event.removed k msg ∉ loadEvents w n m found := by
  simp [loadEvents]

theorem started_log (w : World) (n : Nat) (item : ProcessItem) (m : StoredTask)
    (found : List StoredTask) :
    (((w.afterLoads n m found).store n .worker (w.startedCopy m) true).beginHandler n
        (w.savedCopy (w.startedCopy m)) item).log =
      (.started n w.nextCopy (w.savedCopy (w.startedCopy m)) item ::
        .saved n .worker (w.stored m.task.id) ⟨w.lastSeq + 1, (w.startedCopy m).toTask⟩ true ::
        loadEvents w n m found) ++ w.log := by
  show _ :: _ :: (w.afterLoads n m found).log = _
  rw [afterLoads_log]
  rfl

theorem made_started (h : BlockedTurn p w item msg m) (found : List StoredTask)
    (other : GateChoice) : other.Made w
      (((w.afterLoads n m found).store n .worker (w.startedCopy m) true).beginHandler n
        (w.savedCopy (w.startedCopy m)) item) n item msg ↔ other = .start := by
  have hlog := started_log w n item m found
  have hstored : (((w.afterLoads n m found).store n .worker (w.startedCopy m) true).beginHandler n
      (w.savedCopy (w.startedCopy m)) item).stored item.jobID =
        some ⟨w.lastSeq + 1, (w.startedCopy m).toTask⟩ := by
    rw [← h.id]
    exact (w.afterLoads n m found).stored_store_self n .worker (w.startedCopy m)
  cases other with
  | start =>
    simp only [GateChoice.Made, World.logs_iff hlog, iff_true]
    exact ⟨_, _, List.mem_cons_self ..⟩
  | fail => simp [GateChoice.Made, World.logs_iff hlog, removed_notMem_loadEvents]
  | wait =>
    simp only [GateChoice.Made, reduceCtorEq, iff_false]
    intro hwait
    exact h.tasks_ne hstored nofun hwait.2

theorem made_wait (found : List StoredTask) (other : GateChoice) : other.Made w
    (((w.afterLoads n m found).delayItem msg Storage.defaultBlockedNakTime).releaseDelivery n) n
      item msg ↔ other = .wait := by
  have hlog : (((w.afterLoads n m found).delayItem msg
      Storage.defaultBlockedNakTime).releaseDelivery n).log = loadEvents w n m found ++ w.log :=
    afterLoads_log w n m found
  cases other with
  | start => simp [GateChoice.Made, World.logs_iff hlog, started_notMem_loadEvents]
  | fail => simp [GateChoice.Made, World.logs_iff hlog, removed_notMem_loadEvents]
  | wait => exact iff_of_true ⟨rfl, rfl⟩ rfl

theorem made_givenUp (h : BlockedTurn p w item msg m) (found : List StoredTask) {t : Copy}
    (ht : t.id = m.task.id) (hstate : t.state = .unreachable) (other : GateChoice) :
    other.Made w ((((w.afterLoads n m found).removeItem n msg).store n .worker t
      true).releaseDelivery n) n item msg ↔ other = .fail := by
  have hstored : ((((w.afterLoads n m found).removeItem n msg).store n .worker t
      true).releaseDelivery n).stored item.jobID = some ⟨w.lastSeq + 1, t.toTask⟩ := by
    rw [← h.id, ← ht]
    exact World.stored_store_self _ n .worker t
  have hlog : ((((w.afterLoads n m found).removeItem n msg).store n .worker t
      true).releaseDelivery n).log = (.saved n .worker (w.stored t.id)
        ⟨w.lastSeq + 1, t.toTask⟩ true :: .removed n msg :: loadEvents w n m found) ++ w.log := by
    show _ :: _ :: (w.afterLoads n m found).log = _
    rw [afterLoads_log]
    rfl
  cases other with
  | start => simp [GateChoice.Made, World.logs_iff hlog, started_notMem_loadEvents]
  | fail =>
    simp only [GateChoice.Made, World.logs_iff hlog, iff_true]
    exact ⟨List.mem_cons_of_mem _ (List.mem_cons_self ..), rfl, _, hstored, hstate⟩
  | wait =>
    simp only [GateChoice.Made, reduceCtorEq, iff_false]
    intro hwait
    exact h.tasks_ne hstored (by simp [hstate]) hwait.2

theorem made_discarded (h : BlockedTurn p w item msg m) (found : List StoredTask)
    {removed : StoredTask} (hseq : removed.seq = m.seq) (other : GateChoice) :
    ¬ other.Made w (((((w.afterLoads n m found).removeItem n msg).note
      (.read n .worker .delete m w.clock)).removeTask removed (.deleted n removed)).releaseDelivery
        n) n item msg := by
  have hremoved : m ∉ w.tasks.filter fun r => r.seq ≠ removed.seq := by
    intro hm
    exact of_decide_eq_true (List.mem_filter.mp hm).2 hseq.symm
  have hlog : (((((w.afterLoads n m found).removeItem n msg).note
      (.read n .worker .delete m w.clock)).removeTask removed (.deleted n removed)).releaseDelivery
        n).log = (.deleted n removed :: .read n .worker .delete m w.clock :: .removed n msg ::
          loadEvents w n m found) ++ w.log := by
    show _ :: _ :: _ :: (w.afterLoads n m found).log = _
    rw [afterLoads_log]
    rfl
  cases other with
  | start => simp [GateChoice.Made, World.logs_iff hlog, started_notMem_loadEvents]
  | fail =>
    intro ⟨_, _, r, hstored, _⟩
    have hmem := List.mem_of_find?_eq_some hstored
    have hother := (World.stored_eq_some_iff h.distinct).mpr
      ⟨(List.mem_filter.mp hmem).1, World.stored_id hstored⟩
    cases h.stored.symm.trans hother
    exact hremoved hmem
  | wait =>
    intro ⟨_, htasks⟩
    have hsame : (w.tasks.filter fun r => r.seq ≠ removed.seq) = w.tasks := htasks
    rw [hsame] at hremoved
    exact hremoved (List.mem_of_find?_eq_some h.stored)

theorem GateResult.made_iff (h : BlockedTurn p w item msg m)
    (hresult : GateResult p w n item msg m choice w') (other : GateChoice) :
    other.Made w w' n item msg ↔ other = choice ∧
      (choice = .fail → p.c.opts.discard.contains .unreachable = false) := by
  cases hresult with
  | start found => simp [made_started h found]
  | wait found => simp [made_wait found]
  | fail found results hleft =>
    cases hleft with
    | stored hkept lastErr =>
      rw [made_givenUp h found rfl rfl]
      exact (and_iff_left fun _ => hkept).symm
    | discarded hdiscarded hseq =>
      refine iff_of_false (made_discarded h found hseq other) ?_
      intro hkept
      rw [hkept.2 rfl] at hdiscarded
      cases hdiscarded

end Made

/-- What the gate is for: it makes the intended choice and no other, and the handler of a task
that loads its dependencies gets exactly their stored results. -/
structure GateLaw (w w' : World) (n : Nat) (item : ProcessItem) (msg : MsgRef) (m : StoredTask) :
    Prop where
  choice : ∀ choice : GateChoice,
    choice.Made w w' n item msg ↔ choice = w.intendedGate m.task.dependencies
  results : ∀ next t, w.Logs w' (.started n next t item) → m.task.loadDependencies = true →
    ∀ d result, t.dependencyResults.lookup d = some result ↔
      d ∈ m.task.dependencies ∧ ∃ r, w.readLast d = some r ∧ r.task.result = result

/-- When it does that: with an unreachable dependency another one fails as well; the client
keeps unreachable tasks; and a task that is started with results was stored without results
under other names, and names its dependencies by their IDs. -/
structure GateCondition (p : Processor) (w : World) (m : StoredTask) : Prop where
  reachable : m.task.dependencies.any w.dependencyUnreachable = true →
    m.task.dependencies.any w.dependencyFails = true
  kept : m.task.dependencies.any w.dependencyFails = true →
    p.c.opts.discard.contains .unreachable = false
  results : m.task.dependencies.all w.dependencyComplete = true →
    m.task.loadDependencies = true → m.task.plainDependencies = true ∧
      ∀ key, key ∉ m.task.dependencies → m.task.dependencyResults.lookup key = none

section Law

variable {p : Processor} {w w' : World} {n : Nat} {item : ProcessItem} {msg : MsgRef}
  {m : StoredTask}

theorem gate_eq_fail_iff {ds : List String} :
    w.gate ds = .fail ↔ ds.any w.dependencyFails = true := by
  unfold World.gate
  cases ds.any w.dependencyFails <;> cases ds.all w.dependencyComplete <;> simp

theorem gate_eq_start {ds : List String} (h : w.gate ds = .start) :
    ds.any w.dependencyFails = false ∧ ds.all w.dependencyComplete = true := by
  unfold World.gate at h
  cases hfails : ds.any w.dependencyFails <;> cases hcomplete : ds.all w.dependencyComplete <;>
    simp_all

theorem intendedGate_eq_iff {ds : List String} : w.intendedGate ds = w.gate ds ↔
    (ds.any w.dependencyUnreachable = true → ds.any w.dependencyFails = true) := by
  have hany : (ds.any fun d => w.dependencyFails d || w.dependencyUnreachable d) =
      (ds.any w.dependencyFails || ds.any w.dependencyUnreachable) := by
    induction ds with
    | nil => rfl
    | cons d ds ih =>
      rw [List.any_cons, List.any_cons, List.any_cons, ih]
      cases w.dependencyFails d <;> cases w.dependencyUnreachable d <;> simp
  unfold World.intendedGate World.gate
  rw [hany]
  cases ds.any w.dependencyFails <;> cases ds.any w.dependencyUnreachable <;>
    cases ds.all w.dependencyComplete <;> simp

theorem GateResult.choice_iff (h : BlockedTurn p w item msg m)
    (hresult : GateResult p w n item msg m (w.gate m.task.dependencies) w') :
    (∀ choice : GateChoice,
      choice.Made w w' n item msg ↔ choice = w.intendedGate m.task.dependencies) ↔
    ((m.task.dependencies.any w.dependencyUnreachable = true →
        m.task.dependencies.any w.dependencyFails = true) ∧
      (m.task.dependencies.any w.dependencyFails = true →
        p.c.opts.discard.contains .unreachable = false)) := by
  rw [← intendedGate_eq_iff, ← gate_eq_fail_iff]
  simp only [hresult.made_iff h]
  constructor
  · intro hlaw
    exact (hlaw _).mpr rfl
  · intro ⟨hsame, hkept⟩ choice
    rw [hsame]
    exact and_iff_left hkept

theorem GateResult.started_results (h : BlockedTurn p w item msg m) {choice : GateChoice}
    (hresult : GateResult p w n item msg m choice w') {next : Nat} {t : Copy}
    (hstarted : w.Logs w' (.started n next t item)) :
    choice = .start ∧ t.dependencyResults = collectResults w m.task.loadDependencies
      m.task.dependencyResults m.task.dependencies := by
  obtain ⟨rfl, -⟩ := (hresult.made_iff h .start).mp ⟨next, t, hstarted⟩
  refine ⟨rfl, ?_⟩
  cases hresult with
  | start found =>
    rw [World.logs_iff (started_log w n item m found)] at hstarted
    rcases List.mem_cons.mp hstarted with heq | hmem
    · cases heq
      rfl
    · simp [started_notMem_loadEvents] at hmem

/-- The collected results are those of the dependencies if nothing else was stored. -/
theorem collectResults_exact (hplain : m.task.plainDependencies = true)
    (hcomplete : m.task.dependencies.all w.dependencyComplete = true) :
    (∀ d result, (collectResults w true m.task.dependencyResults m.task.dependencies).lookup d =
        some result ↔
      d ∈ m.task.dependencies ∧ ∃ r, w.readLast d = some r ∧ r.task.result = result) ↔
    ∀ key, key ∉ m.task.dependencies → m.task.dependencyResults.lookup key = none := by
  have hnames : ∀ d ∈ m.task.dependencies, World.isWildcard d = false := by
    intro d hd
    simpa using List.all_eq_true.mp hplain d hd
  have hlookup := lookup_collectResults hnames (List.all_eq_true.mp hcomplete)
    m.task.dependencyResults
  simp only [hlookup]
  constructor
  · intro hexact key hkey
    cases hstale : m.task.dependencyResults.lookup key with
    | none => rfl
    | some result =>
      have hnamed := (hexact key result).mp (by rw [if_neg hkey, hstale])
      exact absurd hnamed.1 hkey
  · intro hstale d result
    by_cases hd : d ∈ m.task.dependencies
    · simp [hd]
    · simp [hd, hstale d hd]

theorem all_complete_fails {ds : List String} (h : ds.all w.dependencyComplete = true) :
    ds.any w.dependencyFails = false := by
  rw [List.any_eq_false]
  intro d hd
  have hcomplete : w.dependencyState d = some .completed :=
    of_decide_eq_true (List.all_eq_true.mp h d hd)
  simp [World.dependencyFails, hcomplete, World.endsWaiting]

theorem GateResult.law (h : BlockedTurn p w item msg m)
    (hresult : GateResult p w n item msg m (w.gate m.task.dependencies) w')
    (hcondition : GateCondition p w m) : GateLaw w w' n item msg m where
  choice := (hresult.choice_iff h).mpr ⟨hcondition.reachable, hcondition.kept⟩
  results next t hstarted hload := by
    obtain ⟨hstart, hresults⟩ := hresult.started_results h hstarted
    obtain ⟨-, hcomplete⟩ := gate_eq_start hstart
    obtain ⟨hplain, hstale⟩ := hcondition.results hcomplete hload
    rw [hresults, hload]
    exact (collectResults_exact hplain hcomplete).mpr hstale

theorem GateResult.condition (h : BlockedTurn p w item msg m)
    (hresult : GateResult p w n item msg m (w.gate m.task.dependencies) w')
    (hplain : m.task.plainDependencies = true) (hlaw : GateLaw w w' n item msg m) :
    GateCondition p w m := by
  obtain ⟨hreachable, hkept⟩ := (hresult.choice_iff h).mp hlaw.choice
  refine ⟨hreachable, hkept, fun hcomplete hload => ⟨hplain, ?_⟩⟩
  have hgate : w.gate m.task.dependencies = .start := by
    rw [World.gate, all_complete_fails hcomplete, hcomplete]
    rfl
  have hmade : GateChoice.start.Made w w' n item msg := by
    rw [hresult.made_iff h]
    exact ⟨hgate.symm, fun hfail => nomatch hgate.symm.trans hfail⟩
  obtain ⟨next, t, hstarted⟩ := hmade
  have hexact := hlaw.results next t hstarted hload
  rw [(hresult.started_results h hstarted).2, hload] at hexact
  exact (collectResults_exact hplain hcomplete).mp hexact

/-- The choice depends on the states of the dependencies, not on their order. -/
theorem gate_eq_of_perm {v : World} {ds ds' : List String} (hperm : ds'.Perm ds)
    (hstates : ∀ d ∈ ds, v.dependencyState d = w.dependencyState d) : v.gate ds' = w.gate ds := by
  have hmap : (ds'.map v.dependencyState).Perm (ds.map w.dependencyState) := by
    rw [← List.map_congr_left hstates]
    exact hperm.map _
  have hfails : ds'.any v.dependencyFails = ds.any w.dependencyFails := by
    have hany := hmap.any_eq (f := fun
      | none => true
      | some state => World.endsWaiting state)
    rwa [List.any_map, List.any_map] at hany
  have hcomplete : ds'.all v.dependencyComplete = ds.all w.dependencyComplete := by
    have hall := hmap.all_eq (f := fun state => decide (state = some .completed))
    rwa [List.all_map, List.all_map] at hall
  unfold World.gate
  rw [hfails, hcomplete]

end Law

/-- One processing of the item of a blocked task that is within its deadline and tries, with
every dependency loadable or missing, returns. It does what the gate is for if the condition
holds and, for dependencies named by their IDs, only then. And its choice is the one made for
the same dependencies in any other order. -/
theorem blocked_task_gate (p : Processor) (w : World) (n : Nat) (item : ProcessItem) (msg : MsgRef)
    (m : StoredTask) (h : BlockedTurn p w item msg m) :
    ∃ w', w.evaluate n .worker (p.processItem item) = some ((), w') ∧
      (GateCondition p w m → GateLaw w w' n item msg m) ∧
      (m.task.plainDependencies = true → GateLaw w w' n item msg m → GateCondition p w m) ∧
      ∀ v r, BlockedTurn p v item msg r → r.task.dependencies.Perm m.task.dependencies →
        (∀ d ∈ m.task.dependencies, v.dependencyState d = w.dependencyState d) →
        ∃ v', v.evaluate n .worker (p.processItem item) = some ((), v') ∧
          ∀ choice : GateChoice,
            choice.Made v v' n item msg ↔ choice.Made w w' n item msg := by
  obtain ⟨w', hrun, hresult⟩ := h.evaluate n
  refine ⟨w', hrun, hresult.law h, hresult.condition h, ?_⟩
  intro v r hr hperm hstates
  obtain ⟨v', hrun', hresult'⟩ := hr.evaluate n
  refine ⟨v', hrun', fun choice => ?_⟩
  rw [hresult'.made_iff hr, hresult.made_iff h, gate_eq_of_perm hperm hstates]

def waitingTask : StoredTask :=
  ⟨2, { sampleTask with
    id := "T2", queue := "EMAIL", dependencies := ["T1"], loadDependencies := true
    state := .blocked }⟩

/-- Its item was delivered while the sample task is stored in this state. -/
def waitingWorld (state : TaskState) : World :=
  { World.init 100 with
    lastSeq := 2
    tasks := [waitingTask, ⟨1, { sampleTask with
      queue := "EMAIL", state := state, result := some ⟨"sent", 50⟩ }⟩]
    itemSeq := 1
    items := [⟨"EMAIL", "T2", 1, 1, 160⟩]
    deliveries := [⟨0, "T2", ⟨"EMAIL", 1, 1⟩⟩]
    nextCopy := 1 }

def waitingItem : ProcessItem := ⟨"T2", some ⟨"EMAIL", 1, 1⟩⟩

/-- With its dependency complete the task is started with the result of it. -/
theorem blocked_task_gate_complete :
    GateCondition ⟨sampleClient⟩ (waitingWorld .completed) waitingTask ∧
    ∃ w', (waitingWorld .completed).evaluate 0 .worker
        (Processor.processItem ⟨sampleClient⟩ waitingItem) = some ((), w') ∧
      GateLaw (waitingWorld .completed) w' 0 waitingItem ⟨"EMAIL", 1, 1⟩ waitingTask := by
  have hturn : BlockedTurn ⟨sampleClient⟩ (waitingWorld .completed) waitingItem ⟨"EMAIL", 1, 1⟩
      waitingTask := by
    refine ⟨rfl, by decide, by decide, by decide, rfl, rfl, by decide, by decide, ?_⟩
    intro d hd r hr
    rfl
  have hcondition : GateCondition ⟨sampleClient⟩ (waitingWorld .completed) waitingTask :=
    ⟨by decide, by decide, fun _ _ => ⟨by decide, fun _ _ => rfl⟩⟩
  obtain ⟨w', hrun, hlaw, -⟩ := blocked_task_gate ⟨sampleClient⟩ (waitingWorld .completed) 0
    waitingItem ⟨"EMAIL", 1, 1⟩ waitingTask hturn
  exact ⟨hcondition, w', hrun, hlaw hcondition⟩

/-- With an unreachable dependency the item stays on the queue and the task stays blocked. -/
theorem unreachable_dependency_waits :
    (waitingWorld .unreachable).dependencyState "T1" = some .unreachable ∧
    (waitingWorld .unreachable).intendedGate waitingTask.task.dependencies = .fail ∧
    ∃ w', (waitingWorld .unreachable).evaluate 0 .worker
        (Processor.processItem ⟨sampleClient⟩ waitingItem) = some ((), w') ∧
      w'.items = [⟨"EMAIL", "T2", 1, 1, 100 + 5 * 10 ^ 9⟩] ∧
      w'.stored "T2" = some waitingTask :=
  ⟨by decide, by decide, _, rfl, rfl, rfl⟩

end AsyncJobs
