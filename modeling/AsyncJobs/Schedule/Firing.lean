import AsyncJobs.Model.Scheduler

/-!
# What a firing enqueues

A task becomes the template of a schedule, is stored, read by the scheduler and turned
into a new task at every firing. Type, deadline and a positive `MaxTries` survive the trip.
The payload does not: it is already encoded, and the new task encodes it once more.
-/

namespace AsyncJobs

open Interaction

structure Template where
  queue : String
  type : String
  payload : Option Bytes
  deadline : Option Int
  maxTries : Int
  deriving DecidableEq, Repr

def Copy.template (t : Copy) : Template := ⟨t.queue, t.type, t.payload, t.deadline, t.maxTries⟩

/-- A request that stores a task stores one with this template. -/
def Call.stores (τ : Template) : Call → Prop
  | .publishTask task => task.template = τ
  | _ => True

namespace Storage

variable {τ : Template} {task : Copy}

theorem saveTaskState_stores (h : task.template = τ) (notify : Bool) :
    (saveTaskState task notify).Yields (S := jobs) (Call.stores τ)
      fun result => result.2.template = τ := by
  apply Prog.Yields.bind (Prog.Yields.invoke (Q := fun _ => True) h fun _ => trivial)
  intro reply _
  cases reply with
  | error err => exact h
  | ok seq =>
    cases notify with
    | false => exact h
    | true =>
      apply Prog.Yields.bind (Prog.Yields.invoke (Q := fun _ => True) trivial fun _ => trivial)
      intro _ _
      exact h

theorem queueError_stores (h : task.template = τ) (lastErr : String) (err : Error) :
    (queueError task lastErr err).Yields (S := jobs) (Call.stores τ) fun _ => True := by
  have hmarked : ({ task with state := .queueError, lastErr } : Copy).template = τ := h
  apply Prog.Yields.bind (saveTaskState_stores hmarked true)
  intro result _
  obtain ⟨_ | _, _⟩ := result <;> trivial

/-- Every record the call stores, also the one that reports a queue error, has the
template of the task on the queue. -/
theorem enqueueTask_stores (queue : Queue) (task : Copy) :
    (enqueueTask queue task).Yields (S := jobs)
      (Call.stores { task with queue := queue.name : Copy }.template) fun _ => True := by
  unfold enqueueTask
  split_ifs
  · trivial
  · apply Prog.Yields.bind (saveTaskState_stores rfl true)
    intro result hresult
    obtain ⟨_ | err, saved⟩ := result
    · apply Prog.Yields.bind (Prog.Yields.invoke (Q := fun _ => True) trivial fun _ => trivial)
      intro reply _
      rcases reply with err | _ | _
      · exact queueError_stores hresult _ _
      · trivial
      · exact queueError_stores hresult _ _
    · trivial

end Storage

namespace ScheduledTask

variable {item : ScheduledTask} {id : String} {fired created : Int} {nt : Copy}

theorem applyTaskOpts_taskOpts (item : ScheduledTask) (fired : Int) (start : Task) :
    applyTaskOpts (item.taskOpts fired) { task := start } = .ok { task := { start with
      deadline := if 0 < item.deadline then some (fired + item.deadline) else start.deadline
      maxTries := if 0 < item.maxTries then item.maxTries else start.maxTries } } := by
  unfold taskOpts
  split_ifs <;> rfl

def template (item : ScheduledTask) (fired : Int) : Template where
  queue := item.queue
  type := item.taskType
  payload := some (jsonMarshalBytes item.payload)
  deadline := if 0 < item.deadline then some (fired + item.deadline) else none
  maxTries := if 0 < item.maxTries then item.maxTries else defaultMaxTries

theorem createTask_template (h : item.createTask id fired created = .ok nt) :
    { nt with queue := item.queue : Copy }.template = item.template fired := by
  unfold template
  simp only [createTask, newTask, applyTaskOpts_taskOpts] at h
  generalize (if 0 < item.deadline then some (fired + item.deadline) else none) = deadline at h ⊢
  generalize (if 0 < item.maxTries then item.maxTries else defaultMaxTries) = maxTries at h ⊢
  split_ifs at h
  injection h with h
  subst h
  rfl

end ScheduledTask

theorem newScheduledTaskFromTask_ok {σ : Type} {parse : String → Except Error σ}
    {createdAt now : Int} {name schedule queue : String} {task : Task} {st : ScheduledTask} {cs : σ}
    (h : newScheduledTaskFromTask parse createdAt now name schedule queue task = .ok (st, cs)) :
    st.name = name ∧ st.queue = queue ∧ st.taskType = task.type ∧ st.payload = task.payload ∧
      st.maxTries = task.maxTries ∧ (0 < st.deadline ↔ task.deadline.isSome) := by
  unfold newScheduledTaskFromTask at h
  split_ifs at h
  split at h
  · cases h
  · split at h
    · rename_i hnone
      simp only [Except.ok.injEq, Prod.mk.injEq] at h
      obtain ⟨hst, -⟩ := h
      subst hst
      simp [hnone]
    · rename_i deadline hsome
      simp only at h
      split_ifs at h with hshort
      simp only [Except.ok.injEq, Prod.mk.injEq] at h
      obtain ⟨hst, -⟩ := h
      subst hst
      simp only [hsome, Option.isSome_some, iff_true, true_and]
      simp only [shortedScheduledDeadline, second] at hshort ⊢
      omega

section Firing

variable {σ : Type} {parse : String → Except Error σ} {s : TaskScheduler σ}

/-- Whatever the server replies, a firing stores only tasks made from the registered
template. -/
theorem TaskScheduler.handlerFactory_stores {name id : String} {fired created : Int}
    {task : RegisteredTask} (htask : s.tasks.lookup name = some task) :
    (s.handlerFactory name id fired created).Yields (S := jobs)
      (Call.stores (task.item.template fired)) fun _ => True := by
  unfold handlerFactory
  rw [htask]
  cases s.leader with
  | false => trivial
  | true =>
    cases hcreate : task.item.createTask id fired created with
    | error err =>
      simp only [hcreate]
      trivial
    | ok nt =>
      simp only [hcreate]
      rw [← ScheduledTask.createTask_template hcreate]
      apply Prog.Yields.bind (Storage.enqueueTask_stores { name := task.item.queue } nt)
      intro _ _
      trivial

theorem newScheduledTask_ok {createdAt now : Int} {b b' : ConfigBucket} {failure : Option Error}
    {name schedule queue : String} {task : Task}
    (h : newScheduledTask parse createdAt now b failure name schedule queue task = .ok b') :
    ∃ st cs, newScheduledTaskFromTask parse createdAt now name schedule queue task = .ok (st, cs) ∧
      b'.lookup (configKey name) = some st.marshal := by
  unfold newScheduledTask at h
  split at h
  · cases h
  · rename_i st cs hst
    obtain ⟨hname, -⟩ := newScheduledTaskFromTask_ok hst
    unfold ConfigBucket.saveScheduledTask at h
    split at h
    · cases h
    · split_ifs at h
      injection h with h
      subst h
      exact ⟨st, cs, hst, by rw [hname, AList.lookup_insert]⟩

end Firing

/-- Every task that a firing stores for the schedule of a task agrees with it on the type,
the deadline and a positive `MaxTries`, and none of them has its payload. -/
theorem firing_reencodes_payload {σ : Type} (parse : String → Except Error σ) (t : Task)
    (createdAt now : Int) (b b' : ConfigBucket) (failure : Option Error)
    (name schedule queue : String)
    (hcreated : newScheduledTask parse createdAt now b failure name schedule queue t = .ok b')
    (doc : ScheduleDocument) (hdoc : b'.lookup (configKey name) = some doc)
    (entry : ScheduleWatchEntry)
    (hwatched : scheduledTasksWatch (some (.put (configKey name) doc)) = some (some entry))
    (s : TaskScheduler σ) (item : ScheduledTask) (cronID : Nat) (hitem : entry.task = some item)
    (hregistered : s.tasks.lookup entry.name = some { item, cronID })
    (id : String) (fired created : Int) :
    (s.handlerFactory name id fired created).Yields (S := jobs)
      (fun c : Call => ∀ nt, c = .publishTask nt →
        nt.queue = queue ∧ nt.type = t.type ∧
        nt.deadline = t.deadline.map (fun _ => fired + item.deadline) ∧
        nt.maxTries = (if 0 < t.maxTries then t.maxTries else defaultMaxTries) ∧
        nt.payload.getD [] ≠ t.payload.getD [])
      fun _ => True := by
  obtain ⟨st, cs, hst, hlookup⟩ := newScheduledTask_ok hcreated
  have hsame : doc = st.marshal := by
    rw [hlookup] at hdoc
    injection hdoc with hdoc
    exact hdoc.symm
  simp only [scheduledTasksWatch, hsame, ScheduledTask.unmarshal_marshal, Option.some.injEq]
    at hwatched
  subst hwatched
  injection hitem with hitem
  subst hitem
  obtain ⟨hname, hqueue, htype, hpayload, hmax, hdeadline⟩ := newScheduledTaskFromTask_ok hst
  rw [hname] at hregistered
  apply Prog.Yields.mono _ (fun _ _ => trivial) (TaskScheduler.handlerFactory_stores hregistered)
  intro c hstores nt hc
  subst hc
  simp only [Call.stores, Copy.template, ScheduledTask.template, Template.mk.injEq] at hstores
  obtain ⟨hntqueue, hnttype, hntpayload, hntdeadline, hntmax⟩ := hstores
  refine ⟨hntqueue.trans hqueue, hnttype.trans htype, ?_, ?_, ?_⟩
  · rw [hntdeadline]
    cases hd : t.deadline with
    | none => simp [hd ▸ hdeadline]
    | some d => simp [hd ▸ hdeadline]
  · rw [hntmax, hmax]
  · have hlonger := jsonMarshalBytes_length t.payload
    rw [hntpayload, hpayload, Option.getD_some]
    intro heq
    rw [heq] at hlonger
    exact lt_irrefl _ hlonger

/-- The task of the first request, if that stores one. -/
def firstStored {α : Type} : Job α → Option Copy
  | .call (.publishTask task) _ => some task
  | _ => none

theorem firstStored_yields {α : Type} {p : Job α} {C : Call → Prop} {Q : α → Prop} {nt : Copy}
    (h : p.Yields (S := jobs) C Q) (hfirst : firstStored p = some nt) : C (.publishTask nt) := by
  unfold firstStored at hfirst
  split at hfirst
  · injection hfirst with hfirst
    subst hfirst
    exact h.1
  · cases hfirst

/-- A task with the payload `[1]`. -/
def numberTask : Copy :=
  { id := "T1", type := "email:new", payload := some (asciiBytes "[1]".toList), maxTries := 10,
    state := .new, createdAt := 0 }

theorem numberTask_made : newTask (fun bytes : Bytes => .ok bytes) "T1" 0 "email:new"
    (some (asciiBytes "[1]".toList)) [] = .ok numberTask := by
  rfl

def numberSchedule : ScheduledTask :=
  { name := "daily", schedule := "@daily", queue := "EMAIL", taskType := "email:new",
    payload := some (asciiBytes "[1]".toList), maxTries := 10, createdAt := 0 }

theorem numberSchedule_created :
    newScheduledTask (fun _ => .ok ()) 0 0 ∅ none "daily" "@daily" "EMAIL" numberTask.toTask =
      .ok (AList.insert (configKey "daily") numberSchedule.marshal ∅) := by
  rfl

theorem numberSchedule_watched :
    scheduledTasksWatch (some (.put (configKey "daily") numberSchedule.marshal)) =
      some (some { name := "daily", task := some numberSchedule }) := by
  simp only [scheduledTasksWatch, ScheduledTask.unmarshal_marshal]
  rfl

def numberScheduler : TaskScheduler Unit :=
  ({ leader := true } : TaskScheduler Unit).handleEntry (fun _ => .ok ())
    (some { name := "daily", task := some numberSchedule })

theorem firing_reencodes_payload_number : ∃ nt,
    firstStored (numberScheduler.handlerFactory "daily" "T2" 60 60) = some nt ∧
      nt.payload.getD [] ≠ numberTask.payload.getD [] := by
  have hstored :
      (firstStored (numberScheduler.handlerFactory "daily" "T2" 60 60)).isSome = true := by
    decide +kernel
  obtain ⟨nt, hnt⟩ := Option.isSome_iff_exists.mp hstored
  have hfiring := firing_reencodes_payload (fun _ => .ok ()) numberTask.toTask 0 0 ∅ _ none "daily"
    "@daily" "EMAIL" numberSchedule_created _ (AList.lookup_insert _) _ numberSchedule_watched
    numberScheduler numberSchedule 1 rfl (by decide +kernel) "T2" 60 60
  exact ⟨nt, hnt, (firstStored_yields hfiring hnt nt rfl).2.2.2.2⟩

/-- The fired task carries the base64 text of the payload as a JSON string. -/
theorem fired_payload_is_encoded_twice :
    newTask (fun bytes : Bytes => .ok bytes) "T1" 0 "email:new"
      (some (asciiBytes "[1]".toList)) [] = .ok numberTask ∧
    newScheduledTask (fun _ => .ok ()) 0 0 ∅ none "daily" "@daily" "EMAIL" numberTask.toTask =
      .ok (AList.insert (configKey "daily") numberSchedule.marshal ∅) ∧
    scheduledTasksWatch (some (.put (configKey "daily") numberSchedule.marshal)) =
      some (some { name := "daily", task := some numberSchedule }) ∧
    numberTask.payload = some (asciiBytes "[1]".toList) ∧
    (firstStored (numberScheduler.handlerFactory "daily" "T2" 60 60)).map (·.payload) =
      some (some (asciiBytes "\"WzFd\"".toList)) :=
  ⟨numberTask_made, numberSchedule_created, numberSchedule_watched, rfl, by decide +kernel⟩

end AsyncJobs
