import AsyncJobs.System.World

/-!
# The life of a task, read off the log

The log determines what is stored under every identifier and what every copy
knows: the revision it was last loaded from or last acknowledged at. `Change`
says, for each entry point of the package, which records it may ask the store to
save given what its copy knows. A log is valid when every event is justified by
the ones before it. Nothing here refers to programs or to the server; later
modules show that every run of the system leaves a valid log.
-/

namespace AsyncJobs

/-- The copy an event is about: the one whose holder acted, or the one handed over. -/
def Event.subject : Event → Option Nat
  | .read n _ _ _ _ | .saved n _ _ _ _ | .deleted n _ | .submitted _ n _ | .passed _ n _
  | .started _ n _ _ | .returned n _ | .published n _ _ _ | .unqueued n | .removed n _ => some n
  | .dropped _ => none

/-- The revision copy `n` was last loaded from or last acknowledged at. -/
def known (n : Nat) : List Event → Option StoredTask
  | [] => none
  | .read m _ .task found _ :: log => if m = n then some found else known n log
  | .saved m _ _ new true :: log => if m = n then some new else known n log
  | .submitted m k _ :: log => if k = n then known m log else known n log
  | .passed m k _ :: log => if k = n then known m log else known n log
  | .started m k _ _ :: log => if k = n then known m log else known n log
  | _ :: log => known n log

/-- The revision a `DeleteTaskByID` running on copy `n` has read. -/
def lookedUp (n : Nat) : List Event → Option StoredTask
  | [] => none
  | .read m _ .delete found _ :: log => if m = n then some found else lookedUp n log
  | _ :: log => lookedUp n log

/-- What the log leaves stored under an identifier. -/
def current (id : String) : List Event → Option StoredTask
  | [] => none
  | .saved _ _ _ new _ :: log => if new.task.id = id then some new else current id log
  | .deleted _ m :: log => if m.task.id = id then none else current id log
  | .dropped m :: log => if m.task.id = id then none else current id log
  | _ :: log => current id log

def Written (log : List Event) (m : StoredTask) : Prop :=
  ∃ n writer old acked, Event.saved n writer old m acked ∈ log

/-- Some task the dependency names was stored as complete. -/
def DependencyDone (log : List Event) (dependency : String) : Prop :=
  ∃ m, (World.isWildcard dependency = true ∨ m.task.id = dependency) ∧ Written log m ∧
    m.task.state = .completed

def Task.enqueueable (t : Task) : Prop :=
  t.state = .new ∨ t.state = .retry ∨ t.state = .blocked

theorem Task.enqueueable.not_final {t : Task} (h : t.enqueueable) : ¬ t.state.final = true := by
  rcases h with h | h | h <;> simp [h, TaskState.final]

def Task.outOfTries (t : Task) : Prop := 0 < t.maxTries ∧ t.maxTries ≤ t.tries

/-- The `switch` of `processMessage` returns for this task at this time. -/
def Processor.stops (p : Processor) (t : Task) (now : Int) : Bool :=
  match t.state with
  | .active =>
    match t.lastTriedAt with
    | none => true
    | some lastTriedAt => now - lastTriedAt < p.queue.maxRunTime
  | .unreachable | .completed | .expired => true
  | _ => false

/-- Copy `n` was loaded from `m` and got past the `switch`. -/
structure Admitted (p : Processor) (n : Nat) (log : List Event) (m : StoredTask)
    (loadedAt : Int) : Prop where
  loaded : Event.read n .worker .task m loadedAt ∈ log
  passed : ∃ now, loadedAt ≤ now ∧ p.stops m.task now = false

/-- The `switch` has no case for the state terminated, and one for every other final state. -/
theorem Admitted.terminated {p : Processor} {n : Nat} {log : List Event} {m : StoredTask}
    {loadedAt : Int} (h : Admitted p n log m loadedAt) (hfinal : m.task.state.final = true) :
    m.task.state = .terminated := by
  obtain ⟨now, -, hstops⟩ := h.passed
  cases hstate : m.task.state with
  | terminated => rfl
  | completed => simp [Processor.stops, hstate] at hstops
  | expired => simp [Processor.stops, hstate] at hstops
  | unreachable => simp [Processor.stops, hstate] at hstops
  | _ => simp [hstate, TaskState.final] at hfinal

/-- An admitted task within its deadline and its tries. -/
structure Eligible (p : Processor) (n : Nat) (log : List Event) (m : StoredTask) : Prop where
  admitted : ∃ loadedAt, Admitted p n log m loadedAt ∧
    ∃ now, loadedAt ≤ now ∧ m.task.isPastDeadline now = false
  tries : ¬ m.task.outOfTries

/-- The records a worker saves for the task `m` it loaded. -/
inductive WorkerChange (p : Processor) (n : Nat) (log : List Event) (m : StoredTask) :
    Task → Prop
  | expire {loadedAt : Int} (admitted : Admitted p n log m loadedAt)
      (exceeded : (∃ now, loadedAt ≤ now ∧ m.task.isPastDeadline now = true) ∨ m.task.outOfTries) :
      WorkerChange p n log m { m.task with state := .expired }
  | unreachable (eligible : Eligible p n log m) (blocked : m.task.state = .blocked)
      (dependent : m.task.hasDependencies = true)
      (results : List (String × Option TaskResult)) (lastErr : String) (now : Int) :
      WorkerChange p n log m { m.task with
        dependencyResults := results, lastErr := lastErr, lastTriedAt := some now,
        state := .unreachable }
  | activate (eligible : Eligible p n log m)
      (done : m.task.state = .blocked → ∀ d ∈ m.task.dependencies, DependencyDone log d)
      (results : List (String × Option TaskResult)) (now : Int) :
      WorkerChange p n log m { m.task with
        dependencyResults := results, state := .active, lastTriedAt := some now, lastErr := "" }

/-- The records a handler goroutine saves for the task `m` it was started on. -/
inductive HandlerChange (c : Client) (m : StoredTask) : Task → Prop
  | succeed (lastTriedAt completedAt : Int) (payload : String) :
      HandlerChange c m { m.task with
        tries := m.task.tries + 1, lastTriedAt := some lastTriedAt, state := .completed,
        lastErr := "", result := some { payload := payload, completedAt := completedAt } }
  | terminate (now : Int) (err : Error) (terminal : err.is .terminateTask = true) :
      HandlerChange c m { m.task with
        tries := m.task.tries + 1, lastErr := err.text, lastTriedAt := some now,
        state := .terminated }
  | fail (now : Int) (err : Error) (terminal : err.is .terminateTask = false) :
      HandlerChange c m { m.task with
        tries := m.task.tries + 1, lastErr := err.text, lastTriedAt := some now,
        state := c.errorState { m.task with tries := m.task.tries + 1 } err }

/-- The compensating save of `EnqueueTask` after its work item was not queued. -/
def QueueErrorChange (n : Nat) (log : List Event) (base : Option StoredTask) (t : Task) : Prop :=
  Event.unqueued n ∈ log ∧ ∃ m lastErr, base = some m ∧ m.task.enqueueable ∧
    t = { m.task with state := .queueError, lastErr := lastErr }

/-- The records `EnqueueTask` saves for the task its caller gave it. -/
inductive EnqueueChange (n : Nat) (log : List Event) (base : Option StoredTask) : Task → Prop
  | submit {k : Nat} {t : Copy} (given : Event.submitted k n t ∈ log)
      (state : t.toTask.enqueueable) (queue signature : String) :
      EnqueueChange n log base { t.toTask with queue := queue, signature := signature }
  | queueError {t : Task} (change : QueueErrorChange n log base t) :
      EnqueueChange n log base t

/-- The records `RetryTaskByID` saves. -/
inductive RetryChange (n : Nat) (log : List Event) (base : Option StoredTask) : Task → Prop
  | retry {m : StoredTask} (loadedAt : Int) (loaded : Event.read n .retrier .task m loadedAt ∈ log)
      (known : base = some m) (queue : String) :
      RetryChange n log base { m.task with state := .retry, result := none, queue := queue }
  | queueError {t : Task} (change : QueueErrorChange n log base t) :
      RetryChange n log base t

/-- What each entry point may ask the store to save. -/
def Change (writer : Writer) (n : Nat) (log : List Event) (base : Option StoredTask)
    (t : Task) : Prop :=
  match writer with
  | .worker => ∃ p m, base = some m ∧ WorkerChange p n log m t
  | .handler => ∃ c m, base = some m ∧ m.task.state = .active ∧ HandlerChange c m t
  | .enqueuer => EnqueueChange n log base t
  | .retrier => RetryChange n log base t
  | .reader => False

/-- The revision a copy carries is the one it knows, under its own identifier, which
is a proper subject token. -/
structure Copy.Tracks (t : Copy) (base : Option StoredTask) : Prop where
  revision : t.storageOptions = base.map (·.seq)
  sameID : ∀ m, base = some m → m.task.id = t.id
  named : World.isWildcard t.id = false

def Justified (log : List Event) : Event → Prop
  | .read _ _ _ found _ => current found.task.id log = some found
  | .saved n writer old new _ =>
    old = current new.task.id log ∧ old = known n log ∧ Change writer n log old new.task ∧
      ∀ m, Written log m → m.seq < new.seq
  | .deleted n m => current m.task.id log = some m ∧ lookedUp n log = some m
  | .dropped m => current m.task.id log = some m
  | .submitted k _ t | .passed k _ t => t.Tracks (known k log)
  | .started n _ t _ =>
    ∃ old seq, Event.saved n .worker old ⟨seq, t.toTask⟩ true ∈ log ∧
      known n log = some ⟨seq, t.toTask⟩ ∧ t.storageOptions = some seq ∧ t.state = .active
  | .published n _ id _ => ∃ m, known n log = some m ∧ m.task.id = id
  | .returned _ _ | .unqueued _ | .removed _ _ => True

/-- Every event meets the condition with respect to the events before it. -/
def Always (P : List Event → Event → Prop) : List Event → Prop
  | [] => True
  | e :: log => P log e ∧ Always P log

abbrev Valid (log : List Event) : Prop := Always Justified log

section Lemmas

variable {log es : List Event} {n : Nat} {m m' : StoredTask}

/-- What one event about others does not change, no number of them changes. -/
theorem append_of_cons {α : Type} {f : List Event → α} {n : Nat}
    (hcons : ∀ e log, e.subject ≠ some n → f (e :: log) = f log)
    (h : ∀ e ∈ es, e.subject ≠ some n) : f (es ++ log) = f log := by
  induction es with
  | nil => rfl
  | cons e es ih =>
    rw [List.cons_append, hcons e _ (h e (List.mem_cons_self ..))]
    exact ih fun e' he' => h e' (List.mem_cons_of_mem _ he')

theorem known_cons {e : Event} (h : e.subject ≠ some n) : known n (e :: log) = known n log := by
  have hne : ∀ k, e.subject = some k → k ≠ n := fun k hk heq => h (heq ▸ hk)
  cases e with
  | read k writer use found clock =>
    cases use with
    | task => exact if_neg (hne k rfl)
    | _ => rfl
  | saved k writer old new acked =>
    cases acked with
    | true => exact if_neg (hne k rfl)
    | false => rfl
  | submitted k k' t => exact if_neg (hne k' rfl)
  | passed k k' t => exact if_neg (hne k' rfl)
  | started k k' t item => exact if_neg (hne k' rfl)
  | _ => rfl

theorem lookedUp_cons {e : Event} (h : e.subject ≠ some n) :
    lookedUp n (e :: log) = lookedUp n log := by
  cases e with
  | read k writer use found clock =>
    have hne : k ≠ n := fun heq => h (congrArg some heq)
    cases use with
    | delete => exact if_neg hne
    | _ => rfl
  | _ => rfl

theorem known_append (h : ∀ e ∈ es, e.subject ≠ some n) : known n (es ++ log) = known n log :=
  append_of_cons (fun _ _ => known_cons) h

theorem lookedUp_append (h : ∀ e ∈ es, e.subject ≠ some n) :
    lookedUp n (es ++ log) = lookedUp n log :=
  append_of_cons (fun _ _ => lookedUp_cons) h

theorem Written.append (h : Written log m) (es : List Event) : Written (es ++ log) m := by
  obtain ⟨n, writer, old, acked, hmem⟩ := h
  exact ⟨n, writer, old, acked, List.mem_append_right es hmem⟩

theorem written_cons {e : Event} : Written (e :: log) m ↔
    (∃ n writer old acked, e = .saved n writer old m acked) ∨ Written log m := by
  constructor
  · rintro ⟨n, writer, old, acked, hmem⟩
    rcases List.mem_cons.mp hmem with h | h
    · exact Or.inl ⟨n, writer, old, acked, h.symm⟩
    · exact Or.inr ⟨n, writer, old, acked, h⟩
  · rintro (⟨n, writer, old, acked, rfl⟩ | h)
    · exact ⟨n, writer, old, acked, List.mem_cons_self ..⟩
    · exact h.append [e]

theorem DependencyDone.append {d : String} (h : DependencyDone log d) (es : List Event) :
    DependencyDone (es ++ log) d := by
  obtain ⟨m, hname, hwritten, hstate⟩ := h
  exact ⟨m, hname, hwritten.append es, hstate⟩

theorem Admitted.append {p : Processor} {loadedAt : Int} (h : Admitted p n log m loadedAt)
    (es : List Event) : Admitted p n (es ++ log) m loadedAt :=
  ⟨List.mem_append_right es h.loaded, h.passed⟩

theorem Eligible.append {p : Processor} (h : Eligible p n log m) (es : List Event) :
    Eligible p n (es ++ log) m := by
  obtain ⟨⟨loadedAt, hadmitted, hdeadline⟩, htries⟩ := h
  exact ⟨⟨loadedAt, hadmitted.append es, hdeadline⟩, htries⟩

theorem WorkerChange.append {p : Processor} {t : Task} (h : WorkerChange p n log m t)
    (es : List Event) : WorkerChange p n (es ++ log) m t := by
  cases h with
  | expire admitted exceeded => exact .expire (admitted.append es) exceeded
  | unreachable eligible blocked dependent results lastErr now =>
    exact .unreachable (eligible.append es) blocked dependent results lastErr now
  | activate eligible done results now =>
    exact .activate (eligible.append es) (fun hb d hd => (done hb d hd).append es) results now

theorem QueueErrorChange.append {base : Option StoredTask} {t : Task}
    (h : QueueErrorChange n log base t) (es : List Event) :
    QueueErrorChange n (es ++ log) base t :=
  ⟨List.mem_append_right es h.1, h.2⟩

theorem Change.append {writer : Writer} {base : Option StoredTask} {t : Task}
    (h : Change writer n log base t) (es : List Event) : Change writer n (es ++ log) base t := by
  cases writer with
  | worker =>
    obtain ⟨p, r, hbase, hchange⟩ := h
    exact ⟨p, r, hbase, hchange.append es⟩
  | handler => exact h
  | enqueuer =>
    cases h with
    | submit given state queue signature =>
      exact .submit (List.mem_append_right es given) state queue signature
    | queueError change => exact .queueError (change.append es)
  | retrier =>
    cases h with
    | retry loadedAt loaded known queue =>
      exact .retry loadedAt (List.mem_append_right es loaded) known queue
    | queueError change => exact .queueError (change.append es)
  | reader => exact h

theorem Always.tail {P : List Event → Event → Prop} {e : Event} (h : Always P (e :: log)) :
    Always P log := h.2

theorem Always.of_append {P : List Event → Event → Prop} (h : Always P (es ++ log)) :
    Always P log := by
  induction es with
  | nil => exact h
  | cons e es ih => exact ih h.tail

theorem Always.at {P : List Event → Event → Prop} {e : Event} (h : Always P (es ++ e :: log)) :
    P log e :=
  h.of_append.1

theorem current_cons {id : String} {e : Event} (h : current id (e :: log) = some m) :
    (∃ n writer old acked, e = .saved n writer old m acked ∧ m.task.id = id) ∨
      current id log = some m := by
  cases e with
  | saved n writer old new acked =>
    simp only [current] at h
    split_ifs at h with hid
    · cases h
      exact Or.inl ⟨n, writer, old, acked, rfl, hid⟩
    · exact Or.inr h
  | deleted n r =>
    simp only [current] at h
    split_ifs at h
    exact Or.inr h
  | dropped r =>
    simp only [current] at h
    split_ifs at h
    exact Or.inr h
  | _ => exact Or.inr h

theorem current_written {id : String} (h : current id log = some m) :
    Written log m ∧ m.task.id = id := by
  induction log with
  | nil => cases h
  | cons e log ih =>
    rw [written_cons]
    rcases current_cons h with ⟨n, writer, old, acked, heq, hid⟩ | h
    · exact ⟨Or.inl ⟨n, writer, old, acked, heq⟩, hid⟩
    · exact ⟨Or.inr (ih h).1, (ih h).2⟩

theorem known_written (hv : Valid log) : ∀ {n}, known n log = some m → Written log m := by
  induction log with
  | nil => intro n h; simp [known] at h
  | cons e log ih =>
    intro n h
    rw [written_cons]
    cases e with
    | read k writer use found at' =>
      cases use with
      | task =>
        simp only [known] at h
        split_ifs at h
        · cases h
          exact Or.inr (current_written hv.1).1
        · exact Or.inr (ih hv.tail h)
      | dependency => exact Or.inr (ih hv.tail (by simpa [known] using h))
      | delete => exact Or.inr (ih hv.tail (by simpa [known] using h))
    | saved k writer old new acked =>
      cases acked with
      | true =>
        simp only [known] at h
        split_ifs at h
        · cases h
          exact Or.inl ⟨k, writer, old, true, rfl⟩
        · exact Or.inr (ih hv.tail h)
      | false => exact Or.inr (ih hv.tail (by simpa [known] using h))
    | submitted k j t =>
      simp only [known] at h
      split_ifs at h <;> exact Or.inr (ih hv.tail h)
    | passed k j t =>
      simp only [known] at h
      split_ifs at h <;> exact Or.inr (ih hv.tail h)
    | started k j t item =>
      simp only [known] at h
      split_ifs at h <;> exact Or.inr (ih hv.tail h)
    | _ => exact Or.inr (ih hv.tail (by simpa [known] using h))

theorem lookedUp_written (hv : Valid log) (h : lookedUp n log = some m) : Written log m := by
  induction log with
  | nil => simp [lookedUp] at h
  | cons e log ih =>
    rw [written_cons]
    cases e with
    | read k writer use found at' =>
      cases use with
      | delete =>
        simp only [lookedUp] at h
        split_ifs at h
        · cases h
          exact Or.inr (current_written hv.1).1
        · exact Or.inr (ih hv.tail h)
      | task => exact Or.inr (ih hv.tail (by simpa [lookedUp] using h))
      | dependency => exact Or.inr (ih hv.tail (by simpa [lookedUp] using h))
    | _ => exact Or.inr (ih hv.tail (by simpa [lookedUp] using h))

theorem Valid.read_written {writer : Writer} {use : ReadUse} {loadedAt : Int} (hv : Valid log)
    (h : Event.read n writer use m loadedAt ∈ log) : Written log m := by
  induction log with
  | nil => cases h
  | cons e log ih =>
    rcases List.mem_cons.mp h with rfl | h
    · exact (current_written hv.1).1.append [_]
    · exact (ih hv.tail h).append [e]

theorem Valid.written_inj (hv : Valid log) (h : Written log m) (h' : Written log m')
    (hseq : m.seq = m'.seq) : m = m' := by
  induction log with
  | nil =>
    obtain ⟨_, _, _, _, hmem⟩ := h
    cases hmem
  | cons e log ih =>
    rcases written_cons.mp h with ⟨k, writer, old, acked, rfl⟩ | hold
    · rcases written_cons.mp h' with ⟨k', writer', old', acked', heq⟩ | hold'
      · cases heq
        rfl
      · have hlt := hv.1.2.2.2 m' hold'
        omega
    · rcases written_cons.mp h' with ⟨k', writer', old', acked', rfl⟩ | hold'
      · have hlt := hv.1.2.2.2 m hold
        omega
      · exact ih hv.tail hold hold'

theorem Valid.saved_inj {n' : Nat} {writer writer' : Writer} {old old' : Option StoredTask}
    {acked acked' : Bool} (hv : Valid log) (h : Event.saved n writer old m acked ∈ log)
    (h' : Event.saved n' writer' old' m' acked' ∈ log) (hseq : m.seq = m'.seq) :
    Event.saved n writer old m acked = .saved n' writer' old' m' acked' := by
  induction log with
  | nil => cases h
  | cons e log ih =>
    rcases List.mem_cons.mp h with heq | hold
    · rcases List.mem_cons.mp h' with heq' | hold'
      · exact heq.trans heq'.symm
      · subst heq
        have hlt := hv.1.2.2.2 m' ⟨_, _, _, _, hold'⟩
        omega
    · rcases List.mem_cons.mp h' with heq' | hold'
      · subst heq'
        have hlt := hv.1.2.2.2 m ⟨_, _, _, _, hold⟩
        omega
      · exact ih hv.tail hold hold'

end Lemmas

instance Always.decidable {P : List Event → Event → Prop} [∀ log e, Decidable (P log e)] :
    ∀ log, Decidable (Always P log)
  | [] => isTrue trivial
  | e :: log =>
    have := Always.decidable (P := P) log
    inferInstanceAs (Decidable (P log e ∧ Always P log))

end AsyncJobs
