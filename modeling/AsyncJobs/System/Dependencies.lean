import AsyncJobs.System.Revisions

/-!
# The dependency gate

`processMessage` checks dependencies only for a task stored as blocked. A task with
unfinished dependencies can leave that state without the check: `RetryTaskByID` stores
it as retry, and a failed enqueue stores it as queue_error while its item may be on
the queue. Where neither happens, every handler starts after all the tasks its task
depends on were stored as complete.
-/

namespace AsyncJobs

def completedBefore (log : List Event) (id : String) : Bool :=
  log.any fun
    | .saved _ _ _ new _ => new.task.id = id ∧ new.task.state = .completed
    | _ => false

def Task.dependenciesComplete (t : Task) (log : List Event) : Bool :=
  t.dependencies.all (completedBefore log)

/-- No dependency is a NATS wildcard, which would be looked up as any task. -/
def Task.plainDependencies (t : Task) : Bool :=
  t.dependencies.all fun d => !World.isWildcard d

section Completion

variable {log : List Event} {t : Task}

theorem completedBefore_iff {id : String} : completedBefore log id = true ↔
    ∃ m, Written log m ∧ m.task.id = id ∧ m.task.state = .completed := by
  unfold completedBefore
  rw [List.any_eq_true]
  constructor
  · rintro ⟨e, he, hsaved⟩
    cases e with
    | saved n writer old new acked =>
      obtain ⟨hid, hstate⟩ := of_decide_eq_true hsaved
      exact ⟨new, ⟨n, writer, old, acked, he⟩, hid, hstate⟩
    | _ => cases hsaved
  · rintro ⟨m, ⟨n, writer, old, acked, he⟩, hid, hstate⟩
    exact ⟨_, he, decide_eq_true ⟨hid, hstate⟩⟩

theorem completedBefore_append {id : String} (h : completedBefore log id = true)
    (es : List Event) : completedBefore (es ++ log) id = true := by
  obtain ⟨m, hwritten, hid, hstate⟩ := completedBefore_iff.mp h
  exact completedBefore_iff.mpr ⟨m, hwritten.append es, hid, hstate⟩

theorem Task.dependenciesComplete_append (h : t.dependenciesComplete log = true)
    (es : List Event) : t.dependenciesComplete (es ++ log) = true := by
  unfold Task.dependenciesComplete at h ⊢
  rw [List.all_eq_true] at h ⊢
  exact fun d hd => completedBefore_append (h d hd) es

/-- What the loop of `loadDependencies` found is about the tasks it was asked for. -/
theorem Task.dependenciesComplete_of_done (hplain : t.plainDependencies = true)
    (h : ∀ d ∈ t.dependencies, DependencyDone log d) : t.dependenciesComplete log = true := by
  unfold Task.dependenciesComplete
  rw [List.all_eq_true]
  intro d hd
  obtain ⟨m, hname, hwritten, hstate⟩ := h d hd
  have hd' := List.all_eq_true.mp hplain d hd
  rcases hname with hwild | hid
  · rw [hwild] at hd'
    cases hd'
  · exact completedBefore_iff.mpr ⟨m, hwritten, hid, hstate⟩

end Completion

/-- Callers enqueue tasks as blocked unless their dependencies are complete and name
tasks by their identifiers, `RetryTaskByID` is not applied to a task with unfinished
dependencies, and no worker comes across such a task in state queue_error. -/
def Config.gateRespected (cfg : Config) : Action → Bool
  | .enqueue _ copy | .enqueueInto _ copy =>
    match cfg.world.copies copy with
    | some t => t.toTask.plainDependencies ∧
        (t.state = .blocked ∨ t.toTask.dependenciesComplete cfg.world.log)
    | none => true
  | .run i _ =>
    match cfg.nextCall i with
    | some (⟨_, .retry _ _⟩, .readLast .task id) =>
      match cfg.world.readLast id with
      | some m => m.task.dependenciesComplete cfg.world.log
      | none => true
    | some (⟨_, .worker _ _⟩, .readLast .task id) =>
      match cfg.world.readLast id with
      | some m => m.task.state ≠ .queueError ∨ m.task.dependenciesComplete cfg.world.log
      | none => true
    | _ => true
  | _ => true

def GateRespected (log : List Event) : Event → Prop
  | .submitted _ _ t => t.toTask.plainDependencies = true ∧
      (t.state = .blocked ∨ t.toTask.dependenciesComplete log = true)
  | .read _ .retrier .task m _ => m.task.dependenciesComplete log = true
  | .read _ .worker .task m _ =>
    m.task.state ≠ .queueError ∨ m.task.dependenciesComplete log = true
  | _ => True

/-- States in which a task may be stored before its dependencies are complete. -/
def TaskState.waits : TaskState → Bool
  | .blocked | .expired | .unreachable | .queueError => true
  | _ => false

/-- Dependencies are named plainly and are complete unless the state says otherwise. -/
structure Gated (log : List Event) (t : Task) : Prop where
  plain : t.plainDependencies = true
  complete : t.state.waits = false → t.dependenciesComplete log = true

theorem Gated.append {log : List Event} {t : Task} (h : Gated log t) (es : List Event) :
    Gated (es ++ log) t :=
  ⟨h.plain, fun hw => Task.dependenciesComplete_append (h.complete hw) es⟩

theorem Gated.keep {log : List Event} {t t' : Task} (h : Gated log t)
    (hdeps : t'.dependencies = t.dependencies)
    (hstate : t'.state.waits = false → t.dependenciesComplete log = true) : Gated log t' := by
  refine ⟨?_, fun hw => ?_⟩
  · unfold Task.plainDependencies
    rw [hdeps]
    exact h.plain
  · unfold Task.dependenciesComplete
    rw [hdeps]
    exact hstate hw

section Gate

variable {log : List Event} (hgate : Always GateRespected log)
include hgate

theorem Event.submitted_gated {k n : Nat} {t : Copy} (hmem : Event.submitted k n t ∈ log) :
    t.toTask.plainDependencies = true ∧
      (t.state = .blocked ∨ t.toTask.dependenciesComplete log = true) := by
  obtain ⟨post, pre, rfl⟩ := List.append_of_mem hmem
  obtain ⟨hplain, hstate⟩ := hgate.at
  refine ⟨hplain, hstate.imp_right fun h => ?_⟩
  rw [← List.singleton_append, ← List.append_assoc]
  exact Task.dependenciesComplete_append h _

theorem Event.retried_gated {n : Nat} {m : StoredTask} {clock : Int}
    (hmem : Event.read n .retrier .task m clock ∈ log) :
    m.task.dependenciesComplete log = true := by
  obtain ⟨post, pre, rfl⟩ := List.append_of_mem hmem
  rw [← List.singleton_append, ← List.append_assoc]
  exact Task.dependenciesComplete_append hgate.at _

theorem Event.loaded_gated {n : Nat} {m : StoredTask} {clock : Int}
    (hmem : Event.read n .worker .task m clock ∈ log) (hstate : m.task.state = .queueError) :
    m.task.dependenciesComplete log = true := by
  obtain ⟨post, pre, rfl⟩ := List.append_of_mem hmem
  rw [← List.singleton_append, ← List.append_assoc]
  exact Task.dependenciesComplete_append (hgate.at.resolve_left (not_not_intro hstate)) _

theorem Eligible.complete {p : Processor} {n : Nat} {m : StoredTask}
    (he : Eligible p n log m) (hm : Gated log m.task) (hblocked : m.task.state ≠ .blocked) :
    m.task.dependenciesComplete log = true := by
  obtain ⟨⟨loadedAt, ⟨hread, now, -, hstops⟩, -⟩, -⟩ := he
  cases hstate : m.task.state with
  | blocked => exact absurd hstate hblocked
  | queueError => exact Event.loaded_gated hgate hread hstate
  | expired => simp [Processor.stops, hstate] at hstops
  | unreachable => simp [Processor.stops, hstate] at hstops
  | _ => exact hm.complete (by rw [hstate]; rfl)

theorem activate_complete {p : Processor} {n : Nat} {m : StoredTask}
    (he : Eligible p n log m) (hm : Gated log m.task)
    (hdone : m.task.state = .blocked → ∀ d ∈ m.task.dependencies, DependencyDone log d) :
    m.task.dependenciesComplete log = true := by
  by_cases hblocked : m.task.state = .blocked
  · exact Task.dependenciesComplete_of_done hm.plain (hdone hblocked)
  · exact he.complete hgate hm hblocked

theorem Change.gated {writer : Writer} {n : Nat} {base : Option StoredTask} {t : Task}
    (hc : Change writer n log base t) (hbase : ∀ m, base = some m → Gated log m.task) :
    Gated log t := by
  have hqueueError : QueueErrorChange n log base t → Gated log t := by
    rintro ⟨-, m, lastErr, hm, -, rfl⟩
    exact (hbase m hm).keep rfl (by rintro ⟨⟩)
  cases writer with
  | worker =>
    obtain ⟨p, m, hm, hchange⟩ := hc
    have hgated := hbase m hm
    cases hchange with
    | expire admitted exceeded => exact hgated.keep rfl (by rintro ⟨⟩)
    | unreachable eligible blocked dependent results lastErr now =>
      exact hgated.keep rfl (by rintro ⟨⟩)
    | activate eligible done results now =>
      exact hgated.keep rfl fun _ => activate_complete hgate eligible hgated done
  | handler =>
    obtain ⟨c, m, hm, hactive, hchange⟩ := hc
    have hgated := hbase m hm
    have hcomplete := hgated.complete (by rw [hactive]; rfl)
    cases hchange with
    | succeed lastTriedAt completedAt payload => exact hgated.keep rfl fun _ => hcomplete
    | terminate now err terminal => exact hgated.keep rfl fun _ => hcomplete
    | fail now err terminal => exact hgated.keep rfl fun _ => hcomplete
  | enqueuer =>
    cases hc with
    | submit given state queue signature =>
      obtain ⟨hplain, hstate⟩ := Event.submitted_gated hgate given
      refine ⟨hplain, fun hw => ?_⟩
      rcases hstate with hblocked | hcomplete
      · simp only [hblocked] at hw
        cases hw
      · exact hcomplete
    | queueError change => exact hqueueError change
  | retrier =>
    cases hc with
    | retry loadedAt loaded known queue =>
      exact (hbase _ known).keep rfl fun _ => Event.retried_gated hgate loaded
    | queueError change => exact hqueueError change
  | reader => exact hc.elim

end Gate

theorem Written.gated {log : List Event} (hv : Valid log) (hgate : Always GateRespected log)
    {m : StoredTask} (hm : Written log m) : Gated log m.task := by
  induction log generalizing m with
  | nil =>
    obtain ⟨_, _, _, _, hmem⟩ := hm
    cases hmem
  | cons e log ih =>
    have ih' := fun {m} hm => (ih hv.tail hgate.tail (m := m) hm).append [e]
    rcases written_cons.mp hm with ⟨n, writer, old, acked, rfl⟩ | hm
    · obtain ⟨hold, -, hchange, -⟩ := hv.1
      refine Gated.append ?_ [_]
      refine hchange.gated hgate.tail fun r hr => ?_
      rw [hr] at hold
      exact ih hv.tail hgate.tail (current_written hold.symm).1
    · exact ih' hm

theorem GateRespected.step {cfg cfg' : Config} {a : Action}
    (h : Always GateRespected cfg.world.log) (hmeets : cfg.gateRespected a = true)
    (hs : cfg.step a = some cfg') : Always GateRespected cfg'.world.log := by
  rcases Config.step_logged hs with
    ⟨i, o, tag, c, rfl, hnext, heffect⟩ | hlog | ⟨k, t, ht, haction, hlog⟩ | ⟨m, hlog⟩
  · simp only [Config.gateRespected, hnext] at hmeets
    obtain ⟨n, role⟩ := tag
    generalize cfg'.world = w' at heffect ⊢
    cases heffect with
    | @read use id m found =>
      refine ⟨?_, h⟩
      cases role <;> cases use <;>
        first | trivial | simpa [found, GateRespected, Role.writer] using hmeets
    | done t err =>
      cases t with
      | none => exact ⟨trivial, h⟩
      | some t => exact ⟨trivial, trivial, h⟩
    | _ => first | exact h | exact ⟨trivial, h⟩ | exact ⟨trivial, trivial, h⟩
  · rw [hlog]
    exact h
  · rw [hlog]
    refine ⟨?_, h⟩
    rcases haction with ⟨c, rfl⟩ | ⟨q, rfl⟩
    · simpa [Config.gateRespected, ht, GateRespected] using hmeets
    · simpa [Config.gateRespected, ht, GateRespected] using hmeets
  · rw [hlog]
    exact ⟨trivial, h⟩

/-- In every run that respects the gate, all tasks a started task depends on were
stored as complete before its handler started. -/
theorem handlers_wait_for_dependencies (start : Int) (actions : List Action) (cfg : Config)
    (hrun : (Config.init start).runWhile Config.gateRespected actions = some cfg)
    (post pre : List Event) (n next : Nat) (t : Copy) (item : ProcessItem)
    (hstarted : cfg.world.log = post ++ .started n next t item :: pre)
    (d : String) (hd : d ∈ t.dependencies) :
    ∃ m, Written pre m ∧ m.task.id = d ∧ m.task.state = .completed := by
  have hreached : cfg.Inv ∧ Always GateRespected cfg.world.log :=
    Interaction.runWhile_induction
      (P := fun cfg : Config => cfg.Inv ∧ Always GateRespected cfg.world.log)
      (fun h hmeets hs => ⟨h.1.step hs, GateRespected.step h.2 hmeets hs⟩) actions
      ⟨Config.Inv.init start, trivial⟩ hrun
  obtain ⟨hinv, hgate⟩ := hreached
  have hvalid := hinv.world.valid
  rw [hstarted] at hgate hvalid
  obtain ⟨old, seq, hsaved, -, -, hactive⟩ := hvalid.at
  have hwritten : Written pre ⟨seq, t.toTask⟩ := ⟨_, _, _, _, hsaved⟩
  have hgated := hwritten.gated hvalid.of_append.tail hgate.of_append.tail
  have hcomplete := hgated.complete (by rw [show t.toTask.state = .active from hactive]; rfl)
  exact completedBefore_iff.mp (List.all_eq_true.mp hcomplete d hd)

/-- Two tasks, the first of which waits for the second. -/
def enqueueDependent : List Action :=
  [.newTask { sampleTask with id := "T2" }, .enqueue sampleClient 0] ++ answered 0 4 ++
    [.newTask { sampleTask with dependencies := ["T2"], state := .blocked },
      .enqueue sampleClient 3] ++ answered 1 4

/-- The second task is handled, then the first is delivered and passes the gate. -/
def handleInOrder : List Action :=
  enqueueDependent ++ .deliver ⟨sampleClient⟩ "T2" :: answered 2 6 ++
    .run 3 (.handled (.ok "")) :: answered 3 6 ++ .deliver ⟨sampleClient⟩ "T1" :: answered 4 7

theorem handlers_wait_for_dependencies_sample :
    ∃ cfg n next t item pre,
      (Config.init 0).runWhile Config.gateRespected handleInOrder = some cfg ∧
      cfg.world.log = .started n next t item :: pre ∧ "T2" ∈ t.dependencies ∧
      ∃ m, Written pre m ∧ m.task.id = "T2" ∧ m.task.state = .completed := by
  have hrun : ((Config.init 0).runWhile Config.gateRespected handleInOrder).any
      (fun cfg => justStarted (fun t _ => "T2" ∈ t.dependencies) cfg.world.log) = true := by
    decide +kernel
  obtain ⟨cfg, n, next, t, item, pre, hcfg, hlog, hd⟩ := exists_started hrun
  have hd : "T2" ∈ t.dependencies := of_decide_eq_true hd
  exact ⟨cfg, n, next, t, item, pre, hcfg, hlog, hd,
    handlers_wait_for_dependencies 0 _ cfg hcfg [] pre n next t item hlog "T2" hd⟩

/-- The first task is retried by hand while it is blocked, and then delivered. -/
def retryBlocked : List Action :=
  enqueueDependent ++ .retry sampleClient "T1" :: answered 2 5 ++ startSample 3

/-- Its handler starts although the task it depends on was never complete. -/
theorem retried_task_skips_dependencies :
    ∃ cfg n next t item pre,
      (Config.init 0).run retryBlocked = some cfg ∧
      cfg.world.log = .started n next t item :: pre ∧ "T2" ∈ t.dependencies ∧
      ¬ ∃ m, Written pre m ∧ m.task.id = "T2" ∧ m.task.state = .completed := by
  have hrun : ((Config.init 0).run retryBlocked).any (fun cfg =>
      justStarted (fun t pre => "T2" ∈ t.dependencies ∧ completedBefore pre "T2" = false)
        cfg.world.log) = true := by
    decide +kernel
  obtain ⟨cfg, n, next, t, item, pre, hcfg, hlog, htest⟩ := exists_started hrun
  obtain ⟨hd, hnever⟩ := of_decide_eq_true htest
  refine ⟨cfg, n, next, t, item, pre, hcfg, hlog, hd, ?_⟩
  rw [← completedBefore_iff, hnever]
  exact Bool.false_ne_true

end AsyncJobs
