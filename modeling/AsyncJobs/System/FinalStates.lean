import AsyncJobs.System.Revisions

/-!
# Handlers and final states

The `switch` of `processMessage` returns for complete, expired and unreachable
tasks but not for terminated ones. A task that was stored as terminated and whose
item comes back is activated again. As long as no worker comes across such a task,
no handler starts for a task that was stored in a final state and not retried.
-/

namespace AsyncJobs

/-- The task was stored in a final state and `RetryTaskByID` has not put it back since. -/
def finished (id : String) : List Event → Bool
  | [] => false
  | .saved _ writer _ new _ :: log =>
    if new.task.id = id then
      if new.task.state.final then true
      else if writer = .retrier ∧ new.task.state = .retry then false
      else finished id log
    else finished id log
  | _ :: log => finished id log

/-- The task was stored in a final state at some time. -/
def everFinal (id : String) (log : List Event) : Bool :=
  log.any fun
    | .saved _ _ _ new _ => new.task.id = id ∧ new.task.state.final
    | _ => false

theorem everFinal_of_finished {id : String} {log : List Event} (h : finished id log = true) :
    everFinal id log = true := by
  induction log with
  | nil => cases h
  | cons e log ih =>
    unfold everFinal at ih ⊢
    rw [List.any_cons, Bool.or_eq_true]
    cases e with
    | saved n writer old new acked =>
      simp only [finished] at h
      split_ifs at h with hid hfinal
      · exact Or.inl (by simp [hid, hfinal])
      · exact Or.inr (ih h)
      · exact Or.inr (ih h)
    | _ => exact Or.inr (ih h)

instance (t : Task) : Decidable t.outOfTries := inferInstanceAs (Decidable (_ ∧ _))

/-- A terminated task that the rest of `processMessage` would still run. -/
def Task.revivable (t : Task) (now : Int) : Bool :=
  t.state = .terminated ∧ t.isPastDeadline now = false ∧ ¬ t.outOfTries

/-- Three things do not happen: a worker loads a terminated task it would still run,
a worker starts a handler although its activation is no longer what is stored, and a
caller enqueues a task again that was stored in a final state. -/
def Config.clearOfFinals (cfg : Config) : Action → Bool
  | .run i _ =>
    match cfg.nextCall i with
    | some (⟨_, .worker _ _⟩, .readLast .task id) =>
      match cfg.world.readLast id with
      | some m => !m.task.revivable cfg.world.clock
      | none => true
    | some (_, .goHandle t _) =>
      cfg.world.stored t.id = some ⟨t.storageOptions.getD 0, t.toTask⟩
    | some (tag, .publishTask t) =>
      tag.role.writer ≠ .enqueuer ∨ t.state = .queueError ∨ everFinal t.id cfg.world.log = false
    | _ => true
  | _ => true

/-- The same three conditions on an event of the log. -/
def ClearOfFinals (log : List Event) : Event → Prop
  | .read _ .worker .task m clock => m.task.revivable clock = false
  | .started _ _ t _ => current t.id log = some ⟨t.storageOptions.getD 0, t.toTask⟩
  | .saved _ .enqueuer _ new _ =>
    new.task.state = .queueError ∨ everFinal new.task.id log = false
  | _ => True

abbrev AllClear (log : List Event) : Prop := Always ClearOfFinals log

theorem AllClear.read {log : List Event} (h : AllClear log) {n : Nat} {m : StoredTask}
    {clock : Int} (hmem : Event.read n .worker .task m clock ∈ log) :
    m.task.revivable clock = false := by
  obtain ⟨post, pre, rfl⟩ := List.append_of_mem hmem
  exact h.at

theorem isPastDeadline_mono {t : Task} {now later : Int} (h : now ≤ later)
    (hlater : t.isPastDeadline later = false) : t.isPastDeadline now = false := by
  unfold Task.isPastDeadline at hlater ⊢
  split at hlater
  · rfl
  · simp only [decide_eq_false_iff_not] at hlater ⊢
    omega

theorem Eligible.not_final {log : List Event} (h : AllClear log) {p : Processor} {n : Nat}
    {m : StoredTask} (he : Eligible p n log m) : ¬ m.task.state.final = true := by
  intro hfinal
  obtain ⟨⟨loadedAt, hadmitted, later, hlater, hdeadline⟩, htries⟩ := he
  have hrevive := h.read hadmitted.loaded
  have hpast := isPastDeadline_mono hlater hdeadline
  simp [Task.revivable, hadmitted.terminated hfinal, hpast, htries] at hrevive

/-- Once a task was stored in a final state, only `RetryTaskByID` stores anything but
a final state over what is stored. -/
theorem Change.after_final {log : List Event} (hclear : AllClear log) {writer : Writer} {n : Nat}
    {old : Option StoredTask} {new : StoredTask} {acked : Bool}
    (hc : Change writer n log old new.task)
    (hsaved : ClearOfFinals log (.saved n writer old new acked))
    (hever : everFinal new.task.id log = true)
    (hfinal : ∀ m, old = some m → m.task.state.final = true) :
    new.task.state.final = true ∨ (writer = .retrier ∧ new.task.state = .retry) := by
  have hqueueError : ∀ {t : Task}, ¬ QueueErrorChange n log old t := by
    rintro t ⟨-, m, lastErr, hold, henq, -⟩
    exact henq.not_final (hfinal m hold)
  cases writer with
  | worker =>
    obtain ⟨p, m, hold, hchange⟩ := hc
    generalize new.task = t at hchange
    cases hchange with
    | expire admitted exceeded => exact Or.inl rfl
    | unreachable eligible blocked dependent results lastErr now => exact Or.inl rfl
    | activate eligible done results now =>
      exact absurd (hfinal m hold) (eligible.not_final hclear)
  | handler =>
    obtain ⟨c, m, hold, hactive, -⟩ := hc
    have hm := hfinal m hold
    rw [hactive] at hm
    cases hm
  | enqueuer =>
    generalize htask : new.task = t at hc
    cases hc with
    | submit given state queue signature =>
      rcases hsaved with hqueue | hnever
      · rw [htask] at hqueue
        rcases state with h | h | h <;> simp [h] at hqueue
      · rw [hever] at hnever
        cases hnever
    | queueError change => exact absurd change hqueueError
  | retrier =>
    generalize new.task = t at hc
    cases hc with
    | retry loadedAt loaded known queue => exact Or.inr ⟨rfl, rfl⟩
    | queueError change => exact absurd change hqueueError
  | reader => exact hc.elim

theorem final_of_finished {log : List Event} (hv : Valid log) (hc : AllClear log) {id : String} :
    ∀ {m}, current id log = some m → finished id log = true → m.task.state.final = true := by
  induction log with
  | nil =>
    intro m h
    cases h
  | cons e log ih =>
    intro m hcurrent hfinished
    have ih' : ∀ {m}, current id log = some m → finished id log = true →
        m.task.state.final = true := ih hv.tail hc.2
    cases e with
    | saved n writer old new acked =>
      simp only [current] at hcurrent
      simp only [finished] at hfinished
      split_ifs at hcurrent hfinished with hid hfinal hretry
      · cases hcurrent
        exact hfinal
      · obtain ⟨hold, -, hchange, -⟩ := hv.1
        have hever : everFinal new.task.id log = true := hid ▸ everFinal_of_finished hfinished
        have hbase : ∀ r, old = some r → r.task.state.final = true := fun r hr =>
          ih' (hid ▸ hold.symm.trans hr) hfinished
        rcases hchange.after_final hc.2 hc.1 hever hbase with hnew | hnew
        · exact absurd hnew hfinal
        · exact absurd hnew hretry
      · exact ih' hcurrent hfinished
    | _ =>
      rcases current_cons hcurrent with ⟨_, _, _, _, heq, -⟩ | hcurrent
      · cases heq
      · exact ih' hcurrent hfinished

theorem AllClear.step {cfg cfg' : Config} {a : Action} (h : AllClear cfg.world.log)
    (hinv : cfg.Inv) (hmeets : cfg.clearOfFinals a = true) (hs : cfg.step a = some cfg') :
    AllClear cfg'.world.log := by
  rcases Config.step_logged hs with
    ⟨i, o, tag, c, rfl, hnext, heffect⟩ | hlog | ⟨k, t, -, -, hlog⟩ | ⟨m, hlog⟩
  · simp only [Config.clearOfFinals, hnext] at hmeets
    obtain ⟨n, role⟩ := tag
    generalize cfg'.world = w' at heffect ⊢
    cases heffect with
    | @read use id m found =>
      refine ⟨?_, h⟩
      cases role <;> cases use <;>
        first | trivial | simpa [found, ClearOfFinals, Role.writer] using hmeets
    | @save t accepted acked =>
      refine ⟨?_, h⟩
      cases role <;> first | trivial | simpa [ClearOfFinals, Role.writer] using hmeets
    | start t item =>
      refine ⟨?_, h⟩
      rw [ClearOfFinals, ← hinv.world.stored]
      simpa using hmeets
    | done t err =>
      cases t with
      | none => exact ⟨trivial, h⟩
      | some t => exact ⟨trivial, trivial, h⟩
    | _ => first | exact h | exact ⟨trivial, h⟩ | exact ⟨trivial, trivial, h⟩
  · rw [hlog]
    exact h
  · rw [hlog]
    exact ⟨trivial, h⟩
  · rw [hlog]
    exact ⟨trivial, h⟩

/-- In every run that stays clear of the three situations, a handler starts only for
a task that was not stored in a final state since it was last retried. -/
theorem handlers_respect_final_states (start : Int) (actions : List Action) (cfg : Config)
    (hrun : (Config.init start).runWhile Config.clearOfFinals actions = some cfg)
    (post pre : List Event) (n next : Nat) (t : Copy) (item : ProcessItem)
    (hstarted : cfg.world.log = post ++ .started n next t item :: pre) :
    finished t.id pre = false := by
  have hreached : cfg.Inv ∧ AllClear cfg.world.log :=
    Interaction.runWhile_induction (P := fun cfg : Config => cfg.Inv ∧ AllClear cfg.world.log)
      (fun h hmeets hs => ⟨h.1.step hs, h.2.step h.1 hmeets hs⟩) actions
      ⟨Config.Inv.init start, trivial⟩ hrun
  obtain ⟨hinv, hclear⟩ := hreached
  have hvalid := hinv.world.valid
  rw [hstarted] at hclear hvalid
  have hcurrent := hclear.at
  obtain ⟨old, seq, -, -, -, hactive⟩ := hvalid.at
  cases hfinished : finished t.id pre with
  | false => rfl
  | true =>
    have hfinal := final_of_finished hvalid.of_append.tail hclear.of_append.tail hcurrent hfinished
    rw [show t.toTask.state = .active from hactive] at hfinal
    cases hfinal

theorem handlers_respect_final_states_sample :
    ∃ cfg post n next t item pre,
      (Config.init 0).runWhile Config.clearOfFinals (enqueueSample ++ startSample 1) = some cfg ∧
      cfg.world.log = post ++ .started n next t item :: pre ∧ finished t.id pre = false := by
  have hrun : ((Config.init 0).runWhile Config.clearOfFinals
      (enqueueSample ++ startSample 1)).any
      (fun cfg => justStarted (fun _ _ => true) cfg.world.log) = true := by
    decide +kernel
  obtain ⟨cfg, n, next, t, item, pre, hcfg, hlog, -⟩ := exists_started hrun
  exact ⟨cfg, [], n, next, t, item, pre, hcfg, hlog,
    handlers_respect_final_states 0 _ cfg hcfg [] pre n next t item hlog⟩

/-- The handler terminates the task, the termination of its item fails, and the item
is delivered again after the acknowledgement wait. -/
def terminateAndRedeliver : List Action :=
  enqueueSample ++ startSample 1 ++
    [.run 2 (.handled (.error Sentinel.terminateTask.error))] ++ answered 2 3 ++
    [.run 2 (.failed (.plain "nats: timeout")), .run 2 .ok, .tick 100] ++ startSample 3

/-- A second handler starts for a task that is stored as terminated. -/
theorem terminated_task_is_restarted :
    ∃ cfg n next t item pre,
      (Config.init 0).run terminateAndRedeliver = some cfg ∧
      cfg.world.log = .started n next t item :: pre ∧ finished t.id pre = true := by
  have hrun : ((Config.init 0).run terminateAndRedeliver).any
      (fun cfg => justStarted (fun t pre => finished t.id pre) cfg.world.log) = true := by
    decide +kernel
  exact exists_started hrun

end AsyncJobs
