import AsyncJobs.System.Provenance
import AsyncJobs.System.Revisions

/-!
# Handlers and the limit on tries

`processMessage` compares the stored `Tries` with `MaxTries` before it activates a task, but
`handle` counts its try in memory, and the count reaches the store only with the outcome. A
worker that stops in between, or whose save is refused, leaves a record that does not know
of the try. As long as no handler is started from such a record, at most `MaxTries` handlers
are started.
-/

namespace AsyncJobs

open Interaction

def Event.startsFor (id : String) : Event → Bool
  | .started _ _ t _ => t.id = id
  | _ => false

/-- The number of handlers that were started for a task. -/
def handlersStarted (id : String) (log : List Event) : Nat := log.countP (Event.startsFor id)

def ran (m : StoredTask) (log : List Event) : Bool :=
  log.any fun
    | .started _ _ t _ => t.storageOptions = some m.seq
    | _ => false

/-- Three events do not happen to the task: a worker activates it over an active revision on
which a handler was started, a worker starts a handler although its activation is no longer
what is stored, and a caller enqueues it with a `Tries` below the number of handlers started. -/
def keepsCount (id : String) (log : List Event) : Event → Bool
  | .saved _ .worker old new _ =>
    new.task.id ≠ id ∨ new.task.state ≠ .active ∨
      old.all fun r => r.task.state ≠ .active ∨ ran r log = false
  | .saved _ .enqueuer _ new _ =>
    new.task.id ≠ id ∨ new.task.state = .queueError ∨ handlersStarted id log ≤ new.task.tries
  | .started _ _ t _ =>
    t.id ≠ id ∨ current id log = some ⟨t.storageOptions.getD 0, t.toTask⟩
  | _ => true

/-- Every stored revision of the task has this `MaxTries`, and `RetryTaskByID` stored none. -/
def limited (id : String) (m : Int) (log : List Event) : Bool :=
  log.all fun
    | .saved _ writer _ new _ =>
      new.task.id ≠ id ∨ (new.task.maxTries = m ∧ writer ≠ .retrier)
    | _ => true

abbrev KeepsCount (id : String) (log : List Event) : Prop :=
  Always (fun log e => keepsCount id log e = true) log

/-- A stored revision counts the handlers started so far. One is missing while its handler
has not stored the outcome; an expired task keeps what it had. -/
def Counts (id : String) (log : List Event) (r : StoredTask) : Prop :=
  handlersStarted id log ≤ r.task.tries ∨
    (handlersStarted id log ≤ r.task.tries + 1 ∧
      (r.task.state = .active ∧ ran r log = true ∨ r.task.state = .expired))

section Log

variable {id : String} {log : List Event} {n : Nat}

theorem Counts.settled {r : StoredTask} (h : Counts id log r) (hactive : r.task.state ≠ .active)
    (hexpired : r.task.state ≠ .expired) : handlersStarted id log ≤ r.task.tries := by
  rcases h with h | ⟨-, ⟨hstate, -⟩ | hstate⟩
  · exact h
  · exact absurd hstate hactive
  · exact absurd hstate hexpired

theorem Counts.one_missing {r : StoredTask} (h : Counts id log r) :
    handlersStarted id log ≤ r.task.tries + 1 := by
  rcases h with h | ⟨h, -⟩
  · omega
  · exact h

theorem Counts.cons {e : Event} {r : StoredTask} (he : e.startsFor id = false)
    (h : Counts id log r) : Counts id (e :: log) r := by
  have hcount : handlersStarted id (e :: log) = handlersStarted id log :=
    List.countP_cons_of_neg (by simp [he])
  rcases h with h | ⟨h, hstate⟩
  · exact Or.inl (hcount ▸ h)
  · refine Or.inr ⟨hcount ▸ h, hstate.imp_left fun ⟨hactive, hran⟩ => ⟨hactive, ?_⟩⟩
    unfold ran at hran ⊢
    rw [List.any_cons, hran, Bool.or_true]

/-- The compensating save of a failed `EnqueueTask` keeps the count. -/
theorem QueueErrorChange.counts {old : Option StoredTask} {t : Task}
    (hc : QueueErrorChange n log old t) (hold : ∀ r, old = some r → Counts id log r) :
    handlersStarted id log ≤ t.tries := by
  obtain ⟨-, r, lastErr, hr, henq, rfl⟩ := hc
  apply (hold r hr).settled
  · rcases henq with h | h | h <;> simp [h]
  · rcases henq with h | h | h <;> simp [h]

/-- What a save leaves counts what its base counted: only the save of an outcome counts one
more, and it is made over an active revision. -/
theorem Change.counts {writer : Writer} {old : Option StoredTask} {new : StoredTask}
    {acked : Bool} (hc : Change writer n log old new.task) (hid : new.task.id = id)
    (hkeeps : keepsCount id log (.saved n writer old new acked) = true)
    (hretry : writer ≠ .retrier) (hold : ∀ r, old = some r → Counts id log r) :
    handlersStarted id log ≤ new.task.tries ∨
      (handlersStarted id log ≤ new.task.tries + 1 ∧ new.task.state = .expired) := by
  cases writer with
  | worker =>
    obtain ⟨p, r, rfl, hchange⟩ := hc
    have hr := hold r rfl
    generalize htask : new.task = t at hchange
    cases hchange with
    | expire admitted exceeded => exact Or.inr ⟨hr.one_missing, rfl⟩
    | unreachable eligible blocked dependent results lastErr now =>
      exact Or.inl (hr.settled (by simp [blocked]) (by simp [blocked]))
    | activate eligible done results now =>
      left
      obtain ⟨⟨loadedAt, hadmitted, -⟩, -⟩ := eligible
      rcases hr with hr | ⟨-, ⟨hactive, hran⟩ | hexpired⟩
      · exact hr
      · simp [keepsCount, htask, hactive, hran, ← hid] at hkeeps
      · obtain ⟨now, -, hstops⟩ := hadmitted.passed
        simp [Processor.stops, hexpired] at hstops
  | handler =>
    obtain ⟨c, r, rfl, hactive, hchange⟩ := hc
    have hr := (hold r rfl).one_missing
    left
    generalize new.task = t at hchange
    cases hchange with
    | succeed => exact hr
    | terminate => exact hr
    | fail => exact hr
  | enqueuer =>
    left
    generalize htask : new.task = t at hc
    cases hc with
    | submit given state queue signature =>
      have hstate : new.task.state ≠ .queueError := by
        rw [htask]
        rcases state with h | h | h <;> simp [h]
      rcases of_decide_eq_true hkeeps with hother | hqueue | hcount
      · exact absurd hid hother
      · exact absurd hqueue hstate
      · rwa [htask] at hcount
    | queueError change => exact change.counts hold
  | retrier => exact absurd rfl hretry
  | reader => exact hc.elim

theorem Valid.activated_tries (hv : Valid log) {old : Option StoredTask} {new : StoredTask}
    {acked : Bool} (h : Event.saved n .worker old new acked ∈ log)
    (hactive : new.task.state = .active) (hmax : 0 < new.task.maxTries) :
    new.task.tries < new.task.maxTries := by
  obtain ⟨post, pre, rfl⟩ := List.append_of_mem h
  obtain ⟨-, -, ⟨p, r, -, hchange⟩, -⟩ := hv.at
  generalize new.task = t at hactive hmax hchange
  cases hchange with
  | expire => cases hactive
  | unreachable => cases hactive
  | activate eligible done results now =>
    have htries := eligible.tries
    simp only [Task.outOfTries, not_and, not_le] at htries
    exact htries hmax

/-- A worker starts one handler at most, so a revision is started on once. -/
theorem not_ran_before (hv : Valid log) (honce : Always StartsOnce log) {next : Nat} {t : Copy}
    {item : ProcessItem} {r : StoredTask} (hj : Justified log (.started n next t item))
    (hfirst : StartsOnce log (.started n next t item)) (hr : t.storageOptions = some r.seq) :
    ran r log = false := by
  rw [Bool.eq_false_iff]
  intro hran
  obtain ⟨e, he, hstarted⟩ := List.any_eq_true.mp hran
  split at hstarted
  · rename_i n' next' t' item'
    obtain ⟨post, pre, rfl⟩ := List.append_of_mem he
    obtain ⟨old, seq, hsaved, -, hseq, -⟩ := hj
    obtain ⟨old', seq', hsaved', -, hseq', -⟩ := hv.at
    have hsame : seq = seq' := by
      have h := hseq.symm.trans (hr.trans ((of_decide_eq_true hstarted).symm.trans hseq'))
      exact Option.some.inj h
    have heq := hv.saved_inj hsaved
      (List.mem_append_right post (List.mem_cons_of_mem _ hsaved')) hsame
    injection heq with hn
    exact hfirst next' t' item' (hn ▸ he)
  · cases hstarted

theorem written_limited {m : Int} (h : limited id m log = true) {r : StoredTask}
    (hr : Written log r) (hid : r.task.id = id) : r.task.maxTries = m := by
  obtain ⟨n, writer, old, acked, hmem⟩ := hr
  rcases of_decide_eq_true (List.all_eq_true.mp h _ hmem) with hother | ⟨hmax, -⟩
  · exact absurd hid hother
  · exact hmax

/-- At most `m` handlers were started, and what is stored counts them. -/
structure Counted (id : String) (m : Int) (log : List Event) : Prop where
  bound : handlersStarted id log ≤ m
  counts : ∀ r, current id log = some r → Counts id log r

section Counted

variable {m : Int} {next : Nat} {t : Copy} {item : ProcessItem}

/-- An event that neither starts a handler for the task nor saves the task. -/
theorem Counted.quiet (h : Counted id m log) {e : Event} (hstarts : e.startsFor id = false)
    (hsaves : ∀ n writer old new acked, e = .saved n writer old new acked → new.task.id ≠ id) :
    Counted id m (e :: log) := by
  constructor
  · rw [handlersStarted, List.countP_cons_of_neg (by simp [hstarts])]
    exact h.bound
  · intro r hr
    rcases current_cons hr with ⟨n, writer, old, acked, heq, hid⟩ | hr
    · exact absurd hid (hsaves n writer old r acked heq)
    · exact (h.counts r hr).cons hstarts

theorem Counted.saved (h : Counted id m log) {writer : Writer} {old : Option StoredTask}
    {new : StoredTask} {acked : Bool} (hj : Justified log (.saved n writer old new acked))
    (hkeeps : keepsCount id log (.saved n writer old new acked) = true)
    (hretry : new.task.id = id → writer ≠ .retrier) :
    Counted id m (.saved n writer old new acked :: log) := by
  obtain ⟨hold, -, hchange, -⟩ := hj
  by_cases hid : new.task.id = id
  · constructor
    · rw [handlersStarted, List.countP_cons_of_neg (by simp [Event.startsFor])]
      exact h.bound
    · intro r hr
      simp only [current, hid, if_true, Option.some.injEq] at hr
      subst hr
      apply Counts.cons rfl
      have hbase : ∀ r, old = some r → Counts id log r := by
        intro r hr
        apply h.counts
        rw [← hid, ← hold, hr]
      rcases hchange.counts hid hkeeps (hretry hid) hbase with h | ⟨h, hstate⟩
      · exact Or.inl h
      · exact Or.inr ⟨h, Or.inr hstate⟩
  · apply h.quiet rfl
    intro _ _ _ _ _ heq
    cases heq
    exact hid

/-- A handler is started on a record that counts all the others, and that has a try left. -/
theorem Counted.before_start (h : Counted id m log) (hv : Valid log)
    (honce : Always StartsOnce log) (hj : Justified log (.started n next t item))
    (hfirst : StartsOnce log (.started n next t item)) (hm : 0 < m)
    (hlimited : limited id m log = true) (hid : t.id = id) {seq : Nat}
    (hseq : t.storageOptions = some seq) (hstored : current id log = some ⟨seq, t.toTask⟩) :
    handlersStarted id log ≤ t.tries ∧ t.tries < m := by
  have hidle : ran ⟨seq, t.toTask⟩ log = false := not_ran_before hv honce hj hfirst hseq
  obtain ⟨old, seq', hsaved, -, -, hactive⟩ := hj
  constructor
  · rcases h.counts _ hstored with h | ⟨-, ⟨-, hran⟩ | hexpired⟩
    · exact h
    · rw [hidle] at hran
      cases hran
    · rw [show t.toTask.state = .active from hactive] at hexpired
      cases hexpired
  · have hlimit : t.maxTries = m := written_limited hlimited (current_written hstored).1 hid
    rw [← hlimit]
    exact hv.activated_tries hsaved hactive (hlimit ▸ hm)

theorem Counted.started (h : Counted id m log) (hv : Valid log) (honce : Always StartsOnce log)
    (hj : Justified log (.started n next t item))
    (hfirst : StartsOnce log (.started n next t item))
    (hkeeps : keepsCount id log (.started n next t item) = true) (hm : 0 < m)
    (hlimited : limited id m log = true) : Counted id m (.started n next t item :: log) := by
  by_cases hid : t.id = id
  · have hactivated := hj
    obtain ⟨old, seq, -, -, hseq, hactive⟩ := hactivated
    have hstored : current id log = some ⟨seq, t.toTask⟩ := by
      simpa [keepsCount, hid, hseq] using hkeeps
    obtain ⟨hcounted, htry⟩ :=
      h.before_start hv honce hj hfirst hm hlimited hid hseq hstored
    have hcount : handlersStarted id (.started n next t item :: log) =
        handlersStarted id log + 1 :=
      List.countP_cons_of_pos (by simp [Event.startsFor, hid])
    constructor
    · rw [hcount]
      omega
    · intro r hr
      have hr : r = ⟨seq, t.toTask⟩ := Option.some.inj (hr.symm.trans hstored)
      subst hr
      right
      constructor
      · rw [hcount]
        push_cast
        exact Int.add_le_add_right hcounted 1
      · left
        exact ⟨hactive, by simp [ran, hseq]⟩
  · exact h.quiet (by simp [Event.startsFor, hid]) (by simp)

theorem handlers_counted (hv : Valid log) (honce : Always StartsOnce log)
    (hkeeps : KeepsCount id log) (hm : 0 < m) (hlimited : limited id m log = true) :
    Counted id m log := by
  induction log with
  | nil =>
    constructor
    · exact Int.le_of_lt hm
    · intro r hr
      cases hr
  | cons e log ih =>
    rw [limited, List.all_cons, Bool.and_eq_true] at hlimited
    obtain ⟨hevent, hrest⟩ := hlimited
    have h := ih hv.tail honce.tail hkeeps.tail hrest
    cases e with
    | saved n writer old new acked =>
      apply h.saved hv.1 hkeeps.1
      intro hid
      rcases of_decide_eq_true hevent with hother | ⟨-, hwriter⟩
      · exact absurd hid hother
      · exact hwriter
    | started n next t item =>
      exact h.started hv.tail honce.tail hv.1 honce.1 hkeeps.1 hm hrest
    | _ => exact h.quiet rfl (by simp)

end Counted

end Log

/-! ### Invocations -/

/-- The action is the end of a handler's run for the task. -/
def Config.invokes (id : String) (cfg : Config) : Action → Bool
  | .run i _ => cfg.handlerRuns id i
  | _ => false

/-- How often handlers for the task ran to their end in a run. -/
def Config.invocations (id : String) (cfg : Config) : List Action → Nat
  | [] => 0
  | a :: actions =>
    (if cfg.invokes id a then 1 else 0) +
      match cfg.step a with
      | none => 0
      | some next => next.invocations id actions

/-- The handler of the task is what the thread runs next. -/
def runsNext (id : String) (th : Thread jobs Tag) : Bool :=
  match th.prog with
  | .call (.runHandler t) _ => t.id = id
  | _ => false

theorem runsNext_of_yields (id : String) (tag : Tag) {prog : Job Unit}
    (h : prog.Yields (¬ Call.Runs ·) fun _ => True) : runsNext id ⟨tag, prog⟩ = false := by
  cases prog with
  | ret a => rfl
  | call c k =>
    cases c with
    | runHandler t => exact absurd trivial h.1
    | _ => rfl

def Config.running (id : String) (cfg : Config) : Nat := cfg.threads.countP (runsNext id)

namespace Config

variable {id : String} {cfg cfg' : Config} {a : Action}

theorem running_spawn {w : World} {role : Role} (hrole : role.writer ≠ .handler) :
    (cfg.spawn w role).running id = cfg.running id := by
  have hnone : ∀ t, ¬ role.scope.runs t := by
    rcases role.handler_or_runs_none with ⟨p, t, item, rfl⟩ | hnone
    · exact absurd rfl hrole
    · exact hnone
  have hnext := runsNext_of_yields id ⟨w.nextCopy, role⟩ (role.prog_runs_none hnone)
  show (cfg.threads ++ _).countP _ = _
  rw [List.countP_append, List.countP_singleton, hnext]
  rfl

theorem running_set {i : Nat} {th : Thread jobs Tag} (after : Thread jobs Tag)
    (hget : cfg.threads[i]? = some th) (hafter : runsNext id after = false) :
    (cfg.threads.set i after).countP (runsNext id) + (if runsNext id th then 1 else 0) =
      cfg.running id := by
  obtain ⟨hlt, hth⟩ := List.getElem?_eq_some_iff.mp hget
  rw [List.countP_set hlt, hth, hafter, running, if_neg Bool.false_ne_true]
  split_ifs with hnext
  · have hpos : 0 < cfg.threads.countP (runsNext id) :=
      List.countP_pos_iff.mpr ⟨th, List.mem_of_getElem? hget, hnext⟩
    omega
  · rfl

theorem spawned_running {tag : Tag} (next : Nat) {c : Call} {o : Outcome} {r : c.Reply}
    {w w' : World} (hexec : w.exec tag.holder tag.role.writer c o = some (r, w')) :
    (spawned tag next c).countP (runsNext id) + handlersStarted id w.log ≤
      handlersStarted id w'.log := by
  have hgrows : handlersStarted id w.log ≤ handlersStarted id w'.log := by
    obtain ⟨es, hlog, -⟩ := (World.exec_effect hexec).acts
    rw [hlog, handlersStarted, handlersStarted, List.countP_append]
    omega
  cases c with
  | goHandle t item =>
    cases o <;> cases hexec
    cases hrole : tag.role with
    | worker p given =>
      have hnext : runsNext id ⟨⟨next, .handler p t item⟩, p.handle t item⟩ =
        Event.startsFor id (.started tag.holder w.nextCopy t item) := rfl
      simp only [spawned, hrole, List.countP_singleton, hnext]
      rw [World.beginHandler, handlersStarted, handlersStarted, List.countP_cons]
      omega
    | _ =>
      simp only [spawned, hrole, List.countP_nil, Nat.zero_add]
      exact hgrows
  | _ =>
    simp only [spawned, List.countP_nil, Nat.zero_add]
    exact hgrows

/-- Every handler that runs was started before: the one that ends was running, and one that
begins is recorded. -/
theorem Accounted.invokes_step (h : cfg.Accounted) (id : String) (hs : Step cfg a cfg') :
    (if cfg.invokes id a then 1 else 0) + cfg'.running id + handlersStarted id cfg.world.log ≤
      cfg.running id + handlersStarted id cfg'.world.log := by
  have hidle : cfg.invokes id a = false → cfg'.running id ≤ cfg.running id →
      handlersStarted id cfg.world.log ≤ handlersStarted id cfg'.world.log →
      (if cfg.invokes id a then 1 else 0) + cfg'.running id + handlersStarted id cfg.world.log ≤
        cfg.running id + handlersStarted id cfg'.world.log := by
    intro hnone hrunning hstarted
    rw [hnone, if_neg Bool.false_ne_true]
    omega
  cases hs with
  | @request i o tag c k r w hget hexec =>
    have hthread := h.threads _ (List.mem_of_getElem? hget)
    have hset := running_set ⟨tag, k r⟩ hget (runsNext_of_yields id tag (hthread.rest_runs r))
    have hspawned : _ ≤ handlersStarted id w.log := spawned_running cfg.world.nextCopy hexec
    have hinvokes : cfg.invokes id (.run i o) = runsNext id ⟨tag, .call c k⟩ := by
      simp only [invokes, handlerRuns, nextCall, hget]
      cases c <;> rfl
    rw [hinvokes, running, List.countP_append]
    show _ ≤ _ + handlersStarted id w.log
    omega
  | @crash i tag prog hget =>
    apply hidle rfl _ (Nat.le_refl _)
    have hset : _ = cfg.running id := running_set ⟨tag, .ret ()⟩ hget rfl
    exact Nat.le_of_add_right_le (Nat.le_of_eq hset)
  | deliver => exact hidle rfl (running_spawn (by simp [Role.writer])).le (Nat.le_refl _)
  | enqueue => exact hidle rfl (running_spawn (by simp [Role.writer])).le (Nat.le_refl _)
  | enqueueInto => exact hidle rfl (running_spawn (by simp [Role.writer])).le (Nat.le_refl _)
  | retry => exact hidle rfl (running_spawn (by simp [Role.writer])).le (Nat.le_refl _)
  | load => exact hidle rfl (running_spawn (by simp [Role.writer])).le (Nat.le_refl _)
  | delete => exact hidle rfl (running_spawn (by simp [Role.writer])).le (Nat.le_refl _)
  | _ => exact hidle rfl (Nat.le_refl _) (Nat.le_refl _)

theorem invocations_le_started (id : String) (actions : List Action) :
    ∀ {cfg : Config}, cfg.Inv → cfg.Accounted → cfg.run actions = some cfg' →
      cfg.invocations id actions + cfg'.running id + handlersStarted id cfg.world.log ≤
        cfg.running id + handlersStarted id cfg'.world.log := by
  induction actions with
  | nil =>
    rintro cfg - - ⟨⟩
    simp [invocations]
  | cons a actions ih =>
    intro cfg hinv hacc hrun
    simp only [run, runWhile, Interaction.runWhile, if_true] at hrun
    split at hrun
    · cases hrun
    · rename_i next hnext
      have hstep := step_sound hnext
      have hfirst := hacc.invokes_step id hstep
      have hrest := ih (hinv.step hnext) (hacc.step hinv hstep) hrun
      simp only [invocations, hnext]
      omega

end Config

/-- In every run that keeps the count, a task with a positive `MaxTries` that is not retried
has no more handlers started, and so no more handlers run, than its `MaxTries`. -/
theorem handlers_within_max_tries (start : Int) (actions : List Action) (cfg : Config)
    (hrun : (Config.init start).run actions = some cfg) (id : String) (m : Int) (hm : 0 < m)
    (hlimited : limited id m cfg.world.log = true) (hkeeps : KeepsCount id cfg.world.log) :
    (Config.init start).invocations id actions ≤ handlersStarted id cfg.world.log ∧
      handlersStarted id cfg.world.log ≤ m := by
  obtain ⟨hinv, hacc⟩ := Config.Accounted.reached hrun
  constructor
  · have hcount := Config.invocations_le_started id actions (Config.Inv.init start)
      (Config.Accounted.init start) hrun
    have hnone : (Config.init start).running id = 0 := rfl
    have hempty : handlersStarted id (Config.init start).world.log = 0 := rfl
    omega
  · exact (handlers_counted hinv.world.valid hacc.startsOnce hkeeps hm hlimited).bound

def enqueueOneTry : List Action :=
  [.newTask { sampleTask with maxTries := 1 }, .enqueue sampleClient 0] ++ answered 0 4

/-- The handler fails once and its outcome is stored. -/
def failWithOneTry : List Action :=
  enqueueOneTry ++ startSample 1 ++ .run 2 (.handled (.error (.plain "no route"))) :: answered 2 5

theorem handlers_within_max_tries_sample :
    ∃ cfg, (Config.init 0).run failWithOneTry = some cfg ∧
      (Config.init 0).invocations "T1" failWithOneTry = 1 ∧
      handlersStarted "T1" cfg.world.log ≤ 1 := by
  have hrun : ((Config.init 0).run failWithOneTry).any (fun cfg =>
      limited "T1" 1 cfg.world.log && decide (KeepsCount "T1" cfg.world.log)) = true := by
    decide +kernel
  obtain ⟨cfg, hcfg, htest⟩ := (Option.any_eq_true _ _).mp hrun
  rw [Bool.and_eq_true, decide_eq_true_eq] at htest
  have hbound := handlers_within_max_tries 0 _ cfg hcfg "T1" 1 (by decide) htest.1 htest.2
  refine ⟨cfg, hcfg, by decide +kernel, ?_⟩
  have hle := hbound.2
  omega

/-- The handler returns and the worker stops before it stores the outcome; the item is
delivered again after the acknowledgement wait and the handler runs once more. -/
def crashBeforeOutcome : List Action :=
  enqueueOneTry ++ startSample 1 ++
    [.run 2 (.handled (.error (.plain "no route"))), .crash 2, .tick 100,
      .deliver ⟨sampleClient⟩ "T1"] ++ answered 3 7 ++ [.run 4 (.handled (.ok "done"))]

/-- A task with one try is tried twice. -/
theorem crash_allows_extra_try :
    ∃ cfg, (Config.init 0).run crashBeforeOutcome = some cfg ∧
      limited "T1" 1 cfg.world.log = true ∧
      1 < (Config.init 0).invocations "T1" crashBeforeOutcome := by
  have hrun : ((Config.init 0).run crashBeforeOutcome).any
      (fun cfg => limited "T1" 1 cfg.world.log) = true := by
    decide +kernel
  obtain ⟨cfg, hcfg, hlimited⟩ := (Option.any_eq_true _ _).mp hrun
  exact ⟨cfg, hcfg, hlimited, by decide +kernel⟩

end AsyncJobs
