import AsyncJobs.System.Dependencies
import AsyncJobs.System.Descent
import Mathlib.Order.WellFounded

/-!
# Tasks run in the order of their dependencies

Dependencies are named when a task is made and no operation changes them afterwards. Where
the gate is respected, a record leaves the waiting states only after its dependencies were
stored as complete, each of which had left them earlier still. So the records that got that
far have only finitely many tasks below them: everything a started task depends on, at any
distance, is complete, and a task that depends on itself never starts.
-/

namespace AsyncJobs

/-- What is handed to `EnqueueTask` names the dependencies the task was made with. -/
def Event.declares (deps : String → List String) : Event → Bool
  | .submitted _ _ t => t.dependencies = deps t.id
  | _ => true

/-- The second task is named by the first as a dependency. -/
def DependsOn (deps : String → List String) (id d : String) : Prop := d ∈ deps id

section Records

variable {deps : String → List String} {log : List Event} {m : StoredTask}

theorem Change.declared {writer : Writer} {n : Nat} {base : Option StoredTask} {t : Task}
    (h : Change writer n log base t) (hdeclared : ∀ e ∈ log, e.declares deps = true)
    (hbase : ∀ r, base = some r → r.task.dependencies = deps r.task.id) :
    t.dependencies = deps t.id := by
  have hcontinues : (∃ r, base = some r ∧ r.task.Continues t) → t.dependencies = deps t.id := by
    rintro ⟨r, hr, hc⟩
    have hid : t.id = r.task.id := congrArg TaskDefinition.id hc.definition
    have hdeps : t.dependencies = r.task.dependencies :=
      congrArg TaskDefinition.dependencies hc.definition
    rw [hid, hdeps]
    exact hbase r hr
  by_cases hwriter : writer = .enqueuer
  · subst hwriter
    cases h with
    | submit given state queue signature => exact of_decide_eq_true (hdeclared _ given)
    | queueError change => exact hcontinues change.continues
  · exact hcontinues (h.continues hwriter)

theorem Written.declared (hv : Valid log) (hdeclared : ∀ e ∈ log, e.declares deps = true)
    (hm : Written log m) : m.task.dependencies = deps m.task.id := by
  induction log generalizing m with
  | nil =>
    obtain ⟨_, _, _, _, hmem⟩ := hm
    cases hmem
  | cons e log ih =>
    have hrest : ∀ e ∈ log, e.declares deps = true :=
      fun e he => hdeclared e (List.mem_cons_of_mem _ he)
    rcases written_cons.mp hm with ⟨n, writer, old, acked, rfl⟩ | hm
    · obtain ⟨hold, -, hchange, -⟩ := hv.1
      apply hchange.declared hrest
      intro r hr
      rw [hr] at hold
      exact ih hv.tail hrest (current_written hold.symm).1
    · exact ih hv.tail hrest hm

/-- Below a record that no longer waits there are only tasks that were complete before it was
stored. The induction is on the log: each of them was stored in a shorter one. -/
theorem Written.accessible (hv : Valid log) (hgate : Always GateRespected log)
    (hdeclared : ∀ e ∈ log, e.declares deps = true) (hm : Written log m)
    (hstate : m.task.state.waits = false) :
    Acc (fun d id => DependsOn deps id d) m.task.id := by
  induction log generalizing m with
  | nil =>
    obtain ⟨_, _, _, _, hmem⟩ := hm
    cases hmem
  | cons e log ih =>
    have hrest : ∀ e ∈ log, e.declares deps = true :=
      fun e he => hdeclared e (List.mem_cons_of_mem _ he)
    rcases written_cons.mp hm with ⟨n, writer, old, acked, rfl⟩ | hm
    · obtain ⟨hold, -, hchange, -⟩ := hv.1
      have hdeps := Written.declared hv hdeclared ⟨n, writer, old, acked, List.mem_cons_self ..⟩
      have hgated : Gated log m.task := by
        apply hchange.gated hgate.tail
        intro r hr
        rw [hr] at hold
        exact (current_written hold.symm).1.gated hv.tail hgate.tail
      constructor
      intro d hd
      have hd : d ∈ m.task.dependencies := by
        rw [hdeps]
        exact hd
      obtain ⟨r, hr, hid, hcompleted⟩ :=
        completedBefore_iff.mp (List.all_eq_true.mp (hgated.complete hstate) d hd)
      rw [← hid]
      exact ih hv.tail hgate.tail hrest hr (by rw [hcompleted]; rfl)
    · exact ih hv.tail hgate.tail hrest hm hstate

/-- Everything below a record that no longer waits was stored as complete. -/
theorem Written.below_complete (hv : Valid log) (hgate : Always GateRespected log)
    (hdeclared : ∀ e ∈ log, e.declares deps = true) {id d : String}
    (hbelow : Relation.TransGen (DependsOn deps) id d) (hm : Written log m)
    (hid : m.task.id = id) (hstate : m.task.state.waits = false) :
    ∃ r, Written log r ∧ r.task.id = d ∧ r.task.state = .completed := by
  have hdirect : ∀ {m : StoredTask} {d : String}, Written log m → m.task.state.waits = false →
      DependsOn deps m.task.id d →
      ∃ r, Written log r ∧ r.task.id = d ∧ r.task.state = .completed := by
    intro m d hm hstate hd
    have hd : d ∈ m.task.dependencies := by
      rw [hm.declared hv hdeclared]
      exact hd
    have hcomplete := (hm.gated hv hgate).complete hstate
    exact completedBefore_iff.mp (List.all_eq_true.mp hcomplete d hd)
  induction hbelow with
  | single hd =>
    subst hid
    exact hdirect hm hstate hd
  | tail _ hd ih =>
    obtain ⟨r, hr, hrid, hcompleted⟩ := ih
    subst hrid
    exact hdirect hr (by rw [hcompleted]; rfl) hd

end Records

/-- In every run that respects the gate, and in which the copies of a task handed to
`EnqueueTask` agree on its dependencies, everything a started task depends on, directly or
through other tasks, was stored as complete before its handler started, and the task does not
depend on itself. -/
theorem handlers_start_in_dependency_order (start : Int) (actions : List Action) (cfg : Config)
    (hrun : (Config.init start).runWhile Config.gateRespected actions = some cfg)
    (deps : String → List String) (hdeclared : ∀ e ∈ cfg.world.log, e.declares deps = true)
    (post pre : List Event) (n next : Nat) (t : Copy) (item : ProcessItem)
    (hstarted : cfg.world.log = post ++ .started n next t item :: pre) :
    (∀ d, Relation.TransGen (DependsOn deps) t.id d →
      ∃ m, Written pre m ∧ m.task.id = d ∧ m.task.state = .completed) ∧
    ¬ Relation.TransGen (DependsOn deps) t.id t.id := by
  have hreached : cfg.Inv ∧ Always GateRespected cfg.world.log :=
    Interaction.runWhile_induction
      (P := fun cfg : Config => cfg.Inv ∧ Always GateRespected cfg.world.log)
      (fun h hmeets hs => ⟨h.1.step hs, GateRespected.step h.2 hmeets hs⟩) actions
      ⟨Config.Inv.init start, trivial⟩ hrun
  obtain ⟨hinv, hgate⟩ := hreached
  have hvalid := hinv.world.valid
  rw [hstarted] at hgate hvalid hdeclared
  obtain ⟨old, seq, hsaved, -, -, hactive⟩ := hvalid.at
  have hwritten : Written pre ⟨seq, t.toTask⟩ := ⟨_, _, _, _, hsaved⟩
  have hwaits : t.toTask.state.waits = false := by
    rw [show t.toTask.state = .active from hactive]
    rfl
  have hvalid' := hvalid.of_append.tail
  have hgate' := hgate.of_append.tail
  have hdeclared' : ∀ e ∈ pre, e.declares deps = true := fun e he =>
    hdeclared e (List.mem_append_right post (List.mem_cons_of_mem _ he))
  constructor
  · intro d hd
    exact hwritten.below_complete hvalid' hgate' hdeclared' hd rfl hwaits
  · intro hcycle
    have hacc := hwritten.accessible hvalid' hgate' hdeclared' hwaits
    have hback : Relation.TransGen (fun d id => DependsOn deps id d) t.id t.id :=
      Relation.transGen_swap.mp hcycle
    -- an endless descent that stays at the task itself
    exact not_acc_iff_exists_descending_chain.mpr ⟨fun _ => t.id, rfl, fun _ => hback⟩
      hacc.transGen

/-- The first task waits for the second and the second for the third. -/
def chainDeps (id : String) : List String :=
  if id = "T1" then ["T2"] else if id = "T2" then ["T3"] else []

def chainTask (id : String) : Task :=
  { sampleTask with
    id := id, dependencies := chainDeps id, state := if id = "T3" then .new else .blocked }

/-- All three are enqueued, the last two are handled and the first is delivered. -/
def handleChain : List Action :=
  [.newTask (chainTask "T1"), .enqueue sampleClient 0] ++ answered 0 4 ++
    [.newTask (chainTask "T2"), .enqueue sampleClient 3] ++ answered 1 4 ++
    [.newTask (chainTask "T3"), .enqueue sampleClient 6] ++ answered 2 4 ++
    .deliver ⟨sampleClient⟩ "T3" :: answered 3 6 ++
    .run 4 (.handled (.ok "")) :: answered 4 6 ++
    .deliver ⟨sampleClient⟩ "T2" :: answered 5 7 ++
    .run 6 (.handled (.ok "")) :: answered 6 6 ++
    .deliver ⟨sampleClient⟩ "T1" :: answered 7 7

theorem handlers_start_in_dependency_order_chain :
    ∃ cfg n next t item pre,
      (Config.init 0).runWhile Config.gateRespected handleChain = some cfg ∧
      cfg.world.log = .started n next t item :: pre ∧ t.id = "T1" ∧
      ∃ m, Written pre m ∧ m.task.id = "T3" ∧ m.task.state = .completed := by
  have hrun : ((Config.init 0).runWhile Config.gateRespected handleChain).any
      (fun cfg => justStarted (fun t pre => t.id = "T1" ∧ pre.all (Event.declares chainDeps))
        cfg.world.log) = true := by
    decide +kernel
  obtain ⟨cfg, n, next, t, item, pre, hcfg, hlog, htest⟩ := exists_started hrun
  obtain ⟨hid, hdeclared⟩ := of_decide_eq_true htest
  have hall : ∀ e ∈ cfg.world.log, e.declares chainDeps = true := by
    rw [hlog]
    intro e he
    rcases List.mem_cons.mp he with rfl | he
    · rfl
    · exact List.all_eq_true.mp hdeclared e he
  have hbelow : Relation.TransGen (DependsOn chainDeps) t.id "T3" := by
    rw [hid]
    apply Relation.TransGen.head (b := "T2")
    · exact List.mem_singleton_self _
    · exact Relation.TransGen.single (List.mem_singleton_self _)
  have horder := handlers_start_in_dependency_order 0 _ cfg hcfg chainDeps hall [] pre n next t
    item hlog
  exact ⟨cfg, n, next, t, item, pre, hcfg, hlog, hid, horder.1 "T3" hbelow⟩

end AsyncJobs
