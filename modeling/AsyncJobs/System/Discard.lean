import AsyncJobs.System.Revisions

/-!
# Discarding a finished task

A client may discard the tasks that reach certain states. `saveOrDiscardTaskIfDesired` then
does not save the copy but looks the record up and deletes the message it found, whatever
revision that is. The save it replaces is refused by the store when somebody has updated the
record since; the delete is not.
-/

namespace AsyncJobs

open Interaction

namespace Client

/-- What is left of a discard once the record was looked up. -/
def deleteFound (t : Copy) : Except ReadError StoredTask → Job (Option Error × Copy)
  | .error .noMessage => .ret (some Sentinel.taskNotFound.error, t)
  | .error (.failed err) => .ret (some err, t)
  | .ok msg => .call (.deleteMessage msg.seq) fun err => .ret (err, t)

/-- A discard publishes the event, looks the record up and deletes what it found. -/
theorem discard_eq {c : Client} {t : Copy} (h : c.shouldDiscardTask t.toTask = true) :
    c.saveOrDiscardTaskIfDesired t = .call (.publishEvent t.toTask) fun _ =>
      .call (.readLast .delete t.id) (deleteFound t) := by
  unfold saveOrDiscardTaskIfDesired
  rw [h]
  refine congrArg (Prog.call _) (funext fun _ => congrArg (Prog.call _) (funext fun r => ?_))
  rcases r with (_ | err) | msg <;> rfl

end Client

namespace World

variable {w w' : World} {n : Nat} {writer : Writer}

theorem exec_publishEvent {t : Task} {o : Outcome} {r : Option Error}
    (h : w.exec n writer (.publishEvent t) o = some (r, w')) : w' = w := by
  cases o <;> cases h <;> rfl

theorem exec_readLast_stored {use : ReadUse} {id : String} {o : Outcome}
    {r : Except ReadError StoredTask} (h : w.exec n writer (.readLast use id) o = some (r, w'))
    (id' : String) : w'.stored id' = w.stored id' := by
  rcases execRead_cases h with ⟨m, -, -, rfl⟩ | ⟨-, rfl⟩
  · rfl
  · rfl

theorem exec_readLast_ok {use : ReadUse} {id : String} {m : StoredTask}
    (h : w.readLast id = some m) :
    w.exec n writer (.readLast use id) .ok =
      some (.ok m, w.note (.read n writer use m w.clock)) := by
  show w.execRead n writer use id .ok = some (.ok m, w.note (.read n writer use m w.clock))
  simp only [execRead, h]

theorem exec_readLast_found {use : ReadUse} {id : String} (hid : isWildcard id = false)
    {o : Outcome} {m : StoredTask}
    (h : w.exec n writer (.readLast use id) o = some (.ok m, w')) :
    w.stored id = some m ∧ w' = w.note (.read n writer use m w.clock) := by
  rcases execRead_cases h with ⟨found, hfound, hlast, hnote⟩ | ⟨⟨err, herr⟩, -⟩
  · cases hfound
    unfold readLast at hlast
    rw [hid] at hlast
    exact ⟨hlast, hnote⟩
  · cases herr

/-- What a lookup found stays in the log, whatever others do after it. -/
theorem Inv.written_of_lookup (hw : w.Inv) {tag : Tag} {use : ReadUse} {id : String}
    (hid : isWildcard id = false) {o : Outcome} {m : StoredTask}
    (h : w.exec tag.holder tag.role.writer (.readLast use id) o = some (.ok m, w')) {v : World}
    (hrely : (contextOf tag).rely w' v) : Written v.log m := by
  obtain ⟨hstored, hnote⟩ := exec_readLast_found hid h
  obtain ⟨es, hext, -⟩ := hrely
  have hmem := ((stored_eq_some_iff hw.distinct).mp hstored).1
  rw [hext.log, hnote]
  exact ((hw.mem_written hmem).2.append [_]).append es

theorem exec_deleteMessage_found {seq : Nat} {m : StoredTask}
    (h : (w.tasks.find? fun r => r.seq = seq) = some m) :
    w.exec n writer (.deleteMessage seq) .ok = some (none, w.removeTask m (.deleted n m)) := by
  show w.execDelete n seq .ok = some (none, w.removeTask m (.deleted n m))
  simp only [execDelete, h]
  rfl

theorem exec_deleteMessage_ok (hw : w.Inv) {m : StoredTask} (hm : m ∈ w.tasks) :
    w.exec n writer (.deleteMessage m.seq) .ok =
      some (none, w.removeTask m (.deleted n m)) := by
  have hfind : (w.tasks.find? fun r => r.seq = m.seq) = some m := by
    cases hfound : w.tasks.find? fun r => r.seq = m.seq with
    | none =>
      have hnone := List.find?_eq_none.mp hfound m hm
      simp at hnone
    | some r =>
      have hr := List.mem_of_find?_eq_some hfound
      have hseq : r.seq = m.seq := by simpa using List.find?_some hfound
      rw [hw.valid.written_inj (hw.mem_written hr).2 (hw.mem_written hm).2 hseq]
  exact exec_deleteMessage_found hfind

theorem exec_deleteMessage_stored (hw : w.Inv) {m : StoredTask} (hm : Written w.log m)
    {o : Outcome} {r : Option Error}
    (h : w.exec n writer (.deleteMessage m.seq) o = some (r, w')) {id : String}
    (hstored : w.stored id ≠ none) (hgone : w'.stored id = none) : w.stored id = some m := by
  cases exec_effect h with
  | unchanged => exact absurd hgone hstored
  | @delete _ found hfound =>
    have hmem := List.mem_of_find?_eq_some hfound
    have hseq : found.seq = m.seq := by simpa using List.find?_some hfound
    have heq : found = m := hw.valid.written_inj (hw.mem_written hmem).2 hm hseq
    subst heq
    rw [hw.stored_removeTask hmem] at hgone
    split_ifs at hgone with hid
    · rw [← hid]
      exact (stored_eq_some_iff hw.distinct).mpr ⟨hmem, rfl⟩
    · exact absurd hgone hstored

/-- The store accepts the save of a copy exactly if it holds the revision of the copy. -/
theorem accepts_of_stored {t : Copy} {m : StoredTask} (h : w.stored t.id = some m) :
    w.accepts t = true ↔ m.seq = t.storageOptions.getD 0 := by
  simp [accepts, lastSubjectSeq, h]

end World

section Discard

variable {c : Client} {t : Copy} {tag : Tag} {w : World}

/-- Without interference a stored task is removed, whatever revision it is. -/
theorem discard_performs (hdiscard : c.shouldDiscardTask t.toTask = true)
    (hid : World.isWildcard t.id = false) (hw : w.Inv) (hn : tag.holder < w.nextCopy)
    {m : StoredTask} (hm : w.stored t.id = some m) :
    let v := w.note (.read tag.holder tag.role.writer .delete m w.clock)
    Performs (contextOf tag) (c.saveOrDiscardTaskIfDesired t) w
      [(w, .publishEvent t.toTask, w), (w, .readLast .delete t.id, v),
        (v, .deleteMessage m.seq, v.removeTask m (.deleted tag.holder m))] := by
  intro v
  obtain ⟨hmem, hmid⟩ := (World.stored_eq_some_iff hw.distinct).mp hm
  have hread : w.readLast t.id = some m := by
    unfold World.readLast
    rw [hid]
    exact hm
  have hv : (w.note (.read tag.holder tag.role.writer .delete m w.clock)).Inv :=
    hw.own hn rfl rfl rfl rfl rfl rfl (hw.mem_written hmem).1
  rw [Client.discard_eq hdiscard]
  have hdelete : Performs (contextOf tag) (Client.deleteFound t (.ok m)) v
      [(v, .deleteMessage m.seq, v.removeTask m (.deleted tag.holder m))] :=
    .call (k := fun err => .ret (err, t)) ((contextOf tag).rely_refl v) hv
      (r := (none : Option Error)) ⟨.ok, World.exec_deleteMessage_ok hv hmem⟩ (.ret _ _)
  exact .call ((contextOf tag).rely_refl w) hw (r := (none : Option Error)) ⟨.ok, rfl⟩
    (.call ((contextOf tag).rely_refl w) hw (r := (.ok m : Except ReadError StoredTask))
      ⟨.ok, World.exec_readLast_ok hread⟩ hdelete)

theorem deleteFound_steps {found : Except ReadError StoredTask} {u : World}
    {steps : List (World × Call × World)}
    (h : Performs (contextOf tag) (Client.deleteFound t found) u steps) :
    steps = [] ∨ ∃ m v v' o err, found = .ok m ∧ steps = [(v, .deleteMessage m.seq, v')] ∧
      (contextOf tag).rely u v ∧ v.Inv ∧
      v.exec tag.holder tag.role.writer (.deleteMessage m.seq) o = some (err, v') := by
  rcases found with (_ | err) | m
  · cases h
    exact Or.inl rfl
  · cases h
    exact Or.inl rfl
  · cases h with
    | @call _ _ err _ v v' rest hrely hinv hexec hrest =>
      cases hrest
      obtain ⟨o, hexec⟩ := hexec
      exact Or.inr ⟨m, v, v', o, err, rfl, rfl, hrely, hinv, hexec⟩

/-- A discard announces the state, looks the record up and goes on with what it found. -/
theorem discard_steps (hdiscard : c.shouldDiscardTask t.toTask = true) {w₀ : World}
    {steps : List (World × Call × World)}
    (h : Performs (contextOf tag) (c.saveOrDiscardTaskIfDesired t) w₀ steps) :
    ∃ v u u' o found deletes, steps = (v, .publishEvent t.toTask, v) ::
        (u, .readLast .delete t.id, u') :: deletes ∧ u.Inv ∧
      u.exec tag.holder tag.role.writer (.readLast .delete t.id) o = some (found, u') ∧
      Performs (contextOf tag) (Client.deleteFound t found) u' deletes := by
  rw [Client.discard_eq hdiscard] at h
  cases h with
  | @call _ _ _ _ v v' rest hrely hinv hexec hrest =>
    obtain ⟨o, hevent⟩ := hexec
    have hsame := World.exec_publishEvent hevent
    subst hsame
    cases hrest with
    | @call _ _ found _ u u' rest hrely' hu hexec' hrest =>
      obtain ⟨o', hread⟩ := hexec'
      exact ⟨_, u, u', o', found, rest, rfl, hu, hread, hrest⟩

/-- Whatever others do in between, a discard that looked the record up in `w` removes nothing
but what was stored in `w`. -/
theorem discard_removes_looked_up (hdiscard : c.shouldDiscardTask t.toTask = true)
    (hid : World.isWildcard t.id = false) {w₀ : World} {steps : List (World × Call × World)}
    (hsteps : Performs (contextOf tag) (c.saveOrDiscardTaskIfDesired t) w₀ steps) {after : World}
    (hlookup : (w, .readLast .delete t.id, after) ∈ steps) {v v' : World} {call : Call}
    (hstep : (v, call, v') ∈ steps) (hstored : v.stored t.id ≠ none)
    (hgone : v'.stored t.id = none) :
    ∃ m, w.stored t.id = some m ∧ v.stored t.id = some m := by
  obtain ⟨v₀, u, u', o, found, deletes, rfl, hu, hread, hdeletes⟩ := discard_steps hdiscard hsteps
  -- neither the event nor the lookup removes anything
  have hdelete : (v, call, v') ∈ deletes := by
    rcases List.mem_cons.mp hstep with heq | hstep
    · cases heq
      exact absurd hgone hstored
    · rcases List.mem_cons.mp hstep with heq | hstep
      · cases heq
        rw [World.exec_readLast_stored hread] at hgone
        exact absurd hgone hstored
      · exact hstep
  rcases deleteFound_steps hdeletes with rfl | ⟨m, x, x', o', err, rfl, rfl, hrely, hx, hexec⟩
  · cases hdelete
  · cases List.mem_singleton.mp hdelete
    have hlooked := (World.exec_readLast_found hid hread).1
    have hwu : w = u := by
      rcases List.mem_cons.mp hlookup with heq | hlookup
      · cases heq
      · rcases List.mem_cons.mp hlookup with heq | hlookup
        · cases heq
          rfl
        · cases List.mem_singleton.mp hlookup
    have hwritten : Written v.log m := hu.written_of_lookup hid hread hrely
    rw [hwu]
    exact ⟨m, hlooked, World.exec_deleteMessage_stored hx hwritten hexec hstored hgone⟩

end Discard

/-- For every copy that a discarding client is done with and every world in which its record
is looked up: the discard removes the stored task only where the store would accept the save
of the copy, exactly if there is nothing to remove or the world of the lookup holds the
revision of the copy. -/
theorem discard_removes_own_revision_iff (c : Client) (t : Copy) (tag : Tag) (w : World)
    (hdiscard : c.shouldDiscardTask t.toTask = true) (hid : World.isWildcard t.id = false)
    (hw : w.Inv) (hn : tag.holder < w.nextCopy) :
    (∀ (w₀ : World) (steps : List (World × Call × World)) (after : World),
      Performs (contextOf tag) (c.saveOrDiscardTaskIfDesired t) w₀ steps →
      (w, .readLast .delete t.id, after) ∈ steps →
      ∀ v call v', (v, call, v') ∈ steps → v.stored t.id ≠ none → v'.stored t.id = none →
        v.accepts t = true) ↔
    (w.stored t.id = none ∨ w.accepts t = true) := by
  constructor
  · intro hall
    cases hstored : w.stored t.id with
    | none => exact Or.inl rfl
    | some m =>
      right
      obtain ⟨hmem, hmid⟩ := (World.stored_eq_some_iff hw.distinct).mp hstored
      have hperforms := discard_performs hdiscard hid hw hn hstored
      have hinv : (w.note (.read tag.holder tag.role.writer .delete m w.clock)).Inv :=
        hw.own hn rfl rfl rfl rfl rfl rfl (hw.mem_written hmem).1
      show (w.note (.read tag.holder tag.role.writer .delete m w.clock)).accepts t = true
      refine hall w _ _ hperforms (.tail _ (.head _)) _ _ _ (.tail _ (.tail _ (.head _))) ?_ ?_
      · intro hnone
        cases hstored.symm.trans hnone
      · rw [hinv.stored_removeTask hmem, if_pos hmid]
  · rintro hown w₀ steps after hsteps hlookup v call v' hstep hstored hgone
    obtain ⟨m, hm, hvm⟩ :=
      discard_removes_looked_up hdiscard hid hsteps hlookup hstep hstored hgone
    rcases hown with hnone | haccepts
    · rw [hm] at hnone
      cases hnone
    · rw [World.accepts_of_stored hvm]
      exact (World.accepts_of_stored hm).mp haccepts

def discardClient : Client :=
  { sampleClient with opts := { sampleClient.opts with discard := [.completed] } }

/-- The task that has been enqueued is completed by the thread that enqueued it, and is removed
only in the revision it was enqueued in. -/
theorem discard_removes_own_revision_sample :
    ∃ cfg, (Config.init 0).run enqueueSample = some cfg ∧
      (cfg.world.stored "T1").isSome = true ∧
      ∀ (w₀ : World) (steps : List (World × Call × World)) (after : World),
        Performs (contextOf ⟨1, .enqueueInto sampleQueue ⟨sampleTask, none⟩⟩)
          (discardClient.saveOrDiscardTaskIfDesired
            ⟨{ sampleTask with state := .completed }, some 1⟩) w₀ steps →
        (cfg.world, .readLast .delete "T1", after) ∈ steps →
        ∀ v call v', (v, call, v') ∈ steps → v.stored "T1" ≠ none → v'.stored "T1" = none →
          v.accepts ⟨{ sampleTask with state := .completed }, some 1⟩ = true := by
  have hrun : ((Config.init 0).run enqueueSample).any (fun cfg =>
      (cfg.world.stored "T1").isSome && decide (1 < cfg.world.nextCopy) &&
        cfg.world.accepts ⟨{ sampleTask with state := .completed }, some 1⟩) = true := by
    decide +kernel
  obtain ⟨cfg, hcfg, htest⟩ := (Option.any_eq_true _ _).mp hrun
  simp only [Bool.and_eq_true, decide_eq_true_eq] at htest
  obtain ⟨⟨hstored, hnext⟩, haccepts⟩ := htest
  refine ⟨cfg, hcfg, hstored, ?_⟩
  exact (discard_removes_own_revision_iff discardClient
    ⟨{ sampleTask with state := .completed }, some 1⟩
    ⟨1, .enqueueInto sampleQueue ⟨sampleTask, none⟩⟩ cfg.world (by decide) (by decide)
    (Config.Inv.reached hcfg).world hnext).mpr (Or.inr haccepts)

/-- While the handler of a discarding client runs, the task is retried; the handler then
returns and its client looks the record up. -/
def retryThenDiscard : List Action :=
  enqueueSample ++ .deliver ⟨discardClient⟩ "T1" :: answered 1 6 ++
    .retry sampleClient "T1" :: answered 3 2 ++
    .run 2 (.handled (.ok "done")) :: answered 2 4

/-- Thread 2 is a handler about to remove a revision that its copy could not replace, and
that says the task is to be tried again. -/
def removesRetried (cfg : Config) : Bool :=
  match cfg.nextCall 2 with
  | some (⟨_, .handler _ t _⟩, _) =>
    ((cfg.world.stored t.id).any fun m => m.task.state = .retry) && !cfg.world.accepts t &&
      (cfg.step (.run 2 .ok)).any fun cfg' => (cfg'.world.stored t.id).isNone
  | _ => false

/-- A discarding handler removes the task that a retry has updated since. -/
theorem discard_removes_retried_task :
    ∃ cfg cfg' n p t item call m, (Config.init 0).run retryThenDiscard = some cfg ∧
      cfg.nextCall 2 = some (⟨n, .handler p t item⟩, call) ∧
      cfg.world.stored t.id = some m ∧ m.task.state = .retry ∧ cfg.world.accepts t = false ∧
      cfg.step (.run 2 .ok) = some cfg' ∧ cfg'.world.stored t.id = none := by
  have hrun : ((Config.init 0).run retryThenDiscard).any removesRetried = true := by
    decide +kernel
  obtain ⟨cfg, hcfg, hremoves⟩ := (Option.any_eq_true _ _).mp hrun
  unfold removesRetried at hremoves
  split at hremoves
  · rename_i n p t item call hnext
    simp only [Bool.and_eq_true, Bool.not_eq_true'] at hremoves
    obtain ⟨⟨hretry, hrefused⟩, hstep⟩ := hremoves
    obtain ⟨m, hm, hstate⟩ := (Option.any_eq_true _ _).mp hretry
    obtain ⟨cfg', hcfg', hnone⟩ := (Option.any_eq_true _ _).mp hstep
    exact ⟨cfg, cfg', n, p, t, item, call, m, hcfg, hnext, hm, of_decide_eq_true hstate, hrefused,
      hcfg', Option.isNone_iff_eq_none.mp hnone⟩
  · cases hremoves

end AsyncJobs
