import AsyncJobs.System.Provenance

/-!
# State change events

Each acknowledged save of a task is announced by an event with the record that was saved, and
the only other events announce a record that its client discards instead of saving it. A
program owes an event from the acknowledgement to its next request; it never returns, and
never does anything else, while it owes one.
-/

namespace AsyncJobs

open Interaction

/-- The record whose event is owed after this reply. -/
def Call.owed : (c : Call) → c.Reply → Option Task
  | .publishTask t, reply =>
    match reply with
    | .ok _ => some t.toTask
    | .error _ => none
  | _, _ => none

/-- A request that neither saves a task nor announces one. -/
def Call.plain : Call → Bool
  | .publishTask _ | .publishEvent _ => false
  | _ => true

/-- An owed event is published next; without one, only a discarded record is announced. -/
def announcements (discards : Task → Bool) : Context jobs (Option Task) where
  rely s s' := s = s'
  inv _ := True
  permit s c :=
    match s with
    | some t => c = .publishEvent t
    | none => ∀ t, c = .publishEvent t → discards t = true
  exec _ c r s' := s' = c.owed r
  later _ _ := True
  rely_refl _ := rfl
  rely_trans := Eq.trans
  later_trans _ _ := trivial
  rely_later _ := trivial
  exec_later _ := trivial

/-- A program that starts and ends without owing an event and pays every one in between. -/
def Settles (discards : Task → Bool) {α : Type} (p : Job α) : Prop :=
  Holds (announcements discards) (fun _ s => s = none) p none

namespace Settles

variable {discards : Task → Bool} {α β : Type}

theorem ret (a : α) : Settles discards (.ret a : Job α) := by
  rintro s rfl -
  rfl

theorem bind {p : Job α} {f : α → Job β} (hp : Settles discards p)
    (hf : ∀ a, Settles discards (f a)) : Settles discards (p >>= f) := by
  apply Holds.seq hp
  rintro a s - - rfl
  exact hf a

theorem call {c : Call} {k : c.Reply → Job α} (hc : c.plain = true)
    (hk : ∀ r, Settles discards (k r)) : Settles discards (.call c k) := by
  rintro s rfl -
  constructor
  · rintro t rfl
    cases hc
  · rintro r s rfl
    have hnone : c.owed r = none := by
      cases c with
      | publishTask t => cases hc
      | _ => rfl
    rw [hnone]
    exact hk r

theorem request {c : Call} (hc : c.plain = true) : Settles discards (AsyncJobs.request c) :=
  call hc ret

theorem readClock : Settles discards AsyncJobs.readClock := request rfl

end Settles

section Programs

variable {discards : Task → Bool}

namespace Storage

theorem saveTaskState_settles (t : Copy) : Settles discards (saveTaskState t true) := by
  rintro s rfl -
  constructor
  · rintro x ⟨⟩
  · rintro r s rfl
    cases r with
    | error err => exact Settles.ret _
    | ok seq =>
      rintro s rfl -
      refine ⟨rfl, ?_⟩
      rintro r s rfl
      exact Settles.ret _

theorem loadTaskByID_settles (use : ReadUse) (id : String) :
    Settles discards (loadTaskByID use id) := by
  apply Settles.call rfl
  intro r
  rcases r with (_ | err) | msg
  · exact Settles.ret _
  · exact Settles.ret _
  · exact Settles.ret _

theorem deleteTaskByID_settles (id : String) : Settles discards (deleteTaskByID id) := by
  apply Settles.call rfl
  intro r
  rcases r with (_ | err) | msg
  · exact Settles.ret _
  · exact Settles.ret _
  · exact Settles.call rfl Settles.ret

theorem queueError_settles (t : Copy) (lastErr : String) (err : Error) :
    Settles discards (queueError t lastErr err) := by
  apply (saveTaskState_settles _).bind
  rintro ⟨saveErr, saved⟩
  cases saveErr with
  | some err => exact Settles.ret _
  | none => exact Settles.ret _

theorem enqueueTask_settles (queue : Queue) (t : Copy) :
    Settles discards (enqueueTask queue t) := by
  unfold enqueueTask
  split
  · exact Settles.ret _
  · apply (saveTaskState_settles _).bind
    rintro ⟨saveErr, saved⟩
    cases saveErr with
    | some err => exact Settles.ret _
    | none =>
      apply Settles.call rfl
      intro reply
      rcases reply with err | duplicate
      · exact queueError_settles _ _ _
      · cases duplicate with
        | true => exact queueError_settles _ _ _
        | false => exact Settles.ret _

theorem retryTaskByID_settles (queue : Queue) (id : String) :
    Settles discards (retryTaskByID queue id) := by
  apply (loadTaskByID_settles .task id).bind
  intro loaded
  cases loaded with
  | error err => exact Settles.ret _
  | ok task => exact (enqueueTask_settles queue _).bind fun _ => Settles.ret _

theorem withMeta_settles (item : ProcessItem) {send : MsgRef → Job (Option Error)}
    (hsend : ∀ msg, Settles discards (send msg)) : Settles discards (withMeta item send) := by
  unfold withMeta
  cases item.storageMeta with
  | none => exact Settles.ret _
  | some msg => exact hsend msg

theorem ackItem_settles (item : ProcessItem) : Settles discards (ackItem item) :=
  withMeta_settles item fun _ => Settles.request rfl

theorem terminateItem_settles (item : ProcessItem) : Settles discards (terminateItem item) :=
  withMeta_settles item fun _ => Settles.request rfl

theorem nakBlockedItem_settles (item : ProcessItem) : Settles discards (nakBlockedItem item) :=
  withMeta_settles item fun _ => Settles.request rfl

theorem nakItem_settles (retry : Int → Int) (item : ProcessItem) :
    Settles discards (nakItem retry item) :=
  withMeta_settles item fun _ => Settles.request rfl

end Storage

namespace Client

variable (c : Client)

theorem raise_settles {α : Type} (message : String) :
    Settles discards (raise message : Job α) :=
  Settles.call rfl fun impossible => nomatch (impossible : Empty)

theorem loadTaskByID_settles (use : ReadUse) (id : String) :
    Settles discards (c.loadTaskByID use id) := by
  apply (Storage.loadTaskByID_settles use id).bind
  intro loaded
  cases loaded with
  | error err => exact Settles.ret _
  | ok task =>
    dsimp only
    split
    · exact Settles.ret _
    · exact raise_settles _
    · exact Settles.ret _

theorem enqueueTask_settles (t : Copy) : Settles discards (c.enqueueTask t) := by
  unfold enqueueTask
  dsimp only
  split
  · exact Settles.ret _
  · exact raise_settles _
  · exact Storage.enqueueTask_settles _ _

theorem setTaskActive_settles (t : Copy) : Settles discards (setTaskActive t) :=
  Settles.readClock.bind fun _ => Storage.saveTaskState_settles _

theorem saveOrDiscardTaskIfDesired_settles (t : Copy) :
    Settles c.shouldDiscardTask (c.saveOrDiscardTaskIfDesired t) := by
  unfold saveOrDiscardTaskIfDesired
  split
  · exact Storage.saveTaskState_settles t
  · rename_i hdiscard
    rintro s rfl -
    refine ⟨?_, ?_⟩
    · rintro x ⟨⟩
      simpa using hdiscard
    · rintro r s rfl
      exact (Storage.deleteTaskByID_settles t.id).bind fun _ => Settles.ret _

theorem setTaskSuccess_settles (t : Copy) (payload : String) :
    Settles c.shouldDiscardTask (c.setTaskSuccess t payload) :=
  Settles.readClock.bind fun _ => Settles.readClock.bind fun _ =>
    c.saveOrDiscardTaskIfDesired_settles _

theorem handleTaskTerminated_settles (t : Copy) (terr : Error) :
    Settles c.shouldDiscardTask (c.handleTaskTerminated t terr) :=
  Settles.readClock.bind fun _ => c.saveOrDiscardTaskIfDesired_settles _

theorem handleTaskError_settles (t : Copy) (terr : Error) :
    Settles c.shouldDiscardTask (c.handleTaskError t terr) :=
  Settles.readClock.bind fun _ => c.saveOrDiscardTaskIfDesired_settles _

end Client

namespace Processor

variable (p : Processor)

theorem loadDependencies_settles (parents : List String) (task : Copy) (ready : Bool) :
    Settles discards (p.loadDependencies task ready parents) := by
  induction parents generalizing task ready with
  | nil => exact Settles.ret _
  | cons parent parents ih =>
    apply (p.c.loadTaskByID_settles .dependency parent).bind
    intro loaded
    cases loaded with
    | error err =>
      dsimp only
      split
      · exact Settles.ret _
      · exact Settles.ret _
    | ok pt =>
      dsimp only
      split
      · exact ih _ _
      · exact Settles.ret _
      · exact Settles.ret _
      · exact Settles.ret _
      · exact Settles.ret _
      · exact ih _ _

theorem processDependencies_settles (item : ProcessItem) (task : Copy) :
    Settles p.c.shouldDiscardTask (p.processDependencies item task) := by
  unfold processDependencies
  apply (p.loadDependencies_settles task.dependencies task true).bind
  rintro ⟨ready, failed, err, collected⟩
  cases err with
  | some err =>
    cases failed with
    | true =>
      apply (Storage.terminateItem_settles item).bind
      intro _
      exact (p.c.handleTaskError_settles collected _).bind fun _ => Settles.ret _
    | false => exact (Storage.nakBlockedItem_settles item).bind fun _ => Settles.ret _
  | none =>
    cases failed with
    | true =>
      apply (Storage.terminateItem_settles item).bind
      intro _
      exact (p.c.handleTaskError_settles collected _).bind fun _ => Settles.ret _
    | false =>
      cases ready with
      | false => exact (Storage.nakBlockedItem_settles item).bind fun _ => Settles.ret _
      | true => exact Settles.ret _

theorem checkState_settles (item : ProcessItem) (task : Copy) :
    Settles discards (p.checkState item task) := by
  unfold checkState
  split
  · split
    · exact Settles.ret _
    · apply Settles.readClock.bind
      intro now
      split
      · exact Settles.ret _
      · exact Settles.ret _
  · exact (Storage.ackItem_settles item).bind fun _ => Settles.ret _
  · exact (Storage.ackItem_settles item).bind fun _ => Settles.ret _
  · exact (Storage.ackItem_settles item).bind fun _ => Settles.ret _
  · exact Settles.ret _

theorem checkLimits_settles (task : Copy) :
    Settles p.c.shouldDiscardTask (p.checkLimits task) := by
  have hexpire : ∀ err : Error, Settles p.c.shouldDiscardTask (do
      let _ ← p.c.handleTaskExpired task
      return some err : Job (Option Error)) := fun err =>
    (p.c.saveOrDiscardTaskIfDesired_settles _).bind fun _ => Settles.ret _
  apply Settles.readClock.bind
  intro now
  split
  · exact hexpire _
  · split
    · exact hexpire _
    · exact Settles.ret _

theorem startHandler_settles (item : ProcessItem) (task : Copy) :
    Settles discards (startHandler item task) := by
  apply (Client.setTaskActive_settles task).bind
  rintro ⟨err, active⟩
  cases err with
  | some err => exact Settles.ret _
  | none => exact Settles.call rfl fun _ => Settles.ret _

theorem checkDependencies_settles (item : ProcessItem) (task : Copy) :
    Settles p.c.shouldDiscardTask (p.checkDependencies item task) := by
  unfold checkDependencies
  split
  · apply (p.processDependencies_settles item task).bind
    rintro ⟨should, err, collected⟩
    dsimp only
    split
    · exact Settles.ret _
    · cases should with
      | false => exact Settles.call rfl fun _ => Settles.ret _
      | true => exact startHandler_settles item collected
  · exact startHandler_settles item task

theorem processItem_settles (item : ProcessItem) :
    Settles p.c.shouldDiscardTask (p.processItem item) := by
  have hmessage : Settles p.c.shouldDiscardTask (p.processMessage item) := by
    apply (p.c.loadTaskByID_settles .task item.jobID).bind
    intro loaded
    cases loaded with
    | error err =>
      dsimp only
      split
      · apply (Storage.terminateItem_settles item).bind
        intro _
        exact Settles.call rfl fun _ => Settles.ret _
      · exact Settles.ret _
    | ok task =>
      apply (p.checkState_settles item task).bind
      intro stopped
      cases stopped with
      | some err => exact Settles.ret _
      | none =>
        apply (p.checkLimits_settles task).bind
        intro exceeded
        cases exceeded with
        | some err => exact Settles.ret _
        | none => exact p.checkDependencies_settles item task
  apply hmessage.bind
  intro err
  cases err with
  | some err => exact Settles.request rfl
  | none => exact Settles.ret _

theorem handle_settles (t : Copy) (item : ProcessItem) :
    Settles p.c.shouldDiscardTask (p.handle t item) := by
  have hrelease : Settles p.c.shouldDiscardTask (request .release) := Settles.request rfl
  rw [handle_eq]
  apply Settles.call rfl
  intro r
  cases r with
  | ok payload =>
    apply (p.c.setTaskSuccess_settles _ payload).bind
    intro _
    exact (Storage.ackItem_settles item).bind fun _ => hrelease
  | error err =>
    by_cases hterminate : err.is .terminateTask = true
    · simp only [afterHandler, hterminate]
      apply (p.c.handleTaskTerminated_settles _ err).bind
      intro _
      exact (Storage.terminateItem_settles item).bind fun _ => hrelease
    · simp only [afterHandler, hterminate]
      apply (p.c.handleTaskError_settles _ err).bind
      intro _
      exact (Storage.nakItem_settles _ item).bind fun _ => hrelease

end Processor

end Programs

/-- The records a thread may announce without having saved them. -/
def Role.discards : Role → Task → Bool
  | .worker p _ | .handler p _ _ => p.c.shouldDiscardTask
  | _ => fun _ => false

theorem Role.prog_settles (role : Role) : Settles role.discards role.prog := by
  cases role with
  | worker p item => exact p.processItem_settles item
  | handler p t item => exact p.handle_settles t item
  | enqueue c t => exact (c.enqueueTask_settles t).bind fun _ => Settles.request rfl
  | enqueueInto queue t =>
    exact (Storage.enqueueTask_settles queue t).bind fun _ => Settles.request rfl
  | retry c id =>
    exact (Storage.retryTaskByID_settles c.opts.queue id).bind fun _ =>
      Settles.request rfl
  | load c id =>
    apply (c.loadTaskByID_settles .task id).bind
    intro loaded
    cases loaded with
    | error err => exact Settles.request rfl
    | ok task => exact Settles.request rfl
  | delete id =>
    exact (Storage.deleteTaskByID_settles id).bind fun _ => Settles.request rfl

/-- The last record the thread had acknowledged is the one it owes an event for. -/
structure Owes (log : List Event) (tag : Tag) (t : Task) : Prop where
  saved : ∃ old seq, Event.saved tag.holder tag.role.writer old ⟨seq, t⟩ true ∈ log ∧
    known tag.holder log = some ⟨seq, t⟩

/-- The rest of a thread's program pays what the thread owes. -/
def Thread.Settled (log : List Event) (th : Thread jobs Tag) : Prop :=
  ∃ owed, Holds (announcements th.tag.role.discards) (fun _ s => s = none) th.prog owed ∧
    ∀ t, owed = some t → Owes log th.tag t

theorem Owes.foreign {log es : List Event} {tag : Tag} {t : Task} (h : Owes log tag t)
    (hes : ∀ e ∈ es, e.subject ≠ some tag.holder) : Owes (es ++ log) tag t := by
  obtain ⟨old, seq, hsaved, hknown⟩ := h.saved
  refine ⟨old, seq, List.mem_append_right es hsaved, ?_⟩
  rw [known_append hes]
  exact hknown

namespace Config

variable {cfg cfg' : Config} {a : Action}

/-- The reply decides what is owed, and an acknowledged save is in the log. -/
theorem owes_reply {w w' : World} {tag : Tag} {c : Call} {o : Outcome} {r : c.Reply} {t : Task}
    (hexec : w.exec tag.holder tag.role.writer c o = some (r, w')) (howed : c.owed r = some t) :
    Owes w'.log tag t := by
  cases c with
  | publishTask x =>
    have hexec : w.execSave tag.holder tag.role.writer x o = some (r, w') := hexec
    rcases World.execSave_cases hexec with ⟨rfl, rfl⟩ | ⟨⟨err, rfl⟩, -⟩
    · have ht : x.toTask = t := Option.some.inj howed
      subst ht
      exact ⟨_, _, List.mem_cons_self .., if_pos rfl⟩
    · cases howed
  | _ => cases howed

theorem settled_waits {log es : List Event} {th : Thread jobs Tag} (h : Thread.Settled log th)
    (hes : ∀ e ∈ es, e.Foreign th.tag.holder) : Thread.Settled (es ++ log) th := by
  obtain ⟨owed, hholds, howed⟩ := h
  exact ⟨owed, hholds, fun t ht => (howed t ht).foreign fun e he => (hes e he).subject⟩

theorem settled_starts (log : List Event) (n : Nat) (role : Role) :
    Thread.Settled log ⟨⟨n, role⟩, role.prog⟩ := by
  refine ⟨none, role.prog_settles, ?_⟩
  rintro t ⟨⟩

/-- The threads after a request: the one that made it pays or comes to owe an event. -/
theorem settled_request (h : ∀ th ∈ cfg.threads, Thread.Settled cfg.world.log th)
    (hinv : cfg.Inv) {i : Nat} {o : Outcome} {tag : Tag} {c : Call} {k : c.Reply → Job Unit}
    {r : c.Reply} {w : World} (hget : cfg.threads[i]? = some ⟨tag, .call c k⟩)
    (hexec : cfg.world.exec tag.holder tag.role.writer c o = some (r, w)) :
    ∀ th ∈ cfg.threads.set i ⟨tag, k r⟩ ++ spawned tag cfg.world.nextCopy c,
      Thread.Settled w.log th := by
  intro th hth
  rcases List.mem_append.mp hth with hmem | hmem
  · obtain ⟨j, hj⟩ := List.mem_iff_getElem?.mp hmem
    by_cases hji : j = i
    · subst hji
      rw [List.getElem?_set_self', hget] at hj
      cases hj
      obtain ⟨owed, hholds, -⟩ := h _ (List.mem_of_getElem? hget)
      obtain ⟨-, hrest⟩ := hholds owed rfl trivial
      exact ⟨_, hrest r _ rfl, fun t ht => owes_reply hexec ht⟩
    · rw [List.getElem?_set_ne (Ne.symm hji)] at hj
      obtain ⟨es, hlog, hes⟩ := hinv.foreign_request hget hj hji (World.exec_effect hexec)
      rw [hlog]
      exact settled_waits (h th (List.mem_of_getElem? hj)) hes
  · obtain ⟨p, given, t, item, -, -, rfl⟩ := mem_spawned hmem
    exact settled_starts w.log _ (.handler p t item)

theorem settled_step (h : ∀ th ∈ cfg.threads, Thread.Settled cfg.world.log th) (hinv : cfg.Inv)
    (hs : Step cfg a cfg') : ∀ th ∈ cfg'.threads, Thread.Settled cfg'.world.log th := by
  intro th hth
  have hthread := hinv.thread_step hs hth
  cases hs with
  | request hget hexec => exact settled_request h hinv hget hexec th hth
  | _ =>
    cases hthread with
    | waits mem es hlog foreign =>
      rw [hlog]
      exact settled_waits (h th mem) foreign
    | stops mem hworld => exact ⟨none, Settles.ret (), by rintro t ⟨⟩⟩
    | moves action => cases action
    | starts opened => exact settled_starts _ _ _

theorem settled_reached {start : Int} {actions : List Action}
    (hr : (Config.init start).run actions = some cfg) :
    cfg.Inv ∧ ∀ th ∈ cfg.threads, Thread.Settled cfg.world.log th := by
  apply runWhile_induction (P := fun cfg : Config =>
    cfg.Inv ∧ ∀ th ∈ cfg.threads, Thread.Settled cfg.world.log th) _ actions _ hr
  · intro cfg cfg' a h _ hs
    exact ⟨h.1.step hs, settled_step h.2 h.1 (step_sound hs)⟩
  · refine ⟨Inv.init start, fun th hth => ?_⟩
    cases hth

theorem nextCall_of_owed {i : Nat} {tag : Tag} {p : Job Unit} {t : Task}
    (hget : cfg.threads[i]? = some ⟨tag, p⟩)
    (hholds : Holds (announcements tag.role.discards) (fun _ s => s = none) p (some t)) :
    cfg.nextCall i = some (tag, .publishEvent t) := by
  cases p with
  | ret u => cases hholds _ rfl trivial
  | call c k =>
    obtain ⟨hpermit, -⟩ := hholds _ rfl trivial
    have hpermit : c = .publishEvent t := hpermit
    subst hpermit
    simp only [nextCall, hget]

end Config

theorem World.execSave_acked {w w' : World} {n : Nat} {writer : Writer} {t : Copy} {o : Outcome}
    {r : Except Error Nat} {old : Option StoredTask} {new : StoredTask}
    (h : w.execSave n writer t o = some (r, w'))
    (hlog : w'.log = .saved n writer old new true :: w.log) : ∃ seq, r = .ok seq := by
  cases o with
  | ok =>
    simp only [execSave] at h
    split_ifs at h
    · cases h
      exact ⟨_, rfl⟩
    · cases h
      exact absurd hlog.symm (List.cons_ne_self _ _)
  | lost e =>
    simp only [execSave] at h
    split_ifs at h
    · cases h
      cases hlog
    · cases h
      exact absurd hlog.symm (List.cons_ne_self _ _)
  | failed e =>
    cases h
    exact absurd hlog.symm (List.cons_ne_self _ _)
  | handled r => cases h

/-- In every run, an event announces the revision its sender last had acknowledged, or a record
that the sender's client discards; and the next request after an acknowledged save publishes
the event for it. -/
theorem events_announce_acknowledged_saves (start : Int) (actions : List Action) (cfg : Config)
    (hrun : (Config.init start).run actions = some cfg) :
    (∀ i tag t, cfg.nextCall i = some (tag, .publishEvent t) →
      Owes cfg.world.log tag t ∨ tag.role.discards t = true) ∧
    ∀ i o cfg' tag (t : Copy) old new, cfg.nextCall i = some (tag, .publishTask t) →
      cfg.step (.run i o) = some cfg' →
      cfg'.world.log = .saved tag.holder tag.role.writer old new true :: cfg.world.log →
      cfg'.nextCall i = some (tag, .publishEvent t.toTask) := by
  obtain ⟨-, hsettled⟩ := Config.settled_reached hrun
  constructor
  · intro i tag t hnext
    obtain ⟨k, hget⟩ := Config.thread_of_nextCall hnext
    obtain ⟨owed, hholds, howed⟩ := hsettled _ (List.mem_of_getElem? hget)
    obtain ⟨hpermit, -⟩ := hholds owed rfl trivial
    cases owed with
    | none => exact Or.inr (hpermit t rfl)
    | some x =>
      have hx : Call.publishEvent t = .publishEvent x := hpermit
      cases hx
      exact Or.inl (howed t rfl)
  · intro i o cfg' tag t old new hnext hstep hlog
    obtain ⟨k, hget⟩ := Config.thread_of_nextCall hnext
    obtain ⟨owed, hholds, -⟩ := hsettled _ (List.mem_of_getElem? hget)
    obtain ⟨-, hrest⟩ := hholds owed rfl trivial
    simp only [Config.step, hget, Config.stepThread] at hstep
    split at hstep
    · cases hstep
    · rename_i r w hexec
      cases hstep
      obtain ⟨seq, rfl⟩ := World.execSave_acked hexec hlog
      apply Config.nextCall_of_owed (p := k (.ok seq)) _ (hrest (.ok seq) _ rfl)
      have hlt := (List.getElem?_eq_some_iff.mp hget).1
      rw [List.getElem?_append_left (by simpa using hlt), List.getElem?_set_self hlt]

/-- A task is enqueued and its first save is acknowledged. -/
def saveSample : List Action := [.newTask sampleTask, .enqueue sampleClient 0, .run 0 .ok]

theorem events_announce_sample_save :
    ∃ cfg tag t, (Config.init 0).run saveSample = some cfg ∧
      cfg.nextCall 0 = some (tag, .publishEvent t) ∧ Owes cfg.world.log tag t := by
  have hrun : ∃ cfg, (Config.init 0).run saveSample = some cfg := ⟨_, rfl⟩
  obtain ⟨cfg, hcfg⟩ := hrun
  have hnext : ((Config.init 0).run saveSample).map (fun cfg => cfg.nextCall 0) =
      some (some (⟨1, .enqueue sampleClient ⟨sampleTask, none⟩⟩,
        .publishEvent { sampleTask with queue := "EMAIL" })) := rfl
  rw [hcfg, Option.map_some, Option.some.injEq] at hnext
  refine ⟨cfg, _, _, hcfg, hnext, ?_⟩
  have hevent := (events_announce_acknowledged_saves 0 saveSample cfg hcfg).1 0 _ _ hnext
  exact hevent.resolve_right Bool.false_ne_true

end AsyncJobs
