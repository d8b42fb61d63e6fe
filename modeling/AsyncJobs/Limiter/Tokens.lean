import AsyncJobs.Model.Processor

/-!
# Tokens of the limiter

The goroutine that polls and the handlers it starts each account for one token of
the limiter. A token is given away by sending it back or by starting a handler, which
then accounts for it. Both `processItem` and `handle` give their token away exactly
once, as the last thing they do, whatever the replies to their requests.
-/

namespace AsyncJobs

open Interaction

def Call.givesToken : Call → Bool
  | .release | .goHandle _ _ => true
  | _ => false

/-- The world of one goroutine is whether it accounts for a token. It needs one for
everything it does, and every reply is possible. -/
def tokenContext : Context jobs Bool where
  rely held held' := held' = held
  inv _ := True
  permit held _ := held = true
  exec held c _ held' := held' = (held && !c.givesToken)
  later _ _ := True
  rely_refl _ := rfl
  rely_trans := by
    intro u v w hv hw
    exact hw.trans hv
  later_trans _ _ := trivial
  rely_later _ := trivial
  exec_later _ := trivial

def KeepsToken {α : Type} (p : Job α) : Prop :=
  Prog.Yields (S := jobs) (fun c : Call => c.givesToken = false) (fun _ => True) p

theorem KeepsToken.request {c : Call} (hc : c.givesToken = false) : KeepsToken (request c) :=
  Prog.Yields.invoke (S := jobs) hc fun _ => trivial

theorem KeepsToken.ret {α : Type} (a : α) : KeepsToken (Prog.ret a : Job α) := trivial

theorem KeepsToken.bind {α β : Type} {p : Job α} {f : α → Job β} (hp : KeepsToken p)
    (hf : ∀ a, KeepsToken (f a)) : KeepsToken (p >>= f) :=
  Prog.Yields.bind hp fun a _ => hf a

theorem KeepsToken.holds {α : Type} {p : Job α} (hp : KeepsToken p) :
    Holds tokenContext (fun _ held => held = true) p true := by
  refine Prog.Yields.holds (P := fun held => held = true) ?_ ?_ hp rfl
  · intro held held' h hr
    exact hr.trans h
  · intro held c hc hheld
    refine ⟨hheld, ?_⟩
    intro r held' hexec
    rw [hexec, hheld, hc]
    rfl

theorem KeepsToken.seq {α β : Type} {p : Job α} {f : α → Job β} {Q : β → Bool → Prop}
    (hp : KeepsToken p) (hf : ∀ a, Holds tokenContext Q (f a) true) :
    Holds tokenContext Q (p >>= f) true := by
  refine Holds.seq hp.holds ?_
  rintro a held _ _ rfl
  exact hf a

theorem gives_holds {α : Type} {c : Call} {a : α} {Q : α → Bool → Prop}
    (hc : c.givesToken = true) (hQ : Q a false) :
    Holds tokenContext Q (request c >>= fun _ => pure a) true := by
  intro held hheld _
  refine ⟨hheld, ?_⟩
  intro r held' hexec held'' hheld'' _
  rw [hheld'', hexec, hc]
  simpa using hQ

section Storage

open Storage

theorem saveTaskState_keeps (t : Copy) (notify : Bool) : KeepsToken (saveTaskState t notify) := by
  refine .bind (.request rfl) ?_
  rintro (err | seq)
  · exact .ret _
  · cases notify with
    | false => exact .ret _
    | true => exact .bind (.request rfl) fun _ => .ret _

theorem loadTaskByID_keeps (use : ReadUse) (id : String) : KeepsToken (loadTaskByID use id) := by
  refine .bind (.request rfl) ?_
  rintro (err | m)
  · cases err with
    | noMessage => exact .ret _
    | failed err => exact .ret _
  · exact .ret _

theorem deleteTaskByID_keeps (id : String) : KeepsToken (deleteTaskByID id) := by
  refine .bind (.request rfl) ?_
  rintro (err | m)
  · cases err with
    | noMessage => exact .ret _
    | failed err => exact .ret _
  · exact .request rfl

theorem withMeta_keeps {send : MsgRef → Job (Option Error)} (item : ProcessItem)
    (hsend : ∀ msg, KeepsToken (send msg)) : KeepsToken (withMeta item send) := by
  unfold withMeta
  split
  · exact .ret _
  · exact hsend _

theorem ackItem_keeps (item : ProcessItem) : KeepsToken (ackItem item) :=
  withMeta_keeps item fun _ => .request rfl

theorem terminateItem_keeps (item : ProcessItem) : KeepsToken (terminateItem item) :=
  withMeta_keeps item fun _ => .request rfl

theorem nakBlockedItem_keeps (item : ProcessItem) : KeepsToken (nakBlockedItem item) :=
  withMeta_keeps item fun _ => .request rfl

theorem nakItem_keeps (retry : Int → Int) (item : ProcessItem) : KeepsToken (nakItem retry item) :=
  withMeta_keeps item fun _ => .request rfl

end Storage

theorem readClock_keeps : KeepsToken readClock := .request rfl

namespace Client

variable (c : Client)

theorem raise_keeps {α : Type} (message : String) : KeepsToken (raise message : Job α) :=
  .bind (.request rfl) fun impossible => nomatch (impossible : Empty)

theorem loadTaskByID_keeps (use : ReadUse) (id : String) : KeepsToken (c.loadTaskByID use id) := by
  refine .bind (AsyncJobs.loadTaskByID_keeps use id) ?_
  rintro (err | task)
  · exact .ret _
  · simp only
    split
    · exact .ret _
    · exact raise_keeps _
    · exact .ret _

theorem saveOrDiscardTaskIfDesired_keeps (t : Copy) :
    KeepsToken (c.saveOrDiscardTaskIfDesired t) := by
  unfold saveOrDiscardTaskIfDesired
  split_ifs
  · exact saveTaskState_keeps t true
  · refine .bind (.request rfl) fun _ => ?_
    exact .bind (deleteTaskByID_keeps t.id) fun _ => .ret _

theorem setTaskActive_keeps (t : Copy) : KeepsToken (setTaskActive t) :=
  .bind readClock_keeps fun _ => saveTaskState_keeps _ true

theorem setTaskSuccess_keeps (t : Copy) (payload : String) :
    KeepsToken (c.setTaskSuccess t payload) :=
  .bind readClock_keeps fun _ => .bind readClock_keeps fun _ =>
    c.saveOrDiscardTaskIfDesired_keeps _

theorem handleTaskTerminated_keeps (t : Copy) (err : Error) :
    KeepsToken (c.handleTaskTerminated t err) :=
  .bind readClock_keeps fun _ => c.saveOrDiscardTaskIfDesired_keeps _

theorem handleTaskExpired_keeps (t : Copy) : KeepsToken (c.handleTaskExpired t) :=
  c.saveOrDiscardTaskIfDesired_keeps _

theorem handleTaskError_keeps (t : Copy) (err : Error) : KeepsToken (c.handleTaskError t err) :=
  .bind readClock_keeps fun _ => c.saveOrDiscardTaskIfDesired_keeps _

end Client

namespace Processor

variable (p : Processor)

theorem loadDependencies_keeps (parents : List String) : ∀ (task : Copy) (ready : Bool),
    KeepsToken (p.loadDependencies task ready parents) := by
  induction parents with
  | nil => exact fun _ _ => .ret _
  | cons parent parents ih =>
    intro task ready
    unfold loadDependencies
    refine .bind (p.c.loadTaskByID_keeps .dependency parent) ?_
    rintro (err | pt)
    · simp only
      split_ifs
      · exact .ret _
      · exact .ret _
    · simp only
      split
      · exact ih _ _
      · exact .ret _
      · exact .ret _
      · exact .ret _
      · exact .ret _
      · exact ih _ _

theorem processDependencies_keeps (item : ProcessItem) (task : Copy) :
    KeepsToken (p.processDependencies item task) := by
  have hfail : ∀ (task : Copy) (err : Error) (result : Copy → Bool × Option Error × Copy),
      KeepsToken (Storage.terminateItem item >>= fun _ =>
        p.c.handleTaskError task err >>= fun r => pure (result r.2)) := by
    intro task err result
    refine .bind (terminateItem_keeps item) fun _ => ?_
    exact .bind (p.c.handleTaskError_keeps task err) fun _ => .ret _
  unfold processDependencies
  refine .bind (p.loadDependencies_keeps task.dependencies task true) ?_
  rintro ⟨ready, failed, err, task⟩
  cases err with
  | some err =>
    simp only
    split_ifs
    · exact hfail task _ fun t => (false, some err, t)
    · exact .bind (nakBlockedItem_keeps item) fun _ => .ret _
  | none =>
    simp only
    split_ifs
    · exact hfail task _ fun t => (false, some Sentinel.taskDependenciesFailed.error, t)
    · exact .bind (nakBlockedItem_keeps item) fun _ => .ret _
    · exact .ret _

theorem checkState_keeps (item : ProcessItem) (task : Copy) :
    KeepsToken (p.checkState item task) := by
  unfold checkState
  cases task.state with
  | active =>
    cases task.lastTriedAt with
    | none => exact .ret _
    | some lastTriedAt =>
      refine .bind readClock_keeps fun now => ?_
      split_ifs
      · exact .ret _
      · exact .ret _
  | unreachable => exact .bind (ackItem_keeps item) fun _ => .ret _
  | completed => exact .bind (ackItem_keeps item) fun _ => .ret _
  | expired => exact .bind (ackItem_keeps item) fun _ => .ret _
  | _ => exact .ret _

theorem checkLimits_keeps (task : Copy) : KeepsToken (p.checkLimits task) := by
  unfold checkLimits
  refine .bind readClock_keeps fun now => ?_
  split_ifs
  · exact .bind (p.c.handleTaskExpired_keeps task) fun _ => .ret _
  · exact .bind (p.c.handleTaskExpired_keeps task) fun _ => .ret _
  · exact .ret _

/-- A message that failed keeps its token, any other has given it away. -/
def tokenAfter (err : Option Error) (held : Bool) : Prop := held = err.isSome

theorem fails_holds (err : Error) : Holds tokenContext tokenAfter (.ret (some err)) true :=
  fun _ hheld _ => hheld

theorem startHandler_holds_token (item : ProcessItem) (task : Copy) :
    Holds tokenContext tokenAfter (startHandler item task) true := by
  refine (Client.setTaskActive_keeps task).seq ?_
  rintro ⟨err, task⟩
  cases err with
  | some err => exact fails_holds _
  | none => exact gives_holds rfl rfl

theorem checkDependencies_holds_token (item : ProcessItem) (task : Copy) :
    Holds tokenContext tokenAfter (p.checkDependencies item task) true := by
  unfold checkDependencies
  split_ifs
  · refine (p.processDependencies_keeps item task).seq ?_
    rintro ⟨should, err, task⟩
    simp only
    split
    · exact fails_holds _
    · split_ifs
      · exact gives_holds rfl rfl
      · exact startHandler_holds_token item task
  · exact startHandler_holds_token item task

theorem processMessage_holds_token (item : ProcessItem) :
    Holds tokenContext tokenAfter (p.processMessage item) true := by
  unfold processMessage
  refine (p.c.loadTaskByID_keeps .task item.jobID).seq ?_
  rintro (err | task)
  · simp only
    split_ifs
    · exact (terminateItem_keeps item).seq fun _ => gives_holds rfl rfl
    · exact fails_holds _
  · refine (p.checkState_keeps item task).seq ?_
    rintro (_ | err)
    · refine (p.checkLimits_keeps task).seq ?_
      rintro (_ | err)
      · exact p.checkDependencies_holds_token item task
      · exact fails_holds err
    · exact fails_holds err

theorem processItem_holds_token (item : ProcessItem) :
    Holds tokenContext (fun _ held => held = false) (p.processItem item) true := by
  unfold processItem
  refine Holds.seq (p.processMessage_holds_token item) ?_
  rintro (_ | err) held _ _ hheld
  · cases hheld
    exact fun _ h _ => h
  · cases hheld
    exact gives_holds (a := ()) rfl rfl

theorem handle_holds_token (t : Copy) (item : ProcessItem) :
    Holds tokenContext (fun _ held => held = false) (p.handle t item) true := by
  have hend : Holds tokenContext (fun _ held => held = false) (request .release) true :=
    gives_holds (a := ()) rfl rfl
  unfold handle
  refine (KeepsToken.request (c := .runHandler _) rfl).seq ?_
  rintro (err | payload)
  · cases hterm : err.is .terminateTask with
    | true =>
      simp only [hterm]
      refine (p.c.handleTaskTerminated_keeps _ err).seq fun _ => ?_
      exact (terminateItem_keeps item).seq fun _ => hend
    | false =>
      simp only [hterm]
      refine (p.c.handleTaskError_keeps _ err).seq fun _ => ?_
      exact (nakItem_keeps _ item).seq fun _ => hend
  · refine (p.c.setTaskSuccess_keeps _ payload).seq fun _ => ?_
    exact (ackItem_keeps item).seq fun _ => hend

end Processor

end AsyncJobs
