import AsyncJobs.Interaction.Progress
import AsyncJobs.Limiter.Tokens
import AsyncJobs.System.Assignments

/-!
# Who takes a work item off the queue

A worker that finds its task in a final state acknowledges the item, replaces the record or
removes it, unless it rejects the signature. A handler that stores a task as complete or
terminated acknowledges or terminates the item next. These are facts about the programs
alone. A thread attends an item if it was given the item and its program still has one of
these ends ahead; until then it has its delivery.
-/

namespace AsyncJobs

open Interaction

/-- The replies to expect while `m` is what is stored for its task. -/
def Finds (m : StoredTask) : (c : Call) → c.Reply → Prop
  | .readLast _ id, r => id = m.task.id → r = .ok m
  | _, _ => True

def Call.Removes (msg : MsgRef) : Call → Prop
  | .ackItem msg' | .termItem msg' => msg' = msg
  | _ => False

/-- The call takes the item off the queue, or replaces or removes the revision. -/
def Call.Settles (m : StoredTask) (msg : MsgRef) : Call → Prop
  | .publishTask t => t.id = m.task.id
  | .deleteMessage seq => seq = m.seq
  | c => c.Removes msg

/-- The states a handler stores before it takes the item off the queue. -/
def TaskState.commits : TaskState → Bool
  | .completed | .terminated => true
  | _ => false

def Call.Commits : Call → Prop
  | .publishTask t => t.state.commits = true
  | _ => False

theorem Call.Quiet.not_commits {c : Call} (h : c.Quiet) : ¬ c.Commits := by
  cases c with
  | publishTask t => exact absurd h id
  | _ => exact id

theorem Call.Removes.settles {c : Call} {m : StoredTask} {msg : MsgRef} (h : c.Removes msg) :
    c.Settles m msg := by
  cases c with
  | publishTask t => exact h.elim
  | deleteMessage seq => exact h.elim
  | _ => exact h

section Worker

variable {m : StoredTask} {msg : MsgRef}

theorem readClock_reaches {D : Call → Prop} :
    readClock.Reaches (Finds m) D fun _ => True :=
  Or.inr fun _ _ => trivial

theorem Storage.loadTaskByID_reaches {D : Call → Prop} (use : ReadUse) :
    (loadTaskByID use m.task.id).Reaches (Finds m) D fun r => r = .ok ⟨m.task, some m.seq⟩ := by
  refine Or.inr fun r hr => ?_
  obtain rfl := hr rfl
  rfl

namespace Client

variable (c : Client)

theorem loadTaskByID_reaches {D : Call → Prop} {verified : Unit}
    (hverify : c.verifyTaskSignature m.task = .ok verified) :
    (c.loadTaskByID .task m.task.id).Reaches (Finds m) D fun r =>
      r = .ok ⟨m.task, some m.seq⟩ := by
  apply (Storage.loadTaskByID_reaches .task).bind
  rintro _ rfl
  simp only [hverify]
  rfl

/-- Whatever is done with the new record, the old one is replaced or removed. -/
theorem saveOrDiscardTaskIfDesired_reaches {t : Copy} (hid : t.id = m.task.id) :
    (c.saveOrDiscardTaskIfDesired t).Reaches (Finds m) (Call.Settles m msg) fun _ => False := by
  unfold saveOrDiscardTaskIfDesired
  split
  · exact Or.inl hid
  · refine Or.inr fun _ _ => Or.inr fun r hr => ?_
    obtain rfl := hr hid
    exact Or.inl rfl

end Client

namespace Processor

variable (p : Processor)

/-- A final state is acknowledged, except for terminated, which falls through. -/
theorem checkState_reaches (hfinal : m.task.state.final = true) :
    (p.checkState ⟨m.task.id, some msg⟩ ⟨m.task, some m.seq⟩).Reaches (Finds m)
      (Call.Settles m msg) fun r => r = none ∧ m.task.state = .terminated := by
  unfold checkState
  cases hstate : m.task.state with
  | terminated => exact ⟨rfl, rfl⟩
  | completed => exact Or.inl rfl
  | expired => exact Or.inl rfl
  | unreachable => exact Or.inl rfl
  | _ => simp [hstate, TaskState.final] at hfinal

theorem checkLimits_reaches :
    (p.checkLimits ⟨m.task, some m.seq⟩).Reaches (Finds m) (Call.Settles m msg) (· = none) := by
  have hexpire : ∀ err : Error, (p.c.handleTaskExpired ⟨m.task, some m.seq⟩ >>= fun _ =>
      pure (some err)).Reaches (Finds m) (Call.Settles m msg) (· = none) := by
    intro err
    exact (p.c.saveOrDiscardTaskIfDesired_reaches rfl).bind fun _ => False.elim
  apply readClock_reaches.bind
  intro now _
  split
  · exact hexpire _
  · split
    · exact hexpire _
    · rfl

theorem startHandler_reaches (item : ProcessItem) :
    (startHandler item ⟨m.task, some m.seq⟩).Reaches (Finds m) (Call.Settles m msg)
      fun _ => False := by
  apply readClock_reaches.bind
  intro now _
  exact Or.inl rfl

theorem processItem_reaches (hfinal : m.task.state.final = true)
    (hverifies : World.verifies p m.task = true) :
    (p.processItem ⟨m.task.id, some msg⟩).Reaches (Finds m) (Call.Settles m msg)
      fun _ => False := by
  have hmessage : (p.processMessage ⟨m.task.id, some msg⟩).Reaches (Finds m)
      (Call.Settles m msg) fun _ => False := by
    cases hverify : p.c.verifyTaskSignature m.task with
    | error fault => simp [World.verifies, hverify] at hverifies
    | ok verified =>
      apply (p.c.loadTaskByID_reaches hverify).bind
      rintro _ rfl
      apply (p.checkState_reaches hfinal).bind
      rintro _ ⟨rfl, hstate⟩
      apply p.checkLimits_reaches.bind
      rintro _ rfl
      have hblocked : ¬ (m.task.state = .blocked ∧ m.task.hasDependencies = true) := by
        simp [hstate]
      unfold checkDependencies
      rw [if_neg hblocked]
      exact startHandler_reaches _
  exact hmessage.bind fun _ => False.elim

end Processor

end Worker

/-- A handler takes its item off the queue after it has stored the task as complete or
terminated. -/
theorem Processor.handle_leadsTo (p : Processor) (t : Copy) (id : String) (msg : MsgRef) :
    (p.handle t ⟨id, some msg⟩).LeadsTo Call.Commits (fun _ _ => True) (Call.Removes msg)
      fun _ => False := by
  have hquiet : ∀ c : Call, c.Quiet → ¬ c.Commits := fun _ => Call.Quiet.not_commits
  have hall : ∀ c : Call, c.Quiet → True := fun _ _ => trivial
  rw [handle_eq]
  refine ⟨fun hc => hc.elim, fun r => ?_⟩
  cases r with
  | ok payload =>
    apply (Client.setTaskSuccess_yields hall p.c (fun _ => trivial) _ payload).leadsTo.bind
    · exact fun _ _ => Or.inl rfl
    · intro _
      apply Prog.Yields.leadsTo_of_not (P := fun _ => True)
      exact (Storage.ackItem_yields hquiet _).bind fun _ _ => release_yields hquiet
  | error err =>
    by_cases hterminate : err.is .terminateTask = true
    · simp only [afterHandler, hterminate]
      apply (Client.handleTaskTerminated_yields hall p.c (fun _ => trivial) _ err).leadsTo.bind
      · exact fun _ _ => Or.inl rfl
      · intro _
        apply Prog.Yields.leadsTo_of_not (P := fun _ => True)
        exact (Storage.terminateItem_yields hquiet _).bind fun _ _ => release_yields hquiet
    · simp only [afterHandler, hterminate]
      apply Prog.Yields.leadsTo_of_not (P := fun _ => True)
      have herror : ∀ now : Int, ¬ (Call.publishTask { t with
          tries := t.tries + 1, lastErr := err.text, lastTriedAt := some now
          state := p.c.errorState { t.toTask with tries := t.tries + 1 } err }).Commits := by
        intro now
        simp only [Call.Commits, Client.errorState]
        split_ifs <;> simp [TaskState.commits]
      have hsaved : (p.c.handleTaskError { t with tries := t.tries + 1 } err).Yields
          (¬ Call.Commits ·) fun _ => True :=
        ⟨hquiet _ trivial, fun now =>
          Client.saveOrDiscardTaskIfDesired_yields hquiet p.c (herror now)⟩
      apply hsaved.bind
      intro _ _
      exact (Storage.nakItem_yields hquiet _ _).bind fun _ _ => release_yields hquiet

/-- The thread was given the item. While `m` is stored for the task it will settle the item:
it has not looked at the task yet, or its program is bound to get there. -/
structure Attends (i : WorkItem) (m : StoredTask) (msg : MsgRef) (th : Thread jobs Tag) : Prop where
  item : th.tag.role.item = some ⟨i.id, some msg⟩
  queue : msg.queue = i.queue
  seq : msg.seq = i.seq
  ends : (∃ p, th.tag.role = .worker p ⟨i.id, some msg⟩ ∧
      th.prog = p.processItem ⟨i.id, some msg⟩) ∨
    th.prog.Reaches (Finds m) (Call.Settles m msg) fun _ => False

/-- The thread has its delivery until its last call, and a handler takes its item off the
queue after it has stored the task as complete or terminated. -/
structure Diligent (w : World) (msg : MsgRef) (th : Thread jobs Tag) : Prop where
  token : ∃ held, Holds tokenContext (fun _ held => held = false) th.prog held ∧
    (held = true → ∃ d ∈ w.deliveries, d.holder = th.tag.holder ∧ d.msg = msg)
  commits : th.tag.role.writer = .handler →
    th.prog.LeadsTo Call.Commits (fun _ _ => True) (Call.Removes msg) fun _ => False

section Threads

variable {w w' : World} {msg : MsgRef} {tag : Tag}

theorem Diligent.delivery {c : Call} {k : c.Reply → Job Unit}
    (h : Diligent w msg ⟨tag, .call c k⟩) :
    ∃ d ∈ w.deliveries, d.holder = tag.holder ∧ d.msg = msg := by
  obtain ⟨held, hholds, hdelivery⟩ := h.token
  exact hdelivery (hholds held rfl trivial).1

theorem Attends.delivery {i : WorkItem} {m : StoredTask} {th : Thread jobs Tag}
    (h : Attends i m msg th) (hdiligent : Diligent w msg th) :
    ∃ d ∈ w.deliveries, d.holder = th.tag.holder ∧ d.msg = msg := by
  obtain ⟨tag, prog⟩ := th
  cases prog with
  | ret a =>
    rcases h.ends with ⟨p, -, hprog⟩ | hends
    · cases hprog
    · exact hends.elim
  | call c k => exact hdiligent.delivery

theorem Diligent.waits {th : Thread jobs Tag} (h : Diligent w msg th)
    (hkept : ∀ d ∈ w.deliveries, d.holder = th.tag.holder → d ∈ w'.deliveries) :
    Diligent w' msg th := by
  obtain ⟨held, hholds, hdelivery⟩ := h.token
  refine ⟨⟨held, hholds, fun hheld => ?_⟩, h.commits⟩
  obtain ⟨d, hd, hholder, hmsg⟩ := hdelivery hheld
  exact ⟨d, hkept d hd hholder, hholder, hmsg⟩

/-- A thread loses its delivery only by giving its token away. -/
theorem Effect.delivery_kept {n : Nat} {writer : Writer} {c : Call}
    (h : Effect n writer w c w') {d : Delivery} (hd : d ∈ w.deliveries)
    (hother : d.holder ≠ n ∨ c.givesToken = false) : d ∈ w'.deliveries := by
  cases h with
  | start t item =>
    have hholder := hother.resolve_right (by simp [Call.givesToken])
    exact List.mem_map.mpr ⟨d, hd, if_neg hholder⟩
  | release =>
    have hholder := hother.resolve_right (by simp [Call.givesToken])
    exact List.mem_filter.mpr ⟨hd, decide_eq_true hholder⟩
  | done t err => rwa [World.finish_deliveries]
  | _ => exact hd

theorem Diligent.moves {c : Call} {k : c.Reply → Job Unit} (h : Diligent w msg ⟨tag, .call c k⟩)
    (heffect : Effect tag.holder tag.role.writer w c w') (r : c.Reply) :
    Diligent w' msg ⟨tag, k r⟩ := by
  obtain ⟨d, hd, hholder, hmsg⟩ := h.delivery
  obtain ⟨held, hholds, -⟩ := h.token
  obtain ⟨rfl, hrest⟩ := hholds held rfl trivial
  refine ⟨⟨!c.givesToken, hrest r _ rfl, fun hheld => ?_⟩, fun hwriter => (h.commits hwriter).2 r⟩
  have hkeeps : c.givesToken = false := by simpa using hheld
  exact ⟨d, heffect.delivery_kept hd (Or.inr hkeeps), hholder, hmsg⟩

theorem Diligent.worker {n : Nat} {p : Processor} {item : ProcessItem} {d : Delivery}
    (hd : d ∈ w.deliveries) (hholder : d.holder = n) (hmsg : d.msg = msg) :
    Diligent w msg ⟨⟨n, .worker p item⟩, p.processItem item⟩ := by
  refine ⟨⟨true, p.processItem_holds_token item, fun _ => ⟨d, hd, hholder, hmsg⟩⟩, ?_⟩
  intro hwriter
  cases hwriter

theorem Diligent.handler {k : Unit → Job Unit} {p : Processor} {t : Copy} {id : String}
    {given : ProcessItem}
    (h : Diligent w msg ⟨tag, .call (.goHandle t given) k⟩) :
    Diligent (w.beginHandler tag.holder t given) msg
      ⟨⟨w.nextCopy, .handler p t ⟨id, some msg⟩⟩, p.handle t ⟨id, some msg⟩⟩ := by
  obtain ⟨d, hd, hholder, hmsg⟩ := h.delivery
  refine ⟨⟨true, p.handle_holds_token t _, fun _ => ?_⟩, fun _ => p.handle_leadsTo t id msg⟩
  refine ⟨{ d with holder := w.nextCopy }, List.mem_map.mpr ⟨d, hd, if_pos hholder⟩, rfl, hmsg⟩

end Threads

end AsyncJobs
