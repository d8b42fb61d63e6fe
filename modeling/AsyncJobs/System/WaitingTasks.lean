import AsyncJobs.System.SubmitSpec
import AsyncJobs.System.Revisions

/-!
# Waiting tasks keep their work item

On a queue that delivers an item `MaxTries` times, a task that waits must keep an
item that is in delivery or has an attempt left. Deliveries are used up by paths that
do not count as tries of the task, so the package does not guarantee this: a blocked
task is orphaned when its last delivery finds its dependencies unfinished. In every
undisturbed run that keeps the attempts, no waiting task is orphaned.
-/

namespace AsyncJobs

open Interaction

/-- The queue holds an item of the task that is in delivery or has an attempt left. -/
def World.stillQueued (w : World) (q : Queue) (id : String) : Bool :=
  w.items.any fun i => i.queue = q.name ∧ i.id = id ∧
    ((i.delivered : Int) < q.maxTries ∨
      w.deliveries.any fun d => d.id = id ∧ d.msg.queue = i.queue ∧ d.msg.seq = i.seq)

/-- The last call that enqueued or retried the task returned without an error. -/
def World.successfullySubmitted (w : World) (id : String) : Bool :=
  match lastSubmit id w.log with
  | some n => w.log.contains (.returned n none)
  | none => false

namespace Config

/-- The queue is in order, waiting tasks are covered and every thread is safe. -/
structure QueueSound (q : Queue) (cfg : Config) : Prop where
  sound : cfg.Inv
  queue : QueueInv q cfg.world
  covering : Covering q cfg.world
  safe : Safe (queueContext q) cfg.world cfg.threads

theorem QueueSound.init (q : Queue) (start : Int) : QueueSound q (Config.init start) where
  sound := Inv.init start
  queue := QueueInv.init q start
  covering := Covering.init q start
  safe := Safe.nil

variable {q : Queue} {cfg cfg' : Config}

theorem equipped_handler {tag : Tag} {w : World} {p : Processor} {t : Copy} {item : ProcessItem}
    (hq : QueueInv q w)
    (hp : QueuePermit q tag w (.goHandle t item)) :
    (Role.handler p t item).Equipped w.nextCopy (w.beginHandler tag.holder t item) := by
  obtain ⟨msg, hitem, hassigned⟩ := hp
  refine ⟨msg, hitem, hassigned.issued.append [_], ?_⟩
  intro d' hd' hholder
  obtain ⟨d, hd, rfl⟩ := List.mem_map.mp hd'
  by_cases hsame : d.holder = tag.holder
  · rw [if_pos hsame]
    exact hassigned.own d hd hsame
  · rw [if_neg hsame] at hholder ⊢
    have hlt := (hq.holders d hd).1
    simp only at hholder
    omega

theorem QueueSound.request (h : QueueSound q cfg) (hM : 0 < q.maxTries) {i : Nat} {o : Outcome}
    (hs : cfg.step (.run i o) = some cfg') (hok : cfg.undisturbed q (.run i o) = true)
    (hkept : cfg.keepsAttempts q (.run i o) = true) : QueueSound q cfg' := by
  have hsound := h.sound.step hs
  obtain ⟨tag, c, k, r, w', hget, hexec, rfl⟩ := step_run hs
  simp only [undisturbed, Config.keepsAttempts, nextCall, hget] at hok hkept
  have hmem := List.mem_of_getElem? hget
  have hn : tag.holder < cfg.world.nextCopy := h.sound.fresh _ hmem
  have hpermit := (h.safe.next hmem ⟨h.sound.world, h.queue⟩).1
  have heffect := World.exec_healthy hexec hok hkept
  have hqueue := h.queue.effect heffect hpermit
  have hcontext : (queueContext q tag).exec cfg.world c r w' :=
    ⟨⟨o, hexec, hok, hkept⟩, h.queue, hpermit, hsound.world, hn⟩
  have hother : ∀ j th, cfg.threads[j]? = some th → j ≠ i →
      (queueContext q th.tag).rely cfg.world w' := by
    intro j th hj hji
    refine ⟨h.sound.request_rely hget (World.exec_effect hexec) j th hj hji, ?_, ?_⟩
    · exact heffect.kept h.queue hsound.world hpermit
    · exact heffect.noMore (h.sound.fresh th (List.mem_of_getElem? hj))
  refine ⟨hsound, hqueue, h.covering.effect h.queue hM heffect hsound.world hpermit, ?_⟩
  refine (h.safe.step hget ⟨h.sound.world, h.queue⟩ hcontext hother).append ?_
  intro th hth
  obtain ⟨p, given, t, item, hrole, rfl, rfl⟩ := mem_spawned hth
  cases heffect with
  | start => exact prog_queue (equipped_handler h.queue hpermit)

theorem QueueSound.calm (h : QueueSound q cfg) (hsound : cfg'.Inv) (es : List Event)
    {started : List (Thread jobs Tag)} (hcalm : Calm cfg.world cfg'.world)
    (hext : World.Extends cfg.world cfg'.world es)
    (hsubject : ∀ e ∈ es, e.subject = none ∨ e.subject = some cfg.world.nextCopy)
    (hthreads : cfg'.threads = cfg.threads ++ started)
    (hstarted : Safe (queueContext q) cfg'.world started) : QueueSound q cfg' := by
  refine ⟨hsound, h.queue.calm hcalm, h.covering.calm hcalm, ?_⟩
  rw [hthreads]
  refine (h.safe.rely fun th hth => ?_).append hstarted
  refine ⟨h.sound.environment_rely hext hsubject th hth, hcalm.frame.kept q, ?_⟩
  rw [NoMore, hcalm.deliveries]
  exact fun d hd _ => hd

theorem QueueSound.unseen (h : QueueSound q cfg) {w' : World} (hsound : Inv ⟨w', cfg.threads⟩)
    (hcalm : Calm cfg.world w') (hlog : w'.log = cfg.world.log)
    (hclock : cfg.world.clock ≤ w'.clock) : QueueSound q ⟨w', cfg.threads⟩ :=
  h.calm hsound [] hcalm ⟨hlog, hclock⟩ (by simp) (List.append_nil _).symm Safe.nil

theorem Inv.untouched (h : cfg.Inv) : Untouched cfg.world.nextCopy cfg.world.log := by
  refine .fresh fun e he heq => ?_
  exact Nat.lt_irrefl _ (h.world.subjects e he _ heq)

theorem safe_single {w : World} {n : Nat} {role : Role} (h : role.Equipped n w) :
    Safe (queueContext q) w [⟨⟨n, role⟩, role.prog⟩] := by
  intro th hth
  rw [List.mem_singleton.mp hth]
  exact prog_queue h

theorem QueueSound.submit (h : QueueSound q cfg) {copy : Nat} {t : Copy} {role : Role}
    (hsound : (cfg.spawn (cfg.handOver copy t) role).Inv)
    (hrole : ∀ n w, Untouched n w.log → role.Equipped n w) :
    QueueSound q (cfg.spawn (cfg.handOver copy t) role) := by
  refine h.calm hsound [.submitted copy cfg.world.nextCopy t] ?_ ⟨rfl, Int.le_refl _⟩
    (by simp [Event.subject]) rfl (safe_single (hrole _ _ ?_))
  · refine ⟨.cons rfl rfl rfl rfl same_items, ?_, rfl, rfl, Nat.le_succ _⟩
    intro e he
    rcases List.mem_cons.mp he with rfl | he
    · exact Or.inr ⟨_, _, _, rfl⟩
    · exact Or.inl he
  · exact h.sound.untouched.cons rfl (by rintro _ ⟨⟩)

theorem QueueSound.spawn (h : QueueSound q cfg) {role : Role}
    (hsound : (cfg.spawn cfg.world role).Inv)
    (hrole : ∀ n w, Untouched n w.log → role.Equipped n w) :
    QueueSound q (cfg.spawn cfg.world role) := by
  refine h.calm hsound [] (.silent rfl rfl rfl rfl rfl (Nat.le_succ _))
    ⟨rfl, Int.le_refl _⟩ (by simp) rfl (safe_single (hrole _ _ ?_))
  exact h.sound.untouched

/-- A delivery: the worker that gets it works on this item only. -/
theorem QueueSound.deliver (h : QueueSound q cfg) {p : Processor} {i : WorkItem}
    (hi : i ∈ cfg.world.items) (hleft : (i.delivered : Int) < q.maxTries)
    (hsound : (cfg.spawn (cfg.handOut p i) (.worker p ⟨i.id, some (messageOf i)⟩)).Inv) :
    QueueSound q (cfg.spawn (cfg.handOut p i) (.worker p ⟨i.id, some (messageOf i)⟩)) := by
  have hdelivers : Delivers q cfg.world i
      (cfg.spawn (cfg.handOut p i) (.worker p ⟨i.id, some (messageOf i)⟩)).world :=
    ⟨hi, hleft, rfl, rfl, rfl, ⟨_, rfl⟩, rfl, rfl⟩
  refine ⟨hsound, hdelivers.queueInv h.queue, hdelivers.covering h.queue h.covering, ?_⟩
  refine (h.safe.rely fun th hth => ?_).append (safe_single ?_)
  · have hext : World.Extends cfg.world _ [] := ⟨hdelivers.log, Int.le_refl _⟩
    refine ⟨h.sound.environment_rely hext (by simp) th hth, hdelivers.frame.kept q, ?_⟩
    intro d hd hholder
    rcases List.mem_cons.mp hd with rfl | hd
    · exact absurd hholder.symm (Nat.ne_of_lt (h.sound.fresh th hth))
    · exact hd
  · refine ⟨_, rfl, lastItem_issued (h.queue.latest i hi), ?_⟩
    intro d hd hholder
    rcases List.mem_cons.mp hd with rfl | hd
    · exact ⟨rfl, rfl⟩
    · exact absurd hholder (Nat.ne_of_lt (h.queue.holders d hd).1)

theorem QueueSound.step (h : QueueSound q cfg) (hM : 0 < q.maxTries) {a : Action}
    (hs : cfg.step a = some cfg') (hok : cfg.undisturbed q a = true)
    (hkept : cfg.keepsAttempts q a = true) : QueueSound q cfg' := by
  have hsound := h.sound.step hs
  cases step_sound hs with
  | request => exact h.request hM hs hok hkept
  | crash => cases hkept
  | @deliver p i hfound hqueue hdue hattempts =>
    have hp : p.queue = q := of_decide_eq_true hok
    have hleft : (i.delivered : Int) < q.maxTries := by
      rw [hp] at hattempts
      omega
    exact h.deliver hfound hleft hsound
  | newTask =>
    exact h.unseen hsound (.silent rfl rfl rfl rfl rfl (Nat.le_succ _)) rfl (Int.le_refl _)
  | edit =>
    exact h.unseen hsound (.silent rfl rfl rfl rfl rfl (Nat.le_refl _)) rfl (Int.le_refl _)
  | enqueue c owned => exact h.submit hsound fun _ _ hu => hu
  | enqueueInto queue owned => exact h.submit hsound fun _ _ hu => hu
  | retry c id => exact h.spawn hsound fun _ _ hu => hu
  | load c id => exact h.spawn hsound fun _ _ hu => hu
  | tick d =>
    exact h.unseen hsound (.silent rfl rfl rfl rfl rfl (Nat.le_refl _)) rfl
      (Int.le_add_of_nonneg_right (Int.natCast_nonneg d))
  | forgetMsgID queue msgID =>
    exact h.unseen hsound (.silent rfl rfl rfl rfl rfl (Nat.le_refl _)) rfl (Int.le_refl _)
  | delete | dropTask | dropItem => cases hok

end Config

theorem World.stillQueued_of_covering {q : Queue} {w : World} {id : String} {m : StoredTask}
    (hq : QueueInv q w) (hc : Covering q w) (hstored : w.stored id = some m)
    (henq : m.task.enqueueable) (hpending : ¬ Pending id w.log) : w.stillQueued q id = true := by
  obtain ⟨i, hi, rfl⟩ := (hc.present id m hstored henq).resolve_left hpending
  refine List.any_eq_true.mpr ⟨i, hi, decide_eq_true ⟨hq.inQueue i hi, rfl, ?_⟩⟩
  by_cases hleft : (i.delivered : Int) < q.maxTries
  · exact Or.inl hleft
  · have hmax : q.maxTries ≤ (i.delivered : Int) := by omega
    obtain ⟨d, hd, hid, hseq, -⟩ :=
      (hc.exhausted i hi hmax m hstored henq).resolve_left hpending
    have hqueue : d.msg.queue = i.queue :=
      (hq.delivered d hd).2.1.trans (hq.inQueue i hi).symm
    exact Or.inr (List.any_eq_true.mpr ⟨d, hd, decide_eq_true ⟨hid, hqueue, hseq⟩⟩)

theorem QueueInv.not_pending {q : Queue} {w : World} {id : String} (hq : QueueInv q w)
    (hs : w.successfullySubmitted id = true) : ¬ Pending id w.log := by
  rintro ⟨n, hn, hun⟩
  simp only [World.successfullySubmitted, hn, List.contains_iff_mem] at hs
  obtain ⟨queue, id', seq, hpub⟩ := hq.returned hs hn
  exact hun queue id' seq hpub

theorem World.waiting_iff {w : World} {id : String} :
    w.waiting id = true ↔ ∃ m, w.stored id = some m ∧ m.task.enqueueable := by
  cases hstored : w.stored id with
  | none => simp [World.waiting, hstored]
  | some m => simp [World.waiting, hstored, Task.enqueueable]

/-- In every undisturbed run that keeps the attempts, the queue holds an item for every
waiting task that was submitted, in delivery or with an attempt left. -/
theorem waiting_tasks_keep_an_item (q : Queue) (hM : 0 < q.maxTries) (start : Int)
    (actions : List Action) (cfg : Config)
    (hrun : (Config.init start).runWhile
      (fun cfg a => cfg.undisturbed q a && cfg.keepsAttempts q a) actions = some cfg)
    (id : String) (hwaiting : cfg.world.waiting id = true)
    (hsubmitted : cfg.world.successfullySubmitted id = true) :
    cfg.world.stillQueued q id = true := by
  have hreached : Config.QueueSound q cfg := by
    refine runWhile_induction (P := Config.QueueSound q) ?_ actions
      (Config.QueueSound.init q start) hrun
    intro cfg cfg' a h hmeets hs
    obtain ⟨hok, hkept⟩ := Bool.and_eq_true_iff.mp hmeets
    exact h.step hM hs hok hkept
  obtain ⟨m, hstored, henq⟩ := World.waiting_iff.mp hwaiting
  exact World.stillQueued_of_covering hreached.queue hreached.covering hstored henq
    (hreached.queue.not_pending hsubmitted)

/-- The handler of the first delivery fails, so the task waits for a retry. -/
def failOnce : List Action :=
  enqueueSample ++ startSample 1 ++ .run 2 (.handled (.error (.plain "failed"))) :: answered 2 5

theorem waiting_tasks_keep_an_item_sample :
    ∃ cfg, (Config.init 0).runWhile
        (fun cfg a => cfg.undisturbed sampleQueue a && cfg.keepsAttempts sampleQueue a) failOnce =
          some cfg ∧
      cfg.world.waiting "T1" = true ∧ cfg.world.stillQueued sampleQueue "T1" = true := by
  have hrun : ((Config.init 0).runWhile
      (fun cfg a => cfg.undisturbed sampleQueue a && cfg.keepsAttempts sampleQueue a) failOnce).any
        (fun cfg => cfg.world.waiting "T1" && cfg.world.successfullySubmitted "T1") = true := by
    decide +kernel
  obtain ⟨cfg, hcfg, hstate⟩ := (Option.any_eq_true _ _).mp hrun
  obtain ⟨hwaiting, hsubmitted⟩ := Bool.and_eq_true_iff.mp hstate
  exact ⟨cfg, hcfg, hwaiting, waiting_tasks_keep_an_item sampleQueue (by decide) 0 failOnce cfg hcfg
    "T1" hwaiting hsubmitted⟩

/-- Both tasks are enqueued, and the blocked one is delivered before the other is done. -/
def deliverBlocked : List Action :=
  [.newTask { sampleTask with id := "T2" }, .enqueue onceClient 0] ++ answered 0 4 ++
    [.newTask { sampleTask with dependencies := ["T2"], state := .blocked },
      .enqueue onceClient 3] ++ answered 1 4 ++ .deliver ⟨onceClient⟩ "T1" :: answered 2 5

/-- Its only delivery is used up by the nak, and nothing will deliver it again. -/
theorem blocked_task_is_orphaned :
    0 < onceQueue.maxTries ∧
    ∃ cfg, (Config.init 0).runWhile (Config.undisturbed onceQueue) deliverBlocked = some cfg ∧
      cfg.world.waiting "T1" = true ∧ cfg.world.successfullySubmitted "T1" = true ∧
      cfg.world.stillQueued onceQueue "T1" = false := by
  refine ⟨by decide, ?_⟩
  have hrun : ((Config.init 0).runWhile (Config.undisturbed onceQueue) deliverBlocked).any
      (fun cfg => cfg.world.waiting "T1" && (cfg.world.successfullySubmitted "T1" &&
        !cfg.world.stillQueued onceQueue "T1")) = true := by
    decide +kernel
  obtain ⟨cfg, hcfg, hstate⟩ := (Option.any_eq_true _ _).mp hrun
  simp only [Bool.and_eq_true, Bool.not_eq_true'] at hstate
  exact ⟨cfg, hcfg, hstate⟩

end AsyncJobs
