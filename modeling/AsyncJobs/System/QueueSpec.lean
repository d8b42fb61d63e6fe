import AsyncJobs.System.QueueContext

/-!
# Workers and handlers on a healthy queue

A worker or handler gives its delivery back only when nobody waits for it: the task
left its waiting state, its item has an attempt left, or it has a newer item. It takes
the item off the queue only when the task is finished or was taken over.
-/

namespace AsyncJobs

open Interaction

variable {q : Queue} {tag : Tag} {w : World} {msg : MsgRef}

def Tag.processes (tag : Tag) : Prop := tag.role.writer.submits = false

theorem release_queue (h : Releasable q tag w) :
    Holds (queueContext q tag) (fun _ _ => True) (request .release) w :=
  request_queue fun _ hv _ _ =>
    ⟨h.later ((queueContext q tag).rely_later hv), fun _ _ _ _ _ _ _ => trivial⟩

/-- What the thread knows once it has stored the task or found it missing. -/
structure Resolved (q : Queue) (tag : Tag) (t : Task) (msg : MsgRef) (w : World) : Prop where
  releasable : Releasable q tag w
  settled : t.state.final = true → Settled t.id msg.seq w

theorem Resolved.later {t : Task} {w' : World} (h : Resolved q tag t msg w)
    (hl : (queueContext q tag).later w w') : Resolved q tag t msg w' :=
  ⟨h.releasable.later hl, fun hfinal => (h.settled hfinal).later hl⟩

theorem Resolved.store {t : Copy} {v : World} (hw : tag.processes)
    (ha : Assigned tag t.id msg (v.store tag.holder tag.role.writer t true))
    (hq : QueueInv q (v.store tag.holder tag.role.writer t true))
    (hinv : (v.store tag.holder tag.role.writer t true).Inv)
    (hkept : v.keepsAttempts q tag.role (.publishTask t) = true) :
    Resolved q tag t.toTask msg (v.store tag.holder tag.role.writer t true) := by
  have hstored : ∀ m, (v.store tag.holder tag.role.writer t true).stored t.id = some m →
      m.task = t.toTask := by
    intro m hm
    rw [World.stored_store, if_pos rfl] at hm
    cases hm
    rfl
  constructor
  · by_cases henq : t.toTask.enqueueable
    · have hleft := retry_store hinv hkept hw henq
      exact ha.releasable_of_attemptsLeft hq hleft
    · refine ha.releasable hq (Or.inr (Or.inr fun m hm => ?_))
      rw [hstored m hm]
      exact henq
  · intro hfinal
    refine ha.settled hq fun m hm => ?_
    rw [hstored m hm]
    exact hfinal

namespace Storage

theorem saveTaskState_queue {t : Copy} (hw : tag.processes) (ha : Assigned tag t.id msg w)
    (notify : Bool) :
    Holds (queueContext q tag) (fun r v => r.2.toTask = t.toTask ∧ Resolved q tag t.toTask msg v)
      (saveTaskState t notify) w := by
  apply Holds.call
  intro v hv hi
  refine ⟨fun hs => ?_, fun r u hu => ?_⟩
  · rw [hw] at hs
    cases hs
  · have hl := (queueContext q tag).call_later hv hu
    obtain ⟨heffect, hq, hinv⟩ := queueContext_effect hu
    cases heffect with
    | save accepted kept =>
      have hresolved := Resolved.store hw (ha.later hl) hq hinv kept
      cases notify with
      | false =>
        intro x hx _
        exact ⟨rfl, hresolved.later ((queueContext q tag).rely_later hx)⟩
      | true =>
        refine Holds.seq (request_free (c := .publishEvent _) fun _ => trivial) ?_
        intro err x _ hx _ y hy _
        exact ⟨rfl, (hresolved.later hx).later ((queueContext q tag).rely_later hy)⟩

theorem deleteTaskByID_queue {t : Task} (ha : Assigned tag t.id msg w) :
    Holds (queueContext q tag) (fun _ v => Resolved q tag t msg v) (deleteTaskByID t.id) w := by
  apply Holds.call
  intro v hv hi
  refine ⟨trivial, fun r u hu => ?_⟩
  have hl := (queueContext q tag).call_later hv hu
  have hau := ha.later hl
  obtain ⟨heffect, hq, hinv⟩ := queueContext_effect hu
  cases heffect with
  | absent missing =>
    have hnone : v.stored t.id = none := by
      simpa [World.readLast, hau.named hinv] using missing
    have hsettled : Settled t.id msg.seq v := by
      refine hau.settled hq fun m hm => ?_
      rw [hnone] at hm
      cases hm
    intro x hx _
    have hx' := (queueContext q tag).rely_later hx
    exact ⟨(hau.releasable_of_settled hq hsettled).later hx', fun _ => hsettled.later hx'⟩
  | read found kept =>
    -- deleting a message is no request of an undisturbed run
    refine request_queue fun x _ _ _ => ⟨trivial, fun r u hu => ?_⟩
    cases hu

end Storage

theorem Client.loadTaskByID_free (c : Client) (use : ReadUse) (id : String) :
    Holds (queueContext q tag) (fun _ _ => True) (c.loadTaskByID use id) w := by
  unfold loadTaskByID Storage.loadTaskByID
  simp only [bind_assoc]
  refine Holds.seq (request_free (c := .readLast use id) fun _ => trivial) ?_
  rintro (err | m) v _ _ _
  · cases err with
    | noMessage => exact fun _ _ _ => trivial
    | failed err => exact fun _ _ _ => trivial
  · simp only [Prog.pure_eq, Prog.ret_bind]
    split
    · exact fun _ _ _ => trivial
    · exact raise_queue _ v
    · exact fun _ _ _ => trivial

theorem Client.saveOrDiscardTaskIfDesired_queue (c : Client) {t : Copy} (hw : tag.processes)
    (ha : Assigned tag t.id msg w) :
    Holds (queueContext q tag) (fun _ v => Resolved q tag t.toTask msg v)
      (c.saveOrDiscardTaskIfDesired t) w := by
  unfold saveOrDiscardTaskIfDesired
  split_ifs
  · exact Holds.mono (Storage.saveTaskState_queue hw ha true) fun _ _ _ h => h.2
  · refine Holds.seq (request_free (c := .publishEvent t.toTask) fun _ => trivial) ?_
    intro _ v _ hv _
    refine Holds.seq (Storage.deleteTaskByID_queue (t := t.toTask) (ha.later hv)) ?_
    intro _ x _ _ hx y hy _
    exact hx.later ((queueContext q tag).rely_later hy)

theorem readClock_queue : Holds (queueContext q tag) (fun _ _ => True) readClock w :=
  request_free (c := .now) fun _ => trivial

/-- Reading the clock and then saving or discarding a record stamped with it. -/
theorem Client.stamped_queue (c : Client) {stamp : Int → Copy} {t : Task} (hw : tag.processes)
    (ha : Assigned tag t.id msg w) (hid : ∀ now, (stamp now).id = t.id)
    (hstate : ∀ now, (stamp now).state = t.state) :
    Holds (queueContext q tag) (fun _ v => Resolved q tag t msg v)
      (readClock >>= fun now => c.saveOrDiscardTaskIfDesired (stamp now)) w := by
  refine Holds.seq readClock_queue ?_
  intro now v _ hv _
  have hav : Assigned tag (stamp now).id msg v := hid now ▸ ha.later hv
  refine Holds.mono (c.saveOrDiscardTaskIfDesired_queue hw hav) ?_
  intro _ x _ hx
  refine ⟨hx.releasable, fun hfinal => ?_⟩
  rw [← hid now]
  exact hx.settled ((hstate now) ▸ hfinal)

theorem Client.handleTaskTerminated_queue (c : Client) {t : Copy} {err : Error} (hw : tag.processes)
    (ha : Assigned tag t.id msg w) :
    Holds (queueContext q tag)
      (fun _ v => Resolved q tag { t.toTask with state := .terminated } msg v)
      (c.handleTaskTerminated t err) w :=
  c.stamped_queue hw ha (by intro now; rfl) (by intro now; rfl)

theorem Client.handleTaskError_queue (c : Client) {t : Copy} {err : Error} (hw : tag.processes)
    (ha : Assigned tag t.id msg w) :
    Holds (queueContext q tag)
      (fun _ v => Resolved q tag { t.toTask with state := c.errorState t.toTask err } msg v)
      (c.handleTaskError t err) w :=
  c.stamped_queue hw ha (by intro now; rfl) (by intro now; rfl)

theorem Client.setTaskSuccess_queue (c : Client) {t : Copy} (hw : tag.processes)
    (ha : Assigned tag t.id msg w) (payload : String) :
    Holds (queueContext q tag)
      (fun _ v => Resolved q tag { t.toTask with state := .completed } msg v)
      (c.setTaskSuccess t payload) w := by
  unfold setTaskSuccess
  refine Holds.seq readClock_queue ?_
  intro lastTriedAt v _ hv _
  exact c.stamped_queue hw (ha.later hv) (by intro now; rfl) (by intro now; rfl)

namespace Processor

variable (p : Processor) {id : String}

/-- What a worker knows about the task of its item once it has loaded it. -/
structure Seen (q : Queue) (tag : Tag) (t : Task) (msg : MsgRef) (w : World) : Prop where
  rests : ¬ t.enqueueable → Releasable q tag w
  settled : t.state.final = true → Settled t.id msg.seq w

theorem Seen.later {t : Task} {w' : World} (h : Seen q tag t msg w)
    (hl : (queueContext q tag).later w w') : Seen q tag t msg w' :=
  ⟨fun hrest => (h.rests hrest).later hl, fun hfinal => (h.settled hfinal).later hl⟩

theorem loadTaskByID_queue {item : ProcessItem} (hrole : tag.role = .worker p item)
    (ha : Assigned tag id msg w) :
    Holds (queueContext q tag) (fun r v => match r with
      | .ok task => task.id = id ∧ Seen q tag task.toTask msg v
      | .error err => err.is .taskNotFound = true ∧ Settled id msg.seq v)
      (p.c.loadTaskByID .task id) w := by
  unfold Client.loadTaskByID Storage.loadTaskByID
  simp only [bind_assoc]
  apply Holds.call
  intro v hv hi
  refine ⟨trivial, fun r u hu => ?_⟩
  have hl := (queueContext q tag).call_later hv hu
  have hau := ha.later hl
  obtain ⟨heffect, hq, hinv⟩ := queueContext_effect hu
  have hread : ∀ x : World, x.readLast id = x.stored id := by
    intro x
    simp [World.readLast, hau.named hinv]
  cases heffect with
  | absent missing =>
    have hsettled : Settled id msg.seq v := by
      refine hau.settled hq fun m hm => ?_
      rw [← hread, missing] at hm
      cases hm
    intro x hx _
    refine ⟨by decide, hsettled.later ((queueContext q tag).rely_later hx)⟩
  | @read _ _ m found kept =>
    rw [hrole] at kept
    simp only [World.keepsAttempts, found] at kept
    have hverifies : World.verifies p m.task = true := (of_decide_eq_true kept).1
    have hstored : v.stored id = some m := by rw [← hread, found]
    have hid : m.task.id = id := ((World.stored_eq_some_iff hi.1.distinct).mp hstored).2
    have hsame : ∀ m', (v.note (.read tag.holder tag.role.writer .task m v.clock)).stored id =
        some m' → m' = m := by
      intro m' hm'
      exact Option.some.inj (hm'.symm.trans hstored)
    have hseen : Seen q tag m.task msg
        (v.note (.read tag.holder tag.role.writer .task m v.clock)) := by
      constructor
      · intro hrest
        refine hau.releasable hq (Or.inr (Or.inr fun m' hm' => ?_))
        rw [hsame m' hm']
        exact hrest
      · intro hfinal
        rw [hid]
        refine hau.settled hq fun m' hm' => ?_
        rw [hsame m' hm']
        exact hfinal
    simp only [Prog.pure_eq, Prog.ret_bind]
    cases hverify : p.c.verifyTaskSignature m.task with
    | error fault =>
      simp [World.verifies, hverify] at hverifies
    | ok u =>
      intro x hx _
      exact ⟨hid, hseen.later ((queueContext q tag).rely_later hx)⟩

theorem ackItem_queue (ha : Assigned tag id msg w) (hs : Settled id msg.seq w) :
    Holds (queueContext q tag) (fun _ _ => True) (Storage.ackItem ⟨id, some msg⟩) w := by
  refine request_queue fun v hv _ _ => ⟨?_, fun _ _ _ _ _ _ _ => trivial⟩
  have hl := (queueContext q tag).rely_later hv
  exact ⟨id, (ha.later hl).issued, hs.later hl⟩

theorem terminateItem_queue (ha : Assigned tag id msg w)
    (hs : (∃ p item, tag.role = .worker p item) ∨ Settled id msg.seq w) :
    Holds (queueContext q tag) (fun _ _ => True) (Storage.terminateItem ⟨id, some msg⟩) w := by
  refine request_queue fun v hv _ _ => ⟨?_, fun _ _ _ _ _ _ _ => trivial⟩
  have hl := (queueContext q tag).rely_later hv
  rcases hs with hworker | hsettled
  · exact Or.inl hworker
  · exact Or.inr ⟨id, (ha.later hl).issued, hsettled.later hl⟩

theorem nakBlockedItem_queue (hrole : tag.role = .worker p ⟨id, some msg⟩)
    (ha : Assigned tag id msg w) :
    Holds (queueContext q tag) (fun _ v => Releasable q tag v)
      (Storage.nakBlockedItem ⟨id, some msg⟩) w := by
  intro v hv hi
  refine ⟨trivial, fun r u hu => ?_⟩
  have hlater := (queueContext q tag).exec_later hu
  obtain ⟨heffect, -, -⟩ := queueContext_effect hu
  cases heffect with
  | nak _ _ kept =>
    rw [hrole] at kept
    have hreleasable := (ha.later ((queueContext q tag).rely_later hv)).releasable_of_attemptsLeft
      hi.2 kept
    intro x hx _
    exact hreleasable.later ((queueContext q tag).later_trans hlater
      ((queueContext q tag).rely_later hx))

theorem checkState_queue {task : Copy} (ha : Assigned tag id msg w) (hid : task.id = id)
    (hseen : Seen q tag task.toTask msg w) :
    Holds (queueContext q tag) (fun r v => r ≠ none → Releasable q tag v)
      (p.checkState ⟨id, some msg⟩ task) w := by
  have hstop : ∀ {v : World} (err : Error), ¬ task.toTask.enqueueable →
      Seen q tag task.toTask msg v →
      Holds (queueContext q tag) (fun r v => r ≠ none → Releasable q tag v)
        (.ret (some err)) v := by
    intro v err hrest hv x hx _ _
    exact (hv.later ((queueContext q tag).rely_later hx)).rests hrest
  have hpass : ∀ v, Holds (queueContext q tag) (fun r v => r ≠ none → Releasable q tag v)
      (.ret (none : Option Error)) v := fun v x _ _ h => absurd rfl h
  have hack : ∀ err : Error, task.state.final = true →
      Holds (queueContext q tag) (fun r v => r ≠ none → Releasable q tag v)
        (Storage.ackItem ⟨id, some msg⟩ >>= fun _ => pure (some err)) w := by
    intro err hfinal
    refine Holds.seq (ackItem_queue ha (hid ▸ hseen.settled hfinal)) ?_
    intro _ v _ hv _
    exact hstop err (fun henq => henq.not_final hfinal) (hseen.later hv)
  unfold checkState
  cases hstate : task.state with
  | active =>
    have hrest : ¬ task.toTask.enqueueable := by simp [Task.enqueueable, hstate]
    simp only
    cases task.lastTriedAt with
    | none => exact hstop _ hrest hseen
    | some lastTriedAt =>
      refine Holds.seq readClock_queue ?_
      intro now v _ hv _
      split_ifs
      · exact hstop _ hrest (hseen.later hv)
      · exact hpass v
  | unreachable => exact hack _ (by rw [hstate]; rfl)
  | completed => exact hack _ (by rw [hstate]; rfl)
  | expired => exact hack _ (by rw [hstate]; rfl)
  | _ => exact hpass w

theorem checkLimits_queue {task : Copy} (hw : tag.processes) (ha : Assigned tag task.id msg w) :
    Holds (queueContext q tag) (fun r v => r ≠ none → Releasable q tag v)
      (p.checkLimits task) w := by
  unfold checkLimits
  refine Holds.seq readClock_queue ?_
  intro now v _ hv _
  have hexpire : ∀ err : Error,
      Holds (queueContext q tag) (fun r v => r ≠ none → Releasable q tag v)
        (p.c.handleTaskExpired task >>= fun _ => pure (some err)) v := by
    intro err
    refine Holds.seq (p.c.saveOrDiscardTaskIfDesired_queue
      (t := { task with state := .expired }) hw (ha.later hv)) ?_
    intro _ x _ _ hx y hy _ _
    exact hx.releasable.later ((queueContext q tag).rely_later hy)
  split_ifs
  · exact hexpire _
  · exact hexpire _
  · exact fun x _ _ h => absurd rfl h

theorem loadDependencies_queue (parents : List String) :
    ∀ {task : Copy} {ready : Bool} {w : World},
      Holds (queueContext q tag) (fun r _ => r.2.2.2.id = task.id)
        (p.loadDependencies task ready parents) w := by
  induction parents with
  | nil => exact fun _ _ _ => rfl
  | cons parent parents ih =>
    intro task ready w
    have hstop : ∀ (failed : Bool) (err : Option Error) (v : World), Holds (queueContext q tag)
        (fun r _ => r.2.2.2.id = task.id) (.ret (false, failed, err, task)) v :=
      fun _ _ _ _ _ _ => rfl
    have hnext : ∀ {task' : Copy} {ready' : Bool} {v : World}, task'.id = task.id →
        Holds (queueContext q tag) (fun r _ => r.2.2.2.id = task.id)
          (p.loadDependencies task' ready' parents) v := by
      intro task' ready' v hid
      exact Holds.mono ih fun _ _ _ h => h.trans hid
    unfold loadDependencies
    refine Holds.seq (p.c.loadTaskByID_free .dependency parent) ?_
    rintro (err | pt) v _ _ _
    · simp only
      split_ifs
      · exact hstop _ _ v
      · exact hstop _ _ v
    · simp only
      split
      · refine hnext ?_
        split_ifs <;> rfl
      · exact hstop _ _ v
      · exact hstop _ _ v
      · exact hstop _ _ v
      · exact hstop _ _ v
      · exact hnext rfl

/-- The dependencies are ready, or the delivery may be given back. -/
structure Decided (q : Queue) (tag : Tag) (id : String) (r : Bool × Option Error × Copy)
    (w : World) : Prop where
  ready : r.1 = true → r.2.1 = none ∧ r.2.2.id = id
  waits : r.1 = false → Releasable q tag w

theorem processDependencies_queue {task : Copy} (hrole : tag.role = .worker p ⟨task.id, some msg⟩)
    (ha : Assigned tag task.id msg w) :
    Holds (queueContext q tag) (Decided q tag task.id)
      (p.processDependencies ⟨task.id, some msg⟩ task) w := by
  have hw : tag.processes := by rw [Tag.processes, hrole]; rfl
  unfold processDependencies
  refine Holds.seq (p.loadDependencies_queue task.dependencies) ?_
  rintro ⟨ready, failed, err, task'⟩ v _ hv hid
  have hav := ha.later hv
  have hfail : ∀ (err : Option Error) (result : Option Error),
      Holds (queueContext q tag) (Decided q tag task.id)
        (Storage.terminateItem ⟨task.id, some msg⟩ >>= fun _ =>
          p.c.handleTaskError task' (dependenciesFailed err) >>= fun r =>
            pure (false, result, r.2)) v := by
    intro err result
    refine Holds.seq (terminateItem_queue hav (Or.inl ⟨p, _, hrole⟩)) ?_
    intro _ x _ hx _
    have hax : Assigned tag task'.id msg x := hid ▸ hav.later hx
    refine Holds.seq (p.c.handleTaskError_queue hw hax) ?_
    intro r y _ _ hy z hz _
    exact ⟨by rintro ⟨⟩, fun _ => hy.releasable.later ((queueContext q tag).rely_later hz)⟩
  have hwait : ∀ (result : Option Error → Option Error),
      Holds (queueContext q tag) (Decided q tag task.id)
        (Storage.nakBlockedItem ⟨task.id, some msg⟩ >>=
          fun e => pure (false, result e, task')) v := by
    intro result
    refine Holds.seq (p.nakBlockedItem_queue hrole hav) ?_
    intro _ x _ _ hx y hy _
    exact ⟨by rintro ⟨⟩, fun _ => hx.later ((queueContext q tag).rely_later hy)⟩
  cases err with
  | some err =>
    simp only
    split_ifs
    · exact hfail (some err) (some err)
    · exact hwait fun e => e
  | none =>
    simp only
    split_ifs with hf hr
    · exact hfail none _
    · exact hwait fun _ => none
    · exact fun _ _ _ => ⟨fun _ => ⟨rfl, hid⟩, by rintro ⟨⟩⟩

theorem startHandler_queue {task : Copy} (hw : tag.processes) (ha : Assigned tag task.id msg w) :
    Holds (queueContext q tag) (fun r v => r ≠ none → Releasable q tag v)
      (startHandler ⟨task.id, some msg⟩ task) w := by
  unfold startHandler Client.setTaskActive
  simp only [bind_assoc]
  refine Holds.seq readClock_queue ?_
  intro now v _ hv _
  have hav := ha.later hv
  refine Holds.seq (Storage.saveTaskState_queue
    (t := { task with state := .active, lastTriedAt := some now, lastErr := "" }) hw hav true) ?_
  rintro ⟨err, task'⟩ x _ hx ⟨hsame, hresolved⟩
  have hid : task'.id = task.id := by simpa using congrArg Task.id hsame
  cases err with
  | some err =>
    intro y hy _ _
    exact hresolved.releasable.later ((queueContext q tag).rely_later hy)
  | none =>
    apply Holds.call
    intro y hy _
    refine ⟨⟨msg, by rw [hid], ?_⟩, fun _ _ _ _ _ _ h => absurd rfl h⟩
    rw [hid]
    exact (hav.later hx).later ((queueContext q tag).rely_later hy)

theorem checkDependencies_queue {task : Copy} (hrole : tag.role = .worker p ⟨task.id, some msg⟩)
    (ha : Assigned tag task.id msg w) :
    Holds (queueContext q tag) (fun r v => r ≠ none → Releasable q tag v)
      (p.checkDependencies ⟨task.id, some msg⟩ task) w := by
  have hw : tag.processes := by rw [Tag.processes, hrole]; rfl
  unfold checkDependencies
  split_ifs
  · refine Holds.seq (p.processDependencies_queue hrole ha) ?_
    rintro ⟨should, err, task'⟩ v _ hv hdecided
    cases should with
    | true =>
      obtain ⟨rfl, hid⟩ := hdecided.ready rfl
      have hav : Assigned tag task'.id msg v := hid ▸ ha.later hv
      simp only [Option.filter_none, Bool.not_true, ← hid]
      exact startHandler_queue hw hav
    | false =>
      have hreleasable := hdecided.waits rfl
      simp only [Bool.not_false, if_true]
      split
      · intro x hx _ _
        exact hreleasable.later ((queueContext q tag).rely_later hx)
      · refine Holds.seq (release_queue hreleasable) ?_
        exact fun _ _ _ _ _ _ _ _ h => absurd rfl h
  · exact startHandler_queue hw ha

theorem processMessage_queue (hrole : tag.role = .worker p ⟨id, some msg⟩)
    (ha : Assigned tag id msg w) :
    Holds (queueContext q tag) (fun r v => r ≠ none → Releasable q tag v)
      (p.processMessage ⟨id, some msg⟩) w := by
  have hw : tag.processes := by rw [Tag.processes, hrole]; rfl
  unfold processMessage
  refine Holds.seq (p.loadTaskByID_queue hrole ha) ?_
  rintro (err | task) v hi hv hload
  · obtain ⟨hnotFound, hsettled⟩ := hload
    simp only [hnotFound, if_true]
    refine Holds.seq (terminateItem_queue (ha.later hv) (Or.inr hsettled)) ?_
    intro _ x hi hx _
    have hax := (ha.later hv).later hx
    refine Holds.seq (release_queue (hax.releasable_of_settled hi.2 (hsettled.later hx))) ?_
    exact fun _ _ _ _ _ _ _ _ h => absurd rfl h
  · obtain ⟨rfl, hseen⟩ := hload
    have hav := ha.later hv
    refine Holds.seq (p.checkState_queue hav rfl hseen) ?_
    rintro (_ | err) x _ hx hstate
    · refine Holds.seq (p.checkLimits_queue hw (hav.later hx)) ?_
      rintro (_ | err) y _ hy hlimits
      · exact p.checkDependencies_queue hrole ((hav.later hx).later hy)
      · intro z hz _ _
        exact (hlimits (by simp)).later ((queueContext q tag).rely_later hz)
    · intro z hz _ _
      exact (hstate (by simp)).later ((queueContext q tag).rely_later hz)

theorem processItem_queue (hrole : tag.role = .worker p ⟨id, some msg⟩)
    (ha : Assigned tag id msg w) :
    Holds (queueContext q tag) (fun _ _ => True) (p.processItem ⟨id, some msg⟩) w := by
  unfold processItem
  refine Holds.seq (p.processMessage_queue hrole ha) ?_
  rintro (_ | err) v _ _ hresult
  · exact fun _ _ _ => trivial
  · exact release_queue (hresult (by simp))

theorem handle_queue {t : Copy} (hw : tag.processes) (ha : Assigned tag t.id msg w) :
    Holds (queueContext q tag) (fun _ _ => True) (p.handle t ⟨t.id, some msg⟩) w := by
  unfold handle
  refine Holds.seq (request_free (c := .runHandler _) fun _ => trivial) ?_
  rintro (err | payload) v _ hv _
  · have hav : Assigned tag ({ t with tries := t.tries + 1 } : Copy).id msg v := ha.later hv
    cases hterm : err.is .terminateTask with
    | true =>
      simp only [hterm]
      refine Holds.seq (p.c.handleTaskTerminated_queue hw hav) ?_
      intro _ x _ hx hresolved
      have hsettled := hresolved.settled rfl
      refine Holds.seq (terminateItem_queue (hav.later hx) (Or.inr hsettled)) ?_
      intro _ y _ hy _
      exact release_queue (hresolved.releasable.later hy)
    | false =>
      simp only [hterm]
      refine Holds.seq (p.c.handleTaskError_queue hw hav) ?_
      intro _ x _ hx hresolved
      refine Holds.seq (request_free (c := .nakItem _ _) fun _ => trivial) ?_
      intro _ y _ hy _
      exact release_queue (hresolved.releasable.later hy)
  · have hav : Assigned tag ({ t with tries := t.tries + 1 } : Copy).id msg v := ha.later hv
    refine Holds.seq (p.c.setTaskSuccess_queue hw hav payload) ?_
    intro _ x _ hx hresolved
    refine Holds.seq (ackItem_queue (hav.later hx) (hresolved.settled rfl)) ?_
    intro _ y _ hy _
    exact release_queue (hresolved.releasable.later hy)

end Processor

end AsyncJobs
