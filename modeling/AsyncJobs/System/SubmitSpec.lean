import AsyncJobs.System.QueueSpec

/-!
# API calls on a healthy queue

`EnqueueTask` and `RetryTaskByID` store a task and then publish its work item. In
between the task is pending; when the call returns it has published.
-/

namespace AsyncJobs

open Interaction

/-- The call has stored, published and returned nothing yet. -/
structure Untouched (n : Nat) (log : List Event) : Prop where
  unsaved : ∀ id, lastSubmit id log ≠ some n
  unpublished : ∀ queue id seq, Event.published n queue id seq ∉ log
  running : ∀ err, Event.returned n err ∉ log

/-- The call has published the item of the task it stored. -/
def Closed (n : Nat) (log : List Event) : Prop :=
  ∀ id, lastSubmit id log = some n → ∃ queue id' seq, Event.published n queue id' seq ∈ log

section Log

variable {n : Nat} {log es : List Event} {id : String}

theorem lastSubmit_append (h : ∀ e ∈ es, e.subject ≠ some n)
    (hlast : lastSubmit id (es ++ log) = some n) : lastSubmit id log = some n := by
  induction es with
  | nil => exact hlast
  | cons e es ih =>
    refine ih (fun e he => h e (List.mem_cons_of_mem _ he)) ?_
    rw [List.cons_append] at hlast
    rwa [lastSubmit_cons] at hlast
    rintro k writer old new acked rfl hs hid
    have hk : lastSubmit id (.saved k writer old new acked :: (es ++ log)) = some k :=
      if_pos ⟨hs, hid⟩
    refine h _ (List.mem_cons_self ..) ?_
    exact hk.symm.trans hlast

theorem Untouched.fresh (h : ∀ e ∈ log, e.subject ≠ some n) : Untouched n log where
  unsaved id hlast := by
    rw [← List.append_nil log] at hlast
    cases lastSubmit_append h hlast
  unpublished queue id seq hmem := h _ hmem rfl
  running err hmem := h _ hmem rfl

theorem Untouched.append (hlog : Untouched n log) (h : ∀ e ∈ es, e.subject ≠ some n) :
    Untouched n (es ++ log) where
  unsaved id hlast := hlog.unsaved id (lastSubmit_append h hlast)
  unpublished queue id seq hmem := by
    rcases List.mem_append.mp hmem with hmem | hmem
    · exact h _ hmem rfl
    · exact hlog.unpublished queue id seq hmem
  running err hmem := by
    rcases List.mem_append.mp hmem with hmem | hmem
    · exact h _ hmem rfl
    · exact hlog.running err hmem

theorem Untouched.cons {e : Event} (h : Untouched n log) (he : e.steady = true)
    (hreturned : ∀ err, e ≠ .returned n err) : Untouched n (e :: log) where
  unsaved id := by
    rw [lastSubmit_cons fun _ _ _ _ _ heq => absurd heq (Event.steady.not_saved he)]
    exact h.unsaved id
  unpublished queue id seq hmem := by
    rcases List.mem_cons.mp hmem with heq | hmem
    · exact Event.steady.not_published he heq.symm
    · exact h.unpublished queue id seq hmem
  running err hmem := by
    rcases List.mem_cons.mp hmem with heq | hmem
    · exact hreturned err heq.symm
    · exact h.running err hmem

theorem Untouched.closed (h : Untouched n log) : Closed n log :=
  fun id hlast => absurd hlast (h.unsaved id)

end Log

section Calls

variable {q : Queue} {tag : Tag} {w v : World}

theorem Untouched.rely (h : Untouched tag.holder w.log) (hr : (queueContext q tag).rely w v) :
    Untouched tag.holder v.log := by
  obtain ⟨⟨es, hext, hs⟩, -, -⟩ := hr
  rw [hext.log]
  exact h.append hs

theorem Closed.rely (h : Closed tag.holder w.log) (hr : (queueContext q tag).rely w v) :
    Closed tag.holder v.log := by
  obtain ⟨⟨es, hext, hs⟩, -, -⟩ := hr
  rw [hext.log]
  intro id hlast
  obtain ⟨queue, id', seq, hmem⟩ := h id (lastSubmit_append hs hlast)
  exact ⟨queue, id', seq, List.mem_append_right es hmem⟩

theorem done_queue (h : Closed tag.holder w.log) (t : Option Copy) (err : Option Error) :
    Holds (queueContext q tag) (fun _ _ => True) (request (.done t err)) w :=
  request_queue fun _ hv _ _ => ⟨h.rely hv, fun _ _ _ _ _ _ _ => trivial⟩

theorem HealthyEffect.queued {queue id : String} {msgID : Option String} {r : Except Error Bool}
    (h : HealthyEffect q tag w (.publishItem queue id msgID) r v) :
    r = .ok false ∧ ∃ queue' id' seq, Event.published tag.holder queue' id' seq ∈ v.log := by
  cases h with
  | queue => exact ⟨rfl, _, _, _, List.mem_cons_self ..⟩

namespace Storage

theorem loadTaskByID_untouched (h : Untouched tag.holder w.log) (use : ReadUse) (id : String) :
    Holds (queueContext q tag) (fun _ v => Untouched tag.holder v.log) (loadTaskByID use id) w := by
  apply Holds.call
  intro v hv _
  refine ⟨trivial, fun r u hu => ?_⟩
  have hvlog := h.rely hv
  obtain ⟨heffect, -, -⟩ := queueContext_effect hu
  cases heffect with
  | absent => exact fun x hx _ => hvlog.rely hx
  | @read _ _ m found kept =>
    intro x hx _
    refine Untouched.rely (w := v.note _) ?_ hx
    exact hvlog.cons rfl (by rintro _ ⟨⟩)

theorem saveTaskState_submit {t : Copy} (h : Untouched tag.holder w.log) :
    Holds (queueContext q tag) (fun r v => r.1 = none ∧ r.2.toTask = t.toTask ∧
      ∀ id, lastSubmit id v.log = some tag.holder → id = t.id) (saveTaskState t true) w := by
  apply Holds.call
  intro v hv _
  have hvlog := h.rely hv
  refine ⟨fun _ => ⟨hvlog.unpublished, hvlog.running⟩, fun r u hu => ?_⟩
  obtain ⟨heffect, -, -⟩ := queueContext_effect hu
  cases heffect with
  | save accepted kept =>
    have honly : ∀ id, lastSubmit id (v.store tag.holder tag.role.writer t true).log =
        some tag.holder → id = t.id := by
      intro id hlast
      by_contra hne
      rw [World.store, lastSubmit_cons] at hlast
      · exact hvlog.unsaved id hlast
      · rintro n writer old new acked heq - hid
        cases heq
        exact hne hid.symm
    apply Holds.call
    intro x hx _
    refine ⟨trivial, fun r y hy => ?_⟩
    obtain ⟨hevent, -, -⟩ := queueContext_effect hy
    cases hevent with
    | event =>
      intro z hz _
      refine ⟨rfl, rfl, fun id hlast => ?_⟩
      obtain ⟨⟨es, hext, hs⟩, -, -⟩ := (queueContext q tag).rely_trans hx hz
      rw [hext.log] at hlast
      exact honly id (lastSubmit_append hs hlast)

theorem enqueueTask_queue {task : Copy} (h : Untouched tag.holder w.log) (queue : Queue) :
    Holds (queueContext q tag) (fun _ v => Closed tag.holder v.log) (enqueueTask queue task) w := by
  unfold enqueueTask
  split_ifs
  · exact fun v hv _ => (h.rely hv).closed
  · refine Holds.seq (saveTaskState_submit h) ?_
    rintro ⟨err, saved⟩ v _ _ ⟨rfl, hsame, honly⟩
    simp only
    apply Holds.call
    intro x hx _
    have hid : saved.id = task.id := by simpa using congrArg Task.id hsame
    refine ⟨?_, fun r u hu => ?_⟩
    · intro id hlast
      obtain ⟨⟨es, hext, hs⟩, -, -⟩ := hx
      rw [hext.log] at hlast
      exact (honly id (lastSubmit_append hs hlast)).trans hid.symm
    · obtain ⟨rfl, queue, id, seq, hmem⟩ := (queueContext_effect hu).1.queued
      intro y hy _
      refine Closed.rely ?_ hy
      exact fun _ _ => ⟨queue, id, seq, hmem⟩

theorem retryTaskByID_queue (h : Untouched tag.holder w.log) (queue : Queue) (id : String) :
    Holds (queueContext q tag) (fun _ v => Closed tag.holder v.log) (retryTaskByID queue id) w := by
  unfold retryTaskByID
  refine Holds.seq (loadTaskByID_untouched h .task id) ?_
  rintro (err | task) v _ _ hv
  · exact fun x hx _ => (hv.rely hx).closed
  · refine Holds.seq (enqueueTask_queue hv queue) ?_
    rintro ⟨err, task⟩ x _ _ hx
    exact fun y hy _ => hx.rely hy

end Storage

namespace Client

variable (c : Client)

theorem loadTaskByID_untouched (h : Untouched tag.holder w.log) (use : ReadUse) (id : String) :
    Holds (queueContext q tag) (fun _ v => Untouched tag.holder v.log)
      (c.loadTaskByID use id) w := by
  unfold loadTaskByID
  refine Holds.seq (Storage.loadTaskByID_untouched h use id) ?_
  rintro (err | task) v _ _ hv
  · exact fun x hx _ => hv.rely hx
  · simp only
    split
    · exact fun x hx _ => hv.rely hx
    · exact raise_queue _ v
    · exact fun x hx _ => hv.rely hx

theorem enqueueTask_queue {task : Copy} (h : Untouched tag.holder w.log) :
    Holds (queueContext q tag) (fun _ v => Closed tag.holder v.log) (c.enqueueTask task) w := by
  unfold enqueueTask
  simp only
  split
  · exact fun v hv _ => (h.rely hv).closed
  · exact raise_queue _ w
  · exact Storage.enqueueTask_queue h _

end Client

def Role.Equipped (role : Role) (n : Nat) (w : World) : Prop :=
  match role with
  | .worker _ item => ∃ msg, item.storageMeta = some msg ∧ Assigned ⟨n, role⟩ item.jobID msg w
  | .handler _ t item => ∃ msg, item = ⟨t.id, some msg⟩ ∧ Assigned ⟨n, role⟩ t.id msg w
  | .delete _ => False
  | _ => Untouched n w.log

theorem prog_queue {role : Role} {n : Nat} (h : role.Equipped n w) :
    Holds (queueContext q ⟨n, role⟩) (fun _ _ => True) role.prog w := by
  cases role with
  | worker p item =>
    obtain ⟨id, storageMeta⟩ := item
    obtain ⟨msg, rfl, ha⟩ := h
    exact p.processItem_queue rfl ha
  | handler p t item =>
    obtain ⟨msg, rfl, ha⟩ := h
    exact p.handle_queue rfl ha
  | enqueue c t =>
    have hstart : Untouched (Tag.mk n (.enqueue c t)).holder w.log := h
    refine Holds.seq (c.enqueueTask_queue hstart) ?_
    rintro ⟨err, task⟩ v _ _ hv
    exact done_queue hv _ err
  | enqueueInto queue t =>
    have hstart : Untouched (Tag.mk n (.enqueueInto queue t)).holder w.log := h
    refine Holds.seq (Storage.enqueueTask_queue hstart queue) ?_
    rintro ⟨err, task⟩ v _ _ hv
    exact done_queue hv _ err
  | retry c id =>
    have hstart : Untouched (Tag.mk n (.retry c id)).holder w.log := h
    refine Holds.seq (Storage.retryTaskByID_queue hstart c.opts.queue id) ?_
    intro err v _ _ hv
    exact done_queue hv none err
  | load c id =>
    have hstart : Untouched (Tag.mk n (.load c id)).holder w.log := h
    refine Holds.seq (c.loadTaskByID_untouched hstart .task id) ?_
    rintro (err | task) v _ _ hv
    · exact done_queue hv.closed none _
    · exact done_queue hv.closed _ none
  | delete id => exact h.elim

end Calls

end AsyncJobs
