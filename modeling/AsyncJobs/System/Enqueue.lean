import AsyncJobs.System.Revisions

/-!
# Enqueueing under failures

`EnqueueTask` writes the task to one stream and its work item to another. When the item
cannot be published it saves the task once more, in state `queue_error`. Here each of the
calls it makes may fail without effect, and nobody else is at work in between.
-/

namespace AsyncJobs

open Interaction

def Outcome.unlessFailed : Option Error → Outcome
  | none => .ok
  | some err => .failed err

/-- Which of the calls of `EnqueueTask` fail: the save of the task, its state change event,
the publish of the item, and the save and the event that compensate for a failed item. -/
structure EnqueueFailures where
  save : Option Error := none
  event : Option Error := none
  item : Option Error := none
  undo : Option Error := none
  undoEvent : Option Error := none

def EnqueueFailures.outcomes (f : EnqueueFailures) : List Outcome :=
  [f.save, f.event, f.item, f.undo, f.undoEvent].map .unlessFailed

namespace World

variable (w : World) (n : Nat) (writer : Writer)

def hasItem (queue id : String) : Bool := w.items.any fun i => i.queue = queue ∧ i.id = id

theorem hasItem_putItem (queue id : String) (msgID : Option String) :
    (w.putItem n queue id msgID).hasItem queue id = true := by
  simp [hasItem, putItem]

/-- The store has the task of this copy in its state. -/
def HoldsState (t : Copy) : Prop := ∃ m, w.stored t.id = some m ∧ m.task.state = t.state

section Save

variable (t : Copy) (event : Option Error) (os : List Outcome)

/-- A saved copy carries the sequence of its record. -/
def savedCopy : Copy := { t with storageOptions := some (w.lastSeq + 1) }

theorem execute_save_refused (h : w.accepts t = false) :
    w.execute n writer (Storage.saveTaskState t true) (.ok :: os) =
      some ((some wrongLastSequence, t), os, w) := by
  have hexec : w.exec n writer (.publishTask t) .ok = some (.error wrongLastSequence, w) :=
    if_neg (Bool.eq_false_iff.mp h)
  exact execute_call hexec

theorem execute_save_accepted (h : w.accepts t = true) :
    w.execute n writer (Storage.saveTaskState t true) (.ok :: .unlessFailed event :: os) =
      some ((event, w.savedCopy t), os, w.store n writer t true) := by
  have hevent : (w.store n writer t true).exec n writer (.publishEvent t.toTask)
      (.unlessFailed event) = some (event, w.store n writer t true) := by
    cases event <;> rfl
  exact (execute_call (w.exec_publishTask_ok h)).trans (execute_call hevent)

/-- The copy a save returned is accepted by the store as the save left it. -/
theorem accepts_after_store {t' : Copy} (hid : t'.id = t.id)
    (hseq : t'.storageOptions = some (w.lastSeq + 1)) :
    (w.store n writer t true).accepts t' = true := by
  have hstored : (w.store n writer t true).stored t'.id = some ⟨w.lastSeq + 1, t.toTask⟩ := by
    rw [stored_store, if_pos hid.symm]
  simp [accepts, lastSubjectSeq, hstored, hseq]

theorem stored_store_self :
    (w.store n writer t true).stored t.id = some ⟨w.lastSeq + 1, t.toTask⟩ := by
  rw [stored_store, if_pos rfl]

end Save

end World

section Outcomes

/-- The states `EnqueueTask` takes a task in. -/
def Copy.Enqueueable (t : Copy) : Prop := t.state = .new ∨ t.state = .retry ∨ t.state = .blocked

variable (w : World) (n : Nat) (writer : Writer) (queue : Queue) (t : Copy) (f : EnqueueFailures)

def Copy.onQueue : Copy := { t with queue := queue.name }

/-- The message ID `EnqueueTask` publishes the item of a task with. -/
def itemMsgID : Option String := if t.state ≠ .retry then some t.id else none

/-- The save of the task works and the store has no newer revision. -/
def EnqueueFailures.Saves : Prop := f.save = none ∧ w.accepts t = true

/-- The item is refused by the server as a duplicate, or its publish fails. -/
def EnqueueFailures.ItemLost : Prop :=
  f.item ≠ none ∨ w.isDuplicate queue.name (itemMsgID t) = true

/-- What a call can come to, with the world it leaves. -/
inductive EnqueueResult : Option Error → World → Prop
  | unsaved (hsave : ¬ f.Saves w t) (err : Error) : EnqueueResult (some err) w
  | unannounced (hsave : f.Saves w t) (hevent : f.event ≠ none) (err : Error) :
      EnqueueResult (some err) (w.store n writer (t.onQueue queue) true)
  | queued (hsave : f.Saves w t) (hevent : f.event = none) (hitem : ¬ f.ItemLost w queue t) :
      EnqueueResult none
        ((w.store n writer (t.onQueue queue) true).putItem n queue.name t.id (itemMsgID t))
  | compensated (hsave : f.Saves w t) (hevent : f.event = none) (hitem : f.ItemLost w queue t)
      (hundo : f.undo = none) (lastErr : String) (err : Error) :
      EnqueueResult (some err)
        (((w.store n writer (t.onQueue queue) true).note (.unqueued n)).store n writer
          { w.savedCopy (t.onQueue queue) with state := .queueError, lastErr := lastErr } true)
  | uncompensated (hsave : f.Saves w t) (hevent : f.event = none) (hitem : f.ItemLost w queue t)
      (hundo : f.undo ≠ none) (err : Error) :
      EnqueueResult (some err) ((w.store n writer (t.onQueue queue) true).note (.unqueued n))

variable {w n writer queue t f}

variable (n writer) in
theorem EnqueueResult.of_queueError (hsave : f.Saves w t) (hevent : f.event = none)
    (hitem : f.ItemLost w queue t) (lastErr : String) (err : Error) :
    ∃ err' t' rest w', ((w.store n writer (t.onQueue queue) true).note (.unqueued n)).execute n
        writer (Storage.queueError (w.savedCopy (t.onQueue queue)) lastErr err)
        [.unlessFailed f.undo, .unlessFailed f.undoEvent] = some ((err', t'), rest, w') ∧
      EnqueueResult w n writer queue t f err' w' := by
  cases hundo : f.undo with
  | some undoErr =>
    exact ⟨_, _, _, _, rfl, .uncompensated hsave hevent hitem (by simp [hundo]) undoErr⟩
  | none =>
    have haccepts : ((w.store n writer (t.onQueue queue) true).note (.unqueued n)).accepts
        { w.savedCopy (t.onQueue queue) with state := .queueError, lastErr := lastErr } = true :=
      w.accepts_after_store n writer (t.onQueue queue) rfl rfl
    have hrun := World.execute_save_accepted _ n writer _ f.undoEvent [] haccepts
    rw [Storage.queueError, World.execute_bind, Outcome.unlessFailed, hrun]
    cases f.undoEvent with
    | none => exact ⟨_, _, _, _, rfl, .compensated hsave hevent hitem hundo lastErr err⟩
    | some eventErr =>
      exact ⟨_, _, _, _, rfl, .compensated hsave hevent hitem hundo lastErr eventErr⟩

/-- What is left of the call once the task was saved and announced. -/
def publishSaved (queue : Queue) (t : Copy) : Job (Option Error × Copy) :=
  .call (.publishItem queue.name t.id (itemMsgID t)) fun
    | .error err => Storage.queueError t err.text
        (if err = Sentinel.natsNoResponders.error then
          Sentinel.queueNotFound.error.wrap (": " ++ err.text) else err)
    | .ok true => Storage.queueError t Sentinel.duplicateItem.text Sentinel.duplicateItem.error
    | .ok false => .ret (none, t)

theorem enqueueTask_eq (h : t.Enqueueable) :
    Storage.enqueueTask queue t = (Storage.saveTaskState (t.onQueue queue) true >>= fun
        | (some err, t) => .ret (some err, t)
        | (none, t) => publishSaved queue t) := by
  have hstate : ¬ (t.state ≠ .new ∧ t.state ≠ .retry ∧ t.state ≠ .blocked) := by
    intro ⟨hnew, hretry, hblocked⟩
    obtain h | h | h := h
    · exact hnew h
    · exact hretry h
    · exact hblocked h
  rw [Storage.enqueueTask, if_neg hstate]
  apply congrArg
  funext r
  rcases r with ⟨- | err, t'⟩
  · apply congrArg (Prog.call _)
    funext reply
    rcases reply with err | (_ | _) <;> rfl
  · rfl

theorem EnqueueResult.of_publish (hsave : f.Saves w t) (hevent : f.event = none) :
    ∃ err t' rest w', (w.store n writer (t.onQueue queue) true).execute n writer
        (publishSaved queue (w.savedCopy (t.onQueue queue)))
        [.unlessFailed f.item, .unlessFailed f.undo, .unlessFailed f.undoEvent] =
          some ((err, t'), rest, w') ∧
      EnqueueResult w n writer queue t f err w' := by
  cases hitem : f.item with
  | some err =>
    have hlost : f.ItemLost w queue t := .inl (by simp [hitem])
    exact EnqueueResult.of_queueError n writer hsave hevent hlost err.text _
  | none =>
    cases hdup : w.isDuplicate queue.name (itemMsgID t) with
    | true =>
      have hexec : (w.store n writer (t.onQueue queue) true).exec n writer
          (.publishItem queue.name t.id (itemMsgID t)) .ok = some (.ok true,
            (w.store n writer (t.onQueue queue) true).note (.unqueued n)) := if_pos hdup
      obtain ⟨err, t', rest, w', hrun, hresult⟩ := EnqueueResult.of_queueError n writer hsave
        hevent (.inr hdup) Sentinel.duplicateItem.text Sentinel.duplicateItem.error
      exact ⟨err, t', rest, w', (World.execute_call hexec).trans hrun, hresult⟩
    | false =>
      have hexec : (w.store n writer (t.onQueue queue) true).exec n writer
          (.publishItem queue.name t.id (itemMsgID t)) .ok = some (.ok false,
            (w.store n writer (t.onQueue queue) true).putItem n queue.name t.id (itemMsgID t)) :=
        if_neg (Bool.eq_false_iff.mp hdup)
      have hnew : ¬ f.ItemLost w queue t := by simp [EnqueueFailures.ItemLost, hitem, hdup]
      exact ⟨_, _, _, _, World.execute_call hexec, .queued hsave hevent hnew⟩

variable (w n writer queue f) in
theorem enqueueTask_result (h : t.Enqueueable) :
    ∃ err t' rest w', w.execute n writer (Storage.enqueueTask queue t) f.outcomes =
        some ((err, t'), rest, w') ∧
      EnqueueResult w n writer queue t f err w' := by
  have hunsaved : ∀ err os, w.execute n writer (Storage.saveTaskState (t.onQueue queue) true)
        f.outcomes = some ((some err, t.onQueue queue), os, w) →
      w.execute n writer (Storage.enqueueTask queue t) f.outcomes =
        some ((some err, t.onQueue queue), os, w) := by
    intro err os hrun
    rw [enqueueTask_eq h, World.execute_bind, hrun]
    rfl
  cases hsave : f.save with
  | some err =>
    have hrun := hunsaved err _ (by rw [EnqueueFailures.outcomes, hsave]; rfl)
    exact ⟨_, _, _, _, hrun, .unsaved (by simp [EnqueueFailures.Saves, hsave]) err⟩
  | none =>
    cases haccepts : w.accepts t with
    | false =>
      have hrun := hunsaved World.wrongLastSequence _ (by
        rw [EnqueueFailures.outcomes, hsave]
        exact w.execute_save_refused n writer (t.onQueue queue) _ haccepts)
      exact ⟨_, _, _, _, hrun, .unsaved (by simp [EnqueueFailures.Saves, haccepts]) _⟩
    | true =>
      have hsaved := w.execute_save_accepted n writer (t.onQueue queue) f.event
        [.unlessFailed f.item, .unlessFailed f.undo, .unlessFailed f.undoEvent] haccepts
      rw [enqueueTask_eq h, World.execute_bind, EnqueueFailures.outcomes, hsave]
      simp only [List.map_cons, List.map_nil, Outcome.unlessFailed] at hsaved ⊢
      rw [hsaved]
      cases hevent : f.event with
      | some err => exact ⟨_, _, _, _, rfl, .unannounced ⟨hsave, haccepts⟩ (by simp [hevent]) err⟩
      | none => exact EnqueueResult.of_publish ⟨hsave, haccepts⟩ hevent

end Outcomes

section Law

variable (w w' : World) (queue : Queue) (t : Copy) (err : Option Error) (f : EnqueueFailures)

/-- What the call promises: nil says that the task is stored as requested and has an item,
and an error that the store is as it was or that the task is marked and has no item. -/
structure EnqueueLaw : Prop where
  success : err = none ↔ w'.HoldsState t ∧ w'.hasItem queue.name t.id = true
  record : err = none → w'.stored t.id = some ⟨w.lastSeq + 1, (t.onQueue queue).toTask⟩
  failure : err ≠ none → w'.tasks = w.tasks ∨
    (∃ m, w'.stored t.id = some m ∧ m.task.state = .queueError) ∧
      w'.hasItem queue.name t.id = false

/-- When it is kept. A refused save must not find the task stored in that state with an item;
after the save the event has to be published, and then the item accepted as new, or the
compensating save must work with no older item of the task in the queue. -/
def EnqueueFailures.Recoverable : Prop :=
  (¬ f.Saves w t → ¬ (w.HoldsState t ∧ w.hasItem queue.name t.id = true)) ∧
  (f.Saves w t → f.event = none ∧
    (¬ f.ItemLost w queue t ∨ f.undo = none ∧ w.hasItem queue.name t.id = false))

variable {w w' queue t err f} {n : Nat} {writer : Writer}

theorem EnqueueLaw.of_marked {e : Error} {m : StoredTask} (hstored : w'.stored t.id = some m)
    (hstate : m.task.state = .queueError) (hitem : w'.hasItem queue.name t.id = false) :
    EnqueueLaw w w' queue t (some e) where
  success := iff_of_false nofun fun h => Bool.eq_false_iff.mp hitem h.2
  record := nofun
  failure _ := .inr ⟨⟨m, hstored, hstate⟩, hitem⟩

theorem EnqueueResult.law (h : EnqueueResult w n writer queue t f err w')
    (hf : f.Recoverable w queue t) : EnqueueLaw w w' queue t err := by
  cases h with
  | unsaved hsave e =>
    exact ⟨iff_of_false nofun (hf.1 hsave), nofun, fun _ => .inl rfl⟩
  | unannounced hsave hevent e => exact absurd (hf.2 hsave).1 hevent
  | queued hsave hevent hitem =>
    have hstored := w.stored_store_self n writer (t.onQueue queue)
    have hqueued := (w.store n writer (t.onQueue queue) true).hasItem_putItem n queue.name t.id
      (itemMsgID t)
    exact ⟨iff_of_true rfl ⟨⟨_, hstored, rfl⟩, hqueued⟩, fun _ => hstored, fun h => absurd rfl h⟩
  | compensated hsave hevent hitem hundo lastErr e =>
    obtain ⟨-, hnot | ⟨-, hnone⟩⟩ := hf.2 hsave
    · exact absurd hitem hnot
    · exact .of_marked (World.stored_store_self _ n writer _) rfl hnone
  | uncompensated hsave hevent hitem hundo e =>
    obtain ⟨-, hnot | ⟨hnone, -⟩⟩ := hf.2 hsave
    · exact absurd hitem hnot
    · exact absurd hnone hundo

theorem World.tasks_ne (hseq : ∀ m ∈ w.tasks, m.seq ≤ w.lastSeq) {m : StoredTask}
    (hm : m ∈ w'.tasks) (hnew : w.lastSeq < m.seq) : w'.tasks ≠ w.tasks := by
  intro hsame
  have hle := hseq m (hsame ▸ hm)
  omega

/-- After the save alone the store is neither as it was nor is the task marked. -/
theorem EnqueueLaw.not_saved (ht : t.Enqueueable) (hseq : ∀ m ∈ w.tasks, m.seq ≤ w.lastSeq)
    {e : Error} {others : List StoredTask}
    (hw : w'.tasks = ⟨w.lastSeq + 1, (t.onQueue queue).toTask⟩ :: others) :
    ¬ EnqueueLaw w w' queue t (some e) := by
  intro h
  obtain hsame | ⟨⟨m, hm, hmarked⟩, -⟩ := h.failure nofun
  · have hhead : ⟨w.lastSeq + 1, (t.onQueue queue).toTask⟩ ∈ w'.tasks :=
      hw ▸ List.mem_cons_self ..
    exact World.tasks_ne hseq hhead (Nat.lt_succ_self _) hsame
  · rw [World.stored, hw, List.find?_cons_of_pos (by simp [Copy.onQueue])] at hm
    cases hm
    obtain h | h | h := ht
    · cases hmarked.symm.trans h
    · cases hmarked.symm.trans h
    · cases hmarked.symm.trans h

theorem EnqueueResult.recoverable (ht : t.Enqueueable)
    (h : EnqueueResult w n writer queue t f err w') (hseq : ∀ m ∈ w.tasks, m.seq ≤ w.lastSeq)
    (hlaw : EnqueueLaw w w' queue t err) : f.Recoverable w queue t := by
  cases h with
  | unsaved hsave e =>
    refine ⟨fun _ hstored => ?_, fun hsaved => absurd hsaved hsave⟩
    exact nomatch hlaw.success.mpr hstored
  | unannounced hsave hevent e => exact absurd hlaw (EnqueueLaw.not_saved ht hseq rfl)
  | queued hsave hevent hitem =>
    exact ⟨fun hnot => absurd hsave hnot, fun _ => ⟨hevent, .inl hitem⟩⟩
  | compensated hsave hevent hitem hundo lastErr e =>
    obtain hsame | ⟨-, hnone⟩ := hlaw.failure nofun
    · have hlt : w.lastSeq < w.lastSeq + 1 + 1 := by omega
      exact absurd hsame (World.tasks_ne hseq (List.mem_cons_self ..) hlt)
    · exact ⟨fun hnot => absurd hsave hnot, fun _ => ⟨hevent, .inr ⟨hundo, hnone⟩⟩⟩
  | uncompensated hsave hevent hitem hundo e => exact absurd hlaw (EnqueueLaw.not_saved ht hseq rfl)

end Law

/-- For every store, every copy in a state that can be enqueued and every pattern of failures,
`EnqueueTask` returns, and it keeps its promise if the failures are recoverable and, where
the sequences of the store are those it gave out, only then. -/
theorem enqueueTask_keeps_promise (w : World) (n : Nat) (writer : Writer) (queue : Queue)
    (t : Copy) (f : EnqueueFailures) (ht : t.Enqueueable) :
    ∃ err t' rest w', w.execute n writer (Storage.enqueueTask queue t) f.outcomes =
        some ((err, t'), rest, w') ∧
      (f.Recoverable w queue t → EnqueueLaw w w' queue t err) ∧
      ((∀ m ∈ w.tasks, m.seq ≤ w.lastSeq) → EnqueueLaw w w' queue t err →
        f.Recoverable w queue t) := by
  obtain ⟨err, t', rest, w', hrun, hresult⟩ := enqueueTask_result w n writer queue f ht
  exact ⟨err, t', rest, w', hrun, hresult.law, hresult.recoverable ht⟩

/-- The item cannot be published, and the compensation works. -/
theorem enqueueTask_keeps_promise_lost_item :
    let f : EnqueueFailures := { item := some (.plain "timeout") }
    (⟨sampleTask, none⟩ : Copy).Enqueueable ∧
    f.Recoverable (World.init 0) sampleQueue ⟨sampleTask, none⟩ ∧
    ∃ err t' rest w', (World.init 0).execute 0 .enqueuer
        (Storage.enqueueTask sampleQueue ⟨sampleTask, none⟩) f.outcomes =
          some ((err, t'), rest, w') ∧
      EnqueueLaw (World.init 0) w' sampleQueue ⟨sampleTask, none⟩ err := by
  intro f
  have ht : (⟨sampleTask, none⟩ : Copy).Enqueueable := .inl rfl
  have hf : f.Recoverable (World.init 0) sampleQueue ⟨sampleTask, none⟩ := by
    refine ⟨fun _ hheld => ?_, fun _ => ⟨rfl, .inr ⟨rfl, rfl⟩⟩⟩
    exact Bool.false_ne_true hheld.2
  obtain ⟨err, t', rest, w', hrun, hlaw, -⟩ :=
    enqueueTask_keeps_promise (World.init 0) 0 .enqueuer sampleQueue ⟨sampleTask, none⟩ f ht
  exact ⟨ht, hf, err, t', rest, w', hrun, hlaw hf⟩

/-- The task is saved and only its event cannot be published. The call fails; the store, which
was empty, has the task as new, and the queue has no item for it. -/
theorem failed_event_strands_task :
    ∃ t' rest w', (World.init 0).execute 0 .enqueuer
        (Storage.enqueueTask sampleQueue ⟨sampleTask, none⟩)
        ({ event := some (.plain "nats: connection closed") } : EnqueueFailures).outcomes =
          some ((some (.plain "nats: connection closed"), t'), rest, w') ∧
      (World.init 0).tasks = [] ∧
      w'.stored "T1" = some ⟨1, { sampleTask with queue := "EMAIL" }⟩ ∧
      w'.hasItem "EMAIL" "T1" = false :=
  ⟨_, _, _, rfl, rfl, rfl, rfl⟩

end AsyncJobs
