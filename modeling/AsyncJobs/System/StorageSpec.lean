import AsyncJobs.System.Context

/-!
# Specifications of the storage and client functions

One specification for each function, in the context of the thread that runs it:
every request it sends is permitted, and what it returns agrees with the log.
-/

namespace AsyncJobs

open Interaction

namespace Storage

variable {tag : Tag}

/-- What a save leaves its copy with: the known revision, and on success the
acknowledged save of exactly this record. -/
structure Saved (tag : Tag) (t : Copy) (result : Option Error × Copy) (w : World) : Prop where
  same : result.2.toTask = t.toTask
  tracks : result.2.Tracks (known tag.holder w.log)
  success : result.1 = none → ∃ old seq,
    Event.saved tag.holder tag.role.writer old ⟨seq, t.toTask⟩ true ∈ w.log ∧
      known tag.holder w.log = some ⟨seq, t.toTask⟩ ∧ result.2.storageOptions = some seq

theorem saveTaskState_holds {t : Copy} {w : World} (ht : t.Tracks (known tag.holder w.log))
    (hc : Change tag.role.writer tag.holder w.log (known tag.holder w.log) t.toTask)
    (notify : Bool) :
    Holds (contextOf tag) (Saved tag t) (saveTaskState t notify) w := by
  apply Holds.call
  intro v hv hi
  have hk := rely_known hv
  refine ⟨⟨hk ▸ ht, hk ▸ later_change ((contextOf tag).rely_later hv) hc⟩, ?_⟩
  rintro r u ⟨o, ho⟩
  rcases World.execSave_cases ho with ⟨rfl, rfl⟩ | ⟨⟨e, rfl⟩, hsame⟩
  · have hsaved : Event.saved tag.holder tag.role.writer (v.stored t.id)
        ⟨v.lastSeq + 1, t.toTask⟩ true ∈ (v.store tag.holder tag.role.writer t true).log :=
      List.mem_cons_self ..
    have hknown : known tag.holder (v.store tag.holder tag.role.writer t true).log =
        some ⟨v.lastSeq + 1, t.toTask⟩ := if_pos rfl
    have hdone : ∀ (err : Option Error) (x : World),
        (contextOf tag).later (v.store tag.holder tag.role.writer t true) x →
        known tag.holder x.log = some ⟨v.lastSeq + 1, t.toTask⟩ →
        Saved tag t (err, { t with storageOptions := some (v.lastSeq + 1) }) x := by
      intro err x hx hkx
      refine ⟨rfl, ⟨by rw [hkx]; rfl, ?_, ht.named⟩,
        fun _ => ⟨_, _, later_mem hx hsaved, hkx, rfl⟩⟩
      rw [hkx]
      rintro m ⟨⟩
      rfl
    cases notify with
    | false =>
      intro x hx _
      exact hdone none x ((contextOf tag).rely_later hx) ((rely_known hx).trans hknown)
    | true =>
      apply Holds.call
      intro x hx _
      refine ⟨trivial, ?_⟩
      rintro r y ⟨o', ho'⟩
      have hy : y = x := by cases o' <;> cases ho' <;> rfl
      subst hy
      intro z hz _
      exact hdone r z ((contextOf tag).rely_later ((contextOf tag).rely_trans hx hz))
        ((rely_known hz).trans ((rely_known hx).trans hknown))
  · intro x hx _
    refine ⟨rfl, ?_, ?_⟩
    · rw [rely_known hx, hsame, hk]
      exact ht
    · rintro ⟨⟩

theorem withMeta_holds {send : MsgRef → Job (Option Error)} {base : Option StoredTask} {w : World}
    (item : ProcessItem) (hk : known tag.holder w.log = base)
    (hsend : ∀ msg, Holds (contextOf tag) (fun _ v => known tag.holder v.log = base)
      (send msg) w) :
    Holds (contextOf tag) (fun _ v => known tag.holder v.log = base) (withMeta item send) w := by
  unfold withMeta
  split
  · intro v hv _
    exact (rely_known hv).trans hk
  · exact hsend _

theorem terminateItem_holds {base : Option StoredTask} {w : World} (item : ProcessItem)
    (hk : known tag.holder w.log = base) :
    Holds (contextOf tag) (fun _ v => known tag.holder v.log = base) (terminateItem item) w :=
  withMeta_holds item hk fun msg => request_silent (c := .termItem msg) rfl hk

theorem ackItem_holds {base : Option StoredTask} {w : World} (item : ProcessItem)
    (hk : known tag.holder w.log = base) :
    Holds (contextOf tag) (fun _ v => known tag.holder v.log = base) (ackItem item) w :=
  withMeta_holds item hk fun msg => request_silent (c := .ackItem msg) rfl hk

theorem nakBlockedItem_holds {base : Option StoredTask} {w : World} (item : ProcessItem)
    (hk : known tag.holder w.log = base) :
    Holds (contextOf tag) (fun _ v => known tag.holder v.log = base) (nakBlockedItem item) w :=
  withMeta_holds item hk fun msg => request_silent (c := .nakItem msg _) rfl hk

theorem nakItem_holds {base : Option StoredTask} {w : World} (retry : Int → Int)
    (item : ProcessItem) (hk : known tag.holder w.log = base) :
    Holds (contextOf tag) (fun _ v => known tag.holder v.log = base) (nakItem retry item) w :=
  withMeta_holds item hk fun msg => request_silent (c := .nakItem msg _) rfl hk

structure Found (tag : Tag) (use : ReadUse) (id : String) (m : StoredTask) (loadedAt : Int)
    (w : World) : Prop where
  loaded : Event.read tag.holder tag.role.writer use m loadedAt ∈ w.log
  before : loadedAt ≤ w.clock
  named : World.isWildcard id = true ∨ m.task.id = id
  proper : World.isWildcard m.task.id = false
  knows : use = .task → known tag.holder w.log = some m

theorem loadTaskByID_holds (use : ReadUse) (id : String) (w : World) :
    Holds (contextOf tag) (fun r v =>
      (∀ task, r = .ok task → ∃ m loadedAt, task = ⟨m.task, some m.seq⟩ ∧
        Found tag use id m loadedAt v) ∧
      (use ≠ .task → known tag.holder v.log = known tag.holder w.log))
      (loadTaskByID use id) w := by
  apply Holds.call
  intro v hv hi
  refine ⟨trivial, ?_⟩
  rintro r u ⟨o, ho⟩
  rcases World.execRead_cases ho with ⟨m, rfl, hm, rfl⟩ | ⟨⟨e, rfl⟩, rfl⟩
  · intro x hx _
    have hnoted : Event.read tag.holder tag.role.writer use m v.clock ∈
        (v.note (.read tag.holder tag.role.writer use m v.clock)).log := List.mem_cons_self ..
    have hread := later_mem ((contextOf tag).rely_later hx) hnoted
    have hclock := later_clock ((contextOf tag).rely_later hx)
    refine ⟨?_, ?_⟩
    · rintro task ⟨⟩
      refine ⟨m, v.clock, rfl, hread, hclock, World.readLast_names hm,
        hi.named m (hi.mem_written (World.readLast_mem hm)).2, ?_⟩
      rintro rfl
      exact (rely_known hx).trans (if_pos rfl)
    · intro huse
      refine (rely_known hx).trans (Eq.trans ?_ (rely_known hv))
      cases use with
      | task => exact absurd rfl huse
      | dependency => rfl
      | delete => rfl
  · cases e with
    | noMessage =>
      intro x hx _
      exact ⟨by rintro task ⟨⟩, fun _ => (rely_known hx).trans (rely_known hv)⟩
    | failed err =>
      intro x hx _
      exact ⟨by rintro task ⟨⟩, fun _ => (rely_known hx).trans (rely_known hv)⟩

theorem deleteTaskByID_holds (id : String) (w : World) :
    Holds (contextOf tag) (fun _ _ => True) (deleteTaskByID id) w := by
  apply Holds.call
  intro v hv hi
  refine ⟨trivial, ?_⟩
  rintro r u ⟨o, ho⟩
  rcases World.execRead_cases ho with ⟨m, rfl, hm, rfl⟩ | ⟨⟨e, rfl⟩, rfl⟩
  · refine request_holds fun x hx _ => ⟨⟨m, ?_, rfl⟩, fun _ _ _ _ _ _ _ => trivial⟩
    exact (rely_lookedUp hx).trans (if_pos rfl)
  · cases e with
    | noMessage => exact fun _ _ _ => trivial
    | failed e => exact fun _ _ _ => trivial

theorem queueError_holds (task : Copy) {w : World} {seq : Nat}
    (hq : ∀ log base t, QueueErrorChange tag.holder log base t →
      Change tag.role.writer tag.holder log base t)
    (hun : Event.unqueued tag.holder ∈ w.log)
    (hk : known tag.holder w.log = some ⟨seq, task.toTask⟩)
    (hs : task.storageOptions = some seq) (hnamed : World.isWildcard task.id = false)
    (hstate : task.toTask.enqueueable) (lastErr : String) (err : Error) :
    Holds (contextOf tag) (fun r v => r.2.Tracks (known tag.holder v.log))
      (queueError task lastErr err) w := by
  unfold queueError
  refine Holds.seq (saveTaskState_holds ?_ ?_ true) ?_
  · rw [hk]
    refine ⟨hs, ?_, hnamed⟩
    rintro m ⟨⟩
    rfl
  · exact hq _ _ _ ⟨hun, _, lastErr, hk, hstate, rfl⟩
  · rintro ⟨err', task'⟩ v _ _ hsaved
    cases err' with
    | none =>
      intro x hx _
      rw [rely_known hx]
      exact hsaved.tracks
    | some e =>
      intro x hx _
      rw [rely_known hx]
      exact hsaved.tracks

theorem enqueueTask_holds {task : Copy} {w : World} (queue : Queue)
    (hq : ∀ log base t, QueueErrorChange tag.holder log base t →
      Change tag.role.writer tag.holder log base t)
    (ht : task.Tracks (known tag.holder w.log))
    (hc : task.toTask.enqueueable → Change tag.role.writer tag.holder w.log
      (known tag.holder w.log) { task.toTask with queue := queue.name }) :
    Holds (contextOf tag) (fun r v => r.2.Tracks (known tag.holder v.log))
      (enqueueTask queue task) w := by
  unfold enqueueTask
  split_ifs with hstate
  · intro v hv _
    rw [rely_known hv]
    exact ht
  · have henq : task.toTask.enqueueable := by
      unfold Task.enqueueable
      tauto
    have hsame : ({ task with queue := queue.name } : Copy).Tracks (known tag.holder w.log) :=
      ⟨ht.revision, ht.sameID, ht.named⟩
    refine Holds.seq (saveTaskState_holds hsame (hc henq) true) ?_
    rintro ⟨err, saved⟩ v _ _ hsaved
    cases err with
    | some err =>
      intro x hx _
      rw [rely_known hx]
      exact hsaved.tracks
    | none =>
      obtain ⟨old, seq, -, hknown, hseq⟩ := hsaved.success rfl
      have hsame := hsaved.same
      simp only at hsame
      rw [← hsame] at hknown
      have hsenq : saved.toTask.enqueueable := by
        rw [hsame]
        exact henq
      apply Holds.call
      intro x hx _
      have hkx := (rely_known hx).trans hknown
      refine ⟨⟨_, hkx, rfl⟩, ?_⟩
      rintro r u ⟨o, ho⟩
      have hun := World.execPublishItem_cases ho
      have hku := (known_publishItem (World.exec_effect ho)).trans hkx
      have hnamed := hsaved.tracks.named
      rcases r with err | dup
      · exact queueError_holds saved hq (hun.resolve_left (by simp)) hku hseq hnamed hsenq _ _
      · cases dup with
        | true =>
          exact queueError_holds saved hq (hun.resolve_left (by simp)) hku hseq hnamed hsenq _ _
        | false =>
          intro y hy _
          rw [rely_known hy, hku]
          refine ⟨hseq, ?_, hnamed⟩
          rintro m ⟨⟩
          rfl

theorem retryTaskByID_holds (hw : tag.role.writer = .retrier) (queue : Queue) (id : String)
    (w : World) : Holds (contextOf tag) (fun _ _ => True) (retryTaskByID queue id) w := by
  unfold retryTaskByID
  refine Holds.seq (loadTaskByID_holds .task id w) ?_
  rintro (err | task) v _ _ ⟨hfound, -⟩
  · exact fun _ _ _ => trivial
  · obtain ⟨m, loadedAt, rfl, hm⟩ := hfound task rfl
    have hknown := hm.knows rfl
    refine Holds.seq (enqueueTask_holds queue ?_ ?_ ?_) fun _ _ _ _ _ _ _ _ => trivial
    · intro log base t hchange
      rw [hw]
      exact .queueError hchange
    · rw [hknown]
      refine ⟨rfl, ?_, hm.proper⟩
      rintro r ⟨⟩
      rfl
    · intro _
      have hread := hm.loaded
      rw [hw] at hread ⊢
      exact .retry loadedAt hread hknown queue.name

end Storage

theorem raise_holds {tag : Tag} {α : Type} {post : α → World → Prop} (message : String)
    (w : World) : Holds (contextOf tag) post (Client.raise message) w := by
  intro v _ _
  refine ⟨trivial, ?_⟩
  intro r
  exact (r : Empty).elim

namespace Client

variable {tag : Tag} (c : Client)

theorem loadTaskByID_holds (use : ReadUse) (id : String) (w : World) :
    Holds (contextOf tag) (fun r v =>
      (∀ task, r = .ok task → ∃ m loadedAt, task = ⟨m.task, some m.seq⟩ ∧
        Storage.Found tag use id m loadedAt v) ∧
      (use ≠ .task → known tag.holder v.log = known tag.holder w.log))
      (c.loadTaskByID use id) w := by
  unfold loadTaskByID
  refine Holds.seq (Storage.loadTaskByID_holds use id w) ?_
  rintro r v _ _ ⟨hfound, hknown⟩
  have hret : ∀ r' : Except Error Copy, (∀ task, r' = .ok task → r = .ok task) →
      Holds (contextOf tag) (fun r v =>
        (∀ task, r = .ok task → ∃ m loadedAt, task = ⟨m.task, some m.seq⟩ ∧
          Storage.Found tag use id m loadedAt v) ∧
        (use ≠ .task → known tag.holder v.log = known tag.holder w.log)) (.ret r') v := by
    intro r' hr' x hx _
    refine ⟨?_, fun huse => (rely_known hx).trans (hknown huse)⟩
    intro task htask
    obtain ⟨m, loadedAt, hcopy, hm⟩ := hfound task (hr' task htask)
    have hl := (contextOf tag).rely_later hx
    exact ⟨m, loadedAt, hcopy, later_mem hl hm.loaded, Int.le_trans hm.before (later_clock hl),
      hm.named, hm.proper, fun huse => (rely_known hx).trans (hm.knows huse)⟩
  cases r with
  | error err => exact hret _ (by rintro task ⟨⟩)
  | ok task =>
    simp only
    cases hverify : c.verifyTaskSignature task.toTask with
    | ok u => exact hret _ fun _ h => h
    | error fault =>
      cases fault with
      | error err => exact hret _ (by rintro task ⟨⟩)
      | panic message => exact raise_holds message v

theorem saveOrDiscardTaskIfDesired_holds {t : Copy} {w : World}
    (ht : t.Tracks (known tag.holder w.log))
    (hc : Change tag.role.writer tag.holder w.log (known tag.holder w.log) t.toTask) :
    Holds (contextOf tag) (fun _ _ => True) (c.saveOrDiscardTaskIfDesired t) w := by
  unfold saveOrDiscardTaskIfDesired
  split_ifs
  · exact Holds.mono (Storage.saveTaskState_holds ht hc true) fun _ _ _ _ => trivial
  · refine Holds.seq (request_silent (c := .publishEvent t.toTask) rfl rfl) fun _ v _ _ _ => ?_
    exact Holds.seq (Storage.deleteTaskByID_holds t.id v) fun _ _ _ _ _ _ _ _ => trivial

/-- Reading the clock and then saving or discarding a record stamped with it. -/
theorem stamped_holds {w : World} {stamp : Int → Copy}
    (ht : ∀ now, (stamp now).Tracks (known tag.holder w.log))
    (hc : ∀ now, Change tag.role.writer tag.holder w.log (known tag.holder w.log)
      (stamp now).toTask) :
    Holds (contextOf tag) (fun _ _ => True)
      (readClock >>= fun now => c.saveOrDiscardTaskIfDesired (stamp now)) w := by
  refine Holds.seq (readClock_holds w) ?_
  rintro now v _ hl ⟨-, -, hk⟩
  exact c.saveOrDiscardTaskIfDesired_holds (hk ▸ ht now) (hk ▸ later_change hl (hc now))

end Client

end AsyncJobs
