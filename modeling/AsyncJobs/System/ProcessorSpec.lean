import AsyncJobs.System.StorageSpec

/-!
# Specifications of the processor

A worker carries the revision it loaded through the checks of `processMessage`;
each check that passes adds what the next step needs, up to the activation and
the start of the handler, which takes over the copy and what it knows.
-/

namespace AsyncJobs

open Interaction

/-- A copy that carries the revision `m` and differs from it in the collected
dependency results only. -/
structure Copy.Carries (t : Copy) (m : StoredTask) : Prop where
  revision : t.storageOptions = some m.seq
  record : ∃ results, t.toTask = { m.task with dependencyResults := results }
  proper : World.isWildcard m.task.id = false

theorem Copy.Carries.of_load {m : StoredTask} (hm : World.isWildcard m.task.id = false) :
    (⟨m.task, some m.seq⟩ : Copy).Carries m :=
  ⟨rfl, ⟨m.task.dependencyResults, rfl⟩, hm⟩

theorem Copy.Carries.collect {t : Copy} {m : StoredTask} (h : t.Carries m)
    (results : List (String × Option TaskResult)) :
    ({ t with dependencyResults := results } : Copy).Carries m := by
  obtain ⟨before, hrecord⟩ := h.record
  refine ⟨h.revision, ⟨results, ?_⟩, h.proper⟩
  show { t.toTask with dependencyResults := results } = _
  rw [hrecord]

theorem Copy.Carries.tracks {t : Copy} {m : StoredTask} (h : t.Carries m) :
    t.Tracks (some m) := by
  obtain ⟨results, hrecord⟩ := h.record
  refine ⟨h.revision, ?_, ?_⟩
  · rintro r ⟨⟩
    rw [hrecord]
  · rw [hrecord]
    exact h.proper

namespace Processor

variable {tag : Tag} (p : Processor)

/-- What the loop of `loadDependencies` has found out when it returns. -/
structure Collected (tag : Tag) (m : StoredTask) (base : Option StoredTask) (ready : Bool)
    (parents : List String) (r : Bool × Bool × Option Error × Copy) (w : World) : Prop where
  carries : r.2.2.2.Carries m
  knows : known tag.holder w.log = base
  done : r.1 = true → ready = true ∧ ∀ d ∈ parents, DependencyDone w.log d

theorem loadDependencies_holds {m : StoredTask} {base : Option StoredTask} (parents : List String) :
    ∀ {task : Copy} {ready : Bool} {w : World}, task.Carries m →
      known tag.holder w.log = base →
      Holds (contextOf tag) (Collected tag m base ready parents)
        (p.loadDependencies task ready parents) w := by
  induction parents with
  | nil =>
    intro task ready w htask hk v hv _
    exact ⟨htask, (rely_known hv).trans hk, fun h => ⟨h, by simp⟩⟩
  | cons parent parents ih =>
    intro task ready w htask hk
    unfold loadDependencies
    refine Holds.seq (p.c.loadTaskByID_holds .dependency parent w) ?_
    rintro r v hi _ ⟨hfound, hknown⟩
    have hkv := (hknown (by simp)).trans hk
    have hstop : ∀ (failed : Bool) (err : Option Error), Holds (contextOf tag)
        (Collected tag m base ready (parent :: parents)) (.ret (false, failed, err, task)) v := by
      intro failed err x hx _
      exact ⟨htask, (rely_known hx).trans hkv, by simp⟩
    cases r with
    | error err =>
      simp only
      split_ifs
      · exact hstop _ _
      · exact hstop _ _
    | ok pt =>
      obtain ⟨r, loadedAt, rfl, hr⟩ := hfound pt rfl
      have hnext : ∀ {task : Copy} {ready' : Bool}, task.Carries m →
          (ready' = true → ready = true ∧ r.task.state = .completed) →
          Holds (contextOf tag) (Collected tag m base ready (parent :: parents))
            (p.loadDependencies task ready' parents) v := by
        intro task ready' htask hready
        refine Holds.mono (Holds.later (ih htask hkv)) ?_
        rintro result x _ ⟨hcollected, hl⟩
        refine ⟨hcollected.carries, hcollected.knows, fun h => ?_⟩
        obtain ⟨h', hrest⟩ := hcollected.done h
        obtain ⟨hinit, hstate⟩ := hready h'
        refine ⟨hinit, fun d hd => ?_⟩
        rcases List.mem_cons.mp hd with rfl | hd
        · exact later_done hl ⟨r, hr.named, hi.valid.read_written hr.loaded, hstate⟩
        · exact hrest d hd
      simp only
      split
      · rename_i hstate
        refine hnext ?_ fun h => ⟨h, hstate⟩
        split_ifs
        · exact htask.collect _
        · exact htask
      · exact hstop _ _
      · exact hstop _ _
      · exact hstop _ _
      · exact hstop _ _
      · exact hnext htask (by simp)

theorem dependenciesFailed_is (err : Option Error) :
    (dependenciesFailed err).is .taskDependenciesFailed = true := by
  simp [dependenciesFailed]
  decide

/-- If the task may run, the copy still carries its revision and the dependencies are done. -/
def Unblocked (tag : Tag) (m : StoredTask) (r : Bool × Option Error × Copy) (w : World) : Prop :=
  r.1 = true → r.2.2.Carries m ∧ known tag.holder w.log = some m ∧
    ∀ d ∈ m.task.dependencies, DependencyDone w.log d

section Dependencies

variable {m : StoredTask} {task : Copy} {w : World}

/-- A task whose dependencies failed is stored as unreachable and does not run. -/
theorem failDependencies_holds (hw : tag.role.writer = .worker) (htask : task.Carries m)
    (hk : known tag.holder w.log = some m) (he : Eligible p tag.holder w.log m)
    (hb : m.task.state = .blocked) (hd : m.task.hasDependencies = true) (item : ProcessItem)
    (err : Option Error) (result : Copy → Bool × Option Error × Copy)
    (hresult : ∀ t, (result t).1 = false) :
    Holds (contextOf tag) (Unblocked tag m)
      (Storage.terminateItem item >>= fun _ =>
        p.c.handleTaskError task (dependenciesFailed err) >>= fun r => pure (result r.2)) w := by
  refine Holds.seq (Storage.terminateItem_holds item hk) ?_
  intro _ v _ hl hkv
  refine Holds.seq (p.c.stamped_holds ?_ ?_) ?_
  · intro now
    rw [hkv]
    exact ⟨htask.tracks.revision, htask.tracks.sameID, htask.tracks.named⟩
  · intro now
    obtain ⟨results, hrecord⟩ := htask.record
    rw [hw, hkv]
    refine ⟨p, m, rfl, ?_⟩
    have hstate : p.c.errorState task.toTask (dependenciesFailed err) = .unreachable :=
      if_pos (dependenciesFailed_is err)
    have hchange := WorkerChange.unreachable (later_eligible hl he) hb hd results
      (dependenciesFailed err).text now
    simp only [hstate]
    rw [hrecord]
    exact hchange
  · intro r x _ _ _ y _ _ h
    rw [hresult] at h
    cases h

theorem waitForDependencies_holds (hk : known tag.holder w.log = some m) (item : ProcessItem)
    (err : Option Error → Option Error) :
    Holds (contextOf tag) (Unblocked tag m)
      (Storage.nakBlockedItem item >>= fun e => pure (false, err e, task)) w := by
  refine Holds.seq (Storage.nakBlockedItem_holds item hk) ?_
  intro _ v _ _ _ x _ _ h
  cases h

theorem processDependencies_holds (hw : tag.role.writer = .worker) (htask : task.Carries m)
    (hk : known tag.holder w.log = some m) (he : Eligible p tag.holder w.log m)
    (hb : m.task.state = .blocked) (hd : m.task.hasDependencies = true) (item : ProcessItem) :
    Holds (contextOf tag) (Unblocked tag m) (p.processDependencies item task) w := by
  unfold processDependencies
  have hparents : task.dependencies = m.task.dependencies := by
    obtain ⟨results, hrecord⟩ := htask.record
    rw [hrecord]
  rw [hparents]
  refine Holds.seq (p.loadDependencies_holds m.task.dependencies htask hk) ?_
  rintro ⟨ready, failed, err, task'⟩ v _ hl ⟨hcarries, hkv, hdone⟩
  have hfail := p.failDependencies_holds hw hcarries hkv (later_eligible hl he) hb hd item err
  cases err with
  | some err =>
    simp only
    split_ifs
    · exact hfail (fun t => (false, some err, t)) fun _ => rfl
    · exact waitForDependencies_holds hkv item id
  | none =>
    simp only
    split_ifs with hf hr
    · exact hfail (fun t => (false, some Sentinel.taskDependenciesFailed.error, t)) fun _ => rfl
    · exact waitForDependencies_holds hkv item fun _ => none
    · intro x hx _ _
      have hready : ready = true := by simpa using hr
      refine ⟨hcarries, (rely_known hx).trans hkv, fun d hd => ?_⟩
      exact later_done ((contextOf tag).rely_later hx) ((hdone hready).2 d hd)

end Dependencies

/-- What a worker has found out about the task of its item. -/
structure Loaded (tag : Tag) (m : StoredTask) (loadedAt : Int) (w : World) : Prop where
  loaded : Event.read tag.holder .worker .task m loadedAt ∈ w.log
  before : loadedAt ≤ w.clock
  proper : World.isWildcard m.task.id = false
  knows : known tag.holder w.log = some m

theorem Loaded.later {m : StoredTask} {loadedAt : Int} {w v : World} (h : Loaded tag m loadedAt w)
    (hl : (contextOf tag).later w v) (hk : known tag.holder v.log = some m) :
    Loaded tag m loadedAt v :=
  ⟨later_mem hl h.loaded, Int.le_trans h.before (later_clock hl), h.proper, hk⟩

theorem Loaded.rely {m : StoredTask} {loadedAt : Int} {w v : World} (h : Loaded tag m loadedAt w)
    (hr : (contextOf tag).rely w v) : Loaded tag m loadedAt v :=
  h.later ((contextOf tag).rely_later hr) ((rely_known hr).trans h.knows)

/-- If the check of the state finds nothing, the worker is admitted. -/
def PassesState (p : Processor) (tag : Tag) (m : StoredTask) (loadedAt : Int) (r : Option Error)
    (w : World) : Prop :=
  r = none → Loaded tag m loadedAt w ∧ Admitted p tag.holder w.log m loadedAt

theorem checkState_holds {m : StoredTask} {loadedAt : Int} {w : World}
    (h : Loaded tag m loadedAt w) (item : ProcessItem) :
    Holds (contextOf tag) (PassesState p tag m loadedAt)
      (p.checkState item ⟨m.task, some m.seq⟩) w := by
  have hpass : ∀ {now : Int} {v : World}, loadedAt ≤ now → p.stops m.task now = false →
      Loaded tag m loadedAt v →
      Holds (contextOf tag) (PassesState p tag m loadedAt) (.ret none) v := by
    intro now v hnow hstops hv x hx _ _
    have hvx := hv.rely hx
    exact ⟨hvx, hvx.loaded, now, hnow, hstops⟩
  have hstop : ∀ (err : Error) (v : World),
      Holds (contextOf tag) (PassesState p tag m loadedAt) (.ret (some err)) v := by
    intro err v x _ _ hnone
    cases hnone
  have hack : ∀ err : Error, Holds (contextOf tag) (PassesState p tag m loadedAt)
      (Storage.ackItem item >>= fun _ => pure (some err)) w := by
    intro err
    exact Holds.seq (Storage.ackItem_holds item h.knows) fun _ v _ _ _ => hstop err v
  unfold checkState
  cases hstate : m.task.state with
  | active =>
    simp only
    cases htried : m.task.lastTriedAt with
    | none => exact hstop _ w
    | some lastTriedAt =>
      refine Holds.seq (readClock_holds w) ?_
      rintro now v _ hl ⟨hbefore, -, hk⟩
      split_ifs with hfresh
      · exact hstop _ v
      · refine hpass (Int.le_trans h.before hbefore) ?_ (h.later hl (hk.trans h.knows))
        simp [stops, hstate, htried, hfresh]
  | unreachable => exact hack _
  | completed => exact hack _
  | expired => exact hack _
  | _ => exact hpass h.before (by simp [stops, hstate]) h

theorem handleTaskExpired_holds {m : StoredTask} {loadedAt : Int} {w : World}
    (hw : tag.role.writer = .worker) (hk : known tag.holder w.log = some m)
    (hm : World.isWildcard m.task.id = false) (ha : Admitted p tag.holder w.log m loadedAt)
    (hover : (∃ now, loadedAt ≤ now ∧ m.task.isPastDeadline now = true) ∨ m.task.outOfTries) :
    Holds (contextOf tag) (fun _ _ => True)
      (p.c.handleTaskExpired ⟨m.task, some m.seq⟩) w := by
  refine p.c.saveOrDiscardTaskIfDesired_holds ?_ ?_
  · rw [hk]
    exact ⟨rfl, (Copy.Carries.of_load hm).tracks.sameID, hm⟩
  · rw [hw, hk]
    exact ⟨p, m, rfl, .expire ha hover⟩

theorem checkLimits_holds {m : StoredTask} {loadedAt : Int} {w : World}
    (hw : tag.role.writer = .worker) (h : Loaded tag m loadedAt w)
    (ha : Admitted p tag.holder w.log m loadedAt) :
    Holds (contextOf tag) (fun r v => r = none →
      known tag.holder v.log = some m ∧ Eligible p tag.holder v.log m)
      (p.checkLimits ⟨m.task, some m.seq⟩) w := by
  unfold checkLimits
  refine Holds.seq (readClock_holds w) ?_
  rintro now v _ hl ⟨hbefore, -, hk⟩
  have hkv := hk.trans h.knows
  have hav := later_admitted hl ha
  have hnow := Int.le_trans h.before hbefore
  simp only
  split_ifs with hdeadline htries
  · refine Holds.seq
      (p.handleTaskExpired_holds hw hkv h.proper hav (.inl ⟨now, hnow, hdeadline⟩)) ?_
    rintro _ x _ _ _ y _ _ ⟨⟩
  · refine Holds.seq (p.handleTaskExpired_holds hw hkv h.proper hav (.inr htries)) ?_
    rintro _ x _ _ _ y _ _ ⟨⟩
  · intro x hx _ _
    refine ⟨(rely_known hx).trans hkv, ⟨loadedAt, ?_, now, hnow, by simpa using hdeadline⟩, htries⟩
    exact later_admitted ((contextOf tag).rely_later hx) hav

theorem startHandler_holds {m : StoredTask} {task : Copy} {w : World}
    (hw : tag.role.writer = .worker) (htask : task.Carries m)
    (hk : known tag.holder w.log = some m) (he : Eligible p tag.holder w.log m)
    (hdone : m.task.state = .blocked → ∀ d ∈ m.task.dependencies, DependencyDone w.log d)
    (item : ProcessItem) :
    Holds (contextOf tag) (fun _ _ => True) (startHandler item task) w := by
  unfold startHandler Client.setTaskActive
  simp only [bind_assoc]
  refine Holds.seq (readClock_holds w) ?_
  rintro now v _ hl ⟨-, -, hkv⟩
  have hknown := hkv.trans hk
  refine Holds.seq (Storage.saveTaskState_holds ?_ ?_ true) ?_
  · rw [hknown]
    exact ⟨htask.tracks.revision, htask.tracks.sameID, htask.tracks.named⟩
  · obtain ⟨results, hrecord⟩ := htask.record
    rw [hw, hknown]
    refine ⟨p, m, rfl, ?_⟩
    have hchange := WorkerChange.activate (later_eligible hl he)
      (fun hb d hd => later_done hl (hdone hb d hd)) results now
    simp only
    rw [hrecord]
    exact hchange
  · rintro ⟨err, task'⟩ x _ _ hsaved
    cases err with
    | some err => exact fun _ _ _ => trivial
    | none =>
      obtain ⟨old, seq, hmem, hkx, hseq⟩ := hsaved.success rfl
      apply Holds.call
      intro y hy _
      refine ⟨⟨old, seq, ?_, ?_, hseq, ?_⟩, fun _ _ _ _ _ _ => trivial⟩
      · rw [hw, ← hsaved.same] at hmem
        exact later_mem ((contextOf tag).rely_later hy) hmem
      · rw [rely_known hy, hkx, ← hsaved.same]
      · show task'.toTask.state = .active
        rw [hsaved.same]

theorem checkDependencies_holds {m : StoredTask} {w : World} (hw : tag.role.writer = .worker)
    (hk : known tag.holder w.log = some m) (hm : World.isWildcard m.task.id = false)
    (he : Eligible p tag.holder w.log m)
    (item : ProcessItem) :
    Holds (contextOf tag) (fun _ _ => True)
      (p.checkDependencies item ⟨m.task, some m.seq⟩) w := by
  unfold checkDependencies
  split_ifs with hgate
  · refine Holds.seq
      (p.processDependencies_holds hw (.of_load hm) hk he hgate.1 hgate.2 item) ?_
    rintro ⟨should, err, task⟩ v _ hl hready
    simp only
    split
    · exact fun _ _ _ => trivial
    · split_ifs with hshould
      · exact Holds.seq (request_silent (c := .release) rfl rfl) fun _ _ _ _ _ _ _ _ => trivial
      · obtain ⟨hcarries, hkv, hdone⟩ := hready (by simpa using hshould)
        exact p.startHandler_holds hw hcarries hkv (later_eligible hl he) (fun _ => hdone) item
  · refine p.startHandler_holds hw (.of_load hm) hk he ?_ item
    intro hblocked d hd
    refine absurd ⟨hblocked, ?_⟩ hgate
    simp only [Task.hasDependencies]
    cases hdeps : m.task.dependencies with
    | nil =>
      rw [hdeps] at hd
      cases hd
    | cons d ds => simp

theorem processMessage_holds (hw : tag.role.writer = .worker) (item : ProcessItem) (w : World) :
    Holds (contextOf tag) (fun _ _ => True) (p.processMessage item) w := by
  unfold processMessage
  refine Holds.seq (p.c.loadTaskByID_holds .task item.jobID w) ?_
  rintro (err | task) v _ _ ⟨hfound, -⟩
  · simp only
    split_ifs
    · refine Holds.seq (Storage.terminateItem_holds item rfl) fun _ x _ _ _ => ?_
      exact Holds.seq (request_silent (c := .release) rfl rfl) fun _ _ _ _ _ _ _ _ => trivial
    · exact fun _ _ _ => trivial
  · obtain ⟨m, loadedAt, rfl, hm⟩ := hfound task rfl
    have hloaded : Loaded tag m loadedAt v := ⟨hw ▸ hm.loaded, hm.before, hm.proper, hm.knows rfl⟩
    refine Holds.seq (p.checkState_holds hloaded item) ?_
    rintro (_ | err) x _ _ hstate
    · obtain ⟨hlx, hax⟩ := hstate rfl
      refine Holds.seq (p.checkLimits_holds hw hlx hax) ?_
      rintro (_ | err) y _ _ hlimits
      · obtain ⟨hky, hey⟩ := hlimits rfl
        exact p.checkDependencies_holds hw hky hm.proper hey item
      · exact fun _ _ _ => trivial
    · exact fun _ _ _ => trivial

theorem processItem_holds (hw : tag.role.writer = .worker) (item : ProcessItem) (w : World) :
    Holds (contextOf tag) (fun _ _ => True) (p.processItem item) w := by
  unfold processItem
  refine Holds.seq (p.processMessage_holds hw item w) ?_
  rintro (_ | err) v _ _ _
  · exact fun _ _ _ => trivial
  · exact Holds.mono (request_silent (c := .release) rfl rfl) fun _ _ _ _ => trivial

/-- A handler goroutine that has not yet saved the outcome of its task. -/
structure Running (tag : Tag) (t : Copy) (seq : Nat) (w : World) : Prop where
  writer : tag.role.writer = .handler
  knows : known tag.holder w.log = some ⟨seq, t.toTask⟩
  revision : t.storageOptions = some seq
  active : t.state = .active
  named : World.isWildcard t.id = false

variable {t : Copy} {seq : Nat} {w : World}

theorem Running.tracks (h : Running tag t seq w) {t' : Copy}
    (hrev : t'.storageOptions = t.storageOptions) (hid : t'.id = t.id) :
    t'.Tracks (known tag.holder w.log) := by
  rw [h.knows]
  refine ⟨hrev.trans h.revision, ?_, ?_⟩
  · rintro r ⟨⟩
    exact hid.symm
  · rw [hid]
    exact h.named

theorem Running.change (h : Running tag t seq w) {c : Client} {t' : Task}
    (hc : HandlerChange c ⟨seq, t.toTask⟩ t') :
    Change tag.role.writer tag.holder w.log (known tag.holder w.log) t' := by
  rw [h.writer, h.knows]
  exact ⟨c, _, rfl, h.active, hc⟩

theorem handleTaskTerminated_holds (h : Running tag t seq w) {err : Error}
    (hterm : err.is .terminateTask = true) :
    Holds (contextOf tag) (fun _ _ => True)
      (p.c.handleTaskTerminated { t with tries := t.tries + 1 } err) w :=
  p.c.stamped_holds (fun _ => h.tracks rfl rfl)
    fun now => h.change (c := p.c) (.terminate now err hterm)

theorem handleTaskError_holds (h : Running tag t seq w) {err : Error}
    (hterm : err.is .terminateTask = false) :
    Holds (contextOf tag) (fun _ _ => True)
      (p.c.handleTaskError { t with tries := t.tries + 1 } err) w :=
  p.c.stamped_holds (fun _ => h.tracks rfl rfl) fun now => h.change (.fail now err hterm)

theorem setTaskSuccess_holds (h : Running tag t seq w) (payload : String) :
    Holds (contextOf tag) (fun _ _ => True)
      (p.c.setTaskSuccess { t with tries := t.tries + 1 } payload) w := by
  unfold Client.setTaskSuccess
  refine Holds.seq (readClock_holds w) ?_
  rintro lastTriedAt v _ _ ⟨-, -, hk⟩
  have hv : Running tag t seq v := ⟨h.writer, hk.trans h.knows, h.revision, h.active, h.named⟩
  exact p.c.stamped_holds (fun _ => hv.tracks rfl rfl)
    fun completedAt => hv.change (c := p.c) (.succeed lastTriedAt completedAt payload)

theorem handle_holds (h : Running tag t seq w) (item : ProcessItem) :
    Holds (contextOf tag) (fun _ _ => True) (p.handle t item) w := by
  have hend : ∀ v, Holds (contextOf tag) (fun _ _ => True) (request .release) v := fun v =>
    Holds.mono (request_silent (c := .release) rfl rfl) fun _ _ _ _ => trivial
  unfold handle
  refine Holds.seq (request_silent (c := .runHandler _) rfl h.knows) ?_
  rintro (err | payload) v _ _ hk
  · have hv : Running tag t seq v := ⟨h.writer, hk, h.revision, h.active, h.named⟩
    cases hterm : err.is .terminateTask with
    | true =>
      simp only [hterm]
      refine Holds.seq (p.handleTaskTerminated_holds hv hterm) fun _ x _ _ _ => ?_
      exact Holds.seq (Storage.terminateItem_holds item rfl) fun _ y _ _ _ => hend y
    | false =>
      simp only [hterm]
      refine Holds.seq (p.handleTaskError_holds hv hterm) fun _ x _ _ _ => ?_
      exact Holds.seq (Storage.nakItem_holds _ item rfl) fun _ y _ _ _ => hend y
  · have hv : Running tag t seq v := ⟨h.writer, hk, h.revision, h.active, h.named⟩
    refine Holds.seq (p.setTaskSuccess_holds hv payload) fun _ x _ _ _ => ?_
    exact Holds.seq (Storage.ackItem_holds item rfl) fun _ y _ _ _ => hend y

end Processor

end AsyncJobs
