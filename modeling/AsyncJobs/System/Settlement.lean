import AsyncJobs.System.WorkQueue

/-!
# Settled and spent items

What is settled stays settled and what is spent stays spent, whatever successful
request comes next.
-/

namespace AsyncJobs

open Interaction

structure WorkItem.Continues (i i' : WorkItem) : Prop where
  queue : i.queue = i'.queue
  id : i.id = i'.id
  seq : i.seq = i'.seq
  delivered : i.delivered ≤ i'.delivered

theorem WorkItem.Continues.refl (i : WorkItem) : i.Continues i := ⟨rfl, rfl, rfl, Nat.le_refl _⟩

/-- A change that leaves the stored tasks and the newest items alone. -/
structure Frame (w w' : World) : Prop where
  itemSeq : w'.itemSeq = w.itemSeq
  published : ∀ n queue id seq,
    Event.published n queue id seq ∈ w'.log ↔ Event.published n queue id seq ∈ w.log
  last : ∀ id, lastItem id w'.log = lastItem id w.log
  submit : ∀ id, lastSubmit id w'.log = lastSubmit id w.log
  stored : ∀ id, w'.stored id = w.stored id
  items : ∀ i' ∈ w'.items, ∃ i ∈ w.items, i.Continues i'

/-- What is settled stays settled and what is spent stays spent. -/
def Kept (q : Queue) (w w' : World) : Prop :=
  ∀ id seq, (Settled id seq w → Settled id seq w') ∧ (Spent q id seq w → Spent q id seq w')

section Kept

variable {q : Queue} {w w' : World}

theorem Kept.refl (q : Queue) (w : World) : Kept q w w := fun _ _ => ⟨fun h => h, fun h => h⟩

theorem Kept.trans {w'' : World} (h : Kept q w w') (h' : Kept q w' w'') : Kept q w w'' :=
  fun id seq =>
    ⟨fun hs => (h' id seq).1 ((h id seq).1 hs), fun hs => (h' id seq).2 ((h id seq).2 hs)⟩

theorem Frame.trans {w'' : World} (h : Frame w w') (h' : Frame w' w'') : Frame w w'' where
  itemSeq := h'.itemSeq.trans h.itemSeq
  published n queue id seq := (h'.published n queue id seq).trans (h.published n queue id seq)
  last id := (h'.last id).trans (h.last id)
  submit id := (h'.submit id).trans (h.submit id)
  stored id := (h'.stored id).trans (h.stored id)
  items i hi := by
    obtain ⟨i', hi', hc'⟩ := h'.items i hi
    obtain ⟨i'', hi'', hc⟩ := h.items i' hi'
    exact ⟨i'', hi'', hc.queue.trans hc'.queue, hc.id.trans hc'.id, hc.seq.trans hc'.seq,
      Nat.le_trans hc.delivered hc'.delivered⟩

theorem Frame.pending (h : Frame w w') {id : String} (hp : Pending id w.log) :
    Pending id w'.log := by
  obtain ⟨n, hn, hun⟩ := hp
  refine ⟨n, (h.submit id).trans hn, ?_⟩
  intro queue id' seq hmem
  exact hun queue id' seq ((h.published n queue id' seq).mp hmem)

theorem Frame.kept (h : Frame w w') (q : Queue) : Kept q w w' := by
  intro id seq
  constructor
  · intro hs
    refine ⟨h.itemSeq ▸ hs.issued, ?_⟩
    rw [h.last, h.stored]
    exact hs.unneeded.imp_right fun ho => ho.imp_left h.pending
  · intro hs
    refine ⟨h.itemSeq ▸ hs.issued, ?_, ?_⟩
    · intro i' hi' hseq
      obtain ⟨i, hi, hsame⟩ := h.items i' hi'
      have hused := hs.used i hi (hsame.seq.trans hseq)
      have hle := hsame.delivered
      omega
    · rw [h.last, h.stored]
      exact hs.unneeded.imp_right fun ho => ho.imp_left h.pending

theorem published_cons {e : Event} {log : List Event} {n seq : Nat} {queue id : String}
    (he : e ≠ .published n queue id seq) :
    Event.published n queue id seq ∈ e :: log ↔ Event.published n queue id seq ∈ log := by
  rw [List.mem_cons]
  constructor
  · rintro (heq | h)
    · exact absurd heq.symm he
    · exact h
  · exact Or.inr

theorem Frame.cons {e : Event} (hlog : w'.log = e :: w.log) (he : e.steady = true)
    (htasks : w'.tasks = w.tasks) (hseq : w'.itemSeq = w.itemSeq)
    (hitems : ∀ i' ∈ w'.items, ∃ i ∈ w.items, i.Continues i') : Frame w w' where
  itemSeq := hseq
  published n queue id seq := by rw [hlog, published_cons (Event.steady.not_published he)]
  last id := by rw [hlog, lastItem_cons fun _ _ _ _ => Event.steady.not_published he]
  submit id := by
    rw [hlog, lastSubmit_cons fun _ _ _ _ _ heq => absurd heq (Event.steady.not_saved he)]
  stored id := by rw [World.stored, World.stored, htasks]
  items := hitems

theorem Frame.silent (hlog : w'.log = w.log) (htasks : w'.tasks = w.tasks)
    (hseq : w'.itemSeq = w.itemSeq)
    (hitems : ∀ i' ∈ w'.items, ∃ i ∈ w.items, i.Continues i') : Frame w w' where
  itemSeq := hseq
  published n queue id seq := by rw [hlog]
  last id := by rw [hlog]
  submit id := by rw [hlog]
  stored id := by rw [World.stored, World.stored, htasks]
  items := hitems

theorem same_items : ∀ i' ∈ w.items, ∃ i ∈ w.items, i.Continues i' :=
  fun i' hi' => ⟨i', hi', .refl i'⟩

theorem kept_items {keep : WorkItem → Bool} :
    ∀ i' ∈ w.items.filter keep, ∃ i ∈ w.items, i.Continues i' :=
  fun i' hi' => ⟨i', List.mem_of_mem_filter hi', .refl i'⟩

theorem distinct_map {f : WorkItem → WorkItem} (hf : ∀ i, (f i).id = i.id)
    (h : w.items.Pairwise fun a b => a.id ≠ b.id) :
    (w.items.map f).Pairwise fun a b => a.id ≠ b.id := by
  rw [List.pairwise_map]
  refine h.imp fun {a b} hab => ?_
  rw [hf, hf]
  exact hab

theorem delayed_items (msg : MsgRef) (delay : Int) :
    ∀ i' ∈ (w.delayItem msg delay).items, ∃ i ∈ w.items, i.Continues i' := by
  intro i' hi'
  obtain ⟨i, hi, rfl⟩ := List.mem_map.mp hi'
  refine ⟨i, hi, ?_⟩
  split_ifs
  · exact ⟨rfl, rfl, rfl, Nat.le_refl _⟩
  · exact .refl i

theorem HealthyEffect.frame {tag : Tag} {c : Call} {r : c.Reply}
    (h : HealthyEffect q tag w c r w') (hsave : ∀ t, c ≠ .publishTask t)
    (hqueue : ∀ queue id msgID, c ≠ .publishItem queue id msgID) : Frame w w' := by
  cases h with
  | save => exact absurd rfl (hsave _)
  | queue => exact absurd rfl (hqueue _ _ _)
  | read => exact .cons rfl rfl rfl rfl same_items
  | ack => exact .cons rfl rfl rfl rfl kept_items
  | term => exact .cons rfl rfl rfl rfl kept_items
  | nak msg delay => exact .silent rfl rfl rfl (delayed_items msg delay)
  | start => exact .cons rfl rfl rfl rfl same_items
  | done t err =>
    cases t with
    | none => exact .cons rfl rfl rfl rfl same_items
    | some t =>
      have hreturned : Frame w (w.note (.returned tag.holder err)) :=
        .cons rfl rfl rfl rfl same_items
      have hpassed : Frame (w.note (.returned tag.holder err))
          (w.finish tag.holder (some t) err) := .cons rfl rfl rfl rfl same_items
      exact hreturned.trans hpassed
  | release => exact .silent rfl rfl rfl same_items
  | _ => exact .silent rfl rfl rfl same_items

theorem Admitted.not_final {log : List Event} {p : Processor} {n : Nat} {m : StoredTask}
    {loadedAt : Int} (h : Admitted p n log m loadedAt)
    (hloads : ∀ {n m clock}, Event.read n .worker .task m clock ∈ log →
      m.task.state ≠ .terminated) : ¬ m.task.state.final = true :=
  fun hfinal => hloads h.loaded (h.terminated hfinal)

/-- Workers and handlers only replace records that are not final. -/
theorem Change.base_not_final {log : List Event} {writer : Writer} {n : Nat}
    {base : Option StoredTask} {t : Task} (hc : Change writer n log base t)
    (hw : writer.submits = false)
    (hloads : ∀ {n m clock}, Event.read n .worker .task m clock ∈ log →
      m.task.state ≠ .terminated) :
    ∃ m, base = some m ∧ ¬ m.task.state.final = true := by
  cases writer with
  | worker =>
    obtain ⟨p, m, hm, hchange⟩ := hc
    refine ⟨m, hm, ?_⟩
    cases hchange with
    | expire admitted exceeded => exact admitted.not_final hloads
    | unreachable eligible blocked dependent results lastErr now =>
      obtain ⟨loadedAt, hadmitted, -⟩ := eligible.admitted
      exact hadmitted.not_final hloads
    | activate eligible done results now =>
      obtain ⟨loadedAt, hadmitted, -⟩ := eligible.admitted
      exact hadmitted.not_final hloads
  | handler =>
    obtain ⟨c, m, hm, hactive, -⟩ := hc
    exact ⟨m, hm, by simp [hactive, TaskState.final]⟩
  | enqueuer => cases hw
  | retrier => cases hw
  | reader => exact hc.elim

/-- Only a failed handler puts a task back to wait, in state retry. -/
theorem Change.not_waiting {log : List Event} {writer : Writer} {n : Nat}
    {base : Option StoredTask} {t : Task} (hc : Change writer n log base t)
    (hw : writer.submits = false) : ¬ t.enqueueable ∨ (writer = .handler ∧ t.state = .retry) := by
  cases writer with
  | worker =>
    obtain ⟨p, m, hm, hchange⟩ := hc
    cases hchange with
    | expire => exact Or.inl (by simp [Task.enqueueable])
    | unreachable => exact Or.inl (by simp [Task.enqueueable])
    | activate => exact Or.inl (by simp [Task.enqueueable])
  | handler =>
    obtain ⟨c, m, hm, hactive, hchange⟩ := hc
    cases hchange with
    | succeed => exact Or.inl (by simp [Task.enqueueable])
    | terminate => exact Or.inl (by simp [Task.enqueueable])
    | fail now err terminal =>
      simp only [Task.enqueueable, Client.errorState]
      split_ifs <;> simp
  | enqueuer => cases hw
  | retrier => cases hw
  | reader => exact hc.elim

theorem Role.handler_of_writer {role : Role} (h : role.writer = .handler) :
    ∃ p t item, role = .handler p t item := by
  cases role with
  | handler p t item => exact ⟨p, t, item, rfl⟩
  | _ => cases h

theorem QueueInv.single (hq : QueueInv q w) {i i' : WorkItem} (hi : i ∈ w.items)
    (hi' : i' ∈ w.items) (hid : i.id = i'.id) : i = i' := by
  have hsymm : Std.Symm fun a b : WorkItem => a.id ≠ b.id := ⟨fun _ _ h => h.symm⟩
  by_contra hne
  exact hq.distinct.forall hi hi' hne hid

/-- The item that still has an attempt left is the newest one of its task. -/
theorem QueueInv.attemptsLeft (hq : QueueInv q w) {id : String}
    (h : w.attemptsLeft q id = true) :
    ∃ i ∈ w.items, i.id = id ∧ lastItem id w.log = some i.seq ∧
      (i.delivered : Int) < q.maxTries := by
  obtain ⟨i, hi, hitem⟩ := List.any_eq_true.mp h
  obtain ⟨-, hid, hlt⟩ := of_decide_eq_true hitem
  exact ⟨i, hi, hid, hid ▸ hq.latest i hi, hlt⟩

section Save

variable {tag : Tag} {t : Copy}

theorem pending_store (hpermit : QueuePermit q tag w (.publishTask t))
    (hs : tag.role.writer.submits = true) :
    Pending t.id (w.store tag.holder tag.role.writer t true).log := by
  refine ⟨tag.holder, if_pos ⟨hs, rfl⟩, ?_⟩
  intro queue id seq hmem
  rcases List.mem_cons.mp hmem with heq | hmem
  · cases heq
  · exact (hpermit hs).1 queue id seq hmem

theorem Pending.store {id : String} (h : Pending id w.log)
    (hpermit : QueuePermit q tag w (.publishTask t)) :
    Pending id (w.store tag.holder tag.role.writer t true).log := by
  by_cases hs : tag.role.writer.submits = true ∧ t.id = id
  · exact hs.2 ▸ pending_store hpermit hs.1
  · refine h.cons ?_ (by rintro _ _ _ _ ⟨⟩)
    rintro n writer old new acked heq hw hid
    cases heq
    exact hs ⟨hw, hid⟩

theorem retry_store (hinv : (w.store tag.holder tag.role.writer t true).Inv)
    (hkept : w.keepsAttempts q tag.role (.publishTask t) = true)
    (hs : tag.role.writer.submits = false) (ht : t.toTask.enqueueable) :
    w.attemptsLeft q t.id = true := by
  obtain ⟨-, -, hchange, -⟩ := hinv.valid.1
  rcases hchange.not_waiting hs with hnot | ⟨hhandler, hretry⟩
  · exact absurd ht hnot
  · obtain ⟨p, t', item, hrole⟩ := Role.handler_of_writer hhandler
    rw [hrole] at hkept
    rcases of_decide_eq_true hkept with hne | hleft
    · exact absurd hretry hne
    · exact hleft

theorem kept_store (hq : QueueInv q w) (hinv : (w.store tag.holder tag.role.writer t true).Inv)
    (hpermit : QueuePermit q tag w (.publishTask t))
    (hkept : w.keepsAttempts q tag.role (.publishTask t) = true) :
    Kept q w (w.store tag.holder tag.role.writer t true) := by
  obtain ⟨hold, -, hchange, -⟩ := hinv.valid.1
  have hlast : ∀ id, lastItem id (w.store tag.holder tag.role.writer t true).log =
      lastItem id w.log := fun id => lastItem_cons (by rintro _ _ _ _ ⟨⟩)
  intro id seq
  by_cases hid : t.id = id
  · subst hid
    by_cases hs : tag.role.writer.submits = true
    · have hpending := pending_store hpermit hs
      exact ⟨fun h => ⟨h.issued, Or.inr (Or.inl hpending)⟩,
        fun h => ⟨h.issued, h.used, Or.inr (Or.inl hpending)⟩⟩
    · have hs' : tag.role.writer.submits = false := by simpa using hs
      constructor
      · rintro ⟨hissued, hover⟩
        refine ⟨hissued, ?_⟩
        rw [hlast]
        rcases hover with h | h | h
        · exact Or.inl h
        · exact Or.inr (Or.inl (h.store hpermit))
        · obtain ⟨m, hm, hopen⟩ := hchange.base_not_final hs' hq.loads
          exact absurd (h m hm) hopen
      · rintro ⟨hissued, hused, hover⟩
        refine ⟨hissued, hused, ?_⟩
        rw [hlast]
        rcases hover with h | h | h
        · exact Or.inl h
        · exact Or.inr (Or.inl (h.store hpermit))
        · by_cases hnew : lastItem t.id w.log = some seq
          · refine Or.inr (Or.inr ?_)
            intro m hm henq
            rw [World.stored_store, if_pos rfl] at hm
            cases hm
            have hleft := retry_store hinv hkept hs' henq
            obtain ⟨i, hi, -, hi', hlt⟩ := hq.attemptsLeft hleft
            rw [hnew] at hi'
            cases hi'
            have hused' := hused i hi rfl
            omega
          · exact Or.inl hnew
  · have hstored : (w.store tag.holder tag.role.writer t true).stored id = w.stored id := by
      rw [World.stored_store, if_neg hid]
    constructor
    · rintro ⟨hissued, hover⟩
      refine ⟨hissued, ?_⟩
      rw [hlast, hstored]
      exact hover.imp_right fun h => h.imp_left fun h => h.store hpermit
    · rintro ⟨hissued, hused, hover⟩
      refine ⟨hissued, hused, ?_⟩
      rw [hlast, hstored]
      exact hover.imp_right fun h => h.imp_left fun h => h.store hpermit

end Save

theorem pending_putItem {tag : Tag} {id id' : String} {msgID : Option String}
    (hpermit : QueuePermit q tag w (.publishItem q.name id msgID)) (hid : id ≠ id')
    (h : Pending id' w.log) : Pending id' (w.putItem tag.holder q.name id msgID).log := by
  refine h.cons (by rintro _ _ _ _ _ ⟨⟩) ?_
  rintro n queue id'' seq heq hlast
  cases heq
  exact hid (hpermit id' hlast).symm

theorem kept_putItem {tag : Tag} {id : String} {msgID : Option String}
    (hpermit : QueuePermit q tag w (.publishItem q.name id msgID)) :
    Kept q w (w.putItem tag.holder q.name id msgID) := by
  intro id' seq
  have hover : ∀ {P : Prop}, seq ≤ w.itemSeq →
      lastItem id' w.log ≠ some seq ∨ Pending id' w.log ∨ P →
      lastItem id' (w.putItem tag.holder q.name id msgID).log ≠ some seq ∨
        Pending id' (w.putItem tag.holder q.name id msgID).log ∨ P := by
    intro P hissued hover
    by_cases hid : id = id'
    · refine Or.inl ?_
      show (if id = id' then some (w.itemSeq + 1) else _) ≠ some seq
      rw [if_pos hid]
      intro heq
      injection heq with heq
      omega
    · rcases hover with h | h | h
      · refine Or.inl ?_
        show (if id = id' then some (w.itemSeq + 1) else _) ≠ some seq
        rw [if_neg hid]
        exact h
      · exact Or.inr (Or.inl (pending_putItem hpermit hid h))
      · exact Or.inr (Or.inr h)
  constructor
  · intro h
    exact ⟨Nat.le_succ_of_le h.issued, hover h.issued h.unneeded⟩
  · intro h
    refine ⟨Nat.le_succ_of_le h.issued, ?_, hover h.issued h.unneeded⟩
    intro i hi hseq
    rcases List.mem_cons.mp hi with rfl | hi
    · have hissued := h.issued
      simp only at hseq
      omega
    · exact h.used i (List.mem_of_mem_filter hi) hseq

end Kept

end AsyncJobs
