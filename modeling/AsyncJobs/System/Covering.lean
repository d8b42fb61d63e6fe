import AsyncJobs.System.QueueSteps

/-!
# Waiting tasks stay covered

`Covering` is the invariant behind the queue: a waiting task has an item, unless the
call that stored it is about to publish one, and an item without an attempt left is
still in its last delivery. Every request and every delivery keeps it.
-/

namespace AsyncJobs

structure Covering (q : Queue) (w : World) : Prop where
  exhausted : ∀ i ∈ w.items, q.maxTries ≤ (i.delivered : Int) →
    ∀ m, w.stored i.id = some m → m.task.enqueueable → Pending i.id w.log ∨
      ∃ d ∈ w.deliveries, d.id = i.id ∧ d.msg.seq = i.seq ∧
        q.maxTries ≤ (d.msg.numDelivered : Int)
  present : ∀ id m, w.stored id = some m → m.task.enqueueable → Pending id w.log ∨
    ∃ i ∈ w.items, i.id = id

variable {q : Queue} {tag : Tag} {w w' : World}

theorem Covering.init (q : Queue) (start : Int) : Covering q (World.init start) := by
  refine ⟨?_, ?_⟩
  · intro i hi
    cases hi
  · intro id m hm
    cases hm

theorem Covering.frame (h : Covering q w) (f : Frame w w')
    (hitems : ∀ i ∈ w.items, ∃ i' ∈ w'.items, i'.id = i.id)
    (hused : ∀ i' ∈ w'.items, ∃ i ∈ w.items, i.id = i'.id ∧ i.seq = i'.seq ∧
      i.delivered = i'.delivered)
    (hdeliveries : ∀ d ∈ w.deliveries, ∃ d' ∈ w'.deliveries, d'.id = d.id ∧ d'.msg = d.msg) :
    Covering q w' where
  exhausted i' hi' hmax m hm henq := by
    obtain ⟨i, hi, hid, hseq, hcount⟩ := hused i' hi'
    rw [f.stored, ← hid] at hm
    rw [← hcount] at hmax
    rcases h.exhausted i hi hmax m hm henq with hp | ⟨d, hd, hdid, hdseq, hdmax⟩
    · exact Or.inl (f.pending (hid ▸ hp))
    · obtain ⟨d', hd', hid', hmsg'⟩ := hdeliveries d hd
      refine Or.inr ⟨d', hd', hid'.trans (hdid.trans hid), ?_⟩
      rw [hmsg']
      exact ⟨hdseq.trans hseq, hdmax⟩
  present id m hm henq := by
    rw [f.stored] at hm
    rcases h.present id m hm henq with hp | ⟨i, hi, hid⟩
    · exact Or.inl (f.pending hp)
    · obtain ⟨i', hi', hid'⟩ := hitems i hi
      exact Or.inr ⟨i', hi', hid'.trans hid⟩

theorem Covering.same (h : Covering q w) (f : Frame w w') (hitems : w'.items = w.items)
    (hdeliveries : w'.deliveries = w.deliveries) : Covering q w' := by
  refine h.frame f ?_ ?_ ?_
  · rw [hitems]
    exact fun i hi => ⟨i, hi, rfl⟩
  · rw [hitems]
    exact fun i hi => ⟨i, hi, rfl, rfl, rfl⟩
  · rw [hdeliveries]
    exact fun d hd => ⟨d, hd, rfl, rfl⟩

theorem Covering.store (h : Covering q w) (hq : QueueInv q w) {t : Copy}
    (hinv : (w.store tag.holder tag.role.writer t true).Inv)
    (hp : QueuePermit q tag w (.publishTask t))
    (hkept : w.keepsAttempts q tag.role (.publishTask t) = true) :
    Covering q (w.store tag.holder tag.role.writer t true) := by
  have hnew : t.toTask.enqueueable → Pending t.id (w.store tag.holder tag.role.writer t true).log ∨
      ∃ i ∈ w.items, i.id = t.id ∧ (i.delivered : Int) < q.maxTries := by
    intro henq
    cases hs : tag.role.writer.submits with
    | true => exact Or.inl (pending_store hp hs)
    | false =>
      obtain ⟨i, hi, hid, -, hlt⟩ := hq.attemptsLeft (retry_store hinv hkept hs henq)
      exact Or.inr ⟨i, hi, hid, hlt⟩
  constructor
  · intro i hi hmax m hm henq
    rw [World.stored_store] at hm
    split_ifs at hm with hid
    · cases hm
      rcases hnew henq with hpending | ⟨i', hi', hid', hlt⟩
      · exact Or.inl (hid ▸ hpending)
      · rw [hq.single hi' hi (hid'.trans hid)] at hlt
        omega
    · rcases h.exhausted i hi hmax m hm henq with hpending | hcover
      · exact Or.inl (hpending.store hp)
      · exact Or.inr hcover
  · intro id m hm henq
    rw [World.stored_store] at hm
    split_ifs at hm with hid
    · subst hid
      cases hm
      rcases hnew henq with hpending | ⟨i', hi', hid', -⟩
      · exact Or.inl hpending
      · exact Or.inr ⟨i', hi', hid'⟩
    · rcases h.present id m hm henq with hpending | hcover
      · exact Or.inl (hpending.store hp)
      · exact Or.inr hcover

theorem Covering.putItem (h : Covering q w) (hq : QueueInv q w) (hM : 0 < q.maxTries)
    {id : String} {msgID : Option String}
    (hp : QueuePermit q tag w (.publishItem q.name id msgID)) :
    Covering q (w.putItem tag.holder q.name id msgID) := by
  constructor
  · intro i hi hmax m hm henq
    rcases List.mem_cons.mp hi with rfl | hi
    · simp only at hmax
      omega
    · obtain ⟨hmem, hne⟩ := List.mem_filter.mp hi
      have hid : id ≠ i.id := by
        intro hid
        exact of_decide_eq_true hne ⟨hq.inQueue i hmem, hid.symm⟩
      rcases h.exhausted i hmem hmax m hm henq with hpending | hcover
      · exact Or.inl (pending_putItem hp hid hpending)
      · exact Or.inr hcover
  · intro id' m hm henq
    by_cases hid : id = id'
    · exact Or.inr ⟨_, List.mem_cons_self .., hid⟩
    · rcases h.present id' m hm henq with hpending | ⟨i, hi, hiid⟩
      · exact Or.inl (pending_putItem hp hid hpending)
      · refine Or.inr ⟨i, List.mem_cons_of_mem _ (List.mem_filter.mpr ⟨hi, ?_⟩), hiid⟩
        rw [decide_eq_true_iff]
        rintro ⟨-, heq⟩
        exact hid (heq.symm.trans hiid)

/-- Taking an item off the queue leaves no waiting task without one. -/
theorem Covering.removeItem (h : Covering q w) {n : Nat} {msg : MsgRef}
    (hsafe : ∀ i ∈ w.items, i.queue = msg.queue ∧ i.seq = msg.seq → Pending i.id w.log ∨
      ∀ m, w.stored i.id = some m → ¬ m.task.enqueueable) : Covering q (w.removeItem n msg) := by
  constructor
  · intro i hi hmax m hm henq
    rcases h.exhausted i (List.mem_of_mem_filter hi) hmax m hm henq with hpending | hcover
    · exact Or.inl (hpending.steady rfl)
    · exact Or.inr hcover
  · intro id m hm henq
    rcases h.present id m hm henq with hpending | ⟨i, hi, rfl⟩
    · exact Or.inl (hpending.steady rfl)
    · by_cases hsame : i.queue = msg.queue ∧ i.seq = msg.seq
      · rcases hsafe i hi hsame with hpending | hrest
        · exact Or.inl (hpending.steady rfl)
        · exact absurd henq (hrest m hm)
      · exact Or.inr ⟨i, List.mem_filter.mpr ⟨hi, decide_eq_true hsame⟩, rfl⟩

theorem Settled.removable (hq : QueueInv q w) {id : String} {msg : MsgRef}
    (hissued : Issued id msg.seq w.log) (hs : Settled id msg.seq w) :
    ∀ i ∈ w.items, i.queue = msg.queue ∧ i.seq = msg.seq → Pending i.id w.log ∨
      ∀ m, w.stored i.id = some m → ¬ m.task.enqueueable := by
  rintro i hi ⟨-, hseq⟩
  have hlast := hq.latest i hi
  obtain ⟨n, queue, hpub⟩ := hissued
  obtain ⟨n', queue', hpub'⟩ := lastItem_issued hlast
  rw [hseq] at hpub'
  have hid : i.id = id := hq.unique hpub' hpub
  rw [hid, hseq] at hlast
  rw [hid]
  rcases hs.unneeded with hnewer | hpending | hfinal
  · exact absurd hlast hnewer
  · exact Or.inl hpending
  · exact Or.inr fun m hm henq => henq.not_final (hfinal m hm)

/-- A worker only terminates items of tasks that do not wait. -/
theorem keepsAttempts_removable {p : Processor} {item : ProcessItem} {msg : MsgRef}
    (h : w.keepsAttempts q (.worker p item) (.termItem msg) = true) :
    ∀ i ∈ w.items, i.queue = msg.queue ∧ i.seq = msg.seq → Pending i.id w.log ∨
      ∀ m, w.stored i.id = some m → ¬ m.task.enqueueable := by
  intro i hi hsame
  refine Or.inr fun m hm henq => ?_
  have hitem := of_decide_eq_true (List.all_eq_true.mp h i hi) hsame
  simp only [World.waiting, hm, decide_eq_false_iff_not] at hitem
  exact hitem henq

theorem Covering.release (h : Covering q w) (hq : QueueInv q w)
    (hp : QueuePermit q tag w .release) : Covering q (w.releaseDelivery tag.holder) := by
  refine ⟨?_, h.present⟩
  intro i hi hmax m hm henq
  rcases h.exhausted i hi hmax m hm henq with hpending | ⟨d, hd, hdid, hdseq, hdmax⟩
  · exact Or.inl hpending
  · by_cases hn : d.holder = tag.holder
    · rcases (hp d hd hn hdmax).unneeded with hlast | hpending | hrest
      · rw [hdid, hdseq] at hlast
        exact absurd (hq.latest i hi) hlast
      · exact Or.inl (hdid ▸ hpending)
      · exact absurd henq (hrest m (hdid ▸ hm))
    · exact Or.inr ⟨d, List.mem_filter.mpr ⟨hd, decide_eq_true hn⟩, hdid, hdseq, hdmax⟩

theorem Covering.beginHandler (h : Covering q w) (n : Nat) (t : Copy) (item : ProcessItem) :
    Covering q (w.beginHandler n t item) := by
  refine h.frame (.cons rfl rfl rfl rfl same_items) (fun i hi => ⟨i, hi, rfl⟩)
    (fun i hi => ⟨i, hi, rfl, rfl, rfl⟩) ?_
  intro d hd
  refine ⟨_, List.mem_map.mpr ⟨d, hd, rfl⟩, ?_⟩
  split_ifs <;> exact ⟨rfl, rfl⟩

theorem Covering.effect (h : Covering q w) (hq : QueueInv q w) (hM : 0 < q.maxTries) {c : Call}
    {r : c.Reply} (he : HealthyEffect q tag w c r w') (hinv : w'.Inv)
    (hp : QueuePermit q tag w c) : Covering q w' := by
  cases he with
  | save accepted kept => exact h.store hq hinv hp kept
  | queue id msgID => exact h.putItem hq hM hp
  | ack msg =>
    obtain ⟨id, hissued, hsettled⟩ := hp
    exact h.removeItem (hsettled.removable hq hissued)
  | term msg kept =>
    rcases hp with ⟨p, item, hrole⟩ | ⟨id, hissued, hsettled⟩
    · rw [hrole] at kept
      exact h.removeItem (keepsAttempts_removable kept)
    · exact h.removeItem (hsettled.removable hq hissued)
  | nak msg delay kept =>
    refine h.frame (.silent rfl rfl rfl (delayed_items msg delay)) ?_ ?_
      (fun d hd => ⟨d, hd, rfl, rfl⟩)
    · intro i hi
      refine ⟨_, List.mem_map.mpr ⟨i, hi, rfl⟩, ?_⟩
      split_ifs <;> rfl
    · intro i' hi'
      obtain ⟨i, hi, rfl⟩ := List.mem_map.mp hi'
      refine ⟨i, hi, ?_⟩
      split_ifs <;> exact ⟨rfl, rfl, rfl⟩
  | start t item => exact h.beginHandler _ t item
  | release => exact h.release hq hp
  | read => exact h.same (.cons rfl rfl rfl rfl same_items) rfl rfl
  | done t err =>
    have hdone : HealthyEffect q tag w (.done t err) () (w.finish tag.holder t err) := .done t err
    have hframe := hdone.frame (by rintro _ ⟨⟩) (by rintro _ _ _ ⟨⟩)
    cases t with
    | none => exact h.same hframe rfl rfl
    | some t => exact h.same hframe rfl rfl
  | _ => exact h

section Environment

/-- A change that neither the queue nor its deliveries see. -/
structure Calm (w w' : World) : Prop where
  frame : Frame w w'
  log : ∀ e ∈ w'.log, e ∈ w.log ∨ ∃ k n t, e = .submitted k n t
  items : w'.items = w.items
  deliveries : w'.deliveries = w.deliveries
  next : w.nextCopy ≤ w'.nextCopy

theorem Calm.silent (hlog : w'.log = w.log) (htasks : w'.tasks = w.tasks)
    (hseq : w'.itemSeq = w.itemSeq) (hitems : w'.items = w.items)
    (hdeliveries : w'.deliveries = w.deliveries) (hnext : w.nextCopy ≤ w'.nextCopy) :
    Calm w w' where
  frame := .silent hlog htasks hseq (hitems ▸ same_items)
  log _ he := Or.inl (hlog ▸ he)
  items := hitems
  deliveries := hdeliveries
  next := hnext

theorem QueueInv.calm (h : QueueInv q w) (hc : Calm w w') : QueueInv q w' := by
  refine h.frame hc.frame (hc.items ▸ h.distinct) ?_ ?_ ?_ ?_
  · intro n m clock hmem
    rcases hc.log _ hmem with hmem | ⟨_, _, _, heq⟩
    · exact h.loads hmem
    · cases heq
  · intro n err id hmem
    rcases hc.log _ hmem with hmem | ⟨_, _, _, heq⟩
    · exact h.returned hmem
    · cases heq
  · rw [hc.deliveries]
    exact fun d hd => ⟨d, hd, rfl, rfl⟩
  · rw [hc.deliveries]
    intro d hd
    exact ⟨Nat.lt_of_lt_of_le (h.holders d hd).1 hc.next, (h.holders d hd).2⟩

theorem Covering.calm (h : Covering q w) (hc : Calm w w') : Covering q w' :=
  h.same hc.frame hc.items hc.deliveries

structure Delivers (q : Queue) (w : World) (i : WorkItem) (w' : World) : Prop where
  mem : i ∈ w.items
  left : (i.delivered : Int) < q.maxTries
  log : w'.log = w.log
  tasks : w'.tasks = w.tasks
  itemSeq : w'.itemSeq = w.itemSeq
  items : ∃ available, w'.items = w.items.map fun j => if j.queue = i.queue ∧ j.seq = i.seq then
    { j with delivered := j.delivered + 1, availableAt := available } else j
  deliveries : w'.deliveries = ⟨w.nextCopy, i.id, i.queue, i.seq, i.delivered + 1⟩ :: w.deliveries
  next : w'.nextCopy = w.nextCopy + 1

namespace Delivers

variable {i : WorkItem}

theorem continues (h : Delivers q w i w') : ∀ j' ∈ w'.items, ∃ j ∈ w.items, j.Continues j' := by
  obtain ⟨available, hitems⟩ := h.items
  intro j' hj'
  rw [hitems] at hj'
  obtain ⟨j, hj, rfl⟩ := List.mem_map.mp hj'
  refine ⟨j, hj, ?_⟩
  split_ifs
  · exact ⟨rfl, rfl, rfl, Nat.le_succ _⟩
  · exact .refl j

theorem frame (h : Delivers q w i w') : Frame w w' :=
  .silent h.log h.tasks h.itemSeq h.continues

/-- Only the delivered item has the sequence of the delivery, and it counts the delivery. -/
theorem counts (h : Delivers q w i w') (hq : QueueInv q w) :
    ∀ j' ∈ w'.items, j'.seq = i.seq → j'.delivered = i.delivered + 1 := by
  obtain ⟨available, hitems⟩ := h.items
  intro j' hj' hseq
  rw [hitems] at hj'
  obtain ⟨j, hj, rfl⟩ := List.mem_map.mp hj'
  have hjseq : j.seq = i.seq := by
    split_ifs at hseq
    · exact hseq
    · exact hseq
  have hji := hq.single_seq hj h.mem hjseq
  subst hji
  rw [if_pos ⟨rfl, rfl⟩]

theorem queueInv (h : Delivers q w i w') (hq : QueueInv q w) : QueueInv q w' where
  distinct := by
    obtain ⟨available, hitems⟩ := h.items
    rw [hitems]
    refine distinct_map (fun j => ?_) hq.distinct
    split_ifs <;> rfl
  latest j' hj' := by
    obtain ⟨j, hj, hc⟩ := h.continues j' hj'
    rw [h.log, ← hc.id, ← hc.seq]
    exact hq.latest j hj
  inQueue j' hj' := by
    obtain ⟨j, hj, hc⟩ := h.continues j' hj'
    rw [← hc.queue]
    exact hq.inQueue j hj
  issued := by
    rw [h.log, h.itemSeq]
    exact hq.issued
  unique := by
    rw [h.log]
    exact hq.unique
  loads := by
    rw [h.log]
    exact hq.loads
  returned := by
    rw [h.log]
    exact hq.returned
  delivered d hd := by
    rw [h.deliveries] at hd
    rw [h.log]
    rcases List.mem_cons.mp hd with rfl | hd
    · refine ⟨lastItem_issued (hq.latest i h.mem), hq.inQueue i h.mem, ?_⟩
      intro j' hj' hseq
      exact Nat.le_of_eq (h.counts hq j' hj' hseq).symm
    · obtain ⟨hissued, hqueue, hcount⟩ := hq.delivered d hd
      refine ⟨hissued, hqueue, ?_⟩
      intro j' hj' hseq
      obtain ⟨j, hj, hc⟩ := h.continues j' hj'
      exact Nat.le_trans (hcount j hj (hc.seq.trans hseq)) hc.delivered
  holders d hd := by
    rw [h.deliveries] at hd ⊢
    rw [h.next]
    rcases List.mem_cons.mp hd with rfl | hd
    · refine ⟨Nat.lt_succ_self _, ?_⟩
      intro d' hd' heq
      rcases List.mem_cons.mp hd' with rfl | hd'
      · rfl
      · exact absurd heq (Nat.ne_of_lt (hq.holders d' hd').1)
    · obtain ⟨hlt, hsame⟩ := hq.holders d hd
      refine ⟨Nat.lt_succ_of_lt hlt, ?_⟩
      intro d' hd' heq
      rcases List.mem_cons.mp hd' with rfl | hd'
      · exact absurd heq.symm (Nat.ne_of_lt hlt)
      · exact hsame d' hd' heq

/-- An item that has now used its attempts is in the delivery that was just made. -/
theorem covering (h : Delivers q w i w') (hq : QueueInv q w) (hc : Covering q w) :
    Covering q w' := by
  have hstored : ∀ id, w'.stored id = w.stored id := h.frame.stored
  obtain ⟨available, hitems⟩ := h.items
  constructor
  · intro j' hj' hmax m hm henq
    rw [hstored] at hm
    rw [h.log, h.deliveries]
    rw [hitems] at hj'
    obtain ⟨j, hj, rfl⟩ := List.mem_map.mp hj'
    split_ifs at hmax hm ⊢ with hsame
    · have hji := hq.single_seq hj h.mem hsame.2
      subst hji
      exact Or.inr ⟨_, List.mem_cons_self .., rfl, rfl, hmax⟩
    · rcases hc.exhausted j hj hmax m hm henq with hpending | ⟨d, hd, hcover⟩
      · exact Or.inl hpending
      · exact Or.inr ⟨d, List.mem_cons_of_mem _ hd, hcover⟩
  · intro id m hm henq
    rw [hstored] at hm
    rw [h.log, hitems]
    rcases hc.present id m hm henq with hpending | ⟨j, hj, rfl⟩
    · exact Or.inl hpending
    · refine Or.inr ⟨_, List.mem_map.mpr ⟨j, hj, rfl⟩, ?_⟩
      split_ifs <;> rfl

end Delivers

end Environment

end AsyncJobs
