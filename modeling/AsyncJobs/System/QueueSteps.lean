import AsyncJobs.System.Settlement

/-!
# The queue stays in order

Every successful request keeps `QueueInv`, and what is settled or spent.
-/

namespace AsyncJobs

open Interaction

variable {q : Queue} {tag : Tag} {w w' : World}

theorem QueueInv.init (q : Queue) (start : Int) : QueueInv q (World.init start) := by
  refine ⟨.nil, ?_, ?_, ?_, ?_, ?_, ?_, ?_, ?_⟩ <;> intros <;> simp_all [World.init]

theorem HealthyEffect.kept {c : Call} {r : c.Reply} (h : HealthyEffect q tag w c r w')
    (hq : QueueInv q w) (hinv : w'.Inv) (hp : QueuePermit q tag w c) : Kept q w w' := by
  by_cases hsave : ∃ t, c = .publishTask t
  · obtain ⟨t, rfl⟩ := hsave
    cases h with
    | save accepted kept => exact kept_store hq hinv hp kept
  · by_cases hqueue : ∃ queue id msgID, c = .publishItem queue id msgID
    · obtain ⟨queue, id, msgID, rfl⟩ := hqueue
      cases h with
      | queue => exact kept_putItem hp
    · refine (h.frame ?_ ?_).kept q
      · rintro t rfl
        exact hsave ⟨t, rfl⟩
      · rintro queue id msgID rfl
        exact hqueue ⟨queue, id, msgID, rfl⟩

theorem QueueInv.single_seq (h : QueueInv q w) {i j : WorkItem} (hi : i ∈ w.items)
    (hj : j ∈ w.items) (hseq : i.seq = j.seq) : i = j := by
  obtain ⟨n, queue, hpub⟩ := lastItem_issued (h.latest i hi)
  obtain ⟨n', queue', hpub'⟩ := lastItem_issued (h.latest j hj)
  rw [hseq] at hpub
  exact h.single hi hj (h.unique hpub hpub')

theorem QueueInv.frame (h : QueueInv q w) (f : Frame w w')
    (hdistinct : w'.items.Pairwise fun a b => a.id ≠ b.id)
    (hloads : ∀ {n m clock}, Event.read n .worker .task m clock ∈ w'.log →
      m.task.state ≠ .terminated)
    (hreturned : ∀ {n err id}, Event.returned n err ∈ w'.log → lastSubmit id w.log = some n →
      ∃ queue id' seq, Event.published n queue id' seq ∈ w.log)
    (hdeliveries : ∀ d' ∈ w'.deliveries, ∃ d ∈ w.deliveries, d.id = d'.id ∧ d.msg = d'.msg)
    (hholders : ∀ d ∈ w'.deliveries, d.holder < w'.nextCopy ∧
      ∀ d' ∈ w'.deliveries, d'.holder = d.holder → d' = d) : QueueInv q w' where
  distinct := hdistinct
  latest i' hi' := by
    obtain ⟨i, hi, hc⟩ := f.items i' hi'
    rw [f.last, ← hc.id, ← hc.seq]
    exact h.latest i hi
  inQueue i' hi' := by
    obtain ⟨i, hi, hc⟩ := f.items i' hi'
    rw [← hc.queue]
    exact h.inQueue i hi
  issued hpub := by
    rw [f.itemSeq]
    exact h.issued ((f.published _ _ _ _).mp hpub)
  unique hpub hpub' := h.unique ((f.published _ _ _ _).mp hpub) ((f.published _ _ _ _).mp hpub')
  loads := hloads
  returned hret hlast := by
    rw [f.submit] at hlast
    obtain ⟨queue, id', seq, hpub⟩ := hreturned hret hlast
    exact ⟨queue, id', seq, (f.published _ _ _ _).mpr hpub⟩
  delivered d' hd' := by
    obtain ⟨d, hd, hid, hmsg⟩ := hdeliveries d' hd'
    obtain ⟨⟨n, queue, hpub⟩, hqueue, hcount⟩ := h.delivered d hd
    rw [← hid, ← hmsg]
    refine ⟨⟨n, queue, (f.published _ _ _ _).mpr hpub⟩, hqueue, ?_⟩
    intro i' hi' hseq
    obtain ⟨i, hi, hc⟩ := f.items i' hi'
    exact Nat.le_trans (hcount i hi (hc.seq.trans hseq)) hc.delivered
  holders := hholders

theorem QueueInv.loads_cons (h : QueueInv q w) {e : Event}
    (he : ∀ n m clock, e = .read n .worker .task m clock → m.task.state ≠ .terminated) :
    ∀ {n m clock}, Event.read n .worker .task m clock ∈ e :: w.log →
      m.task.state ≠ .terminated := by
  intro n m clock hmem
  rcases List.mem_cons.mp hmem with heq | hmem
  · exact he n m clock heq.symm
  · exact h.loads hmem

theorem QueueInv.returned_cons (h : QueueInv q w) {e : Event}
    (he : ∀ n err id, e = .returned n err → lastSubmit id w.log = some n →
      ∃ queue id' seq, Event.published n queue id' seq ∈ w.log) :
    ∀ {n err id}, Event.returned n err ∈ e :: w.log → lastSubmit id w.log = some n →
      ∃ queue id' seq, Event.published n queue id' seq ∈ w.log := by
  intro n err id hmem hlast
  rcases List.mem_cons.mp hmem with heq | hmem
  · exact he n err id heq.symm hlast
  · exact h.returned hmem hlast

theorem Role.worker_of_writer {role : Role} (h : role.writer = .worker) :
    ∃ p item, role = .worker p item := by
  cases role with
  | worker p item => exact ⟨p, item, rfl⟩
  | _ => cases h

theorem QueueInv.routine (h : QueueInv q w) {e : Event} (hlog : w'.log = e :: w.log)
    (he : e.steady = true)
    (hread : ∀ n m clock, e = .read n .worker .task m clock → m.task.state ≠ .terminated)
    (hreturned : ∀ n err id, e = .returned n err → lastSubmit id w.log = some n →
      ∃ queue id' seq, Event.published n queue id' seq ∈ w.log)
    (htasks : w'.tasks = w.tasks) (hseq : w'.itemSeq = w.itemSeq)
    (hitems : ∀ i' ∈ w'.items, ∃ i ∈ w.items, i.Continues i')
    (hdistinct : w'.items.Pairwise fun a b => a.id ≠ b.id)
    (hdeliveries : w'.deliveries = w.deliveries) (hnext : w.nextCopy ≤ w'.nextCopy) :
    QueueInv q w' := by
  refine h.frame (.cons hlog he htasks hseq hitems) hdistinct ?_ ?_ ?_ ?_
  · rw [hlog]
    exact h.loads_cons hread
  · rw [hlog]
    exact h.returned_cons hreturned
  · rw [hdeliveries]
    exact fun d hd => ⟨d, hd, rfl, rfl⟩
  · rw [hdeliveries]
    intro d hd
    exact ⟨Nat.lt_of_lt_of_le (h.holders d hd).1 hnext, (h.holders d hd).2⟩

theorem QueueInv.store (h : QueueInv q w) {t : Copy}
    (hp : QueuePermit q tag w (.publishTask t)) :
    QueueInv q (w.store tag.holder tag.role.writer t true) where
  distinct := h.distinct
  latest i hi := (lastItem_cons (by rintro _ _ _ _ ⟨⟩)).trans (h.latest i hi)
  inQueue := h.inQueue
  issued hpub := h.issued ((published_cons (by rintro ⟨⟩)).mp hpub)
  unique hpub hpub' := h.unique ((published_cons (by rintro ⟨⟩)).mp hpub)
    ((published_cons (by rintro ⟨⟩)).mp hpub')
  loads := h.loads_cons (by rintro _ _ _ ⟨⟩)
  returned {n err id} hret hlast := by
    rcases List.mem_cons.mp hret with heq | hret
    · cases heq
    · by_cases hs : tag.role.writer.submits = true ∧ t.id = id
      · have hn : tag.holder = n := by
          have hself := hlast.symm.trans (if_pos hs)
          cases hself
          rfl
        exact absurd (hn ▸ hret) ((hp hs.1).2 err)
      · obtain ⟨queue, id', seq, hpub⟩ := h.returned hret ((if_neg hs).symm.trans hlast)
        exact ⟨queue, id', seq, List.mem_cons_of_mem _ hpub⟩
  delivered d hd := by
    obtain ⟨hissued, hrest⟩ := h.delivered d hd
    exact ⟨hissued.append [_], hrest⟩
  holders := h.holders

theorem QueueInv.putItem (h : QueueInv q w) (n : Nat) (id : String) (msgID : Option String) :
    QueueInv q (w.putItem n q.name id msgID) where
  distinct := by
    refine List.pairwise_cons.mpr ⟨?_, h.distinct.filter _⟩
    intro i hi hid
    obtain ⟨hmem, hne⟩ := List.mem_filter.mp hi
    exact of_decide_eq_true hne ⟨h.inQueue i hmem, hid.symm⟩
  latest i hi := by
    show (if id = i.id then some (w.itemSeq + 1) else lastItem i.id w.log) = _
    rcases List.mem_cons.mp hi with rfl | hi
    · rw [if_pos rfl]
    · obtain ⟨hmem, hne⟩ := List.mem_filter.mp hi
      have hid : id ≠ i.id := by
        intro hid
        exact of_decide_eq_true hne ⟨h.inQueue i hmem, hid.symm⟩
      rw [if_neg hid]
      exact h.latest i hmem
  inQueue i hi := by
    rcases List.mem_cons.mp hi with rfl | hi
    · rfl
    · exact h.inQueue i (List.mem_of_mem_filter hi)
  issued hpub := by
    rcases List.mem_cons.mp hpub with heq | hpub
    · cases heq
      exact Nat.le_refl _
    · exact Nat.le_succ_of_le (h.issued hpub)
  unique hpub hpub' := by
    rcases List.mem_cons.mp hpub with heq | hpub
    · rcases List.mem_cons.mp hpub' with heq' | hpub'
      · cases heq
        cases heq'
        rfl
      · cases heq
        have hle := h.issued hpub'
        omega
    · rcases List.mem_cons.mp hpub' with heq' | hpub'
      · cases heq'
        have hle := h.issued hpub
        omega
      · exact h.unique hpub hpub'
  loads := h.loads_cons (by rintro _ _ _ ⟨⟩)
  returned hret hlast := by
    rcases List.mem_cons.mp hret with heq | hret
    · cases heq
    · obtain ⟨queue, id', seq, hpub⟩ := h.returned hret hlast
      exact ⟨queue, id', seq, List.mem_cons_of_mem _ hpub⟩
  delivered d hd := by
    obtain ⟨⟨k, queue, hpub⟩, hqueue, hcount⟩ := h.delivered d hd
    refine ⟨⟨k, queue, List.mem_cons_of_mem _ hpub⟩, hqueue, ?_⟩
    intro i hi hseq
    rcases List.mem_cons.mp hi with rfl | hi
    · have hle := h.issued hpub
      simp only at hseq
      omega
    · exact hcount i (List.mem_of_mem_filter hi) hseq
  holders := h.holders

theorem QueueInv.beginHandler (h : QueueInv q w) (n : Nat) (t : Copy) (item : ProcessItem) :
    QueueInv q (w.beginHandler n t item) := by
  refine h.frame (.cons rfl rfl rfl rfl same_items) h.distinct (h.loads_cons (by rintro _ _ _ ⟨⟩))
    (h.returned_cons (by rintro _ _ _ ⟨⟩)) ?_ ?_
  · intro d' hd'
    obtain ⟨d, hd, rfl⟩ := List.mem_map.mp hd'
    refine ⟨d, hd, ?_⟩
    split_ifs <;> exact ⟨rfl, rfl⟩
  · intro d' hd'
    obtain ⟨d, hd, rfl⟩ := List.mem_map.mp hd'
    obtain ⟨hlt, hsame⟩ := h.holders d hd
    refine ⟨?_, ?_⟩
    · show _ < w.nextCopy + 1
      split_ifs
      · exact Nat.lt_succ_self _
      · exact Nat.lt_succ_of_lt hlt
    · intro e' he' heq
      obtain ⟨e, he, rfl⟩ := List.mem_map.mp he'
      have hlt' := (h.holders e he).1
      by_cases hd : d.holder = n
      · by_cases he : e.holder = n
        · rw [hsame e ‹_› (he.trans hd.symm)]
        · simp only [if_pos hd, if_neg he] at heq
          omega
      · by_cases he : e.holder = n
        · simp only [if_pos he, if_neg hd] at heq
          omega
        · simp only [if_neg hd, if_neg he] at heq ⊢
          exact hsame e ‹_› heq

theorem QueueInv.effect (h : QueueInv q w) {c : Call} {r : c.Reply}
    (he : HealthyEffect q tag w c r w') (hp : QueuePermit q tag w c) : QueueInv q w' := by
  cases he with
  | @read use id m found kept =>
    refine h.routine rfl rfl ?_ (by rintro _ _ _ ⟨⟩) rfl rfl same_items h.distinct rfl
      (Nat.le_refl _)
    intro n m' clock heq
    injection heq with _ hwriter huse hm _
    obtain ⟨p, item, hrole⟩ := Role.worker_of_writer hwriter
    rw [hrole, huse] at kept
    simp only [World.keepsAttempts, found, decide_eq_true_eq] at kept
    exact hm ▸ kept.2
  | save accepted kept => exact h.store hp
  | queue id msgID => exact h.putItem _ id msgID
  | ack msg =>
    exact h.routine rfl rfl (by rintro _ _ _ ⟨⟩) (by rintro _ _ _ ⟨⟩) rfl rfl kept_items
      (h.distinct.filter _) rfl (Nat.le_refl _)
  | term msg kept =>
    exact h.routine rfl rfl (by rintro _ _ _ ⟨⟩) (by rintro _ _ _ ⟨⟩) rfl rfl kept_items
      (h.distinct.filter _) rfl (Nat.le_refl _)
  | nak msg delay kept =>
    refine h.frame (.silent rfl rfl rfl (delayed_items msg delay)) (distinct_map ?_ h.distinct)
      h.loads h.returned (fun d hd => ⟨d, hd, rfl, rfl⟩) h.holders
    intro i
    split_ifs <;> rfl
  | start t item => exact h.beginHandler _ t item
  | release =>
    refine h.frame (.silent rfl rfl rfl same_items) h.distinct h.loads h.returned
      (fun d hd => ⟨d, List.mem_of_mem_filter hd, rfl, rfl⟩) ?_
    intro d hd
    obtain ⟨hlt, hsame⟩ := h.holders d (List.mem_of_mem_filter hd)
    exact ⟨hlt, fun d' hd' => hsame d' (List.mem_of_mem_filter hd')⟩
  | done t err =>
    have hreturned : QueueInv q (w.note (.returned tag.holder err)) := by
      refine h.routine rfl rfl (by rintro _ _ _ ⟨⟩) ?_ rfl rfl same_items h.distinct rfl
        (Nat.le_refl _)
      rintro n err' id heq hlast
      cases heq
      exact hp id hlast
    cases t with
    | none => exact hreturned
    | some t =>
      exact hreturned.routine rfl rfl (by rintro _ _ _ ⟨⟩) (by rintro _ _ _ ⟨⟩) rfl rfl same_items
        h.distinct rfl (Nat.le_succ _)
  | _ => exact h

end AsyncJobs
