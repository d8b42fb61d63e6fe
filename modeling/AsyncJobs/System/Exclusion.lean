import AsyncJobs.System.Leases
import AsyncJobs.System.Revisions

/-!
# One handler at a time

An item is handed out again only after its lease ended, so as long as a task has one item, one
thread at most can run its handler. `EnqueueTask` and `RetryTaskByID` publish a new item, which
nobody has leased. When they do so while a worker or a handler still holds a lease on the task,
two handlers can run at the same time; when they do not, there is never more than one.
-/

namespace AsyncJobs

open Interaction

namespace Leased

variable {s s' : Leased} {id : String} {a : Action} {cfg' : Config}

/-- The system is sound, and the handlers run within their leases. -/
structure Sound (s : Leased) : Prop where
  config : s.cfg.Inv
  accounted : s.cfg.Accounted
  named : s.cfg.Named
  inTime : s.handlersInTime = true

/-- The task has one item, every lease on the task is a lease on that item, and one thread at
most has such a lease. -/
structure Exclusive (id : String) (s : Leased) : Prop where
  sound : s.Sound
  oneItem : ∀ i ∈ s.cfg.world.items, ∀ j ∈ s.cfg.world.items, i.id = id → j.id = id →
    i.queue = j.queue ∧ i.seq = j.seq
  given : ∀ th ∈ s.cfg.threads, s.holds id th = true →
    ∀ i ∈ s.cfg.world.items, i.id = id → worksOn th i = true
  one : ∀ x ∈ s.cfg.threads, ∀ y ∈ s.cfg.threads, s.holds id x = true → s.holds id y = true →
    x.tag.holder = y.tag.holder

theorem Exclusive.init (id : String) (start : Int) : Exclusive id (Leased.init start) where
  sound := ⟨Config.Inv.init start, Config.Accounted.init start, Config.Named.init start, rfl⟩
  oneItem := by
    intro i hi
    cases hi
  given := by
    intro th hth
    cases hth
  one := by
    intro x hx
    cases hx

theorem Exclusive.items_continue (h : Exclusive id s) {items : List WorkItem}
    (hitems : ∀ i' ∈ items, i'.id = id → ∃ i ∈ s.cfg.world.items, i.Continues i') :
    ∀ i ∈ items, ∀ j ∈ items, i.id = id → j.id = id → i.queue = j.queue ∧ i.seq = j.seq := by
  intro i' hi' j' hj' hid hjd
  obtain ⟨i, hi, hsame⟩ := hitems i' hi' hid
  obtain ⟨j, hj, hsame'⟩ := hitems j' hj' hjd
  have heq := h.oneItem i hi j hj (hsame.id.trans hid) (hsame'.id.trans hjd)
  rwa [hsame.queue, hsame.seq, hsame'.queue, hsame'.seq] at heq

theorem worksOn_continues {th before : Thread jobs Tag}
    (htag : before.tag.role.item = th.tag.role.item) {i i' : WorkItem} (hsame : i.Continues i')
    (h : worksOn before i = true) : worksOn th i' = true := by
  unfold worksOn at h ⊢
  rwa [← htag, ← hsame.queue, ← hsame.seq]

/-- No item of the task appears, and every lease was held before on the same item. -/
theorem Exclusive.transfer (h : Exclusive id s) (hsound : s'.Sound)
    (hitems : ∀ i' ∈ s'.cfg.world.items, i'.id = id → ∃ i ∈ s.cfg.world.items, i.Continues i')
    (hsource : ∀ th ∈ s'.cfg.threads, s'.holds id th = true →
      ∃ before ∈ s.cfg.threads, before.tag.role.item = th.tag.role.item ∧
        s.holds id before = true)
    (hone : ∀ x ∈ s'.cfg.threads, ∀ y ∈ s'.cfg.threads, s'.holds id x = true →
      s'.holds id y = true → x.tag.holder = y.tag.holder) : Exclusive id s' where
  sound := hsound
  oneItem := h.items_continue hitems
  given th hth hholds i' hi' hid := by
    obtain ⟨before, hbefore, htag, hheld⟩ := hsource th hth hholds
    obtain ⟨i, hi, hsame⟩ := hitems i' hi' hid
    exact worksOn_continues htag hsame (h.given before hbefore hheld i hi (hsame.id.trans hid))
  one := hone

theorem Exclusive.shrinks (h : Exclusive id s) (hsound : s'.Sound)
    (hitems : ∀ i' ∈ s'.cfg.world.items, i'.id = id → ∃ i ∈ s.cfg.world.items, i.Continues i')
    (hheld : ∀ th ∈ s'.cfg.threads, s'.holds id th = true →
      ∃ before ∈ s.cfg.threads, before.tag = th.tag ∧ s.holds id before = true) :
    Exclusive id s' := by
  apply h.transfer hsound hitems
  · intro th hth hholds
    obtain ⟨before, hbefore, htag, hbefore'⟩ := hheld th hth hholds
    exact ⟨before, hbefore, by rw [htag], hbefore'⟩
  · intro x hx y hy hxh hyh
    obtain ⟨before, hbefore, htag, hbefore'⟩ := hheld x hx hxh
    obtain ⟨other, hother, htag', hother'⟩ := hheld y hy hyh
    rw [← htag, ← htag']
    exact h.one before hbefore other hother hbefore' hother'

/-- The action neither hands out an item nor starts a handler, so it gives nobody a lease. -/
structure Passive (s : Leased) (a : Action) : Prop where
  delivers : ∀ p id, a ≠ .deliver p id
  starts : ∀ i o tag t item, a = .run i o → s.cfg.nextCall i ≠ some (tag, .goHandle t item)

theorem Passive.run {i : Nat} {o : Outcome} {tag : Tag} {c : Call}
    (hcall : s.cfg.nextCall i = some (tag, c)) (hc : ∀ t item, c ≠ .goHandle t item) :
    s.Passive (.run i o) := by
  constructor
  · intro p id ha
    cases ha
  · intro i' o' tag' t item ha hcall'
    cases ha
    rw [hcall] at hcall'
    cases hcall'
    exact hc t item rfl

theorem Passive.held_before (h : s.Passive a) (hsound : s.Sound) (hs : Config.Step s.cfg a cfg')
    {th : Thread jobs Tag} (hth : th ∈ cfg'.threads)
    (hholds : holds ⟨cfg', s.leaseAfter a⟩ id th = true) :
    ∃ before ∈ s.cfg.threads, before.tag = th.tag ∧ s.holds id before = true := by
  rcases Leased.held_before hsound.config hsound.accounted hs hth hholds with
    hbefore | ⟨-, hopened⟩
  · exact hbefore
  · obtain ⟨-, ⟨item, hitem, -⟩, -⟩ := holds_iff.mp hholds
    rcases hopened.with_item hitem with ⟨p, id', msg, ha, -⟩ | ⟨i, o, n, p, given, t, ha, hcall, -⟩
    · exact absurd ha (h.delivers p id')
    · exact absurd hcall (h.starts i o _ t item ha)

theorem Exclusive.passive (h : Exclusive id s) (hpassive : s.Passive a)
    (hs : Config.Step s.cfg a cfg') (hsound : Sound ⟨cfg', s.leaseAfter a⟩)
    (hitems : ∀ i' ∈ cfg'.world.items, i'.id = id → ∃ i ∈ s.cfg.world.items, i.Continues i') :
    Exclusive id ⟨cfg', s.leaseAfter a⟩ := by
  apply h.shrinks hsound hitems
  intro th hth hholds
  exact hpassive.held_before h.sound hs hth hholds

section Deliver

variable {p : Processor} {i : WorkItem} {role : Role}

/-- After a delivery a lease is held by the new worker or by a thread that had it before. -/
theorem deliver_held (h : s.Sound) (hcfg : cfg' = s.cfg.spawn (s.cfg.handOut p i) role)
    {th : Thread jobs Tag} (hth : th ∈ cfg'.threads)
    (hholds : holds ⟨cfg', s.leaseAfter (.deliver p i.id)⟩ id th = true) :
    (th ∈ s.cfg.threads ∧ s.holds id th = true) ∨ th.tag = ⟨s.cfg.world.nextCopy, role⟩ := by
  obtain ⟨hmay, hjob, hlease⟩ := holds_iff.mp hholds
  rw [hcfg] at hth hlease
  rcases List.mem_append.mp hth with hth | hth
  · left
    have hbefore := lease_before (a := .deliver p i.id) (h.config.fresh th hth) hlease
    exact ⟨hth, holds_iff.mpr ⟨hmay, hjob, hbefore⟩⟩
  · rw [List.mem_singleton.mp hth]
    exact Or.inr rfl

theorem Exclusive.lease_ended (h : Exclusive i.id s) (found : i ∈ s.cfg.world.items)
    (queue : i.queue = p.queue.name)
    (hended : s.redeliversInTime (.act (.deliver p i.id)) = true) {th : Thread jobs Tag}
    (hth : th ∈ s.cfg.threads) : ¬ s.holds i.id th = true := by
  intro hheld
  obtain ⟨hmay, -, hlease⟩ := holds_iff.mp hheld
  have hworks := h.given th hth hheld i found rfl
  rcases of_decide_eq_true (List.all_eq_true.mp hended i found) with hother | hall
  · exact absurd ⟨queue, rfl⟩ hother
  · rcases of_decide_eq_true (List.all_eq_true.mp hall th hth) with hidle | hover
    · exact absurd ⟨hmay, hworks⟩ hidle
    · omega

/-- A delivery: whoever had a lease on the task had it on this item, and it has ended. -/
theorem Exclusive.deliver (h : Exclusive id s)
    (found : i ∈ s.cfg.world.items) (queue : i.queue = p.queue.name)
    (hrole : role = .worker p ⟨i.id, some (Config.messageOf i)⟩)
    (hcfg : cfg' = s.cfg.spawn (s.cfg.handOut p i) role)
    (hsound : Sound ⟨cfg', s.leaseAfter (.deliver p i.id)⟩)
    (hended : s.redeliversInTime (.act (.deliver p i.id)) = true) :
    Exclusive id ⟨cfg', s.leaseAfter (.deliver p i.id)⟩ := by
  have hitem : role.item = some ⟨i.id, some (Config.messageOf i)⟩ := by
    rw [hrole]
    rfl
  have hitems : ∀ j' ∈ cfg'.world.items, j'.id = id →
      ∃ j ∈ s.cfg.world.items, j.Continues j' := by
    rw [hcfg]
    exact fun j' hj' _ => Config.handOut_items j' hj'
  by_cases hid : i.id = id
  · subst hid
    have hnew : ∀ th ∈ cfg'.threads,
        holds ⟨cfg', s.leaseAfter (.deliver p i.id)⟩ i.id th = true →
          th.tag = ⟨s.cfg.world.nextCopy, role⟩ := by
      intro th hth hholds
      rcases deliver_held h.sound hcfg hth hholds with ⟨hth, hheld⟩ | htag
      · exact absurd hheld (h.lease_ended found queue hended hth)
      · exact htag
    refine ⟨hsound, h.items_continue hitems, ?_, ?_⟩
    · intro th hth hholds j' hj' hjd
      obtain ⟨j, hj, hsame⟩ := hitems j' hj' hjd
      obtain ⟨hq, hseq⟩ := h.oneItem i found j hj rfl (hsame.id.trans hjd)
      simp [worksOn, hnew th hth hholds, hitem, Config.messageOf, hq, hseq, hsame.queue, hsame.seq]
    · intro x hx y hy hxh hyh
      rw [hnew x hx hxh, hnew y hy hyh]
  · apply h.shrinks hsound hitems
    intro th hth hholds
    rcases deliver_held h.sound hcfg hth hholds with ⟨hth, hheld⟩ | htag
    · exact ⟨th, hth, rfl, hheld⟩
    · obtain ⟨-, ⟨item, hgiven, hjob⟩, -⟩ := holds_iff.mp hholds
      rw [htag, hitem] at hgiven
      cases hgiven
      exact absurd hjob hid

end Deliver

section Start

variable {i n : Nat} {p : Processor} {given item : ProcessItem} {t : Copy}
  {k : (Call.goHandle t item).Reply → Job Unit}

/-- After the start of a handler the worker has no lease, and the handler has the one that the
worker had. -/
theorem start_held (h : s.Sound)
    (hget : s.cfg.threads[i]? = some ⟨⟨n, .worker p given⟩, .call (.goHandle t item) k⟩)
    (hs : Config.Step s.cfg (.run i .ok) cfg') {th : Thread jobs Tag} (hth : th ∈ cfg'.threads)
    (hholds : holds ⟨cfg', s.leaseAfter (.run i .ok)⟩ id th = true) :
    (∃ before ∈ s.cfg.threads, before.tag = th.tag ∧ s.holds id before = true ∧
      th.tag.holder ≠ n) ∨
    (th.tag.holder = s.cfg.world.nextCopy ∧ th.tag.role.item = some given ∧
      s.holds id ⟨⟨n, .worker p given⟩, .call (.goHandle t item) k⟩ = true) := by
  have hmem := List.mem_of_getElem? hget
  have hcall : s.cfg.nextCall i = some (⟨n, .worker p given⟩, .goHandle t item) := by
    simp only [Config.nextCall, hget]
  have hgiven : item = given := (h.accounted.threads _ hmem).sends.1
  have hn : n < s.cfg.world.nextCopy := h.config.fresh _ hmem
  have hlease : s.leaseAfter (.run i .ok) = Function.update
      (Function.update s.lease s.cfg.world.nextCopy (s.lease n)) n s.cfg.world.clock := by
    simp only [leaseAfter, hcall, leaseAfterCall]
  obtain ⟨-, ⟨item', hitem, hjob⟩, hheld⟩ := holds_iff.mp hholds
  have hheld : s.cfg.world.clock < s.leaseAfter (.run i .ok) th.tag.holder :=
    Int.lt_of_le_of_lt hs.clock_le hheld
  rcases held_before h.config h.accounted hs hth hholds with
    ⟨before, hbefore, htag, hheld'⟩ | ⟨hholder, hopened⟩
  · refine Or.inl ⟨before, hbefore, htag, hheld', ?_⟩
    intro heq
    rw [hlease, heq, Function.update_self] at hheld
    omega
  · rcases hopened.with_item hitem with ⟨_, _, _, ha, -⟩ | ⟨_, _, _, _, _, _, ha, hcall', -⟩
    · cases ha
    · cases ha
      rw [hcall] at hcall'
      cases hcall'
      rw [hlease, hholder, Function.update_of_ne (Nat.ne_of_gt hn), Function.update_self] at hheld
      subst hgiven
      exact Or.inr ⟨hholder, hitem, holds_iff.mpr ⟨rfl, ⟨item, rfl, hjob⟩, hheld⟩⟩

theorem Exclusive.start (h : Exclusive id s)
    (hget : s.cfg.threads[i]? = some ⟨⟨n, .worker p given⟩, .call (.goHandle t item) k⟩)
    (hs : Config.Step s.cfg (.run i .ok) cfg') (hsound : Sound ⟨cfg', s.leaseAfter (.run i .ok)⟩)
    (hitems : ∀ i' ∈ cfg'.world.items, i'.id = id → ∃ i ∈ s.cfg.world.items, i.Continues i') :
    Exclusive id ⟨cfg', s.leaseAfter (.run i .ok)⟩ := by
  have hmem := List.mem_of_getElem? hget
  apply h.transfer hsound hitems
  · intro th hth hholds
    rcases start_held h.sound hget hs hth hholds with
      ⟨before, hbefore, htag, hheld, -⟩ | ⟨-, hitem, hheld⟩
    · exact ⟨before, hbefore, by rw [htag], hheld⟩
    · exact ⟨_, hmem, hitem.symm, hheld⟩
  · intro x hx y hy hxh hyh
    -- the worker had the only lease, so the handler and an older thread do not both hold one
    have hapart : ∀ before ∈ s.cfg.threads, s.holds id before = true → before.tag.holder ≠ n →
        s.holds id ⟨⟨n, .worker p given⟩, .call (.goHandle t item) k⟩ = true → False := by
      intro before hbefore hheld hne hworker
      exact hne (h.one before hbefore _ hmem hheld hworker)
    rcases start_held h.sound hget hs hx hxh with
      ⟨before, hbefore, htag, hheld, hne⟩ | ⟨hxn, -, hworker⟩
    · rcases start_held h.sound hget hs hy hyh with
        ⟨other, hother, htag', hheld', -⟩ | ⟨-, -, hworker⟩
      · rw [← htag, ← htag']
        exact h.one before hbefore other hother hheld hheld'
      · exact (hapart before hbefore hheld (htag ▸ hne) hworker).elim
    · rcases start_held h.sound hget hs hy hyh with
        ⟨other, hother, htag', hheld', hne⟩ | ⟨hyn, -, -⟩
      · exact (hapart other hother hheld' (htag' ▸ hne) hworker).elim
      · rw [hxn, hyn]

end Start

/-- An item of the task is published while nobody has a lease on the task. -/
theorem Exclusive.publish {queue : String} (hsound : s'.Sound)
    (hitems : s'.cfg.world.items = s.cfg.world.itemsAfter queue id)
    (hfree : ∀ th ∈ s'.cfg.threads, ¬ s'.holds id th = true)
    (hqueue : ∀ i ∈ s.cfg.world.items, i.id = id → i.queue = queue) : Exclusive id s' := by
  have hnew : ∀ i ∈ s'.cfg.world.items, i.id = id →
      i.queue = queue ∧ i.seq = s.cfg.world.itemSeq + 1 := by
    intro i hi hid
    rw [hitems] at hi
    rcases List.mem_cons.mp hi with rfl | hi
    · exact ⟨rfl, rfl⟩
    · obtain ⟨hmem, hkept⟩ := List.mem_filter.mp hi
      exact absurd ⟨hqueue i hmem hid, hid⟩ (of_decide_eq_true hkept)
  refine ⟨hsound, ?_, ?_, ?_⟩
  · intro i hi j hj hid hjd
    obtain ⟨hq, hseq⟩ := hnew i hi hid
    obtain ⟨hq', hseq'⟩ := hnew j hj hjd
    exact ⟨hq.trans hq'.symm, hseq.trans hseq'.symm⟩
  · intro th hth hholds
    exact absurd hholds (hfree th hth)
  · intro x hx y hy hxh
    exact absurd hxh (hfree x hx)

section Request

variable {i : Nat} {o : Outcome} {tag : Tag}

theorem Exclusive.publishItem (h : Exclusive id s) {queue id' : String} {msgID : Option String}
    (hcall : s.cfg.nextCall i = some (tag, .publishItem queue id' msgID))
    (hfresh : s.cfg.world.isDuplicate queue msgID = false)
    (hs : Config.Step s.cfg (.run i o) cfg')
    (hitems : cfg'.world.items = s.cfg.world.itemsAfter queue id')
    (hsound : Sound ⟨cfg', s.leaseAfter (.run i o)⟩)
    (hapart : s.publishesApart id (.act (.run i o)) = true) :
    Exclusive id ⟨cfg', s.leaseAfter (.run i o)⟩ := by
  have hpassive : s.Passive (.run i o) := .run hcall (by simp)
  by_cases hid : id' = id
  · subst hid
    simp only [publishesApart, hcall] at hapart
    rcases of_decide_eq_true hapart with hother | hduplicate | ⟨hfree, hqueue⟩
    · exact absurd rfl hother
    · rw [hfresh] at hduplicate
      cases hduplicate
    · apply Exclusive.publish hsound hitems
      · intro th hth hholds
        obtain ⟨before, hbefore, -, hheld⟩ := hpassive.held_before h.sound hs hth hholds
        have hnone := List.all_eq_true.mp hfree before hbefore
        rw [hheld] at hnone
        cases hnone
      · intro j hj hjd
        rcases of_decide_eq_true (List.all_eq_true.mp hqueue j hj) with hother | hsame
        · exact absurd hjd hother
        · exact hsame
  · apply h.passive hpassive hs hsound
    intro j hj hjd
    rw [hitems] at hj
    rcases List.mem_cons.mp hj with rfl | hj
    · exact absurd hjd hid
    · exact ⟨j, List.mem_of_mem_filter hj, .refl j⟩

theorem Exclusive.request (h : Exclusive id s) {c : Call} {k : c.Reply → Job Unit} {r : c.Reply}
    {w : World} (hget : s.cfg.threads[i]? = some ⟨tag, .call c k⟩)
    (hexec : s.cfg.world.exec tag.holder tag.role.writer c o = some (r, w))
    (hs : Config.Step s.cfg (.run i o) cfg') (hworld : cfg'.world = w)
    (hsound : Sound ⟨cfg', s.leaseAfter (.run i o)⟩)
    (hapart : s.publishesApart id (.act (.run i o)) = true) :
    Exclusive id ⟨cfg', s.leaseAfter (.run i o)⟩ := by
  have hcall : s.cfg.nextCall i = some (tag, c) := by
    simp only [Config.nextCall, hget]
  rcases World.exec_items hexec with hitems | ⟨queue, id', msgID, rfl, hfresh, hitems⟩
  · have hcontinue : ∀ i' ∈ cfg'.world.items, i'.id = id →
        ∃ i ∈ s.cfg.world.items, i.Continues i' := by
      rw [hworld]
      exact fun i' hi' _ => hitems i' hi'
    by_cases hgo : ∃ t item, c = .goHandle t item
    · obtain ⟨t, item, rfl⟩ := hgo
      have hstarts := (h.sound.accounted.threads _ (List.mem_of_getElem? hget)).sends.1
      obtain ⟨n, role⟩ := tag
      cases role with
      | worker p given =>
        obtain rfl : o = .ok := by
          cases o <;> first | rfl | cases hexec
        exact h.start hget hs hsound hcontinue
      | _ => exact hstarts.elim
    · apply h.passive (.run hcall _) hs hsound hcontinue
      intro t item hc
      exact hgo ⟨t, item, hc⟩
  · rw [← hworld] at hitems
    exact h.publishItem hcall hfresh hs hitems hsound hapart

end Request

theorem Exclusive.mark (h : Exclusive id s) {i : Nat} (hs : s.markInProgress i = some s')
    (hinTime : s'.handlersInTime = true) : Exclusive id s' := by
  unfold markInProgress at hs
  split at hs
  · rename_i n p t jobID msg running k hget
    cases hs
    have hmem := List.mem_of_getElem? hget
    have hitems := delayed_items (w := s.cfg.world) msg p.queue.maxRunTime
    have hsound : Sound ⟨{ s.cfg with world := s.cfg.world.delayItem msg p.queue.maxRunTime },
        Function.update s.lease n (s.cfg.world.clock + p.queue.maxRunTime)⟩ := by
      refine ⟨?_, ?_, ?_, hinTime⟩
      · exact h.sound.config.unseen rfl rfl rfl (Int.le_refl _) rfl rfl
      · exact ⟨h.sound.accounted.threads, h.sound.accounted.recorded,
          h.sound.accounted.startsOnce⟩
      · exact ⟨h.sound.named.items_continue hitems, h.sound.named.roles⟩
    apply h.shrinks hsound fun i' hi' _ => hitems i' hi'
    intro th hth hholds
    obtain ⟨hmay, hitem, hlease⟩ := holds_iff.mp hholds
    refine ⟨th, hth, rfl, holds_iff.mpr ⟨hmay, hitem, ?_⟩⟩
    by_cases hn : th.tag.holder = n
    · rw [h.sound.config.thread_unique hth hmem hn]
      exact of_decide_eq_true (List.all_eq_true.mp h.sound.inTime _ hmem)
    · simp only [Function.update_of_ne hn] at hlease
      exact hlease
  · cases hs

theorem Exclusive.step (h : Exclusive id s) {a : LeasedAction} (hassumed : s.assumed a = true)
    (hapart : s.publishesApart id a = true) (hs : s.step a = some s') : Exclusive id s' := by
  obtain ⟨hended, hinTime⟩ := Bool.and_eq_true_iff.mp hassumed
  rw [hs] at hinTime
  cases a with
  | markInProgress i => exact h.mark hs hinTime
  | act a =>
    obtain ⟨cfg', hcfg, rfl⟩ := Option.map_eq_some_iff.mp hs
    have hstep := Config.step_sound hcfg
    have hconfig := h.sound.config.step hcfg
    have hsound : Sound ⟨cfg', s.leaseAfter a⟩ :=
      ⟨hconfig, h.sound.accounted.step h.sound.config hstep,
        h.sound.named.step h.sound.config h.sound.accounted hstep, hinTime⟩
    have hpassive : (∀ i' ∈ cfg'.world.items, ∃ i ∈ s.cfg.world.items, i.Continues i') →
        (∀ p id, a ≠ .deliver p id) → (∀ i o, a ≠ .run i o) →
        Exclusive id ⟨cfg', s.leaseAfter a⟩ := by
      intro hitems hdeliver hrun
      apply h.passive ⟨hdeliver, _⟩ hstep hsound fun i' hi' _ => hitems i' hi'
      intro i o tag t item ha
      exact absurd ha (hrun i o)
    cases hstep with
    | request hget hexec => exact h.request hget hexec (.request hget hexec) rfl hsound hapart
    | deliver found queue due attempts => exact h.deliver found queue rfl rfl hsound hended
    | dropItem => exact hpassive kept_items (by simp) (by simp)
    | _ => exact hpassive same_items (by simp) (by simp)

theorem Exclusive.runs_leased (h : Exclusive id s) {i : Nat} {tag : Tag} {t : Copy}
    (hi : s.cfg.nextCall i = some (tag, .runHandler t)) (hid : t.id = id) :
    ∃ th, s.cfg.threads[i]? = some th ∧ th ∈ s.cfg.threads ∧ s.holds id th = true := by
  obtain ⟨k, hget⟩ := Config.thread_of_nextCall hi
  have hmem := List.mem_of_getElem? hget
  have hlease := of_decide_eq_true (List.all_eq_true.mp h.sound.inTime _ hmem)
  obtain ⟨p, given, item, hrole, ht⟩ := (h.sound.accounted.threads _ hmem).runs_own
  obtain ⟨n, role⟩ := tag
  cases hrole
  obtain ⟨-, hjob⟩ : _ ∧ given.id = item.jobID := h.sound.named.roles _ hmem
  have hjob : item.jobID = id := hjob.symm.trans (ht.symm.trans hid)
  exact ⟨_, hget, hmem, holds_iff.mpr ⟨rfl, ⟨item, rfl, hjob⟩, hlease⟩⟩

end Leased

/-- In every run that meets the assumptions and in which the items of the task are published
apart, no two handlers for the task run at the same time. -/
theorem one_handler_at_a_time (id : String) (start : Int) (actions : List LeasedAction)
    (s : Leased)
    (hrun : runWhile Leased.step (fun s a => s.assumed a && s.publishesApart id a)
      (Leased.init start) actions = some s)
    (i j : Nat) (tag tag' : Tag) (t t' : Copy)
    (hi : s.cfg.nextCall i = some (tag, .runHandler t))
    (hj : s.cfg.nextCall j = some (tag', .runHandler t')) (hid : t.id = id) (hjd : t'.id = id) :
    i = j := by
  have hexclusive : s.Exclusive id := by
    refine runWhile_induction (P := Leased.Exclusive id) ?_ actions
      (Leased.Exclusive.init id start) hrun
    intro s s' a h hmeets hs
    obtain ⟨hassumed, hapart⟩ := Bool.and_eq_true_iff.mp hmeets
    exact h.step hassumed hapart hs
  obtain ⟨x, hx, hxmem, hxheld⟩ := hexclusive.runs_leased hi hid
  obtain ⟨y, hy, hymem, hyheld⟩ := hexclusive.runs_leased hj hjd
  by_contra hne
  exact Config.holder_ne hexclusive.sound.config hy hx hne
    (hexclusive.one x hxmem y hymem hxheld hyheld)

/-- A handler extends its lease and stops later on; after the lease the item is delivered
again and a second worker starts a handler. -/
def restartAfterLease : List LeasedAction :=
  (enqueueSample ++ startSample 1).map .act ++
    [.act (.tick 50), .markInProgress 2, .act (.tick 50), .act (.crash 2), .act (.tick 10),
      .act (.deliver ⟨sampleClient⟩ "T1")] ++ (answered 3 7).map .act

theorem one_handler_at_a_time_sample :
    ∃ s tag t, runWhile Leased.step (fun s a => s.assumed a && s.publishesApart "T1" a)
        (Leased.init 0) restartAfterLease = some s ∧
      s.cfg.nextCall 4 = some (tag, .runHandler t) ∧ t.id = "T1" ∧
      ∀ j tag' t', s.cfg.nextCall j = some (tag', .runHandler t') → t'.id = "T1" → 4 = j := by
  have hrun : (runWhile Leased.step (fun s a => s.assumed a && s.publishesApart "T1" a)
      (Leased.init 0) restartAfterLease).any (fun s => s.cfg.handlerRuns "T1" 4) = true := by
    decide +kernel
  obtain ⟨s, hs, hruns⟩ := (Option.any_eq_true _ _).mp hrun
  obtain ⟨tag, t, hnext, hid⟩ := Config.handlerRuns_iff.mp hruns
  refine ⟨s, tag, t, hs, hnext, hid, ?_⟩
  intro j tag' t' hnext' hid'
  exact one_handler_at_a_time "T1" 0 restartAfterLease s hs 4 j tag tag' t t' hnext hnext' hid hid'

/-- The task is retried while its handler runs, and the new item is delivered at once. -/
def retryWhileRunning : List LeasedAction :=
  (enqueueSample ++ startSample 1).map .act ++
    .act (.retry sampleClient "T1") :: (answered 3 4).map .act ++
    .act (.deliver ⟨sampleClient⟩ "T1") :: (answered 4 6).map .act

/-- Two handlers run for one task. -/
theorem retry_starts_second_handler :
    ∃ s i j tag tag' t t', runWhile Leased.step Leased.assumed (Leased.init 0) retryWhileRunning =
        some s ∧
      s.cfg.nextCall i = some (tag, .runHandler t) ∧
      s.cfg.nextCall j = some (tag', .runHandler t') ∧ t.id = t'.id ∧ i ≠ j := by
  have hrun : (runWhile Leased.step Leased.assumed (Leased.init 0) retryWhileRunning).any
      (fun s => s.cfg.handlerRuns "T1" 2 && s.cfg.handlerRuns "T1" 5) = true := by
    decide +kernel
  obtain ⟨s, hs, hruns⟩ := (Option.any_eq_true _ _).mp hrun
  obtain ⟨hfirst, hsecond⟩ := Bool.and_eq_true_iff.mp hruns
  obtain ⟨tag, t, hnext, hid⟩ := Config.handlerRuns_iff.mp hfirst
  obtain ⟨tag', t', hnext', hid'⟩ := Config.handlerRuns_iff.mp hsecond
  exact ⟨s, 2, 5, tag, tag', t, t', hs, hnext, hnext', hid.trans hid'.symm, by decide⟩

end AsyncJobs
