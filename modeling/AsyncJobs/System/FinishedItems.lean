import AsyncJobs.System.Attendance
import AsyncJobs.System.Discard

/-!
# Items of finished tasks

The last delivery of an item is the last chance to take it off the queue. A task that fails
in its last delivery is stored as expired and its item is put back, and so are items whose
task was found past its deadline; nobody will receive them again. If a final state is stored
only while the item has a delivery left, or by a handler that settles the same item next,
every item that has no delivery left and whose task is finished is attended by some thread.
-/

namespace AsyncJobs

open Interaction

namespace World

variable (w : World) (q : Queue)

/-- The server carries the request out, and its answer arrives. -/
def carriesOut : Call → Outcome → Bool
  | .publishTask t, .ok => w.accepts t
  | .deleteMessage seq, .ok => w.tasks.any fun m => m.seq = seq
  | .runHandler _, .handled _ => true
  | _, .ok => true
  | _, _ => false

/-- The queue holds an item of the task that it will not deliver again. -/
def exhausted (id : String) : Bool :=
  w.items.any fun i => i.queue = q.name ∧ i.id = id ∧ q.maxTries ≤ i.delivered

def beingProcessed (i : WorkItem) : Bool :=
  w.deliveries.any fun d => d.msg.queue = i.queue ∧ d.msg.seq = i.seq

def storedFinal (id : String) : Bool := (w.stored id).any fun m => m.task.state.final

end World

def Role.worksOn (role : Role) (i : WorkItem) : Bool :=
  role.item.any fun item => item.jobID = i.id ∧
    item.storageMeta.any fun msg => msg.queue = i.queue ∧ msg.seq = i.seq

/-- While an item of the task has no delivery left, a final state is stored only by a handler
that takes this very item off the queue next, and a worker accepts the signature of the task
it finds in a final state. -/
def World.closesItem (w : World) (q : Queue) (role : Role) : Call → Bool
  | .readLast .task id =>
    match role, w.readLast id with
    | .worker p _, some m =>
      m.task.state.final → w.exhausted q id → World.verifies p m.task
    | _, _ => true
  | .publishTask t =>
    t.state.final → w.exhausted q t.id → role.writer = .handler ∧ t.state.commits ∧
      w.items.all fun i => i.queue = q.name ∧ i.id = t.id → role.worksOn i
  | _ => true

/-- Every call succeeds, and whoever takes items from the queue knows its configuration. -/
def Config.callsSucceed (q : Queue) (cfg : Config) : Action → Bool
  | .run i o =>
    match cfg.nextCall i with
    | some (_, c) => cfg.world.carriesOut c o
    | none => true
  | .deliver p _ => p.queue.name = q.name → p.queue = q
  | _ => true

/-- No request leaves the item of a finished task behind, and nobody who processes an item
stops on the way. -/
def Config.closesItems (q : Queue) (cfg : Config) : Action → Bool
  | .run i _ =>
    match cfg.nextCall i with
    | some (tag, c) => cfg.world.closesItem q tag.role c
    | none => true
  | .crash i => (cfg.threads[i]?).all fun th => th.tag.role.item.isNone
  | _ => true

/-- The same item in two worlds, except for when it is available. -/
structure WorkItem.Same (i i' : WorkItem) : Prop where
  queue : i.queue = i'.queue
  id : i.id = i'.id
  seq : i.seq = i'.seq
  delivered : i.delivered = i'.delivered

theorem WorkItem.Same.refl (i : WorkItem) : i.Same i := ⟨rfl, rfl, rfl, rfl⟩

theorem Attends.same {i i' : WorkItem} {m : StoredTask} {msg : MsgRef} {th : Thread jobs Tag}
    (h : Attends i m msg th) (hsame : i.Same i') : Attends i' m msg th := by
  obtain ⟨hitem, hqueue, hseq, hends⟩ := h
  rw [hsame.id] at hitem hends
  exact ⟨hitem, hqueue.trans hsame.queue, hseq.trans hsame.seq, hends⟩

section Requests

variable {q : Queue} {tag : Tag} {w w' : World} {c : Call} {o : Outcome} {r : c.Reply}

theorem Effect.item_before {n : Nat} {writer : Writer} (h : Effect n writer w c w') {i' : WorkItem}
    (hi' : i' ∈ w'.items) (hused : 0 < i'.delivered) : ∃ i ∈ w.items, i.Same i' := by
  have hput : ∀ queue id, i' ∈ w.itemsAfter queue id → ∃ i ∈ w.items, i.Same i' := by
    intro queue id hmem
    rcases List.mem_cons.mp hmem with rfl | hmem
    · exact absurd hused (Nat.lt_irrefl 0)
    · exact ⟨i', List.mem_of_mem_filter hmem, .refl i'⟩
  cases h with
  | queue queue id msgID => exact hput queue id hi'
  | queueUnanswered queue id msgID => exact hput queue id hi'
  | ack msg => exact ⟨i', List.mem_of_mem_filter hi', .refl i'⟩
  | term msg => exact ⟨i', List.mem_of_mem_filter hi', .refl i'⟩
  | nak msg delay =>
    obtain ⟨i, hi, rfl⟩ := List.mem_map.mp hi'
    refine ⟨i, hi, ?_⟩
    split_ifs <;> exact ⟨rfl, rfl, rfl, rfl⟩
  | done t err =>
    rw [World.finish_items] at hi'
    exact ⟨i', hi', .refl i'⟩
  | _ => exact ⟨i', hi', .refl i'⟩

theorem Effect.stored_before {n : Nat} {writer : Writer} (h : Effect n writer w c w') (hw : w.Inv)
    {id : String} {m : StoredTask} (hm : w'.stored id = some m) :
    w.stored id = some m ∨
      ∃ t : Copy, c = .publishTask t ∧ t.id = id ∧ m = ⟨w.lastSeq + 1, t.toTask⟩ := by
  cases h with
  | @save t accepted acked =>
    rw [World.stored_store] at hm
    split_ifs at hm with hid
    · cases hm
      exact Or.inr ⟨t, rfl, hid, rfl⟩
    · exact Or.inl hm
  | delete found =>
    rw [hw.stored_removeTask (List.mem_of_find?_eq_some found)] at hm
    split_ifs at hm
    exact Or.inl hm
  | done t err =>
    rw [World.finish_stored] at hm
    exact Or.inl hm
  | _ => exact Or.inl hm

theorem World.finds_stored {m : StoredTask} {writer : Writer} {n : Nat}
    (hexec : w.exec n writer c o = some (r, w')) (hok : w.carriesOut c o = true)
    (hproper : World.isWildcard m.task.id = false) (hstored : w.stored m.task.id = some m) :
    Finds m c r := by
  cases c with
  | readLast use id =>
    rintro rfl
    have hread : w.readLast m.task.id = some m := by
      simpa [World.readLast, hproper] using hstored
    cases o with
    | ok =>
      cases (World.exec_readLast_ok hread).symm.trans hexec
      rfl
    | _ => cases hok
  | _ => trivial

theorem World.Inv.store_replaces (hw : w.Inv) {n : Nat} {writer : Writer} {t : Copy} {acked : Bool}
    {m : StoredTask} (hm : m ∈ w.tasks) (hid : t.id = m.task.id) :
    (w.store n writer t acked).stored m.task.id ≠ some m := by
  rw [World.stored_store, if_pos hid]
  intro heq
  have hseq : w.lastSeq + 1 = m.seq := congrArg StoredTask.seq (Option.some.inj heq)
  have hbound := (hw.bounded m (hw.mem_written hm).2).2
  omega

/-- A call that settles an item leaves no trace of the item or of the revision. -/
theorem World.settled_gone {m : StoredTask} {msg : MsgRef} {writer : Writer} {n : Nat} (hw : w.Inv)
    (hexec : w.exec n writer c o = some (r, w')) (hok : w.carriesOut c o = true)
    (hsettles : c.Settles m msg) (hstored : w.stored m.task.id = some m) :
    (∀ i' ∈ w'.items, ¬ (i'.queue = msg.queue ∧ i'.seq = msg.seq)) ∨
      w'.stored m.task.id ≠ some m := by
  have hmem := ((World.stored_eq_some_iff hw.distinct).mp hstored).1
  have hgone : w' = w.removeItem n msg →
      ∀ i' ∈ w'.items, ¬ (i'.queue = msg.queue ∧ i'.seq = msg.seq) := by
    rintro rfl i' hi'
    exact of_decide_eq_true (List.mem_filter.mp hi').2
  cases c with
  | ackItem msg' =>
    obtain rfl : msg' = msg := hsettles
    cases o with
    | ok =>
      cases hexec
      exact Or.inl (hgone rfl)
    | _ => cases hok
  | termItem msg' =>
    obtain rfl : msg' = msg := hsettles
    cases o with
    | ok =>
      cases hexec
      exact Or.inl (hgone rfl)
    | _ => cases hok
  | publishTask t =>
    have hid : t.id = m.task.id := hsettles
    cases o with
    | ok =>
      cases (w.exec_publishTask_ok hok).symm.trans hexec
      exact Or.inr (hw.store_replaces hmem hid)
    | _ => cases hok
  | deleteMessage seq =>
    obtain rfl : seq = m.seq := hsettles
    cases o with
    | ok =>
      cases (World.exec_deleteMessage_ok hw hmem).symm.trans hexec
      right
      rw [hw.stored_removeTask hmem, if_pos rfl]
      simp
    | _ => cases hok
  | _ => exact hsettles.elim

/-- A thread that attends an item goes on to do so, as long as the item and the revision are
both there. -/
theorem Attends.moves {i i' : WorkItem} {m : StoredTask} {msg : MsgRef} {k : c.Reply → Job Unit}
    (h : Attends i m msg ⟨tag, .call c k⟩) (hw : w.Inv)
    (hexec : w.exec tag.holder tag.role.writer c o = some (r, w'))
    (hok : w.carriesOut c o = true) (hcloses : w.closesItem q tag.role c = true)
    (hproper : World.isWildcard i.id = false) (hexhausted : w.exhausted q i.id = true)
    (hstored : w.stored i.id = some m) (hfinal : m.task.state.final = true)
    (hi' : i' ∈ w'.items) (hsame : i.Same i') (hstays : w'.stored i.id = some m) :
    Attends i m msg ⟨tag, k r⟩ := by
  have hid : m.task.id = i.id := World.stored_id hstored
  have hends : (Prog.call (S := jobs) c k).Reaches (Finds m) (Call.Settles m msg)
      fun _ => False := by
    rcases h.ends with ⟨p, hrole, hprog⟩ | hends
    · -- the worker is about to load the task, whose signature it accepts
      have hread : w.readLast i.id = some m := by
        simpa [World.readLast, hproper] using hstored
      have hcall : c = .readLast .task i.id := by
        injection hprog
      have hverifies : World.verifies p m.task = true := by
        simp only at hrole
        rw [hcall, hrole] at hcloses
        simp only [World.closesItem, hread] at hcloses
        exact of_decide_eq_true hcloses hfinal hexhausted
      simp only at hprog
      rw [hprog, ← hid]
      exact p.processItem_reaches hfinal hverifies
    · exact hends
  refine ⟨h.item, h.queue, h.seq, Or.inr ?_⟩
  rcases hends with hsettles | hrest
  · rcases World.settled_gone hw hexec hok hsettles (hid ▸ hstored) with hgone | hgone
    · refine absurd ⟨?_, ?_⟩ (hgone i' hi')
      · rw [← hsame.queue, h.queue]
      · rw [← hsame.seq, h.seq]
    · exact absurd (hid ▸ hstays) hgone
  · exact hrest r (World.finds_stored hexec hok (hid ▸ hproper) (hid ▸ hstored))

/-- A handler that stores a complete or terminated task attends the item from then on. -/
theorem Attends.commit {i : WorkItem} {m : StoredTask} {msg : MsgRef} {t : Copy}
    {k : (Call.publishTask t).Reply → Job Unit} {r : (Call.publishTask t).Reply}
    (hdiligent : Diligent w msg ⟨tag, .call (.publishTask t) k⟩)
    (hitem : tag.role.item = some ⟨i.id, some msg⟩) (hqueue : msg.queue = i.queue)
    (hseq : msg.seq = i.seq) (hwriter : tag.role.writer = .handler)
    (hcommits : t.state.commits = true) : Attends i m msg ⟨tag, k r⟩ := by
  refine ⟨hitem, hqueue, hseq, Or.inr ?_⟩
  have hreaches := (hdiligent.commits hwriter).1 hcommits r trivial
  exact hreaches.mono (fun _ _ _ => trivial) (fun _ hc => hc.settles) fun _ hfalse => hfalse

end Requests

/-- Items are known by their sequences. -/
structure World.Numbered (w : World) : Prop where
  distinct : w.items.Pairwise fun a b => a.seq ≠ b.seq
  issued : ∀ i ∈ w.items, i.seq ≤ w.itemSeq

section Numbered

variable {w w' : World}

theorem World.Numbered.unique (h : w.Numbered) {i j : WorkItem} (hi : i ∈ w.items)
    (hj : j ∈ w.items) (hseq : i.seq = j.seq) : i = j := by
  have hsymm : Std.Symm fun a b : WorkItem => a.seq ≠ b.seq := ⟨fun _ _ h => h.symm⟩
  by_contra hne
  exact h.distinct.forall hi hj hne hseq

theorem World.Numbered.filter (h : w.Numbered) {keep : WorkItem → Bool}
    (hitems : w'.items = w.items.filter keep) (hnext : w'.itemSeq = w.itemSeq) : w'.Numbered := by
  constructor
  · rw [hitems]
    exact h.distinct.filter _
  · rw [hitems, hnext]
    exact fun i hi => h.issued i (List.mem_of_mem_filter hi)

theorem World.Numbered.map (h : w.Numbered) {change : WorkItem → WorkItem}
    (hchange : ∀ i, (change i).seq = i.seq) (hitems : w'.items = w.items.map change)
    (hnext : w'.itemSeq = w.itemSeq) : w'.Numbered := by
  constructor
  · rw [hitems, List.pairwise_map]
    refine h.distinct.imp fun {a b} hab => ?_
    rw [hchange, hchange]
    exact hab
  · rw [hitems, hnext]
    intro i' hi'
    obtain ⟨i, hi, rfl⟩ := List.mem_map.mp hi'
    rw [hchange]
    exact h.issued i hi

theorem World.Numbered.put (h : w.Numbered) {queue id : String}
    (hitems : w'.items = w.itemsAfter queue id) (hnext : w'.itemSeq = w.itemSeq + 1) :
    w'.Numbered := by
  constructor
  · rw [hitems]
    refine List.pairwise_cons.mpr ⟨?_, h.distinct.filter _⟩
    intro i hi
    have hle := h.issued i (List.mem_of_mem_filter hi)
    show w.itemSeq + 1 ≠ i.seq
    omega
  · rw [hitems, hnext]
    intro i hi
    rcases List.mem_cons.mp hi with rfl | hi
    · exact Nat.le_refl _
    · have hle := h.issued i (List.mem_of_mem_filter hi)
      omega

theorem World.Numbered.effect (h : w.Numbered) {n : Nat} {writer : Writer} {c : Call}
    (he : Effect n writer w c w') : w'.Numbered := by
  cases he with
  | queue queue id msgID => exact h.put rfl rfl
  | queueUnanswered queue id msgID => exact h.put rfl rfl
  | ack msg => exact h.filter rfl rfl
  | term msg => exact h.filter rfl rfl
  | nak msg delay =>
    refine h.map (fun i => ?_) rfl rfl
    split_ifs <;> rfl
  | done t err =>
    constructor
    · rw [World.finish_items]
      exact h.distinct
    · rw [World.finish_items, World.finish_itemSeq]
      exact h.issued
  | _ => exact ⟨h.distinct, h.issued⟩

end Numbered

namespace Config

/-- Whoever was given an item works on it diligently. -/
def Diligent (cfg : Config) : Prop :=
  ∀ th ∈ cfg.threads, ∀ id msg, th.tag.role.item = some ⟨id, some msg⟩ →
    AsyncJobs.Diligent cfg.world msg th

/-- Every item that has no delivery left and whose task is finished is attended. -/
def Attended (q : Queue) (cfg : Config) : Prop :=
  ∀ i ∈ cfg.world.items, i.queue = q.name → q.maxTries ≤ (i.delivered : Int) →
    ∀ m, cfg.world.stored i.id = some m → m.task.state.final = true →
      ∃ th ∈ cfg.threads, ∃ msg, Attends i m msg th

structure Tidy (q : Queue) (cfg : Config) : Prop where
  sound : cfg.Inv
  accounted : cfg.Accounted
  named : cfg.Named
  numbered : cfg.world.Numbered
  diligent : cfg.Diligent
  attended : cfg.Attended q

theorem Tidy.init (q : Queue) (start : Int) : Tidy q (Config.init start) where
  sound := Inv.init start
  accounted := Accounted.init start
  named := Named.init start
  numbered := ⟨.nil, List.forall_mem_nil _⟩
  diligent := List.forall_mem_nil _
  attended := List.forall_mem_nil _

variable {q : Queue} {cfg cfg' : Config}

section Request

variable {i : Nat} {tag : Tag} {c : Call} {k : c.Reply → Job Unit} {o : Outcome} {r : c.Reply}
  {w' : World}

theorem mem_set_of_ne {threads : List (Thread jobs Tag)} {th mine : Thread jobs Tag} {j : Nat}
    (hj : threads[j]? = some th) (hne : j ≠ i) : th ∈ threads.set i mine := by
  apply List.mem_of_getElem? (i := j)
  rw [List.getElem?_set_ne (Ne.symm hne)]
  exact hj

theorem Diligent.request (h : cfg.Diligent) (hinv : cfg.Inv) (hacc : cfg.Accounted)
    (hget : cfg.threads[i]? = some ⟨tag, .call c k⟩)
    (hexec : cfg.world.exec tag.holder tag.role.writer c o = some (r, w')) :
    Diligent ⟨w', cfg.threads.set i ⟨tag, k r⟩ ++ spawned tag cfg.world.nextCopy c⟩ := by
  have heffect := World.exec_effect hexec
  have hmem := List.mem_of_getElem? hget
  intro th hth id msg hitem
  rcases List.mem_append.mp hth with hth | hth
  · obtain ⟨j, hj⟩ := List.mem_iff_getElem?.mp hth
    by_cases hji : j = i
    · subst hji
      rw [List.getElem?_set_self', hget] at hj
      cases hj
      exact (h _ hmem id msg hitem).moves heffect r
    · rw [List.getElem?_set_ne (Ne.symm hji)] at hj
      have hholder := holder_ne hinv hget hj hji
      apply (h th (List.mem_of_getElem? hj) id msg hitem).waits
      intro d hd hd'
      exact heffect.delivery_kept hd (Or.inl (hd' ▸ hholder))
  · obtain ⟨p, given, t, item, hrole, rfl, rfl⟩ := mem_spawned hth
    cases hitem
    have hgiven : (⟨id, some msg⟩ : ProcessItem) = given := by
      have hsends := (hacc.threads _ hmem).sends.1
      obtain ⟨n, role⟩ := tag
      cases hrole
      exact hsends
    have hworker : tag.role.item = some ⟨id, some msg⟩ := by
      rw [hrole, hgiven]
      rfl
    cases o <;> cases hexec
    exact (h _ hmem id msg hworker).handler

theorem Attended.request (h : Tidy q cfg) (hM : 0 < q.maxTries)
    (hget : cfg.threads[i]? = some ⟨tag, .call c k⟩)
    (hexec : cfg.world.exec tag.holder tag.role.writer c o = some (r, w'))
    (hok : cfg.world.carriesOut c o = true) (hcloses : cfg.world.closesItem q tag.role c = true) :
    Attended q ⟨w', cfg.threads.set i ⟨tag, k r⟩ ++ spawned tag cfg.world.nextCopy c⟩ := by
  have heffect := World.exec_effect hexec
  have hmem := List.mem_of_getElem? hget
  have hset : ⟨tag, k r⟩ ∈ cfg.threads.set i ⟨tag, k r⟩ :=
    List.mem_set (List.getElem?_eq_some_iff.mp hget).1 _
  intro j' hj' hqueue hmax m hm hfinal
  obtain ⟨j, hj, hsame⟩ := heffect.item_before hj' (by omega)
  rw [← hsame.queue] at hqueue
  rw [← hsame.delivered] at hmax
  rw [← hsame.id] at hm
  have hexhausted : cfg.world.exhausted q j.id = true :=
    List.any_eq_true.mpr ⟨j, hj, decide_eq_true ⟨hqueue, rfl, hmax⟩⟩
  rcases heffect.stored_before h.sound.world hm with hbefore | ⟨t, rfl, hid, rfl⟩
  · obtain ⟨th, hth, msg, hattends⟩ := h.attended j hj hqueue hmax m hbefore hfinal
    obtain ⟨l, hl⟩ := List.mem_iff_getElem?.mp hth
    by_cases hli : l = i
    · subst hli
      rw [hget] at hl
      cases hl
      refine ⟨_, List.mem_append_left _ hset, msg, Attends.same ?_ hsame⟩
      exact hattends.moves h.sound.world hexec hok hcloses (h.named.items j hj) hexhausted hbefore
        hfinal hj' hsame hm
    · exact ⟨th, List.mem_append_left _ (mem_set_of_ne hl hli), msg, hattends.same hsame⟩
  · -- a final state is stored by a handler that was given the very item
    have hown := of_decide_eq_true hcloses hfinal (hid ▸ hexhausted)
    obtain ⟨hwriter, hcommits, hitems⟩ := hown
    have hworks := of_decide_eq_true (List.all_eq_true.mp hitems j hj) ⟨hqueue, hid.symm⟩
    obtain ⟨⟨jobID, storageMeta⟩, hitem, hitem'⟩ := (Option.any_eq_true _ _).mp hworks
    obtain ⟨hjob, hmeta⟩ := of_decide_eq_true hitem'
    obtain ⟨msg, rfl, hmsg⟩ := (Option.any_eq_true _ _).mp hmeta
    obtain ⟨hmsgQueue, hmsgSeq⟩ := of_decide_eq_true hmsg
    cases hjob
    have hdiligent := h.diligent _ hmem j.id msg hitem
    refine ⟨_, List.mem_append_left _ hset, msg, Attends.same ?_ hsame⟩
    exact Attends.commit hdiligent hitem hmsgQueue hmsgSeq hwriter hcommits

theorem Tidy.request (h : Tidy q cfg) (hM : 0 < q.maxTries)
    (hs : cfg.step (.run i o) = some cfg') (hok : cfg.callsSucceed q (.run i o) = true)
    (hcloses : cfg.closesItems q (.run i o) = true) : Tidy q cfg' := by
  have hstep := step_sound hs
  have hsound := h.sound.step hs
  have haccounted := h.accounted.step h.sound hstep
  have hnamed := h.named.step h.sound h.accounted hstep
  obtain ⟨tag, c, k, r, w', hget, hexec, rfl⟩ := step_run hs
  simp only [callsSucceed, closesItems, nextCall, hget] at hok hcloses
  exact ⟨hsound, haccounted, hnamed, h.numbered.effect (World.exec_effect hexec),
    h.diligent.request h.sound h.accounted hget hexec, .request h hM hget hexec hok hcloses⟩

end Request

/-- An action that neither hands out an item nor touches the threads that were given one. -/
theorem Tidy.apart (h : Tidy q cfg) {a : Action} (hs : cfg.step a = some cfg')
    (hnumbered : cfg'.world.Numbered) (hitems : ∀ i ∈ cfg'.world.items, i ∈ cfg.world.items)
    (hstored : ∀ id m, cfg'.world.stored id = some m → cfg.world.stored id = some m)
    (hdeliveries : cfg'.world.deliveries = cfg.world.deliveries)
    (hthreads : ∀ th : Thread jobs Tag, th.tag.role.item ≠ none →
      (th ∈ cfg'.threads ↔ th ∈ cfg.threads)) : Tidy q cfg' := by
  have hstep := step_sound hs
  refine ⟨h.sound.step hs, h.accounted.step h.sound hstep,
    h.named.step h.sound h.accounted hstep, hnumbered, ?_, ?_⟩
  · intro th hth id msg hitem
    have hth := (hthreads th (by simp [hitem])).mp hth
    apply (h.diligent th hth id msg hitem).waits
    intro d hd _
    rw [hdeliveries]
    exact hd
  · intro i hi hqueue hmax m hm hfinal
    obtain ⟨th, hth, msg, hattends⟩ :=
      h.attended i (hitems i hi) hqueue hmax m (hstored _ m hm) hfinal
    exact ⟨th, (hthreads th (by simp [hattends.item])).mpr hth, msg, hattends⟩

theorem Tidy.spawn (h : Tidy q cfg) {a : Action} {w : World} {role : Role}
    (hs : cfg.step a = some (cfg.spawn w role)) (hitems : w.items = cfg.world.items)
    (hseq : w.itemSeq = cfg.world.itemSeq) (htasks : w.tasks = cfg.world.tasks)
    (hdeliveries : w.deliveries = cfg.world.deliveries) (hrole : role.item = none) :
    Tidy q (cfg.spawn w role) := by
  refine h.apart hs ⟨?_, ?_⟩ ?_ ?_ hdeliveries ?_
  · show w.items.Pairwise _
    rw [hitems]
    exact h.numbered.distinct
  · show ∀ i ∈ w.items, i.seq ≤ w.itemSeq
    rw [hitems, hseq]
    exact h.numbered.issued
  · show ∀ i ∈ w.items, i ∈ cfg.world.items
    rw [hitems]
    exact fun i hi => hi
  · intro id m hm
    have hm : w.stored id = some m := hm
    rwa [World.stored, htasks] at hm
  · intro th hitem
    constructor
    · intro hth
      rcases List.mem_append.mp hth with hth | hth
      · exact hth
      · rw [List.mem_singleton.mp hth] at hitem
        exact absurd hrole hitem
    · exact List.mem_append_left _

theorem Tidy.crash (h : Tidy q cfg) {i : Nat} {tag : Tag} {prog : Job Unit}
    (hs : cfg.step (.crash i) = some ⟨cfg.world, cfg.threads.set i ⟨tag, .ret ()⟩⟩)
    (hget : cfg.threads[i]? = some ⟨tag, prog⟩) (hrole : tag.role.item = none) :
    Tidy q ⟨cfg.world, cfg.threads.set i ⟨tag, .ret ()⟩⟩ := by
  refine h.apart hs h.numbered (fun _ hi => hi) (fun _ _ hm => hm) rfl ?_
  intro th hitem
  constructor
  · intro hth
    rcases List.mem_or_eq_of_mem_set hth with hth | rfl
    · exact hth
    · exact absurd hrole hitem
  · intro hth
    obtain ⟨j, hj⟩ := List.mem_iff_getElem?.mp hth
    refine mem_set_of_ne hj ?_
    rintro rfl
    rw [hget] at hj
    cases hj
    exact hitem hrole

theorem Tidy.deliver (h : Tidy q cfg) {p : Processor} {i : WorkItem}
    (hs : cfg.step (.deliver p i.id) =
      some (cfg.spawn (cfg.handOut p i) (.worker p ⟨i.id, some (messageOf i)⟩)))
    (hi : i ∈ cfg.world.items) :
    Tidy q (cfg.spawn (cfg.handOut p i) (.worker p ⟨i.id, some (messageOf i)⟩)) := by
  have hstep := step_sound hs
  refine ⟨h.sound.step hs, h.accounted.step h.sound hstep,
    h.named.step h.sound h.accounted hstep, ?_, ?_, ?_⟩
  · refine h.numbered.map (fun j => ?_) rfl rfl
    split_ifs <;> rfl
  · intro th hth id msg hitem
    rcases List.mem_append.mp hth with hth | hth
    · apply (h.diligent th hth id msg hitem).waits
      exact fun d hd _ => List.mem_cons_of_mem _ hd
    · rw [List.mem_singleton.mp hth] at hitem ⊢
      cases hitem
      exact .worker (List.mem_cons_self ..) rfl rfl
  · intro j' hj' hqueue hmax m hm hfinal
    obtain ⟨j, hj, rfl⟩ := List.mem_map.mp hj'
    by_cases hsame : j.queue = i.queue ∧ j.seq = i.seq
    · obtain rfl := h.numbered.unique hj hi hsame.2
      rw [if_pos ⟨rfl, rfl⟩]
      refine ⟨_, List.mem_append_right _ (List.mem_singleton_self _), messageOf j, ?_⟩
      exact ⟨rfl, rfl, rfl, Or.inl ⟨p, rfl, rfl⟩⟩
    · rw [if_neg hsame] at hqueue hmax hm ⊢
      obtain ⟨th, hth, msg, hattends⟩ := h.attended j hj hqueue hmax m hm hfinal
      exact ⟨th, List.mem_append_left _ hth, msg, hattends⟩

/-- One action of a run in which every call succeeds and no item is left behind. -/
theorem Tidy.step (h : Tidy q cfg) (hM : 0 < q.maxTries) {a : Action}
    (hs : cfg.step a = some cfg') (hok : cfg.callsSucceed q a = true)
    (hcloses : cfg.closesItems q a = true) : Tidy q cfg' := by
  cases step_sound hs with
  | request => exact h.request hM hs hok hcloses
  | crash hget =>
    simp only [closesItems, hget, Option.all_some, Option.isNone_iff_eq_none] at hcloses
    exact h.crash hs hget hcloses
  | deliver hfound => exact h.deliver hs hfound
  | enqueue c owned => exact h.spawn hs rfl rfl rfl rfl rfl
  | enqueueInto queue owned => exact h.spawn hs rfl rfl rfl rfl rfl
  | retry c id => exact h.spawn hs rfl rfl rfl rfl rfl
  | load c id => exact h.spawn hs rfl rfl rfl rfl rfl
  | delete id => exact h.spawn hs rfl rfl rfl rfl rfl
  | @dropTask id m found =>
    refine h.apart hs ⟨h.numbered.distinct, h.numbered.issued⟩ (fun _ hi => hi) ?_ rfl
      (fun _ _ => Iff.rfl)
    intro id' m' hm'
    have hmem := ((World.stored_eq_some_iff h.sound.world.distinct).mp found).1
    rw [h.sound.world.stored_removeTask hmem] at hm'
    split_ifs at hm'
    exact hm'
  | dropItem queue id =>
    exact h.apart hs (h.numbered.filter rfl rfl) (fun _ hi => List.mem_of_mem_filter hi)
      (fun _ _ hm => hm) rfl fun _ _ => Iff.rfl
  | _ =>
    exact h.apart hs ⟨h.numbered.distinct, h.numbered.issued⟩ (fun _ hi => hi)
      (fun _ _ hm => hm) rfl fun _ _ => Iff.rfl

/-- An item without a delivery left whose task is finished is being processed. -/
theorem Tidy.beingProcessed (h : Tidy q cfg) {i : WorkItem} (hi : i ∈ cfg.world.items)
    (hqueue : i.queue = q.name) (hmax : q.maxTries ≤ (i.delivered : Int))
    (hfinal : cfg.world.storedFinal i.id = true) : cfg.world.beingProcessed i = true := by
  obtain ⟨m, hm, hstate⟩ := (Option.any_eq_true _ _).mp hfinal
  obtain ⟨th, hth, msg, hattends⟩ := h.attended i hi hqueue hmax m hm hstate
  obtain ⟨d, hd, -, rfl⟩ := hattends.delivery (h.diligent th hth i.id msg hattends.item)
  exact List.any_eq_true.mpr ⟨d, hd, decide_eq_true ⟨hattends.queue, hattends.seq⟩⟩

end Config

/-- In every run in which all calls succeed and no request leaves the item of a finished task
behind, an item that is still on the queue although its task is stored in a final state is
being processed or will be delivered again. -/
theorem finished_task_leaves_no_item (q : Queue) (hM : 0 < q.maxTries) (start : Int)
    (actions : List Action) (cfg : Config)
    (hrun : (Config.init start).runWhile
      (fun cfg a => cfg.callsSucceed q a && cfg.closesItems q a) actions = some cfg)
    (id : String) (hfinal : cfg.world.storedFinal id = true) (i : WorkItem)
    (hi : i ∈ cfg.world.items) (hqueue : i.queue = q.name) (hid : i.id = id)
    (hidle : cfg.world.beingProcessed i = false) : (i.delivered : Int) < q.maxTries := by
  have htidy : Config.Tidy q cfg := by
    refine runWhile_induction (P := Config.Tidy q) ?_ actions (Config.Tidy.init q start) hrun
    intro cfg cfg' a h hmeets hs
    obtain ⟨hok, hcloses⟩ := Bool.and_eq_true_iff.mp hmeets
    exact h.step hM hs hok hcloses
  by_contra hused
  have hmax : q.maxTries ≤ (i.delivered : Int) := by omega
  have hprocessed := htidy.beingProcessed hi hqueue hmax (hid ▸ hfinal)
  rw [hidle] at hprocessed
  cases hprocessed

/-- The handler reports failed dependencies in the first of five deliveries: the task is
stored as unreachable and its item goes back to the queue. -/
def giveUpEarly : List Action :=
  enqueueSample ++ startSample 1 ++
    .run 2 (.handled (.error Sentinel.taskDependenciesFailed.error)) :: answered 2 5

theorem finished_task_leaves_no_item_early :
    ∃ cfg i, (Config.init 0).runWhile
        (fun cfg a => cfg.callsSucceed sampleQueue a && cfg.closesItems sampleQueue a)
        giveUpEarly = some cfg ∧
      cfg.world.storedFinal "T1" = true ∧ i ∈ cfg.world.items ∧ i.id = "T1" ∧
      cfg.world.beingProcessed i = false ∧ (i.delivered : Int) < sampleQueue.maxTries := by
  have hrun : ((Config.init 0).runWhile
      (fun cfg a => cfg.callsSucceed sampleQueue a && cfg.closesItems sampleQueue a)
      giveUpEarly).any (fun cfg => cfg.world.storedFinal "T1" && cfg.world.items.any fun i =>
        i.queue = sampleQueue.name ∧ i.id = "T1" ∧ cfg.world.beingProcessed i = false) = true := by
    decide +kernel
  obtain ⟨cfg, hcfg, hstate⟩ := (Option.any_eq_true _ _).mp hrun
  obtain ⟨hfinal, hitems⟩ := Bool.and_eq_true_iff.mp hstate
  obtain ⟨i, hi, hitem⟩ := List.any_eq_true.mp hitems
  obtain ⟨hqueue, hid, hidle⟩ := of_decide_eq_true hitem
  exact ⟨cfg, i, hcfg, hfinal, hi, hid, hidle, finished_task_leaves_no_item sampleQueue (by decide)
    0 giveUpEarly cfg hcfg "T1" hfinal i hi hqueue hid hidle⟩

/-- The handler fails in the only delivery of the item. -/
def failLastTry : List Action :=
  [.newTask sampleTask, .enqueue onceClient 0] ++ answered 0 4 ++
    .deliver ⟨onceClient⟩ "T1" :: answered 1 6 ++
    .run 2 (.handled (.error (.plain "failed"))) :: answered 2 5

/-- The task is stored as expired, and its item stays on the queue for good. -/
theorem expired_task_leaves_item :
    0 < onceQueue.maxTries ∧
    ∃ cfg i, (Config.init 0).runWhile (Config.callsSucceed onceQueue) failLastTry = some cfg ∧
      cfg.world.storedFinal "T1" = true ∧ i ∈ cfg.world.items ∧ i.queue = onceQueue.name ∧
      i.id = "T1" ∧ cfg.world.beingProcessed i = false ∧
      ¬ (i.delivered : Int) < onceQueue.maxTries := by
  refine ⟨by decide, ?_⟩
  have hrun : ((Config.init 0).runWhile (Config.callsSucceed onceQueue) failLastTry).any
      (fun cfg => cfg.world.storedFinal "T1" && cfg.world.items.any fun i =>
        i.queue = onceQueue.name ∧ i.id = "T1" ∧ cfg.world.beingProcessed i = false ∧
          ¬ (i.delivered : Int) < onceQueue.maxTries) = true := by
    decide +kernel
  obtain ⟨cfg, hcfg, hstate⟩ := (Option.any_eq_true _ _).mp hrun
  obtain ⟨hfinal, hitems⟩ := Bool.and_eq_true_iff.mp hstate
  obtain ⟨i, hi, hitem⟩ := List.any_eq_true.mp hitems
  exact ⟨cfg, i, hcfg, hfinal, hi, of_decide_eq_true hitem⟩

end AsyncJobs
