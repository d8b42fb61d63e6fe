import AsyncJobs.System.Provenance
import AsyncJobs.System.Settlement

/-!
# Work items and the tasks they name

A work item carries nothing but the identifier of its task. Publishing is the only request
that adds an item, and it adds one for a task the sender knows. The worker that is given the
item activates that task and no other, and hands item and task to the handler it starts.
-/

namespace AsyncJobs

open Interaction

/-- The work item of a worker and of the handler it starts. -/
def Role.item : Role → Option ProcessItem
  | .worker _ item | .handler _ _ item => some item
  | _ => none

section Items

variable {w w' : World} {n : Nat} {writer : Writer}

def World.itemsAfter (w : World) (queue id : String) : List WorkItem :=
  ⟨queue, id, w.itemSeq + 1, 0, w.clock⟩ ::
    w.items.filter fun i => ¬ (i.queue = queue ∧ i.id = id)

theorem World.execPublishItem_items {queue id : String} {msgID : Option String} {o : Outcome}
    {r : Except Error Bool} (h : w.execPublishItem n queue id msgID o = some (r, w')) :
    w'.items = w.items ∨
      (w.isDuplicate queue msgID = false ∧ w'.items = w.itemsAfter queue id) := by
  cases o with
  | ok =>
    simp only [execPublishItem] at h
    split_ifs at h with hduplicate
    · cases h
      exact Or.inl rfl
    · cases h
      exact Or.inr ⟨Bool.eq_false_iff.mpr hduplicate, rfl⟩
  | lost e =>
    simp only [execPublishItem] at h
    split_ifs at h with hduplicate
    · cases h
      exact Or.inl rfl
    · cases h
      exact Or.inr ⟨Bool.eq_false_iff.mpr hduplicate, rfl⟩
  | failed e =>
    cases h
    exact Or.inl rfl
  | handled r => cases h

/-- Every request but a publish leaves only items that were there. -/
theorem Effect.items {c : Call} (h : Effect n writer w c w')
    (hc : ∀ queue id msgID, c ≠ .publishItem queue id msgID) :
    ∀ i' ∈ w'.items, ∃ i ∈ w.items, i.Continues i' := by
  cases h with
  | queue => exact absurd rfl (hc _ _ _)
  | queueUnanswered => exact absurd rfl (hc _ _ _)
  | ack => exact kept_items
  | term => exact kept_items
  | nak msg delay => exact delayed_items msg delay
  | done t err =>
    rw [World.finish_items]
    exact same_items
  | _ => exact same_items

/-- Every request leaves only items that were there, apart from a publish that is no duplicate. -/
theorem World.exec_items {c : Call} {o : Outcome} {r : c.Reply}
    (h : w.exec n writer c o = some (r, w')) :
    (∀ i' ∈ w'.items, ∃ i ∈ w.items, i.Continues i') ∨
      ∃ queue id msgID, c = .publishItem queue id msgID ∧
        w.isDuplicate queue msgID = false ∧ w'.items = w.itemsAfter queue id := by
  by_cases hc : ∀ queue id msgID, c ≠ .publishItem queue id msgID
  · exact Or.inl ((exec_effect h).items hc)
  · push Not at hc
    obtain ⟨queue, id, msgID, rfl⟩ := hc
    rcases execPublishItem_items h with hsame | ⟨hfresh, hitems⟩
    · rw [hsame]
      exact Or.inl same_items
    · exact Or.inr ⟨queue, id, msgID, rfl, hfresh, hitems⟩

theorem Config.handOut_items {cfg : Config} {p : Processor} {i : WorkItem} :
    ∀ j' ∈ (cfg.handOut p i).items, ∃ j ∈ cfg.world.items, j.Continues j' := by
  intro j' hj'
  obtain ⟨j, hj, rfl⟩ := List.mem_map.mp hj'
  refine ⟨j, hj, ?_⟩
  split_ifs
  · exact ⟨rfl, rfl, rfl, Nat.le_succ _⟩
  · exact .refl j

end Items

/-- A worker has an item that names one task, and the handler it starts runs for that task. -/
def Role.Named : Role → Prop
  | .worker _ item => World.isWildcard item.jobID = false
  | .handler _ t item => World.isWildcard item.jobID = false ∧ t.id = item.jobID
  | _ => True

namespace Config

variable {cfg cfg' : Config} {a : Action}

structure Named (cfg : Config) : Prop where
  items : ∀ i ∈ cfg.world.items, World.isWildcard i.id = false
  roles : ∀ th ∈ cfg.threads, th.tag.role.Named

theorem Named.init (start : Int) : (Config.init start).Named where
  items := by
    intro i hi
    cases hi
  roles := by
    intro th hth
    cases hth

theorem Named.items_continue (h : cfg.Named) {items : List WorkItem}
    (hitems : ∀ i' ∈ items, ∃ i ∈ cfg.world.items, i.Continues i') :
    ∀ i' ∈ items, World.isWildcard i'.id = false := by
  intro i' hi'
  obtain ⟨i, hi, hsame⟩ := hitems i' hi'
  rw [← hsame.id]
  exact h.items i hi

theorem Named.spawn (h : cfg.Named) {w : World} {role : Role}
    (hitems : ∀ i' ∈ w.items, ∃ i ∈ cfg.world.items, i.Continues i') (hrole : role.Named) :
    (cfg.spawn w role).Named := by
  refine ⟨h.items_continue hitems, fun th hth => ?_⟩
  rcases List.mem_append.mp hth with hth | hth
  · exact h.roles th hth
  · rw [List.mem_singleton.mp hth]
    exact hrole

theorem Named.request (h : cfg.Named) (hinv : cfg.Inv) (hacc : cfg.Accounted) {i : Nat} {tag : Tag}
    {c : Call} {k : c.Reply → Job Unit} {o : Outcome} {r : c.Reply} {w : World}
    (hget : cfg.threads[i]? = some ⟨tag, .call c k⟩)
    (hexec : cfg.world.exec tag.holder tag.role.writer c o = some (r, w)) :
    Named ⟨w, cfg.threads.set i ⟨tag, k r⟩ ++ spawned tag cfg.world.nextCopy c⟩ := by
  have hmem := List.mem_of_getElem? hget
  have hpermit := (hinv.safe.next hmem hinv.world).1
  constructor
  · rcases World.exec_items hexec with hitems | ⟨queue, id, msgID, rfl, -, hitems⟩
    · exact h.items_continue hitems
    · intro j hj
      have hj : j ∈ cfg.world.itemsAfter queue id := hitems ▸ hj
      rcases List.mem_cons.mp hj with rfl | hj
      · obtain ⟨m, hknown, rfl⟩ := hpermit
        exact hinv.world.named m (known_written hinv.world.valid hknown)
      · exact h.items j (List.mem_of_mem_filter hj)
  · intro th hth
    rcases List.mem_append.mp hth with hth | hth
    · obtain ⟨before, hbefore, htag⟩ := mem_set_tag hget hth
      rw [← htag]
      exact h.roles before hbefore
    · obtain ⟨p, given, t, item, hrole, rfl, rfl⟩ := mem_spawned hth
      obtain ⟨n, role⟩ := tag
      cases hrole
      have hproper : World.isWildcard given.jobID = false := h.roles _ hmem
      have hgiven : item = given := (hacc.threads _ hmem).sends.1
      obtain ⟨old, seq, hsaved, -, -, hactive⟩ := hpermit
      subst hgiven
      exact ⟨hproper, hacc.activated_id hinv hmem hproper hsaved hactive⟩

theorem Named.step (h : cfg.Named) (hinv : cfg.Inv) (hacc : cfg.Accounted) (hs : Step cfg a cfg') :
    cfg'.Named := by
  cases hs with
  | request hget hexec => exact h.request hinv hacc hget hexec
  | crash hget =>
    refine ⟨h.items, fun th hth => ?_⟩
    obtain ⟨before, hbefore, htag⟩ := mem_set_tag hget hth
    rw [← htag]
    exact h.roles before hbefore
  | @deliver p i found => exact h.spawn handOut_items (h.items i found)
  | enqueue => exact h.spawn same_items trivial
  | enqueueInto => exact h.spawn same_items trivial
  | retry => exact h.spawn same_items trivial
  | load => exact h.spawn same_items trivial
  | delete => exact h.spawn same_items trivial
  | dropItem => exact ⟨h.items_continue kept_items, h.roles⟩
  | _ => exact ⟨h.items, h.roles⟩

theorem Opened.with_item {role : Role} {item : ProcessItem} (h : Opened cfg a cfg' role)
    (hitem : role.item = some item) :
    (∃ p id msg, a = .deliver p id ∧ role = .worker p ⟨id, msg⟩) ∨
      ∃ i o n p given t, a = .run i o ∧
        cfg.nextCall i = some (⟨n, .worker p given⟩, .goHandle t item) ∧
        role = .handler p t item := by
  cases h with
  | free opens =>
    cases a with
    | deliver p id =>
      obtain ⟨msg, rfl⟩ := opens
      exact Or.inl ⟨p, id, msg, rfl, rfl⟩
    | retry c id =>
      cases opens
      cases hitem
    | load c id =>
      cases opens
      cases hitem
    | delete id =>
      cases opens
      cases hitem
    | _ => exact opens.elim
  | submitted given =>
    cases role with
    | enqueue c t => cases hitem
    | enqueueInto queue t => cases hitem
    | _ => cases given
  | handler action call =>
    cases hitem
    exact Or.inr ⟨_, _, _, _, _, _, action, call, rfl⟩

end Config

end AsyncJobs
