import AsyncJobs.System.World

/-!
# What an action does

`Config.Step` lists the outcomes of `Config.step`, one constructor for each way a
configuration can change: a thread makes one request, a thread stops, a new thread starts, or
only the world changes. Every later argument about one action is a case analysis on it.
-/

namespace AsyncJobs

open Interaction

namespace Config

/-- What becomes of a copy that its caller submits. -/
def handOver (cfg : Config) (copy : Nat) (t : Copy) : World :=
  { cfg.world with
    copies := Function.update cfg.world.copies copy none
    log := .submitted copy cfg.world.nextCopy t :: cfg.world.log }

def messageOf (i : WorkItem) : MsgRef := ⟨i.queue, i.seq, i.delivered + 1⟩

/-- What becomes of the work queue when an item is handed to a worker. -/
def handOut (cfg : Config) (p : Processor) (i : WorkItem) : World :=
  { cfg.world with
    items := cfg.world.items.map fun j =>
      if j.queue = i.queue ∧ j.seq = i.seq then
        { j with
          delivered := j.delivered + 1
          availableAt := cfg.world.clock + p.queue.maxRunTime }
      else j
    deliveries := ⟨cfg.world.nextCopy, i.id, messageOf i⟩ :: cfg.world.deliveries }

inductive Step (cfg : Config) : Action → Config → Prop
  | request {i : Nat} {o : Outcome} {tag : Tag} {c : Call} {k : c.Reply → Job Unit} {r : c.Reply}
      {w : World} (thread : cfg.threads[i]? = some ⟨tag, .call c k⟩)
      (reply : cfg.world.exec tag.holder tag.role.writer c o = some (r, w)) :
      Step cfg (.run i o)
        ⟨w, cfg.threads.set i ⟨tag, k r⟩ ++ spawned tag cfg.world.nextCopy c⟩
  | crash {i : Nat} {tag : Tag} {prog : Job Unit} (thread : cfg.threads[i]? = some ⟨tag, prog⟩) :
      Step cfg (.crash i) ⟨cfg.world, cfg.threads.set i ⟨tag, .ret ()⟩⟩
  | deliver {p : Processor} {i : WorkItem} (found : i ∈ cfg.world.items)
      (queue : i.queue = p.queue.name) (due : i.availableAt ≤ cfg.world.clock)
      (attempts : p.queue.maxTries ≤ 0 ∨ i.delivered < p.queue.maxTries) :
      Step cfg (.deliver p i.id)
        (cfg.spawn (cfg.handOut p i) (.worker p ⟨i.id, some (messageOf i)⟩))
  | enqueue (c : Client) {copy : Nat} {t : Copy} (owned : cfg.world.copies copy = some t) :
      Step cfg (.enqueue c copy) (cfg.spawn (cfg.handOver copy t) (.enqueue c t))
  | enqueueInto (queue : Queue) {copy : Nat} {t : Copy} (owned : cfg.world.copies copy = some t) :
      Step cfg (.enqueueInto queue copy) (cfg.spawn (cfg.handOver copy t) (.enqueueInto queue t))
  | retry (c : Client) (id : String) :
      Step cfg (.retry c id) (cfg.spawn cfg.world (.retry c id))
  | load (c : Client) (id : String) : Step cfg (.load c id) (cfg.spawn cfg.world (.load c id))
  | delete (id : String) : Step cfg (.delete id) (cfg.spawn cfg.world (.delete id))
  | newTask {task : Task} (valid : isValidName task.id = true) :
      Step cfg (.newTask task)
        ⟨{ cfg.world with
            nextCopy := cfg.world.nextCopy + 1
            copies := Function.update cfg.world.copies cfg.world.nextCopy (some ⟨task, none⟩) },
          cfg.threads⟩
  | edit {copy : Nat} {task : Task} {t : Copy} (owned : cfg.world.copies copy = some t)
      (same : task.id = t.id) :
      Step cfg (.edit copy task)
        ⟨{ cfg.world with
            copies := Function.update cfg.world.copies copy (some ⟨task, t.storageOptions⟩) },
          cfg.threads⟩
  | tick (d : Nat) :
      Step cfg (.tick d) ⟨{ cfg.world with clock := cfg.world.clock + d }, cfg.threads⟩
  | dropTask {id : String} {m : StoredTask} (found : cfg.world.stored id = some m) :
      Step cfg (.dropTask id) ⟨cfg.world.removeTask m (.dropped m), cfg.threads⟩
  | dropItem (queue id : String) :
      Step cfg (.dropItem queue id)
        ⟨{ cfg.world with
            items := cfg.world.items.filter fun i => ¬ (i.queue = queue ∧ i.id = id) },
          cfg.threads⟩
  | forgetMsgID (queue msgID : String) :
      Step cfg (.forgetMsgID queue msgID)
        ⟨{ cfg.world with msgIDs := cfg.world.msgIDs.filter fun m => m ≠ (queue, msgID) },
          cfg.threads⟩

variable {cfg cfg' : Config}

theorem step_run {i : Nat} {o : Outcome} (h : cfg.step (.run i o) = some cfg') :
    ∃ tag c k r w', cfg.threads[i]? = some ⟨tag, .call c k⟩ ∧
      cfg.world.exec tag.holder tag.role.writer c o = some (r, w') ∧
      cfg' = ⟨w', cfg.threads.set i ⟨tag, k r⟩ ++ spawned tag cfg.world.nextCopy c⟩ := by
  simp only [Config.step] at h
  split at h
  · cases h
  · rename_i thread hthread
    obtain ⟨tag, prog⟩ := thread
    cases prog with
    | ret a => cases h
    | call c k =>
      simp only [stepThread] at h
      split at h
      · cases h
      · rename_i r w' hexec
        cases h
        exact ⟨tag, c, k, r, w', hthread, hexec, rfl⟩

theorem thread_of_nextCall {i : Nat} {tag : Tag} {c : Call}
    (h : cfg.nextCall i = some (tag, c)) : ∃ k, cfg.threads[i]? = some ⟨tag, .call c k⟩ := by
  unfold nextCall at h
  split at h
  · rename_i tag' c' k hget
    cases h
    exact ⟨k, hget⟩
  · cases h

/-- Thread `i` runs a handler for the task. -/
def handlerRuns (cfg : Config) (id : String) (i : Nat) : Bool :=
  match cfg.nextCall i with
  | some (_, .runHandler t) => t.id = id
  | _ => false

theorem handlerRuns_iff {id : String} {i : Nat} : cfg.handlerRuns id i = true ↔
    ∃ tag t, cfg.nextCall i = some (tag, .runHandler t) ∧ t.id = id := by
  unfold handlerRuns
  constructor
  · intro h
    split at h
    · rename_i tag t hnext
      exact ⟨tag, t, hnext, of_decide_eq_true h⟩
    · cases h
  · rintro ⟨tag, t, hnext, hid⟩
    simp only [hnext, hid, decide_true]

theorem mem_spawned {tag : Tag} {next : Nat} {c : Call} {th : Thread jobs Tag}
    (h : th ∈ spawned tag next c) :
    ∃ p given t item, tag.role = .worker p given ∧ c = .goHandle t item ∧
      th = ⟨⟨next, .handler p t item⟩, p.handle t item⟩ := by
  unfold spawned at h
  split at h
  · rename_i t item
    split at h
    · rename_i p given hrole
      exact ⟨p, given, t, item, hrole, rfl, List.mem_singleton.mp h⟩
    · cases h
  · cases h

theorem submit_spawns {copy : Nat} {role : Copy → Role} (h : cfg.submit copy role = some cfg') :
    ∃ t, cfg.world.copies copy = some t ∧ cfg' = cfg.spawn (cfg.handOver copy t) (role t) := by
  unfold Config.submit at h
  split at h
  · cases h
  · rename_i t ht
    cases h
    exact ⟨t, ht, rfl⟩

theorem step_sound {a : Action} (h : cfg.step a = some cfg') : Step cfg a cfg' := by
  cases a with
  | run i o =>
    obtain ⟨tag, c, k, r, w', hget, hexec, rfl⟩ := step_run h
    exact .request hget hexec
  | crash i =>
    simp only [Config.step] at h
    split at h
    · cases h
    · rename_i thread hthread
      cases h
      exact .crash hthread
  | deliver p id =>
    simp only [Config.step, Config.deliver] at h
    split at h
    · cases h
    · rename_i i hfind
      split_ifs at h with hdue
      cases h
      obtain ⟨hqueue, rfl⟩ : i.queue = p.queue.name ∧ i.id = id := by
        simpa using List.find?_some hfind
      exact .deliver (List.mem_of_find?_eq_some hfind) hqueue hdue.1 hdue.2
  | newTask task =>
    simp only [Config.step] at h
    split_ifs at h with hvalid
    cases h
    exact .newTask hvalid
  | edit copy task =>
    simp only [Config.step] at h
    split at h
    · cases h
    · rename_i t ht
      split_ifs at h with hid
      cases h
      exact .edit ht hid
  | enqueue c copy =>
    obtain ⟨t, ht, rfl⟩ := submit_spawns h
    exact .enqueue c ht
  | enqueueInto queue copy =>
    obtain ⟨t, ht, rfl⟩ := submit_spawns h
    exact .enqueueInto queue ht
  | retry c id =>
    cases h
    exact .retry c id
  | load c id =>
    cases h
    exact .load c id
  | delete id =>
    cases h
    exact .delete id
  | tick d =>
    cases h
    exact .tick d
  | dropTask id =>
    simp only [Config.step] at h
    split at h
    · cases h
    · rename_i m hm
      cases h
      exact .dropTask hm
  | dropItem queue id =>
    cases h
    exact .dropItem queue id
  | forgetMsgID queue msgID =>
    cases h
    exact .forgetMsgID queue msgID

end Config

end AsyncJobs
