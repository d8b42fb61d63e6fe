import AsyncJobs.System.Assignments

/-!
# Leases

The consumer leases an item to the worker it hands it to for the acknowledgement wait of the
queue. The handler the worker starts goes on under that lease, and `MarkInProgress` extends
it. The leases of all threads are kept beside the configuration: a thread has its lease also
when the item was replaced in the meantime.
-/

namespace AsyncJobs

open Interaction

/-- The thread may still run a handler: a worker that has not ended, or a goroutine whose
handler has not returned. -/
def mayRun (th : Thread jobs Tag) : Bool :=
  match th.tag.role, th.prog with
  | .worker _ _, .call _ _ => true
  | .handler _ _ _, .call (.runHandler _) _ => true
  | _, _ => false

/-- The thread was given this item of the work queue. -/
def worksOn (th : Thread jobs Tag) (i : WorkItem) : Bool :=
  th.tag.role.item.any fun item =>
    item.storageMeta.any fun msg => msg.queue = i.queue ∧ msg.seq = i.seq

/-- A configuration, and until when the item a thread was given is leased to it. -/
structure Leased where
  cfg : Config
  lease : Nat → Int

/-- `markInProgress` is a call of `Task.MarkInProgress` by the handler that thread `i` runs. -/
inductive LeasedAction where
  | act (a : Action)
  | markInProgress (i : Nat)

namespace Leased

def init (start : Int) : Leased := ⟨.init start, fun _ => 0⟩

variable (s : Leased)

/-- The leases after a request: a handler takes over the lease of its worker, and a thread
that settles its item or hands it back gives up its own. -/
def leaseAfterCall (tag : Tag) : Call → Nat → Int
  | .goHandle _ _ =>
    Function.update (Function.update s.lease s.cfg.world.nextCopy (s.lease tag.holder))
      tag.holder s.cfg.world.clock
  | .ackItem _ | .termItem _ | .nakItem _ _ =>
    Function.update s.lease tag.holder s.cfg.world.clock
  | _ => s.lease

/-- The leases after an action. A delivery grants one. -/
def leaseAfter : Action → Nat → Int
  | .deliver p _ =>
    Function.update s.lease s.cfg.world.nextCopy (s.cfg.world.clock + p.queue.maxRunTime)
  | .run _ (.failed _) => s.lease
  | .run i _ =>
    match s.cfg.nextCall i with
    | some (tag, c) => s.leaseAfterCall tag c
    | none => s.lease
  | _ => s.lease

/-- `InProgressItem` for the item of the handler: the server counts the acknowledgement wait
from now on. -/
def markInProgress (i : Nat) : Option Leased :=
  match s.cfg.threads[i]? with
  | some ⟨⟨n, .handler p _ ⟨_, some msg⟩⟩, .call (.runHandler _) _⟩ => some
      { cfg := { s.cfg with world := s.cfg.world.delayItem msg p.queue.maxRunTime }
        lease := Function.update s.lease n (s.cfg.world.clock + p.queue.maxRunTime) }
  | _ => none

def step : LeasedAction → Option Leased
  | .act a => (s.cfg.step a).map fun cfg => ⟨cfg, s.leaseAfter a⟩
  | .markInProgress i => s.markInProgress i

/-- The thread may run a handler for the task under a lease that has not ended. -/
def holds (id : String) (th : Thread jobs Tag) : Bool :=
  mayRun th ∧ (th.tag.role.item.any fun item => item.jobID = id) ∧
    s.cfg.world.clock < s.lease th.tag.holder

/-- Every handler that runs does so within its lease. -/
def handlersInTime : Bool :=
  s.cfg.threads.all fun th =>
    match th.prog with
    | .call (.runHandler _) _ => s.cfg.world.clock < s.lease th.tag.holder
    | _ => true

/-- An item is handed out only when no thread that was given it before and may still run its
handler has a lease on it. -/
def redeliversInTime : LeasedAction → Bool
  | .act (.deliver p id) =>
    s.cfg.world.items.all fun i => ¬ (i.queue = p.queue.name ∧ i.id = id) ∨
      s.cfg.threads.all fun th =>
        ¬ (mayRun th ∧ worksOn th i) ∨ s.lease th.tag.holder ≤ s.cfg.world.clock
  | _ => true

/-- The assumptions on the queue and on the handlers. -/
def assumed (a : LeasedAction) : Bool :=
  s.redeliversInTime a && (s.step a).all handlersInTime

/-- An item of the task is published only when no thread holds a lease on the task, and when
the task has no item on another queue. -/
def publishesApart (id : String) : LeasedAction → Bool
  | .act (.run i _) =>
    match s.cfg.nextCall i with
    | some (_, .publishItem queue id' msgID) =>
      id' ≠ id ∨ s.cfg.world.isDuplicate queue msgID ∨
        ((s.cfg.threads.all fun th => !s.holds id th) ∧
          s.cfg.world.items.all fun i => i.id ≠ id ∨ i.queue = queue)
    | _ => true
  | _ => true

end Leased

section Threads

variable {log : List Event} {tag : Tag}

theorem mayRun_ret : mayRun ⟨tag, .ret ()⟩ = false := by
  obtain ⟨n, role⟩ := tag
  cases role <;> rfl

theorem Accounted.mayRun_before {c : Call} {k : c.Reply → Job Unit} {r : c.Reply}
    (h : Accounted log ⟨tag, .call c k⟩) (hmay : mayRun ⟨tag, k r⟩ = true) :
    mayRun ⟨tag, .call c k⟩ = true := by
  have hrest := h.rest_runs r
  generalize k r = prog at hmay hrest
  obtain ⟨n, role⟩ := tag
  cases role with
  | worker p item => rfl
  | handler p t item =>
    cases prog with
    | ret a => cases hmay
    | call c' k' =>
      cases c' with
      | runHandler t' => exact absurd trivial hrest.1
      | _ => cases hmay
  | _ => cases hmay

/-- Only handler goroutines run handlers, each for the task it was started with. -/
theorem Accounted.runs_own {t : Copy} {k : (Call.runHandler t).Reply → Job Unit}
    (h : Accounted log ⟨tag, .call (.runHandler t) k⟩) :
    ∃ p given item, tag.role = .handler p given item ∧ t.id = given.id := by
  have hsends := h.sends.1
  obtain ⟨n, role⟩ := tag
  cases role with
  | handler p given item =>
    have ht : t = { given with tries := given.tries + 1 } := hsends
    subst ht
    exact ⟨p, given, item, rfl, rfl⟩
  | _ => exact hsends.elim

end Threads

section Clock

variable {w w' : World} {cfg cfg' : Config} {a : Action}

theorem World.exec_clock {n : Nat} {writer : Writer} {c : Call} {o : Outcome}
    {r : c.Reply}
    (h : w.exec n writer c o = some (r, w')) : w'.clock = w.clock := by
  cases exec_effect h with
  | done t err => exact finish_clock ..
  | _ => rfl

theorem Config.Step.clock_le (hs : Config.Step cfg a cfg') :
    cfg.world.clock ≤ cfg'.world.clock := by
  cases hs with
  | request hget hexec => exact (World.exec_clock hexec).ge
  | tick d => exact Int.le_add_of_nonneg_right (Int.natCast_nonneg d)
  | _ => exact Int.le_refl _

end Clock

namespace Leased

variable {s s' : Leased} {id : String} {a : Action} {cfg' : Config}

theorem holds_iff {th : Thread jobs Tag} : s.holds id th = true ↔
    mayRun th = true ∧ (∃ item, th.tag.role.item = some item ∧ item.jobID = id) ∧
      s.cfg.world.clock < s.lease th.tag.holder := by
  simp [holds, Option.any_eq_true]

theorem lease_before {n : Nat} (hn : n < s.cfg.world.nextCopy)
    (h : s.cfg.world.clock < s.leaseAfter a n) : s.cfg.world.clock < s.lease n := by
  have hupdate : ∀ {m : Nat} {lease : Nat → Int},
      s.cfg.world.clock < Function.update lease m s.cfg.world.clock n →
        s.cfg.world.clock < lease n := by
    intro m lease hlt
    by_cases hm : n = m
    · subst hm
      rw [Function.update_self] at hlt
      omega
    · rwa [Function.update_of_ne hm] at hlt
  have hne : n ≠ s.cfg.world.nextCopy := Nat.ne_of_lt hn
  unfold leaseAfter at h
  split at h
  · rwa [Function.update_of_ne hne] at h
  · exact h
  · rename_i i _ _
    cases hcall : s.cfg.nextCall i with
    | none =>
      simp only [hcall] at h
      exact h
    | some call =>
      obtain ⟨tag, c⟩ := call
      simp only [hcall] at h
      cases c with
      | goHandle t item =>
        have hlt := hupdate h
        rwa [Function.update_of_ne hne] at hlt
      | ackItem msg => exact hupdate h
      | termItem msg => exact hupdate h
      | nakItem msg delay => exact hupdate h
      | _ => exact h
  · exact h

/-- A thread that holds a lease after an action held it before, or was given its item by the
action. -/
theorem held_before (hinv : s.cfg.Inv) (hacc : s.cfg.Accounted) (hs : Config.Step s.cfg a cfg')
    {th : Thread jobs Tag} (hth : th ∈ cfg'.threads)
    (hholds : holds ⟨cfg', s.leaseAfter a⟩ id th = true) :
    (∃ before ∈ s.cfg.threads, before.tag = th.tag ∧ s.holds id before = true) ∨
      (th.tag.holder = s.cfg.world.nextCopy ∧ Config.Opened s.cfg a cfg' th.tag.role) := by
  obtain ⟨hmay, hitem, hlease⟩ := holds_iff.mp hholds
  have hlease : s.cfg.world.clock < s.leaseAfter a th.tag.holder :=
    Int.lt_of_le_of_lt hs.clock_le hlease
  cases hinv.thread_step hs hth with
  | waits mem =>
    have hbefore := lease_before (hinv.fresh th mem) hlease
    exact Or.inl ⟨th, mem, rfl, holds_iff.mpr ⟨hmay, hitem, hbefore⟩⟩
  | stops mem =>
    rw [mayRun_ret] at hmay
    cases hmay
  | moves action thread effect =>
    have hmem := List.mem_of_getElem? thread
    exact Or.inl ⟨_, hmem, rfl, holds_iff.mpr ⟨(hacc.threads _ hmem).mayRun_before hmay, hitem,
      lease_before (hinv.fresh _ hmem) hlease⟩⟩
  | starts opened => exact Or.inr ⟨rfl, opened⟩

end Leased

end AsyncJobs
