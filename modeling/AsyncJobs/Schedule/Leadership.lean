import AsyncJobs.Election.Progress
import AsyncJobs.Model.Scheduler

/-!
# Schedulers that elect a leader

Every scheduler keeps the whole cron table, and a firing creates a task only where the
callbacks of the election have set the leader flag. Any number of schedulers run against one
clock. The flag of each follows its election, so that at any time at most one of them creates
tasks, and a new leader begins only when the firings of the old one are about half a TTL ago.
-/

namespace AsyncJobs

open Election

namespace TaskScheduler

variable {σ : Type} (s : TaskScheduler σ)

def onWon : TaskScheduler σ := { s with leader := true }

def onLost : TaskScheduler σ := { s with leader := false }

def notified : Callback → TaskScheduler σ
  | .won => s.onWon
  | .lost => s.onLost

@[simp] theorem handleEntry_leader (parse : String → Except Error σ)
    (entry : Option ScheduleWatchEntry) : (s.handleEntry parse entry).leader = s.leader := by
  unfold handleEntry deleteItem
  split
  · rfl
  · split_ifs
    · split <;> rfl
    · split
      · rfl
      · split <;> rfl

variable {s} {name id : String} {fired created : Int}

theorem handlerFactory_follower (h : s.leader = false) :
    s.handlerFactory name id fired created = return () := by
  simp only [handlerFactory, h, Bool.not_false, if_true]
  split <;> rfl

theorem handlerFactory_leader (h : s.leader = true) {task : RegisteredTask} {nt : Copy}
    (htask : s.tasks.lookup name = some task)
    (hnt : task.item.createTask id fired created = .ok nt) :
    s.handlerFactory name id fired created = do
      let _ ← Storage.enqueueTask { name := task.item.queue } nt
      return () := by
  simp only [handlerFactory, htask, h, Bool.not_true, Bool.false_eq_true, if_false, hnt]

theorem leader_of_call {c : Call} {k : Call.Reply c → Job Unit}
    (h : s.handlerFactory name id fired created = .call c k) : s.leader = true := by
  cases hleader : s.leader with
  | true => rfl
  | false =>
    rw [handlerFactory_follower hleader] at h
    cases h

end TaskScheduler

structure ScheduleFiring (n : Nat) where
  scheduler : Fin n
  time : Nat
  deriving DecidableEq

/-- Schedulers with the instances of their election and the firings so far. -/
structure Schedulers (σ : Type) (n : Nat) where
  election : Timed n
  schedulers : Fin n → TaskScheduler σ
  firings : List (ScheduleFiring n) := []

inductive SchedulersAction (n : Nat) where
  | election (a : TimedAction n)
  | watch (i : Fin n) (entry : Option ScheduleWatchEntry)
  | fire (i : Fin n) (name id : String) (fired created : Int)

def SchedulersAction.quiet {n : Nat} : SchedulersAction n → Bool
  | .election a => a.quiet
  | .watch _ _ => true
  | .fire _ _ _ _ _ => true

namespace Schedulers

variable {σ : Type} {n : Nat}

/-- `startElection` sets both callbacks. -/
def new : Schedulers σ n where
  election := .new fun _ => {}
  schedulers _ := {}

/-- The callbacks that instance `i` made in a step of the election. -/
def callbacks (t t' : Timed n) (i : Fin n) : List Callback :=
  (t'.cluster.members i).calls.drop (t.cluster.members i).calls.length

def step (T : Timing) (parse : String → Except Error σ) (s : Schedulers σ n) :
    SchedulersAction n → Option (Schedulers σ n)
  | .election a =>
    (s.election.step T a).map fun t =>
      { s with
        election := t
        schedulers := fun i =>
          (callbacks s.election t i).foldl TaskScheduler.notified (s.schedulers i) }
  | .watch i entry =>
    some { s with
      schedulers :=
        Function.update s.schedulers i ((s.schedulers i).handleEntry parse entry) }
  | .fire i name id fired created =>
    if (s.schedulers i).cron.entries.any fun e => e.job = name then
      match (s.schedulers i).handlerFactory name id fired created with
      | .ret _ => some s
      | .call _ _ => some { s with firings := s.firings ++ [⟨i, s.election.clock⟩] }
    else none

def run (T : Timing) (parse : String → Except Error σ) (s : Schedulers σ n)
    (actions : List (SchedulersAction n)) : Option (Schedulers σ n) :=
  Interaction.run (step T parse) s actions

end Schedulers

namespace Election

theorem Life.Inv.announces_step {l l' : Life} {event : Event} (h : l.Inv)
    (hstep : l.step event = some l') :
    ∃ calls, l'.calls = l.calls ++ calls ∧ Announces l.inst l'.inst calls := by
  cases Life.stepped hstep with
  | refused parentDone hstarted => exact ⟨[], by simp, .silent rfl⟩
  | started parentDone hstarted =>
    have hidle : l.phase = .idle := by simpa [hstarted] using h.started
    refine ⟨[], by simp, .silent ?_⟩
    rw [h.not_leader hidle]
    simp [Instance.isLeader]
  | canceled => exact ⟨[], by simp, .silent rfl⟩
  | ticked reply hphase => exact ⟨_, rfl, Instance.tryOnce_announces h.onWon h.onLost reply⟩
  | stopped hphase => exact ⟨_, rfl, Instance.shutdown_announces h.onLost⟩

namespace Timed

variable {n : Nat} {T : Timing} {t t' : Timed n} {a : TimedAction n} {i : Fin n} {event : Event}

theorem Inv.acts (h : t.Inv T) (hstep : t.step T a = some t') :
    (t.clock ≤ t'.clock ∧ t'.cluster.members = t.cluster.members) ∨
      ∃ i event, (t.cluster.members i).step event = some (t'.cluster.members i) ∧
        t.Others t' i := by
  cases a with
  | wait d =>
    simp only [Timed.step] at hstep
    split_ifs at hstep
    cases hstep
    exact Or.inl ⟨Nat.le_add_right _ _, rfl⟩
  | start i parentDone splay =>
    obtain ⟨hm, -⟩ := moved_start hstep
    exact Or.inr ⟨i, _, hm.step, hm.others⟩
  | cancel i =>
    obtain ⟨hm, -⟩ := moved_cancel hstep
    exact Or.inr ⟨i, _, hm.step, hm.others⟩
  | shutdown i =>
    obtain ⟨hm, -⟩ := moved_shutdown hstep
    exact Or.inr ⟨i, _, hm.step, hm.others⟩
  | tick i =>
    have htick := ticked hstep
    exact Or.inr ⟨i, _, htick.step, htick.others⟩
  | abort i reached =>
    have habort := h.aborted hstep
    obtain ⟨reply, hlife⟩ := habort.step
    exact Or.inr ⟨i, _, hlife, habort.others⟩

theorem Inv.clock_le (h : t.Inv T) (hstep : t.step T a = some t') : t.clock ≤ t'.clock := by
  rcases h.acts hstep with ⟨hle, -⟩ | ⟨i, event, -, hothers⟩
  · exact hle
  · exact hothers.1.ge

theorem Inv.step_member (h : t.Inv T) (hstep : t.step T a = some t') (k : Fin n) :
    t'.cluster.members k = t.cluster.members k ∨
      ∃ event, (t.cluster.members k).step event = some (t'.cluster.members k) := by
  rcases h.acts hstep with ⟨-, hmembers⟩ | ⟨i, event, hlife, hothers⟩
  · rw [hmembers]
    exact Or.inl rfl
  · by_cases hk : k = i
    · subst hk
      exact Or.inr ⟨event, hlife⟩
    · exact Or.inl (hothers.2 k hk).1

/-- How an instance came to be in the leader state after a step. -/
inductive Leads (T : Timing) (t t' : Timed n) (j : Fin n) : Prop
  | kept (hstate : (t.inst j).state = .leader)
      (hnotify : (t'.inst j).notifyNext = (t.inst j).notifyNext)
      (hnext : t'.nextTick j = t.nextTick j)
  | renewed (hstate : (t.inst j).state = .leader) (hdue : t.nextTick j ≤ t.clock)
      (hleader : (t'.inst j).isLeader = true)
  | won (hlate : t.clock + T.interval ≤ t'.nextTick j + T.latency)
      (hnotify : (t'.inst j).notifyNext = true)

theorem Others.leads (h : t.Others t' i) {j : Fin n} (hji : j ≠ i)
    (hj : (t'.inst j).state = .leader) : t.Leads T t' j := by
  have hinst := h.inst hji
  rw [hinst] at hj
  exact .kept hj (by rw [hinst]) (h.2 j hji).2

theorem Moved.leads (h : t.Moved i event t') (hi : t.Member T i)
    (hleader : (t'.inst i).state = .leader) : t.Leads T t' i := by
  obtain ⟨hstate, -, hnotify⟩ := h.kept hleader
  exact .kept hstate hnotify (h.nextTick (hi.running.leader hstate))

theorem Ticked.leads (h : t.Ticked T i t') (hi : t.Member T i)
    (hleader : (t'.inst i).state = .leader) : t.Leads T t' i := by
  have hinTime := hi.inTime (hi.started h.step)
  have hnext := h.nextTick
  cases h.served with
  | renewed hstate _ _ _ hrenewed _ => exact .renewed hstate h.due hrenewed
  | won _ _ _ _ _ _ hnotify => exact .won (by omega) hnotify
  | lost _ _ _ _ hstate' => simp [hstate'] at hleader
  | waited _ _ _ _ hstate' => simp [hstate'] at hleader
  | unknown _ _ _ hstate' => simp [hstate'] at hleader

theorem Aborted.leads (h : t.Aborted T i t') (hleader : (t'.inst i).state = .leader) :
    t.Leads T t' i := by
  obtain ⟨tries, hinst⟩ := h.inst
  rw [hinst] at hleader
  exact .kept hleader (by rw [hinst]) h.nextTick

theorem Inv.leadership (h : t.Inv T) (hstep : t.step T a = some t') {j : Fin n}
    (hj : (t'.inst j).state = .leader) : t.Leads T t' j := by
  -- either the instance itself acts or it is one of the others
  cases a with
  | wait d =>
    simp only [Timed.step] at hstep
    split_ifs at hstep
    cases hstep
    exact .kept hj rfl rfl
  | start i parentDone splay =>
    obtain ⟨hm, -⟩ := moved_start hstep
    by_cases hji : j = i
    · subst hji
      exact hm.leads (h.member j) hj
    · exact hm.others.leads hji hj
  | cancel i =>
    obtain ⟨hm, -⟩ := moved_cancel hstep
    by_cases hji : j = i
    · subst hji
      exact hm.leads (h.member j) hj
    · exact hm.others.leads hji hj
  | shutdown i =>
    obtain ⟨hm, -⟩ := moved_shutdown hstep
    by_cases hji : j = i
    · subst hji
      exact hm.leads (h.member j) hj
    · exact hm.others.leads hji hj
  | tick i =>
    have htick := ticked hstep
    by_cases hji : j = i
    · subst hji
      exact htick.leads (h.member j) hj
    · exact htick.others.leads hji hj
  | abort i reached =>
    have habort := h.aborted hstep
    by_cases hji : j = i
    · subst hji
      exact habort.leads hj
    · exact habort.others.leads hji hj

end Timed

end Election

namespace Schedulers

variable {σ : Type} {n : Nat} {T : Timing} {parse : String → Except Error σ}
  {s s' : Schedulers σ n}

/-- The flag of a scheduler says whether its instance is leader. An instance that has yet to
be announced waits for the rest of its interval, and one that is announced has waited since
the last firing of any other scheduler. -/
structure Inv (T : Timing) (s : Schedulers σ n) : Prop where
  timed : s.election.Inv T
  lives : ∀ i, (s.election.cluster.members i).Inv
  flag : ∀ i, (s.schedulers i).leader = (s.election.inst i).isLeader
  past : ∀ f ∈ s.firings, f.time ≤ s.election.clock
  pending : ∀ f ∈ s.firings, ∀ j, j ≠ f.scheduler → (s.election.inst j).state = .leader →
    (s.election.inst j).notifyNext = true → f.time + T.interval ≤ s.election.nextTick j + T.latency
  waited : ∀ f ∈ s.firings, ∀ j, j ≠ f.scheduler → (s.election.inst j).isLeader = true →
    f.time + T.interval ≤ s.election.clock + T.latency
  apart : ∀ f ∈ s.firings, ∀ g ∈ s.firings, f.scheduler ≠ g.scheduler → f.time ≤ g.time →
    f.time + T.interval ≤ g.time + T.latency

theorem flag_notified {l l' : Life} {sched : TaskScheduler σ} {calls : List Callback}
    (hflag : sched.leader = l.inst.isLeader) (hcalls : Announces l.inst l'.inst calls) :
    (calls.foldl TaskScheduler.notified sched).leader = l'.inst.isLeader := by
  cases hcalls with
  | silent hsame => exact hflag.trans hsame.symm
  | won hbefore hafter => exact hafter.symm
  | lost hbefore hafter => exact hafter.symm

theorem Inv.flag_step (h : s.Inv T) {a : TimedAction n} {t : Timed n}
    (hstep : s.election.step T a = some t) (i : Fin n) :
    ((callbacks s.election t i).foldl TaskScheduler.notified (s.schedulers i)).leader
      = (t.inst i).isLeader := by
  unfold callbacks
  rcases h.timed.step_member hstep i with hsame | ⟨event, hevent⟩
  · have hinst : t.inst i = s.election.inst i := by simp only [Timed.inst, Cluster.inst, hsame]
    rw [hsame, List.drop_length, hinst]
    exact h.flag i
  · obtain ⟨calls, hcalls, hannounces⟩ := (h.lives i).announces_step hevent
    rw [hcalls, List.drop_left]
    exact flag_notified (h.flag i) hannounces

theorem Inv.election (h : s.Inv T) {a : TimedAction n} {t : Timed n}
    (hstep : s.election.step T a = some t) :
    Inv T { s with
      election := t
      schedulers := fun i =>
        (callbacks s.election t i).foldl TaskScheduler.notified (s.schedulers i) } := by
  have hclock := h.timed.clock_le hstep
  constructor
  · exact h.timed.step hstep
  · intro i
    rcases h.timed.step_member hstep i with hsame | ⟨event, hevent⟩
    · simp only [hsame]
      exact h.lives i
    · exact (h.lives i).step hevent
  · exact h.flag_step hstep
  · intro f hf
    exact (h.past f hf).trans hclock
  · intro f hf j hj hstate hnotify
    have hpast := h.past f hf
    cases h.timed.leadership hstep hstate with
    | kept hbefore hsame hnext =>
      rw [hnext]
      exact h.pending f hf j hj hbefore (hsame ▸ hnotify)
    | renewed _ _ hleader => simp [Instance.isLeader, hnotify] at hleader
    | won hlate _ =>
      simp only
      omega
  · intro f hf j hj hleader
    have hstate : (t.inst j).state = .leader := by
      simp only [Instance.isLeader, decide_eq_true_eq] at hleader
      exact hleader.1
    have hearlier : (s.election.inst j).isLeader = true →
        f.time + T.interval ≤ t.clock + T.latency := by
      intro hbefore
      have hwaited := h.waited f hf j hj hbefore
      omega
    cases h.timed.leadership hstep hstate with
    | kept hbefore hsame hnext =>
      apply hearlier
      simp only [Instance.isLeader, decide_eq_true_eq] at hleader ⊢
      exact ⟨hbefore, hsame ▸ hleader.2⟩
    | renewed hbefore hdue _ =>
      cases hnotify : (s.election.inst j).notifyNext with
      | true =>
        have hpending := h.pending f hf j hj hbefore hnotify
        simp only
        omega
      | false => exact hearlier (by simp [Instance.isLeader, hbefore, hnotify])
    | won _ hnotify => simp [Instance.isLeader, hnotify] at hleader
  · exact h.apart

theorem Inv.fire (h : s.Inv T) {i : Fin n} (hleader : (s.schedulers i).leader = true) :
    Inv T { s with firings := s.firings ++ [⟨i, s.election.clock⟩] } := by
  rw [h.flag i] at hleader
  have hstate : (s.election.inst i).state = .leader := by
    simp only [Instance.isLeader, decide_eq_true_eq] at hleader
    exact hleader.1
  constructor
  · exact h.timed
  · exact h.lives
  · exact h.flag
  · intro f hf
    rcases List.mem_append.mp hf with hold | hnew
    · exact h.past f hold
    · rw [List.mem_singleton.mp hnew]
  · intro f hf j hj hother hnotify
    rcases List.mem_append.mp hf with hold | hnew
    · exact h.pending f hold j hj hother hnotify
    · rw [List.mem_singleton.mp hnew] at hj
      exact absurd (h.timed.single j i hother hstate) hj
  · intro f hf j hj hother
    rcases List.mem_append.mp hf with hold | hnew
    · exact h.waited f hold j hj hother
    · rw [List.mem_singleton.mp hnew] at hj
      exact absurd (h.timed.unique hother hleader) hj
  · intro f hf g hg hne hle
    rcases List.mem_append.mp hf with hold | hnew
    · rcases List.mem_append.mp hg with hold' | hnew'
      · exact h.apart f hold g hold' hne hle
      · rw [List.mem_singleton.mp hnew'] at hne ⊢
        exact h.waited f hold i hne.symm hleader
    · rw [List.mem_singleton.mp hnew] at hne hle ⊢
      rcases List.mem_append.mp hg with hold' | hnew'
      · have hwaited := h.waited g hold' i hne hleader
        have hpast := h.past g hold'
        simp only at hle ⊢
        omega
      · rw [List.mem_singleton.mp hnew'] at hne
        exact absurd rfl hne

theorem Inv.step (h : s.Inv T) {a : SchedulersAction n} (hstep : s.step T parse a = some s') :
    s'.Inv T := by
  cases a with
  | election a =>
    obtain ⟨t, ht, hs⟩ := Option.map_eq_some_iff.mp hstep
    subst hs
    exact h.election ht
  | watch i entry =>
    cases hstep
    refine ⟨h.timed, h.lives, ?_, h.past, h.pending, h.waited, h.apart⟩
    intro k
    by_cases hk : k = i
    · subst hk
      simpa using h.flag k
    · simpa [hk] using h.flag k
  | fire i name id fired created =>
    simp only [Schedulers.step] at hstep
    split_ifs at hstep
    split at hstep
    · cases hstep
      exact h
    · rename_i c k hcall
      cases hstep
      exact h.fire (TaskScheduler.leader_of_call hcall)

theorem inv_new (T : Timing) : (new : Schedulers σ n).Inv T := by
  constructor
  · exact Timed.inv_new T _
  · intro i
    exact Life.inv_new rfl rfl
  · intro i
    simp [new, Timed.new, Timed.inst, Cluster.new, Cluster.inst, Instance.isLeader]
  all_goals simp [new]

theorem Inv.run (h : s.Inv T) {actions : List (SchedulersAction n)}
    (hrun : s.run T parse actions = some s') : s'.Inv T :=
  Interaction.run_induction (fun h hstep => h.step hstep) actions h hrun

/-- An election makes progress whatever else the schedulers do. -/
theorem Inv.progress_step {since : Nat} {k : Fin n} {a : SchedulersAction n}
    (h : s.Inv T ∧ (s.election.inst k).started = true ∧ s.election.Progress T since k)
    (ha : a.quiet = true) (hstep : s.step T parse a = some s') :
    s'.Inv T ∧ (s'.election.inst k).started = true ∧ s'.election.Progress T since k := by
  obtain ⟨hinv, hk, hp⟩ := h
  have hinv' := hinv.step hstep
  cases a with
  | election a =>
    obtain ⟨t, ht, hs⟩ := Option.map_eq_some_iff.mp hstep
    subst hs
    obtain ⟨-, hk', hp'⟩ := Timed.Progress.step ⟨hinv.timed, hk, hp⟩ ha ht
    exact ⟨hinv', hk', hp'⟩
  | watch i entry =>
    cases hstep
    exact ⟨hinv', hk, hp⟩
  | fire i name id fired created =>
    simp only [Schedulers.step] at hstep
    split_ifs at hstep
    split at hstep
    all_goals
      cases hstep
      exact ⟨hinv', hk, hp⟩

end Schedulers

/-- Whatever the schedulers go through, firings of two different ones that both enqueue a task
lie an interval less the latency apart, so about half the TTL of the bucket. -/
theorem firings_of_two_schedulers_lie_apart {σ : Type} (T : Timing)
    (parse : String → Except Error σ) (n : Nat) (actions : List (SchedulersAction n))
    (s : Schedulers σ n) (hrun : Schedulers.new.run T parse actions = some s)
    (f g : ScheduleFiring n) (hf : f ∈ s.firings) (hg : g ∈ s.firings)
    (hne : f.scheduler ≠ g.scheduler) (hle : f.time ≤ g.time) :
    f.time + T.interval ≤ g.time + T.latency :=
  ((Schedulers.inv_new T).run hrun).apart f hf g hg hne hle

def nightlyTask : ScheduledTask :=
  { name := "nightly", schedule := "@midnight", queue := "EMAIL", taskType := "email:new"
    maxTries := 10, createdAt := 0 }

def nightlyEntry : ScheduleWatchEntry := { name := "nightly", task := some nightlyTask }

/-- Both schedulers know the schedule. The first one fires as leader and leaves, and the second
one takes over. -/
def nightlyHandOver {n : Nat} (i j : Fin n) : List (SchedulersAction n) :=
  (twoStarts i j ++ campaigns i j ++ [TimedAction.tick i]).map .election ++
    [.watch i (some nightlyEntry), .watch j (some nightlyEntry), .fire i "nightly" "T1" 0 0,
      .fire j "nightly" "T2" 0 0] ++
    ([.cancel i, .shutdown i, .wait Election.second, .tick j, .wait (15 * Election.second / 2),
      .tick j, .wait (15 * Election.second / 2), .tick j, .wait (15 * Election.second / 2),
      .tick j] : List (TimedAction n)).map .election ++
    [.fire j "nightly" "T3" 1 1]

theorem firings_of_two_schedulers_lie_apart_at_handover : ∃ s : Schedulers Unit 2, ∃ f g,
    Schedulers.new.run defaultTiming (fun _ => .ok ()) (nightlyHandOver 0 1) = some s ∧
      s.firings = [f, g] ∧ f.scheduler = 0 ∧ g.scheduler = 1 ∧
      f.time + defaultTiming.interval ≤ g.time + defaultTiming.latency := by
  have hrun : ((Schedulers.new : Schedulers Unit 2).run defaultTiming (fun _ => .ok ())
      (nightlyHandOver 0 1)).any (fun s =>
        decide (s.firings = [⟨0, 15 * Election.second / 2⟩, ⟨1, 31 * Election.second⟩]))
      = true := by
    decide +kernel
  obtain ⟨s, hs, hfirings⟩ := (Option.any_eq_true _ _).mp hrun
  have hfirings := of_decide_eq_true hfirings
  refine ⟨s, _, _, hs, hfirings, rfl, rfl, ?_⟩
  apply firings_of_two_schedulers_lie_apart defaultTiming (fun _ => .ok ()) 2 (nightlyHandOver 0 1)
    s hs
  · simp [hfirings]
  · simp [hfirings]
  · decide
  · decide

/-- From any reachable state on with a scheduler whose election is started, when nobody is
started or stopped for the TTL and two campaigns, firings create tasks on exactly one
scheduler. -/
theorem one_scheduler_enqueues_after_election {σ : Type} (T : Timing)
    (parse : String → Except Error σ) (n : Nat) (before actions : List (SchedulersAction n))
    (s s' : Schedulers σ n) (k : Fin n) (hbefore : Schedulers.new.run T parse before = some s)
    (hstarted : (s.election.inst k).started = true)
    (hrun : s.run T parse actions = some s') (hquiet : ∀ a ∈ actions, a.quiet = true)
    (helapsed :
      s.election.clock + T.ttl + 2 * (T.interval + T.latency) < s'.election.clock) :
    ∃ i, (∀ name id fired created task nt, (s'.schedulers i).tasks.lookup name = some task →
        task.item.createTask id fired created = .ok nt →
        (s'.schedulers i).handlerFactory name id fired created = do
          let _ ← Storage.enqueueTask { name := task.item.queue } nt
          return ()) ∧
      ∀ j, j ≠ i → ∀ name id fired created,
        (s'.schedulers j).handlerFactory name id fired created = return () := by
  have hinv := (Schedulers.inv_new T).run hbefore
  obtain ⟨hinv', hk, hp⟩ := Interaction.run_induction_of Schedulers.Inv.progress_step actions
    hquiet ⟨hinv, hstarted, hinv.timed.progress hstarted⟩ hrun
  obtain ⟨i, hi⟩ := hp.done hinv'.timed hk helapsed
  refine ⟨i, ?_, ?_⟩
  · intro name id fired created task nt htask hnt
    exact TaskScheduler.handlerFactory_leader ((hinv'.flag i).trans hi) htask hnt
  · intro j hj name id fired created
    apply TaskScheduler.handlerFactory_follower
    rw [hinv'.flag j]
    by_contra hleader
    exact hj (hinv'.timed.unique (by simpa using hleader) hi)

/-- Both schedulers have started their elections and know the schedule. -/
def nightlyStart {n : Nat} (i j : Fin n) : List (SchedulersAction n) :=
  (twoStarts i j).map .election ++ [.watch i (some nightlyEntry), .watch j (some nightlyEntry)]

theorem one_scheduler_enqueues_of_two : ∃ s s' : Schedulers Unit 2,
    Schedulers.new.run defaultTiming (fun _ => .ok ()) (nightlyStart 0 1) = some s ∧
      s.run defaultTiming (fun _ => .ok ())
        ((campaigns 0 1 ++ campaigns 0 1 ++ campaigns 0 1 ++ campaigns 0 1).map .election)
        = some s' ∧
      ∃ i nt, ((s'.schedulers i).handlerFactory "nightly" "T1" 0 0 = do
          let _ ← Storage.enqueueTask { name := "EMAIL" } nt
          return ()) ∧
        ∀ j, j ≠ i → ∀ name id fired created,
          (s'.schedulers j).handlerFactory name id fired created = return () := by
  have hrun : ((Schedulers.new : Schedulers Unit 2).run defaultTiming (fun _ => .ok ())
      (nightlyStart 0 1)).any (fun s => (s.election.inst 0).started &&
        (s.run defaultTiming (fun _ => .ok ())
          ((campaigns 0 1 ++ campaigns 0 1 ++ campaigns 0 1 ++ campaigns 0 1).map .election)).any
          (fun s' => decide (s.election.clock + defaultTiming.ttl
              + 2 * (defaultTiming.interval + defaultTiming.latency) < s'.election.clock) &&
            decide (∀ i, (s'.schedulers i).tasks.lookup "nightly" = some ⟨nightlyTask, 1⟩)))
      = true := by
    decide +kernel
  obtain ⟨s, hs, hrest⟩ := (Option.any_eq_true _ _).mp hrun
  obtain ⟨hstarted, hrest⟩ := Bool.and_eq_true_iff.mp hrest
  obtain ⟨s', hs', hrest⟩ := (Option.any_eq_true _ _).mp hrest
  obtain ⟨helapsed, hknown⟩ := Bool.and_eq_true_iff.mp hrest
  obtain ⟨nt, hnt⟩ : ∃ nt, nightlyTask.createTask "T1" 0 0 = .ok nt := ⟨_, rfl⟩
  obtain ⟨i, henqueues, hothers⟩ := one_scheduler_enqueues_after_election defaultTiming
    (fun _ => .ok ()) 2 _ _ s s' 0 hs hstarted hs' (by decide) (of_decide_eq_true helapsed)
  exact ⟨s, s', hs, hs', i, nt,
    henqueues "nightly" "T1" 0 0 _ nt (of_decide_eq_true hknown i) hnt, hothers⟩

end AsyncJobs
