import AsyncJobs.Model.Calls
import AsyncJobs.System.Reachable

/-!
# Who did what

Each thread runs one entry point, so what it can store, start, run and hand back is fixed when
it starts. Every event of the log is the work of some thread, within what its entry point may
do. A worker starts at most one handler, and a handler goroutine has done nothing before it
runs its handler.
-/

namespace AsyncJobs

open Interaction

/-- What a thread may ask for, apart from the requests everybody may send. -/
structure Scope where
  loads : String → Prop := fun _ => False
  saves : Copy → Prop := fun _ => False
  starts : Copy → ProcessItem → Prop := fun _ _ => False
  runs : Copy → Prop := fun _ => False
  returns : Option Copy → Prop := fun _ => False

def Scope.Allows (s : Scope) : Call → Prop
  | .readLast .task id => s.loads id
  | .publishTask t => s.saves t
  | .goHandle t item => s.starts t item
  | .runHandler t => s.runs t
  | .done t _ => s.returns t
  | _ => True

def Role.scope : Role → Scope
  | .worker _ item =>
    { loads := fun id => id = item.jobID
      saves := fun _ => True
      starts := fun _ given => given = item }
  | .handler _ t _ =>
    { saves := fun _ => True, runs := fun x => x = { t with tries := t.tries + 1 } }
  | .enqueue c t =>
    { saves := fun x => c.Submits t.toTask x.toTask
      returns := fun x => ∃ y, x = some y ∧ c.Returns t.toTask y.toTask }
  | .enqueueInto queue t =>
    { saves := fun x => Storage.Submission queue t.toTask x.toTask
      returns := fun x => ∃ y, x = some y ∧
        (y.toTask = t.toTask ∨ Storage.Submission queue t.toTask y.toTask) }
  | .retry c id =>
    { loads := fun id' => id' = id
      saves := fun x => x.queue = c.opts.queue.name
      returns := fun x => x = none }
  | .load _ id => { loads := fun id' => id' = id, returns := fun _ => True }
  | .delete _ => { returns := fun x => x = none }

def Role.Sends (role : Role) : Call → Prop := role.scope.Allows

theorem Role.sends_quiet (role : Role) (c : Call) (hc : c.Quiet) : role.Sends c := by
  cases c with
  | readLast use id =>
    cases use with
    | task => exact hc.elim
    | dependency => trivial
    | delete => trivial
  | publishTask t => exact hc.elim
  | goHandle t item => exact hc.elim
  | runHandler t => exact hc.elim
  | done t err => exact hc.elim
  | _ => trivial

theorem Role.prog_sends (role : Role) : role.prog.Yields role.Sends fun _ => True := by
  have hquiet := role.sends_quiet
  cases role with
  | worker p item =>
    exact Processor.processItem_yields hquiet p (fun _ => trivial) (fun _ => rfl) rfl
  | handler p t item => exact Processor.handle_yields hquiet p item (fun _ => trivial) rfl
  | enqueue c t =>
    have hsaves : ∀ x : Copy, c.Submits t.toTask x.toTask → (Role.enqueue c t).Sends
      (.publishTask x) := fun _ h => h
    apply (Client.enqueueTask_yields (fun _ => trivial) c (fun _ _ _ => trivial)
      (fun _ => trivial) hsaves).bind
    rintro ⟨err, task⟩ htask
    exact ⟨⟨task, rfl, htask⟩, fun _ => trivial⟩
  | enqueueInto queue t =>
    have hsaves : ∀ x : Copy, Storage.Submission queue t.toTask x.toTask →
      (Role.enqueueInto queue t).Sends (.publishTask x) := fun _ h => h
    apply (Storage.enqueueTask_yields (fun _ => trivial) queue t (fun _ _ _ => trivial)
      hsaves).bind
    rintro ⟨err, task⟩ htask
    exact ⟨⟨task, rfl, htask⟩, fun _ => trivial⟩
  | retry c id =>
    apply (Storage.retryTaskByID_yields hquiet c.opts.queue rfl (fun _ _ _ => trivial)
      fun _ h => h).bind
    intro err _
    exact ⟨rfl, fun _ => trivial⟩
  | load c id =>
    have hload : (Role.load c id).Sends (.readLast .task id) := rfl
    apply (Client.loadTaskByID_yields hquiet c hload).bind
    intro loaded _
    cases loaded with
    | error err => exact ⟨trivial, fun _ => trivial⟩
    | ok task => exact ⟨trivial, fun _ => trivial⟩
  | delete id =>
    apply (Storage.deleteTaskByID_yields hquiet id).bind
    intro err _
    exact ⟨rfl, fun _ => trivial⟩

/-- An entry point without handlers in its scope starts none. -/
theorem Role.prog_starts_none (role : Role) (hscope : ∀ t item, ¬ role.scope.starts t item) :
    role.prog.Yields (¬ Call.Starts ·) fun _ => True := by
  apply role.prog_sends.mono _ fun _ h => h
  intro c hc
  cases c with
  | goHandle t item => exact absurd hc (hscope t item)
  | _ => exact id

theorem Role.prog_runs_none (role : Role) (hscope : ∀ t, ¬ role.scope.runs t) :
    role.prog.Yields (¬ Call.Runs ·) fun _ => True := by
  apply role.prog_sends.mono _ fun _ h => h
  intro c hc
  cases c with
  | runHandler t => exact absurd hc (hscope t)
  | _ => exact id

theorem Role.handler_or_runs_none (role : Role) :
    (∃ p t item, role = .handler p t item) ∨ ∀ t, ¬ role.scope.runs t := by
  cases role with
  | handler p t item => exact Or.inl ⟨p, t, item, rfl⟩
  | _ => exact Or.inr fun _ => id

theorem Role.prog_once (role : Role) : role.prog.Once Call.Starts := by
  cases role with
  | worker p item => exact p.processItem_once item
  | _ => exact (Role.prog_starts_none _ fun _ _ => id).once

def Event.actor : Event → Option Nat
  | .read n _ _ _ _ | .saved n _ _ _ _ | .deleted n _ | .passed n _ _ | .started n _ _ _
  | .returned n _ | .published n _ _ _ | .unqueued n | .removed n _ => some n
  | .dropped _ | .submitted _ _ _ => none

def Role.Recorded (role : Role) : Event → Prop
  | .read _ _ .task found _ =>
    ∃ id, role.scope.loads id ∧ (World.isWildcard id = true ∨ found.task.id = id)
  | .saved _ writer _ new _ => role.writer = writer ∧ ∃ rev, role.scope.saves ⟨new.task, rev⟩
  | .started _ _ t item => role.scope.starts t item
  | .passed _ _ t => role.scope.returns (some t)
  | _ => True

def Event.ProducedBy (writer : Writer) (c : Call) : Event → Prop
  | .read _ loader use found _ => loader = writer ∧ ∃ id, c = .readLast use id ∧
    (World.isWildcard id = true ∨ found.task.id = id)
  | .saved _ saver _ new _ => saver = writer ∧ ∃ t : Copy, c = .publishTask t ∧ new.task = t.toTask
  | .started _ _ t item => c = .goHandle t item
  | .passed _ _ t => ∃ err, c = .done (some t) err
  | _ => True

theorem Effect.acts {n : Nat} {writer : Writer} {w w' : World} {c : Call}
    (he : Effect n writer w c w') :
    ∃ es, w'.log = es ++ w.log ∧ ∀ e ∈ es, e.actor = some n ∧
      (e.subject = some n ∨ e.subject = some w.nextCopy) ∧ e.ProducedBy writer c := by
  have hone : ∀ e : Event, w'.log = e :: w.log → e.actor = some n →
      (e.subject = some n ∨ e.subject = some w.nextCopy) → e.ProducedBy writer c →
      ∃ es, w'.log = es ++ w.log ∧ ∀ e ∈ es, e.actor = some n ∧
        (e.subject = some n ∨ e.subject = some w.nextCopy) ∧ e.ProducedBy writer c := by
    intro e hlog hactor hsubject hproduced
    refine ⟨[e], hlog, fun e' he' => ?_⟩
    rw [List.mem_singleton.mp he']
    exact ⟨hactor, hsubject, hproduced⟩
  have hsilent : w'.log = w.log → ∃ es, w'.log = es ++ w.log ∧ ∀ e ∈ es, e.actor = some n ∧
      (e.subject = some n ∨ e.subject = some w.nextCopy) ∧ e.ProducedBy writer c := by
    intro hlog
    exact ⟨[], hlog, by simp⟩
  cases he with
  | unchanged => exact hsilent rfl
  | read found => exact hone _ rfl rfl (Or.inl rfl) ⟨rfl, _, rfl, World.readLast_names found⟩
  | save accepted acked => exact hone _ rfl rfl (Or.inl rfl) ⟨rfl, _, rfl, rfl⟩
  | delete found => exact hone _ rfl rfl (Or.inl rfl) trivial
  | queue q id msgID => exact hone _ rfl rfl (Or.inl rfl) trivial
  | queueUnanswered q id msgID =>
    refine ⟨[.unqueued n, .published n q id (w.itemSeq + 1)], rfl, ?_⟩
    rw [List.forall_mem_cons, List.forall_mem_singleton]
    exact ⟨⟨rfl, Or.inl rfl, trivial⟩, rfl, Or.inl rfl, trivial⟩
  | unqueued q id msgID => exact hone _ rfl rfl (Or.inl rfl) trivial
  | ack msg => exact hone _ rfl rfl (Or.inl rfl) trivial
  | term msg => exact hone _ rfl rfl (Or.inl rfl) trivial
  | nak msg delay => exact hsilent rfl
  | start t item => exact hone _ rfl rfl (Or.inr rfl) rfl
  | release => exact hsilent rfl
  | done t err =>
    cases t with
    | none => exact hone _ rfl rfl (Or.inl rfl) trivial
    | some t =>
      refine ⟨[.passed n w.nextCopy t, .returned n err], rfl, ?_⟩
      rw [List.forall_mem_cons, List.forall_mem_singleton]
      exact ⟨⟨rfl, Or.inr rfl, err, rfl⟩, rfl, Or.inl rfl, trivial⟩

/-- Only a load and an acknowledged save of its own tell a copy anything new. -/
theorem Effect.known_cases {n : Nat} {writer : Writer} {w w' : World} {c : Call}
    (he : Effect n writer w c w') (hn : n < w.nextCopy) :
    known n w'.log = known n w.log ∨ (∃ id, c = .readLast .task id) ∨
      ∃ t seq, c = .publishTask t ∧ known n w'.log = some ⟨seq, t.toTask⟩ := by
  have hnext : some w.nextCopy ≠ some n := fun heq => Nat.ne_of_gt hn (Option.some.inj heq)
  cases he with
  | @read use id m found =>
    cases use with
    | task => exact Or.inr (Or.inl ⟨id, rfl⟩)
    | dependency => exact Or.inl rfl
    | delete => exact Or.inl rfl
  | @save t accepted acked =>
    cases acked with
    | true => exact Or.inr (Or.inr ⟨t, w.lastSeq + 1, rfl, if_pos rfl⟩)
    | false => exact Or.inl rfl
  | start t item => exact Or.inl (known_cons hnext)
  | done t err =>
    cases t with
    | none => exact Or.inl rfl
    | some t => exact Or.inl (known_cons hnext)
  | _ => exact Or.inl rfl

theorem Event.ProducedBy.recorded {role : Role} {c : Call} {e : Event}
    (h : e.ProducedBy role.writer c) (hsends : role.Sends c) : role.Recorded e := by
  cases e with
  | read n loader use found clock =>
    obtain ⟨-, id, rfl, hfound⟩ := h
    cases use with
    | task => exact ⟨id, hsends, hfound⟩
    | dependency => trivial
    | delete => trivial
  | saved n saver old new acked =>
    obtain ⟨rfl, t, rfl, hnew⟩ := h
    obtain ⟨seq, task⟩ := new
    cases hnew
    exact ⟨rfl, t.storageOptions, hsends⟩
  | started n next t item =>
    cases h
    exact hsends
  | passed n next t =>
    obtain ⟨err, rfl⟩ := h
    exact hsends
  | _ => trivial

/-- An event that is neither about copy `n` nor by the thread that holds it. -/
structure Event.Foreign (n : Nat) (e : Event) : Prop where
  subject : e.subject ≠ some n
  actor : e.actor ≠ some n

def Role.given : Role → Option Copy
  | .enqueue _ t | .enqueueInto _ t => some t
  | _ => none

/-- The entry points an action opens without handing a task over. -/
def Action.Opens : Action → Role → Prop
  | .deliver p id, role => ∃ msg, role = .worker p ⟨id, msg⟩
  | .retry c id, role => role = .retry c id
  | .load c id, role => role = .load c id
  | .delete id, role => role = .delete id
  | _, _ => False

theorem Action.Opens.alone {a : Action} {role : Role} (h : a.Opens role) :
    role.writer ≠ .handler ∧ role.given = none := by
  cases a with
  | deliver p id =>
    obtain ⟨msg, rfl⟩ := h
    exact ⟨by simp [Role.writer], rfl⟩
  | retry c id =>
    cases h
    exact ⟨by simp [Role.writer], rfl⟩
  | load c id =>
    cases h
    exact ⟨by simp [Role.writer], rfl⟩
  | delete id =>
    cases h
    exact ⟨by simp [Role.writer], rfl⟩
  | _ => exact h.elim

namespace Config

/-- The entry points an action opens, and what it leaves in the log then. -/
inductive Opened (cfg : Config) (a : Action) (cfg' : Config) : Role → Prop
  | free {role : Role} (opens : a.Opens role) (log : cfg'.world.log = cfg.world.log) :
      Opened cfg a cfg' role
  | submitted {role : Role} {k : Nat} {t : Copy} (given : role.given = some t)
      (owned : cfg.world.copies k = some t)
      (log : cfg'.world.log = .submitted k cfg.world.nextCopy t :: cfg.world.log) :
      Opened cfg a cfg' role
  | handler {i n : Nat} {o : Outcome} {p : Processor} {given : ProcessItem} {t : Copy}
      {item : ProcessItem} (action : a = .run i o)
      (call : cfg.nextCall i = some (⟨n, .worker p given⟩, .goHandle t item))
      (log : cfg'.world.log = .started n cfg.world.nextCopy t item :: cfg.world.log) :
      Opened cfg a cfg' (.handler p t item)

/-- How a thread comes out of an action: it waits while others act, it stops, it makes its
next request, or it has just started. -/
inductive ThreadStep (cfg : Config) (a : Action) (cfg' : Config) : Thread jobs Tag → Prop
  | waits {th : Thread jobs Tag} (mem : th ∈ cfg.threads) (es : List Event)
      (log : cfg'.world.log = es ++ cfg.world.log)
      (foreign : ∀ e ∈ es, e.Foreign th.tag.holder) : ThreadStep cfg a cfg' th
  | stops {tag : Tag} {prog : Job Unit} (mem : ⟨tag, prog⟩ ∈ cfg.threads)
      (world : cfg'.world = cfg.world) : ThreadStep cfg a cfg' ⟨tag, .ret ()⟩
  | moves {i : Nat} {o : Outcome} {tag : Tag} {c : Call} {k : c.Reply → Job Unit} {r : c.Reply}
      (action : a = .run i o) (thread : cfg.threads[i]? = some ⟨tag, .call c k⟩)
      (effect : Effect tag.holder tag.role.writer cfg.world c cfg'.world) :
      ThreadStep cfg a cfg' ⟨tag, k r⟩
  | starts {role : Role} (opened : Opened cfg a cfg' role) :
      ThreadStep cfg a cfg' ⟨⟨cfg.world.nextCopy, role⟩, role.prog⟩

variable {cfg cfg' : Config} {a : Action}

/-- A thread that has not acted sees only the events of others. -/
theorem Inv.foreign_request (h : cfg.Inv) {i j : Nat} {mine other : Thread jobs Tag} {c : Call}
    {w : World} (hi : cfg.threads[i]? = some other) (hj : cfg.threads[j]? = some mine)
    (hne : j ≠ i) (heffect : Effect other.tag.holder other.tag.role.writer cfg.world c w) :
    ∃ es, w.log = es ++ cfg.world.log ∧ ∀ e ∈ es, e.Foreign mine.tag.holder := by
  obtain ⟨es, hlog, hes⟩ := heffect.acts
  refine ⟨es, hlog, fun e he => ?_⟩
  obtain ⟨hactor, hsubject, -⟩ := hes e he
  have hholder := holder_ne h hi hj hne
  have hfresh := h.fresh mine (List.mem_of_getElem? hj)
  constructor
  · exact subject_ne (Or.inr hsubject) hholder hfresh
  · rw [hactor]
    exact fun heq => hholder (Option.some.inj heq).symm

theorem Inv.thread_spawn (h : cfg.Inv) {w : World} {role : Role} {th : Thread jobs Tag}
    (hth : th ∈ (cfg.spawn w role).threads) (hopened : Opened cfg a (cfg.spawn w role) role)
    (es : List Event) (hnext : w.nextCopy = cfg.world.nextCopy)
    (hlog : w.log = es ++ cfg.world.log)
    (hes : ∀ e ∈ es, e.subject = some cfg.world.nextCopy ∧ e.actor = none) :
    ThreadStep cfg a (cfg.spawn w role) th := by
  rcases List.mem_append.mp hth with hmem | hmem
  · refine .waits hmem es hlog fun e he => ?_
    obtain ⟨hsubject, hactor⟩ := hes e he
    have hfresh := h.fresh th hmem
    constructor
    · rw [hsubject]
      intro heq
      have := Option.some.inj heq
      omega
    · rw [hactor]
      simp
  · rw [List.mem_singleton.mp hmem, hnext]
    exact .starts hopened

/-- The threads after a request: the one that made it, the others, and a handler that the
request started. -/
theorem Inv.thread_request (h : cfg.Inv) {i : Nat} {o : Outcome} {tag : Tag} {c : Call}
    {k : c.Reply → Job Unit} {r : c.Reply} {w : World}
    (hget : cfg.threads[i]? = some ⟨tag, .call c k⟩)
    (hexec : cfg.world.exec tag.holder tag.role.writer c o = some (r, w)) {th : Thread jobs Tag}
    (hth : th ∈ cfg.threads.set i ⟨tag, k r⟩ ++ spawned tag cfg.world.nextCopy c) :
    ThreadStep cfg (.run i o)
      ⟨w, cfg.threads.set i ⟨tag, k r⟩ ++ spawned tag cfg.world.nextCopy c⟩ th := by
  have heffect := World.exec_effect hexec
  rcases List.mem_append.mp hth with hmem | hmem
  · obtain ⟨j, hj⟩ := List.mem_iff_getElem?.mp hmem
    by_cases hji : j = i
    · subst hji
      rw [List.getElem?_set_self', hget] at hj
      cases hj
      exact .moves rfl hget heffect
    · rw [List.getElem?_set_ne (Ne.symm hji)] at hj
      obtain ⟨es, hlog, hes⟩ := h.foreign_request hget hj hji heffect
      exact .waits (List.mem_of_getElem? hj) es hlog hes
  · obtain ⟨p, given, t, item, hrole, rfl, rfl⟩ := mem_spawned hmem
    obtain ⟨n, role⟩ := tag
    cases hrole
    cases o <;> cases hexec
    have hcall : cfg.nextCall i = some (⟨n, .worker p given⟩, .goHandle t item) := by
      simp only [nextCall, hget]
    exact .starts (.handler rfl hcall rfl)

theorem Inv.thread_step (h : cfg.Inv) (hs : Step cfg a cfg') {th : Thread jobs Tag}
    (hth : th ∈ cfg'.threads) : ThreadStep cfg a cfg' th := by
  cases hs with
  | request hget hexec => exact h.thread_request hget hexec hth
  | @crash i tag prog hget =>
    rcases List.mem_or_eq_of_mem_set hth with hmem | rfl
    · exact .waits hmem [] rfl (by simp)
    · exact .stops (List.mem_of_getElem? hget) rfl
  | deliver found queue due attempts =>
    apply h.thread_spawn hth _ [] rfl rfl (by simp)
    exact .free ⟨_, rfl⟩ rfl
  | @enqueue c copy t owned =>
    apply h.thread_spawn hth _ [.submitted copy cfg.world.nextCopy t] rfl rfl
    · simp [Event.subject, Event.actor]
    · exact .submitted rfl owned rfl
  | @enqueueInto queue copy t owned =>
    apply h.thread_spawn hth _ [.submitted copy cfg.world.nextCopy t] rfl rfl
    · simp [Event.subject, Event.actor]
    · exact .submitted rfl owned rfl
  | retry c id =>
    apply h.thread_spawn hth _ [] rfl rfl (by simp)
    exact .free rfl rfl
  | load c id =>
    apply h.thread_spawn hth _ [] rfl rfl (by simp)
    exact .free rfl rfl
  | delete id =>
    apply h.thread_spawn hth _ [] rfl rfl (by simp)
    exact .free rfl rfl
  | @dropTask id m found =>
    refine .waits hth [.dropped m] rfl fun e he => ?_
    rw [List.mem_singleton.mp he]
    exact ⟨by simp [Event.subject], by simp [Event.actor]⟩
  | _ => exact .waits hth [] rfl (by simp)

theorem Step.mem_tag (hs : Step cfg a cfg') {th : Thread jobs Tag} (hth : th ∈ cfg.threads) :
    ∃ after ∈ cfg'.threads, after.tag = th.tag := by
  obtain ⟨j, hj⟩ := List.mem_iff_getElem?.mp hth
  have hset : ∀ {i : Nat} {tag : Tag} {prog prog' : Job Unit},
      cfg.threads[i]? = some ⟨tag, prog⟩ →
      ∃ after ∈ cfg.threads.set i ⟨tag, prog'⟩, after.tag = th.tag := by
    intro i tag prog prog' hget
    by_cases hji : j = i
    · subst hji
      rw [hget] at hj
      cases hj
      exact ⟨_, List.mem_set (List.getElem?_eq_some_iff.mp hget).1 _, rfl⟩
    · refine ⟨th, List.mem_of_getElem? (i := j) ?_, rfl⟩
      rw [List.getElem?_set_ne (Ne.symm hji)]
      exact hj
  cases hs with
  | request hget hexec =>
    obtain ⟨after, hafter, htag⟩ := hset hget
    exact ⟨after, List.mem_append_left _ hafter, htag⟩
  | crash hget => exact hset hget
  | deliver => exact ⟨th, List.mem_append_left _ hth, rfl⟩
  | enqueue => exact ⟨th, List.mem_append_left _ hth, rfl⟩
  | enqueueInto => exact ⟨th, List.mem_append_left _ hth, rfl⟩
  | retry => exact ⟨th, List.mem_append_left _ hth, rfl⟩
  | load => exact ⟨th, List.mem_append_left _ hth, rfl⟩
  | delete => exact ⟨th, List.mem_append_left _ hth, rfl⟩
  | _ => exact ⟨th, hth, rfl⟩

end Config

def InProgress (th : Thread jobs Tag) : Prop :=
  ∃ p t item, th.tag.role = .handler p t item ∧ th.prog = p.handle t item

/-- What the log says about a thread agrees with what is left of its program. -/
structure Accounted (log : List Event) (th : Thread jobs Tag) : Prop where
  sends : th.prog.Yields th.tag.role.Sends fun _ => True
  once : th.prog.Once Call.Starts
  started : (∃ next t item, Event.started th.tag.holder next t item ∈ log) →
    th.prog.Yields (¬ Call.Starts ·) fun _ => True
  handler : ∀ p t item, th.tag.role = .handler p t item →
    ∃ n, Event.started n th.tag.holder t item ∈ log
  runs : th.prog.Yields (¬ Call.Runs ·) (fun _ => True) ∨
    (InProgress th ∧ ∀ e ∈ log, e.actor ≠ some th.tag.holder)

namespace Accounted

variable {log es : List Event} {tag : Tag}

theorem waits {th : Thread jobs Tag} (h : Accounted log th)
    (hes : ∀ e ∈ es, e.Foreign th.tag.holder) : Accounted (es ++ log) th where
  sends := h.sends
  once := h.once
  started := by
    rintro ⟨next, t, item, hmem⟩
    rcases List.mem_append.mp hmem with hmem | hmem
    · exact absurd rfl (hes _ hmem).actor
    · exact h.started ⟨next, t, item, hmem⟩
  handler p t item hrole := by
    obtain ⟨n, hmem⟩ := h.handler p t item hrole
    exact ⟨n, List.mem_append_right es hmem⟩
  runs := by
    rcases h.runs with hrest | ⟨hprogress, hnone⟩
    · exact Or.inl hrest
    · refine Or.inr ⟨hprogress, fun e he => ?_⟩
      rcases List.mem_append.mp he with he | he
      · exact (hes e he).actor
      · exact hnone e he

theorem stops {prog : Job Unit} (h : Accounted log ⟨tag, prog⟩) : Accounted log ⟨tag, .ret ()⟩ where
  sends := trivial
  once := trivial
  started _ := trivial
  handler := h.handler
  runs := Or.inl trivial

theorem rest_runs_none {c : Call} {k : c.Reply → Job Unit} (h : InProgress ⟨tag, .call c k⟩)
    (r : c.Reply) : (k r).Yields (¬ Call.Runs ·) fun _ => True := by
  obtain ⟨p, t, item, -, hprog⟩ := h
  rw [Processor.handle_eq] at hprog
  cases hprog
  exact Processor.afterHandler_yields (fun _ => Call.Quiet.not_runs) p (fun _ => id) _ item r

theorem rest_runs {c : Call} {k : c.Reply → Job Unit} (h : Accounted log ⟨tag, .call c k⟩)
    (r : c.Reply) : (k r).Yields (¬ Call.Runs ·) fun _ => True := by
  rcases h.runs with hrest | ⟨hprogress, -⟩
  · exact hrest.2 r
  · exact rest_runs_none hprogress r

theorem moves {w w' : World} {c : Call} {k : c.Reply → Job Unit}
    (h : Accounted w.log ⟨tag, .call c k⟩) (he : Effect tag.holder tag.role.writer w c w')
    (r : c.Reply) : Accounted w'.log ⟨tag, k r⟩ := by
  obtain ⟨es, hlog, hes⟩ := he.acts
  rw [hlog]
  refine ⟨h.sends.2 r, h.once.2 r, ?_, ?_, Or.inl (h.rest_runs r)⟩
  · rintro ⟨next, t, item, hmem⟩
    rcases List.mem_append.mp hmem with hmem | hmem
    · obtain ⟨-, -, hcall⟩ := hes _ hmem
      have hcall : c = .goHandle t item := hcall
      subst hcall
      exact h.once.1 trivial r
    · exact (h.started ⟨next, t, item, hmem⟩).2 r
  · intro p t item hrole
    obtain ⟨n, hmem⟩ := h.handler p t item hrole
    exact ⟨n, List.mem_append_right es hmem⟩

theorem starts {n : Nat} {role : Role} (hfresh : ∀ e ∈ log, e.actor ≠ some n)
    (hhandler : ∀ p t item, role = .handler p t item → ∃ k, Event.started k n t item ∈ log) :
    Accounted log ⟨⟨n, role⟩, role.prog⟩ where
  sends := role.prog_sends
  once := role.prog_once
  started := by
    rintro ⟨next, t, item, hmem⟩
    exact absurd rfl (hfresh _ hmem)
  handler := hhandler
  runs := by
    rcases role.handler_or_runs_none with ⟨p, t, item, rfl⟩ | hnone
    · exact Or.inr ⟨⟨p, t, item, rfl, rfl⟩, hfresh⟩
    · exact Or.inl (role.prog_runs_none hnone)

end Accounted

def StartsOnce (log : List Event) : Event → Prop
  | .started n _ _ _ => ∀ next t item, Event.started n next t item ∉ log
  | _ => True

namespace Config

/-- Every thread is accounted for, and every event is the work of a thread. -/
structure Accounted (cfg : Config) : Prop where
  threads : ∀ th ∈ cfg.threads, AsyncJobs.Accounted cfg.world.log th
  recorded : ∀ e ∈ cfg.world.log, ∀ n, e.actor = some n →
    ∃ th ∈ cfg.threads, th.tag.holder = n ∧ th.tag.role.Recorded e
  startsOnce : Always StartsOnce cfg.world.log

variable {cfg cfg' : Config} {a : Action}

theorem Accounted.init (start : Int) : (Config.init start).Accounted where
  threads := by
    intro th hth
    cases hth
  recorded := by
    intro e he
    cases he
  startsOnce := trivial

theorem Inv.thread_unique (h : cfg.Inv) {th other : Thread jobs Tag} (hth : th ∈ cfg.threads)
    (hother : other ∈ cfg.threads) (heq : th.tag.holder = other.tag.holder) : th = other :=
  List.inj_on_of_nodup_map h.holders hth hother heq

theorem Accounted.recorded_by (h : cfg.Accounted) (hinv : cfg.Inv) {th : Thread jobs Tag}
    (hth : th ∈ cfg.threads) {e : Event} (he : e ∈ cfg.world.log)
    (hactor : e.actor = some th.tag.holder) : th.tag.role.Recorded e := by
  obtain ⟨other, hother, hholder, hrecorded⟩ := h.recorded e he _ hactor
  rw [hinv.thread_unique hth hother hholder.symm]
  exact hrecorded

theorem Accounted.activated_id (h : cfg.Accounted) (hinv : cfg.Inv) {n : Nat} {p : Processor}
    {given : ProcessItem} {prog : Job Unit} (hth : ⟨⟨n, .worker p given⟩, prog⟩ ∈ cfg.threads)
    (hproper : World.isWildcard given.jobID = false) {old : Option StoredTask} {new : StoredTask}
    {acked : Bool} (hsaved : Event.saved n .worker old new acked ∈ cfg.world.log)
    (hactive : new.task.state = .active) : new.task.id = given.jobID := by
  obtain ⟨post, pre, hlog⟩ := List.append_of_mem hsaved
  have hvalid := hinv.world.valid
  rw [hlog] at hvalid
  obtain ⟨-, -, ⟨p', m, -, hchange⟩, -⟩ := hvalid.at
  generalize new.task = t at hchange hactive ⊢
  cases hchange with
  | expire => cases hactive
  | unreachable => cases hactive
  | activate eligible =>
    obtain ⟨⟨loadedAt, hadmitted, -⟩, -⟩ := eligible
    have hread : Event.read n .worker .task m loadedAt ∈ cfg.world.log := by
      rw [hlog]
      exact List.mem_append_right post (List.mem_cons_of_mem _ hadmitted.loaded)
    obtain ⟨id, hid, hnamed⟩ := h.recorded_by hinv hth hread rfl
    have hid : id = given.jobID := hid
    subst hid
    rcases hnamed with hwildcard | hnamed
    · rw [hproper] at hwildcard
      cases hwildcard
    · exact hnamed

theorem Accounted.new_event (h : cfg.Accounted) (hs : Step cfg a cfg') :
    ∃ es, cfg'.world.log = es ++ cfg.world.log ∧ ∀ e ∈ es, ∀ n, e.actor = some n →
      ∃ th ∈ cfg.threads, th.tag.holder = n ∧ th.tag.role.Recorded e := by
  cases hs with
  | @request i o tag c k r w hget hexec =>
    obtain ⟨es, hlog, hes⟩ := (World.exec_effect hexec).acts
    refine ⟨es, hlog, fun e he n hn => ?_⟩
    obtain ⟨hactor, -, hproduced⟩ := hes e he
    rw [hactor] at hn
    have hmem := List.mem_of_getElem? hget
    exact ⟨_, hmem, Option.some.inj hn, hproduced.recorded (h.threads _ hmem).sends.1⟩
  | @enqueue c copy t owned =>
    refine ⟨[.submitted copy cfg.world.nextCopy t], rfl, ?_⟩
    simp [Event.actor]
  | @enqueueInto queue copy t owned =>
    refine ⟨[.submitted copy cfg.world.nextCopy t], rfl, ?_⟩
    simp [Event.actor]
  | @dropTask id m found =>
    refine ⟨[.dropped m], rfl, ?_⟩
    simp [Event.actor]
  | _ => exact ⟨[], rfl, by simp⟩

theorem Accounted.startsOnce_step (h : cfg.Accounted) (hs : Step cfg a cfg') :
    Always StartsOnce cfg'.world.log := by
  cases hs with
  | @request i o tag c k r w hget hexec =>
    have hthread := h.threads _ (List.mem_of_getElem? hget)
    cases World.exec_effect hexec with
    | start t item =>
      refine ⟨?_, h.startsOnce⟩
      intro next t' item' hmem
      exact absurd trivial (hthread.started ⟨next, t', item', hmem⟩).1
    | done t err =>
      cases t with
      | none => exact ⟨trivial, h.startsOnce⟩
      | some t => exact ⟨trivial, trivial, h.startsOnce⟩
    | queueUnanswered => exact ⟨trivial, trivial, h.startsOnce⟩
    | unchanged => exact h.startsOnce
    | nak => exact h.startsOnce
    | release => exact h.startsOnce
    | _ => exact ⟨trivial, h.startsOnce⟩
  | enqueue => exact ⟨trivial, h.startsOnce⟩
  | enqueueInto => exact ⟨trivial, h.startsOnce⟩
  | dropTask => exact ⟨trivial, h.startsOnce⟩
  | _ => exact h.startsOnce

theorem Accounted.step (h : cfg.Accounted) (hinv : cfg.Inv) (hs : Step cfg a cfg') :
    cfg'.Accounted := by
  obtain ⟨es, hlog, hes⟩ := h.new_event hs
  have hold : ∀ e ∈ cfg'.world.log, ∀ n, e.actor = some n →
      ∃ th ∈ cfg.threads, th.tag.holder = n ∧ th.tag.role.Recorded e := by
    intro e he n hn
    rw [hlog] at he
    rcases List.mem_append.mp he with he | he
    · exact hes e he n hn
    · exact h.recorded e he n hn
  refine ⟨fun th hth => ?_, fun e he n hn => ?_, h.startsOnce_step hs⟩
  · cases hinv.thread_step hs hth with
    | waits mem es hlog foreign =>
      rw [hlog]
      exact (h.threads th mem).waits foreign
    | stops mem hworld =>
      rw [hworld]
      exact (h.threads _ mem).stops
    | moves action thread effect => exact (h.threads _ (List.mem_of_getElem? thread)).moves effect _
    | @starts role opened =>
      apply AsyncJobs.Accounted.starts
      · intro e he hactor
        obtain ⟨th', hth', hholder, -⟩ := hold e he _ hactor
        exact Nat.lt_irrefl _ (hholder ▸ hinv.fresh th' hth')
      · rintro p t item rfl
        cases opened with
        | free opens => exact absurd rfl opens.alone.1
        | submitted given => cases given
        | @handler _ n _ _ _ _ _ _ _ hlog =>
          rw [hlog]
          exact ⟨n, List.mem_cons_self ..⟩
  · obtain ⟨th, hth, hholder, hrecorded⟩ := hold e he n hn
    obtain ⟨after, hafter, htag⟩ := hs.mem_tag hth
    rw [← htag] at hholder hrecorded
    exact ⟨after, hafter, hholder, hrecorded⟩

theorem Accounted.reached {meets : Config → Action → Bool} {start : Int} {actions : List Action}
    (hr : (Config.init start).runWhile meets actions = some cfg) : cfg.Inv ∧ cfg.Accounted :=
  runWhile_induction (P := fun cfg : Config => cfg.Inv ∧ cfg.Accounted)
    (fun h _ hs => ⟨h.1.step hs, h.2.step h.1 (step_sound hs)⟩) actions
    ⟨Inv.init start, Accounted.init start⟩ hr

end Config

end AsyncJobs
