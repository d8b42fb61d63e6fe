import AsyncJobs.Election.Instance
import AsyncJobs.Interaction.Run

/-!
# The callbacks of one instance

An instance is started any number of times, one run after the other. Within a run it
ticks with arbitrary replies of the bucket until it sees that its context is done. The
calls of the two callbacks are recorded; their number says whether it is leader.
-/

namespace AsyncJobs.Election

/-- Where the instance is in `Start`. -/
inductive Phase where
  | idle
  | starting
  | looping
  deriving DecidableEq, Repr

/-- An instance over its runs, with the callbacks made so far, oldest first. -/
structure Life where
  inst : Instance
  phase : Phase := .idle
  calls : List Callback := []
  deriving DecidableEq, Repr

inductive Event where
  | start (parentDone : Bool)
  | cancel
  | tick (reply : Except Error Nat)
  | shutdown

def Life.step (l : Life) : Event → Option Life
  | .start parentDone =>
    match l.inst.start parentDone with
    | .error _ => some l
    | .ok e => some { l with inst := e, phase := .starting }
  | .cancel => some { l with inst := l.inst.cancel }
  | .tick reply =>
    -- the initial campaign does not look at the context
    if l.phase = .idle then none
    else
      let (calls, _, e) := l.inst.tryOnce reply
      some { inst := e, phase := .looping, calls := l.calls ++ calls }
  | .shutdown =>
    if l.phase = .looping ∧ l.inst.ctxDone = some true then
      let (calls, e) := l.inst.shutdown
      some { inst := e, phase := .idle, calls := l.calls ++ calls }
    else none

inductive Life.Stepped (l : Life) : Event → Life → Prop
  | refused (parentDone : Bool) (hstarted : l.inst.started = true) : Stepped l (.start parentDone) l
  | started (parentDone : Bool) (hstarted : l.inst.started = false) :
      Stepped l (.start parentDone) { l with
        inst := { l.inst with started := true, ctxDone := some parentDone, state := .candidate }
        phase := .starting }
  | canceled : Stepped l .cancel { l with inst := l.inst.cancel }
  | ticked (reply : Except Error Nat) (hphase : l.phase ≠ .idle) :
      Stepped l (.tick reply)
        ⟨(l.inst.tryOnce reply).2.2, .looping, l.calls ++ (l.inst.tryOnce reply).1⟩
  | stopped (hphase : l.phase = .looping) :
      Stepped l .shutdown ⟨l.inst.stop, .idle, l.calls ++ l.inst.shutdown.1⟩

theorem Life.stepped {l l' : Life} {event : Event} (hstep : l.step event = some l') :
    l.Stepped event l' := by
  cases event with
  | start parentDone =>
    cases hstarted : l.inst.started with
    | true =>
      simp only [step, Instance.start, hstarted, if_true, Option.some.injEq] at hstep
      exact hstep ▸ .refused parentDone hstarted
    | false =>
      simp only [step, Instance.start, hstarted, Bool.false_eq_true, if_false,
        Option.some.injEq] at hstep
      exact hstep ▸ .started parentDone hstarted
  | cancel =>
    injection hstep with hstep
    exact hstep ▸ .canceled
  | tick reply =>
    simp only [step] at hstep
    split_ifs at hstep with hphase
    injection hstep with hstep
    exact hstep ▸ .ticked reply hphase
  | shutdown =>
    simp only [step] at hstep
    split_ifs at hstep with hdone
    injection hstep with hstep
    exact hstep ▸ .stopped hdone.1

def Life.run (l : Life) (events : List Event) : Option Life :=
  Interaction.run Life.step l events

/-- The callbacks strictly alternate, beginning with the win. -/
def Alternating (calls : List Callback) : Prop :=
  ∀ k c, calls[k]? = some c → c = if k % 2 = 0 then .won else .lost

/-- Whether an odd number of callbacks was made, so that the last one announced a win. -/
def announced (calls : List Callback) : Bool := calls.length % 2 = 1

theorem Alternating.concat {calls : List Callback} (h : Alternating calls) {c : Callback}
    (hc : c = if announced calls then .lost else .won) : Alternating (calls ++ [c]) := by
  intro k d hd
  rcases Nat.lt_trichotomy k calls.length with hlt | heq | hgt
  · rw [List.getElem?_append_left hlt] at hd
    exact h k d hd
  · subst heq
    rw [List.getElem?_concat_length] at hd
    injection hd with hd
    rw [← hd, hc]
    rcases Nat.mod_two_eq_zero_or_one calls.length with heven | hodd
    · simp [announced, heven]
    · simp [announced, hodd]
  · rw [List.getElem?_eq_none (by simp; omega)] at hd
    cases hd

theorem announced_concat (calls : List Callback) (c : Callback) :
    announced (calls ++ [c]) = !announced calls := by
  rcases Nat.mod_two_eq_zero_or_one calls.length with heven | hodd
  · simp [announced, Nat.add_mod, heven]
  · simp [announced, Nat.add_mod, hodd]

theorem Alternating.last {calls : List Callback} (h : Alternating calls) {c : Callback}
    (hc : calls.getLast? = some c) : c = if announced calls then .won else .lost := by
  rw [List.getLast?_eq_getElem?] at hc
  have hpos : 0 < calls.length := by
    cases calls with
    | nil => simp at hc
    | cons d calls => simp
  rw [h _ c hc]
  have hparity : (calls.length - 1) % 2 = 0 ↔ calls.length % 2 = 1 := by omega
  simp only [announced, hparity, decide_eq_true_eq]

theorem Alternating.last_won {calls : List Callback} (h : Alternating calls) :
    calls.getLast? = some .won ↔ announced calls = true := by
  constructor
  · intro hlast
    have hc := h.last hlast
    by_contra hno
    simp [hno] at hc
  · intro hodd
    cases hlast : calls.getLast? with
    | none =>
      rw [List.getLast?_eq_none_iff] at hlast
      simp [hlast, announced] at hodd
    | some c =>
      rw [h.last hlast, hodd]
      rfl

/-- What a step announces about the leadership it leaves behind. -/
inductive Announces (e e' : Instance) : List Callback → Prop
  | silent (h : e'.isLeader = e.isLeader) : Announces e e' []
  | won (h : e.isLeader = false) (h' : e'.isLeader = true) : Announces e e' [.won]
  | lost (h : e.isLeader = true) (h' : e'.isLeader = false) : Announces e e' [.lost]

namespace Instance

variable {e : Instance}

theorem campaignForLeadershipLocked_silent (hstate : e.state = .candidate)
    (reply : Except Error Nat) : (e.campaignForLeadershipLocked reply).2.isLeader = e.isLeader := by
  cases reply <;> simp [campaignForLeadershipLocked, isLeader, hstate]

theorem tryOnce_announces (hwon : e.opts.onWon = true) (hlost : e.opts.onLost = true)
    (reply : Except Error Nat) : Announces e (e.tryOnce reply).2.2 (e.tryOnce reply).1 := by
  unfold tryOnce
  cases hstate : e.state with
  | unknown => exact .silent rfl
  | candidate => exact .silent (campaignForLeadershipLocked_silent hstate reply)
  | leader =>
    cases reply with
    | ok seq =>
      cases hnotify : e.notifyNext with
      | true =>
        simp only [maintainLeadershipLocked, hnotify, Options.wonCb, hwon, if_true]
        exact .won (by simp [isLeader, hnotify]) (by simp [isLeader, hstate])
      | false =>
        simp only [maintainLeadershipLocked, hnotify]
        exact .silent (by simp [isLeader, hnotify])
    | error err =>
      cases herr : isContextError err with
      | true =>
        -- the shutdown will stand down, nothing has changed yet
        simp only [maintainLeadershipLocked, herr, if_true]
        exact .silent rfl
      | false =>
        cases hnotify : e.notifyNext with
        | true =>
          simp only [maintainLeadershipLocked, herr, hnotify, if_true]
          exact .silent (by simp [isLeader, hnotify])
        | false =>
          simp only [maintainLeadershipLocked, herr, hnotify, Options.lostCb, hlost, if_true]
          exact .lost (by simp [isLeader, hstate, hnotify]) (by simp [isLeader])

theorem shutdown_announces (hlost : e.opts.onLost = true) :
    Announces e e.shutdown.2 e.shutdown.1 := by
  cases hleader : e.isLeader with
  | true =>
    simp only [shutdown, hleader, Options.lostCb, hlost, if_true]
    exact .lost hleader e.isLeader_stop
  | false =>
    simp only [shutdown, hleader]
    exact .silent (e.isLeader_stop.trans hleader.symm)

end Instance

namespace Life

variable {l l' : Life} {event : Event} {events : List Event}

/-- The instance is started while `Start` runs, and only then in the leader state. -/
structure Running (l : Life) : Prop where
  started : l.inst.started = true ↔ l.phase ≠ .idle
  leader : l.inst.state = .leader → l.inst.started = true

theorem Running.step (h : l.Running) (hstep : l.step event = some l') : l'.Running := by
  cases stepped hstep with
  | refused parentDone hstarted => exact h
  | started parentDone hstarted => constructor <;> simp
  | canceled => exact ⟨h.started, h.leader⟩
  | ticked reply hphase => constructor <;> simp [h.started.mpr hphase]
  | stopped hphase => constructor <;> simp [Instance.stop]

theorem Running.not_leader (h : l.Running) (hidle : l.phase = .idle) : l.inst.isLeader = false := by
  by_contra hleader
  simp only [Instance.isLeader, Bool.not_eq_false, decide_eq_true_eq] at hleader
  exact h.started.mp (h.leader hleader.1) hidle

structure Inv (l : Life) : Prop extends l.Running where
  onWon : l.inst.opts.onWon = true
  onLost : l.inst.opts.onLost = true
  alternating : Alternating l.calls
  announces : l.inst.isLeader = announced l.calls

theorem Inv.record (h : l.Inv) {e : Instance} {calls : List Callback}
    (ha : Announces l.inst e calls) :
    Alternating (l.calls ++ calls) ∧ e.isLeader = announced (l.calls ++ calls) := by
  have hleader := h.announces
  cases ha with
  | silent hsame =>
    rw [List.append_nil]
    exact ⟨h.alternating, hsame.trans hleader⟩
  | won hbefore hafter =>
    rw [hbefore] at hleader
    rw [announced_concat, ← hleader]
    exact ⟨h.alternating.concat (by simp [← hleader]), hafter⟩
  | lost hbefore hafter =>
    rw [hbefore] at hleader
    rw [announced_concat, ← hleader]
    exact ⟨h.alternating.concat (by simp [← hleader]), hafter⟩

theorem Inv.step (h : l.Inv) (hstep : l.step event = some l') : l'.Inv := by
  have hrunning := h.toRunning.step hstep
  cases stepped hstep with
  | refused parentDone hstarted => exact h
  | started parentDone hstarted =>
    have hidle : l.phase = .idle := by simpa [hstarted] using h.started
    have hleader := h.announces
    rw [h.not_leader hidle] at hleader
    exact ⟨hrunning, h.onWon, h.onLost, h.alternating, by simpa [Instance.isLeader] using hleader⟩
  | canceled => exact ⟨hrunning, h.onWon, h.onLost, h.alternating, h.announces⟩
  | ticked reply hphase =>
    have ⟨halternating, hleader⟩ := h.record (Instance.tryOnce_announces h.onWon h.onLost reply)
    exact ⟨hrunning, by simpa using h.onWon, by simpa using h.onLost, halternating, hleader⟩
  | stopped hphase =>
    have ⟨halternating, hleader⟩ := h.record (Instance.shutdown_announces h.onLost)
    exact ⟨hrunning, h.onWon, h.onLost, halternating, hleader⟩

theorem Inv.run (h : l.Inv) (hrun : l.run events = some l') : l'.Inv :=
  Interaction.run_induction (fun h hstep => h.step hstep) events h hrun

theorem running_new (opts : Options) : ({ inst := { opts } } : Life).Running := by
  constructor <;> simp

theorem inv_new {opts : Options} (hwon : opts.onWon = true) (hlost : opts.onLost = true) :
    ({ inst := { opts } } : Life).Inv := by
  refine ⟨running_new opts, hwon, hlost, ?_, rfl⟩
  intro k c hc
  simp at hc

end Life

/-- Over any number of runs with any replies of the bucket, wins and losses are announced
in turn, the last announcement says whether the instance is leader, and `Start` never
returns with a win as the last one. -/
theorem callbacks_alternate (opts : Options) (hwon : opts.onWon = true)
    (hlost : opts.onLost = true) (events : List Event) (l : Life)
    (hrun : ({ inst := { opts } } : Life).run events = some l) :
    Alternating l.calls ∧ (l.inst.isLeader = true ↔ l.calls.getLast? = some .won) ∧
      (l.phase = .idle → ∀ c, l.calls.getLast? = some c → c = .lost) := by
  have h := (Life.inv_new hwon hlost).run hrun
  refine ⟨h.alternating, ?_, ?_⟩
  · rw [h.alternating.last_won, h.announces]
  · intro hidle c hc
    have hodd := h.not_leader hidle
    rw [h.announces] at hodd
    rw [h.alternating.last hc, hodd]
    rfl

/-- A win, an update whose deadline passes, the shutdown, and a second run whose win is
lost before it is announced. -/
def twoRuns : List Event :=
  [.start false, .tick (.ok 1), .tick (.ok 2),
    .tick (.error Sentinel.contextDeadlineExceeded.error), .cancel, .shutdown,
    .start false, .tick (.ok 3), .tick (.error (.plain "nats: wrong last sequence: 4"))]

theorem callbacks_alternate_twoRuns : ∃ l,
    ({ inst := { opts := {} } } : Life).run twoRuns = some l ∧ l.calls = [.won, .lost] ∧
      Alternating l.calls ∧ l.inst.isLeader = false := by
  have hrun : (({ inst := { opts := {} } } : Life).run twoRuns).any
      (fun l => l.calls = [.won, .lost]) = true := by decide +kernel
  obtain ⟨l, hl, hcalls⟩ := (Option.any_eq_true _ _).mp hrun
  have hcalls := of_decide_eq_true hcalls
  obtain ⟨halternating, hleader, -⟩ := callbacks_alternate {} rfl rfl twoRuns l hl
  refine ⟨l, hl, hcalls, halternating, ?_⟩
  rw [hcalls] at hleader
  simpa using hleader

end AsyncJobs.Election
