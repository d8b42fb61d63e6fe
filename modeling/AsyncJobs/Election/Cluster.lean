import AsyncJobs.Election.Callbacks
import Mathlib.Data.Fintype.Basic
import Mathlib.Logic.Function.Basic

/-!
# Instances that compete for one key

Any number of instances campaign for the same key of a linearizable bucket, while the
key expires, is deleted or overwritten by others. A new leader reports itself only with
its first update, so that an old one can find out that its revision is gone. It finds
out unless its update fails with a context error, which it takes for its own shutdown.
-/

namespace AsyncJobs.Election

/-- The key: the revision of its live value and the last revision handed out. -/
structure Bucket where
  live : Option Nat := none
  last : Nat := 0
  deriving DecidableEq, Repr

/-- What happens to a request: the bucket answers it, or it fails without effect. -/
inductive Outcome where
  | served
  | failed (err : Error)

namespace Bucket

variable (b : Bucket)

def write : Bucket := ⟨some (b.last + 1), b.last + 1⟩

def serve : Request → Except Error Nat × Bucket
  | .create =>
    if b.live = none then (.ok (b.last + 1), b.write)
    else (.error (.plain "nats: key exists"), b)
  | .update revision =>
    if b.live = some revision then (.ok (b.last + 1), b.write)
    else (.error (.plain "nats: wrong last sequence"), b)

def answer (request : Request) : Outcome → Except Error Nat × Bucket
  | .served => b.serve request
  | .failed err => (.error err, b)

end Bucket

/-- `seen i` lists who completed a try since the last successful create of `i`. -/
structure Cluster (n : Nat) where
  members : Fin n → Life
  bucket : Bucket := {}
  seen : Fin n → List (Fin n) := fun _ => []

inductive Action (n : Nat) where
  | start (i : Fin n) (parentDone : Bool)
  | cancel (i : Fin n)
  | shutdown (i : Fin n)
  | tick (i : Fin n) (outcome : Outcome)
  | expire
  | delete
  | put

namespace Cluster

variable {n : Nat} (c : Cluster n)

def new (opts : Fin n → Options) : Cluster n where
  members i := { inst := { opts := opts i } }

def inst (i : Fin n) : Instance := (c.members i).inst

/-- A step of one member that does not involve the bucket. -/
def move (i : Fin n) (event : Event) : Option (Cluster n) :=
  ((c.members i).step event).map fun l => { c with members := Function.update c.members i l }

/-- The reply of the bucket to the next try of a member. -/
def answer (i : Fin n) (outcome : Outcome) : Except Error Nat × Bucket :=
  match (c.inst i).request with
  | some request => c.bucket.answer request outcome
  | none => (.error (.plain "no request"), c.bucket)

/-- The tries completed since a create, after a try of `i` with this reply. -/
def seenAfter (i : Fin n) (reply : Except Error Nat) (k : Fin n) : List (Fin n) :=
  if k = i ∧ (c.inst i).state = .candidate ∧ reply.isOk then [] else i :: c.seen k

def tick (i : Fin n) (outcome : Outcome) : Option (Cluster n) :=
  let (reply, bucket) := c.answer i outcome
  ((c.members i).step (.tick reply)).map fun l =>
    { members := Function.update c.members i l, bucket, seen := c.seenAfter i reply }

def step (c : Cluster n) : Action n → Option (Cluster n)
  | .start i parentDone => c.move i (.start parentDone)
  | .cancel i => c.move i .cancel
  | .shutdown i => c.move i .shutdown
  | .tick i outcome => c.tick i outcome
  | .expire => some { c with bucket := { c.bucket with live := none } }
  | .delete => some { c with bucket := ⟨none, c.bucket.last + 1⟩ }
  | .put => some { c with bucket := c.bucket.write }

def runWhile (meets : Cluster n → Action n → Bool) (c : Cluster n) (actions : List (Action n)) :
    Option (Cluster n) :=
  Interaction.runWhile step meets c actions

/-- The member holds the key at the current revision. -/
def holds (i : Fin n) : Bool :=
  (c.inst i).state = .leader ∧ c.bucket.live = some (c.inst i).lastSeq

/-- The first successful update after a create comes only after every other started
instance completed a try. -/
def othersTried : Action n → Bool
  | .tick i .served =>
    (c.holds i ∧ (c.inst i).notifyNext) → ∀ j, j ≠ i → (c.inst j).started → j ∈ c.seen i
  | _ => true

/-- No instance that reports itself leader without holding the key is kept from finding
out by a context error. -/
def heedsLoss : Action n → Bool
  | .tick i (.failed err) => (c.inst i).isLeader → Instance.isContextError err → c.holds i
  | _ => true

end Cluster

/-- What a try of one instance does to it and to the bucket. -/
inductive Tried (e : Instance) (b : Bucket) (outcome : Outcome) (reply : Except Error Nat)
    (e' : Instance) (b' : Bucket) : Prop
  | out (hbucket : b' = b) (hstate : e'.state ≠ .leader)
  | created (hbucket : b' = b.write) (hstate : e.state = .candidate) (hok : reply.isOk = true)
      (hseq : e'.lastSeq = b.last + 1) (hnotify : e'.notifyNext = true)
  | renewed (hbucket : b' = b.write) (hserved : outcome = .served) (hstate : e.state = .leader)
      (hlive : b.live = some e.lastSeq) (hseq : e'.lastSeq = b.last + 1)
      (hnotify : e'.notifyNext = false)
  | kept (hbucket : b' = b) (err : Error) (hfailed : outcome = .failed err)
      (herr : Instance.isContextError err = true) (hsame : e' = e)

theorem Instance.not_leader_of_error {e : Instance} {err : Error} (hstate : e.state = .leader)
    (herr : isContextError err = false) : (e.tryOnce (.error err)).2.2.state ≠ .leader := by
  cases hnotify : e.notifyNext <;>
    simp [tryOnce, hstate, maintainLeadershipLocked, herr, hnotify]

namespace Cluster

variable {n : Nat} {c c' : Cluster n} {i : Fin n} {outcome : Outcome}

theorem tried (c : Cluster n) (i : Fin n) (outcome : Outcome) :
    Tried (c.inst i) c.bucket outcome (c.answer i outcome).1
      ((c.inst i).tryOnce (c.answer i outcome).1).2.2 (c.answer i outcome).2 := by
  cases hstate : (c.inst i).state with
  | unknown =>
    simp only [answer, Instance.request, hstate]
    exact .out rfl (by simp [Instance.tryOnce, hstate])
  | candidate =>
    simp only [answer, Instance.request, hstate]
    cases outcome with
    | served =>
      by_cases hlive : c.bucket.live = none
      · simp only [Bucket.answer, Bucket.serve, hlive, if_true]
        apply Tried.created rfl hstate <;>
          simp [Except.isOk, Except.toBool, Instance.tryOnce, hstate,
            Instance.campaignForLeadershipLocked]
      · simp only [Bucket.answer, Bucket.serve, hlive, if_false]
        exact .out rfl (by simp [Instance.tryOnce, hstate, Instance.campaignForLeadershipLocked])
    | failed err =>
      exact .out rfl (by simp [Bucket.answer, Instance.tryOnce, hstate,
        Instance.campaignForLeadershipLocked])
  | leader =>
    simp only [answer, Instance.request, hstate]
    cases outcome with
    | served =>
      by_cases hlive : c.bucket.live = some (c.inst i).lastSeq
      · simp only [Bucket.answer, Bucket.serve, hlive, if_true]
        apply Tried.renewed rfl rfl hstate hlive <;>
          cases hnotify : (c.inst i).notifyNext <;>
          simp [Instance.tryOnce, hstate, Instance.maintainLeadershipLocked, hnotify]
      · simp only [Bucket.answer, Bucket.serve, hlive, if_false]
        exact .out rfl (Instance.not_leader_of_error hstate rfl)
    | failed err =>
      simp only [Bucket.answer]
      cases herr : Instance.isContextError err with
      | true =>
        apply Tried.kept rfl err rfl herr
        simp [Instance.tryOnce, hstate, Instance.maintainLeadershipLocked, herr]
      | false => exact .out rfl (Instance.not_leader_of_error hstate herr)

/-- Members that are in the leader state hold different revisions, all of them handed
out. The one whose revision is current has yet to be announced only as long as the
announced leader, if there is one, did not try again. -/
structure Inv (c : Cluster n) : Prop where
  running : ∀ i, (c.members i).Running
  handedOut : ∀ i, (c.inst i).state = .leader → (c.inst i).lastSeq ≤ c.bucket.last
  distinct : ∀ i j, (c.inst i).state = .leader → (c.inst j).state = .leader →
    (c.inst i).lastSeq = (c.inst j).lastSeq → i = j
  unseen : ∀ i, c.holds i = true → (c.inst i).notifyNext = true →
    ∀ j, j ≠ i → (c.inst j).isLeader = true → j ∉ c.seen i
  single : ∀ i j, (c.inst i).isLeader = true → (c.inst j).isLeader = true → i = j

/-- A member that is in the leader state was so before, at the same revision. -/
def Kept (e e' : Instance) : Prop :=
  e'.state = .leader → e.state = .leader ∧ e'.lastSeq = e.lastSeq ∧ e'.notifyNext = e.notifyNext

theorem Kept.isLeader {e e' : Instance} (h : Kept e e') (hleader : e'.isLeader = true) :
    e.isLeader = true := by
  simp only [Instance.isLeader, decide_eq_true_eq] at hleader ⊢
  obtain ⟨hstate, hnotify⟩ := hleader
  obtain ⟨hbefore, -, hsame⟩ := h hstate
  exact ⟨hbefore, hsame ▸ hnotify⟩

/-- Steps after which nobody has won and nobody has written a revision that is held. -/
theorem Inv.keep (h : c.Inv) (hrunning : ∀ k, (c'.members k).Running)
    (hkept : ∀ k, Kept (c.inst k) (c'.inst k)) (hlast : c.bucket.last ≤ c'.bucket.last)
    (hlive : ∀ r, c'.bucket.live = some r → c.bucket.live = some r ∨ c.bucket.last < r)
    (hseen : ∀ k, c.holds k = true → ∀ j, j ≠ k → (c'.inst j).isLeader = true →
      j ∈ c'.seen k → j ∈ c.seen k) : c'.Inv := by
  constructor
  · exact hrunning
  · intro k hk
    obtain ⟨hleader, hseq, -⟩ := hkept k hk
    have hle := h.handedOut k hleader
    omega
  · intro k j hk hj heq
    obtain ⟨hk, hkseq, -⟩ := hkept k hk
    obtain ⟨hj, hjseq, -⟩ := hkept j hj
    exact h.distinct k j hk hj (by omega)
  · intro k hholds hnotify j hne hj hmem
    simp only [holds, decide_eq_true_eq] at hholds
    obtain ⟨hstate, hcurrent⟩ := hholds
    obtain ⟨hleader, hseq, hsame⟩ := hkept k hstate
    have hle := h.handedOut k hleader
    have hholds : c.holds k = true := by
      rcases hlive _ hcurrent with hbefore | hnew
      · simp [holds, hleader, hbefore, hseq]
      · omega
    exact h.unseen k hholds (hsame ▸ hnotify) j hne ((hkept j).isLeader hj)
      (hseen k hholds j hne hj hmem)
  · intro k j hk hj
    exact h.single k j ((hkept k).isLeader hk) ((hkept j).isLeader hj)

/-- Member `i` has written the key and everybody else is as before. -/
theorem Inv.write (h : c.Inv) (hrunning : ∀ k, (c'.members k).Running)
    (hothers : ∀ k, k ≠ i → c'.inst k = c.inst k) (hbucket : c'.bucket = c.bucket.write)
    (hseq : (c'.inst i).lastSeq = c.bucket.last + 1)
    (hfresh : (c'.inst i).notifyNext = true → c'.seen i = [])
    (halone : (c'.inst i).isLeader = true → ∀ j, j ≠ i → (c.inst j).isLeader = false) :
    c'.Inv := by
  have hold : ∀ k, k ≠ i → (c'.inst k).state = .leader →
      (c'.inst k).lastSeq < (c'.inst i).lastSeq := by
    intro k hk hleader
    rw [hothers k hk] at hleader ⊢
    have hle := h.handedOut k hleader
    omega
  constructor
  · exact hrunning
  · intro k hk
    rw [hbucket]
    by_cases hki : k = i
    · simp [hki, hseq, Bucket.write]
    · have hlt := hold k hki hk
      simp only [Bucket.write]
      omega
  · intro k j hk hj heq
    by_cases hki : k = i
    · by_cases hji : j = i
      · rw [hki, hji]
      · have hlt := hold j hji hj
        rw [hki] at heq
        omega
    · by_cases hji : j = i
      · have hlt := hold k hki hk
        rw [hji] at heq
        omega
      · rw [hothers k hki, hothers j hji] at heq
        rw [hothers k hki] at hk
        rw [hothers j hji] at hj
        exact h.distinct k j hk hj heq
  · intro k hholds hnotify j hne hj hmem
    simp only [holds, hbucket, Bucket.write, decide_eq_true_eq, Option.some.injEq] at hholds
    by_cases hki : k = i
    · subst hki
      simp [hfresh hnotify] at hmem
    · have hlt := hold k hki hholds.1
      omega
  · have hsolo : ∀ j, j ≠ i → (c'.inst i).isLeader = true → (c'.inst j).isLeader = false := by
      intro j hji hleader
      rw [hothers j hji]
      exact halone hleader j hji
    intro k j hk hj
    by_cases hki : k = i
    · by_contra hne
      subst hki
      simp [hsolo j (Ne.symm hne) hk] at hj
    · by_cases hji : j = i
      · subst hji
        simp [hsolo k hki hj] at hk
      · rw [hothers k hki] at hk
        rw [hothers j hji] at hj
        exact h.single k j hk hj

/-- Without the bucket a member only leaves the leader state. -/
theorem kept_step {l l' : Life} {event : Event} (hevent : ∀ reply, event ≠ .tick reply)
    (hstep : l.step event = some l') : Kept l.inst l'.inst := by
  intro hleader
  cases Life.stepped hstep with
  | refused parentDone hstarted => exact ⟨hleader, rfl, rfl⟩
  | started parentDone hstarted => cases hleader
  | canceled => exact ⟨hleader, rfl, rfl⟩
  | ticked reply hphase => exact absurd rfl (hevent reply)
  | stopped hphase => cases hleader

theorem Inv.running_update (h : c.Inv) {event : Event} {l : Life}
    (hl : (c.members i).step event = some l) (k : Fin n) :
    (Function.update c.members i l k).Running := by
  by_cases hk : k = i
  · subst hk
    simpa using (h.running k).step hl
  · simpa [hk] using h.running k

theorem Inv.move (h : c.Inv) {event : Event} (hevent : ∀ reply, event ≠ .tick reply)
    (hmove : c.move i event = some c') : c'.Inv := by
  obtain ⟨l, hl, hc⟩ := Option.map_eq_some_iff.mp hmove
  subst hc
  apply h.keep
  · exact h.running_update hl
  · intro k
    by_cases hk : k = i
    · subst hk
      simpa [inst] using kept_step hevent hl
    · simp [Kept, inst, hk]
  · exact le_rfl
  · intro r hr
    exact Or.inl hr
  · intro k _ j _ _ hmem
    exact hmem

theorem tick_cases (htick : c.tick i outcome = some c') :
    ∃ l, (c.members i).step (.tick (c.answer i outcome).1) = some l ∧
      c' = { members := Function.update c.members i l, bucket := (c.answer i outcome).2,
             seen := c.seenAfter i (c.answer i outcome).1 } := by
  obtain ⟨l, hl, hc⟩ := Option.map_eq_some_iff.mp htick
  exact ⟨l, hl, hc.symm⟩

theorem tick_inst (htick : c.tick i outcome = some c') :
    c'.inst i = ((c.inst i).tryOnce (c.answer i outcome).1).2.2 := by
  obtain ⟨l, hl, hc⟩ := tick_cases htick
  cases Life.stepped hl
  simp [inst, hc]

theorem mem_seenAfter {k j : Fin n} {reply : Except Error Nat} (hne : j ≠ i)
    (hmem : j ∈ c.seenAfter i reply k) : j ∈ c.seen k := by
  unfold seenAfter at hmem
  split_ifs at hmem with hcreated
  · simp at hmem
  · simpa [hne] using hmem

theorem tick_others (htick : c.tick i outcome = some c') {k : Fin n} (hk : k ≠ i) :
    c'.inst k = c.inst k := by
  obtain ⟨l, hl, hc⟩ := tick_cases htick
  simp [hc, inst, hk]

theorem Inv.running_tick (h : c.Inv) (htick : c.tick i outcome = some c') (k : Fin n) :
    (c'.members k).Running := by
  obtain ⟨l, hl, hc⟩ := tick_cases htick
  rw [hc]
  exact h.running_update hl k

/-- A try that leaves the key alone. Whoever is leader afterwards holds the key, or nobody
does. -/
theorem Inv.tick_unwritten (h : c.Inv) (htick : c.tick i outcome = some c')
    (hbucket : (c.answer i outcome).2 = c.bucket) (hkept : Kept (c.inst i) (c'.inst i))
    (hheld : (c'.inst i).isLeader = true → ∀ k, c.holds k = true → k = i) : c'.Inv := by
  have hrunning := h.running_tick htick
  have hothers : ∀ k, Kept (c.inst k) (c'.inst k) := by
    intro k
    by_cases hk : k = i
    · exact hk ▸ hkept
    · simp [Kept, tick_others htick hk]
  obtain ⟨l, -, hc⟩ := tick_cases htick
  have hsame : c'.bucket = c.bucket := by rw [hc, ← hbucket]
  apply h.keep hrunning hothers
  · rw [hsame]
  · intro r hr
    rw [hsame] at hr
    exact Or.inl hr
  · intro k hholds j hjk hj hmem
    rw [hc] at hmem
    apply mem_seenAfter _ hmem
    intro hji
    subst hji
    exact hjk (hheld hj k hholds).symm

theorem Inv.holds_unique (h : c.Inv) {k : Fin n} (hi : c.holds i = true)
    (hk : c.holds k = true) : k = i := by
  simp only [holds, decide_eq_true_eq] at hi hk
  apply h.distinct k i hk.1 hi.1
  rw [← Option.some.injEq, ← hk.2, ← hi.2]

/-- The first update after a create comes when nobody reports itself leader. -/
theorem Inv.alone (h : c.Inv) (htried : c.othersTried (.tick i .served) = true)
    (hholds : c.holds i = true) {j : Fin n} (hji : j ≠ i) : (c.inst j).isLeader = false := by
  by_contra hleader
  simp only [Bool.not_eq_false] at hleader
  cases hpending : (c.inst i).notifyNext with
  | true =>
    have hstarted : (c.inst j).started = true := by
      apply (h.running j).leader
      simp only [Instance.isLeader, decide_eq_true_eq] at hleader
      exact hleader.1
    simp only [othersTried, decide_eq_true_eq] at htried
    exact h.unseen i hholds hpending j hji hleader (htried ⟨hholds, hpending⟩ j hji hstarted)
  | false =>
    simp only [holds, decide_eq_true_eq] at hholds
    have hannounced : (c.inst i).isLeader = true := by
      simp [Instance.isLeader, hholds.1, hpending]
    exact hji (h.single j i hleader hannounced)

/-- A member that reports itself leader while another one holds the key loses the
leadership with its next try, unless that fails with a context error. -/
theorem Inv.tick (h : c.Inv) (htried : c.othersTried (.tick i outcome) = true)
    (hheeds : c.heedsLoss (.tick i outcome) = true) (htick : c.tick i outcome = some c') :
    c'.Inv := by
  have htry := c.tried i outcome
  rw [← tick_inst htick] at htry
  obtain ⟨l, -, hc⟩ := tick_cases htick
  have hbucket : c'.bucket = (c.answer i outcome).2 := by rw [hc]
  have hseen : c'.seen = c.seenAfter i (c.answer i outcome).1 := by rw [hc]
  cases htry with
  | out hsame hstate =>
    apply h.tick_unwritten htick hsame
    · intro hleader
      exact absurd hleader hstate
    · intro hleader
      simp [Instance.isLeader, hstate] at hleader
  | created hwrite hstate hok hseq hnotify =>
    apply h.write (h.running_tick htick) (fun k hk => tick_others htick hk) (hbucket.trans hwrite)
      hseq
    · intro _
      simp [hseen, seenAfter, hstate, hok]
    · intro hleader
      simp [Instance.isLeader, hnotify] at hleader
  | renewed hwrite hserved hstate hlive hseq hnotify =>
    apply h.write (h.running_tick htick) (fun k hk => tick_others htick hk) (hbucket.trans hwrite)
      hseq
    · intro hpending
      simp [hnotify] at hpending
    · intro _ j hji
      rw [hserved] at htried
      exact h.alone htried (by simp [holds, hstate, hlive]) hji
  | kept hsame err hfailed herr hkept =>
    apply h.tick_unwritten htick hsame
    · intro hleader
      rw [hkept] at hleader ⊢
      exact ⟨hleader, rfl, rfl⟩
    · intro hleader k hholds
      rw [hkept] at hleader
      simp only [heedsLoss, hfailed, decide_eq_true_eq] at hheeds
      exact h.holds_unique (hheeds hleader herr) hholds

theorem Inv.foreign (h : c.Inv) {b : Bucket} (hlast : c.bucket.last ≤ b.last)
    (hlive : ∀ r, b.live = some r → c.bucket.last < r) :
    ({ c with bucket := b } : Cluster n).Inv := by
  apply h.keep
  · exact h.running
  · intro k hleader
    exact ⟨hleader, rfl, rfl⟩
  · exact hlast
  · intro r hr
    exact Or.inr (hlive r hr)
  · intro k _ j _ _ hmem
    exact hmem

theorem Inv.step (h : c.Inv) {a : Action n} (htried : c.othersTried a = true)
    (hheeds : c.heedsLoss a = true) (hstep : c.step a = some c') : c'.Inv := by
  cases a with
  | start i parentDone => exact h.move (by simp) hstep
  | cancel i => exact h.move (by simp) hstep
  | shutdown i => exact h.move (by simp) hstep
  | tick i outcome => exact h.tick htried hheeds hstep
  | expire =>
    injection hstep with hstep
    exact hstep ▸ h.foreign (by simp) (by simp)
  | delete =>
    injection hstep with hstep
    exact hstep ▸ h.foreign (by simp) (by simp)
  | put =>
    injection hstep with hstep
    exact hstep ▸ h.foreign (by simp [Bucket.write]) (by simp [Bucket.write])

theorem inv_new (opts : Fin n → Options) : (new opts).Inv := by
  constructor
  · intro i
    exact Life.running_new (opts i)
  all_goals simp [new, inst, holds, Instance.isLeader]

end Cluster

/-- In every run in which the others try before a win is announced and context errors keep
no leader from finding out that it lost the key, at most one instance reports itself
leader. -/
theorem at_most_one_leader (n : Nat) (opts : Fin n → Options) (actions : List (Action n))
    (c : Cluster n)
    (hrun : (Cluster.new opts).runWhile (fun c a => c.othersTried a && c.heedsLoss a) actions
      = some c)
    (i j : Fin n) (hi : (c.inst i).isLeader = true) (hj : (c.inst j).isLeader = true) : i = j := by
  have hinv : c.Inv := by
    apply Interaction.runWhile_induction _ actions (Cluster.inv_new opts) hrun
    intro c c' a h hmeets hstep
    obtain ⟨htried, hheeds⟩ := Bool.and_eq_true_iff.mp hmeets
    exact h.step htried hheeds hstep
  exact hinv.single i j hi hj

/-- Instance 0 is announced, its key expires and instance 1 creates it anew. -/
def takeOver : List (Action 2) :=
  [.start 0 false, .start 1 false, .tick 0 .served, .tick 1 .served, .tick 0 .served, .expire,
    .tick 1 .served]

/-- The old leader hears that its revision is gone before the new one is announced. -/
theorem at_most_one_leader_takeOver : ∃ c,
    (Cluster.new fun _ : Fin 2 => {}).runWhile (fun c a => c.othersTried a && c.heedsLoss a)
        (takeOver ++ [.tick 0 .served, .tick 1 .served]) = some c ∧
      (c.inst 1).isLeader = true ∧ ∀ i, (c.inst i).isLeader = true → i = 1 := by
  have hrun : ((Cluster.new fun _ : Fin 2 => {}).runWhile
      (fun c a => c.othersTried a && c.heedsLoss a)
      (takeOver ++ [.tick 0 .served, .tick 1 .served])).any (fun c => (c.inst 1).isLeader)
      = true := by decide +kernel
  obtain ⟨c, hc, hleader⟩ := (Option.any_eq_true _ _).mp hrun
  exact ⟨c, hc, hleader, fun i hi => at_most_one_leader 2 _ _ c hc i 1 hi hleader⟩

/-- The update of the old leader runs into the deadline of the client: it completes its try
as leader, and the new leader is announced beside it. -/
theorem stale_leader_survives_deadline : ∃ c,
    (Cluster.new fun _ : Fin 2 => {}).runWhile Cluster.othersTried
        (takeOver ++ [.tick 0 (.failed Sentinel.contextDeadlineExceeded.error), .tick 1 .served])
          = some c ∧
      (c.inst 0).isLeader = true ∧ (c.inst 1).isLeader = true := by
  have hrun : ((Cluster.new fun _ : Fin 2 => {}).runWhile Cluster.othersTried
      (takeOver ++ [.tick 0 (.failed Sentinel.contextDeadlineExceeded.error),
        .tick 1 .served])).any (fun c => (c.inst 0).isLeader && (c.inst 1).isLeader) = true := by
    decide +kernel
  obtain ⟨c, hc, hleaders⟩ := (Option.any_eq_true _ _).mp hrun
  obtain ⟨h0, h1⟩ := Bool.and_eq_true_iff.mp hleaders
  exact ⟨c, hc, h0, h1⟩

end AsyncJobs.Election
