import AsyncJobs.Election.Cluster

/-!
# Elections against the clock

The key of an election expires when nobody has written it for the TTL of the bucket, and an
instance tries at the ticks of its campaign interval, three quarters of the TTL. Here the
instances of a cluster run against a clock, none of them with a `Backoff`. The bucket answers
every request within a quarter of the TTL and an instance whose context ended shuts down before
its next tick is over; nobody else writes the key. It then never expires under a leader, who
stays leader until it shuts down.
-/

namespace AsyncJobs.Election

/-- A second in the nanoseconds of a `time.Duration`. -/
def second : Nat := 1000000000

inductive SetupError where
  /-- `bucket TTL should be 10 seconds or more` -/
  | ttlTooShort
  /-- `bucket TTL should be less than or equal to 1 hour` -/
  | ttlTooLong
  /-- `campaign interval %v too small` -/
  | intervalTooSmall (interval : Nat)
  deriving DecidableEq, Repr

/-- `NewElection` on a bucket with this TTL: the campaign interval, which no option changes. -/
def newElection (ttl : Nat) : Except SetupError Nat :=
  if ttl < 10 * second then .error .ttlTooShort
  else if 3600 * second < ttl then .error .ttlTooLong
  else
    -- `float64(ttl) * 0.75` is exact for these
    let interval := 3 * ttl / 4
    if interval < 5 * second then .error (.intervalTooSmall interval) else .ok interval

theorem newElection_ok {ttl interval : Nat} (h : newElection ttl = .ok interval) :
    interval = 3 * ttl / 4 ∧ 5 * second ≤ interval := by
  unfold newElection at h
  dsimp only at h
  split_ifs at h with hshort hlong hsmall
  cases h
  exact ⟨rfl, by omega⟩

/-- The times of an election. A try takes less than a quarter of the TTL. -/
structure Timing where
  ttl : Nat
  interval : Nat
  latency : Nat
  accepted : newElection ttl = .ok interval
  prompt : 4 * latency < ttl

theorem Timing.inTime (T : Timing) : T.interval + T.latency < T.ttl := by
  have heq := (newElection_ok T.accepted).1
  have hprompt := T.prompt
  omega

theorem Timing.splay_le (T : Timing) {splay : Nat} (h : splay < 5 * second) :
    splay ≤ T.interval := by
  have hle := (newElection_ok T.accepted).2
  omega

/-- `expires` is the time at which a live key expires, `nextTick` the one at which an instance
that is started tries next. -/
structure Timed (n : Nat) where
  cluster : Cluster n
  clock : Nat := 0
  expires : Nat := 0
  nextTick : Fin n → Nat := fun _ => 0

/-- The context of an instance that aborts a try has ended. Its request may have `reached` the
bucket before. -/
inductive TimedAction (n : Nat) where
  | wait (d : Nat)
  | start (i : Fin n) (parentDone : Bool) (splay : Nat)
  | cancel (i : Fin n)
  | shutdown (i : Fin n)
  | tick (i : Fin n)
  | abort (i : Fin n) (reached : Bool)

namespace Timed

variable {n : Nat} (T : Timing) (t : Timed n)

def new (opts : Fin n → Options) : Timed n where
  cluster := .new opts

def inst (i : Fin n) : Instance := t.cluster.inst i

/-- Every started instance is done with its next tick in time. -/
def patient (d : Nat) : Bool :=
  decide (∀ i, (t.inst i).started = true → t.clock + d ≤ t.nextTick i + T.latency)

def bucketAt (clock : Nat) : Bucket :=
  if t.expires ≤ clock then { t.cluster.bucket with live := none } else t.cluster.bucket

/-- When the key expires once the bucket has served the request of an instance. -/
def expiresAfter (i : Fin n) : Nat :=
  if (t.cluster.answer i .served).1.isOk then t.clock + T.ttl else t.expires

def step : TimedAction n → Option (Timed n)
  | .wait d =>
    if t.patient T d then
      some { t with
        clock := t.clock + d
        cluster := { t.cluster with bucket := t.bucketAt (t.clock + d) } }
    else none
  | .start i parentDone splay =>
    if splay < 5 * second then
      (t.cluster.move i (.start parentDone)).map fun c =>
        { t with
          cluster := c
          nextTick := if (t.inst i).started then t.nextTick
            else Function.update t.nextTick i (t.clock + splay) }
    else none
  | .cancel i => (t.cluster.move i .cancel).map fun c => { t with cluster := c }
  | .shutdown i => (t.cluster.move i .shutdown).map fun c => { t with cluster := c }
  | .tick i =>
    if (t.inst i).ctxDone ≠ some true ∧ t.nextTick i ≤ t.clock then
      (t.cluster.tick i .served).map fun c =>
        { t with
          cluster := c
          expires := t.expiresAfter T i
          nextTick := Function.update t.nextTick i (t.nextTick i + T.interval) }
    else none
  | .abort i reached =>
    if (t.inst i).ctxDone = some true then
      (t.cluster.tick i (.failed Sentinel.contextCanceled.error)).map fun c =>
        if reached then
          { t with
            cluster := { c with bucket := (t.cluster.answer i .served).2 }
            expires := t.expiresAfter T i }
        else { t with cluster := c }
    else none

def run (actions : List (TimedAction n)) : Option (Timed n) :=
  Interaction.run (step T) t actions

end Timed

inductive Served (e : Instance) (b : Bucket) (reply : Except Error Nat) (e' : Instance)
    (b' : Bucket) : Prop
  | renewed (hstate : e.state = .leader) (hlive : b.live = some e.lastSeq)
      (hok : reply.isOk = true) (hbucket : b' = b.write) (hleader : e'.isLeader = true)
      (hseq : e'.lastSeq = b.last + 1)
  | won (hstate : e.state = .candidate) (hlive : b.live = none) (hok : reply.isOk = true)
      (hbucket : b' = b.write) (hstate' : e'.state = .leader) (hseq : e'.lastSeq = b.last + 1)
      (hnotify : e'.notifyNext = true)
  | lost (hstate : e.state = .leader) (hlive : b.live ≠ some e.lastSeq)
      (hok : reply.isOk = false) (hbucket : b' = b) (hstate' : e'.state = .candidate)
  | waited (hstate : e.state = .candidate) (hlive : b.live ≠ none) (hok : reply.isOk = false)
      (hbucket : b' = b) (hstate' : e'.state = .candidate)
  | unknown (hstate : e.state = .unknown) (hok : reply.isOk = false) (hbucket : b' = b)
      (hstate' : e'.state = .unknown)

theorem Cluster.served {n : Nat} (c : Cluster n) (i : Fin n) :
    Served (c.inst i) c.bucket (c.answer i .served).1
      ((c.inst i).tryOnce (c.answer i .served).1).2.2 (c.answer i .served).2 := by
  cases hstate : (c.inst i).state with
  | unknown =>
    simp only [answer, Instance.request, hstate]
    exact .unknown hstate rfl rfl (by simp [Instance.tryOnce, hstate])
  | candidate =>
    simp only [answer, Instance.request, hstate, Bucket.answer, Bucket.serve]
    by_cases hlive : c.bucket.live = none
    · rw [if_pos hlive]
      apply Served.won hstate hlive rfl rfl <;>
        simp [Instance.tryOnce, hstate, Instance.campaignForLeadershipLocked]
    · rw [if_neg hlive]
      apply Served.waited hstate hlive rfl rfl
      simp [Instance.tryOnce, hstate, Instance.campaignForLeadershipLocked]
  | leader =>
    simp only [answer, Instance.request, hstate, Bucket.answer, Bucket.serve]
    by_cases hlive : c.bucket.live = some (c.inst i).lastSeq
    · rw [if_pos hlive]
      apply Served.renewed hstate hlive rfl rfl <;>
        cases hnotify : (c.inst i).notifyNext <;>
        simp [Instance.tryOnce, hstate, Instance.maintainLeadershipLocked, hnotify,
          Instance.isLeader]
    · rw [if_neg hlive]
      apply Served.lost hstate hlive rfl rfl
      have herr : Instance.isContextError (.plain "nats: wrong last sequence") = false := rfl
      cases hnotify : (c.inst i).notifyNext <;>
        simp [Instance.tryOnce, hstate, Instance.maintainLeadershipLocked, hnotify, herr]

@[simp] theorem Instance.tryOnce_ctxDone (e : Instance) (reply : Except Error Nat) :
    (e.tryOnce reply).2.2.ctxDone = e.ctxDone := by
  unfold tryOnce campaignForLeadershipLocked maintainLeadershipLocked
  cases reply <;> cases e.state <;> simp only <;> split_ifs <;> rfl

/-- A try that fails with the end of the context changes the count of the tries at most. -/
theorem Instance.tryOnce_canceled (e : Instance) :
    ∃ tries, (e.tryOnce (.error Sentinel.contextCanceled.error)).2.2 = { e with tries } := by
  have herr : isContextError Sentinel.contextCanceled.error = true := rfl
  cases e with
  | mk opts state lastSeq started tries notifyNext ctxDone =>
    cases state with
    | unknown => exact ⟨tries, rfl⟩
    | candidate => exact ⟨tries + 1, rfl⟩
    | leader => exact ⟨tries, by simp [tryOnce, maintainLeadershipLocked, herr]⟩

theorem Cluster.answer_failed {n : Nat} (c : Cluster n) (i : Fin n)
    (hstate : (c.inst i).state ≠ .unknown) (err : Error) :
    c.answer i (.failed err) = (.error err, c.bucket) := by
  unfold answer Instance.request
  cases h : (c.inst i).state with
  | unknown => exact absurd h hstate
  | candidate => rfl
  | leader => rfl

namespace Timed

variable {n : Nat} {T : Timing} {t t' : Timed n} {i : Fin n}

/-- A leader is done with its next tick before the key expires. The key is its own unless the
write of an aborted try got through. -/
structure Member (T : Timing) (t : Timed n) (i : Fin n) : Prop where
  running : (t.cluster.members i).Running
  campaigning : (t.inst i).started = true → (t.inst i).state ≠ .unknown
  inTime : (t.inst i).started = true → t.clock ≤ t.nextTick i + T.latency
  armed : (t.inst i).started = true → t.nextTick i ≤ t.clock + T.interval
  live : (t.inst i).state = .leader → t.cluster.bucket.live ≠ none
  held : (t.inst i).state = .leader → t.nextTick i + T.latency < t.expires
  current : (t.inst i).state = .leader → (t.inst i).ctxDone ≠ some true →
    t.cluster.bucket.live = some (t.inst i).lastSeq

structure Inv (T : Timing) (t : Timed n) : Prop where
  member : ∀ i, t.Member T i
  single : ∀ i j, (t.inst i).state = .leader → (t.inst j).state = .leader → i = j
  unexpired : t.cluster.bucket.live ≠ none → t.clock < t.expires
  recent : t.cluster.bucket.live ≠ none → t.expires ≤ t.clock + T.ttl

/-- Everybody but `i` is as before. -/
def Others (t t' : Timed n) (i : Fin n) : Prop :=
  t'.clock = t.clock ∧
    ∀ k, k ≠ i → t'.cluster.members k = t.cluster.members k ∧ t'.nextTick k = t.nextTick k

theorem Others.inst (h : t.Others t' i) {k : Fin n} (hk : k ≠ i) : t'.inst k = t.inst k := by
  simp only [Timed.inst, Cluster.inst, (h.2 k hk).1]

/-- The others keep what is known of them, those that are not leader whatever the key is. -/
theorem Others.member (h : t.Others t' i) {k : Fin n} (hk : k ≠ i) (hm : t.Member T k)
    (hkey : (t.inst k).state = .leader →
      t'.cluster.bucket = t.cluster.bucket ∧ t'.expires = t.expires) : t'.Member T k := by
  have hinst := h.inst hk
  obtain ⟨hclock, hothers⟩ := h
  obtain ⟨hmembers, hnext⟩ := hothers k hk
  constructor
  · exact hmembers ▸ hm.running
  all_goals rw [hinst]
  · exact hm.campaigning
  · rw [hclock, hnext]
    exact hm.inTime
  · rw [hclock, hnext]
    exact hm.armed
  · intro hleader
    rw [(hkey hleader).1]
    exact hm.live hleader
  · intro hleader
    rw [(hkey hleader).2, hnext]
    exact hm.held hleader
  · intro hleader
    rw [(hkey hleader).1]
    exact hm.current hleader

theorem Inv.keep (h : t.Inv T) (hothers : t.Others t' i)
    (hbucket : t'.cluster.bucket = t.cluster.bucket) (hexpires : t'.expires = t.expires)
    (hi : t'.Member T i) (hleader : (t'.inst i).state = .leader → (t.inst i).state = .leader) :
    t'.Inv T := by
  have hleaders : ∀ k, (t'.inst k).state = .leader → (t.inst k).state = .leader := by
    intro k hk
    by_cases hki : k = i
    · rw [hki] at hk ⊢
      exact hleader hk
    · rwa [hothers.inst hki] at hk
  constructor
  · intro k
    by_cases hki : k = i
    · exact hki ▸ hi
    · exact hothers.member hki (h.member k) (fun _ => ⟨hbucket, hexpires⟩)
  · intro k j hk hj
    exact h.single k j (hleaders k hk) (hleaders j hj)
  · rw [hbucket, hothers.1, hexpires]
    exact h.unexpired
  · rw [hbucket, hothers.1, hexpires]
    exact h.recent

/-- The request of `i` has written the key while nobody else was leader. -/
theorem Inv.write (h : t.Inv T) (hothers : t.Others t' i)
    (hbucket : t'.cluster.bucket = t.cluster.bucket.write)
    (hexpires : t'.expires = t.clock + T.ttl) (hrunning : (t'.cluster.members i).Running)
    (hcampaigning : (t'.inst i).state ≠ .unknown)
    (hinTime : t.clock ≤ t'.nextTick i + T.latency)
    (harmed : t'.nextTick i ≤ t.clock + T.interval)
    (halone : ∀ k, k ≠ i → (t.inst k).state ≠ .leader)
    (hcurrent : (t'.inst i).state = .leader → (t'.inst i).ctxDone ≠ some true →
      (t'.inst i).lastSeq = t.cluster.bucket.last + 1) : t'.Inv T := by
  have hclock := hothers.1
  have hleaders : ∀ k, (t'.inst k).state = .leader → k = i := by
    intro k hk
    by_contra hki
    rw [hothers.inst hki] at hk
    exact halone k hki hk
  have hlive : t'.cluster.bucket.live = some (t.cluster.bucket.last + 1) := by
    rw [hbucket]
    rfl
  have htiming := T.inTime
  constructor
  · intro k
    by_cases hki : k = i
    · subst hki
      constructor
      · exact hrunning
      · intro _
        exact hcampaigning
      · intro _
        rwa [hclock]
      · intro _
        rwa [hclock]
      · intro _
        simp [hlive]
      · intro _
        omega
      · intro hleader hctx
        rw [hlive, hcurrent hleader hctx]
    · exact hothers.member hki (h.member k) (fun hleader => absurd hleader (halone k hki))
  · intro k j hk hj
    rw [hleaders k hk, hleaders j hj]
  · intro _
    omega
  · intro _
    omega

/-- Nobody else is leader when a request of `i` can write the key. -/
theorem Inv.alone (h : t.Inv T)
    (hi : (t.inst i).state = .leader ∨ t.cluster.bucket.live = none) {k : Fin n} (hk : k ≠ i) :
    (t.inst k).state ≠ .leader := by
  intro hleader
  rcases hi with hstate | hnone
  · exact hk (h.single k i hleader hstate)
  · exact (h.member k).live hleader hnone

theorem Inv.wait (h : t.Inv T) {d : Nat} (hpatient : t.patient T d = true) :
    Inv T { t with
      clock := t.clock + d
      cluster := { t.cluster with bucket := t.bucketAt (t.clock + d) } } := by
  simp only [patient, decide_eq_true_eq] at hpatient
  have hkept : ∀ i, (t.inst i).state = .leader → t.bucketAt (t.clock + d) = t.cluster.bucket := by
    intro i hleader
    have hwait := hpatient i ((h.member i).running.leader hleader)
    have hheld := (h.member i).held hleader
    exact if_neg (by omega)
  have hlive : (t.bucketAt (t.clock + d)).live ≠ none →
      t.cluster.bucket.live ≠ none ∧ t.clock + d < t.expires := by
    unfold bucketAt
    split_ifs with hexpired
    · intro hlive
      exact absurd rfl hlive
    · intro hlive
      exact ⟨hlive, by omega⟩
  constructor
  · intro i
    have hi := h.member i
    constructor
    · exact hi.running
    · exact hi.campaigning
    · exact hpatient i
    · intro hstarted
      have harmed := hi.armed hstarted
      exact harmed.trans (by simp)
    · intro hleader
      exact (hkept i hleader).symm ▸ hi.live hleader
    · exact hi.held
    · intro hleader hctx
      exact (hkept i hleader).symm ▸ hi.current hleader hctx
  · exact h.single
  · intro hsome
    exact (hlive hsome).2
  · intro hsome
    have hrecent := h.recent (hlive hsome).1
    exact hrecent.trans (by simp)

/-- Everything a step of one instance does that sends no request. -/
structure Moved (t : Timed n) (i : Fin n) (event : Event) (t' : Timed n) : Prop where
  step : (t.cluster.members i).step event = some (t'.cluster.members i)
  silent : ∀ reply, event ≠ .tick reply
  others : t.Others t' i
  bucket : t'.cluster.bucket = t.cluster.bucket
  expires : t'.expires = t.expires
  nextTick : (t.inst i).started = true → t'.nextTick i = t.nextTick i

theorem moved {event : Event} {c : Cluster n} {nextTick : Fin n → Nat}
    (hmove : t.cluster.move i event = some c) (hevent : ∀ reply, event ≠ .tick reply)
    (hothers : ∀ k, k ≠ i → nextTick k = t.nextTick k)
    (hnext : (t.inst i).started = true → nextTick i = t.nextTick i) :
    t.Moved i event { t with cluster := c, nextTick } := by
  obtain ⟨l, hl, hc⟩ := Option.map_eq_some_iff.mp hmove
  subst hc
  constructor
  · simpa using hl
  · exact hevent
  · exact ⟨rfl, fun k hk => ⟨Function.update_of_ne hk _ _, hothers k hk⟩⟩
  · rfl
  · rfl
  · exact hnext

/-- A start is refused, or the instance becomes a candidate that tries after its splay. -/
theorem moved_start {parentDone : Bool} {splay : Nat}
    (hstep : t.step T (.start i parentDone splay) = some t') :
    t.Moved i (.start parentDone) t' ∧
      ((t.inst i).started = true ∧ t'.inst i = t.inst i ∨
        (t.inst i).started = false ∧ (t'.inst i).state = .candidate ∧
          t.clock ≤ t'.nextTick i ∧ t'.nextTick i ≤ t.clock + T.interval) := by
  simp only [step] at hstep
  by_cases hsplay : splay < 5 * second
  · rw [if_pos hsplay] at hstep
    obtain ⟨c, hmove, ht⟩ := Option.map_eq_some_iff.mp hstep
    subst ht
    constructor
    · apply moved hmove (by simp)
      · intro k hk
        split_ifs
        · rfl
        · exact Function.update_of_ne hk _ _
      · intro hstarted
        rw [if_pos hstarted]
    · obtain ⟨l, hl, hc⟩ := Option.map_eq_some_iff.mp hmove
      subst hc
      cases Life.stepped hl with
      | refused parentDone hstarted => exact Or.inl ⟨hstarted, by simp [inst, Cluster.inst]⟩
      | started parentDone hstarted =>
        have hle := T.splay_le hsplay
        exact Or.inr ⟨hstarted, by simp [inst, Cluster.inst, hstarted, hle]⟩
  · rw [if_neg hsplay] at hstep
    cases hstep

theorem moved_cancel (hstep : t.step T (.cancel i) = some t') :
    t.Moved i .cancel t' ∧ t'.inst i = (t.inst i).cancel := by
  simp only [step] at hstep
  obtain ⟨c, hmove, ht⟩ := Option.map_eq_some_iff.mp hstep
  obtain ⟨l, hl, hc⟩ := Option.map_eq_some_iff.mp hmove
  have hm : t.Moved i .cancel t' :=
    ht ▸ moved hmove (by simp) (fun _ _ => rfl) (fun _ => rfl)
  subst ht hc
  cases Life.stepped hl
  exact ⟨hm, by simp [inst, Cluster.inst]⟩

theorem moved_shutdown (hstep : t.step T (.shutdown i) = some t') :
    t.Moved i .shutdown t' ∧ t'.inst i = (t.inst i).stop := by
  simp only [step] at hstep
  obtain ⟨c, hmove, ht⟩ := Option.map_eq_some_iff.mp hstep
  obtain ⟨l, hl, hc⟩ := Option.map_eq_some_iff.mp hmove
  have hm : t.Moved i .shutdown t' :=
    ht ▸ moved hmove (by simp) (fun _ _ => rfl) (fun _ => rfl)
  subst ht hc
  cases Life.stepped hl
  exact ⟨hm, by simp [inst, Cluster.inst]⟩

theorem Moved.kept {event : Event} (h : t.Moved i event t') :
    Cluster.Kept (t.inst i) (t'.inst i) :=
  Cluster.kept_step h.silent h.step

theorem Inv.move (h : t.Inv T) {event : Event} (hm : t.Moved i event t')
    (hstarted : (t'.inst i).started = true → (t'.inst i).state ≠ .unknown ∧
      t.clock ≤ t'.nextTick i + T.latency ∧ t'.nextTick i ≤ t.clock + T.interval)
    (hctx : (t.inst i).ctxDone = some true → (t'.inst i).state = .leader →
      (t'.inst i).ctxDone = some true) : t'.Inv T := by
  have hi := h.member i
  have hkept := hm.kept
  apply h.keep hm.others hm.bucket hm.expires
  · constructor
    · exact hi.running.step hm.step
    · exact fun h => (hstarted h).1
    · rw [hm.others.1]
      exact fun h => (hstarted h).2.1
    · rw [hm.others.1]
      exact fun h => (hstarted h).2.2
    · intro hleader
      rw [hm.bucket]
      exact hi.live (hkept hleader).1
    · intro hleader
      have hstate := (hkept hleader).1
      rw [hm.expires, hm.nextTick (hi.running.leader hstate)]
      exact hi.held hstate
    · intro hleader hdone
      rw [hm.bucket, (hkept hleader).2.1]
      exact hi.current (hkept hleader).1 (fun hbefore => hdone (hctx hbefore hleader))
  · intro hleader
    exact (hkept hleader).1

theorem Inv.start (h : t.Inv T) {parentDone : Bool} {splay : Nat}
    (hstep : t.step T (.start i parentDone splay) = some t') : t'.Inv T := by
  have hi := h.member i
  obtain ⟨hm, ⟨hstarted, hinst⟩ | ⟨-, hstate, hclock, hnext⟩⟩ := moved_start hstep
  · apply h.move hm
    · intro _
      rw [hinst, hm.nextTick hstarted]
      exact ⟨hi.campaigning hstarted, hi.inTime hstarted, hi.armed hstarted⟩
    · intro hdone _
      rwa [hinst]
  · apply h.move hm
    · intro _
      exact ⟨by simp [hstate], by omega, hnext⟩
    · intro _ hleader
      simp [hstate] at hleader

theorem Inv.cancel (h : t.Inv T) (hstep : t.step T (.cancel i) = some t') : t'.Inv T := by
  have hi := h.member i
  obtain ⟨hm, hinst⟩ := moved_cancel hstep
  apply h.move hm
  · intro hstarted
    rw [hinst] at hstarted
    rw [hinst, hm.nextTick hstarted]
    exact ⟨hi.campaigning hstarted, hi.inTime hstarted, hi.armed hstarted⟩
  · intro hdone _
    simp [hinst, Instance.cancel, hdone]

theorem Inv.shutdown (h : t.Inv T) (hstep : t.step T (.shutdown i) = some t') : t'.Inv T := by
  obtain ⟨hm, hinst⟩ := moved_shutdown hstep
  apply h.move hm <;> simp [hinst, Instance.stop]

structure Ticked (T : Timing) (t : Timed n) (i : Fin n) (t' : Timed n) : Prop where
  ctx : (t.inst i).ctxDone ≠ some true
  due : t.nextTick i ≤ t.clock
  step : (t.cluster.members i).step (.tick (t.cluster.answer i .served).1)
    = some (t'.cluster.members i)
  others : t.Others t' i
  nextTick : t'.nextTick i = t.nextTick i + T.interval
  expires : t'.expires = t.expiresAfter T i
  served : Served (t.inst i) t.cluster.bucket (t.cluster.answer i .served).1 (t'.inst i)
    t'.cluster.bucket

theorem ticked (hstep : t.step T (.tick i) = some t') : t.Ticked T i t' := by
  simp only [step] at hstep
  split_ifs at hstep with hdue
  obtain ⟨c, htick, hc⟩ := Option.map_eq_some_iff.mp hstep
  have hserved := t.cluster.served i
  rw [← Cluster.tick_inst htick] at hserved
  obtain ⟨l, hl, hc'⟩ := Cluster.tick_cases htick
  subst hc hc'
  constructor
  · exact hdue.1
  · exact hdue.2
  · simpa using hl
  · exact ⟨rfl, fun k hk => by simp [hk]⟩
  · simp
  · rfl
  · exact hserved

theorem Ticked.inst (h : t.Ticked T i t') :
    t'.inst i = ((t.inst i).tryOnce (t.cluster.answer i .served).1).2.2 := by
  have hstepped := Life.stepped h.step
  generalize hl : t'.cluster.members i = l at hstepped
  cases hstepped with
  | ticked reply hphase => simp only [Timed.inst, Cluster.inst, hl]

theorem Ticked.started (h : t.Ticked T i t') : (t'.inst i).started = (t.inst i).started := by
  rw [h.inst, Instance.tryOnce_started]

theorem Member.started (h : t.Member T i) {reply : Except Error Nat} {l : Life}
    (hstep : (t.cluster.members i).step (.tick reply) = some l) :
    (t.inst i).started = true := by
  apply h.running.started.mpr
  cases Life.stepped hstep with
  | ticked reply hphase => exact hphase

theorem Inv.tick (h : t.Inv T) (hstep : t.step T (.tick i) = some t') : t'.Inv T := by
  have hi := h.member i
  have htick := ticked hstep
  have hstarted := hi.started htick.step
  have hclock := htick.others.1
  have hnext := htick.nextTick
  have hdue := htick.due
  have hinTime := hi.inTime hstarted
  have hwritten : (t.cluster.answer i .served).1.isOk = true →
      t'.cluster.bucket = t.cluster.bucket.write → (t'.inst i).state = .leader →
      (t'.inst i).lastSeq = t.cluster.bucket.last + 1 →
      ((t.inst i).state = .leader ∨ t.cluster.bucket.live = none) → t'.Inv T := by
    intro hok hbucket hleader hseq hfree
    apply h.write htick.others hbucket
    · simp [htick.expires, expiresAfter, hok]
    · exact hi.running.step htick.step
    · simp [hleader]
    · omega
    · omega
    · intro k hk
      exact h.alone hfree hk
    · intro _ _
      exact hseq
  cases htick.served with
  | renewed hstate hlive hok hbucket hleader hseq =>
    simp only [Instance.isLeader, decide_eq_true_eq] at hleader
    exact hwritten hok hbucket hleader.1 hseq (Or.inl hstate)
  | won hstate hlive hok hbucket hstate' hseq =>
    exact hwritten hok hbucket hstate' hseq (Or.inr hlive)
  | lost hstate hlive => exact absurd (hi.current hstate htick.ctx) hlive
  | waited hstate hlive hok hbucket hstate' =>
    apply h.keep htick.others hbucket
    · simp [htick.expires, expiresAfter, hok]
    · constructor
      · exact hi.running.step htick.step
      · simp [hstate']
      · intro _
        omega
      · intro _
        omega
      all_goals simp [hstate']
    · simp [hstate']
  | unknown hstate => exact absurd hstate (hi.campaigning hstarted)

/-- Everything a try does that sees the end of the context. -/
structure Aborted (T : Timing) (t : Timed n) (i : Fin n) (t' : Timed n) : Prop where
  ctx : (t.inst i).ctxDone = some true
  step : ∃ reply, (t.cluster.members i).step (.tick reply) = some (t'.cluster.members i)
  others : t.Others t' i
  nextTick : t'.nextTick i = t.nextTick i
  inst : ∃ tries, t'.inst i = { t.inst i with tries }
  bucket : (t'.cluster.bucket = t.cluster.bucket ∧ t'.expires = t.expires) ∨
    (t'.cluster.bucket = (t.cluster.answer i .served).2 ∧ t'.expires = t.expiresAfter T i)

theorem Inv.aborted (h : t.Inv T) {reached : Bool}
    (hstep : t.step T (.abort i reached) = some t') : t.Aborted T i t' := by
  have hi := h.member i
  simp only [step] at hstep
  by_cases hctx : (t.inst i).ctxDone = some true
  · rw [if_pos hctx] at hstep
    obtain ⟨c, htick, hc⟩ := Option.map_eq_some_iff.mp hstep
    obtain ⟨l, hl, hc'⟩ := Cluster.tick_cases htick
    have hmembers : t'.cluster.members = Function.update t.cluster.members i l := by
      rw [← hc]
      cases reached <;> simp [hc']
    have hnext : t'.nextTick = t.nextTick := by
      rw [← hc]
      cases reached <;> rfl
    have hfailed := t.cluster.answer_failed i (hi.campaigning (hi.started hl))
      Sentinel.contextCanceled.error
    constructor
    · exact hctx
    · exact ⟨_, by simpa [hmembers] using hl⟩
    · constructor
      · rw [← hc]
        cases reached <;> rfl
      · intro k hk
        simp [hmembers, hnext, hk]
    · rw [hnext]
    · cases Life.stepped hl with
      | ticked reply hphase =>
        obtain ⟨tries, htries⟩ := (t.inst i).tryOnce_canceled
        refine ⟨tries, ?_⟩
        rw [← htries]
        simp [inst, Cluster.inst, hmembers, hfailed]
    · rw [← hc]
      cases reached with
      | true => exact Or.inr ⟨rfl, rfl⟩
      | false => exact Or.inl ⟨by simp [hc', hfailed], rfl⟩
  · rw [if_neg hctx] at hstep
    cases hstep

theorem Inv.abort (h : t.Inv T) {reached : Bool}
    (hstep : t.step T (.abort i reached) = some t') : t'.Inv T := by
  have hi := h.member i
  have habort := h.aborted hstep
  obtain ⟨hclock, -⟩ := habort.others
  have hnext := habort.nextTick
  obtain ⟨reply, hlife⟩ := habort.step
  have hstarted := hi.started hlife
  have hrunning := hi.running.step hlife
  obtain ⟨tries, hinst⟩ := habort.inst
  have hunwritten : t'.cluster.bucket = t.cluster.bucket → t'.expires = t.expires → t'.Inv T := by
    intro hbucket hexpires
    apply h.keep habort.others hbucket hexpires
    · constructor
      · exact hrunning
      all_goals simp only [hinst, hclock, hnext, hbucket, hexpires]
      · exact hi.campaigning
      · exact hi.inTime
      · exact hi.armed
      · exact hi.live
      · exact hi.held
      · exact hi.current
    · simp [hinst]
  have hwritten : t'.cluster.bucket = t.cluster.bucket.write → t'.expires = t.clock + T.ttl →
      ((t.inst i).state = .leader ∨ t.cluster.bucket.live = none) → t'.Inv T := by
    intro hbucket hexpires hfree
    apply h.write habort.others hbucket hexpires hrunning
    · simpa [hinst] using hi.campaigning hstarted
    · rw [hnext]
      exact hi.inTime hstarted
    · rw [hnext]
      exact hi.armed hstarted
    · intro k hk
      exact h.alone hfree hk
    · simp [hinst, habort.ctx]
  rcases habort.bucket with ⟨hbucket, hexpires⟩ | ⟨hbucket, hexpires⟩
  · exact hunwritten hbucket hexpires
  · rw [expiresAfter] at hexpires
    cases t.cluster.served i with
    | renewed hstate hlive hok hwrite =>
      exact hwritten (hbucket.trans hwrite) (by simpa [hok] using hexpires) (Or.inl hstate)
    | won hstate hlive hok hwrite =>
      exact hwritten (hbucket.trans hwrite) (by simpa [hok] using hexpires) (Or.inr hlive)
    | lost hstate hlive hok hsame =>
      exact hunwritten (hbucket.trans hsame) (by simpa [hok] using hexpires)
    | waited hstate hlive hok hsame =>
      exact hunwritten (hbucket.trans hsame) (by simpa [hok] using hexpires)
    | unknown hstate hok hsame =>
      exact hunwritten (hbucket.trans hsame) (by simpa [hok] using hexpires)

theorem Inv.step (h : t.Inv T) {a : TimedAction n} (hstep : t.step T a = some t') : t'.Inv T := by
  cases a with
  | wait d =>
    simp only [Timed.step] at hstep
    split_ifs at hstep with hpatient
    cases hstep
    exact h.wait hpatient
  | start i parentDone splay => exact h.start hstep
  | cancel i => exact h.cancel hstep
  | shutdown i => exact h.shutdown hstep
  | tick i => exact h.tick hstep
  | abort i reached => exact h.abort hstep

theorem inv_new (T : Timing) (opts : Fin n → Options) : (new opts).Inv T := by
  constructor
  · intro i
    constructor
    · exact Life.running_new (opts i)
    all_goals simp [new, inst, Cluster.new, Cluster.inst]
  all_goals simp [new, inst, Cluster.new, Cluster.inst]

theorem Inv.run (h : t.Inv T) {actions : List (TimedAction n)}
    (hrun : t.run T actions = some t') : t'.Inv T :=
  Interaction.run_induction (fun h hstep => h.step hstep) actions h hrun

/-- The key did not expire, so that the first tick after a win announces it. -/
theorem Inv.announces (h : t.Inv T) (hstate : (t.inst i).state = .leader)
    (hstep : t.step T (.tick i) = some t') : (t'.inst i).isLeader = true := by
  have htick := ticked hstep
  cases htick.served with
  | renewed _ _ _ _ hrenewed _ => exact hrenewed
  | lost _ hlive => exact absurd ((h.member i).current hstate htick.ctx) hlive
  | won hcandidate => simp [hcandidate] at hstate
  | waited hcandidate => simp [hcandidate] at hstate
  | unknown hunknown => simp [hunknown] at hstate

theorem Inv.leads (h : t.Inv T) {a : TimedAction n} (hstep : t.step T a = some t')
    (hleader : (t.inst i).isLeader = true) (ha : a ≠ .shutdown i) :
    (t'.inst i).isLeader = true := by
  have hstate : (t.inst i).state = .leader := by
    simp only [Instance.isLeader, decide_eq_true_eq] at hleader
    exact hleader.1
  have hstarted := (h.member i).running.leader hstate
  cases a with
  | wait d =>
    simp only [Timed.step] at hstep
    split_ifs at hstep
    cases hstep
    exact hleader
  | start j parentDone splay =>
    obtain ⟨hm, hj⟩ := moved_start hstep
    by_cases hij : i = j
    · subst hij
      rcases hj with ⟨-, hinst⟩ | ⟨hidle, -⟩
      · rw [hinst]
        exact hleader
      · exact absurd hstarted (Bool.eq_false_iff.mp hidle)
    · rw [hm.others.inst hij]
      exact hleader
  | cancel j =>
    obtain ⟨hm, hinst⟩ := moved_cancel hstep
    by_cases hij : i = j
    · subst hij
      rw [hinst]
      exact hleader
    · rw [hm.others.inst hij]
      exact hleader
  | shutdown j =>
    obtain ⟨hm, -⟩ := moved_shutdown hstep
    rw [hm.others.inst (fun hij => ha (hij ▸ rfl))]
    exact hleader
  | tick j =>
    by_cases hij : i = j
    · subst hij
      exact h.announces hstate hstep
    · rw [(ticked hstep).others.inst hij]
      exact hleader
  | abort j reached =>
    have habort := h.aborted hstep
    by_cases hij : i = j
    · subst hij
      obtain ⟨tries, hinst⟩ := habort.inst
      simpa [hinst, Instance.isLeader] using hleader
    · rw [habort.others.inst hij]
      exact hleader

theorem Inv.unique (h : t.Inv T) {i j : Fin n} (hi : (t.inst i).isLeader = true)
    (hj : (t.inst j).isLeader = true) : i = j := by
  simp only [Instance.isLeader, decide_eq_true_eq] at hi hj
  exact h.single i j hi.1 hj.1

end Timed

/-- When the bucket answers in time and nobody else writes the key, at most one instance of
every run is in the leader state, the key has not expired while one is, and one that reports
itself leader does so until it shuts down. -/
theorem timely_leader_stays_until_shutdown (T : Timing) (n : Nat) (opts : Fin n → Options)
    (actions : List (TimedAction n)) (t : Timed n)
    (hrun : (Timed.new opts).run T actions = some t) :
    (∀ i j, (t.inst i).state = .leader → (t.inst j).state = .leader → i = j) ∧
      (∀ i, (t.inst i).state = .leader → t.cluster.bucket.live ≠ none ∧ t.clock < t.expires) ∧
      ∀ i a t', (t.inst i).isLeader = true → t.step T a = some t' → a ≠ .shutdown i →
        (t'.inst i).isLeader = true := by
  have hinv := (Timed.inv_new T opts).run hrun
  refine ⟨hinv.single, ?_, fun i a t' hleader hstep ha => hinv.leads hstep hleader ha⟩
  intro i hleader
  have hlive := (hinv.member i).live hleader
  exact ⟨hlive, hinv.unexpired hlive⟩

/-- The TTL of the bucket that the scheduler uses by default. -/
def defaultTiming : Timing where
  ttl := 10 * second
  interval := 15 * second / 2
  latency := 2 * second
  accepted := by decide
  prompt := by decide

/-- Two instances, the second of which tries a second later. -/
def twoStarts {n : Nat} (i j : Fin n) : List (TimedAction n) :=
  [.start i false 0, .start j false second]

def campaigns {n : Nat} (i j : Fin n) : List (TimedAction n) :=
  [.tick i, .wait second, .tick j, .wait (13 * second / 2)]

/-- The context of the leader ends while it renews the key. -/
theorem timely_leader_stays_aborted : ∃ t,
    (Timed.new fun _ : Fin 2 => {}).run defaultTiming
        (twoStarts 0 1 ++ campaigns 0 1 ++ campaigns 0 1 ++ [.cancel 0, .abort 0 true]) = some t ∧
      (t.inst 0).isLeader = true ∧ (∀ i, (t.inst i).state = .leader → i = 0) ∧
      t.clock < t.expires ∧
      ∀ a t', t.step defaultTiming a = some t' → a ≠ .shutdown 0 → (t'.inst 0).isLeader = true := by
  have hrun : ((Timed.new fun _ : Fin 2 => {}).run defaultTiming
      (twoStarts 0 1 ++ campaigns 0 1 ++ campaigns 0 1 ++ [.cancel 0, .abort 0 true])).any
      (fun t => (t.inst 0).isLeader && decide ((t.inst 0).state = .leader)) = true := by
    decide +kernel
  obtain ⟨t, ht, hleader⟩ := (Option.any_eq_true _ _).mp hrun
  obtain ⟨hleader, hstate⟩ := Bool.and_eq_true_iff.mp hleader
  have hstate := of_decide_eq_true hstate
  obtain ⟨hsingle, hlive, hstays⟩ := timely_leader_stays_until_shutdown defaultTiming 2 _ _ t ht
  exact ⟨t, ht, hleader, fun i hi => hsingle i 0 hi hstate, (hlive 0 hstate).2,
    fun a t' => hstays 0 a t' hleader⟩

end AsyncJobs.Election
