import AsyncJobs.Election.Timing

/-!
# How long an election takes

Whatever key is left behind, it expires after the TTL, the next try of any instance creates it
anew, and the try after that announces the new leader. Nothing keeps the instances from trying:
each can try when its tick is due, and time can pass as soon as those that are due have tried.
-/

namespace AsyncJobs.Election

namespace Timed

variable {n : Nat} {T : Timing} {t t' : Timed n}

/-- How far an election that began at a time has come, with `k` among the instances. -/
inductive Progress (T : Timing) (since : Nat) (k : Fin n) (t : Timed n) : Prop
  | announced (i : Fin n) (hleader : (t.inst i).isLeader = true)
  | won (i : Fin n) (hstate : (t.inst i).state = .leader)
      (hnext : t.nextTick i ≤ since + T.ttl + 2 * T.interval + T.latency)
  | vacant (hnone : ∀ i, (t.inst i).state ≠ .leader)
      (hexpires : t.cluster.bucket.live ≠ none → t.expires ≤ since + T.ttl)
      (hnext : t.nextTick k ≤ since + T.ttl + T.interval)

theorem Inv.progress (h : t.Inv T) {k : Fin n} (hk : (t.inst k).started = true) :
    t.Progress T t.clock k := by
  by_cases hleader : ∃ i, (t.inst i).state = .leader
  · obtain ⟨i, hi⟩ := hleader
    have harmed := (h.member i).armed ((h.member i).running.leader hi)
    exact .won i hi (by omega)
  · have harmed := (h.member k).armed hk
    exact .vacant (fun i hi => hleader ⟨i, hi⟩) h.recent (by omega)

theorem Progress.tick {since : Nat} {k : Fin n} (hp : t.Progress T since k) (h : t.Inv T)
    (hk : (t.inst k).started = true) {j : Fin n} (hstep : t.step T (.tick j) = some t') :
    t'.Progress T since k := by
  have htick := ticked hstep
  cases hp with
  | announced i hleader => exact .announced i (h.leads hstep hleader (by simp))
  | won i hstate hnext =>
    by_cases hij : i = j
    · subst hij
      exact .announced i (h.announces hstate hstep)
    · apply Progress.won i
      · rw [htick.others.inst hij]
        exact hstate
      · rw [(htick.others.2 i hij).2]
        exact hnext
  | vacant hnone hexpires hnext =>
    have hdue := htick.due
    have hnext' := htick.nextTick
    cases htick.served with
    | renewed hstate => exact absurd hstate (hnone j)
    | won hstate hlive hok hbucket hstate' =>
      have hinTime := (h.member k).inTime hk
      exact .won j hstate' (by omega)
    | lost hstate => exact absurd hstate (hnone j)
    | waited hstate hlive hok hbucket hstate' =>
      have hunexpired := h.unexpired hlive
      have hbefore := hexpires hlive
      apply Progress.vacant
      · intro i
        by_cases hij : i = j
        · simp [hij, hstate']
        · rw [htick.others.inst hij]
          exact hnone i
      · intro _
        simpa [htick.expires, expiresAfter, hok] using hbefore
      · by_cases hkj : k = j
        · subst hkj
          omega
        · rw [(htick.others.2 k hkj).2]
          exact hnext
    | unknown hstate =>
      have hj := h.member j
      exact absurd hstate (hj.campaigning (hj.started htick.step))

theorem Progress.wait {since : Nat} {k : Fin n} (hp : t.Progress T since k) (d : Nat) :
    Progress T since k { t with
      clock := t.clock + d
      cluster := { t.cluster with bucket := t.bucketAt (t.clock + d) } } := by
  cases hp with
  | announced i hleader => exact .announced i hleader
  | won i hstate hnext => exact .won i hstate hnext
  | vacant hnone hexpires hnext =>
    refine .vacant hnone ?_ hnext
    intro hlive
    apply hexpires
    intro hnone
    apply hlive
    unfold bucketAt
    split_ifs
    · rfl
    · exact hnone

end Timed

def TimedAction.quiet {n : Nat} : TimedAction n → Bool
  | .wait _ => true
  | .tick _ => true
  | _ => false

namespace Timed

variable {n : Nat} {T : Timing} {t t' : Timed n}

theorem Progress.step {since : Nat} {k : Fin n} {a : TimedAction n}
    (h : t.Inv T ∧ (t.inst k).started = true ∧ t.Progress T since k) (ha : a.quiet = true)
    (hstep : t.step T a = some t') :
    t'.Inv T ∧ (t'.inst k).started = true ∧ t'.Progress T since k := by
  obtain ⟨hinv, hk, hp⟩ := h
  have hinv' := hinv.step hstep
  cases a with
  | wait d =>
    simp only [Timed.step] at hstep
    split_ifs at hstep
    cases hstep
    exact ⟨hinv', hk, hp.wait d⟩
  | tick j =>
    have htick := ticked hstep
    refine ⟨hinv', ?_, hp.tick hinv hk hstep⟩
    by_cases hkj : k = j
    · subst hkj
      exact htick.started.trans hk
    · rw [htick.others.inst hkj]
      exact hk
  | start i parentDone splay => cases ha
  | cancel i => cases ha
  | shutdown i => cases ha
  | abort i reached => cases ha

theorem Inv.progress_run (h : t.Inv T) {k : Fin n} (hk : (t.inst k).started = true)
    {actions : List (TimedAction n)} (hquiet : ∀ a ∈ actions, a.quiet = true)
    (hrun : t.run T actions = some t') :
    t'.Inv T ∧ (t'.inst k).started = true ∧ t'.Progress T t.clock k :=
  Interaction.run_induction_of Progress.step actions hquiet ⟨h, hk, h.progress hk⟩ hrun

/-- When the time for an election is over, it has a winner that is announced. -/
theorem Progress.done {since : Nat} {k : Fin n} (hp : t.Progress T since k) (h : t.Inv T)
    (hk : (t.inst k).started = true)
    (helapsed : since + T.ttl + 2 * (T.interval + T.latency) < t.clock) :
    ∃ i, (t.inst i).isLeader = true := by
  cases hp with
  | announced i hleader => exact ⟨i, hleader⟩
  | won i hstate hnext =>
    have hinTime := (h.member i).inTime ((h.member i).running.leader hstate)
    omega
  | vacant hnone hexpires hnext =>
    have hinTime := (h.member k).inTime hk
    omega

/-- No instance that runs has seen the end of its context. -/
def Active (t : Timed n) : Prop :=
  ∀ i, (t.inst i).started = true → (t.inst i).ctxDone ≠ some true

/-- The instances of `t'` went on campaigning at the same time, none of them fell back. -/
structure Campaigned (T : Timing) (t t' : Timed n) : Prop where
  inv : t'.Inv T
  active : t'.Active
  clock : t'.clock = t.clock
  started : ∀ i, (t'.inst i).started = (t.inst i).started
  nextTick : ∀ i, t.nextTick i ≤ t'.nextTick i

theorem Ticked.campaigned {i : Fin n} (htick : t.Ticked T i t') (hinv : t'.Inv T)
    (ht : t.Active) : t.Campaigned T t' := by
  have hstarted : ∀ k, (t'.inst k).started = (t.inst k).started := by
    intro k
    by_cases hk : k = i
    · exact hk ▸ htick.started
    · rw [htick.others.inst hk]
  constructor
  · exact hinv
  · intro k hk
    rw [hstarted k] at hk
    by_cases hki : k = i
    · rw [hki, htick.inst, Instance.tryOnce_ctxDone]
      exact htick.ctx
    · rw [htick.others.inst hki]
      exact ht k hk
  · exact htick.others.1
  · exact hstarted
  · intro k
    by_cases hk : k = i
    · rw [hk, htick.nextTick]
      exact Nat.le_add_right _ _
    · exact (htick.others.2 k hk).2.ge

theorem Inv.can_tick (h : t.Inv T) (ht : t.Active) {i : Fin n}
    (hstarted : (t.inst i).started = true) (hdue : t.nextTick i ≤ t.clock) :
    ∃ t', t.step T (.tick i) = some t' := by
  have hphase : (t.cluster.members i).phase ≠ .idle := (h.member i).running.started.mp hstarted
  simp only [Timed.step, if_pos (And.intro (ht i hstarted) hdue), Cluster.tick, Life.step,
    if_neg hphase, Option.map_some]
  exact ⟨_, rfl⟩

theorem Campaigned.trans {t'' : Timed n} (h : t.Campaigned T t') (h' : t'.Campaigned T t'') :
    t.Campaigned T t'' where
  inv := h'.inv
  active := h'.active
  clock := h'.clock.trans h.clock
  started i := (h'.started i).trans (h.started i)
  nextTick i := (h.nextTick i).trans (h'.nextTick i)

theorem run_append {actions : List (TimedAction n)} (hrun : t.run T actions = some t')
    (more : List (TimedAction n)) : t.run T (actions ++ more) = t'.run T more :=
  Interaction.run_append hrun more

theorem Inv.catch_up (h : t.Inv T) (ht : t.Active) (waiting : List (Fin n)) :
    ∃ actions t', (∀ a ∈ actions, a.quiet = true) ∧ t.run T actions = some t' ∧
      t.Campaigned T t' ∧ ∀ i ∈ waiting, (t.inst i).started = true →
        t.clock < t'.nextTick i + T.latency := by
  induction waiting with
  | nil => exact ⟨[], t, by simp, rfl, ⟨h, ht, rfl, fun _ => rfl, fun _ => le_rfl⟩, by simp⟩
  | cons i waiting ih =>
    obtain ⟨actions, t', hquiet, hrun, hc, hdone⟩ := ih
    by_cases hlate : (t.inst i).started = true ∧ t'.nextTick i + T.latency ≤ t.clock
    · obtain ⟨hstarted, hlate⟩ := hlate
      have hclock := hc.clock
      have hi := (hc.inv.member i).inTime ((hc.started i).trans hstarted)
      obtain ⟨t'', hstep⟩ :=
        hc.inv.can_tick hc.active ((hc.started i).trans hstarted) (by omega)
      have htick := ticked hstep
      have hc' := htick.campaigned (hc.inv.step hstep) hc.active
      refine ⟨actions ++ [.tick i], t'', ?_, ?_, hc.trans hc', ?_⟩
      · exact List.forall_mem_append.mpr ⟨hquiet, by simp [TimedAction.quiet]⟩
      · rw [run_append hrun, Timed.run, Interaction.run_cons hstep]
        rfl
      · intro k hk hkstarted
        by_cases hki : k = i
        · have hnext := htick.nextTick
          have hpos := (newElection_ok T.accepted).2
          subst hki
          unfold second at hpos
          omega
        · have hmem : k ∈ waiting := (List.mem_cons.mp hk).resolve_left hki
          exact (hdone k hmem hkstarted).trans_le (Nat.add_le_add_right (hc'.nextTick k) _)
    · refine ⟨actions, t', hquiet, hrun, hc, ?_⟩
      intro k hk hkstarted
      rcases List.mem_cons.mp hk with hki | hmem
      · subst hki
        have hnot : ¬ t'.nextTick k + T.latency ≤ t.clock := fun hle => hlate ⟨hkstarted, hle⟩
        omega
      · exact hdone k hmem hkstarted

theorem Inv.pass_one (h : t.Inv T) (ht : t.Active) :
    ∃ actions t', (∀ a ∈ actions, a.quiet = true) ∧ t.run T actions = some t' ∧ t'.Active ∧
      t'.clock = t.clock + 1 := by
  obtain ⟨actions, t', hquiet, hrun, hc, hdone⟩ := h.catch_up ht (List.finRange n)
  have hpatient : t'.patient T 1 = true := by
    simp only [patient, decide_eq_true_eq]
    intro i hi
    rw [hc.clock]
    exact hdone i (List.mem_finRange i) ((hc.started i).symm.trans hi)
  obtain ⟨t'', hstep, hactive, hclock⟩ : ∃ t'', t'.step T (.wait 1) = some t'' ∧ t''.Active ∧
      t''.clock = t'.clock + 1 := ⟨_, if_pos hpatient, hc.active, rfl⟩
  refine ⟨actions ++ [.wait 1], t'', ?_, ?_, hactive, ?_⟩
  · exact List.forall_mem_append.mpr ⟨hquiet, by simp [TimedAction.quiet]⟩
  · rw [run_append hrun, Timed.run, Interaction.run_cons hstep]
    rfl
  · rw [hclock, hc.clock]

theorem Inv.pass (h : t.Inv T) (ht : t.Active) (d : Nat) :
    ∃ actions t', (∀ a ∈ actions, a.quiet = true) ∧ t.run T actions = some t' ∧ t'.Active ∧
      t'.clock = t.clock + d := by
  induction d with
  | zero => exact ⟨[], t, by simp, rfl, ht, rfl⟩
  | succ d ih =>
    obtain ⟨actions, t', hquiet, hrun, ht', hclock⟩ := ih
    obtain ⟨more, t'', hmore, hrun', ht'', hclock'⟩ := (h.run hrun).pass_one ht'
    refine ⟨actions ++ more, t'', List.forall_mem_append.mpr ⟨hquiet, hmore⟩, ?_, ht'', by omega⟩
    rw [run_append hrun, hrun']

end Timed

/-- From any reachable state on in which an instance is started, when nobody is started or
stopped for the TTL and two campaigns, there is exactly one leader. -/
theorem timely_cluster_elects_leader (T : Timing) (n : Nat) (opts : Fin n → Options)
    (before actions : List (TimedAction n)) (t t' : Timed n) (k : Fin n)
    (hbefore : (Timed.new opts).run T before = some t) (hstarted : (t.inst k).started = true)
    (hrun : t.run T actions = some t') (hquiet : ∀ a ∈ actions, a.quiet = true)
    (helapsed : t.clock + T.ttl + 2 * (T.interval + T.latency) < t'.clock) :
    ∃ i, (t'.inst i).isLeader = true ∧ ∀ j, (t'.inst j).isLeader = true → j = i := by
  have hinv := (Timed.inv_new T opts).run hbefore
  obtain ⟨hinv', hk, hp⟩ := hinv.progress_run hstarted hquiet hrun
  obtain ⟨i, hi⟩ := hp.done hinv' hk helapsed
  exact ⟨i, hi, fun j hj => hinv'.unique hj hi⟩

/-- Half a minute is enough. -/
theorem timely_cluster_elects_one_of_two : ∃ t t',
    (Timed.new fun _ : Fin 2 => {}).run defaultTiming (twoStarts 0 1) = some t ∧
      t.run defaultTiming (campaigns 0 1 ++ campaigns 0 1 ++ campaigns 0 1 ++ campaigns 0 1)
        = some t' ∧
      ∃ i, (t'.inst i).isLeader = true ∧ ∀ j, (t'.inst j).isLeader = true → j = i := by
  have hrun : ((Timed.new fun _ : Fin 2 => {}).run defaultTiming (twoStarts 0 1)).any (fun t =>
      (t.inst 0).started && (t.run defaultTiming
        (campaigns 0 1 ++ campaigns 0 1 ++ campaigns 0 1 ++ campaigns 0 1)).any (fun t' =>
          decide (t.clock + defaultTiming.ttl
            + 2 * (defaultTiming.interval + defaultTiming.latency) < t'.clock))) = true := by
    decide +kernel
  obtain ⟨t, ht, hrest⟩ := (Option.any_eq_true _ _).mp hrun
  obtain ⟨hstarted, hrest⟩ := Bool.and_eq_true_iff.mp hrest
  obtain ⟨t', ht', helapsed⟩ := (Option.any_eq_true _ _).mp hrest
  exact ⟨t, t', ht, ht', timely_cluster_elects_leader defaultTiming 2 _ _ _ t t' 0 ht hstarted ht'
    (by decide) (of_decide_eq_true helapsed)⟩

/-- Campaigns never get stuck: from any reachable state on in which no instance that runs has to
shut down, they can go on with every try in time until there is exactly one leader. -/
theorem leader_can_be_elected_from_every_state (T : Timing) (n : Nat) (opts : Fin n → Options)
    (before : List (TimedAction n)) (t : Timed n) (k : Fin n)
    (hbefore : (Timed.new opts).run T before = some t) (hstarted : (t.inst k).started = true)
    (hactive : ∀ i, (t.inst i).started = true → (t.inst i).ctxDone ≠ some true) :
    ∃ actions t' i, (∀ a ∈ actions, a.quiet = true) ∧ t.run T actions = some t' ∧
      t'.clock = t.clock + (T.ttl + 2 * (T.interval + T.latency) + 1) ∧
      (t'.inst i).isLeader = true ∧ ∀ j, (t'.inst j).isLeader = true → j = i := by
  have hinv := (Timed.inv_new T opts).run hbefore
  obtain ⟨actions, t', hquiet, hrun, -, hclock⟩ :=
    hinv.pass hactive (T.ttl + 2 * (T.interval + T.latency) + 1)
  obtain ⟨hinv', hk, hp⟩ := hinv.progress_run hstarted hquiet hrun
  obtain ⟨i, hi⟩ := hp.done hinv' hk (by omega)
  exact ⟨actions, t', i, hquiet, hrun, hclock, hi, fun j hj => hinv'.unique hj hi⟩

/-- The first leader has left without removing its key. -/
theorem leader_can_be_elected_after_shutdown : ∃ t,
    (Timed.new fun _ : Fin 2 => {}).run defaultTiming
        (twoStarts 0 1 ++ campaigns 0 1 ++ [.tick 0, .cancel 0, .shutdown 0]) = some t ∧
      t.cluster.bucket.live ≠ none ∧
      ∃ actions t' i, (∀ a ∈ actions, a.quiet = true) ∧ t.run defaultTiming actions = some t' ∧
        (t'.inst i).isLeader = true := by
  have hrun : ((Timed.new fun _ : Fin 2 => {}).run defaultTiming
      (twoStarts 0 1 ++ campaigns 0 1 ++ [.tick 0, .cancel 0, .shutdown 0])).any (fun t =>
        decide (t.cluster.bucket.live ≠ none) && (t.inst 1).started &&
          decide (∀ i, (t.inst i).started = true → (t.inst i).ctxDone ≠ some true)) = true := by
    decide +kernel
  obtain ⟨t, ht, hrest⟩ := (Option.any_eq_true _ _).mp hrun
  obtain ⟨hrest, hactive⟩ := Bool.and_eq_true_iff.mp hrest
  obtain ⟨hlive, hstarted⟩ := Bool.and_eq_true_iff.mp hrest
  obtain ⟨actions, t', i, hquiet, hrun', -, hi, -⟩ :=
    leader_can_be_elected_from_every_state defaultTiming 2 _ _ t 1 ht hstarted
      (of_decide_eq_true hactive)
  exact ⟨t, ht, of_decide_eq_true hlive, actions, t', i, hquiet, hrun', hi⟩

end AsyncJobs.Election
