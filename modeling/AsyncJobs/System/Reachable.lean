import AsyncJobs.System.ProcessorSpec
import AsyncJobs.System.Steps
import Mathlib.Data.List.Nodup

/-!
# Every run leaves a valid log

Each entry point meets its specification when it starts, so a pool of threads
started only that way stays safe, whatever the schedule: requests may fail or
lose their answers, threads may stop, and records may disappear in between.
-/

namespace AsyncJobs

open Interaction

/-- What a thread is told about its copy when it starts. -/
def Role.Ready (role : Role) (n : Nat) (w : World) : Prop :=
  match role with
  | .handler _ t _ => ∃ seq, Processor.Running ⟨n, role⟩ t seq w
  | .enqueue _ t | .enqueueInto _ t =>
    (∃ k, Event.submitted k n t ∈ w.log) ∧ t.Tracks (known n w.log)
  | _ => True

section Roles

variable {n : Nat} {w : World}

theorem done_holds {tag : Tag} {t : Option Copy} (err : Option Error)
    (ht : ∀ c, t = some c → c.Tracks (known tag.holder w.log)) :
    Holds (contextOf tag) (fun _ _ => True) (request (.done t err)) w := by
  refine request_holds fun v hv _ => ⟨?_, fun _ _ _ _ _ _ _ => trivial⟩
  cases t with
  | none => trivial
  | some c =>
    show c.Tracks (known tag.holder v.log)
    rw [rely_known hv]
    exact ht c rfl

theorem submit_holds {tag : Tag} {t task : Copy} {k : Nat} (queue : Queue) (signature : String)
    (hw : tag.role.writer = .enqueuer) (hgiven : Event.submitted k tag.holder t ∈ w.log)
    (ht : t.Tracks (known tag.holder w.log))
    (hrevision : task.storageOptions = t.storageOptions)
    (htask : { task.toTask with queue := queue.name } =
      { t.toTask with queue := queue.name, signature := signature }) :
    Holds (contextOf tag) (fun r v => r.2.Tracks (known tag.holder v.log))
      (Storage.enqueueTask queue task) w := by
  have hid : task.id = t.id := by simpa using congrArg Task.id htask
  have hstate : task.state = t.state := by simpa using congrArg Task.state htask
  refine Storage.enqueueTask_holds queue ?_ ⟨hrevision.trans ht.revision, ?_, hid ▸ ht.named⟩ ?_
  · intro log base t' hchange
    rw [hw]
    exact .queueError hchange
  · intro m hm
    rw [hid]
    exact ht.sameID m hm
  · intro henq
    rw [hw, htask]
    refine EnqueueChange.submit hgiven ?_ queue.name signature
    unfold Task.enqueueable at henq ⊢
    rwa [hstate] at henq

theorem enqueue_holds {tag : Tag} {t : Copy} {k : Nat} (c : Client)
    (hw : tag.role.writer = .enqueuer) (hgiven : Event.submitted k tag.holder t ∈ w.log)
    (ht : t.Tracks (known tag.holder w.log)) :
    Holds (contextOf tag) (fun r v => r.2.Tracks (known tag.holder v.log)) (c.enqueueTask t) w := by
  unfold Client.enqueueTask
  simp only
  split
  · intro v hv _
    rw [rely_known hv]
    exact ⟨ht.revision, ht.sameID, ht.named⟩
  · exact raise_holds _ w
  · rename_i signed hsigned
    obtain ⟨signature, rfl⟩ := Client.signTask_record hsigned
    exact submit_holds c.opts.queue signature hw hgiven ht rfl rfl

theorem prog_holds {role : Role} (h : role.Ready n w) :
    Holds (contextOf ⟨n, role⟩) (fun _ _ => True) role.prog w := by
  cases role with
  | worker p item => exact p.processItem_holds rfl item w
  | handler p t item =>
    obtain ⟨seq, hrunning⟩ := h
    exact p.handle_holds hrunning item
  | enqueue c t =>
    obtain ⟨⟨k, hgiven⟩, ht⟩ := h
    refine Holds.seq (enqueue_holds c rfl hgiven ht) ?_
    rintro ⟨err, task⟩ v _ _ htask
    refine done_holds err ?_
    rintro _ ⟨⟩
    exact htask
  | enqueueInto queue t =>
    obtain ⟨⟨k, hgiven⟩, ht⟩ := h
    refine Holds.seq (submit_holds queue t.signature rfl hgiven ht rfl rfl) ?_
    rintro ⟨err, task⟩ v _ _ htask
    refine done_holds err ?_
    rintro _ ⟨⟩
    exact htask
  | retry c id =>
    refine Holds.seq (Storage.retryTaskByID_holds rfl c.opts.queue id w) fun err v _ _ _ => ?_
    exact done_holds err (by rintro _ ⟨⟩)
  | load c id =>
    refine Holds.seq (c.loadTaskByID_holds .task id w) ?_
    rintro (err | task) v _ _ ⟨hfound, -⟩
    · exact done_holds _ (by rintro _ ⟨⟩)
    · obtain ⟨m, loadedAt, rfl, hm⟩ := hfound task rfl
      refine done_holds none ?_
      rintro _ ⟨⟩
      rw [hm.knows rfl]
      exact (Copy.Carries.of_load hm.proper).tracks
  | delete id =>
    refine Holds.seq (Storage.deleteTaskByID_holds id w) fun err v _ _ _ => ?_
    exact done_holds err (by rintro _ ⟨⟩)

end Roles

namespace Config

/-- The world agrees with its log, every thread is safe in it, and the copies
their callers own belong to no thread and carry what they know. -/
structure Inv (cfg : Config) : Prop where
  world : cfg.world.Inv
  holders : (cfg.threads.map (·.tag.holder)).Nodup
  fresh : ∀ th ∈ cfg.threads, th.tag.holder < cfg.world.nextCopy
  unowned : ∀ th ∈ cfg.threads, cfg.world.copies th.tag.holder = none
  owned : ∀ k t, cfg.world.copies k = some t →
    k < cfg.world.nextCopy ∧ t.Tracks (known k cfg.world.log)
  safe : Safe contextOf cfg.world cfg.threads

theorem Inv.init (start : Int) : (Config.init start).Inv where
  world := World.Inv.init start
  holders := List.nodup_nil
  fresh := by
    intro th h
    cases h
  unowned := by
    intro th h
    cases h
  owned := by
    rintro k t ⟨⟩
  safe := Safe.nil

variable {cfg cfg' : Config} {w' : World}

/-- Events about no copy or a fresh one are interference for every thread. -/
theorem Inv.environment_rely (h : cfg.Inv) {es : List Event}
    (hext : World.Extends cfg.world w' es)
    (hsubject : ∀ e ∈ es, e.subject = none ∨ e.subject = some cfg.world.nextCopy) :
    ∀ th ∈ cfg.threads, (contextOf th.tag).rely cfg.world w' := by
  intro th hth
  refine ⟨es, hext, fun e he heq => ?_⟩
  have hlt := h.fresh th hth
  rcases hsubject e he with hs | hs
  · rw [hs] at heq
    cases heq
  · rw [hs] at heq
    injection heq with heq
    omega

/-- A change made by no thread: every thread and every caller sees only events about
copies that are not theirs. -/
theorem Inv.environment (h : cfg.Inv) (es : List Event) (hw : w'.Inv)
    (hext : World.Extends cfg.world w' es)
    (hsubject : ∀ e ∈ es, e.subject = none ∨ e.subject = some cfg.world.nextCopy)
    (hnext : cfg.world.nextCopy ≤ w'.nextCopy)
    (hunowned : ∀ th ∈ cfg.threads, w'.copies th.tag.holder = none)
    (howned : ∀ k t, w'.copies k = some t → k < w'.nextCopy ∧ t.Tracks (known k w'.log)) :
    Inv ⟨w', cfg.threads⟩ where
  world := hw
  holders := h.holders
  fresh th hth := Nat.lt_of_lt_of_le (h.fresh th hth) hnext
  unowned := hunowned
  owned := howned
  safe := h.safe.rely (h.environment_rely hext hsubject)

theorem Inv.start (h : cfg.Inv) {n : Nat} {role : Role} (hn : n < cfg.world.nextCopy)
    (hholder : ∀ th ∈ cfg.threads, th.tag.holder ≠ n) (hcopy : cfg.world.copies n = none)
    (hready : role.Ready n cfg.world) :
    Inv ⟨cfg.world, cfg.threads ++ [⟨⟨n, role⟩, role.prog⟩]⟩ where
  world := h.world
  holders := by
    rw [List.map_append, List.nodup_append]
    refine ⟨h.holders, List.nodup_singleton n, ?_⟩
    intro a ha b hb
    obtain ⟨th, hth, rfl⟩ := List.mem_map.mp ha
    rw [List.mem_singleton.mp hb]
    exact hholder th hth
  fresh th hth := by
    rcases List.mem_append.mp hth with hth | hth
    · exact h.fresh th hth
    · rw [List.mem_singleton.mp hth]
      exact hn
  unowned th hth := by
    rcases List.mem_append.mp hth with hth | hth
    · exact h.unowned th hth
    · rw [List.mem_singleton.mp hth]
      exact hcopy
  owned := h.owned
  safe := by
    refine h.safe.append fun th hth => ?_
    rw [List.mem_singleton.mp hth]
    exact prog_holds hready

theorem Inv.next_unused (h : cfg.Inv) : (∀ th ∈ cfg.threads, th.tag.holder ≠ cfg.world.nextCopy) ∧
    cfg.world.copies cfg.world.nextCopy = none := by
  constructor
  · intro th hth
    exact Nat.ne_of_lt (h.fresh th hth)
  · cases hcopy : cfg.world.copies cfg.world.nextCopy with
    | none => rfl
    | some t => exact absurd (h.owned _ t hcopy).1 (Nat.lt_irrefl _)

/-- `spawn` after a change of the work queue only. -/
theorem Inv.spawn (h : cfg.Inv) {items : List WorkItem} {deliveries : List Delivery} {role : Role}
    (hready : ∀ w, role.Ready cfg.world.nextCopy w) :
    (cfg.spawn { cfg.world with items := items, deliveries := deliveries } role).Inv := by
  have henv : Inv ⟨{ cfg.world with
      items := items, deliveries := deliveries, nextCopy := cfg.world.nextCopy + 1 },
      cfg.threads⟩ := by
    refine h.environment [] (h.world.same rfl rfl rfl (Nat.le_succ _)) ⟨rfl, Int.le_refl _⟩
      (by simp) (Nat.le_succ _) h.unowned ?_
    intro k t hk
    obtain ⟨hlt, htracks⟩ := h.owned k t hk
    exact ⟨Nat.lt_succ_of_lt hlt, htracks⟩
  obtain ⟨hholder, hcopy⟩ := h.next_unused
  exact henv.start (Nat.lt_succ_self _) hholder hcopy (hready _)

theorem Inv.submit (h : cfg.Inv) {copy : Nat} {t : Copy} {role : Role}
    (hcopy : cfg.world.copies copy = some t)
    (hready : ∀ w, (∃ k, Event.submitted k cfg.world.nextCopy t ∈ w.log) →
      t.Tracks (known cfg.world.nextCopy w.log) → role.Ready cfg.world.nextCopy w) :
    (cfg.spawn (cfg.handOver copy t) role).Inv := by
  obtain ⟨hlt, htracks⟩ := h.owned copy t hcopy
  obtain ⟨hholder, hnext⟩ := h.next_unused
  have hgone : ∀ k, Function.update cfg.world.copies copy none k ≠ none →
      cfg.world.copies k ≠ none := by
    intro k hk
    by_cases hkc : k = copy
    · rw [hkc, Function.update_self] at hk
      exact absurd rfl hk
    · rwa [Function.update_of_ne hkc] at hk
  have henv : Inv ⟨{ cfg.handOver copy t with nextCopy := cfg.world.nextCopy + 1 },
      cfg.threads⟩ := by
    refine h.environment [.submitted copy cfg.world.nextCopy t] ?_ ⟨rfl, Int.le_refl _⟩
      (by simp [Event.subject]) (Nat.le_succ _) ?_ ?_
    · refine h.world.extend rfl rfl rfl (Nat.le_succ _) rfl htracks ?_
      rintro k ⟨⟩
      exact Nat.lt_succ_self _
    · intro th hth
      by_contra hsome
      exact hgone _ hsome (h.unowned th hth)
    · intro k t' hk
      have hk' : cfg.world.copies k = some t' := by
        by_cases hkc : k = copy
        · simp [handOver, hkc] at hk
        · simpa [handOver, Function.update_of_ne hkc] using hk
      obtain ⟨hklt, hktracks⟩ := h.owned k t' hk'
      refine ⟨Nat.lt_succ_of_lt hklt, ?_⟩
      have hne : cfg.world.nextCopy ≠ k := Nat.ne_of_gt hklt
      simpa [handOver, known, hne] using hktracks
  refine henv.start (Nat.lt_succ_self _) hholder ?_ ?_
  · by_contra hsome
    exact hgone _ hsome hnext
  · refine hready _ ⟨copy, List.mem_cons_self ..⟩ ?_
    simpa [handOver, known] using htracks

/-- What an action does to the log: a request has its effect, a submission hands
a copy over, an evicted record is dropped, and nothing else is recorded. -/
theorem step_logged {a : Action} (h : cfg.step a = some cfg') :
    (∃ i o tag c, a = .run i o ∧ cfg.nextCall i = some (tag, c) ∧
      Effect tag.holder tag.role.writer cfg.world c cfg'.world) ∨
    cfg'.world.log = cfg.world.log ∨
    (∃ k t, cfg.world.copies k = some t ∧ ((∃ c, a = .enqueue c k) ∨ ∃ q, a = .enqueueInto q k) ∧
      cfg'.world.log = .submitted k cfg.world.nextCopy t :: cfg.world.log) ∨
    ∃ m, cfg'.world.log = .dropped m :: cfg.world.log := by
  cases step_sound h with
  | request hget hexec =>
    refine Or.inl ⟨_, _, _, _, rfl, ?_, World.exec_effect hexec⟩
    simp only [nextCall, hget]
  | enqueue c owned => exact Or.inr (Or.inr (Or.inl ⟨_, _, owned, Or.inl ⟨c, rfl⟩, rfl⟩))
  | enqueueInto q owned => exact Or.inr (Or.inr (Or.inl ⟨_, _, owned, Or.inr ⟨q, rfl⟩, rfl⟩))
  | @dropTask _ m found => exact Or.inr (Or.inr (Or.inr ⟨m, rfl⟩))
  | _ => exact Or.inr (Or.inl rfl)

theorem effect_copies {n : Nat} {writer : Writer} {w w' : World} {c : Call}
    (he : Effect n writer w c w') : w'.copies = w.copies ∨
      ∃ t err, c = .done (some t) err ∧ w' = w.finish n (some t) err := by
  cases he with
  | done t err =>
    cases t with
    | none => exact Or.inl rfl
    | some t => exact Or.inr ⟨t, err, rfl, rfl⟩
  | _ => exact Or.inl rfl

theorem holder_ne (h : cfg.Inv) {i j : Nat} {a b : Thread jobs Tag}
    (hi : cfg.threads[i]? = some a) (hj : cfg.threads[j]? = some b) (hne : j ≠ i) :
    b.tag.holder ≠ a.tag.holder := by
  intro heq
  have hlen : j < (cfg.threads.map (·.tag.holder)).length := by
    rw [List.length_map]
    exact (List.getElem?_eq_some_iff.mp hj).1
  refine hne ((List.getElem?_inj hlen h.holders).mp ?_)
  rw [List.getElem?_map, List.getElem?_map, hi, hj, Option.map_some, Option.map_some, heq]

theorem subject_ne {n k next : Nat} {e : Event}
    (hs : e.subject = none ∨ e.subject = some n ∨ e.subject = some next) (hkn : k ≠ n)
    (hk : k < next) : e.subject ≠ some k := by
  intro heq
  rw [heq] at hs
  simp only [Option.some.injEq, reduceCtorEq, false_or] at hs
  omega

section Replace

variable {threads : List (Thread jobs Tag)} {i : Nat} {tag : Tag} {prog prog' : Job Unit}

theorem mem_set_tag (hget : threads[i]? = some ⟨tag, prog⟩) {other : Thread jobs Tag}
    (hmem : other ∈ threads.set i ⟨tag, prog'⟩) : ∃ before ∈ threads, before.tag = other.tag := by
  rcases List.mem_or_eq_of_mem_set hmem with hmem | rfl
  · exact ⟨other, hmem, rfl⟩
  · exact ⟨_, List.mem_of_getElem? hget, rfl⟩

theorem holders_set (hget : threads[i]? = some ⟨tag, prog⟩) :
    (threads.set i ⟨tag, prog'⟩).map (·.tag.holder) = threads.map (·.tag.holder) := by
  obtain ⟨hlt, hth⟩ := List.getElem?_eq_some_iff.mp hget
  have hlt' : i < (threads.map (·.tag.holder)).length := by simpa using hlt
  have hself : tag.holder = (threads.map (·.tag.holder))[i] := by
    rw [List.getElem_map, hth]
  rw [List.map_set, hself, List.set_getElem_self]

end Replace

theorem Inv.request_rely (h : cfg.Inv) {i : Nat} {tag : Tag} {c : Call}
    {k : c.Reply → Job Unit} (hget : cfg.threads[i]? = some ⟨tag, .call c k⟩)
    (heffect : Effect tag.holder tag.role.writer cfg.world c w') :
    ∀ j th, cfg.threads[j]? = some th → j ≠ i → (contextOf th.tag).rely cfg.world w' := by
  intro j th hj hji
  obtain ⟨es, hext, -, hsubject⟩ := World.effect_extends heffect
  refine ⟨es, hext, fun e he => ?_⟩
  exact subject_ne (hsubject e he) (holder_ne h hget hj hji)
    (h.fresh th (List.mem_of_getElem? hj))

/-- A request of one thread keeps the configuration sound, before any handler it starts. -/
theorem Inv.request (h : cfg.Inv) {i : Nat} {tag : Tag} {c : Call}
    {k : c.Reply → Job Unit} {o : Outcome} {r : c.Reply}
    (hget : cfg.threads[i]? = some ⟨tag, .call c k⟩)
    (hexec : cfg.world.exec tag.holder tag.role.writer c o = some (r, w')) :
    Inv ⟨w', cfg.threads.set i ⟨tag, k r⟩⟩ := by
  have hmem := List.mem_of_getElem? hget
  have hn : tag.holder < cfg.world.nextCopy := h.fresh _ hmem
  have hpermit := (h.safe.next hmem h.world).1
  have heffect := World.exec_effect hexec
  obtain ⟨es, hext, hnext, hsubject⟩ := World.effect_extends heffect
  have hrely := h.request_rely hget heffect
  have howned : ∀ j t, cfg.world.copies j = some t → t.Tracks (known j w'.log) := by
    intro j t hj
    obtain ⟨hlt, htracks⟩ := h.owned j t hj
    rw [hext.log, known_append]
    · exact htracks
    · intro e he
      refine subject_ne (hsubject e he) ?_ hlt
      rintro rfl
      rw [h.unowned _ hmem] at hj
      cases hj
  refine ⟨h.world.effect hn hpermit heffect, ?_, ?_, ?_, ?_,
    h.safe.step hget h.world ⟨o, hexec⟩ hrely⟩
  · exact (holders_set hget).symm ▸ h.holders
  · intro th hth
    obtain ⟨th', hth', heq⟩ := mem_set_tag hget hth
    rw [← heq]
    exact Nat.lt_of_lt_of_le (h.fresh th' hth') hnext
  · intro th hth
    obtain ⟨th', hth', heq⟩ := mem_set_tag hget hth
    rw [← heq]
    rcases effect_copies heffect with hcopies | ⟨t, err, -, rfl⟩
    · rw [hcopies]
      exact h.unowned th' hth'
    · show Function.update cfg.world.copies _ _ _ = none
      rw [Function.update_of_ne (Nat.ne_of_lt (h.fresh th' hth'))]
      exact h.unowned th' hth'
  · intro j t hj
    rcases effect_copies heffect with hcopies | ⟨t', err, rfl, rfl⟩
    · rw [hcopies] at hj
      exact ⟨Nat.lt_of_lt_of_le (h.owned j t hj).1 hnext, howned j t hj⟩
    · rcases World.finish_copies_cases _ hj with ⟨rfl, rfl⟩ | hj
      · refine ⟨Nat.lt_succ_self _, ?_⟩
        have ht : t'.Tracks (known tag.holder cfg.world.log) := hpermit
        simpa [World.finish, known] using ht
      · exact ⟨Nat.lt_of_lt_of_le (h.owned j t hj).1 hnext, howned j t hj⟩

theorem Inv.run_step (h : cfg.Inv) {i : Nat} {tag : Tag} {c : Call} {k : c.Reply → Job Unit}
    {o : Outcome} {r : c.Reply} (hget : cfg.threads[i]? = some ⟨tag, .call c k⟩)
    (hexec : cfg.world.exec tag.holder tag.role.writer c o = some (r, w')) :
    Inv ⟨w', cfg.threads.set i ⟨tag, k r⟩ ++ spawned tag cfg.world.nextCopy c⟩ := by
  have hnext := h.request hget hexec
  have hpermit := (h.safe.next (List.mem_of_getElem? hget) h.world).1
  obtain ⟨hholder, hcopy⟩ := h.next_unused
  have hother : ∀ th ∈ cfg.threads.set i ⟨tag, k r⟩, th.tag.holder ≠ cfg.world.nextCopy := by
    intro th hth
    obtain ⟨th', hth', heq⟩ := mem_set_tag hget hth
    rw [← heq]
    exact hholder th' hth'
  have hquiet : spawned tag cfg.world.nextCopy c = [] →
      Inv ⟨w', cfg.threads.set i ⟨tag, k r⟩ ++ spawned tag cfg.world.nextCopy c⟩ := by
    intro hnone
    rw [hnone, List.append_nil]
    exact hnext
  cases c with
  | goHandle t item =>
    cases hrole : tag.role with
    | worker p given =>
      obtain ⟨old, seq, -, hknown, hseq, hactive⟩ := hpermit
      have hspawned : spawned tag cfg.world.nextCopy (.goHandle t item) =
          [⟨⟨cfg.world.nextCopy, .handler p t item⟩, p.handle t item⟩] := by
        simp only [spawned, hrole]
      rw [hspawned]
      cases o <;> cases hexec
      refine hnext.start (Nat.lt_succ_self _) hother hcopy ⟨seq, rfl, ?_, hseq, hactive, ?_⟩
      · simpa [World.beginHandler, known] using hknown
      · exact h.world.named _ (known_written h.world.valid hknown)
    | _ => exact hquiet (by simp only [spawned, hrole])
  | _ => exact hquiet rfl

/-- A change of the world that neither the log nor any thread or caller sees. -/
theorem Inv.unseen (h : cfg.Inv) (hlog : w'.log = cfg.world.log)
    (htasks : w'.tasks = cfg.world.tasks) (hseq : w'.lastSeq = cfg.world.lastSeq)
    (hclock : cfg.world.clock ≤ w'.clock) (hnext : w'.nextCopy = cfg.world.nextCopy)
    (hcopies : w'.copies = cfg.world.copies) : Inv ⟨w', cfg.threads⟩ := by
  have hle := Nat.le_of_eq hnext.symm
  refine h.environment [] (h.world.same hlog htasks hseq hle) ⟨hlog, hclock⟩
    (by simp) hle ?_ ?_
  · rw [hcopies]
    exact h.unowned
  · rw [hcopies, hlog, hnext]
    exact h.owned

/-- A caller takes a copy of its own, which agrees with what the log says about it. -/
theorem Inv.own (h : cfg.Inv) {k : Nat} {t : Copy} {next : Nat} (hk : k < next)
    (hnext : cfg.world.nextCopy ≤ next) (hholder : ∀ th ∈ cfg.threads, th.tag.holder ≠ k)
    (ht : t.Tracks (known k cfg.world.log)) :
    Inv ⟨{ cfg.world with
      nextCopy := next, copies := Function.update cfg.world.copies k (some t) },
      cfg.threads⟩ := by
  refine h.environment [] (h.world.same rfl rfl rfl hnext) ⟨rfl, Int.le_refl _⟩ (by simp)
    hnext ?_ ?_
  · intro th hth
    show Function.update cfg.world.copies k (some t) th.tag.holder = none
    rw [Function.update_of_ne (hholder th hth)]
    exact h.unowned th hth
  · intro j t' hj
    by_cases hjk : j = k
    · subst hjk
      simp only [Function.update_self, Option.some.injEq] at hj
      exact hj ▸ ⟨hk, ht⟩
    · simp only [Function.update_of_ne hjk] at hj
      exact ⟨Nat.lt_of_lt_of_le (h.owned j t' hj).1 hnext, (h.owned j t' hj).2⟩

theorem known_fresh (h : cfg.Inv) : known cfg.world.nextCopy cfg.world.log = none := by
  have hnone : ∀ e ∈ cfg.world.log, e.subject ≠ some cfg.world.nextCopy := by
    intro e he heq
    exact Nat.lt_irrefl _ (h.world.subjects e he _ heq)
  have happend : known cfg.world.nextCopy (cfg.world.log ++ []) = none := known_append hnone
  rwa [List.append_nil] at happend

theorem isValidName_proper {name : String} (h : isValidName name = true) :
    World.isWildcard name = false := by
  unfold World.isWildcard
  rw [decide_eq_false_iff_not]
  rintro (rfl | rfl)
  · revert h
    decide
  · revert h
    decide

theorem Inv.step (h : cfg.Inv) {a : Action} (hs : cfg.step a = some cfg') : cfg'.Inv := by
  cases step_sound hs with
  | request hget hexec => exact h.run_step hget hexec
  | @crash i tag prog hthread =>
    refine ⟨h.world, ?_, ?_, ?_, h.owned, h.safe.crash i tag⟩
    · exact (holders_set hthread).symm ▸ h.holders
    · intro th hth
      obtain ⟨th', hth', heq⟩ := mem_set_tag hthread hth
      exact heq ▸ h.fresh th' hth'
    · intro th hth
      obtain ⟨th', hth', heq⟩ := mem_set_tag hthread hth
      exact heq ▸ h.unowned th' hth'
  | deliver found queue due attempts => exact h.spawn fun _ => trivial
  | enqueue c owned => exact h.submit owned fun _ hgiven htracks => ⟨hgiven, htracks⟩
  | enqueueInto queue owned => exact h.submit owned fun _ hgiven htracks => ⟨hgiven, htracks⟩
  | retry c id => exact h.spawn fun _ => trivial
  | load c id => exact h.spawn fun _ => trivial
  | delete id => exact h.spawn fun _ => trivial
  | newTask valid =>
    refine h.own (Nat.lt_succ_self _) (Nat.le_succ _) h.next_unused.1 ?_
    rw [known_fresh h]
    exact ⟨rfl, by rintro m ⟨⟩, isValidName_proper valid⟩
  | @edit copy task t owned same =>
    obtain ⟨hlt, htracks⟩ := h.owned copy t owned
    refine h.own hlt (Nat.le_refl _) ?_ ⟨htracks.revision, ?_, same ▸ htracks.named⟩
    · rintro th hth rfl
      rw [h.unowned th hth] at owned
      cases owned
    · intro m hm
      exact (htracks.sameID m hm).trans same.symm
  | tick d =>
    exact h.unseen rfl rfl rfl (Int.le_add_of_nonneg_right (Int.natCast_nonneg d)) rfl rfl
  | @dropTask id m found =>
    have hmem := ((World.stored_eq_some_iff h.world.distinct).mp found).1
    exact h.environment [.dropped m] (h.world.dropTask hmem) ⟨rfl, Int.le_refl _⟩
      (by simp [Event.subject]) (Nat.le_refl _) h.unowned h.owned
  | dropItem queue id => exact h.unseen rfl rfl rfl (Int.le_refl _) rfl rfl
  | forgetMsgID queue msgID => exact h.unseen rfl rfl rfl (Int.le_refl _) rfl rfl

/-- Every configuration the system reaches is sound; in particular its log is valid. -/
theorem Inv.reached {meets : Config → Action → Bool} {start : Int} {actions : List Action}
    (hr : (Config.init start).runWhile meets actions = some cfg) : cfg.Inv :=
  runWhile_induction (fun h _ hs => h.step hs) actions (Inv.init start) hr

end Config

end AsyncJobs
