import AsyncJobs.System.Descent
import AsyncJobs.System.Provenance
import AsyncJobs.System.Revisions

/-!
# What every revision keeps

Eight operations write the record of a task, each on a copy it loaded or was given earlier.
Callers that make their tasks with `NewTask` and leave them alone store sound records only,
and no operation changes what the task was defined to be.
-/

namespace AsyncJobs

open Interaction

/-- One task in several hands: what its owner has, what was saved for it and what came back. -/
structure Task.SameOrder (g x : Task) : Prop where
  definition : x.definition = g.definition
  tries : x.tries = g.tries
  signature : x.signature = g.signature
  result : x.result = g.result

/-- The owner's task against the revision its copy knows. -/
structure Task.Follows (m t : Task) : Prop where
  definition : t.definition = m.definition
  tries : t.tries = m.tries
  signature : m.signature = "" ∨ t.signature = m.signature

theorem Task.SameOrder.follows {m g x : Task} (h : g.SameOrder x) (hg : m.Follows g) :
    m.Follows x where
  definition := h.definition.trans hg.definition
  tries := h.tries.trans hg.tries
  signature := by
    rw [h.signature]
    exact hg.signature

theorem Storage.Submission.sameOrder {queue : Queue} {g x : Task}
    (h : Storage.Submission queue g x) : g.SameOrder x := by
  rcases h with rfl | ⟨lastErr, rfl⟩
  · exact ⟨rfl, rfl, rfl, rfl⟩
  · exact ⟨rfl, rfl, rfl, rfl⟩

def Role.outgoing : Role → Option Task
  | .enqueue c t => some (c.prepared t.toTask)
  | .enqueueInto _ t => some t.toTask
  | _ => none

namespace Role

variable {role : Role} {g : Task} {t x : Copy}

theorem outgoing_saves (h : role.outgoing = some g) (hx : role.scope.saves x) :
    g.SameOrder x.toTask := by
  cases role with
  | enqueue c t =>
    cases h
    exact Storage.Submission.sameOrder hx.2
  | enqueueInto queue t =>
    cases h
    exact Storage.Submission.sameOrder hx
  | _ => cases h

theorem outgoing_returns (h : role.outgoing = some g) (hx : role.scope.returns (some x)) :
    g.SameOrder x.toTask := by
  cases role with
  | enqueue c t =>
    cases h
    obtain ⟨y, hy, hreturns⟩ := hx
    cases hy
    rcases hreturns with heq | hsub
    · rw [heq]
      exact ⟨rfl, rfl, rfl, rfl⟩
    · exact hsub.sameOrder
  | enqueueInto queue t =>
    cases h
    obtain ⟨y, hy, hreturns⟩ := hx
    cases hy
    rcases hreturns with heq | hsub
    · rw [heq]
      exact ⟨rfl, rfl, rfl, rfl⟩
    · exact hsub.sameOrder
  | _ => cases h

theorem outgoing_loads (h : role.outgoing = some g) (id : String) : ¬ role.scope.loads id := by
  cases role with
  | enqueue c t => exact False.elim
  | enqueueInto queue t => exact False.elim
  | _ => cases h

theorem outgoing_of_enqueuer (h : role.writer = .enqueuer) : ∃ g, role.outgoing = some g := by
  cases role with
  | enqueue c t => exact ⟨_, rfl⟩
  | enqueueInto queue t => exact ⟨_, rfl⟩
  | _ => cases h

end Role

theorem Client.prepared_cases (c : Client) (t : Task) :
    ∃ signature, c.prepared t = { t with queue := c.opts.queue.name, signature := signature } ∧
      (t.signature = "" ∨ signature = t.signature) := by
  unfold prepared
  split
  · rename_i signed hsigned
    rcases signTask_ok hsigned with ⟨-, hsame⟩ | ⟨key, -, hsign⟩
    · exact ⟨t.signature, hsame, Or.inr rfl⟩
    · obtain ⟨hempty, -, message, -, hrecord⟩ := Task.sign_ok hsign
      exact ⟨_, hrecord, Or.inl hempty⟩
  · exact ⟨t.signature, rfl, Or.inr rfl⟩

theorem Role.outgoing_given {role : Role} {g : Task} {t : Copy} (hg : role.outgoing = some g)
    (ht : role.given = some t) :
    g.result = t.result ∧ ∀ m : Task, m.Follows t.toTask → m.Follows g := by
  cases role with
  | enqueue c given =>
    cases hg
    cases ht
    obtain ⟨signature, hprepared, hsignature⟩ := c.prepared_cases t.toTask
    rw [hprepared]
    refine ⟨rfl, fun m hm => ⟨hm.definition, hm.tries, ?_⟩⟩
    rcases hsignature with hempty | hsame
    · rcases hm.signature with hm | hm
      · exact Or.inl hm
      · exact Or.inl (hm.symm.trans hempty)
    · rw [hsame]
      exact hm.signature
  | enqueueInto queue given =>
    cases hg
    cases ht
    exact ⟨rfl, fun m hm => hm⟩
  | _ => cases hg

theorem Role.given_of_outgoing {role : Role} {g : Task} (h : role.outgoing = some g) :
    ∃ t, role.given = some t := by
  cases role with
  | enqueue c t => exact ⟨t, rfl⟩
  | enqueueInto queue t => exact ⟨t, rfl⟩
  | _ => cases h

/-- The options this package offers to `NewTask`. -/
inductive PackageOpt (α : Type) where
  | deadline (instant : Int)
  | maxTries (tries : Int)
  | dependsOnIDs (ids : List String)
  | dependsOn (tasks : List Task)
  | requiresDependencyResults
  | payloadEncoder (encode : α → Except Error Bytes)

def PackageOpt.opt {α : Type} : PackageOpt α → TaskOpt α
  | .deadline instant => taskDeadline instant
  | .maxTries tries => taskMaxTries tries
  | .dependsOnIDs ids => taskDependsOnIDs ids
  | .dependsOn tasks => taskDependsOn tasks
  | .requiresDependencyResults => taskRequiresDependencyResults
  | .payloadEncoder encode => taskPayloadEncoder encode

/-- Tasks come from `NewTask` with the options of this package, callers do not change them,
and they enqueue what they made or got back from `EnqueueTask`. -/
def Action.Untampered : Action → Prop
  | .newTask task => ∃ (α : Type) (jsonMarshal : α → Except Error Bytes) (id : String) (now : Int)
      (taskType : String) (payload : Option α) (opts : List (PackageOpt α)),
      (AsyncJobs.newTask jsonMarshal id now taskType payload (opts.map PackageOpt.opt)).map
        Copy.toTask = .ok task
  | .edit _ _ | .load _ _ => False
  | _ => True

section NewTask

variable {α : Type} {b b' : TaskBuilder α}

theorem taskDependsOnIDs_result {ids : List String} (h : taskDependsOnIDs ids b = .ok b') :
    b'.task.result = b.task.result := by
  cases h
  rfl

theorem applyTaskOpts_result {opts : List (TaskOpt α)}
    (hopts : ∀ opt ∈ opts, ∀ b b' : TaskBuilder α, opt b = .ok b' → b'.task.result = b.task.result)
    (h : applyTaskOpts opts b = .ok b') : b'.task.result = b.task.result := by
  induction opts generalizing b with
  | nil =>
    cases h
    rfl
  | cons opt opts ih =>
    simp only [applyTaskOpts] at h
    split at h
    · cases h
    · rename_i next hnext
      have hrest := ih (fun o ho => hopts o (List.mem_cons_of_mem _ ho)) h
      exact hrest.trans (hopts opt (List.mem_cons_self ..) b next hnext)

theorem PackageOpt.result (option : PackageOpt α) (h : option.opt b = .ok b') :
    b'.task.result = b.task.result := by
  cases option with
  | dependsOn tasks =>
    have h : applyTaskOpts (tasks.map fun task => taskDependsOnIDs [task.id]) b = .ok b' := h
    apply applyTaskOpts_result _ h
    intro o ho b b' hb
    obtain ⟨task, -, rfl⟩ := List.mem_map.mp ho
    exact taskDependsOnIDs_result hb
  | payloadEncoder encode =>
    simp only [PackageOpt.opt, taskPayloadEncoder] at h
    split at h
    · cases h
    · cases h
      rfl
  | _ =>
    cases h
    rfl

theorem newTask_result {jsonMarshal : α → Except Error Bytes} {id : String} {now : Int}
    {taskType : String} {payload : Option α} {opts : List (PackageOpt α)} {t : Copy}
    (h : newTask jsonMarshal id now taskType payload (opts.map PackageOpt.opt) = .ok t) :
    t.result = none := by
  unfold newTask at h
  split_ifs at h
  simp only at h
  split at h
  · cases h
  · rename_i b hb
    have hresult : b.task.result = none := by
      apply applyTaskOpts_result _ hb
      intro opt hopt b b' hopt'
      obtain ⟨option, -, rfl⟩ := List.mem_map.mp hopt
      exact option.result hopt'
    split_ifs at h
    split at h
    · cases h
    · rename_i task hencoded
      have htask : task.result = none := by
        split at hencoded
        · cases hencoded
          exact hresult
        · split at hencoded
          · cases hencoded
          · cases hencoded
            exact hresult
      split_ifs at h
      · cases h
        exact htask
      · cases h
        exact htask

end NewTask

theorem Action.Untampered.result {task : Task} (h : (Action.newTask task).Untampered) :
    task.result = none := by
  obtain ⟨α, jsonMarshal, id, now, taskType, payload, opts, hnew⟩ := h
  cases hmade : AsyncJobs.newTask jsonMarshal id now taskType payload (opts.map PackageOpt.opt) with
  | error e =>
    rw [hmade] at hnew
    cases hnew
  | ok made =>
    rw [hmade] at hnew
    cases hnew
    exact newTask_result hmade

/-- What a save leaves behind, with respect to the revision it replaces. -/
structure Revised (writer : Writer) (m t : Task) : Prop where
  definition : t.definition = m.definition
  signature : t.signature = m.signature ∨ (m.signature = "" ∧ writer = .enqueuer)
  tries : m.tries ≤ t.tries ∧ t.tries ≤ m.tries + 1

/-- A save of a sound record that revises what it replaces. -/
def SoundSave (_ : List Event) : Event → Prop
  | .saved _ writer old new _ =>
    new.task.Sound ∧ ∀ m, old = some m → Revised writer m.task new.task
  | _ => True

theorem sound_of_written {log : List Event} (h : Always SoundSave log) {m : StoredTask}
    (hm : Written log m) : m.task.Sound := by
  obtain ⟨n, writer, old, acked, hmem⟩ := hm
  obtain ⟨post, pre, rfl⟩ := List.append_of_mem hmem
  exact h.at.1

namespace Config

/-- A task in the hands of a caller or of a thread, against what its copy knows. -/
def Clean (n : Nat) (log : List Event) (t : Task) : Prop :=
  t.result = none ∧ ∀ m, known n log = some m → m.task.Follows t

/-- Nobody loads tasks to change them, all tasks on their way into the store are clean, and
what was saved is sound. -/
structure Orderly (cfg : Config) : Prop where
  loads : ∀ th ∈ cfg.threads, ∀ c id, th.tag.role ≠ .load c id
  copies : ∀ k t, cfg.world.copies k = some t → Clean k cfg.world.log t.toTask
  threads : ∀ th ∈ cfg.threads, ∀ g, th.tag.role.outgoing = some g →
    Clean th.tag.holder cfg.world.log g
  saves : Always SoundSave cfg.world.log

variable {cfg cfg' : Config} {a : Action}

theorem Orderly.init (start : Int) : (Config.init start).Orderly where
  loads := by
    intro th hth
    cases hth
  copies := by
    intro k t hk
    cases hk
  threads := by
    intro th hth
    cases hth
  saves := trivial

theorem Clean.foreign {n : Nat} {log es : List Event} {t : Task} (h : Clean n log t)
    (hes : ∀ e ∈ es, e.subject ≠ some n) : Clean n (es ++ log) t := by
  unfold Clean
  rw [known_append hes]
  exact h

theorem Orderly.copies_foreign (h : cfg.Orderly) (hinv : cfg.Inv) {i : Nat} {tag : Tag} {c : Call}
    {k : c.Reply → Job Unit} {w : World} (hget : cfg.threads[i]? = some ⟨tag, .call c k⟩)
    (heffect : Effect tag.holder tag.role.writer cfg.world c w) {j : Nat} {t : Copy}
    (hj : cfg.world.copies j = some t) : Clean j w.log t.toTask := by
  obtain ⟨es, hlog, hes⟩ := heffect.acts
  rw [hlog]
  apply (h.copies j t hj).foreign
  intro e he
  obtain ⟨-, hsubject, -⟩ := hes e he
  apply subject_ne (Or.inr hsubject) _ (hinv.owned j t hj).1
  rintro rfl
  rw [hinv.unowned _ (List.mem_of_getElem? hget)] at hj
  cases hj

theorem Orderly.passed (h : cfg.Orderly) {tag : Tag} {t : Copy} {prog : Job Unit}
    (hmem : ⟨tag, prog⟩ ∈ cfg.threads) (hreturns : tag.role.scope.returns (some t))
    (err : Option Error) :
    Clean cfg.world.nextCopy (cfg.world.finish tag.holder (some t) err).log t.toTask := by
  have hknown : known cfg.world.nextCopy (cfg.world.finish tag.holder (some t) err).log =
      known tag.holder cfg.world.log := by
    simp [World.finish, known]
  have houtgoing : ∃ g, tag.role.outgoing = some g := by
    have hload := h.loads _ hmem
    generalize tag.role = role at hreturns hload
    cases role with
    | enqueue c t => exact ⟨_, rfl⟩
    | enqueueInto queue t => exact ⟨_, rfl⟩
    | load c id => exact absurd rfl (hload c id)
    | worker p item => exact hreturns.elim
    | handler p t item => exact hreturns.elim
    | retry c id => cases hreturns
    | delete id => cases hreturns
  obtain ⟨g, hg⟩ := houtgoing
  obtain ⟨hresult, hfollows⟩ := h.threads _ hmem g hg
  have hsame := Role.outgoing_returns hg hreturns
  refine ⟨hsame.result.trans hresult, fun m hm => ?_⟩
  rw [hknown] at hm
  exact hsame.follows (hfollows m hm)

/-- A submitted copy leaves its caller, and the others are not concerned. -/
theorem Orderly.copies_submit (h : cfg.Orderly) (hinv : cfg.Inv) {copy : Nat} {t : Copy} :
    ∀ k t', Function.update cfg.world.copies copy none k = some t' →
      Clean k (.submitted copy cfg.world.nextCopy t :: cfg.world.log) t'.toTask := by
  intro k t' hk
  have hne : k ≠ copy := by
    intro heq
    rw [heq, Function.update_self] at hk
    cases hk
  rw [Function.update_of_ne hne] at hk
  have hlt := (hinv.owned k t' hk).1
  have hforeign : ∀ e ∈ [Event.submitted copy cfg.world.nextCopy t], e.subject ≠ some k := by
    simp only [List.mem_singleton, forall_eq, Event.subject, ne_eq, Option.some.injEq]
    omega
  exact (h.copies k t' hk).foreign hforeign

theorem Orderly.copies_newTask (h : cfg.Orderly) (hinv : cfg.Inv) {task : Task}
    (hresult : task.result = none) :
    ∀ k t, Function.update cfg.world.copies cfg.world.nextCopy (some ⟨task, none⟩) k = some t →
      Clean k cfg.world.log t.toTask := by
  intro k t hk
  by_cases hkn : k = cfg.world.nextCopy
  · subst hkn
    rw [Function.update_self] at hk
    cases hk
    constructor
    · exact hresult
    · intro m hm
      rw [known_fresh hinv] at hm
      cases hm
  · rw [Function.update_of_ne hkn] at hk
    exact h.copies k t hk

theorem Orderly.copies_request (h : cfg.Orderly) (hinv : cfg.Inv) (hacc : cfg.Accounted)
    {i : Nat} {tag : Tag} {c : Call} {cont : c.Reply → Job Unit} {w : World}
    (hget : cfg.threads[i]? = some ⟨tag, .call c cont⟩)
    (heffect : Effect tag.holder tag.role.writer cfg.world c w) :
    ∀ k t, w.copies k = some t → Clean k w.log t.toTask := by
  have hmem := List.mem_of_getElem? hget
  intro j t hj
  rcases effect_copies heffect with hcopies | ⟨t', err, rfl, rfl⟩
  · rw [hcopies] at hj
    exact h.copies_foreign hinv hget heffect hj
  · rcases World.finish_copies_cases _ hj with ⟨rfl, rfl⟩ | hj
    · exact h.passed hmem (hacc.threads _ hmem).sends.1 err
    · exact h.copies_foreign hinv hget heffect hj

theorem Orderly.copies_step (h : cfg.Orderly) (hinv : cfg.Inv) (hacc : cfg.Accounted)
    (ha : a.Untampered) (hs : Step cfg a cfg') :
    ∀ k t, cfg'.world.copies k = some t → Clean k cfg'.world.log t.toTask := by
  cases hs with
  | request hget hexec => exact h.copies_request hinv hacc hget (World.exec_effect hexec)
  | enqueue c owned => exact h.copies_submit hinv
  | enqueueInto queue owned => exact h.copies_submit hinv
  | newTask valid => exact h.copies_newTask hinv ha.result
  | edit owned same => exact ha.elim
  | dropTask found =>
    intro k t hk
    exact h.copies k t hk
  | _ => exact h.copies

theorem Orderly.threads_step (h : cfg.Orderly) (hinv : cfg.Inv) (hacc : cfg.Accounted)
    (hs : Step cfg a cfg') : ∀ th ∈ cfg'.threads, ∀ g, th.tag.role.outgoing = some g →
      Clean th.tag.holder cfg'.world.log g := by
  intro th hth g hg
  cases hinv.thread_step hs hth with
  | waits mem es hlog foreign =>
    rw [hlog]
    exact (h.threads th mem g hg).foreign fun e he => (foreign e he).subject
  | stops mem hworld =>
    rw [hworld]
    exact h.threads _ mem g hg
  | @moves i o tag c k r action thread effect =>
    have hmem := List.mem_of_getElem? thread
    obtain ⟨hresult, hfollows⟩ := h.threads _ hmem g hg
    have hsends := (hacc.threads _ hmem).sends.1
    refine ⟨hresult, fun m hm => ?_⟩
    rcases effect.known_cases (hinv.fresh _ hmem) with hsame | ⟨id, rfl⟩ | ⟨t, seq, rfl, hnew⟩
    · rw [hsame] at hm
      exact hfollows m hm
    · exact absurd hsends (Role.outgoing_loads hg _)
    · rw [hnew] at hm
      cases hm
      have hsaved := Role.outgoing_saves hg hsends
      exact ⟨hsaved.definition.symm, hsaved.tries.symm, Or.inr hsaved.signature.symm⟩
  | @starts role opened =>
    cases opened with
    | free opens =>
      obtain ⟨t, ht⟩ := Role.given_of_outgoing hg
      rw [show role.given = none from opens.alone.2] at ht
      cases ht
    | @submitted _ k t given owned hlog =>
      obtain ⟨hresult, hfollows⟩ := h.copies k t owned
      obtain ⟨hsame, hcontinue⟩ := Role.outgoing_given hg given
      refine ⟨hsame.trans hresult, fun m hm => hcontinue m.task (hfollows m ?_)⟩
      rw [hlog] at hm
      simpa [known] using hm
    | handler call hlog => cases hg

theorem Orderly.save (h : cfg.Orderly) {tag : Tag} {t : Copy}
    {prog : Job Unit} (hmem : ⟨tag, prog⟩ ∈ cfg.threads) (hsends : tag.role.Sends (.publishTask t))
    {seq : Nat} {acked : Bool} {old : Option StoredTask}
    (hvalid : Valid (.saved tag.holder tag.role.writer old ⟨seq, t.toTask⟩ acked ::
      cfg.world.log)) :
    SoundSave cfg.world.log (.saved tag.holder tag.role.writer old ⟨seq, t.toTask⟩ acked) := by
  obtain ⟨hcurrent, hknown, hchange, -⟩ := hvalid.1
  have hbase : ∀ m, old = some m → m.task.Sound := by
    intro m hm
    rw [hm] at hcurrent
    exact sound_of_written h.saves (current_written hcurrent.symm).1
  by_cases hwriter : tag.role.writer = .enqueuer
  · obtain ⟨g, hg⟩ := Role.outgoing_of_enqueuer hwriter
    obtain ⟨hresult, hfollows⟩ := h.threads _ hmem g hg
    have hsaved := Role.outgoing_saves hg hsends
    refine ⟨hchange.sound hbase fun _ => hsaved.result.trans hresult, fun m hm => ?_⟩
    have hm := hsaved.follows (hfollows m (hknown.symm.trans hm))
    refine ⟨hm.definition, ?_, ?_⟩
    · rcases hm.signature with hempty | hsame
      · exact Or.inr ⟨hempty, hwriter⟩
      · exact Or.inl hsame
    · have htries : t.tries = m.task.tries := hm.tries
      show m.task.tries ≤ t.tries ∧ t.tries ≤ m.task.tries + 1
      omega
  · refine ⟨hchange.sound hbase fun hw => absurd hw hwriter, fun m hm => ?_⟩
    obtain ⟨m', hm', hcontinues⟩ := hchange.continues hwriter
    rw [hm] at hm'
    cases hm'
    exact ⟨hcontinues.definition, Or.inl hcontinues.signature, hcontinues.tries⟩

theorem Orderly.saves_step (h : cfg.Orderly) (hacc : cfg.Accounted) (hinv' : cfg'.Inv)
    (hs : Step cfg a cfg') : Always SoundSave cfg'.world.log := by
  cases hs with
  | @request i o tag c k r w hget hexec =>
    have hmem := List.mem_of_getElem? hget
    have hvalid : Valid w.log := hinv'.world.valid
    cases World.exec_effect hexec with
    | @save t accepted acked =>
      exact ⟨h.save hmem (hacc.threads _ hmem).sends.1 hvalid, h.saves⟩
    | done t err =>
      cases t with
      | none => exact ⟨trivial, h.saves⟩
      | some t => exact ⟨trivial, trivial, h.saves⟩
    | queueUnanswered => exact ⟨trivial, trivial, h.saves⟩
    | unchanged => exact h.saves
    | nak => exact h.saves
    | release => exact h.saves
    | _ => exact ⟨trivial, h.saves⟩
  | enqueue => exact ⟨trivial, h.saves⟩
  | enqueueInto => exact ⟨trivial, h.saves⟩
  | dropTask => exact ⟨trivial, h.saves⟩
  | _ => exact h.saves

theorem Orderly.loads_step (h : cfg.Orderly) (hinv : cfg.Inv) (ha : a.Untampered)
    (hs : Step cfg a cfg') : ∀ th ∈ cfg'.threads, ∀ c id, th.tag.role ≠ .load c id := by
  intro th hth c id hrole
  cases hinv.thread_step hs hth with
  | waits mem es hlog foreign => exact h.loads th mem c id hrole
  | stops mem hworld => exact h.loads _ mem c id hrole
  | moves action thread effect => exact h.loads _ (List.mem_of_getElem? thread) c id hrole
  | @starts role opened =>
    have hrole : role = .load c id := hrole
    subst hrole
    cases opened with
    | free opens =>
      cases a with
      | load c' id' => exact ha
      | deliver p id' =>
        obtain ⟨msg, hmsg⟩ := opens
        cases hmsg
      | retry c' id' => cases opens
      | delete id' => cases opens
      | _ => exact opens
    | submitted given => cases given

theorem Orderly.step (h : cfg.Orderly) (hinv : cfg.Inv) (hacc : cfg.Accounted)
    (ha : a.Untampered) (hs : cfg.step a = some cfg') : cfg'.Orderly where
  loads := h.loads_step hinv ha (step_sound hs)
  copies := h.copies_step hinv hacc ha (step_sound hs)
  threads := h.threads_step hinv hacc (step_sound hs)
  saves := h.saves_step hacc (hinv.step hs) (step_sound hs)

end Config

/-- In every run over tasks that callers make with `NewTask` and leave alone, every record
that is stored is sound, and a save keeps the definition of the task it replaces, adds at most
one try, and changes the signature only where `EnqueueTask` stores a signature over none. -/
theorem stored_records_are_sound (start : Int) (actions : List Action) (cfg : Config)
    (hactions : ∀ a ∈ actions, a.Untampered) (hrun : (Config.init start).run actions = some cfg)
    (post pre : List Event) (n : Nat) (writer : Writer) (old : Option StoredTask)
    (new : StoredTask) (acked : Bool)
    (hsaved : cfg.world.log = post ++ .saved n writer old new acked :: pre) :
    new.task.Sound ∧ ∀ m, old = some m → Revised writer m.task new.task := by
  have hreached : cfg.Inv ∧ cfg.Accounted ∧ cfg.Orderly := by
    apply run_induction_of (P := fun cfg : Config => cfg.Inv ∧ cfg.Accounted ∧ cfg.Orderly) _
      actions hactions _ hrun
    · intro cfg cfg' a h ha hs
      obtain ⟨hinv, hacc, horderly⟩ := h
      exact ⟨hinv.step hs, hacc.step hinv (Config.step_sound hs), horderly.step hinv hacc ha hs⟩
    · exact ⟨Config.Inv.init start, Config.Accounted.init start, Config.Orderly.init start⟩
  have hsaves := hreached.2.2.saves
  rw [hsaved] at hsaves
  exact hsaves.at

/-- The newest event replaces a revision, and the two records have this property. -/
def justReplaced (test : Task → Task → Bool) : List Event → Bool
  | .saved _ _ (some m) new _ :: _ => test m.task new.task
  | _ => false

theorem exists_replaced {test : Task → Task → Bool} {result : Option Config}
    (h : result.any (fun cfg => justReplaced test cfg.world.log) = true) :
    ∃ cfg pre n writer m new acked, result = some cfg ∧
      cfg.world.log = .saved n writer (some m) new acked :: pre ∧
      test m.task new.task = true := by
  obtain ⟨cfg, hcfg, hreplaced⟩ := (Option.any_eq_true _ _).mp h
  unfold justReplaced at hreplaced
  split at hreplaced
  · rename_i n writer m new acked pre hlog
    exact ⟨cfg, pre, n, writer, m, new, acked, hcfg, hlog, hreplaced⟩
  · cases hreplaced

theorem sampleTask_untampered : (Action.newTask sampleTask).Untampered := by
  refine ⟨Unit, fun _ => .ok [], "T1", 0, "email:new", none, [], ?_⟩
  decide

/-- The task is enqueued, and a worker activates it. -/
def activateSample : List Action :=
  enqueueSample ++ .deliver ⟨sampleClient⟩ "T1" :: answered 1 4

theorem activateSample_untampered : ∀ a ∈ activateSample, a.Untampered := by
  intro a ha
  simp only [activateSample, enqueueSample, answered, List.mem_append, List.mem_cons,
    List.mem_replicate, List.not_mem_nil, or_false] at ha
  rcases ha with ((rfl | rfl) | ⟨-, rfl⟩) | rfl | ⟨-, rfl⟩
  · exact sampleTask_untampered
  all_goals trivial

theorem stored_records_are_sound_sample :
    ∃ cfg pre n writer m new acked, (∀ a ∈ activateSample, a.Untampered) ∧
      (Config.init 0).run activateSample = some cfg ∧
      cfg.world.log = .saved n writer (some m) new acked :: pre ∧
      new.task.Sound ∧ Revised writer m.task new.task := by
  have hrun : ((Config.init 0).run activateSample).any
      (fun cfg => justReplaced (fun _ _ => true) cfg.world.log) = true := by
    decide +kernel
  obtain ⟨cfg, pre, n, writer, m, new, acked, hcfg, hlog, -⟩ := exists_replaced hrun
  obtain ⟨hsound, hrevised⟩ := stored_records_are_sound 0 activateSample cfg
    activateSample_untampered hcfg [] pre n writer (some m) new acked hlog
  exact ⟨cfg, pre, n, writer, m, new, acked, activateSample_untampered, hcfg, hlog, hsound,
    hrevised m rfl⟩

def signingClient : Client where
  opts := { queue := sampleQueue, privateKey := some (List.replicate 64 0) }
  host := { sampleHost with sign := fun _ _ => [1] }

/-- The caller enqueues the task it got back once more, through the signing client. -/
def enqueueSigned : List Action :=
  enqueueSample ++ [.enqueue signingClient 2, .run 1 .ok]

/-- The revision that was stored without a signature is replaced by a signed one. -/
theorem signature_is_added_by_enqueue :
    (∀ a ∈ enqueueSigned, a.Untampered) ∧
    ∃ cfg pre n writer m new acked, (Config.init 0).run enqueueSigned = some cfg ∧
      cfg.world.log = .saved n writer (some m) new acked :: pre ∧
      m.task.signature ≠ new.task.signature := by
  constructor
  · intro a ha
    simp only [enqueueSigned, enqueueSample, answered, List.mem_append, List.mem_cons,
      List.mem_replicate, List.not_mem_nil, or_false] at ha
    rcases ha with ((rfl | rfl) | ⟨-, rfl⟩) | rfl | rfl
    · exact sampleTask_untampered
    all_goals trivial
  · have hrun : ((Config.init 0).run enqueueSigned).any
        (fun cfg => justReplaced (fun m new => m.signature ≠ new.signature) cfg.world.log) =
          true := by
      decide +kernel
    obtain ⟨cfg, pre, n, writer, m, new, acked, hcfg, hlog, hdiffers⟩ := exists_replaced hrun
    exact ⟨cfg, pre, n, writer, m, new, acked, hcfg, hlog, of_decide_eq_true hdiffers⟩

end AsyncJobs
