import AsyncJobs.System.Provenance

/-!
# What the entry points send, over whole runs

`Role.scope` fixes one account of what each entry point may send. Other accounts are possible,
and each that the programs keep to is kept by every thread of every run: by what is left of
its program and by every event it caused.
-/

namespace AsyncJobs

open Interaction

namespace Config

/-- Every thread keeps within an account of what its entry point sends, and so did whoever
caused the events of the log. -/
structure Within (C : Role → Call → Prop) (cfg : Config) : Prop where
  threads : ∀ th ∈ cfg.threads, th.prog.Yields (C th.tag.role) fun _ => True
  caused : ∀ e ∈ cfg.world.log, ∀ n, e.actor = some n → ∃ th ∈ cfg.threads,
    th.tag.holder = n ∧ ∃ c, C th.tag.role c ∧ e.ProducedBy th.tag.role.writer c

variable {C : Role → Call → Prop} {cfg cfg' : Config} {a : Action}

theorem Within.init (start : Int) : (Config.init start).Within C where
  threads := by
    intro th hth
    cases hth
  caused := by
    intro e he
    cases he

theorem Within.new_event (h : cfg.Within C) (hs : Step cfg a cfg') :
    ∃ es, cfg'.world.log = es ++ cfg.world.log ∧ ∀ e ∈ es, ∀ n, e.actor = some n →
      ∃ th ∈ cfg.threads, th.tag.holder = n ∧
        ∃ c, C th.tag.role c ∧ e.ProducedBy th.tag.role.writer c := by
  cases hs with
  | @request i o tag c k r w hget hexec =>
    obtain ⟨es, hlog, hes⟩ := (World.exec_effect hexec).acts
    refine ⟨es, hlog, fun e he n hn => ?_⟩
    obtain ⟨hactor, -, hproduced⟩ := hes e he
    rw [hactor] at hn
    have hmem := List.mem_of_getElem? hget
    exact ⟨_, hmem, Option.some.inj hn, c, (h.threads _ hmem).1, hproduced⟩
  | @enqueue c copy t owned =>
    refine ⟨[.submitted copy cfg.world.nextCopy t], rfl, ?_⟩
    simp [Event.actor]
  | @enqueueInto queue copy t owned =>
    refine ⟨[.submitted copy cfg.world.nextCopy t], rfl, ?_⟩
    simp [Event.actor]
  | @dropTask id m found =>
    refine ⟨[.dropped m], rfl, ?_⟩
    simp [Event.actor]
  | _ => exact ⟨[], rfl, by simp⟩

theorem Within.step (hprog : ∀ role : Role, role.prog.Yields (C role) fun _ => True)
    (h : cfg.Within C) (hinv : cfg.Inv) (hs : Step cfg a cfg') : cfg'.Within C where
  threads := by
    intro th hth
    cases hinv.thread_step hs hth with
    | waits mem es hlog foreign => exact h.threads th mem
    | stops mem hworld => trivial
    | moves action thread effect => exact (h.threads _ (List.mem_of_getElem? thread)).2 _
    | starts opened => exact hprog _
  caused := by
    obtain ⟨es, hlog, hes⟩ := h.new_event hs
    intro e he n hn
    have hbefore : ∃ th ∈ cfg.threads, th.tag.holder = n ∧
        ∃ c, C th.tag.role c ∧ e.ProducedBy th.tag.role.writer c := by
      rw [hlog] at he
      rcases List.mem_append.mp he with he | he
      · exact hes e he n hn
      · exact h.caused e he n hn
    obtain ⟨th, hth, hholder, hcaused⟩ := hbefore
    obtain ⟨after, hafter, htag⟩ := hs.mem_tag hth
    rw [← htag] at hholder hcaused
    exact ⟨after, hafter, hholder, hcaused⟩

theorem Within.reached (hprog : ∀ role : Role, role.prog.Yields (C role) fun _ => True)
    {meets : Config → Action → Bool} {start : Int} {actions : List Action}
    (hr : (Config.init start).runWhile meets actions = some cfg) : cfg.Inv ∧ cfg.Within C :=
  runWhile_induction (P := fun cfg : Config => cfg.Inv ∧ cfg.Within C)
    (fun h _ hs => ⟨h.1.step hs, h.2.step hprog h.1 (step_sound hs)⟩) actions
    ⟨Inv.init start, Within.init start⟩ hr

end Config

end AsyncJobs
