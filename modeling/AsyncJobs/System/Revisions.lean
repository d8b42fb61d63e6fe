import AsyncJobs.System.Reachable

/-!
# One chain of revisions for each task

A save takes effect only on the revision its copy last loaded or had acknowledged,
a delete only on the revision it read. The revisions stored under an identifier
therefore form one chain, from an absent task to what is stored now.
-/

namespace AsyncJobs

/-- What happened to the record of one task, newest first: what each event found
and what it left. -/
def changes (id : String) : List Event → List (Option StoredTask × Option StoredTask)
  | [] => []
  | .saved _ _ old new _ :: log =>
    if new.task.id = id then (old, some new) :: changes id log else changes id log
  | .deleted _ m :: log | .dropped m :: log =>
    if m.task.id = id then (some m, none) :: changes id log else changes id log
  | _ :: log => changes id log

/-- Each change starts where the one before it ended, and the last ends in `last`. -/
def Linked (last : Option StoredTask) : List (Option StoredTask × Option StoredTask) → Prop
  | [] => last = none
  | (before, after) :: rest => last = after ∧ Linked before rest

theorem Valid.linked {log : List Event} (h : Valid log) (id : String) :
    Linked (current id log) (changes id log) := by
  induction log with
  | nil => rfl
  | cons e log ih =>
    have htail := ih h.tail
    have hj := h.1
    cases e with
    | saved n writer old new acked =>
      simp only [current, changes]
      split_ifs with hid
      · refine ⟨rfl, ?_⟩
        rw [hj.1, hid]
        exact htail
      · exact htail
    | deleted n m =>
      simp only [current, changes]
      split_ifs with hid
      · refine ⟨rfl, ?_⟩
        rw [← hj.1, hid]
        exact htail
      · exact htail
    | dropped m =>
      simp only [current, changes]
      split_ifs with hid
      · refine ⟨rfl, ?_⟩
        have hcurrent : current m.task.id log = some m := hj
        rw [← hcurrent, hid]
        exact htail
      · exact htail
    | _ => exact htail

/-- Steps `i` of a thread that are all answered. -/
def answered (i count : Nat) : List Action := List.replicate count (.run i .ok)

/-- The caller enqueues its task: save, event, work item, return. -/
def enqueueSample : List Action :=
  [.newTask sampleTask, .enqueue sampleClient 0] ++ answered 0 4

/-- A worker takes the item and starts the handler: load, two clock readings, save,
event, start. -/
def startSample (i : Nat) : List Action :=
  .deliver ⟨sampleClient⟩ "T1" :: answered i 6

def onceQueue : Queue := { sampleQueue with maxTries := 1 }

def onceClient : Client := ⟨{ queue := onceQueue }, sampleHost⟩

/-- The newest event starts a handler, for a copy and after a log with this property. -/
def justStarted (test : Copy → List Event → Bool) : List Event → Bool
  | .started _ _ t _ :: pre => test t pre
  | _ => false

theorem exists_started {test : Copy → List Event → Bool} {result : Option Config}
    (h : result.any (fun cfg => justStarted test cfg.world.log) = true) :
    ∃ cfg n next t item pre, result = some cfg ∧ cfg.world.log = .started n next t item :: pre ∧
      test t pre = true := by
  obtain ⟨cfg, hcfg, hstarted⟩ := (Option.any_eq_true _ _).mp h
  unfold justStarted at hstarted
  split at hstarted
  · rename_i n next t item pre hlog
    exact ⟨cfg, n, next, t, item, pre, hcfg, hlog, hstarted⟩
  · cases hstarted

/-- Every save that takes effect replaces exactly the revision its copy knows, every
delete that takes effect removes exactly the revision it read, sequences only grow,
and what is stored is the end of the one chain of changes. -/
theorem revisions_form_one_chain (start : Int) (actions : List Action) (cfg : Config)
    (hrun : (Config.init start).run actions = some cfg) :
    (∀ post pre n writer old new acked,
      cfg.world.log = post ++ .saved n writer old new acked :: pre →
        old = known n pre ∧ old = current new.task.id pre ∧
          ∀ m, Written pre m → m.seq < new.seq) ∧
    (∀ post pre n m, cfg.world.log = post ++ .deleted n m :: pre →
      lookedUp n pre = some m ∧ current m.task.id pre = some m) ∧
    ∀ id, Linked (cfg.world.stored id) (changes id cfg.world.log) := by
  have hinv := Config.Inv.reached hrun
  have hvalid := hinv.world.valid
  refine ⟨?_, ?_, ?_⟩
  · intro post pre n writer old new acked hlog
    rw [hlog] at hvalid
    obtain ⟨hcurrent, hknown, -, hseq⟩ := hvalid.at
    exact ⟨hknown, hcurrent, hseq⟩
  · intro post pre n m hlog
    rw [hlog] at hvalid
    obtain ⟨hcurrent, hlooked⟩ := hvalid.at
    exact ⟨hlooked, hcurrent⟩
  · intro id
    rw [hinv.world.stored id]
    exact hvalid.linked id

theorem revisions_form_one_chain_sample :
    ∃ cfg, (Config.init 0).run (enqueueSample ++ startSample 1) = some cfg ∧
      (changes "T1" cfg.world.log).length = 2 ∧
      Linked (cfg.world.stored "T1") (changes "T1" cfg.world.log) := by
  have hrun : ((Config.init 0).run (enqueueSample ++ startSample 1)).map
      (fun cfg => (changes "T1" cfg.world.log).length) = some 2 := by decide +kernel
  obtain ⟨cfg, hcfg, hlength⟩ := Option.map_eq_some_iff.mp hrun
  exact ⟨cfg, hcfg, hlength, (revisions_form_one_chain 0 _ cfg hcfg).2.2 "T1"⟩

end AsyncJobs
