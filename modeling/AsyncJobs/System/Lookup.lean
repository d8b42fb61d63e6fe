import AsyncJobs.System.Discard
import AsyncJobs.Interaction.Subject
import Mathlib.Data.List.Nodup

/-!
# Looking tasks up by ID

`LoadTaskByID` and `DeleteTaskByID` put the ID they are given into the subject of a task and
ask for the last message on it. IDs are checked when a task is created and nowhere else, so
the ID may be a wildcard, and the lookup then finds a task with another ID.
-/

namespace AsyncJobs

open Interaction

/-- `CHORIA_AJ.T.%s`. -/
def taskSubject (id : String) : String := "CHORIA_AJ.T" ++ "." ++ id

/-- No other task is stored on a subject that the subject of this ID matches. -/
def NamesOnlyItself (id : String) : Prop :=
  ∀ name, isValidName name = true →
    subjectMatches (taskSubject id) (taskSubject name) = true → name = id

theorem isValidName_no_dot {name : String} (h : isValidName name = true) : '.' ∉ name.toList := by
  intro hdot
  simp only [isValidName, Bool.and_eq_true, List.all_eq_true] at h
  have hchar := h.2 '.' hdot
  revert hchar
  decide

/-- The subject of an ID matches the subjects of that ID and, for a wildcard, of every ID. -/
theorem taskSubject_matches {name : String} (hname : isValidName name = true) (id : String) :
    subjectMatches (taskSubject id) (taskSubject name) = true ↔
      World.isWildcard id = true ∨ id = name := by
  have hstem : ∀ t ∈ tokens "CHORIA_AJ.T", t ≠ ['>'] := by decide
  rw [taskSubject, taskSubject, subjectMatches_iff hstem (isValidName_no_dot hname),
    World.isWildcard, decide_eq_true_iff]
  tauto

theorem namesOnlyItself_iff (id : String) : NamesOnlyItself id ↔ World.isWildcard id = false := by
  constructor
  · intro h
    by_contra hwild
    have hwild : World.isWildcard id = true := by simpa using hwild
    have hmatches : ∀ name, isValidName name = true → name = id := by
      intro name hname
      exact h name hname ((taskSubject_matches hname id).mpr (.inl hwild))
    have hone := (hmatches "a" (by decide)).trans (hmatches "b" (by decide)).symm
    revert hone
    decide
  · intro h name hname hmatches
    obtain hwild | heq := (taskSubject_matches hname id).mp hmatches
    · rw [h] at hwild
      cases hwild
    · exact heq.symm

namespace World

variable {w w' : World} {n : Nat} {writer : Writer} {id other : String}

/-- The lookup of the model finds the newest message whose subject matches, if tasks are
stored on the subjects of their own valid IDs. -/
theorem readLast_eq_find (h : ∀ m ∈ w.tasks, isValidName m.task.id = true) (id : String) :
    w.readLast id =
      w.tasks.find? fun m => subjectMatches (taskSubject id) (taskSubject m.task.id) := by
  unfold readLast stored
  generalize w.tasks = tasks at h
  induction tasks with
  | nil => split <;> rfl
  | cons m tasks ih =>
    have hm : subjectMatches (taskSubject id) (taskSubject m.task.id) =
        (isWildcard id || decide (m.task.id = id)) := by
      rw [Bool.eq_iff_iff, taskSubject_matches (h m (List.mem_cons_self ..)), Bool.or_eq_true,
        decide_eq_true_iff, eq_comm (a := id)]
    have hrest := ih fun m' hm' => h m' (List.mem_cons_of_mem m hm')
    rw [List.find?_cons, List.find?_cons, hm]
    cases hwild : isWildcard id with
    | true => rfl
    | false =>
      simp only [hwild, Bool.false_eq_true, if_false] at hrest
      simp only [Bool.false_or, Bool.false_eq_true, if_false, hrest]

theorem stored_removeTask_of_ne {m : StoredTask} {e : Event}
    (h : ∀ r ∈ w.tasks, r.seq = m.seq → r.task.id ≠ other) :
    (w.removeTask m e).stored other = w.stored other := by
  show (w.tasks.filter fun r => r.seq ≠ m.seq).find? (fun r => r.task.id = other) =
    w.tasks.find? fun r => r.task.id = other
  generalize w.tasks = tasks at h
  induction tasks with
  | nil => rfl
  | cons r tasks ih =>
    have hrest := ih fun r' hr' => h r' (List.mem_cons_of_mem r hr')
    by_cases hseq : r.seq = m.seq
    · have hid := h r (List.mem_cons_self ..) hseq
      rw [List.filter_cons_of_neg (by simpa using hseq),
        List.find?_cons_of_neg (by simpa using hid)]
      exact hrest
    · rw [List.filter_cons_of_pos (by simpa using hseq), List.find?_cons, List.find?_cons, hrest]

theorem exec_deleteMessage_other {m : StoredTask} (hone : ∀ r ∈ w.tasks, r.seq = m.seq → r = m)
    (hother : other ≠ m.task.id) {o : Outcome} {r : Option Error}
    (h : w.exec n writer (.deleteMessage m.seq) o = some (r, w')) :
    w'.stored other = w.stored other := by
  cases exec_effect h with
  | unchanged => rfl
  | @delete _ found hfound =>
    obtain rfl : found = m :=
      hone found (List.mem_of_find?_eq_some hfound) (by simpa using List.find?_some hfound)
    apply stored_removeTask_of_ne
    intro r hr heq
    rw [hone r hr heq]
    exact hother.symm

end World

/-- What `LoadTaskByID` may return for an ID, whatever is stored. -/
def LoadsOnly (id : String) : Prop :=
  ∀ (w : World) (n : Nat) (writer : Writer) (use : ReadUse) (outcomes rest : List Outcome)
    (t : Copy) (w' : World),
    w.execute n writer (Storage.loadTaskByID use id) outcomes = some (.ok t, rest, w') → t.id = id

/-- The client's version, which also verifies the signature. -/
def ClientLoadsOnly (id : String) : Prop :=
  ∀ (c : Client) (w : World) (n : Nat) (writer : Writer) (use : ReadUse)
    (outcomes rest : List Outcome) (t : Copy) (w' : World),
    w.execute n writer (c.loadTaskByID use id) outcomes = some (.ok t, rest, w') → t.id = id

/-- What `DeleteTaskByID` may remove, whatever is stored under distinct sequences. -/
def DeletesOnly (id : String) : Prop :=
  ∀ (w : World) (n : Nat) (writer : Writer) (outcomes rest : List Outcome)
    (err : Option Error) (w' : World), (w.tasks.map StoredTask.seq).Nodup →
    w.execute n writer (Storage.deleteTaskByID id) outcomes = some (err, rest, w') →
    ∀ other, other ≠ id → w'.stored other = w.stored other

/-- The same for every step of a delete, whatever others do in between. -/
def DeletesOnlyAmongOthers (id : String) : Prop :=
  ∀ (tag : Tag) (w : World) (steps : List (World × Call × World)),
    Performs (contextOf tag) (Storage.deleteTaskByID id) w steps →
    ∀ v call v', (v, call, v') ∈ steps → ∀ other, other ≠ id → v'.stored other = v.stored other

section Lookup

variable {id other : String} {w w' : World} {n : Nat} {writer : Writer}

theorem exec_readLast_id (hid : World.isWildcard id = false) {use : ReadUse} {o : Outcome}
    {m : StoredTask} (h : w.exec n writer (.readLast use id) o = some (.ok m, w')) :
    m.task.id = id :=
  World.stored_id (World.exec_readLast_found hid h).1

theorem loadsOnly (hid : World.isWildcard id = false) : LoadsOnly id := by
  intro w n writer use outcomes rest t w' h
  obtain ⟨o, os, found, u, rfl, hexec, hret⟩ := World.execute_request h
  rcases found with (- | err) | m
  · cases hret
  · cases hret
  · cases hret
    exact exec_readLast_id hid hexec

theorem clientLoadsOnly (hid : World.isWildcard id = false) : ClientLoadsOnly id := by
  intro c w n writer use outcomes rest t w' h
  rw [Client.loadTaskByID, World.execute_bind] at h
  obtain ⟨⟨loaded, os, u⟩, hload, hafter⟩ := Option.bind_eq_some_iff.mp h
  cases loaded with
  | error err => cases hafter
  | ok task =>
    have htask := loadsOnly hid w n writer use outcomes os task u hload
    cases hverify : c.verifyTaskSignature task.toTask with
    | ok _ =>
      simp only [hverify] at hafter
      cases hafter
      exact htask
    | error fault =>
      simp only [hverify] at hafter
      cases fault with
      | error err => cases hafter
      | panic message =>
        obtain ⟨-, -, impossible, -⟩ := World.execute_request hafter
        exact Empty.elim impossible

theorem deletesOnly (hid : World.isWildcard id = false) : DeletesOnly id := by
  intro w n writer outcomes rest err w' hseq h other hother
  obtain ⟨o, os, found, u, rfl, hexec, hafter⟩ := World.execute_request h
  have hread := World.exec_readLast_stored hexec
  rcases found with (- | e) | m
  · cases hafter
    exact hread other
  · cases hafter
    exact hread other
  · obtain ⟨o', os', r, v, rfl, hdelete, hret⟩ := World.execute_request hafter
    cases hret
    obtain ⟨hstored, rfl⟩ := World.exec_readLast_found hid hexec
    have hone : ∀ r ∈ w.tasks, r.seq = m.seq → r = m := by
      intro r hr heq
      exact List.inj_on_of_nodup_map hseq hr (List.mem_of_find?_eq_some hstored) heq
    rw [← hread other]
    exact World.exec_deleteMessage_other hone (World.stored_id hstored ▸ hother) hdelete

/-- What is left of a delete once the task was looked up. -/
def deleteLookedUp : Except ReadError StoredTask → Job (Option Error)
  | .error .noMessage => .ret (some Sentinel.taskNotFound.error)
  | .error (.failed err) => .ret (some err)
  | .ok msg => .call (.deleteMessage msg.seq) .ret

theorem deleteTaskByID_eq (id : String) :
    Storage.deleteTaskByID id = .call (.readLast .delete id) deleteLookedUp := by
  refine congrArg (Prog.call _) (funext fun found => ?_)
  rcases found with (_ | err) | msg <;> rfl

theorem deletesOnlyAmongOthers (hid : World.isWildcard id = false) : DeletesOnlyAmongOthers id := by
  intro tag w steps h v call v' hstep other hother
  rw [deleteTaskByID_eq] at h
  cases h with
  | @call _ _ found _ u u' rest hrely hu hexec hrest =>
    obtain ⟨o, hread⟩ := hexec
    rcases List.mem_cons.mp hstep with heq | hstep
    · cases heq
      exact World.exec_readLast_stored hread other
    · rcases found with (_ | err) | m
      · cases hrest
        cases hstep
      · cases hrest
        cases hstep
      · cases hrest with
        | @call _ _ err _ x x' rest hrely' hx hexec' hrest' =>
          cases hrest'
          cases List.mem_singleton.mp hstep
          obtain ⟨o', hdelete⟩ := hexec'
          have hstored := (World.exec_readLast_found hid hread).1
          have hwritten : Written v.log m := hu.written_of_lookup hid hread hrely'
          have hone : ∀ r ∈ v.tasks, r.seq = m.seq → r = m := by
            intro r hr heq
            exact hx.valid.written_inj (hx.mem_written hr).2 hwritten heq
          exact World.exec_deleteMessage_other hone (World.stored_id hstored ▸ hother) hdelete

def sampleStore : World := (World.init 0).store 0 .enqueuer ⟨sampleTask, none⟩ true

theorem sampleStore_readLast (hid : World.isWildcard id = true) :
    sampleStore.readLast id = some ⟨1, sampleTask⟩ := if_pos hid

theorem ne_of_wildcard (hid : World.isWildcard id = true)
    (hother : World.isWildcard other = false) : other ≠ id := by
  rintro rfl
  rw [hid] at hother
  cases hother

theorem not_loadsOnly (hid : World.isWildcard id = true) : ¬ LoadsOnly id := by
  intro h
  have hload := h sampleStore 0 .reader .task [.ok] [] ⟨sampleTask, some 1⟩ _
    (World.execute_call (World.exec_readLast_ok (sampleStore_readLast hid)))
  exact ne_of_wildcard hid (by decide) hload

theorem not_clientLoadsOnly (hid : World.isWildcard id = true) : ¬ ClientLoadsOnly id := by
  intro h
  have hload := h sampleClient sampleStore 0 .reader .task [.ok] [] ⟨sampleTask, some 1⟩ _
    (World.execute_call (World.exec_readLast_ok (sampleStore_readLast hid)))
  exact ne_of_wildcard hid (by decide) hload

theorem not_deletesOnly (hid : World.isWildcard id = true) : ¬ DeletesOnly id := by
  intro h
  have hdelete := h sampleStore 0 .reader [.ok, .ok] [] none _ (by decide)
    (World.execute_call (World.exec_readLast_ok (sampleStore_readLast hid)))
    "T1" (ne_of_wildcard hid (by decide))
  exact absurd hdelete (by decide)

theorem delete_performs {tag : Tag} (hw : w.Inv) (hn : tag.holder < w.nextCopy) {m : StoredTask}
    (hread : w.readLast id = some m) (hmem : m ∈ w.tasks) :
    let v := w.note (.read tag.holder tag.role.writer .delete m w.clock)
    Performs (contextOf tag) (Storage.deleteTaskByID id) w
      [(w, .readLast .delete id, v),
        (v, .deleteMessage m.seq, v.removeTask m (.deleted tag.holder m))] := by
  intro v
  have hv : v.Inv := hw.own hn rfl rfl rfl rfl rfl rfl (hw.mem_written hmem).1
  have hdelete : Performs (contextOf tag) (deleteLookedUp (.ok m)) v
      [(v, .deleteMessage m.seq, v.removeTask m (.deleted tag.holder m))] :=
    .call (k := .ret) ((contextOf tag).rely_refl v) hv (r := (none : Option Error))
      ⟨.ok, World.exec_deleteMessage_ok hv hmem⟩ (.ret _ _)
  rw [deleteTaskByID_eq]
  exact .call ((contextOf tag).rely_refl w) hw (r := (.ok m : Except ReadError StoredTask))
    ⟨.ok, World.exec_readLast_ok hread⟩ hdelete

theorem not_deletesOnlyAmongOthers (hid : World.isWildcard id = true) :
    ¬ DeletesOnlyAmongOthers id := by
  intro h
  have hrun : ((Config.init 0).run enqueueSample).any (fun cfg =>
      (cfg.world.tasks.head?.any fun m => m.task.id = "T1") &&
        decide (1 < cfg.world.nextCopy)) = true := by decide +kernel
  obtain ⟨cfg, hcfg, htest⟩ := (Option.any_eq_true _ _).mp hrun
  obtain ⟨hhead, hnext⟩ := (Bool.and_eq_true _ _).mp htest
  obtain ⟨m, hm, hT1⟩ := (Option.any_eq_true _ _).mp hhead
  have hw : cfg.world.Inv := (Config.Inv.reached hcfg).world
  have hread : cfg.world.readLast id = some m := (if_pos hid).trans hm
  have hmem : m ∈ cfg.world.tasks := List.mem_of_mem_head? hm
  have hother : m.task.id ≠ id := by
    rw [of_decide_eq_true hT1]
    exact ne_of_wildcard hid (by decide)
  let tag : Tag := ⟨1, .delete id⟩
  have hv : (cfg.world.note (.read tag.holder tag.role.writer .delete m cfg.world.clock)).Inv :=
    hw.own (of_decide_eq_true hnext) rfl rfl rfl rfl rfl rfl (hw.mem_written hmem).1
  have hsame := h tag cfg.world _ (delete_performs hw (of_decide_eq_true hnext) hread hmem)
    _ _ _ (.tail _ (.head _)) m.task.id hother
  rw [hv.stored_removeTask hmem, if_pos rfl] at hsame
  have hstored := (World.stored_eq_some_iff hv.distinct).mpr ⟨hmem, rfl⟩
  rw [hstored] at hsame
  cases hsame

end Lookup

/-- For every string: the lookups return only the task with that ID, and the deletes leave
every other task alone, alone or among others, exactly if the subject made from the string
matches the subject of no other valid ID. -/
theorem lookup_by_id_exact (id : String) :
    (LoadsOnly id ↔ NamesOnlyItself id) ∧ (ClientLoadsOnly id ↔ NamesOnlyItself id) ∧
    (DeletesOnly id ↔ NamesOnlyItself id) ∧ (DeletesOnlyAmongOthers id ↔ NamesOnlyItself id) := by
  rw [namesOnlyItself_iff]
  cases hid : World.isWildcard id with
  | false =>
    simp only [iff_true]
    exact ⟨loadsOnly hid, clientLoadsOnly hid, deletesOnly hid, deletesOnlyAmongOthers hid⟩
  | true =>
    simp only [Bool.true_eq_false, iff_false]
    exact ⟨not_loadsOnly hid, not_clientLoadsOnly hid, not_deletesOnly hid,
      not_deletesOnlyAmongOthers hid⟩

/-- A task is stored; somebody loads the task `*` and somebody deletes it. -/
def deleteWildcard : List Action :=
  enqueueSample ++ .load sampleClient "*" :: answered 1 2 ++ .delete "*" :: answered 2 3

/-- Both get the stored task, and the second removes it. -/
theorem wildcard_deletes_other_task :
    ∃ cfg, (Config.init 0).run deleteWildcard = some cfg ∧
      Event.passed 3 4 ⟨{ sampleTask with queue := "EMAIL" }, some 1⟩ ∈ cfg.world.log ∧
      Event.deleted 5 ⟨1, { sampleTask with queue := "EMAIL" }⟩ ∈ cfg.world.log ∧
      cfg.world.stored "T1" = none := by
  have hrun : ((Config.init 0).run deleteWildcard).any (fun cfg =>
      decide (Event.passed 3 4 ⟨{ sampleTask with queue := "EMAIL" }, some 1⟩ ∈ cfg.world.log ∧
        Event.deleted 5 ⟨1, { sampleTask with queue := "EMAIL" }⟩ ∈ cfg.world.log ∧
        cfg.world.stored "T1" = none)) = true := by decide +kernel
  obtain ⟨cfg, hcfg, htest⟩ := (Option.any_eq_true _ _).mp hrun
  exact ⟨cfg, hcfg, of_decide_eq_true htest⟩

end AsyncJobs
