import AsyncJobs.Model.Scheduler
import Mathlib.Data.Finset.Card

/-!
# The cron table under the watch

The scheduler follows the bucket entry by entry. A put adds a cron entry but leaves the one
it replaces, and a delete removes the cron entry but keeps the name. For each name the table
is therefore determined by the entries of that name: it holds the last put, if nothing
followed it, and every put that was directly followed by another one.
-/

namespace AsyncJobs

variable {σ : Type}

def ScheduleWatchEntry.put? (e : ScheduleWatchEntry) : Option ScheduledTask :=
  if e.delete then none else e.task

/-- A marker, a delete or a put of a schedule that cron accepts. -/
def acceptable (parse : String → Except Error σ) : Option ScheduleWatchEntry → Prop
  | none => True
  | some e => e.delete = true ∨ ∃ task schedule, e.task = some task ∧
      parse task.schedule = .ok schedule

def entriesOf (name : String) (es : List (Option ScheduleWatchEntry)) :
    List ScheduleWatchEntry :=
  (es.filterMap id).filter fun e => e.name = name

/-- The schedule of the name, if its last entry was a put. -/
def lastPut (history : List ScheduleWatchEntry) : Option ScheduledTask :=
  history.getLast?.bind ScheduleWatchEntry.put?

def liveNames (es : List (Option ScheduleWatchEntry)) : List String :=
  ((es.filterMap id).map (·.name)).dedup.filter fun name => (lastPut (entriesOf name es)).isSome

/-- How many puts were directly followed by a put of the same name. -/
def replacements : List ScheduleWatchEntry → Nat
  | a :: b :: rest =>
    (if a.put?.isSome ∧ b.put?.isSome then 1 else 0) + replacements (b :: rest)
  | _ => 0

def Cron.entriesFor (c : Cron σ) (job : String) : List (CronEntry σ) :=
  c.entries.filter fun e => e.job = job

namespace TaskScheduler

def handleEntries (parse : String → Except Error σ) (s : TaskScheduler σ)
    (es : List (Option ScheduleWatchEntry)) : TaskScheduler σ :=
  es.foldl (fun s e => s.handleEntry parse e) s

/-- The table holds one entry for each live name, on the schedule of its last put, and
nothing else, and the number of schedules is that of the live names. -/
def InStep (parse : String → Except Error σ) (s : TaskScheduler σ)
    (es : List (Option ScheduleWatchEntry)) : Prop :=
  (∀ name,
    match lastPut (entriesOf name es) with
    | some task => ∃ e, s.cron.entriesFor name = [e] ∧ parse task.schedule = .ok e.schedule
    | none => s.cron.entriesFor name = []) ∧
  s.count = (liveNames es).length

end TaskScheduler

/-- No put replaces a put, and nothing that was put is gone in the end. -/
def Lasting (history : List ScheduleWatchEntry) : Prop :=
  replacements history = 0 ∧ ((lastPut history).isSome ∨ ∀ e ∈ history, e.put? = none)

theorem lastPut_concat (history : List ScheduleWatchEntry) (e : ScheduleWatchEntry) :
    lastPut (history ++ [e]) = e.put? := by
  simp [lastPut]

theorem replacements_concat (history : List ScheduleWatchEntry) (e : ScheduleWatchEntry) :
    replacements (history ++ [e]) = replacements history +
      if (lastPut history).isSome ∧ e.put?.isSome then 1 else 0 := by
  induction history with
  | nil => simp [replacements, lastPut]
  | cons a history ih =>
    cases history with
    | nil =>
      by_cases h : a.put?.isSome = true ∧ e.put?.isSome = true <;>
        simp [replacements, lastPut, h]
    | cons b rest =>
      have hlast : lastPut (a :: b :: rest) = lastPut (b :: rest) := by simp [lastPut]
      rw [hlast]
      simp only [List.cons_append, replacements] at ih ⊢
      omega

namespace TaskScheduler

variable {parse : String → Except Error σ} {s : TaskScheduler σ}
  {es : List (Option ScheduleWatchEntry)}

/-- Identifiers are used once, and the one kept with a name is that of its own entry. -/
structure Numbered (s : TaskScheduler σ) : Prop where
  nodup : (s.cron.entries.map (·.id)).Nodup
  given : ∀ e ∈ s.cron.entries, e.id ≤ s.cron.nextID
  registered : ∀ name r, s.tasks.lookup name = some r → r.cronID ≤ s.cron.nextID
  own : ∀ name r, s.tasks.lookup name = some r → ∀ e ∈ s.cron.entries, e.id = r.cronID →
    e.job = name

structure Row (parse : String → Except Error σ) (s : TaskScheduler σ) (name : String)
    (history : List ScheduleWatchEntry) : Prop where
  live : ∀ task, lastPut history = some task → ∃ rest e,
    s.cron.entriesFor name = rest ++ [e] ∧ rest.length = replacements history ∧
      parse task.schedule = .ok e.schedule ∧ s.tasks.lookup name = some ⟨task, e.id⟩
  gone : lastPut history = none → (s.cron.entriesFor name).length = replacements history ∧
    ∀ r, s.tasks.lookup name = some r → ∀ e ∈ s.cron.entries, e.id ≠ r.cronID
  known : name ∈ s.tasks ↔ ∃ e ∈ history, e.put?.isSome

theorem Numbered.initial (l : Bool) : ({ leader := l } : TaskScheduler σ).Numbered := by
  constructor <;> simp

theorem Row.initial (l : Bool) (name : String) :
    Row parse ({ leader := l } : TaskScheduler σ) name [] := by
  constructor <;> simp [lastPut, Cron.entriesFor, replacements]

def register (s : TaskScheduler σ) (name : String) (task : ScheduledTask) (schedule : σ) :
    TaskScheduler σ :=
  { s with
    cron := ⟨s.cron.entries ++ [⟨s.cron.nextID + 1, schedule, name⟩], s.cron.nextID + 1⟩
    tasks := s.tasks.insert name ⟨task, s.cron.nextID + 1⟩ }

theorem handleEntry_put {e : ScheduleWatchEntry} {task : ScheduledTask} {schedule : σ}
    (hput : e.put? = some task) (hparse : parse task.schedule = .ok schedule) :
    s.handleEntry parse (some e) = s.register e.name task schedule := by
  unfold ScheduleWatchEntry.put? at hput
  split_ifs at hput with hdelete
  simp [handleEntry, hdelete, hput, Cron.addFunc, hparse, register]

theorem handleEntry_delete {e : ScheduleWatchEntry} (hdelete : e.delete = true) :
    s.handleEntry parse (some e) = s.deleteItem e.name := by
  simp [handleEntry, hdelete]

variable {name job : String} {task : ScheduledTask} {schedule : σ}
  {history : List ScheduleWatchEntry}

theorem Numbered.register (h : s.Numbered) : (s.register name task schedule).Numbered := by
  constructor
  · simp only [TaskScheduler.register, List.map_append, List.map_cons, List.map_nil]
    apply h.nodup.append (List.nodup_singleton _)
    intro id hid hnew
    simp only [List.mem_singleton] at hnew
    obtain ⟨e, he, heq⟩ := List.mem_map.mp hid
    have hle := h.given e he
    omega
  · intro e he
    simp only [TaskScheduler.register, List.mem_append, List.mem_singleton] at he ⊢
    rcases he with he | he
    · have hle := h.given e he
      omega
    · simp [he]
  · intro other r hr
    by_cases hname : other = name
    · subst hname
      simp only [TaskScheduler.register, AList.lookup_insert, Option.some.injEq] at hr
      simp [TaskScheduler.register, ← hr]
    · simp only [TaskScheduler.register, AList.lookup_insert_ne hname] at hr ⊢
      have hle := h.registered other r hr
      omega
  · intro other r hr e he hid
    simp only [TaskScheduler.register, List.mem_append, List.mem_singleton] at he
    by_cases hname : other = name
    · subst hname
      simp only [TaskScheduler.register, AList.lookup_insert, Option.some.injEq] at hr
      rcases he with he | he
      · have hle := h.given e he
        simp only [← hr] at hid
        omega
      · simp [he]
    · simp only [TaskScheduler.register, AList.lookup_insert_ne hname] at hr
      have hle := h.registered other r hr
      rcases he with he | he
      · exact h.own other r hr e he hid
      · simp only [he] at hid
        omega

theorem entriesFor_register :
    (s.register name task schedule).cron.entriesFor job =
      s.cron.entriesFor job ++
        if name = job then [⟨s.cron.nextID + 1, schedule, name⟩] else [] := by
  by_cases hjob : name = job <;> simp [register, Cron.entriesFor, hjob]

/-- A put of the name itself. The entry it replaces, if there is one, stays. -/
theorem Row.register_self (h : Row parse s name history) {e : ScheduleWatchEntry}
    (hput : e.put? = some task) (hparse : parse task.schedule = .ok schedule) :
    Row parse (s.register name task schedule) name (history ++ [e]) := by
  constructor
  · intro last hlast
    rw [lastPut_concat, hput, Option.some.injEq] at hlast
    subst hlast
    refine ⟨s.cron.entriesFor name, ⟨s.cron.nextID + 1, schedule, name⟩, ?_, ?_, hparse, ?_⟩
    · simp [entriesFor_register]
    · rw [replacements_concat, hput]
      cases hbefore : lastPut history with
      | none => simpa using (h.gone hbefore).1
      | some old =>
        obtain ⟨rest, last, hrow, hlength, -⟩ := h.live old hbefore
        simp [hrow, hlength]
    · simp [TaskScheduler.register]
  · intro hlast
    rw [lastPut_concat, hput] at hlast
    cases hlast
  · simp [TaskScheduler.register, hput]

theorem Row.register_other (h : Row parse s job history) (hs : s.Numbered) (hne : job ≠ name) :
    Row parse (s.register name task schedule) job history := by
  have hsame : (s.register name task schedule).cron.entriesFor job = s.cron.entriesFor job := by
    simp [entriesFor_register, Ne.symm hne]
  have hlookup : (s.register name task schedule).tasks.lookup job = s.tasks.lookup job := by
    simp [TaskScheduler.register, AList.lookup_insert_ne hne]
  constructor
  · rw [hsame, hlookup]
    exact h.live
  · intro hlast
    obtain ⟨hlength, hfree⟩ := h.gone hlast
    rw [hsame, hlookup]
    refine ⟨hlength, ?_⟩
    intro r hr e he
    simp only [TaskScheduler.register, List.mem_append, List.mem_singleton] at he
    rcases he with he | he
    · exact hfree r hr e he
    · have hle := hs.registered job r hr
      simp only [he]
      omega
  · rw [← h.known]
    simp [TaskScheduler.register, AList.mem_insert, hne]

theorem entriesFor_remove (c : Cron σ) (id : Nat) (job : String) :
    (c.remove id).entriesFor job = (c.entriesFor job).filter fun e => e.id ≠ id :=
  List.filter_comm _ _ _

theorem filter_last {rest : List (CronEntry σ)} {last : CronEntry σ}
    (h : ((rest ++ [last]).map (·.id)).Nodup) :
    (rest ++ [last]).filter (fun e => e.id ≠ last.id) = rest := by
  have hkept : ∀ e ∈ rest, e.id ≠ last.id := by
    intro e he
    rw [List.map_append, List.nodup_append] at h
    exact h.2.2 e.id (List.mem_map_of_mem he) last.id (by simp)
  rw [List.filter_append, List.filter_eq_self.mpr (by simpa using hkept)]
  simp

theorem deleteItem_tasks : (s.deleteItem name).tasks = s.tasks := by
  unfold deleteItem
  split <;> rfl

theorem deleteItem_none (hname : s.tasks.lookup name = none) : s.deleteItem name = s := by
  simp [deleteItem, hname]

theorem deleteItem_some {r : RegisteredTask} (hname : s.tasks.lookup name = some r) :
    s.deleteItem name = { s with cron := s.cron.remove r.cronID } := by
  simp [deleteItem, hname]

theorem Numbered.deleteItem (h : s.Numbered) : (s.deleteItem name).Numbered := by
  cases hname : s.tasks.lookup name with
  | none =>
    rw [deleteItem_none hname]
    exact h
  | some r =>
    rw [deleteItem_some hname]
    constructor
    · exact (List.filter_sublist.map _).nodup h.nodup
    · intro e he
      exact h.given e (List.mem_of_mem_filter he)
    · exact h.registered
    · intro other r' hr e he
      exact h.own other r' hr e (List.mem_of_mem_filter he)

/-- A delete of the name itself. Without an entry of that identifier it changes nothing. -/
theorem Row.deleteItem_self (h : Row parse s name history) (hs : s.Numbered)
    {e : ScheduleWatchEntry} (hdelete : e.put? = none) :
    Row parse (s.deleteItem name) name (history ++ [e]) := by
  have hcount : replacements (history ++ [e]) = replacements history := by
    simp [replacements_concat, hdelete]
  have hknown : name ∈ (s.deleteItem name).tasks ↔ ∃ x ∈ history ++ [e], x.put?.isSome := by
    rw [deleteItem_tasks, h.known]
    simp [hdelete]
  constructor
  · intro task hlast
    rw [lastPut_concat, hdelete] at hlast
    cases hlast
  · intro _
    rw [hcount]
    cases hbefore : lastPut history with
    | none =>
      obtain ⟨hlength, hfree⟩ := h.gone hbefore
      cases hname : s.tasks.lookup name with
      | none =>
        rw [deleteItem_none hname]
        exact ⟨hlength, hfree⟩
      | some r =>
        have hsame : (s.cron.remove r.cronID).entries = s.cron.entries := by
          apply List.filter_eq_self.mpr
          intro x hx
          simpa using hfree r hname x hx
        rw [deleteItem_some hname]
        simp only [Cron.entriesFor, hsame]
        exact ⟨hlength, hfree⟩
    | some task =>
      obtain ⟨rest, last, hrow, hlength, -, hlookup⟩ := h.live task hbefore
      have hdistinct : ((rest ++ [last]).map (·.id)).Nodup := by
        rw [← hrow]
        exact (List.filter_sublist.map _).nodup hs.nodup
      have hrest : (s.cron.remove last.id).entriesFor name = rest := by
        rw [entriesFor_remove, hrow, filter_last hdistinct]
      rw [deleteItem_some hlookup]
      refine ⟨by rw [hrest, hlength], ?_⟩
      intro r hr x hx
      simp only [hlookup, Option.some.injEq] at hr
      simpa [← hr] using (List.mem_filter.mp hx).2
  · exact hknown

theorem Row.deleteItem_other (h : Row parse s job history) (hs : s.Numbered) (hne : job ≠ name) :
    Row parse (s.deleteItem name) job history := by
  cases hname : s.tasks.lookup name with
  | none =>
    rw [deleteItem_none hname]
    exact h
  | some r =>
    have hsame : (s.cron.remove r.cronID).entriesFor job = s.cron.entriesFor job := by
      rw [entriesFor_remove]
      apply List.filter_eq_self.mpr
      intro e he
      obtain ⟨hmem, hjob⟩ := List.mem_filter.mp he
      simp only [decide_eq_true_eq] at hjob ⊢
      intro hid
      exact hne (hjob.symm.trans (hs.own name r hname e hmem hid))
    rw [deleteItem_some hname]
    constructor
    · simpa only [hsame] using h.live
    · intro hlast
      obtain ⟨hlength, hfree⟩ := h.gone hlast
      refine ⟨by simpa only [hsame] using hlength, ?_⟩
      intro r' hr e he
      exact hfree r' hr e (List.mem_of_mem_filter he)
    · exact h.known

theorem rows_step (hs : s.Numbered) (h : ∀ name, Row parse s name (entriesOf name es))
    {e : Option ScheduleWatchEntry} (he : acceptable parse e) :
    (s.handleEntry parse e).Numbered ∧
      ∀ name, Row parse (s.handleEntry parse e) name (entriesOf name (es ++ [e])) := by
  cases e with
  | none =>
    refine ⟨hs, ?_⟩
    intro name
    have hsame : entriesOf name (es ++ [none]) = entriesOf name es := by simp [entriesOf]
    rw [hsame]
    exact h name
  | some e =>
    have hself : entriesOf e.name (es ++ [some e]) = entriesOf e.name es ++ [e] := by
      simp [entriesOf]
    have hother : ∀ name, name ≠ e.name → entriesOf name (es ++ [some e]) = entriesOf name es := by
      intro name hne
      simp [entriesOf, Ne.symm hne]
    cases hdelete : e.delete with
    | true =>
      have hput : e.put? = none := by simp [ScheduleWatchEntry.put?, hdelete]
      rw [handleEntry_delete hdelete]
      refine ⟨hs.deleteItem, ?_⟩
      intro name
      by_cases hname : name = e.name
      · subst hname
        rw [hself]
        exact (h e.name).deleteItem_self hs hput
      · rw [hother name hname]
        exact (h name).deleteItem_other hs hname
    | false =>
      obtain ⟨task, schedule, htask, hparse⟩ : ∃ task schedule, e.task = some task ∧
          parse task.schedule = .ok schedule := by
        simpa [acceptable, hdelete] using he
      have hput : e.put? = some task := by simp [ScheduleWatchEntry.put?, hdelete, htask]
      rw [handleEntry_put hput hparse]
      refine ⟨hs.register, ?_⟩
      intro name
      by_cases hname : name = e.name
      · subst hname
        rw [hself]
        exact (h e.name).register_self hput hparse
      · rw [hother name hname]
        exact (h name).register_other hs hname

theorem rows (parse : String → Except Error σ) (l : Bool)
    (es : List (Option ScheduleWatchEntry)) (hes : ∀ e ∈ es, acceptable parse e) :
    (({ leader := l } : TaskScheduler σ).handleEntries parse es).Numbered ∧
      ∀ name, Row parse (({ leader := l } : TaskScheduler σ).handleEntries parse es) name
        (entriesOf name es) := by
  induction es using List.reverseRecOn with
  | nil => exact ⟨Numbered.initial l, Row.initial l⟩
  | append_singleton es e ih =>
    simp only [List.mem_append, List.mem_singleton] at hes
    obtain ⟨hs, h⟩ := ih fun x hx => hes x (Or.inl hx)
    simp only [handleEntries, List.foldl_append, List.foldl_cons, List.foldl_nil]
    exact rows_step hs h (hes e (Or.inr rfl))

/-- The table is right for a name unless one of its puts was replaced. -/
theorem Row.table_iff (h : Row parse s name history) :
    (match lastPut history with
      | some task => ∃ e, s.cron.entriesFor name = [e] ∧ parse task.schedule = .ok e.schedule
      | none => s.cron.entriesFor name = []) ↔ replacements history = 0 := by
  cases hlast : lastPut history with
  | none => rw [← (h.gone hlast).1, List.length_eq_zero_iff]
  | some task =>
    obtain ⟨rest, last, hrow, hlength, hparse, -⟩ := h.live task hlast
    rw [← hlength, List.length_eq_zero_iff, hrow]
    constructor
    · intro hone
      obtain ⟨e, he, -⟩ := hone
      have hsingle := congrArg List.length he
      simpa using hsingle
    · intro hrest
      exact ⟨last, by simp [hrest], hparse⟩

theorem mem_liveNames : name ∈ liveNames es ↔ (lastPut (entriesOf name es)).isSome := by
  simp only [liveNames, List.mem_filter, List.mem_dedup, and_iff_right_iff_imp]
  intro hlast
  obtain ⟨task, htask⟩ := Option.isSome_iff_exists.mp hlast
  obtain ⟨e, he, -⟩ := Option.bind_eq_some_iff.mp htask
  have hmem := List.mem_filter.mp (List.mem_of_getLast? he)
  exact List.mem_map.mpr ⟨e, hmem.1, of_decide_eq_true hmem.2⟩

/-- Names are never dropped, so the count is right unless a schedule is gone. -/
theorem count_iff (h : ∀ name, Row parse s name (entriesOf name es)) :
    s.count = (liveNames es).length ↔ ∀ name, (lastPut (entriesOf name es)).isSome ∨
      ∀ e ∈ entriesOf name es, e.put? = none := by
  have hlive : (liveNames es).Nodup := (List.nodup_dedup _).filter _
  have hput : ∀ name, name ∈ s.tasks.keys ↔ ∃ e ∈ entriesOf name es, e.put?.isSome := by
    intro name
    rw [← AList.mem_keys]
    exact (h name).known
  have hsub : liveNames es ⊆ s.tasks.keys := by
    intro name hname
    obtain ⟨task, htask⟩ := Option.isSome_iff_exists.mp (mem_liveNames.mp hname)
    obtain ⟨e, he, hetask⟩ := Option.bind_eq_some_iff.mp htask
    exact (hput name).mpr ⟨e, List.mem_of_getLast? he, by simp [hetask]⟩
  constructor
  · intro hcount name
    have hperm := (List.subperm_of_subset hlive hsub).perm_of_length_le hcount.le
    by_cases hsome : ∃ e ∈ entriesOf name es, e.put?.isSome
    · exact Or.inl (mem_liveNames.mp (hperm.mem_iff.mpr ((hput name).mpr hsome)))
    · simp only [not_exists, not_and, Bool.not_eq_true, Option.isSome_eq_false_iff,
        Option.isNone_iff_eq_none] at hsome
      exact Or.inr hsome
  · intro hgone
    have hsup : s.tasks.keys ⊆ liveNames es := by
      intro name hname
      obtain ⟨e, he, hesome⟩ := (hput name).mp hname
      rcases hgone name with hlast | hnone
      · exact mem_liveNames.mpr hlast
      · simp [hnone e he] at hesome
    have hperm := (List.perm_ext_iff_of_nodup s.tasks.keys_nodup hlive).mpr
      fun name => ⟨fun hname => hsup hname, fun hname => hsub hname⟩
    exact hperm.length_eq

end TaskScheduler

/-- The table and the count are in step with the bucket exactly if no put ever replaced a
put of the same name and nothing that was put is gone in the end. -/
theorem cron_in_step_iff {σ : Type} (parse : String → Except Error σ) (l : Bool)
    (es : List (Option ScheduleWatchEntry)) (hes : ∀ e ∈ es, acceptable parse e) :
    (({ leader := l } : TaskScheduler σ).handleEntries parse es).InStep parse es ↔
      ∀ name, Lasting (entriesOf name es) := by
  obtain ⟨-, h⟩ := TaskScheduler.rows parse l es hes
  unfold TaskScheduler.InStep
  rw [TaskScheduler.count_iff h]
  constructor
  · intro hstep name
    exact ⟨(h name).table_iff.mp (hstep.1 name), hstep.2 name⟩
  · intro hlasting
    exact ⟨fun name => (h name).table_iff.mpr (hlasting name).1, fun name => (hlasting name).2⟩

/-- A put of the schedule `daily`. -/
def dailyPut (schedule : String) : ScheduleWatchEntry :=
  { name := "daily"
    task := some { name := "daily", schedule, queue := "EMAIL", taskType := "email:new",
                   maxTries := 10, createdAt := 0 } }

def dailyDelete : ScheduleWatchEntry := { name := "daily", delete := true }

/-- A schedule that is deleted before it is put, and stays. -/
theorem cron_in_step_daily :
    (({} : TaskScheduler String).handleEntries .ok
      [some dailyDelete, some (dailyPut "@daily"), none]).InStep .ok
        [some dailyDelete, some (dailyPut "@daily"), none] := by
  apply (cron_in_step_iff .ok false _ _).mpr
  · intro name
    by_cases hname : "daily" = name
    · subst hname
      exact ⟨by decide +kernel, Or.inl (by decide +kernel)⟩
    · simp [Lasting, entriesOf, dailyDelete, dailyPut, hname, replacements]
  · simp [acceptable, dailyDelete, dailyPut]

/-- After an update both schedules are in the table, and a deleted schedule still counts. -/
theorem replaced_and_deleted_schedules_stay :
    ((({} : TaskScheduler String).handleEntries .ok
      [some (dailyPut "@daily"), some (dailyPut "@hourly")]).cron.entriesFor "daily").map
        (·.schedule) = ["@daily", "@hourly"] ∧
    ¬ (({} : TaskScheduler String).handleEntries .ok
      [some (dailyPut "@daily"), some (dailyPut "@hourly")]).InStep .ok
        [some (dailyPut "@daily"), some (dailyPut "@hourly")] ∧
    (({} : TaskScheduler String).handleEntries .ok
      [some (dailyPut "@daily"), some dailyDelete]).count = 1 ∧
    ¬ (({} : TaskScheduler String).handleEntries .ok
      [some (dailyPut "@daily"), some dailyDelete]).InStep .ok
        [some (dailyPut "@daily"), some dailyDelete] := by
  refine ⟨by decide +kernel, ?_, by decide +kernel, ?_⟩
  · intro hstep
    obtain ⟨e, he, -⟩ := hstep.1 "daily"
    have htwo : ((({} : TaskScheduler String).handleEntries .ok
        [some (dailyPut "@daily"), some (dailyPut "@hourly")]).cron.entriesFor
          "daily").length = 2 := by
      decide +kernel
    rw [he] at htwo
    simp at htwo
  · intro hstep
    have hcount := hstep.2
    revert hcount
    decide +kernel

end AsyncJobs
