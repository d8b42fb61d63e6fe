import AsyncJobs.Model.Scheduler
import AsyncJobs.Interaction.Run
import AsyncJobs.Interaction.Subject

/-!
# Listing the schedules

`ScheduledTasks` watches the configuration bucket under a context that ends five seconds
after the call or with the context of the caller, and collects what it receives until the
nil that marks the end of the snapshot. Both ends of the watch context lead to the same
case of its `select`, which returns the error of the caller's context: when only the five
seconds are over that error is nil.

The watch delivers the latest entry of every key that matches and then the nil.
-/

namespace AsyncJobs

open Interaction

def BucketEntry.key : BucketEntry → String
  | put key _ | delete key | purge key => key

def BucketEntry.decode : BucketEntry → Option ScheduledTask
  | put _ value => value.unmarshal.toOption
  | delete _ | purge _ => none

/-- What `Watch` returns for a snapshot: an error, or its entries and the nil. -/
def watchSnapshot (failure : Option Error) (entries : List BucketEntry) :
    Except Error (List (Option BucketEntry)) :=
  match failure with
  | some err => .error err
  | none => .ok (entries.map some ++ [none])

/-- `result` is the returned list and error; `updates` are yet to be received. -/
structure ScheduleListing where
  updates : List (Option BucketEntry) := []
  tasks : List ScheduledTask := []
  ctx : Option ContextEnd := none
  wctxDone : Bool := false
  result : Option (List ScheduledTask × Option Error) := none

/-- The `select` receives from the watch or sees the end of the watch context; the five
seconds pass and the caller's context ends at any time. -/
inductive ListingEvent where
  | receive
  | done
  | timeout
  | cancel (reason : ContextEnd)

namespace ScheduleListing

/-- The checks of `ScheduledTasks` in front of its loop. -/
def start (prepared : Bool) (watch : Except Error (List (Option BucketEntry))) :
    ScheduleListing :=
  if !prepared then
    { result := some ([],
        some (Sentinel.storageNotReady.error.wrap ": scheduled storage not prepared")) }
  else
    match watch with
    | .error err => { result := some ([], some err) }
    | .ok updates => { updates }

def step (s : ScheduleListing) : ListingEvent → Option ScheduleListing
  | .receive =>
    if s.result.isSome then none
    else
      match s.updates with
      | [] => none
      | none :: updates => some { s with updates, result := some (s.tasks, none) }
      | some entry :: updates => some { s with updates, tasks := s.tasks ++ entry.decode.toList }
  | .done =>
    if s.result.isSome ∨ !s.wctxDone then none
    else some { s with result := some ([], s.ctx.map ContextEnd.error) }
  | .timeout => some { s with wctxDone := true }
  | .cancel reason => some { s with ctx := s.ctx.or (some reason), wctxDone := true }

/-- The end of the watch context is seen only after the caller's context ended. -/
def untimed (s : ScheduleListing) : ListingEvent → Bool
  | .done => s.ctx.isSome
  | _ => true

def runWhile (meets : ScheduleListing → ListingEvent → Bool) (s : ScheduleListing)
    (events : List ListingEvent) : Option ScheduleListing :=
  Interaction.runWhile step meets s events

/-- What is received before the end of the snapshot, and what a nil error comes with. -/
structure Collects (entries : List BucketEntry) (s : ScheduleListing) : Prop where
  rest : s.result = none → ∃ rest : List BucketEntry, s.updates = rest.map some ++ [none] ∧
    s.tasks ++ rest.filterMap BucketEntry.decode = entries.filterMap BucketEntry.decode
  complete : ∀ tasks, s.result = some (tasks, none) →
    tasks = entries.filterMap BucketEntry.decode

variable {entries : List BucketEntry} {s s' : ScheduleListing} {event : ListingEvent}

theorem Collects.start (prepared : Bool) (failure : Option Error) (entries : List BucketEntry) :
    (start prepared (watchSnapshot failure entries)).Collects entries := by
  unfold ScheduleListing.start
  split_ifs
  · exact ⟨nofun, nofun⟩
  · cases failure with
    | some err => exact ⟨nofun, nofun⟩
    | none => exact ⟨fun _ => ⟨entries, rfl, rfl⟩, nofun⟩

theorem Collects.step (hs : s.Collects entries) (hmeets : s.untimed event = true)
    (h : s.step event = some s') : s'.Collects entries := by
  cases event with
  | receive =>
    simp only [ScheduleListing.step] at h
    split_ifs at h with hresult
    obtain ⟨rest, hupdates, htasks⟩ := hs.rest (by simpa using hresult)
    cases rest with
    | nil =>
      rw [hupdates] at h
      cases h
      refine ⟨nofun, ?_⟩
      rintro tasks ⟨⟩
      simpa using htasks
    | cons entry rest =>
      rw [hupdates] at h
      cases h
      refine ⟨fun _ => ⟨rest, rfl, ?_⟩, ?_⟩
      · rw [← htasks, List.filterMap_cons]
        cases entry.decode <;> simp
      · intro tasks hnone
        rw [show s.result = none by simpa using hresult] at hnone
        cases hnone
  | done =>
    simp only [ScheduleListing.step] at h
    split_ifs at h
    cases h
    refine ⟨nofun, ?_⟩
    intro tasks hresult
    obtain ⟨reason, hreason⟩ := Option.isSome_iff_exists.mp hmeets
    rw [hreason] at hresult
    cases hresult
  | timeout =>
    cases h
    exact ⟨hs.rest, hs.complete⟩
  | cancel reason =>
    cases h
    exact ⟨hs.rest, hs.complete⟩

end ScheduleListing

/-- `scheduled_tasks.*`. -/
def scheduleKeys : String := "scheduled_tasks.*"

/-- The latest entries of the keys that match, in any order: the live ones are what the
bucket holds. -/
structure ConfigBucket.Snapshot (b : ConfigBucket) (entries : List BucketEntry) : Prop where
  keys : (entries.map BucketEntry.key).Nodup
  live : ∀ key value, BucketEntry.put key value ∈ entries ↔
    subjectMatches scheduleKeys key = true ∧ b.lookup key = some value

/-- The schedules that the bucket holds and that can be decoded. -/
def ConfigBucket.schedules (b : ConfigBucket) : List ScheduledTask :=
  (b.entries.filter fun e => subjectMatches scheduleKeys e.1).filterMap fun e =>
    e.2.unmarshal.toOption

namespace ConfigBucket

variable {b : ConfigBucket} {entries : List BucketEntry}

def document : BucketEntry → Option (Sigma fun _ : String => ScheduleDocument)
  | .put key value => some ⟨key, value⟩
  | .delete _ | .purge _ => none

theorem document_eq_some {entry : BucketEntry} {d : Sigma fun _ : String => ScheduleDocument} :
    document entry = some d ↔ entry = .put d.1 d.2 := by
  cases entry with
  | put key value =>
    simp only [document, Option.some.injEq, BucketEntry.put.injEq]
    constructor
    · rintro rfl
      exact ⟨rfl, rfl⟩
    · rintro ⟨rfl, rfl⟩
      rfl
  | delete key => simp [document]
  | purge key => simp [document]

theorem Snapshot.documents_nodup (h : b.Snapshot entries) : (entries.filterMap document).Nodup := by
  have hkeys := List.Nodup.of_map _ h.keys
  apply hkeys.filterMap
  intro e e' d hd hd'
  rw [Option.mem_def, document_eq_some] at hd hd'
  rw [hd, hd']

theorem Snapshot.documents_perm (h : b.Snapshot entries) :
    (entries.filterMap document).Perm
      (b.entries.filter fun e => subjectMatches scheduleKeys e.1) := by
  have hbucket : (b.entries.filter fun e => subjectMatches scheduleKeys e.1).Nodup :=
    (List.NodupKeys.nodup b.nodupKeys).filter _
  rw [List.perm_ext_iff_of_nodup h.documents_nodup hbucket]
  rintro ⟨key, value⟩
  rw [List.mem_filterMap, List.mem_filter, ← AList.mem_lookup_iff, Option.mem_def, and_comm,
    ← h.live]
  constructor
  · rintro ⟨entry, hentry, hdocument⟩
    rw [document_eq_some] at hdocument
    exact hdocument ▸ hentry
  · intro hentry
    exact ⟨_, hentry, rfl⟩

theorem decode_eq (entry : BucketEntry) :
    entry.decode = (document entry).bind fun d => d.2.unmarshal.toOption := by
  cases entry <;> rfl

/-- What the loop keeps of a snapshot are the schedules of the bucket, each once. -/
theorem Snapshot.decoded_perm (h : b.Snapshot entries) :
    (entries.filterMap BucketEntry.decode).Perm b.schedules := by
  have hdecode : entries.filterMap BucketEntry.decode =
      (entries.filterMap document).filterMap fun d => d.2.unmarshal.toOption := by
    rw [List.filterMap_filterMap]
    exact List.filterMap_congr fun entry _ => decode_eq entry
  rw [hdecode]
  exact h.documents_perm.filterMap _

end ConfigBucket

/-- Whatever order the entries, the five seconds and the end of the caller's context come in:
unless the call gives up for its own timeout alone, a nil error comes with all schedules of
the bucket that can be decoded, each once. -/
theorem scheduledTasks_complete (b : ConfigBucket) (entries : List BucketEntry)
    (hentries : b.Snapshot entries) (prepared : Bool) (failure : Option Error)
    (events : List ListingEvent) (s : ScheduleListing) (tasks : List ScheduledTask)
    (hrun : (ScheduleListing.start prepared (watchSnapshot failure entries)).runWhile
      ScheduleListing.untimed events = some s)
    (hresult : s.result = some (tasks, none)) : tasks.Perm b.schedules := by
  have hs : s.Collects entries :=
    runWhile_induction ScheduleListing.Collects.step events
      (ScheduleListing.Collects.start prepared failure entries) hrun
  rw [hs.complete tasks hresult]
  exact hentries.decoded_perm

theorem configKey_matches {name : String} (h : '.' ∉ name.toList) :
    subjectMatches scheduleKeys (configKey name) = true := by
  have hstem : ∀ t ∈ tokens "scheduled_tasks", t ≠ ['>'] := by decide
  have hkeys : scheduleKeys = "scheduled_tasks" ++ "." ++ "*" := rfl
  have hkey : configKey name = "scheduled_tasks" ++ "." ++ name := rfl
  rw [hkeys, hkey, subjectMatches_iff hstem h]
  exact .inr (.inl rfl)

def dailyReport : ScheduledTask where
  name := "daily"
  schedule := "@daily"
  queue := "EMAIL"
  taskType := "report:new"
  maxTries := 10
  createdAt := 0

def dailyBucket : ConfigBucket := (∅ : ConfigBucket).insert (configKey "daily") dailyReport.marshal

def dailyEntries : List BucketEntry := [.put (configKey "daily") dailyReport.marshal]

theorem dailyEntries_snapshot : dailyBucket.Snapshot dailyEntries := by
  refine ⟨List.nodup_singleton _, ?_⟩
  intro key value
  rw [dailyEntries, List.mem_singleton, BucketEntry.put.injEq]
  by_cases hkey : key = configKey "daily"
  · subst hkey
    rw [dailyBucket, AList.lookup_insert, Option.some.injEq, configKey_matches (by decide)]
    simp [eq_comm]
  · rw [dailyBucket, AList.lookup_insert_ne hkey]
    simp [hkey]

theorem dailyBucket_schedules : dailyBucket.schedules = [dailyReport] := by
  have hentries : dailyBucket.entries = [⟨configKey "daily", dailyReport.marshal⟩] := rfl
  simp [ConfigBucket.schedules, hentries, configKey_matches (show '.' ∉ "daily".toList by decide),
    dailyReport.unmarshal_marshal, Except.toOption]

theorem scheduledTasks_daily :
    ∃ s tasks, (ScheduleListing.start true (watchSnapshot none dailyEntries)).runWhile
        ScheduleListing.untimed [.receive, .timeout, .receive] = some s ∧
      s.result = some (tasks, none) ∧ tasks.Perm dailyBucket.schedules := by
  refine ⟨_, _, rfl, rfl, ?_⟩
  exact scheduledTasks_complete dailyBucket dailyEntries dailyEntries_snapshot true none
    [.receive, .timeout, .receive] _ _ rfl rfl

/-- The five seconds are over before the first entry arrives: the call returns no schedule
and no error. -/
theorem scheduledTasks_timeout_unreported :
    ∃ s, dailyBucket.Snapshot dailyEntries ∧
      (ScheduleListing.start true (watchSnapshot none dailyEntries)).runWhile
        (fun _ _ => true) [.timeout, .done] = some s ∧
      s.ctx = none ∧ s.result = some ([], none) ∧ dailyBucket.schedules = [dailyReport] :=
  ⟨_, dailyEntries_snapshot, rfl, rfl, rfl, dailyBucket_schedules⟩

end AsyncJobs
