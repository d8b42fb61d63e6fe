import AsyncJobs.Model.HttpDocuments
import AsyncJobs.Storage.Documents

/-!
# Tasks over HTTP are the stored tasks

A task that was loaded from the store is sent as the `Task` of the specification, unless a time
of it has an offset of a day or more, which has no text. Read with the fields of a library task
it is the same task, except that dependency results without a value are missing. A list and a
stream of the same tasks carry the same.
-/

namespace AsyncJobs

open Record Rfc3339 Numeral

namespace TaskDocument

/-- The task without the dependency results that are nil. -/
def withoutNil (d : TaskDocument) : TaskDocument :=
  { d with dependencyResults := d.dependencyResults.filterMap (Option.map some) }

end TaskDocument

theorem map_unlessEmpty {α : Type} (empty : Bool) (x : α) (f : α → Json Literal) :
    (unlessEmpty empty x).map f = omitIf empty (f x) := by
  cases empty <;> rfl

namespace GenTaskResult

def json (r : GenTaskResult) : Json Literal :=
  .object [member "completed" (some (timeJson r.completed)),
    member "payload" (some (payloadJson r.payload))].flatten

def writable (r : GenTaskResult) : Bool := hasText r.completed && encodes r.payload

theorem marshal_givesIf (r : GenTaskResult) : GivesIf r.writable r.json r.marshal :=
  (marshalTime_givesIf "time.Time" r.completed).bind ((encodes_givesIf r.payload).map _)

theorem writable_toGenTaskResult (r : ResultDocument) :
    (toGenTaskResult r).writable = r.writable := Bool.and_comm ..

theorem decode_json {r : ResultDocument} (h : r.Loaded) (hwritable : r.writable = true) :
    object ResultDocument.fields (written (toGenTaskResult r).json) .zero = some r := by
  have hpayload := anyValue_written r.payload ResultDocument.zero.payload
  rw [h.payload.reload.1, h.payload.reload.2, if_pos rfl] at hpayload
  have htime := timestamp_timeJson (Bool.and_eq_true_iff.mp hwritable).2
  rw [h.completedAt.wholeMinutes] at htime
  have hjson : (toGenTaskResult r).json = .object [member "completed" (some
    (timeJson r.completedAt)), member "payload" (some (payloadJson r.payload))].flatten := rfl
  rw [hjson, written_object, object, assign_some ResultDocument.fields rfl _ (htime _),
    assign_some ResultDocument.fields rfl _ hpayload]
  rfl

theorem decoder_json {r : ResultDocument} (h : r.Loaded) (hwritable : r.writable = true) :
    ResultDocument.decoder (written (toGenTaskResult r).json) none = some (some r) := by
  apply pointer_written
  · intro hnull
    cases hnull
  · exact decode_json h hwritable

end GenTaskResult

namespace GenTask

def json (t : GenTask) : Json Literal :=
  .object (t.members (timeJson t.created) (t.deadline.map timeJson)
    (t.dependencyResults.map fun entries => entries.list.map fun e => (e.1, e.2.json))
    (t.result.map GenTaskResult.json) (t.tried.map timeJson)).flatten

/-- Every time of the task has a text and every payload of a result can be encoded. -/
def writable (t : GenTask) : Bool :=
  hasText t.created && (t.deadline.all hasText &&
    ((t.dependencyResults.all fun entries => entries.list.all fun e => e.2.writable) &&
      (t.result.all GenTaskResult.writable && t.tried.all hasText)))

theorem marshal_givesIf (t : GenTask) : GivesIf t.writable t.json t.marshal := by
  apply (marshalTime_givesIf "time.Time" t.created).bind
  apply (GivesIf.option (marshalTime_givesIf "*time.Time") t.deadline).bind
  have hresults := GivesIf.option (fun entries : Entries GenTaskResult =>
    GivesIf.list (fun e : String × GenTaskResult => e.2.marshal_givesIf.map fun v => (e.1, v))
      entries.list) t.dependencyResults
  apply hresults.bind
  apply (GivesIf.option GenTaskResult.marshal_givesIf t.result).bind
  exact (GivesIf.option (marshalTime_givesIf "*time.Time") t.tried).map _

end GenTask

section Conversion

variable {d : TaskDocument}

theorem writable_genResults :
    ((toGenTask d).dependencyResults.all fun entries => entries.list.all fun e => e.2.writable) =
      d.dependencyResults.list.all fun e => e.2.all ResultDocument.writable := by
  have hmap : (d.dependencyResults.filterMap (Option.map toGenTaskResult)).list.all
      (fun e => e.2.writable) =
      d.dependencyResults.list.all fun e => e.2.all ResultDocument.writable := by
    show List.all (List.filterMap _ _) _ = _
    rw [List.all_filterMap]
    congr 1
    funext e
    cases e.2 with
    | none => rfl
    | some r => exact GenTaskResult.writable_toGenTaskResult r
  rw [← hmap]
  simp only [toGenTask, unlessEmpty]
  split_ifs with hempty
  · rw [List.isEmpty_iff] at hempty
    show true = List.all (List.filterMap _ d.dependencyResults.list) _
    rw [hempty]
    rfl
  · rfl

theorem writable_toGenTask : (toGenTask d).writable = d.writable := by
  have hresult : (toGenTask d).result.all GenTaskResult.writable =
      d.result.all ResultDocument.writable := by
    cases hr : d.result with
    | none => simp [toGenTask, hr]
    | some r =>
      simp only [toGenTask, hr, Option.map_some, Option.all_some]
      exact GenTaskResult.writable_toGenTaskResult r
  have hcreated : (toGenTask d).created = d.createdAt := rfl
  have hdeadline : (toGenTask d).deadline = d.deadline := rfl
  have htried : (toGenTask d).tried = d.lastTriedAt := rfl
  rw [GenTask.writable, writable_genResults, hresult, hcreated, hdeadline, htried,
    TaskDocument.writable]
  generalize (d.dependencyResults.list.all fun e => e.2.all ResultDocument.writable) = results
  generalize hasText d.createdAt = created
  cases results <;> cases created <;> simp

variable (h : d.Loaded) (hwritable : d.writable = true)

theorem marshal_toGenTask (hwritable : d.writable = true) :
    (toGenTask d).marshal = .ok (toGenTask d).json := by
  have hgives := (toGenTask d).marshal_givesIf
  rw [writable_toGenTask, hwritable] at hgives
  exact hgives

include h hwritable

theorem loaded_of_mem_genResults {x : String × GenTaskResult}
    (hx : x ∈ (d.dependencyResults.filterMap (Option.map toGenTaskResult)).list) :
    ∃ r : ResultDocument, r.Loaded ∧ r.writable = true ∧ x.2 = toGenTaskResult r := by
  simp only [TaskDocument.writable, Bool.and_eq_true, List.all_eq_true] at hwritable
  obtain ⟨e, he, hx⟩ := List.mem_filterMap.mp hx
  obtain ⟨_, hsome, rfl⟩ := Option.map_eq_some_iff.mp hx
  obtain ⟨r, hr, rfl⟩ := Option.map_eq_some_iff.mp hsome
  have hall := hwritable.1 e he
  rw [hr, Option.all_some] at hall
  exact ⟨r, h.dependencyResults e he r hr, hall, rfl⟩

theorem map_genResults :
    map none ResultDocument.decoder (written (.object
        ((d.dependencyResults.filterMap (Option.map toGenTaskResult)).list.map
          fun e => (e.1, e.2.json)))) .empty = some d.withoutNil.dependencyResults := by
  have hdecode : ∀ x ∈ (d.dependencyResults.filterMap (Option.map toGenTaskResult)).list,
      ResultDocument.decoder (written x.2.json) none =
        if true then some (some ⟨x.2.payload, x.2.completed⟩) else none := by
    intro x hx
    obtain ⟨r, hr, hwrites, hx⟩ := loaded_of_mem_genResults h hwritable hx
    rw [hx]
    exact GenTaskResult.decoder_json hr hwrites
  rw [map_written GenTaskResult.json (fun _ => true) (fun r => some ⟨r.payload, r.completed⟩)
    hdecode, if_pos (List.all_eq_true.mpr fun _ _ => rfl)]
  apply congrArg some
  apply Entries.ext
  show List.map _ (List.filterMap _ _) = List.filterMap _ _
  rw [List.map_filterMap]
  apply List.filterMap_congr
  intro e _
  cases e.2 <;> rfl

omit h hwritable in
theorem json_toGenTask : (toGenTask d).json = .object
    [member "created" (some (timeJson d.createdAt)),
      member "deadline" (d.deadline.map timeJson),
      member "dependencies" (omitIf d.dependencies.isEmpty
        (.array (d.dependencies.map .string))),
      member "dependency_results" (omitIf d.dependencyResults.list.isEmpty (.object
        ((d.dependencyResults.filterMap (Option.map toGenTaskResult)).list.map
          fun e => (e.1, e.2.json)))),
      member "id" (some (.string d.id)),
      member "last_err" (omitIf d.lastErr.isEmpty (.string d.lastErr)),
      member "load_dependencies" (omitIf (!d.loadDependencies) (.bool d.loadDependencies)),
      member "max_tries" (omitIf (d.maxTries = 0) (ofInt64 d.maxTries)),
      member "payload" (some (ofBytes d.payload)),
      member "queue" (omitIf d.queue.isEmpty (.string d.queue)),
      member "result" (d.result.map fun r => (toGenTaskResult r).json),
      member "signature" (omitIf d.signature.isEmpty (.string d.signature)),
      member "state" (some (.string d.state)),
      member "tried" (d.lastTriedAt.map timeJson),
      member "tries" (omitIf (d.tries = 0) (ofInt64 d.tries)),
      member "type" (some (.string d.type))].flatten := by
  simp only [GenTask.json, GenTask.members, toGenTask, map_unlessEmpty, Option.map_map]
  rfl

theorem decode_toGenTask :
    object TaskDocument.fields (written (toGenTask d).json) .zero = some d.withoutNil := by
  have hparts := hwritable
  simp only [TaskDocument.writable, Bool.and_eq_true] at hparts
  obtain ⟨-, hdeadline, hresult, hcreated, htried⟩ := hparts
  have hread : ∀ x, (d.result.map fun r => (toGenTaskResult r).json) = some x →
      ResultDocument.decoder (written x) none = some d.result := by
    intro x hx
    cases hr : d.result with
    | none =>
      rw [hr] at hx
      cases hx
    | some r =>
      rw [hr] at hx hresult
      cases hx
      exact GenTaskResult.decoder_json (h.result r hr) hresult
  have hempty : d.dependencyResults.list.isEmpty = true →
      d.withoutNil.dependencyResults = .empty := by
    intro hnil
    apply Entries.ext
    show List.filterMap _ d.dependencyResults.list = []
    rw [List.isEmpty_iff.mp hnil, List.filterMap_nil]
  have hmaxTries : decide (d.maxTries = 0) = true → d.maxTries = 0 := of_decide_eq_true
  have htries : decide (d.tries = 0) = true → d.tries = 0 := of_decide_eq_true
  have htime := timestamp_timeJson hcreated
  have hdeadline' := TaskDocument.pointer_timeJson hdeadline
  have htried' := TaskDocument.pointer_timeJson htried
  rw [h.createdAt.wholeMinutes] at htime
  rw [TaskDocument.map_wholeMinutes h.deadline] at hdeadline'
  rw [TaskDocument.map_wholeMinutes h.lastTriedAt] at htried'
  rw [json_toGenTask, written_object, object, assign_some TaskDocument.fields rfl _ (htime _),
    assign_option TaskDocument.fields rfl _ hdeadline' Option.map_eq_none_iff.mp,
    assign_omitIf TaskDocument.fields rfl _ (strings_written d.dependencies) List.isEmpty_iff.mp,
    assign_omitIf TaskDocument.fields rfl _ (map_genResults h hwritable) hempty,
    assign_some TaskDocument.fields rfl _ rfl,
    assign_omitIf TaskDocument.fields rfl _ rfl String.isEmpty_iff.mp,
    assign_omitIf TaskDocument.fields rfl _ rfl (Bool.not_eq_true' _).mp,
    assign_omitIf TaskDocument.fields rfl _ (int64_written d.maxTries _) hmaxTries,
    assign_some TaskDocument.fields rfl _ (bytes_written d.payload _),
    assign_omitIf TaskDocument.fields rfl _ rfl String.isEmpty_iff.mp,
    assign_option TaskDocument.fields rfl _ hread Option.map_eq_none_iff.mp,
    assign_omitIf TaskDocument.fields rfl _ rfl String.isEmpty_iff.mp,
    assign_some TaskDocument.fields rfl _ rfl,
    assign_option TaskDocument.fields rfl _ htried' Option.map_eq_none_iff.mp,
    assign_omitIf TaskDocument.fields rfl _ (int64_written d.tries _) htries,
    assign_some TaskDocument.fields rfl _ rfl]
  rfl

end Conversion

/-- `GetTask` answers for a task that was loaded from the store with a document that is read as
that task, without the dependency results that are nil, or it fails, because a time of the task
has an offset of a day or more. -/
theorem get_task_sends_the_stored_task {stored : Bytes} {d : TaskDocument}
    (h : TaskDocument.unmarshal stored = some d) :
    match getTask (.ok d) with
    | .error e => d.offsetsWithinDay = false ∧
        e = ⟨500, .internal, "response marshal failed", "", ""⟩
    | .body status contentType body => d.offsetsWithinDay = true ∧ status = 200 ∧
        contentType = contentTypeJSON ∧ TaskDocument.unmarshal body = some d.withoutNil := by
  have hloaded := TaskDocument.loaded_of_unmarshal h
  have hgives := (toGenTask d).marshal_givesIf
  rw [writable_toGenTask, hloaded.writable] at hgives
  cases hoffsets : d.offsetsWithinDay with
  | false =>
    rw [hoffsets] at hgives
    obtain ⟨err, herr⟩ := hgives
    simp only [getTask, herr, writeJSON, and_self]
  | true =>
    have hwritable := hloaded.writable.trans hoffsets
    simp only [getTask, marshal_toGenTask hwritable, writeJSON, true_and]
    rw [TaskDocument.unmarshal, scan_document, Option.bind_some,
      decode_toGenTask hloaded hwritable]

/-- A task whose dependency was loaded without a result, as it is stored. -/
def nilResultBytes : Bytes :=
  document (.object [("id", .string "1"), ("state", .string "active"),
    ("dependency_results", .object [("0", .null)])])

def nilResultTask : TaskDocument :=
  { TaskDocument.zero with
    id := "1", state := "active", dependencyResults := Entries.empty.insert "0" none }

theorem unmarshal_nilResultBytes : TaskDocument.unmarshal nilResultBytes = some nilResultTask := by
  rw [TaskDocument.unmarshal, nilResultBytes, scan_document]
  rfl

theorem get_task_sends_a_task_without_nil :
    ∃ body, getTask (.ok nilResultTask) = .body 200 contentTypeJSON body ∧
      TaskDocument.unmarshal body = some nilResultTask.withoutNil := by
  have hsent := get_task_sends_the_stored_task unmarshal_nilResultBytes
  split at hsent
  · exact absurd hsent.1 (by decide)
  · rename_i status contentType body hreply
    obtain ⟨-, rfl, rfl, hbody⟩ := hsent
    exact ⟨body, hreply, hbody⟩

structure TaskList where
  count : Int64
  tasks : List TaskDocument

namespace TaskList

def fields : List (FieldOf TaskList) :=
  [field "count" (.mk count fun x l => { l with count := x }) int64,
    field "tasks" (.mk tasks fun x l => { l with tasks := x })
      (slice .zero (object TaskDocument.fields))]

def unmarshal (bytes : Bytes) : Option TaskList :=
  (Json.scan bytes).bind fun v => object fields v ⟨0, []⟩

end TaskList

def readTaskStream (bytes : Bytes) : Option (List TaskDocument) :=
  (Json.decodeStream bytes).bind fun values =>
    values.mapM fun v => object TaskDocument.fields v .zero

section Listing

variable {f : TaskFilter} {ch : List (Option TaskDocument)}

theorem mem_of_mem_select {d : TaskDocument} (hd : d ∈ f.select ch) : some d ∈ ch := by
  obtain ⟨task, htask, hd⟩ := List.mem_filterMap.mp hd
  obtain ⟨t, rfl, ht⟩ := Option.bind_eq_some_iff.mp hd
  split_ifs at ht
  cases ht
  exact htask

theorem select_cons_some (t : TaskDocument) (ch : List (Option TaskDocument)) :
    f.select (some t :: ch) = if f.accepts t then t :: f.select ch else f.select ch := by
  unfold TaskFilter.select
  rw [List.filterMap_cons]
  by_cases haccepts : f.accepts t = true
  · simp only [Option.bind_some, if_pos haccepts]
  · simp only [Option.bind_some, if_neg haccepts]

theorem streamLines_eq (h : ∀ d, some d ∈ ch → d.writable = true) :
    streamLines f ch = (f.select ch).map fun d => (toGenTask d).json := by
  induction ch with
  | nil => rfl
  | cons task ch ih =>
    have hrest := ih fun d hd => h d (List.mem_cons_of_mem _ hd)
    cases task with
    | none => exact hrest
    | some t =>
      rw [select_cons_some, streamLines, marshal_toGenTask (h t (List.mem_cons_self ..)), hrest]
      split_ifs <;> rfl

theorem mapM_marshal {ds : List TaskDocument} (h : ∀ d ∈ ds, d.writable = true) :
    ds.mapM (fun t => (toGenTask t).marshal) =
      (.ok (ds.map fun d => (toGenTask d).json) : Except Error _) := by
  induction ds with
  | nil => rfl
  | cons d ds ih =>
    rw [List.mapM_cons, marshal_toGenTask (h d (List.mem_cons_self ..)),
      ih fun d hd => h d (List.mem_cons_of_mem _ hd)]
    rfl

end Listing

/-- A list and a stream of tasks that were loaded from the store, none with an offset of a day or
more, are read as the tasks that pass the filter, in their order, without dependency results
that are nil. A stream has those that were received before the request was cancelled. -/
theorem listed_tasks_are_the_selected_tasks (f : TaskFilter) (ch : List (Option TaskDocument))
    (h : ∀ d, some d ∈ ch →
      d.offsetsWithinDay = true ∧ ∃ stored, TaskDocument.unmarshal stored = some d)
    (received : ℕ) :
    (∃ body, listTasksJSON f ch = .body 200 contentTypeJSON body ∧
      TaskList.unmarshal body = some ⟨Int64.ofNat (f.select ch).length,
        (f.select ch).map TaskDocument.withoutNil⟩) ∧
    ∃ body, streamTasksNDJSON f received ch = .body 200 contentTypeNDJSON body ∧
      readTaskStream body =
        some ((f.select (ch.take received)).map TaskDocument.withoutNil) := by
  have hloaded : ∀ d, some d ∈ ch → d.Loaded ∧ d.writable = true := by
    intro d hd
    obtain ⟨hoffsets, stored, hstored⟩ := h d hd
    have hd := TaskDocument.loaded_of_unmarshal hstored
    exact ⟨hd, hd.writable.trans hoffsets⟩
  have hdecode : ∀ d, some d ∈ ch → object TaskDocument.fields (written (toGenTask d).json) .zero =
      some d.withoutNil := fun d hd => decode_toGenTask (hloaded d hd).1 (hloaded d hd).2
  constructor
  · have hwritable : ∀ d ∈ f.select ch, d.writable = true :=
      fun d hd => (hloaded d (mem_of_mem_select hd)).2
    have hselected : ∀ d ∈ f.select ch, object TaskDocument.fields
        (written (toGenTask d).json) .zero = some d.withoutNil :=
      fun d hd => hdecode d (mem_of_mem_select hd)
    have hmarshal := mapM_marshal hwritable
    have hread := slice_written hselected
    have hreply : listTasksJSON f ch = .body 200 contentTypeJSON (document (.object
        [member "count" (some (ofInt64 (Int64.ofNat (f.select ch).length))),
          member "tasks" (some (.array ((f.select ch).map fun d =>
            (toGenTask d).json)))].flatten)) := by
      rw [listTasksJSON, hmarshal]
      rfl
    refine ⟨_, hreply, ?_⟩
    rw [TaskList.unmarshal, scan_document, Option.bind_some, written_object, object,
      assign_some TaskList.fields rfl _ (int64_written _ _),
      assign_some TaskList.fields rfl _ hread]
    rfl
  · have hwritable : ∀ d, some d ∈ ch.take received → d.writable = true :=
      fun d hd => (hloaded d (List.mem_of_mem_take hd)).2
    have hselected : ∀ d ∈ f.select (ch.take received), object TaskDocument.fields
        (written (toGenTask d).json) .zero = some d.withoutNil :=
      fun d hd => hdecode d (List.mem_of_mem_take (mem_of_mem_select hd))
    have hlines := streamLines_eq (f := f) hwritable
    have hread := mapM_written hselected
    refine ⟨_, rfl, ?_⟩
    rw [readTaskStream, hlines, Json.decodeStream_encodeLines, Option.bind_some, List.map_map]
    exact hread

theorem listed_tasks_are_the_active_task :
    ∃ body, streamTasksNDJSON ⟨["active"], "", "", none⟩ 2 [none, some nilResultTask] =
        .body 200 contentTypeNDJSON body ∧
      readTaskStream body = some [nilResultTask.withoutNil] := by
  have hloaded : ∀ d, some d ∈ [none, some nilResultTask] →
      d.offsetsWithinDay = true ∧ ∃ stored, TaskDocument.unmarshal stored = some d := by
    intro d hd
    simp only [List.mem_cons, reduceCtorEq, Option.some.injEq, List.not_mem_nil, or_false,
      false_or] at hd
    subst hd
    exact ⟨by decide, _, unmarshal_nilResultBytes⟩
  exact (listed_tasks_are_the_selected_tasks _ _ hloaded 2).2

end AsyncJobs
