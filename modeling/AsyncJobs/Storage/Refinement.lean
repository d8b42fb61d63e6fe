import AsyncJobs.Interaction.Simulation
import AsyncJobs.Storage.Documents
import AsyncJobs.Storage.TaskLog

/-!
# The stream of documents is a store of records

The system model keeps task records in the world and leaves their encoding out. Here the stream
of bytes is shown to be simulated by that store: a document stands for a record, and whatever
requests arrive in whatever order, each is answered as the store of records answers it, so long
as no saved result has a number beyond the floats and no time an offset with seconds. In
particular what was saved can always be decoded.
-/

namespace AsyncJobs

open Interaction Record Rfc3339 Numeral

section Records

def TaskState.all : List TaskState :=
  [.unknown, .new, .active, .retry, .expired, .terminated, .completed, .queueError, .blocked,
    .unreachable]

/-- The state with the given text; other texts count as unknown. -/
def TaskState.ofText (text : String) : TaskState :=
  (TaskState.all.find? fun s => s.text = text).getD .unknown

example (s : TaskState) : TaskState.ofText s.text = s := by
  cases s <;> decide

/-- A payload is known by the text of the value it is loaded as. -/
def ResultDocument.record (r : ResultDocument) : TaskResult where
  payload := String.ofList ((payloadJson (reloadPayload r.payload)).text fun l => l)
  completedAt := r.completedAt.instant

def TaskDocument.record (d : TaskDocument) : Task where
  id := d.id
  type := d.type
  queue := d.queue
  dependencies := d.dependencies
  dependencyResults := d.dependencyResults.list.map fun e =>
    (e.1, e.2.map ResultDocument.record)
  loadDependencies := d.loadDependencies
  payload := d.payload
  deadline := d.deadline.map (·.instant)
  maxTries := d.maxTries.toInt
  result := d.result.map ResultDocument.record
  state := .ofText d.state
  createdAt := d.createdAt.instant
  lastTriedAt := d.lastTriedAt.map (·.instant)
  tries := d.tries.toInt
  lastErr := d.lastErr
  signature := d.signature

theorem reloadPayload_reloadPayload (x : AnyDocument) :
    reloadPayload (reloadPayload x) = reloadPayload x := by
  apply (IsLoaded.reload _).2
  exact ⟨_, Json.canonical_canonical _, rfl⟩

structure TaskDocument.InMinutes (d : TaskDocument) : Prop where
  dependencyResults : ∀ e ∈ d.dependencyResults.list, ∀ r ∈ e.2,
    r.completedAt.wholeMinutes = r.completedAt
  deadline : d.deadline.map Timestamp.wholeMinutes = d.deadline
  result : ∀ r ∈ d.result, r.completedAt.wholeMinutes = r.completedAt
  createdAt : d.createdAt.wholeMinutes = d.createdAt
  lastTriedAt : d.lastTriedAt.map Timestamp.wholeMinutes = d.lastTriedAt

theorem ResultDocument.record_reload {o : Option ResultDocument}
    (h : ∀ r ∈ o, r.completedAt.wholeMinutes = r.completedAt) :
    (o.map ResultDocument.reload).map ResultDocument.record = o.map ResultDocument.record := by
  cases o with
  | none => rfl
  | some r =>
    apply congrArg some
    unfold ResultDocument.record ResultDocument.reload
    rw [reloadPayload_reloadPayload, h r rfl]

theorem TaskDocument.record_reload {d : TaskDocument} (h : d.InMinutes) :
    d.reload.record = d.record := by
  have hresults : (d.dependencyResults.map (Option.map ResultDocument.reload)).list.map
      (fun e => (e.1, e.2.map ResultDocument.record)) =
      d.dependencyResults.list.map fun e => (e.1, e.2.map ResultDocument.record) := by
    show List.map _ (List.map _ _) = _
    rw [List.map_map]
    apply List.map_congr_left
    intro e he
    exact Prod.ext rfl (ResultDocument.record_reload (h.dependencyResults e he))
  unfold TaskDocument.record TaskDocument.reload
  rw [hresults, ResultDocument.record_reload h.result, h.deadline, h.createdAt, h.lastTriedAt]

end Records

section Requests

inductive RecordRequest where
  | save (task : Copy)
  | read (id : String)
  | delete (seq : Nat)

inductive RecordReply where
  | saved (r : Except Error Nat)
  | read (r : Except ReadError StoredTask)
  | deleted (err : Option Error)

/-- The store of records is that of the system model; who asks does not matter to it. -/
def World.answer (holder : Nat) (writer : Writer) (use : ReadUse) (w : World) :
    RecordRequest × Outcome → Option (RecordReply × World)
  | (.save task, o) => (w.exec holder writer (.publishTask task) o).map fun a => (.saved a.1, a.2)
  | (.read id, o) => (w.exec holder writer (.readLast use id) o).map fun a => (.read a.1, a.2)
  | (.delete seq, o) => (w.exec holder writer (.deleteMessage seq) o).map fun a =>
      (.deleted a.1, a.2)

/-- A request about documents as one about records. A task that cannot be encoded is not sent,
which is a request that fails. -/
def LogRequest.toRecord : LogRequest × Outcome → RecordRequest × Outcome
  | (.save task revision, o) => (.save ⟨task.record, revision⟩,
      match task.marshal with
      | .error err => .failed err
      | .ok _ => o)
  | (.read id, o) => (.read id, o)
  | (.delete seq, o) => (.delete seq, o)

/-- The answer in terms of records; `none` if a document could not be decoded. -/
def LogReply.toRecord : LogReply → Option RecordReply
  | .saved r => some (.saved r)
  | .read (.error err) => some (.read (.error err))
  | .read (.ok (_, none)) => none
  | .read (.ok (seq, some task)) => some (.read (.ok ⟨seq, task.record⟩))
  | .deleted err => some (.deleted err)

/-- What is saved can be loaded, with the same instants. -/
def LogRequest.Loads : LogRequest × Outcome → Prop
  | (.save task _, _) => task.loads = true ∧ task.InMinutes
  | _ => True

end Requests

section Simulation

structure LoggedTask.Holds (m : LoggedTask) (s : StoredTask) : Prop where
  seq : m.seq = s.seq
  id : m.id = s.task.id
  data : ∃ d, TaskDocument.unmarshal m.data = some d ∧ d.record = s.task

structure TaskLog.Represents (l : TaskLog) (w : World) : Prop where
  lastSeq : l.lastSeq = w.lastSeq
  messages : List.Forall₂ LoggedTask.Holds l.messages w.tasks

namespace TaskLog.Represents

variable {l : TaskLog} {w : World} (h : l.Represents w)
include h

theorem stored (id : String) : Option.Rel LoggedTask.Holds (l.stored id) (w.stored id) :=
  rel_find? h.messages fun m s hm => by rw [hm.id]

theorem readLast (token : String) :
    Option.Rel LoggedTask.Holds (l.readLast token) (w.readLast token) := by
  unfold TaskLog.readLast World.readLast
  split_ifs
  · have hmessages := h.messages
    generalize l.messages = messages at hmessages ⊢
    generalize w.tasks = tasks at hmessages ⊢
    cases hmessages with
    | nil => exact .none
    | cons hm _ => exact .some hm
  · exact h.stored token

theorem lastSubjectSeq (id : String) : l.lastSubjectSeq id = w.lastSubjectSeq id := by
  have hstored := h.stored id
  unfold TaskLog.lastSubjectSeq World.lastSubjectSeq
  generalize l.stored id = m at hstored ⊢
  generalize w.stored id = s at hstored ⊢
  cases hstored with
  | none => rfl
  | some hm => exact hm.seq

theorem publish {d : TaskDocument} {data : Bytes} (hdata : TaskDocument.unmarshal data = some d)
    {t : Copy} (ht : t.toTask = d.record) {id : String} (hid : id = d.id) (holder : Nat)
    (writer : Writer) (acked : Bool) :
    (l.publish id data).Represents (w.store holder writer t acked) := by
  have htask : t.id = d.id := congrArg Task.id ht
  constructor
  · exact congrArg (· + 1) h.lastSeq
  · apply List.Forall₂.cons
    · exact ⟨congrArg (· + 1) h.lastSeq, hid.trans htask.symm, d, hdata, ht.symm⟩
    · apply List.rel_filter _ h.messages
      intro m s hm
      simp only [hm.id, hid, htask]

theorem removed {seq : Nat} {e : Event} {s : StoredTask} (hseq : s.seq = seq) :
    (l.removed seq).Represents (w.removeTask s e) := by
  constructor
  · exact h.lastSeq
  · apply List.rel_filter _ h.messages
    intro m n hm
    simp only [hm.seq, hseq]

theorem removed_absent {seq : Nat} (habsent : w.tasks.find? (fun s => s.seq = seq) = none) :
    (l.removed seq).Represents w := by
  have hrel := rel_find? h.messages (p := fun m => m.seq = seq) (q := fun s => s.seq = seq)
    fun m s hm => by rw [hm.seq]
  rw [habsent] at hrel
  have hnone : l.messages.find? (fun m => m.seq = seq) = none := by
    generalize l.messages.find? _ = found at hrel ⊢
    cases hrel
    rfl
  have hsame : l.removed seq = l := by
    unfold TaskLog.removed
    rw [List.filter_eq_self.mpr]
    intro m hm
    have hne := List.find?_eq_none.mp hnone m hm
    simpa using hne
  rw [hsame]
  exact h

end TaskLog.Represents

variable {l l' : TaskLog} {w : World}

theorem execPublish_simulated (h : l.Represents w) {d : TaskDocument} {data : Bytes}
    (hdata : ∃ d', TaskDocument.unmarshal data = some d' ∧ d'.id = d.id ∧ d'.record = d.record)
    {revision : Option Nat} {o : Outcome} {r : LogReply} (holder : Nat) (writer : Writer)
    (hexec : l.execPublish d.id revision data o = some (r, l')) :
    ∃ r' w', (w.execSave holder writer ⟨d.record, revision⟩ o).map
        (fun a => (RecordReply.saved a.1, a.2)) = some (r', w') ∧
      r.toRecord = some r' ∧ l'.Represents w' := by
  obtain ⟨d', hd', hid, hrecord⟩ := hdata
  have hpublish : ∀ acked, (l.publish d.id data).Represents
      (w.store holder writer ⟨d.record, revision⟩ acked) :=
    fun acked => h.publish hd' hrecord.symm hid.symm holder writer acked
  have haccepts : w.accepts ⟨d.record, revision⟩ =
      decide (l.lastSubjectSeq d.id = revision.getD 0) := by
    rw [h.lastSubjectSeq]
    rfl
  cases o with
  | ok =>
    simp only [TaskLog.execPublish] at hexec
    simp only [World.execSave, haccepts, decide_eq_true_eq]
    split_ifs at hexec ⊢ with haccepted
    · cases hexec
      exact ⟨_, _, rfl, by rw [h.lastSeq]; rfl, hpublish true⟩
    · cases hexec
      exact ⟨_, _, rfl, rfl, h⟩
  | lost e =>
    simp only [TaskLog.execPublish] at hexec
    simp only [World.execSave, haccepts, decide_eq_true_eq]
    split_ifs at hexec ⊢ with haccepted
    · cases hexec
      exact ⟨_, _, rfl, rfl, hpublish false⟩
    · cases hexec
      exact ⟨_, _, rfl, rfl, h⟩
  | failed e =>
    cases hexec
    exact ⟨_, _, rfl, rfl, h⟩
  | handled _ => cases hexec

theorem execRead_simulated (h : l.Represents w) {id : String} {o : Outcome} {r : LogReply}
    (holder : Nat) (writer : Writer) (use : ReadUse)
    (hexec : l.execRead id o = some (r, l')) :
    ∃ r' w', (w.execRead holder writer use id o).map
        (fun a => (RecordReply.read a.1, a.2)) = some (r', w') ∧
      r.toRecord = some r' ∧ l'.Represents w' := by
  cases o with
  | ok =>
    have hread := h.readLast id
    simp only [TaskLog.execRead] at hexec
    simp only [World.execRead]
    generalize l.readLast id = m at hread hexec
    generalize w.readLast id = s at hread ⊢
    cases hread with
    | none =>
      cases hexec
      exact ⟨_, _, rfl, rfl, h⟩
    | @some m s hm =>
      obtain ⟨d, hd, hrecord⟩ := hm.data
      cases hexec
      refine ⟨_, _, rfl, ?_, ⟨h.lastSeq, h.messages⟩⟩
      simp only [LogReply.toRecord, hd, hm.seq, hrecord]
  | failed e =>
    cases hexec
    exact ⟨_, _, rfl, rfl, h⟩
  | lost _ => cases hexec
  | handled _ => cases hexec

theorem execDelete_simulated (h : l.Represents w) {seq : Nat} {o : Outcome} {r : LogReply}
    (holder : Nat) (hexec : l.execDelete seq o = some (r, l')) :
    ∃ r' w', (w.execDelete holder seq o).map
        (fun a => (RecordReply.deleted a.1, a.2)) = some (r', w') ∧
      r.toRecord = some r' ∧ l'.Represents w' := by
  have hrel := rel_find? h.messages (p := fun m => m.seq = seq) (q := fun s => s.seq = seq)
    fun m s hm => by rw [hm.seq]
  have hany : (l.messages.any fun m => m.seq = seq) =
      (l.messages.find? fun m => m.seq = seq).isSome := (List.isSome_find?).symm
  unfold World.execDelete
  generalize hfound : l.messages.find? (fun m => decide (m.seq = seq)) = found at hrel hany
  cases hs : w.tasks.find? (fun s => decide (s.seq = seq)) with
  | none =>
    rw [hs] at hrel
    cases hrel
    have habsent := h.removed_absent hs
    cases o with
    | ok =>
      simp only [TaskLog.execDelete, hany, Option.isSome_none, Bool.false_eq_true, if_false]
        at hexec
      cases hexec
      exact ⟨_, _, rfl, rfl, h⟩
    | lost e =>
      cases hexec
      exact ⟨_, _, rfl, rfl, habsent⟩
    | failed e =>
      cases hexec
      exact ⟨_, _, rfl, rfl, h⟩
    | handled _ => cases hexec
  | some s =>
    rw [hs] at hrel
    cases hrel
    have hseq : s.seq = seq := by simpa using List.find?_some hs
    have hremoved : ∀ e, (l.removed seq).Represents (w.removeTask s e) :=
      fun e => h.removed hseq
    cases o with
    | ok =>
      simp only [TaskLog.execDelete, hany, Option.isSome_some, if_true] at hexec
      cases hexec
      exact ⟨_, _, rfl, rfl, hremoved _⟩
    | lost e =>
      cases hexec
      exact ⟨_, _, rfl, rfl, hremoved _⟩
    | failed e =>
      cases hexec
      exact ⟨_, _, rfl, rfl, h⟩
    | handled _ => cases hexec

/-- The store of records simulates the stream of documents, request by request. -/
theorem taskLog_simulated (holder : Nat) (writer : Writer) (use : ReadUse) :
    Simulates TaskLog.exec (World.answer holder writer use) LogRequest.Loads LogRequest.toRecord
      TaskLog.Represents fun r r' => r.toRecord = some r' := by
  intro l w request r l' h hloads hexec
  obtain ⟨request, o⟩ := request
  cases request with
  | save d revision =>
    have hmarshal := d.marshal_givesIf
    simp only [TaskLog.exec] at hexec
    simp only [LogRequest.toRecord]
    cases hwritable : d.writable with
    | false =>
      rw [hwritable] at hmarshal
      obtain ⟨err, herr⟩ := hmarshal
      simp only [herr] at hexec ⊢
      cases hexec
      exact ⟨_, _, rfl, rfl, h⟩
    | true =>
      rw [hwritable] at hmarshal
      have hok : d.marshal = .ok (document d.json) := hmarshal
      simp only [hok] at hexec ⊢
      have hdata := TaskDocument.unmarshal_document hwritable
      rw [hloads.1, if_pos rfl] at hdata
      exact execPublish_simulated (d := d) h
        ⟨d.reload, hdata, rfl, TaskDocument.record_reload hloads.2⟩ holder writer hexec
  | read id => exact execRead_simulated h holder writer use hexec
  | delete seq => exact execDelete_simulated h holder hexec

end Simulation

/-- Whatever requests the stream of documents gets, in any order and with any of them failing or
losing their answers, it answers each as the store of records of the system model does, if no
saved result has a number beyond the floats and all offsets are whole minutes. Every document
that is read can be decoded. -/
theorem task_stream_refines_records (holder : Nat) (writer : Writer) (use : ReadUse) (start : Int)
    (requests : List (LogRequest × Outcome)) (hloads : ∀ r ∈ requests, LogRequest.Loads r)
    {replies : List LogReply} {l : TaskLog}
    (hrun : respond TaskLog.exec .empty requests = some (replies, l)) :
    ∃ replies' w, respond (World.answer holder writer use) (.init start)
        (requests.map LogRequest.toRecord) = some (replies', w) ∧
      replies.map LogReply.toRecord = replies'.map some ∧ l.Represents w := by
  have hinit : TaskLog.empty.Represents (.init start) := ⟨rfl, .nil⟩
  obtain ⟨replies', w, hrun', hall, hw⟩ :=
    (taskLog_simulated holder writer use).respond hloads hinit hrun
  have hmapped : List.Forall₂ (· = ·) (replies.map LogReply.toRecord) (replies'.map some) :=
    List.forall₂_map_left_iff.mpr (List.forall₂_map_right_iff.mpr hall)
  rw [List.forall₂_eq_eq_eq] at hmapped
  exact ⟨replies', w, hrun', hmapped, hw⟩

/-- A task is saved, loaded, saved under a revision that is out of date, and deleted. -/
def logSample : List (LogRequest × Outcome) :=
  [(.save { TaskDocument.zero with id := "1", state := "new" } none, .ok), (.read "1", .ok),
    (.save { TaskDocument.zero with id := "1", state := "active" } none, .ok), (.delete 1, .ok)]

theorem task_stream_refines_sample_requests :
    ∃ replies l replies' w, respond TaskLog.exec .empty logSample = some (replies, l) ∧
      respond (World.answer 0 .worker .task) (.init 0) (logSample.map LogRequest.toRecord) =
        some (replies', w) ∧ replies.map LogReply.toRecord = replies'.map some := by
  have hsome : (respond TaskLog.exec .empty logSample).isSome = true := by decide +kernel
  obtain ⟨⟨replies, l⟩, hrun⟩ := Option.isSome_iff_exists.mp hsome
  have hminutes : ∀ state, TaskDocument.InMinutes
      { TaskDocument.zero with id := "1", state := state } := by
    intro state
    exact ⟨fun e he => (List.not_mem_nil he).elim, rfl, fun r hr => (Option.not_mem_none r hr).elim,
      isRead_zeroTime.wholeMinutes, rfl⟩
  have hloads : ∀ r ∈ logSample, LogRequest.Loads r := by
    simp only [logSample, List.forall_mem_cons]
    exact ⟨⟨rfl, hminutes _⟩, trivial, ⟨rfl, hminutes _⟩, trivial, List.forall_mem_nil _⟩
  obtain ⟨replies', w, hrun', hsame, -⟩ :=
    task_stream_refines_records 0 .worker .task 0 logSample hloads hrun
  exact ⟨replies, l, replies', w, hrun, hrun', hsame⟩

end AsyncJobs
