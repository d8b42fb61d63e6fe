import AsyncJobs.Http.StoredRequest
import AsyncJobs.Model.Payload
import AsyncJobs.Schedule.Firing

/-!
# The payload of a request is decoded and encoded again

`CreateTask` and `CreateSchedule` decode the payload into an untyped value, so that its numbers
become floats, and `NewTask` writes these as their shortest decimals. The bytes of the task or
of the schedule are a document of the value that was sent exactly if each of its numbers is
the shortest decimal of a float.
-/

namespace AsyncJobs

open Binary64 Interaction

section Values

def reprint (x : ℚ) : ℚ := (shortest ((parseFloat x).getD .zero).value).value

/-- The number is what `encoding/json` writes for some float. -/
def IsPrinted (x : ℚ) : Prop := ∃ f : Float64, x = (shortest f.value).value

theorem reprint_eq_self_iff {x : ℚ} : reprint x = x ↔ IsPrinted x := by
  constructor
  · intro h
    exact ⟨_, h.symm⟩
  · rintro ⟨f, rfl⟩
    rw [reprint, parseFloat_value (nearest_shortest f.finite)]
    rfl

/-- The document of an untyped value is read as the value it was decoded from, with each number
as it is written. Members that were overwritten by others of their name are gone. -/
theorem decode_marshal {v : Json ℚ} {a : Any} {bytes : Bytes} (ha : unmarshalAny v = .ok a)
    (hbytes : jsonMarshalAny a = .ok bytes) :
    Json.decode bytes = some (v.canonical.map reprint) := by
  unfold unmarshalAny at ha
  split_ifs at ha
  cases ha
  cases hbytes
  rw [Json.decode_encode, Json.canonical_map, Json.map_map]
  simp only [formatFloat_value]
  rfl

theorem denotes_iff {v : Json ℚ} {bytes : Bytes}
    (h : Json.decode bytes = some (v.canonical.map reprint)) :
    Json.Denotes bytes v ↔ ∀ x ∈ v.canonical.numbers, IsPrinted x := by
  have hcanonical : (v.canonical.map reprint).canonical = v.canonical.map reprint := by
    rw [Json.canonical_map, Json.canonical_canonical]
  simp only [← reprint_eq_self_iff]
  rw [← Json.map_eq_self_iff]
  constructor
  · rintro ⟨w, hw, hsame⟩
    rw [h, Option.some.injEq] at hw
    rw [← hw, hcanonical] at hsame
    exact hsame
  · intro hsame
    exact ⟨_, h, hcanonical.trans hsame⟩

theorem isPrinted_intCast {n : ℤ} (hn : |n| ≤ 2 ^ 53) : IsPrinted n :=
  ⟨⟨n, isFinite_intCast hn⟩, (shortest_intCast hn).symm⟩

/-- A number that is rounded to such an integer is written as that integer. -/
theorem reprint_of_nearest_intCast {x : ℚ} {n : ℤ} (hn : |n| ≤ 2 ^ 53)
    (h : nearest x = some (n : ℚ)) : reprint x = n := by
  rw [reprint, parseFloat_value (f := ⟨n, isFinite_intCast hn⟩) h]
  exact shortest_intCast hn

end Values

section Requests

variable {α : Type} {jsonMarshal : α → Except Error Bytes}
  {parseDuration : String → Except Error Int}

theorem newTask_encodes {id type : String} {now : Int} {a : α} {opts : List (TaskOpt α)} {t : Task}
    {made : Copy}
    (hopts : applyTaskOpts opts
      { task :=
          { id := id, type := type, createdAt := now, maxTries := defaultMaxTries,
            state := .new } } = .ok { task := t })
    (h : newTask jsonMarshal id now type (some a) opts = .ok made) :
    ∃ bytes, made.payload = some bytes ∧ jsonMarshal a = .ok bytes := by
  obtain ⟨bytes, hbytes, rfl⟩ := newTask_ok hopts h
  obtain ⟨hnone, -⟩ | ⟨value, encoded, hvalue, hencoded, rfl⟩ := hbytes
  · cases hnone
  · cases hvalue
    exact ⟨encoded, rfl, hencoded⟩

/-- The payload of the task that is made of a request with a JSON payload only. -/
theorem TaskCreateRequest.newTask_payload {req : TaskCreateRequest α} {id : String} {now : Int}
    {task : Task} {a : α} (hpayload : req.payload = some a) (hbase64 : req.payloadBase64 = none)
    (h : req.newTask jsonMarshal id now = .ok task) :
    ∃ bytes, task.payload = some bytes ∧ jsonMarshal a = .ok bytes := by
  unfold TaskCreateRequest.newTask at h
  simp only [hbase64, hpayload, Option.isNone_none, if_true] at h
  split at h
  · cases h
  · rename_i made hmade
    cases h
    exact newTask_encodes (req.applyTaskOpts_opts id now) hmade

/-- A task that is enqueued is made of the body, which has one payload. -/
def MadeTask (jsonMarshal : α → Except Error Bytes) (body : Except Error (TaskCreateRequest α)) :
    HttpCall → Prop
  | .enqueueTask task => ∃ req, body = .ok req ∧
      ¬ (req.payload.isSome ∧ req.payloadBase64.isSome) ∧
      ∃ id now, req.newTask jsonMarshal id now = .ok task
  | _ => True

theorem createFresh_made (key : Option String) (body : Except Error (TaskCreateRequest α)) :
    (createFresh jsonMarshal key body).Yields (MadeTask jsonMarshal body) fun _ => True := by
  cases body with
  | error err => exact ⟨trivial, fun _ => trivial⟩
  | ok req =>
    by_cases hboth : req.payload.isSome ∧ req.payloadBase64.isSome
    · simp only [createFresh, readCreateTaskBody, if_pos hboth]
      exact ⟨trivial, fun _ => trivial⟩
    · simp only [createFresh, readCreateTaskBody, if_neg hboth]
      refine ⟨trivial, fun id => ⟨trivial, fun now => ?_⟩⟩
      cases htask : req.newTask jsonMarshal id now with
      | error e =>
        simp only [Prog.bind, htask]
        exact ⟨trivial, fun _ => trivial⟩
      | ok task =>
        simp only [Prog.bind, htask]
        refine ⟨⟨req, rfl, hboth, id, now, htask⟩, fun reply => ?_⟩
        cases reply with
        | error err => exact ⟨trivial, fun _ => trivial⟩
        | ok task =>
          cases key with
          | none => exact ⟨trivial, fun _ => trivial⟩
          | some key => exact ⟨trivial, fun _ => ⟨trivial, fun _ => trivial⟩⟩

theorem createTask_made (key : Option String) (body : Except Error (TaskCreateRequest α)) :
    (createTask jsonMarshal key body).Yields (MadeTask jsonMarshal body) fun _ => True := by
  cases key with
  | none => exact createFresh_made none body
  | some key =>
    refine ⟨trivial, fun remembered => ?_⟩
    cases remembered with
    | none => exact createFresh_made (some key) body
    | some id =>
      refine ⟨trivial, fun loaded => ?_⟩
      cases loaded with
      | error err => exact createFresh_made (some key) body
      | ok task => exact ⟨trivial, fun _ => trivial⟩

def StoresPayload (P : Option Bytes → Prop) : ServerCall → Prop
  | .job (.publishTask t) => P t.payload
  | _ => True

theorem ServerCall.Quiet.storesPayload {P : Option Bytes → Prop} {call : ServerCall}
    (h : call.Quiet) : StoresPayload P call := by
  cases call with
  | http c => trivial
  | job c =>
    cases c with
    | publishTask t => cases h
    | _ => trivial

/-- What `EnqueueTask` stores has the payload of the task it was given. -/
theorem enqueueTask_payload {P : Option Bytes → Prop} {task : Task} (c : Client)
    (hP : P task.payload) :
    (c.serve (.enqueueTask task)).Yields (StoresPayload P) fun _ => True := by
  have hsubmit : ∀ x : Copy, c.Submits task x.toTask → StoresPayload P (.job (.publishTask x)) := by
    rintro ⟨x, _⟩ ⟨hsigned, hstored⟩
    obtain ⟨signature, hprepared⟩ := Client.signTask_record hsigned
    rw [hprepared] at hstored
    obtain rfl | ⟨lastErr, rfl⟩ := hstored <;> exact hP
  have hjob := c.enqueueTask_yields (C := fun call => StoresPayload P (.job call))
    (t := ⟨task, none⟩) (fun _ => trivial) (fun _ _ _ => trivial) (fun _ => trivial) hsubmit
  have hserved : (serverJob (c.enqueueTask ⟨task, none⟩)).Yields (StoresPayload P)
      fun r => c.Returns task r.2.toTask :=
    hjob.interpret fun _ hcall => ⟨hcall, fun _ => trivial⟩
  apply hserved.bind
  rintro ⟨err, copy⟩ _
  cases err <;> trivial

theorem createTask_stores {P : Option Bytes → Prop} (c : Client) (key : Option String)
    {body : Except Error (TaskCreateRequest α)}
    (hP : ∀ task, MadeTask jsonMarshal body (.enqueueTask task) → P task.payload) :
    ((createTask jsonMarshal key body).interpret c.serve).Yields (StoresPayload P)
      fun _ => True := by
  apply (createTask_made key body).interpret
  intro call hcall
  cases call with
  | enqueueTask task => exact enqueueTask_payload c (hP task hcall)
  | loadTaskByID id =>
    apply (loadTaskByID_quiet c id).mono _ fun _ h => h
    exact fun _ hquiet => hquiet.storesPayload
  | _ => exact ⟨trivial, fun _ => trivial⟩

theorem ScheduleCreateRequest.applyTaskOpts_opts (tries deadline : Option Int) (id type : String)
    (now : Int) :
    ∃ t, applyTaskOpts (α := α) ((match tries with
          | some tries => [taskMaxTries tries]
          | none => []) ++
        (match deadline with
          | some deadline => [taskDeadline deadline]
          | none => []))
        { task :=
            { id := id, type := type, createdAt := now, maxTries := defaultMaxTries,
              state := .new } } = .ok { task := t } := by
  cases tries <;> cases deadline <;> exact ⟨_, rfl⟩

theorem ScheduleCreateRequest.newTask_payload {req : ScheduleCreateRequest α}
    {deadline : Option Int} {id : String} {now : Int} {task : Task} {a : α}
    (hpayload : req.payload = some a) (hbase64 : req.payloadBase64 = none)
    (h : req.newTask jsonMarshal deadline id now = .ok task) :
    ∃ bytes, task.payload = some bytes ∧ jsonMarshal a = .ok bytes := by
  obtain ⟨t, hopts⟩ := ScheduleCreateRequest.applyTaskOpts_opts (α := α) req.maxTries deadline id
    req.taskType now
  unfold ScheduleCreateRequest.newTask at h
  simp only [hbase64, hpayload, Option.isNone_none, if_true] at h
  split at h
  · cases h
  · rename_i made hmade
    cases h
    exact newTask_encodes hopts hmade

/-- A task that is scheduled is made of the body, which has one payload. -/
def MadeScheduledTask (jsonMarshal : α → Except Error Bytes)
    (body : Except Error (ScheduleCreateRequest α)) : ApiCall → Prop
  | .newScheduledTask _ _ _ task => ∃ req, body = .ok req ∧
      ¬ (req.payload.isSome ∧ req.payloadBase64.isSome) ∧
      ∃ deadline id now, req.newTask jsonMarshal deadline id now = .ok task
  | _ => True

theorem ScheduleCreateRequest.deadline_quiet {C : ApiCall → Prop} (hnow : C .now)
    (req : ScheduleCreateRequest α) : (req.deadline parseDuration).Yields C fun _ => True := by
  unfold ScheduleCreateRequest.deadline
  cases req.deadlineOffset with
  | none => trivial
  | some offset =>
    simp only
    split
    · trivial
    · exact ⟨hnow, fun _ => trivial⟩

theorem createSchedule_made (body : Except Error (ScheduleCreateRequest α)) :
    (createSchedule jsonMarshal parseDuration body).Yields (MadeScheduledTask jsonMarshal body)
      fun _ => True := by
  cases body with
  | error err => exact ⟨trivial, fun _ => trivial⟩
  | ok req =>
    rw [createSchedule, createDecodedSchedule]
    by_cases hboth : req.payload.isSome ∧ req.payloadBase64.isSome
    · rw [if_pos hboth]
      exact ⟨trivial, fun _ => trivial⟩
    · rw [if_neg hboth]
      apply Prog.Yields.bind (req.deadline_quiet trivial)
      intro result _
      cases result with
      | error e => exact ⟨trivial, fun _ => trivial⟩
      | ok deadline =>
        refine ⟨trivial, fun id => ⟨trivial, fun now => ?_⟩⟩
        cases htask : req.newTask jsonMarshal deadline id now with
        | error err =>
          simp only [Prog.bind, htask]
          exact ⟨trivial, fun _ => trivial⟩
        | ok task =>
          simp only [Prog.bind, htask]
          refine ⟨⟨req, rfl, hboth, deadline, id, now, htask⟩, fun refused => ?_⟩
          cases refused with
          | some err => exact ⟨trivial, fun _ => trivial⟩
          | none =>
            refine ⟨trivial, fun loaded => ?_⟩
            cases loaded with
            | error err => exact ⟨trivial, fun _ => trivial⟩
            | ok st => exact ⟨trivial, fun _ => trivial⟩

end Requests

section Sent

theorem unmarshalPayload_ok {v : Json ℚ} (hv : v ≠ .null) {payload : Option Any}
    (h : unmarshalPayload (some v) = .ok payload) :
    ∃ a, payload = some a ∧ unmarshalAny v = .ok a := by
  unfold unmarshalPayload at h
  split at h
  · rename_i heq
    cases heq
  · rename_i heq
    cases heq
    exact absurd rfl hv
  · rename_i heq
    cases heq
    split at h
    · cases h
    · rename_i a ha
      cases h
      exact ⟨a, rfl, ha⟩

theorem TaskCreateRequest.unmarshal_ok {sent : TaskCreateRequest (Json ℚ)}
    {req : TaskCreateRequest Any} (h : sent.unmarshal = .ok req) :
    unmarshalPayload sent.payload = .ok req.payload := by
  unfold TaskCreateRequest.unmarshal at h
  split at h
  · cases h
  · rename_i payload hpayload
    cases h
    exact hpayload

theorem ScheduleCreateRequest.unmarshal_ok {sent : ScheduleCreateRequest (Json ℚ)}
    {req : ScheduleCreateRequest Any} (h : sent.unmarshal = .ok req) :
    unmarshalPayload sent.payload = .ok req.payload := by
  unfold ScheduleCreateRequest.unmarshal at h
  split at h
  · cases h
  · rename_i payload hpayload
    cases h
    exact hpayload

/-- The bytes are there, and are a document of the value with each number as it is written. -/
def Reprints (v : Json ℚ) (payload : Option Bytes) : Prop :=
  ∃ bytes, payload = some bytes ∧ Json.decode bytes = some (v.canonical.map reprint)

theorem Reprints.denotes_iff {v : Json ℚ} {payload : Option Bytes} (h : Reprints v payload) :
    ∃ bytes, payload = some bytes ∧
      (Json.Denotes bytes v ↔ ∀ x ∈ v.canonical.numbers, IsPrinted x) := by
  obtain ⟨bytes, hbytes, hdecode⟩ := h
  exact ⟨bytes, hbytes, AsyncJobs.denotes_iff hdecode⟩

theorem payloadBase64_none {β : Type} {payload : Option β} {base64 : Option Bytes} {a : β}
    (hpayload : payload = some a) (hboth : ¬ (payload.isSome ∧ base64.isSome)) :
    base64 = none := by
  cases base64 with
  | none => rfl
  | some bytes =>
    subst hpayload
    exact absurd ⟨rfl, rfl⟩ hboth

theorem reprints_of_madeTask {v : Json ℚ} (hv : v ≠ .null) {sent : TaskCreateRequest (Json ℚ)}
    (hsent : sent.payload = some v) {task : Task}
    (h : MadeTask jsonMarshalAny sent.unmarshal (.enqueueTask task)) :
    Reprints v task.payload := by
  obtain ⟨req, hreq, hboth, id, now, htask⟩ := h
  have hunmarshal := TaskCreateRequest.unmarshal_ok hreq
  rw [hsent] at hunmarshal
  obtain ⟨a, hpayload, ha⟩ := unmarshalPayload_ok hv hunmarshal
  obtain ⟨bytes, hbytes, hmarshal⟩ :=
    TaskCreateRequest.newTask_payload hpayload (payloadBase64_none hpayload hboth) htask
  exact ⟨bytes, hbytes, decode_marshal ha hmarshal⟩

theorem reprints_of_madeScheduledTask {v : Json ℚ} (hv : v ≠ .null)
    {sent : ScheduleCreateRequest (Json ℚ)} (hsent : sent.payload = some v)
    {name schedule queue : String} {task : Task}
    (h : MadeScheduledTask jsonMarshalAny sent.unmarshal
      (.newScheduledTask name schedule queue task)) :
    Reprints v task.payload := by
  obtain ⟨req, hreq, hboth, deadline, id, now, htask⟩ := h
  have hunmarshal := ScheduleCreateRequest.unmarshal_ok hreq
  rw [hsent] at hunmarshal
  obtain ⟨a, hpayload, ha⟩ := unmarshalPayload_ok hv hunmarshal
  obtain ⟨bytes, hbytes, hmarshal⟩ :=
    ScheduleCreateRequest.newTask_payload hpayload (payloadBase64_none hpayload hboth) htask
  exact ⟨bytes, hbytes, decode_marshal ha hmarshal⟩

theorem createTask_reprints {v : Json ℚ} (hv : v ≠ .null) (c : Client)
    {sent : TaskCreateRequest (Json ℚ)} (hsent : sent.payload = some v) (key : Option String) :
    ((createTask jsonMarshalAny key sent.unmarshal).interpret c.serve).Yields
      (StoresPayload (Reprints v)) fun _ => True :=
  createTask_stores c key fun _ hmade => reprints_of_madeTask hv hsent hmade

/-- The schedule that is stored for a task has its payload when it is read. -/
theorem newScheduledTask_payload {σ : Type} {parse : String → Except Error σ}
    {createdAt now : Int} {b b' : ConfigBucket} {failure : Option Error}
    {name schedule queue : String} {task : Task}
    (h : newScheduledTask parse createdAt now b failure name schedule queue task = .ok b') :
    ∃ doc st, b'.lookup (configKey name) = some doc ∧ doc.unmarshal = .ok st ∧
      st.payload = task.payload := by
  obtain ⟨st, cs, hst, hdoc⟩ := newScheduledTask_ok h
  obtain ⟨-, -, -, hpayload, -⟩ := newScheduledTaskFromTask_ok hst
  exact ⟨st.marshal, st, hdoc, st.unmarshal_marshal, hpayload⟩

end Sent

/-- For every value but null, whatever else the requests hold: the records that `CreateTask`
stores, on any client, and the schedule that `CreateSchedule` stores have payload bytes which
are a document of the value exactly if each of its numbers is one that `encoding/json` writes. -/
theorem payload_denotes_iff (v : Json ℚ) (hv : v ≠ .null) :
    (∀ (c : Client) (sent : TaskCreateRequest (Json ℚ)) (key : Option String)
        (trace : List (Answered server)) (record : Copy) (reply : (Call.publishTask record).Reply),
      sent.payload = some v →
      ((createTask jsonMarshalAny key sent.unmarshal).interpret c.serve).Follows trace () →
      ⟨.job (.publishTask record), reply⟩ ∈ trace →
      ∃ bytes, record.payload = some bytes ∧
        (Json.Denotes bytes v ↔ ∀ x ∈ v.canonical.numbers, IsPrinted x)) ∧
    (∀ (parseDuration : String → Except Error Int) (sent : ScheduleCreateRequest (Json ℚ))
        (trace : List (Answered api)) (name schedule queue : String) (task : Task)
        (reply : Option Error),
      sent.payload = some v →
      (createSchedule jsonMarshalAny parseDuration sent.unmarshal).Follows trace () →
      ⟨.newScheduledTask name schedule queue task, reply⟩ ∈ trace →
      ∀ (σ : Type) (parse : String → Except Error σ) (createdAt now : Int) (b b' : ConfigBucket)
        (failure : Option Error),
      newScheduledTask parse createdAt now b failure name schedule queue task = .ok b' →
      ∃ doc st bytes, b'.lookup (configKey name) = some doc ∧ doc.unmarshal = .ok st ∧
        st.payload = some bytes ∧
        (Json.Denotes bytes v ↔ ∀ x ∈ v.canonical.numbers, IsPrinted x)) := by
  constructor
  · intro c sent key trace record reply hsent hrun hstored
    have hreprints : Reprints v record.payload :=
      ((createTask_reprints hv c hsent key).follows hrun).1 _ hstored
    exact hreprints.denotes_iff
  · intro parseDuration sent trace name schedule queue task reply hsent hrun hcall σ parse
      createdAt now b b' failure hnew
    have hmade := ((createSchedule_made sent.unmarshal).follows hrun).1 _ hcall
    obtain ⟨bytes, hbytes, hdenotes⟩ := (reprints_of_madeScheduledTask hv hsent hmade).denotes_iff
    obtain ⟨doc, st, hdoc, hst, hpayload⟩ := newScheduledTask_payload hnew
    exact ⟨doc, st, bytes, hdoc, hst, hpayload.trans hbytes, hdenotes⟩

theorem exists_mem_of_firstRecord (trace : List (Answered server))
    (h : (firstRecord trace).isSome = true) :
    ∃ record reply, ⟨.job (.publishTask record), reply⟩ ∈ trace := by
  obtain ⟨task, htask⟩ := Option.isSome_iff_exists.mp h
  obtain ⟨e, he, hrecord⟩ := List.exists_of_findSome?_eq_some htask
  unfold storedRecord at hrecord
  split at hrecord
  · exact ⟨_, _, he⟩
  · cases hrecord

def servedPayload (sent : TaskCreateRequest (Json ℚ)) : List (Answered server) :=
  ((((createTask jsonMarshalAny none sent.unmarshal).interpret sampleClient.serve).transcript
    acceptingServer).map Prod.fst).getD []

/-- An order with small numbers, one of them written twice. -/
def samplePayload : Json ℚ :=
  .object [("id", .number 42), ("lines", .array [.number (-7), .string "<a>", .null]),
    ("id", .number 43)]

theorem isPrinted_samplePayload {x : ℚ} (h : x ∈ samplePayload.numbers) : IsPrinted x := by
  have hx : x = ((42 : ℤ) : ℚ) ∨ x = ((-7 : ℤ) : ℚ) ∨ x = ((43 : ℤ) : ℚ) := by
    simpa [samplePayload, Json.numbers, Json.numbersOfMembers, Json.numbersOfItems] using h
  obtain rfl | rfl | rfl := hx <;> exact isPrinted_intCast (by decide)

/-- The identifier and the time are fixed and every request succeeds. -/
def acceptingApi : (c : ApiCall) → Option c.Reply
  | .now => some (0 : Int)
  | .newID => some "T1"
  | .newScheduledTask _ _ _ _ => some none
  | .loadScheduledTaskByName _ => some (.ok numberSchedule)
  | .respond _ => some ()
  | _ => none

def servedSchedule (sent : ScheduleCreateRequest (Json ℚ)) : List (Answered api) :=
  (((createSchedule jsonMarshalAny (fun _ => .ok 0) sent.unmarshal).transcript
    acceptingApi).map Prod.fst).getD []

/-- The bucket behind a call on an empty one, for a parser that takes every schedule. -/
def storedSchedule : Answered api → Option ConfigBucket
  | ⟨.newScheduledTask name schedule queue task, _⟩ =>
    (newScheduledTask (fun _ => .ok ()) 0 0 ∅ none name schedule queue task).toOption
  | _ => none

theorem exists_mem_of_storedSchedule (trace : List (Answered api))
    (h : (trace.findSome? storedSchedule).isSome = true) :
    ∃ name schedule queue task reply b',
      ⟨.newScheduledTask name schedule queue task, reply⟩ ∈ trace ∧
      newScheduledTask (fun _ => .ok ()) 0 0 ∅ none name schedule queue task = .ok b' := by
  obtain ⟨b', hb'⟩ := Option.isSome_iff_exists.mp h
  obtain ⟨e, he, hstored⟩ := List.exists_of_findSome?_eq_some hb'
  unfold storedSchedule at hstored
  split at hstored
  · rename_i name schedule queue task reply
    cases hnew : newScheduledTask (fun _ => .ok ()) 0 0 ∅ none name schedule queue task with
    | error err =>
      rw [hnew] at hstored
      cases hstored
    | ok b => exact ⟨name, schedule, queue, task, reply, b, he, hnew⟩
  · cases hstored

theorem payload_denotes_small :
    let sent : TaskCreateRequest (Json ℚ) := { type := "email:new", payload := some samplePayload }
    let sentSchedule : ScheduleCreateRequest (Json ℚ) :=
      { name := "daily", schedule := "@daily", queue := "EMAIL", taskType := "email:new",
        payload := some samplePayload }
    (∃ record reply bytes,
      ⟨.job (.publishTask record), reply⟩ ∈ servedPayload sent ∧
      record.payload = some bytes ∧ Json.Denotes bytes samplePayload) ∧
    (∃ name schedule queue task reply b' doc st bytes,
      ⟨.newScheduledTask name schedule queue task, reply⟩ ∈ servedSchedule sentSchedule ∧
      newScheduledTask (fun _ => .ok ()) 0 0 ∅ none name schedule queue task = .ok b' ∧
      b'.lookup (configKey name) = some doc ∧ doc.unmarshal = .ok st ∧
      st.payload = some bytes ∧ Json.Denotes bytes samplePayload) := by
  intro sent sentSchedule
  have hprinted : ∀ x ∈ samplePayload.canonical.numbers, IsPrinted x :=
    fun x hx => isPrinted_samplePayload (Json.mem_numbers_canonical hx)
  obtain ⟨htask, hschedule⟩ := payload_denotes_iff samplePayload nofun
  constructor
  · obtain ⟨record, reply, hstored⟩ :=
      exists_mem_of_firstRecord (servedPayload sent) (by decide +kernel)
    obtain ⟨bytes, hbytes, hdenotes⟩ := htask sampleClient sent none (servedPayload sent) record
      reply rfl (Prog.Follows.of_isSome (by decide +kernel)) hstored
    exact ⟨record, reply, bytes, hstored, hbytes, hdenotes.mpr hprinted⟩
  · obtain ⟨name, schedule, queue, task, reply, b', hcall, hnew⟩ :=
      exists_mem_of_storedSchedule (servedSchedule sentSchedule) (by decide +kernel)
    obtain ⟨doc, st, bytes, hdoc, hst, hbytes, hdenotes⟩ := hschedule (fun _ => .ok 0) sentSchedule
      (servedSchedule sentSchedule) name schedule queue task reply rfl
      (Prog.Follows.of_isSome (by decide +kernel)) hcall Unit (fun _ => .ok ()) 0 0 ∅ b' none hnew
    exact ⟨name, schedule, queue, task, reply, b', doc, st, bytes, hcall, hnew, hdoc, hst, hbytes,
      hdenotes.mpr hprinted⟩

/-- The first integer that is not a float is stored as the one below it. -/
theorem payload_rounded :
    let sent : TaskCreateRequest (Json ℚ) :=
      { type := "email:new", payload := some (.number 9007199254740993) }
    ∃ trace record reply bytes,
      ((createTask jsonMarshalAny none sent.unmarshal).interpret sampleClient.serve).Follows
        trace () ∧
      ⟨.job (.publishTask record), reply⟩ ∈ trace ∧ record.payload = some bytes ∧
      Json.decode bytes = some (.number 9007199254740992) ∧
      ¬ Json.Denotes bytes (.number 9007199254740993) := by
  intro sent
  have hrun : ((createTask jsonMarshalAny none sent.unmarshal).interpret
      sampleClient.serve).Follows (servedPayload sent) () :=
    Prog.Follows.of_isSome (by decide +kernel)
  obtain ⟨record, reply, hstored⟩ :=
    exists_mem_of_firstRecord (servedPayload sent) (by decide +kernel)
  have hnull : (.number 9007199254740993 : Json ℚ) ≠ .null := nofun
  have hreprints : Reprints (.number 9007199254740993) record.payload :=
    ((createTask_reprints hnull sampleClient rfl none).follows hrun).1 _ hstored
  have hreprint : reprint 9007199254740993 = 9007199254740992 := by
    exact_mod_cast reprint_of_nearest_intCast (n := 9007199254740992) (by decide)
      (by decide +kernel)
  obtain ⟨bytes, hbytes, hdecode⟩ := hreprints
  have hrounded : Json.decode bytes = some (.number 9007199254740992) := by
    rw [hdecode, ← hreprint]
    rfl
  refine ⟨servedPayload sent, record, reply, bytes, hrun, hstored, hbytes, hrounded, ?_⟩
  rintro ⟨w, hw, hsame⟩
  rw [hrounded, Option.some.injEq] at hw
  rw [← hw] at hsame
  have hnumber : (9007199254740992 : ℚ) = 9007199254740993 := Json.number.inj hsame
  norm_num at hnumber

end AsyncJobs
