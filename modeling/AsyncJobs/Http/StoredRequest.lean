import AsyncJobs.Interaction.Execution
import AsyncJobs.Model.Calls
import AsyncJobs.Model.Http
import Mathlib.Data.List.Induction

/-!
# What a request stores

`CreateTask` carries the fields of a request through the options of `NewTask`, assignments on
its result and `EnqueueTask` of the client. The handler is run on the storage requests of the
client, and the first record it stores is compared with the request. Every field arrives but
the queue, which `EnqueueTask` replaces with the queue of the client.
-/

namespace AsyncJobs

open Interaction

section Serving

/-- The calls of a handler that are left when the client functions are programs. -/
inductive ServerCall where
  | http (c : HttpCall)
  | job (c : Call)

def ServerCall.Reply : ServerCall → Type
  | http c => c.Reply
  | job c => c.Reply

def server : Signature := ⟨ServerCall, ServerCall.Reply⟩

def serverJob {β : Type} (p : Job β) : Prog server β :=
  p.interpret fun c => Prog.invoke (S := server) (.job c)

/-- The client functions in the place of the calls for them. -/
def Client.serve (c : Client) : (h : HttpCall) → Prog server h.Reply
  | .loadTaskByID id => do
    match ← serverJob (c.loadTaskByID .task id) with
    | .error err => return .error err
    | .ok task => return .ok task.toTask
  | .enqueueTask task => do
    let result ← serverJob (c.enqueueTask ⟨task, none⟩)
    match result.1 with
    | some err => return .error err
    | none => return .ok result.2.toTask
  | h => Prog.invoke (S := server) (.http h)

def storedRecord : Answered server → Option Task
  | ⟨.job (.publishTask task), _⟩ => some task.toTask
  | _ => none

def firstRecord (trace : List (Answered server)) : Option Task := trace.findSome? storedRecord

def isCreated : Answered server → Bool
  | ⟨.http (.respond (.task 201 _ _)), _⟩ => true
  | _ => false

end Serving

section Fields

variable {α : Type}

/-- The record has every field that the request gives. -/
structure TaskCreateRequest.AgreesWith (req : TaskCreateRequest α) (record : Task) : Prop where
  type : record.type = req.type
  queue : ∀ queue, req.queue = some queue → record.queue = queue
  deadline : ∀ deadline, req.deadline = some deadline → record.deadline = some deadline
  maxTries : ∀ tries, req.maxTries = some tries → record.maxTries = tries
  dependencies : ∀ ids, req.dependencies = some ids → record.dependencies = ids.eraseDups
  loadDependencies : ∀ load, req.loadDependencies = some load → record.loadDependencies = load
  signature : ∀ signature, req.signature = some signature → record.signature = signature
  payload : ∀ bytes, req.payloadBase64 = some bytes → record.payload = some bytes
  state : record.state = .blocked ↔ req.dependencies.getD [] ≠ []

/-- The loop of `TaskDependsOnIDs` keeps first occurrences. -/
theorem foldl_dependencies (ids : List String) :
    ids.foldl (fun deps id => if id ∈ deps then deps else deps ++ [id]) [] = ids.eraseDups := by
  induction ids using List.reverseRecOn with
  | nil => rfl
  | append_singleton ids id ih =>
    rw [List.foldl_append, ih, List.eraseDups_append]
    by_cases hmem : id ∈ ids
    · simp [List.removeAll, hmem]
    · simp [List.removeAll, hmem, List.eraseDups_cons]

theorem eraseDups_eq_nil {ids : List String} : ids.eraseDups = [] ↔ ids = [] := by
  cases ids with
  | nil => simp
  | cons id ids => simp [List.eraseDups_cons]

/-- The task `NewTask` makes of a request, apart from the payload and the signature. -/
def TaskCreateRequest.base (req : TaskCreateRequest α) (id : String) (now : Int) : Task where
  id := id
  type := req.type
  createdAt := now
  deadline := req.deadline
  maxTries := req.maxTries.getD defaultMaxTries
  dependencies := (req.dependencies.getD []).eraseDups
  loadDependencies := req.loadDependencies.getD false
  state := .new

theorem TaskCreateRequest.applyTaskOpts_opts (req : TaskCreateRequest α) (id : String)
    (now : Int) :
    applyTaskOpts req.opts
      { task :=
          { id := id, type := req.type, createdAt := now, maxTries := defaultMaxTries,
            state := .new } } =
      .ok { task := req.base id now } := by
  obtain ⟨deadline, dependencies, load, tries, payload, base64, queue, signature, type⟩ := req
  simp only [base, ← foldl_dependencies]
  obtain _ | _ | _ := dependencies <;> obtain _ | _ | _ := load <;> cases deadline <;>
    cases tries <;> rfl

/-- What `NewTask` returns for options that set no encoder: the task with the encoded
payload, blocked if it has dependencies. -/
theorem newTask_ok {jsonMarshal : α → Except Error Bytes} {id type : String} {now : Int}
    {payload : Option α} {opts : List (TaskOpt α)} {t : Task} {made : Copy}
    (hopts : applyTaskOpts opts
      { task :=
          { id := id, type := type, createdAt := now, maxTries := defaultMaxTries,
            state := .new } } = .ok { task := t })
    (h : newTask jsonMarshal id now type payload opts = .ok made) :
    ∃ bytes, (payload = none ∧ bytes = t.payload ∨
        ∃ value encoded, payload = some value ∧ jsonMarshal value = .ok encoded ∧
          bytes = some encoded) ∧
      made = ⟨{ t with
        payload := bytes
        state := if t.dependencies = [] then t.state else .blocked }, none⟩ := by
  unfold newTask at h
  split_ifs at h
  simp only [hopts] at h
  split_ifs at h
  have hdependencies : (0 < t.dependencies.length) ↔ t.dependencies ≠ [] :=
    List.length_pos_iff
  cases payload with
  | none =>
    refine ⟨t.payload, Or.inl ⟨rfl, rfl⟩, ?_⟩
    simp only at h
    split_ifs at h with hlength
    · cases h
      rw [if_neg (hdependencies.mp hlength)]
    · cases h
      rw [if_pos (not_not.mp (mt hdependencies.mpr hlength))]
  | some value =>
    simp only [Option.getD_none] at h
    cases hencode : jsonMarshal value with
    | error err =>
      simp only [hencode] at h
      cases h
    | ok encoded =>
      refine ⟨some encoded, Or.inr ⟨value, encoded, rfl, hencode, rfl⟩, ?_⟩
      simp only [hencode] at h
      split_ifs at h with hlength
      · cases h
        rw [if_neg (hdependencies.mp hlength)]
      · cases h
        rw [if_pos (not_not.mp (mt hdependencies.mpr hlength))]

theorem TaskCreateRequest.newTask_ok {jsonMarshal : α → Except Error Bytes}
    {req : TaskCreateRequest α} {id : String} {now : Int} {task : Task}
    (h : req.newTask jsonMarshal id now = .ok task) :
    ∃ encoded, task = { req.base id now with
      payload := req.payloadBase64 <|> encoded
      signature := req.signature.getD ""
      state := if req.dependencies.getD [] = [] then .new else .blocked } := by
  unfold TaskCreateRequest.newTask at h
  generalize (if req.payloadBase64.isNone then req.payload else none) = initialPayload at h
  cases hmade : AsyncJobs.newTask jsonMarshal id now req.type initialPayload req.opts with
  | error err =>
    simp only [hmade] at h
    cases h
  | ok made =>
    simp only [hmade] at h
    cases h
    obtain ⟨encoded, -, rfl⟩ := AsyncJobs.newTask_ok (req.applyTaskOpts_opts id now) hmade
    refine ⟨encoded, ?_⟩
    simp only [base, eraseDups_eq_nil]
    cases req.payloadBase64 <;> rfl

/-- On the queue of the client the task has all that the request gives but the queue. -/
theorem TaskCreateRequest.agreesWith_iff {jsonMarshal : α → Except Error Bytes}
    {req : TaskCreateRequest α} {id queue : String} {now : Int} {task : Task}
    (h : req.newTask jsonMarshal id now = .ok task) :
    req.AgreesWith { task with queue } ↔ req.queue = none ∨ req.queue = some queue := by
  obtain ⟨encoded, rfl⟩ := TaskCreateRequest.newTask_ok h
  constructor
  · intro hagrees
    cases hqueue : req.queue with
    | none => exact Or.inl rfl
    | some given => exact Or.inr (congrArg some (hagrees.queue given hqueue).symm)
  · intro hqueue
    constructor
    · rfl
    · intro given hgiven
      obtain hnone | hsome := hqueue
      · rw [hnone] at hgiven
        cases hgiven
      · exact Option.some.inj (hsome.symm.trans hgiven)
    · intro deadline hgiven
      exact hgiven
    · intro tries hgiven
      simp [base, hgiven]
    · intro ids hgiven
      simp [base, hgiven]
    · intro load hgiven
      simp [base, hgiven]
    · intro signature hgiven
      simp [hgiven]
    · intro bytes hgiven
      simp [hgiven]
    · simp only
      split_ifs with hempty
      · simp [hempty]
      · simp [hempty]

end Fields

section Runs

variable {α : Type} {jsonMarshal : α → Except Error Bytes} {c : Client} {req : TaskCreateRequest α}
  {trace : List (Answered server)}

/-- The call neither stores a record nor answers that a task was created. -/
def ServerCall.Quiet : ServerCall → Prop
  | .job (.publishTask _) | .http (.respond (.task 201 _ _)) => False
  | _ => True

theorem storedRecord_quiet {e : Answered server} (h : ServerCall.Quiet e.1) :
    storedRecord e = none := by
  unfold storedRecord
  split
  · cases h
  · rfl

theorem isCreated_quiet {e : Answered server} (h : ServerCall.Quiet e.1) : isCreated e = false := by
  unfold isCreated
  split
  · cases h
  · rfl

/-- If a task was created, it was made of the request and is the first that was stored. -/
def Enqueues (jsonMarshal : α → Except Error Bytes) (c : Client) (req : TaskCreateRequest α)
    (trace : List (Answered server)) : Prop :=
  trace.any isCreated = true → ∃ id now task, req.newTask jsonMarshal id now = .ok task ∧
    firstRecord trace = some { task with queue := c.opts.queue.name }

theorem enqueues_of_quiet (h : ∀ e ∈ trace, ServerCall.Quiet e.1) :
    Enqueues jsonMarshal c req trace := by
  intro hcreated
  obtain ⟨e, he, hcreated⟩ := List.any_eq_true.mp hcreated
  rw [isCreated_quiet (h e he)] at hcreated
  cases hcreated

theorem Enqueues.append {quiet rest : List (Answered server)}
    (hquiet : ∀ e ∈ quiet, ServerCall.Quiet e.1) (h : Enqueues jsonMarshal c req rest) :
    Enqueues jsonMarshal c req (quiet ++ rest) := by
  have hnone : quiet.findSome? storedRecord = none :=
    List.findSome?_eq_none_iff.mpr fun e he => storedRecord_quiet (hquiet e he)
  intro hcreated
  have hcreated : rest.any isCreated = true := by
    obtain ⟨e, he, hcreated⟩ := List.any_eq_true.mp hcreated
    obtain he | he := List.mem_append.mp he
    · rw [isCreated_quiet (hquiet e he)] at hcreated
      cases hcreated
    · exact List.any_eq_true.mpr ⟨e, he, hcreated⟩
  obtain ⟨id, now, task, htask, hfirst⟩ := h hcreated
  refine ⟨id, now, task, htask, ?_⟩
  rw [firstRecord, List.findSome?_append, hnone, Option.none_or]
  exact hfirst

theorem Call.Quiet.serverQuiet {call : Call} (h : call.Quiet) :
    ServerCall.Quiet (.job call) := by
  cases call <;> trivial

theorem loadTaskByID_quiet (c : Client) (id : String) :
    (c.serve (.loadTaskByID id)).Yields ServerCall.Quiet fun _ => True := by
  apply Prog.Yields.bind (Q := fun _ => True)
  · apply (c.loadTaskByID_yields (C := fun call => ServerCall.Quiet (.job call))
      (fun _ hcall => hcall.serverQuiet) trivial).interpret
    exact fun call hcall => ⟨hcall, fun _ => trivial⟩
  · intro result _
    cases result <;> trivial

theorem respondError_quiet (e : ErrorResponse) :
    ((HttpCall.respond (.error e)).send.interpret c.serve).Yields ServerCall.Quiet
      fun _ => True :=
  ⟨trivial, fun _ => trivial⟩

theorem enqueueTask_stores_first (hkey : c.opts.privateKey = none) (hseed : c.opts.seedFile = "")
    {task : Task} (hstate : task.state = .new ∨ task.state = .blocked)
    {result : Option Error × Copy}
    (h : (serverJob (c.enqueueTask ⟨task, none⟩)).Follows trace result) :
    firstRecord trace = some { task with queue := c.opts.queue.name } := by
  have hsign : ∀ t : Task, c.signTask t = .ok t := by
    intro t
    simp [Client.signTask, hkey, hseed]
  have hallowed : ¬ (task.state ≠ .new ∧ task.state ≠ .retry ∧ task.state ≠ .blocked) := by
    obtain hnew | hblocked := hstate
    · exact fun hother => hother.1 hnew
    · exact fun hother => hother.2.2 hblocked
  simp only [Client.enqueueTask, hsign, Storage.enqueueTask, if_neg hallowed] at h
  obtain ⟨reply, rest, rfl, -⟩ := Prog.Follows.of_call h
  rfl

theorem TaskCreateRequest.newTask_state {id : String} {now : Int} {task : Task}
    (h : req.newTask jsonMarshal id now = .ok task) :
    task.state = .new ∨ task.state = .blocked := by
  obtain ⟨encoded, rfl⟩ := TaskCreateRequest.newTask_ok h
  simp only
  split_ifs
  · exact Or.inl rfl
  · exact Or.inr rfl

theorem createFresh_enqueues (key : Option String) (hkey : c.opts.privateKey = none)
    (hseed : c.opts.seedFile = "")
    (h : ((createFresh jsonMarshal key (.ok req)).interpret c.serve).Follows trace ()) :
    Enqueues jsonMarshal c req trace := by
  by_cases hboth : req.payload.isSome ∧ req.payloadBase64.isSome
  · simp only [createFresh, readCreateTaskBody, if_pos hboth] at h
    exact enqueues_of_quiet ((respondError_quiet _).follows h).1
  · simp only [createFresh, readCreateTaskBody, if_neg hboth] at h
    obtain ⟨id, afterID, rfl, hnow⟩ := Prog.Follows.of_call h
    obtain ⟨now, rest, rfl, htail⟩ := Prog.Follows.of_call hnow
    have hquiet : ∀ e ∈ [(⟨.http .newID, id⟩ : Answered server), ⟨.http .now, now⟩],
        ServerCall.Quiet e.1 := by
      simp [ServerCall.Quiet]
    apply Enqueues.append hquiet
    cases htask : req.newTask jsonMarshal id now with
    | error e =>
      simp only [Prog.bind, htask] at htail
      exact enqueues_of_quiet ((respondError_quiet e).follows htail).1
    | ok task =>
      simp only [Prog.bind, htask] at htail
      obtain ⟨served, respond, reply, rfl, hserved, -⟩ := Prog.Follows.of_bind htail
      obtain ⟨stores, returned, result, rfl, hstores, -⟩ := Prog.Follows.of_bind hserved
      intro _
      refine ⟨id, now, task, htask, ?_⟩
      have hfirst := enqueueTask_stores_first hkey hseed (TaskCreateRequest.newTask_state htask)
        hstores
      rw [firstRecord] at hfirst
      rw [firstRecord, List.append_assoc, List.findSome?_append, hfirst, Option.some_or]

theorem createTask_enqueues {key : Option String} (hkey : c.opts.privateKey = none)
    (hseed : c.opts.seedFile = "")
    (h : ((createTask jsonMarshal key (.ok req)).interpret c.serve).Follows trace ()) :
    Enqueues jsonMarshal c req trace := by
  cases key with
  | none => exact createFresh_enqueues none hkey hseed h
  | some key =>
    obtain ⟨remembered, rest, rfl, hrest⟩ := Prog.Follows.of_call h
    have hquiet : ∀ e ∈ [(⟨.http (.lookup key), remembered⟩ : Answered server)],
        ServerCall.Quiet e.1 := by
      simp [ServerCall.Quiet]
    apply Enqueues.append hquiet
    cases remembered with
    | none => exact createFresh_enqueues (some key) hkey hseed hrest
    | some id =>
      simp only [Prog.bind] at hrest
      obtain ⟨loads, tail, loaded, rfl, hloads, htail⟩ := Prog.Follows.of_bind hrest
      apply Enqueues.append ((loadTaskByID_quiet c id).follows hloads).1
      cases loaded with
      | error err => exact createFresh_enqueues (some key) hkey hseed htail
      | ok task =>
        have hyields : ((HttpCall.respond
            (.task 200 ("/v1/tasks/" ++ task.id) task)).send.interpret c.serve).Yields
            ServerCall.Quiet fun _ => True :=
          ⟨trivial, fun _ => trivial⟩
        exact enqueues_of_quiet (hyields.follows htail).1

end Runs

/-- A request that creates a task on a client without a signing key has its fields in the
record that is stored first, except that the record is on the queue of the client whatever
queue the request names. -/
theorem stored_record_agrees_iff {α : Type} (jsonMarshal : α → Except Error Bytes) (c : Client)
    (hkey : c.opts.privateKey = none) (hseed : c.opts.seedFile = "") (key : Option String)
    (req : TaskCreateRequest α) (trace : List (Answered server))
    (hrun : ((createTask jsonMarshal key (.ok req)).interpret c.serve).Follows trace ())
    (hcreated : trace.any isCreated = true) :
    ∃ record, firstRecord trace = some record ∧
      (req.AgreesWith record ↔ req.queue = none ∨ req.queue = some c.opts.queue.name) := by
  obtain ⟨id, now, task, htask, hfirst⟩ := createTask_enqueues hkey hseed hrun hcreated
  exact ⟨_, hfirst, TaskCreateRequest.agreesWith_iff htask⟩

/-- The identifier and the time are fixed, nothing is remembered and every request succeeds. -/
def acceptingServer : (c : ServerCall) → Option c.Reply
  | .http .newID => some "T1"
  | .http .now => some (0 : Int)
  | .http (.lookup _) => some none
  | .http (.store _ _) => some ()
  | .http (.respond _) => some ()
  | .job (.publishTask _) => some (.ok 1)
  | .job (.publishEvent _) => some none
  | .job (.publishItem _ _ _) => some (.ok false)
  | _ => none

def encodeNothing : Unit → Except Error Bytes := fun _ => .ok []

def servedRequest (req : TaskCreateRequest Unit) : List (Answered server) :=
  ((((createTask encodeNothing (some "K") (.ok req)).interpret sampleClient.serve).transcript
    acceptingServer).map Prod.fst).getD []

/-- A request with dependencies for the queue of the client. -/
def dependentRequest : TaskCreateRequest Unit :=
  { type := "email:new", queue := some "EMAIL", dependencies := some ["A", "B", "A"],
    payloadBase64 := some [1, 2], maxTries := some 3 }

theorem stored_record_agrees_email :
    ∃ record, firstRecord (servedRequest dependentRequest) = some record ∧
      dependentRequest.AgreesWith record := by
  obtain ⟨record, hfirst, hagrees⟩ := stored_record_agrees_iff encodeNothing sampleClient rfl rfl
    (some "K") dependentRequest (servedRequest dependentRequest)
    (Prog.Follows.of_isSome (by decide +kernel)) (by decide +kernel)
  exact ⟨record, hfirst, hagrees.mpr (Or.inr rfl)⟩

/-- The queue of a request is not the one its task is stored on. -/
theorem stored_on_other_queue :
    let req : TaskCreateRequest Unit := { type := "email:new", queue := some "REPORTS" }
    ∃ trace record,
      ((createTask encodeNothing (some "K") (.ok req)).interpret sampleClient.serve).Follows
        trace () ∧
      trace.any isCreated = true ∧ firstRecord trace = some record ∧ record.queue = "EMAIL" ∧
      ¬ req.AgreesWith record := by
  intro req
  refine ⟨servedRequest req, { sampleTask with queue := "EMAIL" }, ?_, ?_, ?_, rfl, ?_⟩
  · exact Prog.Follows.of_isSome (by decide +kernel)
  · decide +kernel
  · decide +kernel
  · intro hagrees
    exact absurd (hagrees.queue "REPORTS" rfl) (by decide)

end AsyncJobs
