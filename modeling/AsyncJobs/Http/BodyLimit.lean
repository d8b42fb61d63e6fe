import AsyncJobs.Codec.Reader
import AsyncJobs.Http.QueueCalls
import AsyncJobs.Interaction.Execution

/-!
# Bodies that are too long

The four endpoints that decode a body read it through the limit that `bodyLimitMiddleware`
puts on it. Whatever the body is, no response is 413 or has the code `payload_too_large`: the
error of the limited reader is reported as invalid JSON, and it is only seen at all when the
first JSON value does not end within the limit.
-/

namespace AsyncJobs

open Interaction Reader

section Endpoints

def isSpace (b : UInt8) : Bool := b = 32 || b = 9 || b = 10 || b = 13

/-- The bytes of a body that can be read and whether an error ends them. -/
def bodyLimitMiddleware (limit : ℕ) (body : List Bytes) : List Bytes × Bool := limited limit body

def bodyTooLarge : Error := .plain "http: request body too large"

/-- `Decode` on a body. At its end a value is complete that a blank would complete. -/
def decodeBody {ρ : Type} (d : Decoder UInt8 (Except Error ρ)) (body : List Bytes × Bool) :
    Except Error ρ :=
  match d.read [] body.1 with
  | .value result => result
  | .incomplete =>
    if body.2 then .error bodyTooLarge
    else match d.decode (body.1.flatten ++ [32]) with
      | .value result => result
      | .incomplete =>
        .error (.plain (if body.1.flatten.all isSpace then "EOF" else "unexpected EOF"))

/-- The endpoints that read a body, with the `Idempotency-Key` of a task. -/
inductive Post where
  | createTask (key : Option String)
  | retryTasks
  | createQueue
  | createSchedule

inductive PostCall where
  | task (c : HttpCall)
  | api (c : ApiCall)

def PostCall.Reply : PostCall → Type
  | task c => c.Reply
  | api c => c.Reply

def posts : Signature := ⟨PostCall, PostCall.Reply⟩

/-- The options of the server and the decoders of the four bodies; `α` are the JSON values. -/
structure PostServer (α : Type) where
  maxBodyBytes : ℕ
  allowCreateDefaultQueue : Bool
  jsonMarshal : α → Except Error Bytes
  parseDuration : String → Except Error Int
  tasks : Decoder UInt8 (Except Error (TaskCreateRequest α))
  retries : Decoder UInt8 (Except Error (List String))
  queues : Decoder UInt8 (Except Error QueueCreateRequest)
  schedules : Decoder UInt8 (Except Error (ScheduleCreateRequest α))

namespace PostServer

variable {α : Type} (s : PostServer α)

def ofTask (p : Http Unit) : Prog posts Unit :=
  p.interpret fun c => Prog.invoke (S := posts) (.task c)

def ofApi (p : Api Unit) : Prog posts Unit :=
  p.interpret fun c => Prog.invoke (S := posts) (.api c)

def serve (post : Post) (chunks : List Bytes) : Prog posts Unit :=
  let body := bodyLimitMiddleware s.maxBodyBytes chunks
  match post with
  | .createTask key => ofTask (createTask s.jsonMarshal key (decodeBody s.tasks body))
  | .retryTasks => ofApi (retryTasks (decodeBody s.retries body))
  | .createQueue =>
    ofApi (createQueue s.parseDuration s.allowCreateDefaultQueue (decodeBody s.queues body))
  | .createSchedule =>
    ofApi (createSchedule s.jsonMarshal s.parseDuration (decodeBody s.schedules body))

/-- The bytes hold no complete value for the decoder of the endpoint. -/
def incomplete (post : Post) (input : Bytes) : Bool :=
  match post with
  | .createTask _ => (s.tasks.decode input).isIncomplete
  | .retryTasks => (s.retries.decode input).isIncomplete
  | .createQueue => (s.queues.decode input).isIncomplete
  | .createSchedule => (s.schedules.decode input).isIncomplete

end PostServer

end Endpoints

section Answers

structure Answer where
  status : ℕ
  error : Option ErrorResponse
  deriving DecidableEq, Repr

def Response.answer : Response → Answer
  | task status _ _ => ⟨status, none⟩
  | error e => ⟨e.status, some e⟩

def ApiResponse.answer : ApiResponse → Answer
  | queue status _ | schedule status _ | retried status _ => ⟨status, none⟩
  | error e => ⟨e.status, some e⟩

def HttpCall.answer : HttpCall → Option Answer
  | .respond response => some response.answer
  | _ => none

def ApiCall.answer : ApiCall → Option Answer
  | .respond response => some response.answer
  | _ => none

def PostCall.answer : PostCall → Option Answer
  | task c => c.answer
  | api c => c.answer

/-- The calls that create or change a task, a queue or a schedule. -/
def PostCall.changes : PostCall → Bool
  | task (.enqueueTask _) | api (.setup (.loadOrNewStream _ _))
  | api (.setup (.loadOrNewConsumer _ _)) | api (.retryTaskByID _)
  | api (.newScheduledTask _ _ _ _) => true
  | _ => false

def answers (trace : List (Answered posts)) : List Answer :=
  trace.filterMap fun e => PostCall.answer e.1

/-- The answer that is documented for a body that is too long. -/
structure RejectedAsTooLarge (trace : List (Answered posts)) : Prop where
  answer : ∃ e, answers trace = [⟨413, some e⟩] ∧ e.code = .payloadTooLarge
  unchanged : ∀ e ∈ trace, PostCall.changes e.1 = false

end Answers

section Handlers

variable {Q : Answer → Prop}

/-- The handler answers once, at its end, as described. -/
def Http.Answers (Q : Answer → Prop) (p : Http Unit) : Prop :=
  p.Concludes (fun c : HttpCall => c.answer.isSome = true)
    fun c : HttpCall => ∀ a, c.answer = some a → Q a

def Api.Answers (Q : Answer → Prop) (p : Api Unit) : Prop :=
  p.Concludes (fun c : ApiCall => c.answer.isSome = true)
    fun c : ApiCall => ∀ a, c.answer = some a → Q a

theorem HttpCall.respond_answers {response : Response} (h : Q response.answer) :
    Http.Answers Q (HttpCall.respond response).send := by
  apply Prog.Concludes.invoke
  · rfl
  · intro a ha
    cases ha
    exact h

theorem ApiCall.respond_answers {response : ApiResponse} (h : Q response.answer) :
    Api.Answers Q (ApiCall.respond response).send := by
  apply Prog.Concludes.invoke
  · rfl
  · intro a ha
    cases ha
    exact h

theorem writeLibraryError_status (err : Error) : (writeLibraryError err).status ≠ 413 := by
  have hrows : ∀ row ∈ libraryErrors, row.2.1 ≠ 413 := by decide
  unfold writeLibraryError
  cases hfind : libraryErrors.find? fun row => row.1.any err.is with
  | none => simp
  | some row => exact hrows row (List.mem_of_find?_eq_some hfind)

variable {α : Type} {jsonMarshal : α → Except Error Bytes}
  {parseDuration : String → Except Error Int}

theorem TaskCreateRequest.newTask_error {req : TaskCreateRequest α} {id : String} {now : Int}
    {e : ErrorResponse} (h : req.newTask jsonMarshal id now = .error e) : e.status ≠ 413 := by
  unfold TaskCreateRequest.newTask at h
  generalize (if req.payloadBase64.isNone then req.payload else none) = initialPayload at h
  cases hmade : AsyncJobs.newTask jsonMarshal id now req.type initialPayload req.opts with
  | error err =>
    simp only [hmade] at h
    cases h
    exact writeLibraryError_status err
  | ok made =>
    simp only [hmade] at h
    cases h

theorem readCreateTaskBody_errors (body : Except Error (TaskCreateRequest α)) :
    (readCreateTaskBody jsonMarshal body).Yields
      (fun c : HttpCall => ¬ c.answer.isSome = true)
      fun result => ∀ e, result = .error e → e.status ≠ 413 := by
  cases body with
  | error err =>
    intro e he
    cases he
    simp
  | ok req =>
    by_cases hboth : req.payload.isSome ∧ req.payloadBase64.isSome
    · rw [readCreateTaskBody, if_pos hboth]
      intro e he
      cases he
      simp
    · rw [readCreateTaskBody, if_neg hboth]
      refine ⟨nofun, fun id => ⟨nofun, fun now e he => ?_⟩⟩
      exact TaskCreateRequest.newTask_error he

theorem createFresh_answers (key : Option String) (body : Except Error (TaskCreateRequest α)) :
    (createFresh jsonMarshal key body).Answers (·.status ≠ 413) := by
  apply Prog.Concludes.bind (readCreateTaskBody_errors body)
  intro result hresult
  cases result with
  | error e => exact HttpCall.respond_answers (hresult e rfl)
  | ok task =>
    refine Or.inr ⟨nofun, fun reply => ?_⟩
    cases reply with
    | error err => exact HttpCall.respond_answers (writeLibraryError_status err)
    | ok task =>
      cases key with
      | none => exact HttpCall.respond_answers (by simp [Response.answer])
      | some key =>
        exact Or.inr ⟨nofun, fun _ => HttpCall.respond_answers (by simp [Response.answer])⟩

theorem createTask_answers (key : Option String) (body : Except Error (TaskCreateRequest α)) :
    (createTask jsonMarshal key body).Answers (·.status ≠ 413) := by
  cases key with
  | none => exact createFresh_answers none body
  | some key =>
    refine Or.inr ⟨nofun, fun remembered => ?_⟩
    cases remembered with
    | none => exact createFresh_answers (some key) body
    | some id =>
      refine Or.inr ⟨nofun, fun loaded => ?_⟩
      cases loaded with
      | error err => exact createFresh_answers (some key) body
      | ok task => exact HttpCall.respond_answers (by simp [Response.answer])

theorem Looks.not_answer {c : ApiCall} (hc : Looks c) : ¬ c.answer.isSome = true :=
  hc.elim (C := fun c : ApiCall => ¬ c.answer.isSome = true) nofun (fun _ => nofun)
    (fun _ _ => nofun) (fun _ => nofun) fun _ _ => nofun

theorem prepareQueue_yields (q : QueueConfig) :
    (prepareQueue q).Yields (fun c : ApiCall => ¬ c.answer.isSome = true) fun _ => True := by
  apply Prog.Yields.bind (Q := fun _ => True)
  · exact (Prog.Yields.trivial _).interpret fun c _ => ⟨nofun, fun _ => trivial⟩
  · exact fun _ _ => trivial

theorem createCheckedQueue_answers (q : QueueConfig) :
    (createCheckedQueue q).Answers (·.status ≠ 413) := by
  have hlook := (queueInfo_yields q.name).mono (fun _ hc => Looks.not_answer hc)
    fun _ (_ : _) => trivial
  apply Prog.Concludes.bind hlook
  intro result _
  cases result with
  | ok nfo => exact ApiCall.respond_answers (by simp [ApiResponse.answer])
  | error err =>
    apply Prog.Concludes.bind (prepareQueue_yields q)
    intro result _
    cases result with
    | some err => exact ApiCall.respond_answers (writeLibraryError_status err)
    | none =>
      apply Prog.Concludes.bind hlook
      intro result _
      cases result with
      | error err => exact ApiCall.respond_answers (writeLibraryError_status err)
      | ok nfo => exact ApiCall.respond_answers (by simp [ApiResponse.answer])

theorem parseField_error {field : String} {text : Option String} {e : ErrorResponse}
    (h : parseField parseDuration field text = .error e) : e.status = 400 := by
  cases text with
  | none => cases h
  | some text =>
    cases hparse : parseDuration text with
    | error err =>
      simp only [parseField, hparse] at h
      cases h
      rfl
    | ok d =>
      simp only [parseField, hparse] at h
      cases h

theorem QueueCreateRequest.queue_error {req : QueueCreateRequest} {allowCreateDefaultQueue : Bool}
    {e : ErrorResponse} (h : req.queue parseDuration allowCreateDefaultQueue = .error e) :
    e.status = 400 := by
  unfold QueueCreateRequest.queue at h
  split_ifs at h
  · cases h
    rfl
  · cases h
    rfl
  · cases hage : parseField parseDuration "max_age" req.maxAge with
    | error e =>
      rw [hage] at h
      cases h
      exact parseField_error hage
    | ok maxAge =>
      cases hruntime : parseField parseDuration "max_runtime" req.maxRuntime with
      | error e =>
        rw [hage, hruntime] at h
        cases h
        exact parseField_error hruntime
      | ok maxRunTime =>
        rw [hage, hruntime] at h
        cases h

theorem createQueue_answers (allowCreateDefaultQueue : Bool)
    (body : Except Error QueueCreateRequest) :
    (createQueue parseDuration allowCreateDefaultQueue body).Answers (·.status ≠ 413) := by
  unfold createQueue
  cases body with
  | error err => exact ApiCall.respond_answers (by simp [ApiResponse.answer, invalidJson])
  | ok req =>
    cases hqueue : req.queue parseDuration allowCreateDefaultQueue with
    | error e =>
      simp only [hqueue]
      have hstatus := QueueCreateRequest.queue_error hqueue
      exact ApiCall.respond_answers (by simp [ApiResponse.answer, hstatus])
    | ok q =>
      simp only [hqueue]
      exact createCheckedQueue_answers q

theorem ScheduleCreateRequest.deadline_yields (req : ScheduleCreateRequest α) :
    (req.deadline parseDuration).Yields (fun c : ApiCall => ¬ c.answer.isSome = true)
      fun result => ∀ e, result = .error e → e.status = 400 := by
  unfold ScheduleCreateRequest.deadline
  cases req.deadlineOffset with
  | none => exact nofun
  | some offset =>
    cases hparse : parseField parseDuration "deadline_offset" (some offset) with
    | error e =>
      simp only [hparse]
      intro e he
      cases he
      exact parseField_error hparse
    | ok d =>
      simp only [hparse]
      exact ⟨nofun, fun _ => nofun⟩

theorem createDecodedSchedule_answers (req : ScheduleCreateRequest α) :
    (createDecodedSchedule jsonMarshal parseDuration req).Answers (·.status ≠ 413) := by
  unfold createDecodedSchedule
  by_cases hboth : req.payload.isSome ∧ req.payloadBase64.isSome
  · rw [if_pos hboth]
    exact ApiCall.respond_answers (by simp [ApiResponse.answer])
  · rw [if_neg hboth]
    apply Prog.Concludes.bind req.deadline_yields
    intro result hresult
    cases result with
    | error e =>
      have hstatus := hresult e rfl
      exact ApiCall.respond_answers (by simp [ApiResponse.answer, hstatus])
    | ok deadline =>
      refine Or.inr ⟨nofun, fun id => Or.inr ⟨nofun, fun now => ?_⟩⟩
      cases hmade : req.newTask jsonMarshal deadline id now with
      | error err =>
        simp only [Prog.bind, hmade]
        exact ApiCall.respond_answers (writeLibraryError_status err)
      | ok task =>
        simp only [Prog.bind, hmade]
        refine Or.inr ⟨nofun, fun refused => ?_⟩
        cases refused with
        | some err => exact ApiCall.respond_answers (writeLibraryError_status err)
        | none =>
          refine Or.inr ⟨nofun, fun loaded => ?_⟩
          cases loaded with
          | error err => exact ApiCall.respond_answers (writeLibraryError_status err)
          | ok st => exact ApiCall.respond_answers (by simp [ApiResponse.answer])

theorem createSchedule_answers (body : Except Error (ScheduleCreateRequest α)) :
    (createSchedule jsonMarshal parseDuration body).Answers (·.status ≠ 413) := by
  cases body with
  | error err => exact ApiCall.respond_answers (by simp [ApiResponse.answer, invalidJson])
  | ok req => exact createDecodedSchedule_answers req

theorem retryEach_yields (ids : List String) :
    (retryEach ids).Yields (fun c : ApiCall => ¬ c.answer.isSome = true) fun _ => True := by
  induction ids with
  | nil => trivial
  | cons id ids ih =>
    refine ⟨nofun, fun err => ?_⟩
    apply ih.bind
    exact fun _ _ => trivial

theorem retryTasks_answers (body : Except Error (List String)) :
    (retryTasks body).Answers (·.status ≠ 413) := by
  cases body with
  | error err => exact ApiCall.respond_answers (by simp [ApiResponse.answer, invalidJson])
  | ok ids =>
    rw [retryTasks]
    split_ifs
    · exact ApiCall.respond_answers (by simp [ApiResponse.answer])
    · exact ApiCall.respond_answers (by simp [ApiResponse.answer])
    · apply Prog.Concludes.bind (retryEach_yields ids)
      exact fun results _ => ApiCall.respond_answers (by simp [ApiResponse.answer])

theorem createTask_unread (key : Option String) (err : Error) :
    (createTask jsonMarshal key (.error err)).Answers
      fun a => a = ⟨400, some (invalidJson err)⟩ ∨ a.status = 200 := by
  have hfresh : ∀ key, (createFresh jsonMarshal key (.error err)).Answers
      fun a => a = ⟨400, some (invalidJson err)⟩ ∨ a.status = 200 :=
    fun _ => HttpCall.respond_answers (Or.inl rfl)
  cases key with
  | none => exact hfresh none
  | some key =>
    refine Or.inr ⟨nofun, fun remembered => ?_⟩
    cases remembered with
    | none => exact hfresh (some key)
    | some id =>
      refine Or.inr ⟨nofun, fun loaded => ?_⟩
      cases loaded with
      | error err => exact hfresh (some key)
      | ok task => exact HttpCall.respond_answers (Or.inr rfl)

theorem createTask_unchanged (key : Option String) (err : Error) :
    (createTask jsonMarshal key (.error err)).Yields
      (fun c : HttpCall => (PostCall.task c).changes = false) fun _ => True := by
  cases key with
  | none => exact ⟨rfl, fun _ => trivial⟩
  | some key =>
    refine ⟨rfl, fun remembered => ?_⟩
    cases remembered with
    | none => exact ⟨rfl, fun _ => trivial⟩
    | some id =>
      refine ⟨rfl, fun loaded => ?_⟩
      cases loaded with
      | error err => exact ⟨rfl, fun _ => trivial⟩
      | ok task => exact ⟨rfl, fun _ => trivial⟩

end Handlers

section Limit

variable {α ρ : Type} {Q : Answer → Prop}

/-- The first value of a body that is too long is read if it ends within the limit. -/
theorem decodeBody_of_exceeded (d : Decoder UInt8 (Except Error ρ)) {limit : ℕ}
    {chunks : List Bytes} (hsize : limit < chunks.flatten.length) :
    decodeBody d (bodyLimitMiddleware limit chunks) =
      match d.decode (chunks.flatten.take limit) with
      | .value result => result
      | .incomplete => .error bodyTooLarge := by
  have hexceeded : (limited limit chunks).2 = true := (limited_exceeded limit chunks).mpr hsize
  rw [decodeBody, bodyLimitMiddleware, d.read_eq, List.nil_append, limited_flatten, hexceeded]
  rfl

theorem decodeBody_of_incomplete {d : Decoder UInt8 (Except Error ρ)} {limit : ℕ}
    {chunks : List Bytes} (hsize : limit < chunks.flatten.length)
    (h : (d.decode (chunks.flatten.take limit)).isIncomplete = true) :
    decodeBody d (bodyLimitMiddleware limit chunks) = .error bodyTooLarge := by
  rw [decodeBody_of_exceeded d hsize]
  cases hdecode : d.decode (chunks.flatten.take limit) with
  | value result =>
    rw [hdecode] at h
    cases h
  | incomplete => rfl

def Answering (Q : Answer → Prop) (p : Prog posts Unit) : Prop :=
  p.Concludes (fun c : PostCall => c.answer.isSome = true)
    fun c : PostCall => ∀ a, c.answer = some a → Q a

theorem Http.Answers.answering {p : Http Unit} (h : p.Answers Q) :
    Answering Q (PostServer.ofTask p) := by
  unfold Http.Answers at h
  apply h.interpret (T := posts) (f := PostCall.task) (g := fun _ r => r)
  · exact fun _ => Iff.rfl
  · exact fun _ hc => hc

theorem Api.Answers.answering {p : Api Unit} (h : p.Answers Q) :
    Answering Q (PostServer.ofApi p) := by
  unfold Api.Answers at h
  apply h.interpret (T := posts) (f := PostCall.api) (g := fun _ r => r)
  · exact fun _ => Iff.rfl
  · exact fun _ hc => hc

theorem Answering.answers {p : Prog posts Unit} (h : Answering Q p)
    {trace : List (Answered posts)} (hrun : p.Follows trace ()) :
    ∃ a, AsyncJobs.answers trace = [a] ∧ Q a := by
  obtain ⟨before, last, rfl, hbefore, hlast, hgood⟩ := h.follows hrun
  obtain ⟨a, ha⟩ := Option.isSome_iff_exists.mp hlast
  refine ⟨a, ?_, hgood a ha⟩
  have hnone : before.filterMap (fun e => PostCall.answer e.1) = [] := by
    apply List.filterMap_eq_nil_iff.mpr
    intro e he
    exact Option.not_isSome_iff_eq_none.mp (hbefore e he)
  rw [AsyncJobs.answers, List.filterMap_append, hnone, List.filterMap_cons, ha]
  rfl

namespace PostServer

variable (s : PostServer α)

theorem serve_answering (post : Post) (chunks : List Bytes) :
    Answering (·.status ≠ 413) (s.serve post chunks) := by
  cases post with
  | createTask key => exact (createTask_answers key _).answering
  | retryTasks => exact (retryTasks_answers _).answering
  | createQueue => exact (createQueue_answers _ _).answering
  | createSchedule => exact (createSchedule_answers _).answering

theorem serve_unread {post : Post} {chunks : List Bytes}
    (hsize : s.maxBodyBytes < chunks.flatten.length)
    (h : s.incomplete post (chunks.flatten.take s.maxBodyBytes) = true) :
    Answering (fun a => a = ⟨400, some (invalidJson bodyTooLarge)⟩ ∨ a.status = 200)
        (s.serve post chunks) ∧
      (s.serve post chunks).Yields (fun c : PostCall => c.changes = false) fun _ => True := by
  cases post with
  | createTask key =>
    rw [serve, decodeBody_of_incomplete hsize h]
    refine ⟨(createTask_unread key _).answering, ?_⟩
    exact (createTask_unchanged key _).interpret fun c hc => ⟨hc, fun _ => trivial⟩
  | retryTasks =>
    rw [serve, decodeBody_of_incomplete hsize h]
    exact ⟨(ApiCall.respond_answers (Or.inl rfl)).answering, rfl, fun _ => trivial⟩
  | createQueue =>
    rw [serve, decodeBody_of_incomplete hsize h]
    exact ⟨(ApiCall.respond_answers (Or.inl rfl)).answering, rfl, fun _ => trivial⟩
  | createSchedule =>
    rw [serve, decodeBody_of_incomplete hsize h]
    exact ⟨(ApiCall.respond_answers (Or.inl rfl)).answering, rfl, fun _ => trivial⟩

end PostServer

end Limit

/-- No body that is too long is answered as documented. Every request is answered once and
never with 413; if the first value does not end within the limit nothing is changed, and the
answer is that the JSON is invalid, unless the key of the request was remembered. -/
theorem oversize_body_not_rejected {α : Type} (s : PostServer α) (post : Post)
    (chunks : List Bytes) (hsize : s.maxBodyBytes < chunks.flatten.length)
    (trace : List (Answered posts)) (hrun : (s.serve post chunks).Follows trace ()) :
    ¬ RejectedAsTooLarge trace ∧ ∃ a, answers trace = [a] ∧ a.status ≠ 413 ∧
      (s.incomplete post (chunks.flatten.take s.maxBodyBytes) = true →
        (a = ⟨400, some (invalidJson bodyTooLarge)⟩ ∨ a.status = 200) ∧
          ∀ e ∈ trace, PostCall.changes e.1 = false) := by
  obtain ⟨a, ha, hstatus⟩ := (s.serve_answering post chunks).answers hrun
  constructor
  · intro hrejected
    obtain ⟨e, he, -⟩ := hrejected.answer
    rw [ha] at he
    cases he
    exact hstatus rfl
  · refine ⟨a, ha, hstatus, fun hincomplete => ?_⟩
    obtain ⟨hanswering, hunchanged⟩ := s.serve_unread hsize hincomplete
    obtain ⟨b, hb, hinvalid⟩ := hanswering.answers hrun
    rw [ha] at hb
    cases hb
    exact ⟨hinvalid, (hunchanged.follows hrun).1⟩

section Sample

def upToBrace {ρ : Type} (result : ρ) : Decoder UInt8 ρ where
  decode input := if 125 ∈ input then .value result else .incomplete
  stops := by
    intro input r h rest
    split_ifs at h with hmem
    rw [if_pos (List.mem_append_left rest hmem)]
    exact h

def shortBodies : PostServer Unit where
  maxBodyBytes := 20
  allowCreateDefaultQueue := false
  jsonMarshal _ := .ok []
  parseDuration _ := .error (.plain "invalid duration")
  tasks := upToBrace (.ok { type := "email:new" })
  retries := upToBrace (.ok ["T1"])
  queues := upToBrace (.ok { name := "EMAIL" })
  schedules := upToBrace (.ok { name := "daily", schedule := "@daily", queue := "EMAIL",
                                taskType := "email:new" })

/-- The identifier and the time are fixed and `EnqueueTask` succeeds. -/
def acceptingPosts : (c : PostCall) → Option c.Reply
  | .task .newID => some "T1"
  | .task .now => some (0 : Int)
  | .task (.enqueueTask task) => some (.ok task)
  | .task (.respond _) => some ()
  | .api (.respond _) => some ()
  | _ => none

def postedBody (post : Post) (chunks : List Bytes) : List (Answered posts) :=
  (((shortBodies.serve post chunks).transcript acceptingPosts).map Prod.fst).getD []

def emailBody : Bytes := "\x7b\"type\":\"email:new\"\x7d".toUTF8.toList

def unfinishedBody : List Bytes := ["\x7b\"name\":\"".toUTF8.toList, List.replicate 20 65]

theorem oversize_unfinished_not_rejected :
    ¬ RejectedAsTooLarge (postedBody .createQueue unfinishedBody) ∧
      answers (postedBody .createQueue unfinishedBody) =
        [⟨400, some (invalidJson bodyTooLarge)⟩] := by
  have hrejected := (oversize_body_not_rejected shortBodies .createQueue unfinishedBody
    (by decide +kernel) (postedBody .createQueue unfinishedBody)
    (Prog.Follows.of_isSome (by decide +kernel))).1
  exact ⟨hrejected, by decide +kernel⟩

/-- With a blank behind its only value the body is too long, and a task is created. -/
theorem oversize_body_creates_task :
    let body := [emailBody, [32]]
    ∃ trace, shortBodies.maxBodyBytes < body.flatten.length ∧
      (shortBodies.serve (.createTask none) body).Follows trace () ∧
      answers trace = [⟨201, none⟩] ∧ trace.any (fun e => PostCall.changes e.1) = true ∧
      ¬ RejectedAsTooLarge trace := by
  intro body
  have hanswers : answers (postedBody (.createTask none) body) = [⟨201, none⟩] := by
    decide +kernel
  refine ⟨postedBody (.createTask none) body, by decide +kernel,
    Prog.Follows.of_isSome (by decide +kernel), hanswers, by decide +kernel, ?_⟩
  intro hrejected
  obtain ⟨e, he, -⟩ := hrejected.answer
  rw [hanswers] at he
  cases he

end Sample

end AsyncJobs
