import AsyncJobs.Model.Mux
import AsyncJobs.Model.Processor

/-!
# Handlers and the request-reply handler

The part of `handle` that `Model.Processor` leaves to the request `runHandler`: the router is
asked for the handler of the task, which runs with a context made by `handle`. A handler is
a program over the requests of the package, the requests that delegate a task to a remote
service, and those of the application's own code, which are not fixed here.
-/

namespace AsyncJobs

open Interaction

/-- How a context was made. Cancelling one, by hand or with a timer, is not part of it. -/
inductive Ctx where
  | background
  | withCancel (parent : Ctx)
  | withDeadline (parent : Ctx) (d : Int)
  deriving DecidableEq, Repr

/-- `Context.Deadline`. A parent that ends earlier keeps its deadline. -/
def Ctx.deadline : Ctx → Option Int
  | background => none
  | withCancel parent => parent.deadline
  | withDeadline parent d =>
    match parent.deadline with
    | none => some d
    | some cur => if cur < d then some cur else some d

structure Msg where
  subject : String
  header : List (String × String) := []
  data : Bytes := []
  deriving DecidableEq, Repr

/-- `Header.Get`: the first value, or the empty text. -/
def Msg.get (msg : Msg) (key : String) : String := (msg.header.lookup key).getD ""

/-- A connection is known by its number. -/
inductive HandlerCall (E : Signature) where
  | job (c : Call)
  | requestMsg (nc : Nat) (ctx : Ctx) (msg : Msg)
  | application (c : E.Call)

def HandlerCall.Reply {E : Signature} : HandlerCall E → Type
  | job c => c.Reply
  | requestMsg _ _ _ => Except Error Msg
  | application c => E.Reply c

def handling (E : Signature) : Signature := ⟨HandlerCall E, HandlerCall.Reply⟩

section

variable {E : Signature}

def perform (c : HandlerCall E) : Prog (handling E) c.Reply := Prog.invoke (S := handling E) c

/-- The payload, as JSON text and `none` for nil, and the error. -/
abbrev HandlerResult := Option String × Option Error

abbrev HandlerFunc (E : Signature) := Ctx → Task → Prog (handling E) HandlerResult

def notFoundHandler : HandlerFunc E := fun _ t =>
  return (none, some (Sentinel.noHandlerForTaskType.error.wrap (" \"" ++ t.type ++ "\"")))

/-- `json.Marshal` of a task and the layout `time.RFC3339`. -/
structure Formats where
  jsonMarshal : Task → Except Error Bytes
  rfc3339 : Int → String

def requestReplyContentTypeHeader : String := "AJ-Content-Type"
def requestReplyDeadlineHeader : String := "AJ-Handler-Deadline"
def requestReplyTerminateError : String := "AJ-Terminate"
def requestReplyError : String := "AJ-Error"
def requestReplyTaskType : String := "application/x-asyncjobs-task+json"

structure RequestReplyHandler where
  nc : Option Nat
  tt : String
  subj : String

def requestReplySubjectForTaskType (taskType : String) : String :=
  if taskType = "" then "CHORIA_AJ.H.T." ++ "catchall" else "CHORIA_AJ.H.T." ++ taskType

def requestReplyResult (res : Msg) : HandlerResult :=
  let data := String.ofList (asciiText (jsonMarshalBytes (some res.data)))
  let terminate := res.get requestReplyTerminateError
  let failure := res.get requestReplyError
  if terminate ≠ "" then
    (some data, some ⟨terminate ++ ": " ++ Sentinel.terminateTask.text,
      Sentinel.terminateTask.chain⟩)
  else if failure ≠ "" then (some data, some (.plain failure))
  else (some data, none)

/-- The three kinds of failed requests differ in what they log only. -/
def RequestReplyHandler.processTask (r : RequestReplyHandler) (formats : Formats) :
    HandlerFunc E := fun ctx task =>
  match r.nc with
  | none => return (none, some (.plain "no connnection set"))
  | some nc =>
    match ctx.deadline with
    | none => return (none, some Sentinel.requestReplyNoDeadline.error)
    | some deadline => do
      let now : Int ← perform (.job .now)
      if deadline - now < 3 * 10 ^ 9 then
        return (none, some Sentinel.requestReplyShortDeadline.error)
      else
        match formats.jsonMarshal task with
        | .error err => return (none, some (.plain ("could not encode task: " ++ err.text)))
        | .ok data =>
          let msg : Msg :=
            { subject := r.subj
              header := [(requestReplyContentTypeHeader, requestReplyTaskType),
                (requestReplyDeadlineHeader, formats.rfc3339 (deadline - 2 * 10 ^ 9))]
              data }
          match ← perform (.requestMsg nc ctx msg) with
          | .error err =>
            return (none, some (Sentinel.requestReplyFailed.error.wrap (": " ++ err.text)))
          | .ok res => return requestReplyResult res

def newRequestReplyHandleFunc (formats : Formats) (nc : Option Nat) (tt : String) :
    HandlerFunc E :=
  RequestReplyHandler.processTask { nc, tt, subj := requestReplySubjectForTaskType tt } formats

/-- `Mux.RequestReply` for a client with the given connection. -/
def MuxCall.requestReply (sort : SortSlice) (formats : Formats) (taskType : String)
    (nc : Option Nat) : MuxCall (HandlerFunc E) :=
  .handleFunc sort taskType (newRequestReplyHandleFunc formats nc taskType) []

/-- The call of the routed handler in `handle`. Its context is cancelled by a timer after
`MaxRunTime`, which every `MarkInProgress` winds up again. -/
def dispatch (mux : Mux (HandlerFunc E)) (ctx : Ctx) (t : Task) :
    Prog (handling E) HandlerResult :=
  mux.handler notFoundHandler t (.withCancel ctx) t

/-- `handle` looks at the payload of a handler that returned no error. -/
def handlerReply : HandlerResult → Except Error String
  | (_, some err) => .error err
  | (payload, none) => .ok (payload.getD "null")

def answer (run : Task → Prog (handling E) HandlerResult) :
    (c : Call) → Prog (handling E) c.Reply
  | .runHandler t => run t.toTask >>= fun result => .ret (handlerReply result)
  | c => perform (.job c)

/-- `handle` with the router and the context it is called with. -/
def Processor.handleWith (p : Processor) (mux : Mux (HandlerFunc E)) (ctx : Ctx) (t : Copy)
    (item : ProcessItem) : Prog (handling E) Unit :=
  (p.handle t item).interpret (answer (dispatch mux ctx))

end

end AsyncJobs
