import AsyncJobs.Model.Calls
import AsyncJobs.Model.RequestReply
import AsyncJobs.Router.Middleware

/-!
# Request-reply handlers have no deadline

`handle` limits the run time of a handler with a timer that cancels its context, and
`processTask` asks the context for a deadline. A cancelled context reports the deadline of the
context that `Run` was given, so without one there no request is ever sent.
-/

namespace AsyncJobs

open Interaction

variable {E : Signature}

/-- The middleware knows the next handler only at the context it was called with itself. -/
def PassesContext (mw : Option (Middleware (HandlerFunc E))) : Prop :=
  ∃ f : Ctx → (Task → Prog (handling E) HandlerResult) → Task → Prog (handling E) HandlerResult,
    ∀ next, callMiddleware mw next = .ok fun ctx t => f ctx (next ctx) t

theorem wrap_passesContext {mws : List (Option (Middleware (HandlerFunc E)))}
    (hmws : ∀ mw ∈ mws, PassesContext mw) :
    ∃ f : Ctx → (Task → Prog (handling E) HandlerResult) → Task → Prog (handling E) HandlerResult,
      ∀ next, wrap mws next = .ok fun ctx t => f ctx (next ctx) t := by
  induction mws with
  | nil => exact ⟨fun _ run => run, fun _ => rfl⟩
  | cons mw mws ih =>
    obtain ⟨outer, houter⟩ := hmws mw (List.mem_cons_self ..)
    obtain ⟨inner, hinner⟩ := ih fun mw hmw => hmws mw (List.mem_cons_of_mem _ hmw)
    refine ⟨fun ctx run => outer ctx (inner ctx run), fun next => ?_⟩
    simp only [wrap, hinner]
    exact houter _

def noDeadlineHandler : HandlerFunc E := fun _ _ =>
  return (none, some Sentinel.requestReplyNoDeadline.error)

theorem newRequestReplyHandleFunc_no_deadline {ctx : Ctx} (hctx : ctx.deadline = none)
    (formats : Formats) (nc : Nat) (tt : String) :
    newRequestReplyHandleFunc formats (some nc) tt ctx = noDeadlineHandler (E := E) ctx := by
  funext task
  simp only [newRequestReplyHandleFunc, RequestReplyHandler.processTask, hctx, noDeadlineHandler]

/-- What `handle` does depends on what the handler does with the one task it is given. -/
theorem handle_interpret_congr (p : Processor) (t : Copy) (item : ProcessItem)
    {run run' : Task → Prog (handling E) HandlerResult}
    (hrun : run { t with tries := t.tries + 1 }.toTask =
      run' { t with tries := t.tries + 1 }.toTask) :
    (p.handle t item).interpret (answer run) = (p.handle t item).interpret (answer run') := by
  have hcalls : (p.handle t item).Yields (fun c => answer run c = answer run' c)
      fun _ => True := by
    refine Processor.handle_yields (fun c hc => ?_) p item (fun _ => rfl) ?_
    · cases c with
      | runHandler t => exact absurd hc id
      | _ => rfl
    · exact congrArg (· >>= fun result => .ret (handlerReply result)) hrun
  exact hcalls.interpret_congr fun _ h => h

open Mux in
/-- A task routed to a request-reply handler, run by `handle` under a context without a
deadline: the handler gets a context without a deadline, and what `handle` does is what it
does with the same middleware around a handler that only returns
`ErrRequestReplyNoDeadline`. -/
theorem request_reply_never_gets_a_deadline (formats : Formats)
    (cs : List (MuxCall (HandlerFunc E))) (hcs : ∀ c ∈ cs, Proper c) (m : Mux (HandlerFunc E))
    (hm : ({} : Mux (HandlerFunc E)).calls cs = .ok m)
    (hmws : ∀ mw ∈ (({} : Router (HandlerFunc E)).calls cs).mws, PassesContext mw)
    (nc : Nat) (taskType : String) (t : Copy)
    (hroute : (({} : Router (HandlerFunc E)).calls cs).Longest t.type
      ⟨taskType, newRequestReplyHandleFunc formats (some nc) taskType, []⟩)
    (ctx : Ctx) (hctx : ctx.deadline = none) (p : Processor) (item : ProcessItem) :
    (Ctx.withCancel ctx).deadline = none ∧
    ∃ handler, wrap (({} : Router (HandlerFunc E)).calls cs).mws noDeadlineHandler = .ok handler ∧
      p.handleWith m ctx t item =
        (p.handle t item).interpret (answer (handler (.withCancel ctx))) := by
  have hcancel : (Ctx.withCancel ctx).deadline = none := hctx
  obtain ⟨around, haround⟩ := wrap_passesContext hmws
  refine ⟨hcancel, _, haround _, ?_⟩
  let t' : Task := { t with tries := t.tries + 1 }.toTask
  have hrouted := (Refines.new.calls hcs hm).chain_of_longest (t := t') hroute rfl notFoundHandler
  rw [haround] at hrouted
  have hhandler : m.handler notFoundHandler t' = _ := (Except.ok.inj hrouted).symm
  refine handle_interpret_congr p t item ?_
  calc
    dispatch m ctx t' = m.handler notFoundHandler t' (.withCancel ctx) t' := rfl
    _ = around (.withCancel ctx)
          (newRequestReplyHandleFunc formats (some nc) taskType (.withCancel ctx)) t' := by
      rw [hhandler]
    _ = around (.withCancel ctx) (noDeadlineHandler (.withCancel ctx)) t' := by
      rw [newRequestReplyHandleFunc_no_deadline hcancel]

/-- An application whose handlers and middleware make no requests of their own. -/
def noRequests : Signature := ⟨Empty, nofun⟩

def sampleFormats : Formats := ⟨fun _ => .ok [], fun _ => "2022-01-01T00:00:00Z"⟩

def repeated (run : Task → Prog (handling noRequests) HandlerResult) (t : Task) :
    Prog (handling noRequests) HandlerResult := do
  match ← run t with
  | (_, some _) => run t
  | result => return result

def onceMore : Option (Middleware (HandlerFunc noRequests)) :=
  some fun next => .ok fun ctx t => repeated (next ctx) t

def delegateEmail : List (MuxCall (HandlerFunc noRequests)) :=
  [.requestReply stableSort sampleFormats "email:new" (some 0), .use [onceMore]]

def minuteProcessor : Processor :=
  ⟨{ sampleClient with opts := { queue := { name := "EMAIL", maxRunTime := 60 * 10 ^ 9 } } }⟩

def emailCopy : Copy := ⟨typedTask "email:new", some 3⟩

theorem delegateEmail_proper : ∀ c ∈ delegateEmail, Mux.Proper c := by
  intro c hc
  simp only [delegateEmail, List.mem_cons, List.not_mem_nil, or_false] at hc
  rcases hc with rfl | rfl
  · exact stableSort_sorts
  · trivial

theorem onceMore_passesContext : PassesContext onceMore :=
  ⟨fun _ run => repeated run, fun _ => rfl⟩

theorem delegateEmail_longest :
    (({} : Router (HandlerFunc noRequests)).calls delegateEmail).Longest "email:new"
      ⟨"email:new", newRequestReplyHandleFunc sampleFormats (some 0) "email:new", []⟩ := by
  refine ⟨List.mem_singleton.mpr rfl, by decide, fun other hother _ => ?_⟩
  rw [List.mem_singleton.mp hother]

theorem request_reply_never_gets_a_deadline_sample : ∃ m handler,
    ({} : Mux (HandlerFunc noRequests)).calls delegateEmail = .ok m ∧
    wrap [onceMore] noDeadlineHandler = .ok handler ∧
    minuteProcessor.handleWith m .background emailCopy ⟨"T1", none⟩ =
      (minuteProcessor.handle emailCopy ⟨"T1", none⟩).interpret
        (answer (handler (.withCancel .background))) := by
  have hmws : ∀ mw ∈ [onceMore], PassesContext mw := by
    intro mw hmw
    rw [List.mem_singleton.mp hmw]
    exact onceMore_passesContext
  obtain ⟨-, handler, hhandler, hrun⟩ := request_reply_never_gets_a_deadline sampleFormats
    delegateEmail delegateEmail_proper _ rfl hmws 0 "email:new" emailCopy delegateEmail_longest
    .background rfl minuteProcessor ⟨"T1", none⟩
  exact ⟨_, handler, rfl, hhandler, hrun⟩

/-- A minute to run in, and still the task fails without a request. -/
theorem request_reply_without_deadline : ∃ m : Mux (HandlerFunc noRequests),
    ({} : Mux (HandlerFunc noRequests)).calls
      [.requestReply stableSort sampleFormats "email:new" (some 0)] = .ok m ∧
    4 * 10 ^ 9 ≤ minuteProcessor.queue.maxRunTime ∧
    dispatch m .background emailCopy.toTask =
      .ret (none, some Sentinel.requestReplyNoDeadline.error) := by
  refine ⟨_, rfl, by decide, ?_⟩
  rfl

end AsyncJobs
