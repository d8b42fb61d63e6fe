import AsyncJobs.Model.Api
import AsyncJobs.Storage.Bindings

/-!
# The calls of `CreateQueue`

Which calls the handler can make, whatever the replies are: those of `QueueInfo` only look,
and those of `PrepareQueue` load or create the stream and the consumer of the queue.
-/

namespace AsyncJobs

open Interaction

/-- The calls of `QueueInfo`. -/
def Looks : ApiCall → Prop
  | .now | .setup (.loadStream _) | .setup (.loadConsumer _ _) | .latestInformation _
  | .latestState _ _ => True
  | _ => False

theorem Looks.elim {C : ApiCall → Prop} {c : ApiCall} (hc : Looks c) (now : C .now)
    (loadStream : ∀ s, C (.setup (.loadStream s)))
    (loadConsumer : ∀ s durable, C (.setup (.loadConsumer s durable)))
    (latestInformation : ∀ s, C (.latestInformation s))
    (latestState : ∀ s durable, C (.latestState s durable)) : C c := by
  unfold Looks at hc
  split at hc
  · exact now
  · exact loadStream _
  · exact loadConsumer _ _
  · exact latestInformation _
  · exact latestState _ _
  · cases hc

theorem streamQueueInfo_yields (name : String) (time : Int) :
    (streamQueueInfo name time).Yields Looks
      fun result => ∀ nfo, result = .ok nfo → nfo.name = name := by
  refine ⟨trivial, fun reply => ?_⟩
  cases reply with
  | error e => exact fun nfo h => nomatch h
  | ok consumer =>
    refine ⟨trivial, fun reply => ?_⟩
    cases reply with
    | error err => exact fun nfo h => nomatch h
    | ok stream =>
      refine ⟨trivial, fun reply => ?_⟩
      cases reply with
      | error err => exact fun nfo h => nomatch h
      | ok consumer =>
        intro nfo h
        cases h
        rfl

theorem queueInfo_yields (name : String) :
    (queueInfo name).Yields Looks fun result => ∀ nfo, result = .ok nfo → nfo.name = name := by
  refine ⟨trivial, fun time => ⟨trivial, fun reply => ?_⟩⟩
  cases reply with
  | error e => exact fun nfo h => nomatch h
  | ok stream => exact streamQueueInfo_yields name time

/-- `PrepareQueue` of a queue that may be created. -/
def loadOrCreateQueue (q : QueueConfig) : Api (Option Error) := do
  match ← (ApiCall.setup (.loadOrNewStream (workStreamName q.name)
      (q.withDefaults.streamOptions defaultQueueReplicas defaultQueueMemory))).send with
  | .error e => return some e.err
  | .ok _ =>
    match ← (ApiCall.setup (.loadOrNewConsumer (workStreamName q.name)
        q.withDefaults.consumerOptions)).send with
    | .error e => return some e.err
    | .ok _ => return none

theorem prepareQueue_eq {q : QueueConfig} (hname : q.name ≠ "") (hcreate : q.noCreate = false) :
    prepareQueue q = loadOrCreateQueue q := by
  unfold prepareQueue Bindings.prepareQueue
  simp only [hname, hcreate, if_false, Bool.false_eq_true]
  apply congrArg (Prog.call (S := api) _)
  funext reply
  cases reply with
  | error e => rfl
  | ok stream =>
    apply congrArg (Prog.call (S := api) _)
    funext reply
    cases reply with
    | error e => rfl
    | ok consumer =>
      -- the settings are read back from the two bindings that were just made
      change (Prog.interpret _ (Bindings.updateQueueSettings _ _ >>= _)).bind _ = _
      rw [Bindings.updateQueueSettings, AList.lookup_insert, AList.lookup_insert]
      rfl

section

variable {name : String}

def OwnQueue (name : String) : ApiCall → Prop
  | .setup (.loadOrNewConsumer s _) => s = workStreamName name
  | .respond response =>
    (∃ e, response = .error e) ∨ ∃ info, response = .queue 201 info ∧ info.name = name
  | _ => True

theorem Looks.ownQueue {c : ApiCall} (hc : Looks c) : OwnQueue name c :=
  hc.elim trivial (fun _ => trivial) (fun _ _ => trivial) (fun _ => trivial) fun _ _ => trivial

theorem loadOrCreateQueue_yields (q : QueueConfig) :
    (loadOrCreateQueue q).Yields (OwnQueue q.name) fun _ => True := by
  refine ⟨trivial, fun reply => ?_⟩
  cases reply with
  | error e => trivial
  | ok stream =>
    refine ⟨rfl, fun reply => ?_⟩
    cases reply <;> trivial

theorem respondError_yields (e : ErrorResponse) :
    (respondError e).Yields (OwnQueue name) fun _ => True :=
  ⟨Or.inl ⟨e, rfl⟩, fun _ => trivial⟩

theorem createCheckedQueue_yields {q : QueueConfig} (hname : q.name ≠ "")
    (hcreate : q.noCreate = false) :
    (createCheckedQueue q).Yields (OwnQueue q.name) fun _ => True := by
  have hlook := (queueInfo_yields q.name).mono (D := OwnQueue q.name) (fun _ hc => hc.ownQueue)
    fun _ hresult => hresult
  apply hlook.bind
  intro result _
  cases result with
  | ok nfo => exact respondError_yields _
  | error err =>
    rw [prepareQueue_eq hname hcreate]
    apply (loadOrCreateQueue_yields q).bind
    intro result _
    cases result with
    | some err => exact respondError_yields _
    | none =>
      apply hlook.bind
      intro result hresult
      cases result with
      | error err => exact respondError_yields _
      | ok nfo => exact ⟨Or.inr ⟨nfo, rfl, hresult nfo rfl⟩, fun _ => trivial⟩

end

section

variable {parseDuration : String → Except Error Int} {allowCreateDefaultQueue : Bool}

theorem QueueCreateRequest.queue_ok {req : QueueCreateRequest} {q : QueueConfig}
    (h : req.queue parseDuration allowCreateDefaultQueue = .ok q) :
    q.name ≠ "" ∧ q.noCreate = false := by
  unfold QueueCreateRequest.queue at h
  split_ifs at h with hname hdefault
  cases hage : parseField parseDuration "max_age" req.maxAge with
  | error e =>
    rw [hage] at h
    cases h
  | ok maxAge =>
    cases hruntime : parseField parseDuration "max_runtime" req.maxRuntime with
    | error e =>
      rw [hage, hruntime] at h
      cases h
    | ok maxRunTime =>
      rw [hage, hruntime] at h
      cases h
      exact ⟨hname, rfl⟩

end

end AsyncJobs
