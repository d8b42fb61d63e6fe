import AsyncJobs.Model.Setup
import AsyncJobs.Interaction.Execution

/-!
# The bindings of the storage

Over every sequence of preparations, with every request succeeding or failing: a consumer
binding is what the last request for it returned, so `PollQueue` runs into a nil consumer
exactly if that request failed. A preparation assigns what it gets as it goes, so one that
fails leaves the bindings alone exactly if everything it got was bound already.
-/

namespace AsyncJobs

open Interaction

inductive Preparation where
  | queue (q : QueueConfig) (replicas : Int) (memory : Bool)
  | tasks (memory : Bool) (replicas retention : Int)
  | configurationStore (memory : Bool) (replicas : Int)

def Preparation.prog (noCreate : Bool) (b : Bindings) :
    Preparation → Setup (Option Error × Bindings)
  | queue q replicas memory => do
    let r ← b.prepareQueue q replicas memory
    return (r.1, r.2.1)
  | tasks memory replicas retention => b.prepareTasks noCreate memory replicas retention
  | configurationStore memory replicas => b.prepareConfigurationStore noCreate memory replicas

/-- The bindings of a new storage after some preparations, with the requests they made. -/
inductive Prepared (noCreate : Bool) : Bindings → List (Answered setup) → Prop
  | new : Prepared noCreate {} []
  | prepare {b b' : Bindings} {history trace : List (Answered setup)} {err : Option Error}
      (p : Preparation) (h : Prepared noCreate b history)
      (hp : (p.prog noCreate b).Follows trace (err, b')) : Prepared noCreate b' (history ++ trace)

/-- The consumer that a request for the consumer of this stream returned, `none` if it
failed. -/
def consumerReply (stream : String) : Answered setup → Option (Option ConsumerHandle)
  | ⟨.loadOrNewConsumer s _, r⟩ => if s = stream then some (Except.toOption r) else none
  | ⟨.loadConsumer s _, r⟩ => if s = stream then some (Except.toOption r) else none
  | _ => none

def lastConsumer (stream : String) (trace : List (Answered setup)) :
    Option (Option ConsumerHandle) :=
  (trace.filterMap (consumerReply stream)).getLast?

theorem lastConsumer_append (stream : String) (first rest : List (Answered setup)) :
    lastConsumer stream (first ++ rest) =
      (lastConsumer stream rest).or (lastConsumer stream first) := by
  rw [lastConsumer, List.filterMap_append, List.getLast?_append]
  rfl

theorem workStreamName_inj {a b : String} : workStreamName a = workStreamName b ↔ a = b := by
  constructor
  · intro h
    apply String.toList_injective
    have hchars := congrArg String.toList h
    simp only [workStreamName, String.toList_append] at hchars
    exact List.append_cancel_left hchars
  · exact congrArg workStreamName

structure Bindings.Same (b b' : Bindings) : Prop where
  qStreams : ∀ name, b'.qStreams.lookup name = b.qStreams.lookup name
  qConsumers : ∀ name, b'.qConsumers.lookup name = b.qConsumers.lookup name
  tasks : b'.tasks = b.tasks
  configBucket : b'.configBucket = b.configBucket
  leaderElections : b'.leaderElections = b.leaderElections

namespace Bindings

theorem Same.refl (b : Bindings) : b.Same b := ⟨fun _ => rfl, fun _ => rfl, rfl, rfl, rfl⟩

/-- Assigning an entry of a map changes nothing exactly if the entry is there. -/
theorem lookup_insert_same_iff {β : Type} (m : AList fun _ : String => β) (key : String) (v : β) :
    (∀ name, (m.insert key v).lookup name = m.lookup name) ↔ m.lookup key = some v := by
  constructor
  · intro h
    rw [← h key, AList.lookup_insert]
  · intro h name
    by_cases hname : name = key
    · rw [hname, AList.lookup_insert, h]
    · rw [AList.lookup_insert_ne hname]

def BindsStream (b : Bindings) (stream : String) (handle : Option StreamHandle) : Prop :=
  (stream = tasksStreamName → b.tasks = some handle) ∧
    ∀ name, workStreamName name = stream → b.qStreams.lookup name = some handle

def BindsConsumer (b : Bindings) (stream : String) (handle : Option ConsumerHandle) : Prop :=
  ∀ name, workStreamName name = stream → b.qConsumers.lookup name = some handle

/-- Only a bucket that was loaded is assigned. -/
def BindsBucket (b : Bindings) (bucket : String) (handle : Option BucketHandle) : Prop :=
  ∀ kv, handle = some kv → (bucket = configBucketName → b.configBucket = some kv) ∧
    (bucket = leaderElectionBucketName → b.leaderElections = some kv)

/-- What the request returned, nil for a stream or consumer that it failed for, is bound. -/
def Binds (b : Bindings) : Answered setup → Prop
  | ⟨.loadOrNewStream stream _, r⟩ => b.BindsStream stream (Except.toOption r)
  | ⟨.loadStream stream, r⟩ => b.BindsStream stream (Except.toOption r)
  | ⟨.loadOrNewConsumer stream _, r⟩ => b.BindsConsumer stream (Except.toOption r)
  | ⟨.loadConsumer stream _, r⟩ => b.BindsConsumer stream (Except.toOption r)
  | ⟨.keyValue bucket, r⟩ => b.BindsBucket bucket (Except.toOption r)
  | ⟨.createKeyValue config, r⟩ => b.BindsBucket config.bucket (Except.toOption r)
  | ⟨.panic _, _⟩ => True

theorem workStreamName_ne_tasks (name : String) : workStreamName name ≠ tasksStreamName := by
  intro h
  have hchars := congrArg String.toList h
  simp [workStreamName, tasksStreamName] at hchars

theorem bindsStream_queue {b : Bindings} {name : String} {handle : Option StreamHandle} :
    b.BindsStream (workStreamName name) handle ↔ b.qStreams.lookup name = some handle := by
  constructor
  · intro h
    exact h.2 name rfl
  · intro h
    refine ⟨fun heq => absurd heq (workStreamName_ne_tasks name), fun other heq => ?_⟩
    rw [workStreamName_inj.mp heq]
    exact h

theorem bindsStream_tasks {b : Bindings} {handle : Option StreamHandle} :
    b.BindsStream tasksStreamName handle ↔ b.tasks = some handle := by
  constructor
  · intro h
    exact h.1 rfl
  · intro h
    exact ⟨fun _ => h, fun name heq => absurd heq (workStreamName_ne_tasks name)⟩

theorem bindsConsumer_queue {b : Bindings} {name : String} {handle : Option ConsumerHandle} :
    b.BindsConsumer (workStreamName name) handle ↔ b.qConsumers.lookup name = some handle := by
  constructor
  · intro h
    exact h name rfl
  · intro h other heq
    rw [workStreamName_inj.mp heq]
    exact h

theorem bindsBucket_config {b : Bindings} {kv : BucketHandle} :
    b.BindsBucket configBucketName (some kv) ↔ b.configBucket = some kv := by
  have hne : configBucketName ≠ leaderElectionBucketName := by decide
  simp [BindsBucket, hne]

theorem bindsBucket_elections {b : Bindings} {kv : BucketHandle} :
    b.BindsBucket leaderElectionBucketName (some kv) ↔ b.leaderElections = some kv := by
  have hne : leaderElectionBucketName ≠ configBucketName := by decide
  simp [BindsBucket, hne]

variable {b b' : Bindings} {q q' : QueueConfig} {noCreate : Bool}
  {trace : List (Answered setup)} {err : Option Error}

theorem setupRequest_follows {c : SetupCall} {r : c.Reply}
    (h : (setupRequest c).Follows trace r) : trace = [⟨c, r⟩] := by
  obtain ⟨r', rest, rfl, hrest⟩ := Prog.Follows.of_call h
  obtain ⟨rfl, rfl⟩ := hrest.of_ret
  rfl

/-- With both bound, the settings are read without a request. -/
theorem updateQueueSettings_follows {ss : StreamHandle} {sc : ConsumerHandle}
    (hstream : b.qStreams.lookup q.name = some (some ss))
    (hconsumer : b.qConsumers.lookup q.name = some (some sc))
    {r : Option Error × QueueConfig} (h : (b.updateQueueSettings q).Follows trace r) :
    trace = [] ∧ r.1 = none := by
  unfold updateQueueSettings at h
  rw [hstream, hconsumer] at h
  obtain ⟨rfl, rfl⟩ := h.of_ret
  exact ⟨rfl, rfl⟩

/-- The requests for the stream and the consumer of a queue and the bindings they leave. -/
inductive QueueBound (b : Bindings) (name : String)
    (streamAnswer : Except ApiError StreamHandle → Answered setup)
    (consumerAnswer : Except ApiError ConsumerHandle → Answered setup) :
    List (Answered setup) → Bindings → Prop
  | stream (rs : Except ApiError StreamHandle) :
      QueueBound b name streamAnswer consumerAnswer [streamAnswer rs]
        { b with qStreams := b.qStreams.insert name rs.toOption }
  | both (rs : Except ApiError StreamHandle) (rc : Except ApiError ConsumerHandle) :
      QueueBound b name streamAnswer consumerAnswer [streamAnswer rs, consumerAnswer rc]
        { b with
          qStreams := b.qStreams.insert name rs.toOption
          qConsumers := b.qConsumers.insert name rc.toOption }

/-- The bindings of a queue are assigned what the requests for its stream and its consumer
returned, the second of which is only sent after the first worked. -/
theorem bindQueue_follows {stream : Setup (Except ApiError StreamHandle)}
    {consumer : Setup (Except ApiError ConsumerHandle)}
    {streamError consumerError : ApiError → Error}
    {streamAnswer : Except ApiError StreamHandle → Answered setup}
    {consumerAnswer : Except ApiError ConsumerHandle → Answered setup}
    (hstream : ∀ {first rs}, stream.Follows first rs → first = [streamAnswer rs])
    (hconsumer : ∀ {first rc}, consumer.Follows first rc → first = [consumerAnswer rc])
    {r : Option Error × Bindings × QueueConfig}
    (h : (b.bindQueue q stream consumer streamError consumerError).Follows trace r) :
    QueueBound b q.name streamAnswer consumerAnswer trace r.2.1 := by
  obtain ⟨first, rest, rs, rfl, hfirst, hafter⟩ := Prog.Follows.of_bind h
  obtain rfl := hstream hfirst
  cases rs with
  | error e =>
    obtain ⟨rfl, rfl⟩ := hafter.of_ret
    exact .stream (.error e)
  | ok ss =>
    obtain ⟨second, last, rc, rfl, hsecond, hlast⟩ := Prog.Follows.of_bind hafter
    obtain rfl := hconsumer hsecond
    cases rc with
    | error e =>
      obtain ⟨rfl, rfl⟩ := hlast.of_ret
      exact .both (.ok ss) (.error e)
    | ok sc =>
      obtain ⟨settings, tail, r', rfl, hsettings, htail⟩ := Prog.Follows.of_bind hlast
      obtain ⟨rfl, -⟩ := updateQueueSettings_follows (AList.lookup_insert _)
        (AList.lookup_insert _) hsettings
      obtain ⟨rfl, rfl⟩ := htail.of_ret
      exact .both (.ok ss) (.ok sc)

/-- The requests of a queue: for its stream and then for its consumer. -/
structure AsksFor (q : QueueConfig) (streamAnswer : Except ApiError StreamHandle → Answered setup)
    (consumerAnswer : Except ApiError ConsumerHandle → Answered setup) : Prop where
  bindsStream : ∀ (b : Bindings) rs,
    b.Binds (streamAnswer rs) ↔ b.qStreams.lookup q.name = some rs.toOption
  bindsConsumer : ∀ (b : Bindings) rc,
    b.Binds (consumerAnswer rc) ↔ b.qConsumers.lookup q.name = some rc.toOption
  stream : ∀ s rs, consumerReply s (streamAnswer rs) = none
  consumer : ∀ s rc, consumerReply s (consumerAnswer rc) =
    if workStreamName q.name = s then some rc.toOption else none

/-- A queue without a name is refused at once; another one asks for its stream and, if that
was loaded, for its consumer. -/
theorem prepareQueue_follows {replicas : Int} {memory : Bool}
    {r : Option Error × Bindings × QueueConfig}
    (h : (b.prepareQueue q replicas memory).Follows trace r) :
    (trace = [] ∧ r.2.1 = b) ∨ ∃ streamAnswer consumerAnswer,
      AsksFor q streamAnswer consumerAnswer ∧
      QueueBound b q.name streamAnswer consumerAnswer trace r.2.1 := by
  unfold prepareQueue at h
  split_ifs at h with hname hjoin
  · obtain ⟨rfl, rfl⟩ := h.of_ret
    exact .inl ⟨rfl, rfl⟩
  · have hqueue := bindQueue_follows setupRequest_follows setupRequest_follows h
    refine .inr ⟨_, _, ?_, hqueue⟩
    exact ⟨fun _ _ => bindsStream_queue, fun _ _ => bindsConsumer_queue, fun _ _ => rfl,
      fun _ _ => rfl⟩
  · have hqueue := bindQueue_follows (q := q.withDefaults) setupRequest_follows
      setupRequest_follows h
    refine .inr ⟨_, _, ?_, hqueue⟩
    exact ⟨fun _ _ => bindsStream_queue, fun _ _ => bindsConsumer_queue, fun _ _ => rfl,
      fun _ _ => rfl⟩

/-- A bucket is looked up and perhaps created; what comes of it is what was assigned. -/
theorem loadOrCreateBucket_follows {config : BucketConfig} {r : Except Error BucketHandle}
    (h : (loadOrCreateBucket noCreate config).Follows trace r) :
    (∀ e ∈ trace, ∀ s, consumerReply s e = none) ∧
      ∀ b : Bindings, (∀ e ∈ trace, b.Binds e) ↔ b.BindsBucket config.bucket r.toOption := by
  obtain ⟨first, rest, kv, rfl, hfirst, hafter⟩ := Prog.Follows.of_bind h
  obtain rfl := setupRequest_follows hfirst
  have hquiet : ∀ r, ∀ e ∈ [(⟨.keyValue config.bucket, r⟩ : Answered setup)],
      ∀ s, consumerReply s e = none := fun _ => List.forall_mem_singleton.mpr fun _ => rfl
  rcases kv with (- | err) | kv
  · by_cases hcreate : noCreate = true
    · simp only [hcreate, if_true] at hafter
      obtain ⟨rfl, rfl⟩ := hafter.of_ret
      exact ⟨hquiet _, fun b => List.forall_mem_singleton⟩
    · simp only [hcreate] at hafter
      obtain ⟨second, last, created, rfl, hsecond, hlast⟩ := Prog.Follows.of_bind hafter
      obtain rfl := setupRequest_follows hsecond
      -- the lookup found nothing, so only what was created counts
      let trace : List (Answered setup) :=
        [⟨.keyValue config.bucket, .error .notFound⟩, ⟨.createKeyValue config, created⟩]
      have hquiet' : ∀ e ∈ trace, ∀ s, consumerReply s e = none :=
        List.forall_mem_cons.mpr ⟨fun _ => rfl, List.forall_mem_singleton.mpr fun _ => rfl⟩
      have hbinds : ∀ b : Bindings, (∀ e ∈ trace, b.Binds e) ↔
          b.BindsBucket config.bucket (Except.toOption created) := by
        intro b
        rw [List.forall_mem_cons, List.forall_mem_singleton]
        exact and_iff_right nofun
      cases created with
      | error e =>
        obtain ⟨rfl, rfl⟩ := hlast.of_ret
        exact ⟨hquiet', hbinds⟩
      | ok kv =>
        obtain ⟨rfl, rfl⟩ := hlast.of_ret
        exact ⟨hquiet', hbinds⟩
  · obtain ⟨rfl, rfl⟩ := hafter.of_ret
    exact ⟨hquiet _, fun b => List.forall_mem_singleton⟩
  · obtain ⟨rfl, rfl⟩ := hafter.of_ret
    exact ⟨hquiet _, fun b => List.forall_mem_singleton⟩

theorem prepareConfigurationStore_follows {memory : Bool} {replicas : Int}
    {r : Option Error × Bindings}
    (h : (b.prepareConfigurationStore noCreate memory replicas).Follows trace r) :
    (∀ e ∈ trace, ∀ s, consumerReply s e = none) ∧ r.2.qConsumers = b.qConsumers ∧
      (b.Same r.2 ↔ ∀ e ∈ trace, b.Binds e) := by
  obtain ⟨first, rest, kv, rfl, hfirst, hafter⟩ := Prog.Follows.of_bind h
  obtain ⟨hconfig, hbinds⟩ := loadOrCreateBucket_follows hfirst
  cases kv with
  | error err =>
    obtain ⟨rfl, rfl⟩ := hafter.of_ret
    rw [List.append_nil, hbinds b]
    exact ⟨hconfig, rfl, iff_of_true (.refl b) nofun⟩
  | ok kv =>
    obtain ⟨second, last, ekv, rfl, hsecond, hlast⟩ := Prog.Follows.of_bind hafter
    obtain ⟨helections, hbinds'⟩ := loadOrCreateBucket_follows hsecond
    have hquiet : ∀ e ∈ first ++ second, ∀ s, consumerReply s e = none := by
      intro e he
      rcases List.mem_append.mp he with he | he
      · exact hconfig e he
      · exact helections e he
    cases ekv with
    | error err =>
      obtain ⟨rfl, rfl⟩ := hlast.of_ret
      rw [List.append_nil]
      refine ⟨hquiet, rfl, ?_⟩
      rw [List.forall_mem_append, hbinds b, hbinds' b]
      constructor
      · intro h
        exact ⟨bindsBucket_config.mpr h.configBucket.symm, nofun⟩
      · intro h
        exact ⟨fun _ => rfl, fun _ => rfl, rfl, (bindsBucket_config.mp h.1).symm, rfl⟩
    | ok ekv =>
      obtain ⟨rfl, rfl⟩ := hlast.of_ret
      rw [List.append_nil]
      refine ⟨hquiet, rfl, ?_⟩
      rw [List.forall_mem_append, hbinds b, hbinds' b]
      constructor
      · intro h
        exact ⟨bindsBucket_config.mpr h.configBucket.symm,
          bindsBucket_elections.mpr h.leaderElections.symm⟩
      · intro h
        exact ⟨fun _ => rfl, fun _ => rfl, rfl, (bindsBucket_config.mp h.1).symm,
          (bindsBucket_elections.mp h.2).symm⟩

theorem prepareTasks_follows {memory : Bool} {replicas retention : Int}
    {r : Option Error × Bindings}
    (h : (b.prepareTasks noCreate memory replicas retention).Follows trace r) :
    ∃ (e : Answered setup) (handle : Option StreamHandle), trace = [e] ∧
      (∀ s, consumerReply s e = none) ∧ (b.Binds e ↔ b.tasks = some handle) ∧
      r.2 = { b with tasks := some handle } := by
  have hbound : ∀ (streamError : ApiError → Error) (stream : Except ApiError StreamHandle),
      (b.bindTasks streamError stream).2 = { b with tasks := some stream.toOption } := by
    intro streamError stream
    cases stream <;> rfl
  unfold prepareTasks at h
  split_ifs at h
  · obtain ⟨first, rest, stream, rfl, hfirst, hafter⟩ := Prog.Follows.of_bind h
    obtain rfl := setupRequest_follows hfirst
    obtain ⟨rfl, rfl⟩ := hafter.of_ret
    exact ⟨⟨.loadStream tasksStreamName, stream⟩, stream.toOption, rfl, fun _ => rfl,
      bindsStream_tasks, hbound _ _⟩
  · obtain ⟨first, rest, stream, rfl, hfirst, hafter⟩ := Prog.Follows.of_bind h
    obtain rfl := setupRequest_follows hfirst
    obtain ⟨rfl, rfl⟩ := hafter.of_ret
    exact ⟨⟨.loadOrNewStream tasksStreamName _, stream⟩, stream.toOption, rfl, fun _ => rfl,
      bindsStream_tasks, hbound _ _⟩

theorem lastConsumer_eq_none {s : String} (h : ∀ e ∈ trace, consumerReply s e = none) :
    lastConsumer s trace = none := by
  have hnone : trace.filterMap (consumerReply s) = [] := List.filterMap_eq_nil_iff.mpr h
  rw [lastConsumer, hnone]
  rfl

end Bindings

namespace Preparation

variable {b b' : Bindings} {noCreate : Bool} {trace : List (Answered setup)}
  {err : Option Error}

theorem queue_follows {q : QueueConfig} {replicas : Int} {memory : Bool}
    (h : ((queue q replicas memory).prog noCreate b).Follows trace (err, b')) :
    (trace = [] ∧ b' = b) ∨ ∃ streamAnswer consumerAnswer,
      Bindings.AsksFor q streamAnswer consumerAnswer ∧
      Bindings.QueueBound b q.name streamAnswer consumerAnswer trace b' := by
  obtain ⟨first, rest, r, rfl, hqueue, hret⟩ := Prog.Follows.of_bind h
  obtain ⟨rfl, hr⟩ := hret.of_ret
  obtain ⟨rfl, rfl⟩ : err = r.1 ∧ b' = r.2.1 := Prod.mk.injEq .. ▸ hr
  rw [List.append_nil]
  exact Bindings.prepareQueue_follows hqueue

theorem qConsumers_lookup (p : Preparation) (h : (p.prog noCreate b).Follows trace (err, b'))
    (name : String) : b'.qConsumers.lookup name =
      (lastConsumer (workStreamName name) trace).or (b.qConsumers.lookup name) := by
  cases p with
  | queue q replicas memory =>
    obtain ⟨rfl, rfl⟩ | ⟨streamAnswer, consumerAnswer, hasks, hbound⟩ := queue_follows h
    · rfl
    · cases hbound with
      | stream rs =>
        rw [Bindings.lastConsumer_eq_none]
        · rfl
        · simp [hasks.stream]
      | both rs rc =>
        by_cases hname : name = q.name
        · subst hname
          simp [lastConsumer, hasks.stream, hasks.consumer]
        · have hother : workStreamName q.name ≠ workStreamName name := by
            rw [Ne, workStreamName_inj]
            exact fun heq => hname heq.symm
          rw [AList.lookup_insert_ne hname, Bindings.lastConsumer_eq_none]
          · rfl
          · simp [hasks.stream, hasks.consumer, hother]
  | tasks memory replicas retention =>
    obtain ⟨e, handle, rfl, he, -, hb⟩ := Bindings.prepareTasks_follows h
    obtain rfl : b' = _ := hb
    rw [Bindings.lastConsumer_eq_none]
    · rfl
    · simp [he]
  | configurationStore memory replicas =>
    obtain ⟨he, hsame, -⟩ := Bindings.prepareConfigurationStore_follows h
    rw [hsame, Bindings.lastConsumer_eq_none fun e hmem => he e hmem _]
    rfl

/-- A preparation leaves the bindings as they were exactly if what it got was bound. -/
theorem same_iff (p : Preparation) (h : (p.prog noCreate b).Follows trace (err, b')) :
    b.Same b' ↔ ∀ e ∈ trace, b.Binds e := by
  cases p with
  | queue q replicas memory =>
    obtain ⟨rfl, rfl⟩ | ⟨streamAnswer, consumerAnswer, hasks, hbound⟩ := queue_follows h
    · exact iff_of_true (.refl _) (List.forall_mem_nil _)
    · cases hbound with
      | stream rs =>
        rw [List.forall_mem_singleton, hasks.bindsStream, ← Bindings.lookup_insert_same_iff]
        exact ⟨fun h => h.qStreams, fun h => ⟨h, fun _ => rfl, rfl, rfl, rfl⟩⟩
      | both rs rc =>
        rw [List.forall_mem_cons, List.forall_mem_singleton, hasks.bindsStream,
          hasks.bindsConsumer, ← Bindings.lookup_insert_same_iff,
          ← Bindings.lookup_insert_same_iff]
        exact ⟨fun h => ⟨h.qStreams, h.qConsumers⟩, fun h => ⟨h.1, h.2, rfl, rfl, rfl⟩⟩
  | tasks memory replicas retention =>
    obtain ⟨e, handle, rfl, -, hbinds, hb⟩ := Bindings.prepareTasks_follows h
    obtain rfl : b' = _ := hb
    rw [List.forall_mem_singleton, hbinds]
    exact ⟨fun h => h.tasks.symm, fun h => ⟨fun _ => rfl, fun _ => rfl, h.symm, rfl, rfl⟩⟩
  | configurationStore memory replicas =>
    exact (Bindings.prepareConfigurationStore_follows h).2.2

end Preparation

theorem Prepared.qConsumers_lookup {noCreate : Bool} {b : Bindings}
    {history : List (Answered setup)} (h : Prepared noCreate b history) (name : String) :
    b.qConsumers.lookup name = lastConsumer (workStreamName name) history := by
  induction h with
  | new => rfl
  | prepare p h hp ih => rw [p.qConsumers_lookup hp, lastConsumer_append, ih]

theorem exists_of_lastConsumer {stream : String} {history : List (Answered setup)}
    {consumer : ConsumerHandle} (h : lastConsumer stream history = some (some consumer)) :
    ∃ e ∈ history, consumerReply stream e = some (some consumer) :=
  List.mem_filterMap.mp (List.mem_of_getLast? h)

/-- After every sequence of preparations: a further one, failing or not, leaves the bindings as
they were exactly if each stream, consumer and bucket it got, nil for a stream or consumer
whose request failed, was bound already. And `PollQueue` uses a consumer that was loaded, or
none is bound, unless the last request for that consumer failed; then it runs into the nil
consumer. -/
theorem prepared_bindings (noCreate : Bool) (b : Bindings) (history : List (Answered setup))
    (h : Prepared noCreate b history) :
    (∀ (p : Preparation) trace err b', (p.prog noCreate b).Follows trace (err, b') →
      (b.Same b' ↔ ∀ e ∈ trace, b.Binds e)) ∧
    ∀ name,
      (lastConsumer (workStreamName name) history ≠ some none → ∀ hasDeadline reply,
        b.pollQueue name hasDeadline reply = .error (.error Sentinel.invalidQueueState.error) ∨
        ∃ consumer, b.qConsumers.lookup name = some (some consumer) ∧
          ∃ e ∈ history, consumerReply (workStreamName name) e = some (some consumer)) ∧
      (lastConsumer (workStreamName name) history = some none → ∀ reply,
        b.pollQueue name true reply = .error (.panic nilDereference)) := by
  refine ⟨fun p trace err b' hp => p.same_iff hp, ?_⟩
  intro name
  have hbound := h.qConsumers_lookup name
  constructor
  · intro hlast hasDeadline reply
    rcases hcase : lastConsumer (workStreamName name) history with - | (- | consumer)
    · left
      rw [hcase] at hbound
      simp only [Bindings.pollQueue, hbound]
    · exact absurd hcase hlast
    · right
      exact ⟨consumer, hbound.trans hcase, exists_of_lastConsumer hcase⟩
  · intro hlast reply
    rw [hlast] at hbound
    simp [Bindings.pollQueue, hbound]

def emailQueue : QueueConfig := { name := "EMAIL" }

def emailStream : StreamHandle := { discardOld := false, maxAge := 0, maxMsgs := -1 }

def emailConsumer : ConsumerHandle :=
  { ackWait := defaultJobRunTime, maxAckPending := 100, maxDeliver := -1 }

/-- The requests of a preparation of that queue when its consumer is answered like this. -/
def emailTrace (consumer : Except ApiError ConsumerHandle) : List (Answered setup) :=
  [⟨.loadOrNewStream (workStreamName "EMAIL") (emailQueue.withDefaults.streamOptions 1 false),
      (.ok emailStream : Except ApiError StreamHandle)⟩,
    ⟨.loadOrNewConsumer (workStreamName "EMAIL") emailQueue.withDefaults.consumerOptions, consumer⟩]

/-- A queue that was prepared is polled with the consumer that was loaded. -/
theorem prepared_bindings_email :
    ∃ b consumer, Prepared false b (emailTrace (.ok emailConsumer)) ∧
      b.qConsumers.lookup "EMAIL" = some (some consumer) ∧
      ∃ e ∈ emailTrace (.ok emailConsumer),
        consumerReply (workStreamName "EMAIL") e = some (some consumer) := by
  obtain ⟨b, hb, hbound⟩ : ∃ b, Prepared false b (emailTrace (.ok emailConsumer)) ∧
      b.qConsumers.lookup "EMAIL" = some (some emailConsumer) :=
    ⟨_, .prepare (.queue emailQueue 1 false) .new (.call (.call (.ret _))), rfl⟩
  obtain ⟨-, hpoll⟩ := prepared_bindings false b (emailTrace (.ok emailConsumer)) hb
  have hlast : lastConsumer (workStreamName "EMAIL") (emailTrace (.ok emailConsumer)) ≠ some none :=
    by decide
  obtain hinvalid | ⟨consumer, hloaded, e, he, hreply⟩ :=
    (hpoll "EMAIL").1 hlast true (.ok { status := "404", data := none })
  · simp [Bindings.pollQueue, hbound] at hinvalid
  · exact ⟨b, consumer, hb, hloaded, e, he, hreply⟩

/-- A queue is prepared again and its consumer cannot be loaded: the preparation fails, the
consumer that was bound is gone, and the next poll runs into nil. -/
theorem failed_preparation_unbinds_consumer :
    ∃ b b' err, Prepared false b (emailTrace (.ok emailConsumer)) ∧
      ((Preparation.queue emailQueue 1 false).prog false b).Follows
        (emailTrace (.error { err := .plain "context deadline exceeded" })) (some err, b') ∧
      b.qConsumers.lookup "EMAIL" = some (some emailConsumer) ∧
      b'.qConsumers.lookup "EMAIL" = some none ∧
      ∀ reply, b'.pollQueue "EMAIL" true reply = .error (.panic nilDereference) := by
  refine ⟨_, _, _, .prepare (.queue emailQueue 1 false) .new (.call (.call (.ret _))),
    .call (.call (.ret _)), rfl, rfl, fun reply => rfl⟩

end AsyncJobs
