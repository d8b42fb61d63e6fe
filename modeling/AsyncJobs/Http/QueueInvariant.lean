import AsyncJobs.Http.QueueServer

/-!
# The queue while it is created

What every call of a request can do to the server, and the invariant of the runs in which the
requests keep to the order: a request that is on the way to create the queue is the only one,
and whoever was answered with 201 has created the consumer.
-/

namespace AsyncJobs

open Interaction

section Log

variable (stream : String)

def started (r : Nat) (log : List QueueEvent) : Bool := log.any fun e => e.request = r

/-- The requests that looked for the stream and neither have its consumer nor have answered. -/
def unsettled : List QueueEvent → List Nat
  | [] => []
  | .looked r s :: log =>
    if s = stream ∧ !started r log then r :: unsettled log else unsettled log
  | .bound r _ _ :: log | .responded r _ :: log => (unsettled log).filter (· ≠ r)

/-- The request that created the consumer of the stream. -/
def QueueEvent.creator : QueueEvent → Option Nat
  | .bound r s true => if s = stream then some r else none
  | _ => none

def creators (log : List QueueEvent) : List Nat := log.filterMap (QueueEvent.creator stream)

/-- The request that was answered with 201 for the queue. -/
def QueueEvent.winner (name : String) : QueueEvent → Option Nat
  | .responded r (.queue 201 info) => if info.name = name then some r else none
  | _ => none

def winners (name : String) (log : List QueueEvent) : List Nat :=
  log.filterMap (QueueEvent.winner name)

def Undecided (r : Nat) (log : List QueueEvent) : Prop :=
  ∀ e ∈ log, e.request = r → ∃ stream, e = .looked r stream

variable {stream} {r : Nat} {log es : List QueueEvent}

theorem mem_unsettled_append (hes : ∀ e ∈ es, e.request ≠ r) :
    r ∈ unsettled stream (es ++ log) ↔ r ∈ unsettled stream log := by
  induction es with
  | nil => rfl
  | cons e es ih =>
    obtain ⟨he, hes⟩ := List.forall_mem_cons.mp hes
    rw [List.cons_append, ← ih hes]
    have hne : r ≠ e.request := Ne.symm he
    cases e with
    | looked r' s =>
      simp only [unsettled]
      split_ifs
      · exact List.mem_cons.trans (or_iff_right hne)
      · rfl
    | bound r' s created => exact List.mem_filter.trans (and_iff_left (decide_eq_true hne))
    | responded r' response => exact List.mem_filter.trans (and_iff_left (decide_eq_true hne))

theorem QueueEvent.request_of_creator {e : QueueEvent} (h : e.creator stream = some r) :
    e.request = r := by
  unfold creator at h
  split at h
  · split_ifs at h
    cases h
    rfl
  · cases h

theorem QueueEvent.responded_of_winner {e : QueueEvent} {name : String}
    (h : e.winner name = some r) : ∃ response, e = .responded r response := by
  unfold winner at h
  split at h
  · split_ifs at h
    cases h
    exact ⟨_, rfl⟩
  · cases h

theorem mem_filterMap_append {f : QueueEvent → Option Nat}
    (hf : ∀ {e}, f e = some r → e.request = r) (hes : ∀ e ∈ es, e.request ≠ r) :
    r ∈ (es ++ log).filterMap f ↔ r ∈ log.filterMap f := by
  rw [List.filterMap_append, List.mem_append, or_iff_right]
  intro hr
  obtain ⟨e, he, hfe⟩ := List.mem_filterMap.mp hr
  exact hes e he (hf hfe)

theorem responded_of_winners {name : String} (h : r ∈ winners name log) :
    ∃ response, .responded r response ∈ log := by
  obtain ⟨e, he, hwinner⟩ := List.mem_filterMap.mp h
  obtain ⟨response, rfl⟩ := QueueEvent.responded_of_winner hwinner
  exact ⟨response, he⟩

end Log

namespace QueueWorld

variable {w w' : QueueWorld} {r : Nat} {stream name : String}

@[simp] theorem hasQueue_note (e : QueueEvent) : (w.note e).hasQueue stream = w.hasQueue stream :=
  rfl

theorem hasQueue_put_of_ne {s : ServerStream} (h : name ≠ stream) :
    (w.put name s).hasQueue stream = w.hasQueue stream := by
  simp [hasQueue, put, Function.update_of_ne h.symm]

@[simp] theorem hasQueue_put_self {s : ServerStream} :
    (w.put stream s).hasQueue stream = s.workers.isSome := by
  simp [hasQueue, put]

/-- All that a call can do. A look finds what there is unless it fails. -/
inductive Effect (w : QueueWorld) (r : Nat) :
    (c : ApiCall) → QueueOutcome → c.Reply → QueueWorld → Prop
  | now (t : Int) : Effect w r .now (.time t) t w
  | loadStream (name : String) :
      Effect w r (.setup (.loadStream name)) .ok (w.findStream name) (w.note (.looked r name))
  | loadStreamFailed (name : String) (e : ApiError) :
      Effect w r (.setup (.loadStream name)) (.failed e) (.error e) (w.note (.looked r name))
  | loadConsumer (name durable : String) :
      Effect w r (.setup (.loadConsumer name durable)) .ok (w.findConsumer name) w
  | loadConsumerFailed (name durable : String) (e : ApiError) :
      Effect w r (.setup (.loadConsumer name durable)) (.failed e) (.error e) w
  | latestInformation (name : String) :
      Effect w r (.latestInformation name) .ok ((w.findStream name).mapError ApiError.err) w
  | latestInformationFailed (name : String) (e : ApiError) :
      Effect w r (.latestInformation name) (.failed e) (.error e.err) w
  | latestState (name durable : String) :
      Effect w r (.latestState name durable) .ok ((w.findConsumer name).mapError ApiError.err) w
  | latestStateFailed (name durable : String) (e : ApiError) :
      Effect w r (.latestState name durable) (.failed e) (.error e.err) w
  | stream (name : String) (opts : StreamOptions) (o : QueueOutcome)
      (reply : Except ApiError StreamHandle) :
      Effect w r (.setup (.loadOrNewStream name opts)) o reply w
  | streamMade (name : String) (opts : StreamOptions) (o : QueueOutcome)
      (reply : Except ApiError StreamHandle) (hnew : w.streams name = none) :
      Effect w r (.setup (.loadOrNewStream name opts)) o reply
        (w.put name ⟨opts.handle, none⟩)
  | consumerFound (name : String) (opts : ConsumerOptions) (c : ConsumerHandle)
      (hqueue : w.hasQueue name = true) :
      Effect w r (.setup (.loadOrNewConsumer name opts)) .ok (.ok c)
        (w.note (.bound r name false))
  | consumerMade (name : String) (opts : ConsumerOptions) (o : QueueOutcome)
      (reply : Except ApiError ConsumerHandle) (handle : StreamHandle)
      (hnew : w.hasQueue name = false) :
      Effect w r (.setup (.loadOrNewConsumer name opts)) o reply
        ((w.put name ⟨handle, some opts.handle⟩).note (.bound r name true))
  | consumerFailed (name : String) (opts : ConsumerOptions) (e : ApiError) :
      Effect w r (.setup (.loadOrNewConsumer name opts)) (.failed e) (.error e) w
  | respond (response : ApiResponse) :
      Effect w r (.respond response) .ok () (w.note (.responded r response))

theorem loadOrNewStream_effect {opts : StreamOptions} {o : QueueOutcome}
    {reply : Except ApiError StreamHandle}
    (h : w.loadOrNewStream name opts o = some (reply, w')) :
    Effect w r (.setup (.loadOrNewStream name opts)) o reply w' := by
  unfold loadOrNewStream at h
  cases hstream : w.streams name with
  | some s =>
    simp only [hstream] at h
    cases o <;> cases h
    exact .stream name opts _ _
  | none =>
    simp only [hstream] at h
    cases o <;> cases h
    · exact .streamMade name opts _ _ hstream
    · exact .stream name opts _ _
    · exact .streamMade name opts _ _ hstream

theorem loadOrNewConsumer_effect {opts : ConsumerOptions} {o : QueueOutcome}
    {reply : Except ApiError ConsumerHandle}
    (h : w.loadOrNewConsumer r name opts o = some (reply, w')) :
    Effect w r (.setup (.loadOrNewConsumer name opts)) o reply w' := by
  unfold loadOrNewConsumer at h
  cases hstream : w.streams name with
  | none =>
    simp only [hstream] at h
    cases h
  | some s =>
    obtain ⟨handle, workers⟩ := s
    cases workers with
    | some c =>
      have hqueue : w.hasQueue name = true := by simp [hasQueue, hstream]
      simp only [hstream] at h
      cases o <;> cases h
      exact .consumerFound name opts c hqueue
    | none =>
      have hnew : w.hasQueue name = false := by simp [hasQueue, hstream]
      simp only [hstream] at h
      cases o <;> cases h
      · exact .consumerMade name opts _ _ handle hnew
      · exact .consumerFailed name opts _
      · exact .consumerMade name opts _ _ handle hnew

theorem exec_effect {c : ApiCall} {o : QueueOutcome} {reply : c.Reply}
    (h : w.exec r c o = some (reply, w')) : Effect w r c o reply w' := by
  cases c with
  | now =>
    cases o <;> cases h
    exact .now _
  | newID => cases o <;> cases h
  | setup c =>
    cases c with
    | loadStream name =>
      cases o <;> cases h
      · exact .loadStream name
      · exact .loadStreamFailed name _
    | loadConsumer name durable =>
      cases o <;> cases h
      · exact .loadConsumer name durable
      · exact .loadConsumerFailed name durable _
    | loadOrNewStream name opts => exact loadOrNewStream_effect h
    | loadOrNewConsumer name opts => exact loadOrNewConsumer_effect h
    | keyValue bucket => cases o <;> cases h
    | createKeyValue config => cases o <;> cases h
    | panic message => cases o <;> cases h
  | latestInformation name =>
    cases o <;> cases h
    · exact .latestInformation name
    · exact .latestInformationFailed name _
  | latestState name durable =>
    cases o <;> cases h
    · exact .latestState name durable
    · exact .latestStateFailed name durable _
  | retryTaskByID id => cases o <;> cases h
  | newScheduledTask name schedule queue task => cases o <;> cases h
  | loadScheduledTaskByName name => cases o <;> cases h
  | respond response =>
    cases o <;> cases h
    exact .respond response

/-- The calls of `QueueInfo` that ask for the stream. -/
def looksAt (stream : String) : ApiCall → Bool
  | .setup (.loadStream s) | .setup (.loadConsumer s _) | .latestInformation s
  | .latestState s _ => s = stream
  | _ => false

/-- The condition on the calls of the requests. As long as there is no queue, a request starts
to look for it only if no other is between its first look and its answer. Once the queue
exists, the looks of a request that has not bound it do not fail. -/
def orderly (stream : String) (w : QueueWorld) (r : Nat) (c : ApiCall) (o : QueueOutcome) : Bool :=
  !looksAt stream c ||
    if w.hasQueue stream then
      o = .ok || w.log.any (fun e => e matches .bound _ _ _ && e.request = r)
    else started r w.log || unsettled stream w.log = []

/-- In order, the look of a request that has bound nothing finds an existing queue. -/
theorem ok_of_orderly {c : ApiCall} {o : QueueOutcome} (hqueue : w.hasQueue stream = true)
    (hundecided : Undecided r w.log) (hlooks : looksAt stream c = true)
    (hmeets : orderly stream w r c o = true) : o = .ok := by
  have hunbound : (w.log.any fun e => e matches .bound _ _ _ && e.request = r) = false := by
    apply List.any_eq_false.mpr
    intro e he hbound
    obtain ⟨hbound, hr⟩ := Bool.and_eq_true_iff.mp hbound
    obtain ⟨stream, rfl⟩ := hundecided e he (of_decide_eq_true hr)
    cases hbound
  simpa only [orderly, hlooks, hqueue, hunbound, Bool.not_true, Bool.false_or, if_true,
    Bool.or_false, decide_eq_true_eq] using hmeets

structure Inv (name : String) (w : QueueWorld) : Prop where
  single : w.hasQueue (workStreamName name) = false →
    ∀ r ∈ unsettled (workStreamName name) w.log, ∀ r' ∈ unsettled (workStreamName name) w.log,
      r = r'
  uncreated : w.hasQueue (workStreamName name) = false → creators (workStreamName name) w.log = []
  once : (creators (workStreamName name) w.log).length ≤ 1
  won : ∀ r ∈ winners name w.log, r ∈ creators (workStreamName name) w.log
  distinct : (winners name w.log).Nodup
  answered : ∀ r response, .responded r response ∈ w.log →
    (∃ info, response = .queue 201 info) ∨ ∃ e, response = .error e

def Permitted (name : String) (w : QueueWorld) (r : Nat) : ApiCall → Prop
  | .setup (.loadOrNewConsumer s _) => s = workStreamName name →
      r ∈ unsettled (workStreamName name) w.log ∧ w.hasQueue (workStreamName name) = false
  | .respond response => (∃ e, response = .error e) ∨
      ∃ info, response = .queue 201 info ∧ (info.name = name →
        r ∈ creators (workStreamName name) w.log ∧ r ∉ winners name w.log)
  | _ => True

variable {name : String} {c : ApiCall} {o : QueueOutcome} {reply : c.Reply}

theorem Inv.answered_cons (h : Inv name w) {e : QueueEvent}
    (he : ∀ r response, e ≠ .responded r response) :
    ∀ r response, .responded r response ∈ e :: w.log →
      (∃ info, response = .queue 201 info) ∨ ∃ e, response = .error e := by
  intro r response hmem
  obtain hmem | hmem := List.mem_cons.mp hmem
  · exact absurd hmem.symm (he r response)
  · exact h.answered r response hmem

theorem Inv.init (streams : String → Option ServerStream) : Inv name { streams } where
  single := by simp [unsettled]
  uncreated _ := rfl
  once := by simp [creators]
  won := by simp [winners]
  distinct := List.nodup_nil
  answered := by simp

theorem Inv.of_log (h : Inv name w) (hlog : w'.log = w.log)
    (hqueue : w'.hasQueue (workStreamName name) = false →
      w.hasQueue (workStreamName name) = false) : Inv name w' where
  single hmissing := by
    rw [hlog]
    exact h.single (hqueue hmissing)
  uncreated hmissing := by
    rw [hlog]
    exact h.uncreated (hqueue hmissing)
  once := hlog ▸ h.once
  won := hlog ▸ h.won
  distinct := hlog ▸ h.distinct
  answered := hlog ▸ h.answered

theorem Inv.looked (h : Inv name w) {s : String}
    (hmeets : orderly (workStreamName name) w r (.setup (.loadStream s)) o = true) :
    Inv name (w.note (.looked r s)) where
  single hmissing := by
    simp only [note, unsettled]
    split_ifs with hfirst
    · -- the first look at the queue, so nothing else is on the way
      have hnone : unsettled (workStreamName name) w.log = [] := by
        obtain ⟨rfl, hstarted⟩ := hfirst
        have hmissing : w.hasQueue (workStreamName name) = false := hmissing
        have hfresh : started r w.log = false := by simpa using hstarted
        simpa [orderly, looksAt, hmissing, hfresh] using hmeets
      simp [hnone]
    · exact h.single hmissing
  uncreated hmissing := h.uncreated hmissing
  once := h.once
  won := h.won
  distinct := h.distinct
  answered := h.answered_cons nofun

theorem Inv.bound (h : Inv name w) (s : String) : Inv name (w.note (.bound r s false)) where
  single hmissing r₁ h₁ r₂ h₂ := by
    simp only [note, unsettled, List.mem_filter] at h₁ h₂
    exact h.single hmissing r₁ h₁.1 r₂ h₂.1
  uncreated hmissing := h.uncreated hmissing
  once := h.once
  won := h.won
  distinct := h.distinct
  answered := h.answered_cons nofun

theorem Inv.madeOther (h : Inv name w) {s : String} {stream : ServerStream}
    (hs : s ≠ workStreamName name) : Inv name ((w.put s stream).note (.bound r s true)) := by
  have hqueue : ((w.put s stream).note (.bound r s true)).hasQueue (workStreamName name) =
      w.hasQueue (workStreamName name) := hasQueue_put_of_ne hs
  have hcreators : creators (workStreamName name) ((w.put s stream).note (.bound r s true)).log =
      creators (workStreamName name) w.log := by
    simp [note, creators, put, QueueEvent.creator, hs]
  constructor
  · intro hmissing r₁ h₁ r₂ h₂
    rw [hqueue] at hmissing
    simp only [note, put, unsettled, List.mem_filter] at h₁ h₂
    exact h.single hmissing r₁ h₁.1 r₂ h₂.1
  · intro hmissing
    rw [hqueue] at hmissing
    rw [hcreators]
    exact h.uncreated hmissing
  · rw [hcreators]
    exact h.once
  · intro r' hr'
    rw [hcreators]
    exact h.won r' hr'
  · exact h.distinct
  · exact h.answered_cons nofun

/-- The queue was made: this request is its only creator, and none has been answered. -/
theorem Inv.madeQueue (h : Inv name w) {stream : ServerStream}
    (hworkers : stream.workers.isSome = true)
    (hnew : w.hasQueue (workStreamName name) = false) :
    Inv name ((w.put (workStreamName name) stream).note (.bound r (workStreamName name) true)) := by
  have hqueue : ((w.put (workStreamName name) stream).note
      (.bound r (workStreamName name) true)).hasQueue (workStreamName name) = true := by
    simpa using hworkers
  have hcreators : creators (workStreamName name) ((w.put (workStreamName name) stream).note
      (.bound r (workStreamName name) true)).log = [r] := by
    simp only [note, creators, put, List.filterMap_cons, QueueEvent.creator, if_true]
    exact congrArg (List.cons r) (h.uncreated hnew)
  have hwinners : winners name w.log = [] := by
    apply List.eq_nil_iff_forall_not_mem.mpr
    intro r' hr'
    simpa [h.uncreated hnew] using h.won r' hr'
  constructor
  · intro hmissing
    rw [hqueue] at hmissing
    cases hmissing
  · intro hmissing
    rw [hqueue] at hmissing
    cases hmissing
  · rw [hcreators]
    exact le_rfl
  · intro r' hr'
    have hr' : r' ∈ winners name w.log := hr'
    rw [hwinners] at hr'
    cases hr'
  · exact h.distinct
  · exact h.answered_cons nofun

theorem Inv.made (h : Inv name w) {s : String} {stream : ServerStream}
    (hworkers : stream.workers.isSome = true) (hnew : w.hasQueue s = false) :
    Inv name ((w.put s stream).note (.bound r s true)) := by
  by_cases hs : s = workStreamName name
  · subst hs
    exact h.madeQueue hworkers hnew
  · exact h.madeOther hs

theorem Inv.responded (h : Inv name w) {response : ApiResponse}
    (hpermit : Permitted name w r (.respond response)) :
    Inv name (w.note (.responded r response)) where
  single hmissing r₁ h₁ r₂ h₂ := by
    simp only [note, unsettled, List.mem_filter] at h₁ h₂
    exact h.single hmissing r₁ h₁.1 r₂ h₂.1
  uncreated hmissing := h.uncreated hmissing
  once := h.once
  won := by
    obtain ⟨e, rfl⟩ | ⟨info, rfl, hcreated⟩ := hpermit
    · exact h.won
    · intro r' hr'
      simp only [note, winners, List.filterMap_cons, QueueEvent.winner] at hr'
      split_ifs at hr' with hname
      · obtain rfl | hr' := List.mem_cons.mp hr'
        · exact (hcreated hname).1
        · exact h.won r' hr'
      · exact h.won r' hr'
  distinct := by
    obtain ⟨e, rfl⟩ | ⟨info, rfl, hcreated⟩ := hpermit
    · exact h.distinct
    · simp only [note, winners, List.filterMap_cons, QueueEvent.winner]
      split_ifs with hname
      · exact List.nodup_cons.mpr ⟨(hcreated hname).2, h.distinct⟩
      · exact h.distinct
  answered r' response' hmem := by
    obtain hmem | hmem := List.mem_cons.mp hmem
    · cases hmem
      obtain ⟨e, rfl⟩ | ⟨info, rfl, -⟩ := hpermit
      · exact Or.inr ⟨e, rfl⟩
      · exact Or.inl ⟨info, rfl⟩
    · exact h.answered r' response' hmem

theorem Inv.effect (h : Inv name w) (hmeets : orderly (workStreamName name) w r c o = true)
    (hpermit : Permitted name w r c) (heffect : Effect w r c o reply w') : Inv name w' := by
  cases heffect with
  | loadStream s => exact h.looked hmeets
  | loadStreamFailed s e => exact h.looked hmeets
  | streamMade s opts o reply hnew =>
    refine h.of_log rfl fun hmissing => ?_
    by_cases hs : s = workStreamName name
    · subst hs
      simp [hasQueue, hnew]
    · rwa [hasQueue_put_of_ne hs] at hmissing
  | consumerFound s opts consumer hqueue => exact h.bound s
  | consumerMade s opts o reply handle hnew => exact h.made rfl hnew
  | respond response => exact h.responded hpermit
  | _ => exact h

/-- A call adds events of its own request only and never removes a queue. -/
theorem Effect.log (h : Effect w r c o reply w') :
    ∃ es, w'.log = es ++ w.log ∧ ∀ e ∈ es, e.request = r := by
  cases h with
  | loadStream s => exact ⟨[.looked r s], rfl, by simp [QueueEvent.request]⟩
  | loadStreamFailed s e => exact ⟨[.looked r s], rfl, by simp [QueueEvent.request]⟩
  | consumerFound s opts consumer hqueue =>
    exact ⟨[.bound r s false], rfl, by simp [QueueEvent.request]⟩
  | consumerMade s opts o reply handle hnew =>
    exact ⟨[.bound r s true], rfl, by simp [QueueEvent.request]⟩
  | respond response => exact ⟨[.responded r response], rfl, by simp [QueueEvent.request]⟩
  | _ => exact ⟨[], rfl, by simp⟩

theorem Effect.hasQueue (h : Effect w r c o reply w') (hqueue : w.hasQueue stream = true) :
    w'.hasQueue stream = true := by
  cases h with
  | streamMade s opts o reply hnew =>
    by_cases hs : s = stream
    · subst hs
      simp [QueueWorld.hasQueue, hnew] at hqueue
    · rwa [hasQueue_put_of_ne hs]
  | consumerMade s opts o reply handle hnew =>
    by_cases hs : s = stream
    · subst hs
      rw [hqueue] at hnew
      cases hnew
    · rw [hasQueue_note, hasQueue_put_of_ne hs]
      exact hqueue
  | _ => exact hqueue

/-- Only the creation of its consumer brings a queue into existence. -/
theorem Effect.missing (h : Effect w r c o reply w') (hmissing : w.hasQueue stream = false)
    (hconsumer : ∀ opts, c ≠ .setup (.loadOrNewConsumer stream opts)) :
    w'.hasQueue stream = false := by
  cases h with
  | streamMade s opts o reply hnew =>
    by_cases hs : s = stream
    · subst hs
      simp
    · rwa [hasQueue_put_of_ne hs]
  | consumerMade s opts o reply handle hnew =>
    have hs : s ≠ stream := by
      intro hs
      subst hs
      exact hconsumer opts rfl
    rw [hasQueue_note, hasQueue_put_of_ne hs]
    exact hmissing
  | _ => exact hmissing

end QueueWorld

end AsyncJobs
