import AsyncJobs.Http.QueueCalls
import AsyncJobs.Http.QueueInvariant

/-!
# One request creates a queue

`CreateQueue` looks for the queue in one call and creates it in later ones that also succeed on
a queue that exists. In runs in which no request looks while another is on the way to create
the queue, and in which no look at an existing queue fails, only the request that created the
consumer is answered with 201.
-/

namespace AsyncJobs

open Interaction

open QueueWorld in
/-- What a request relies on: the others never remove the queue, and do not create it while
the request is on the way to do so. -/
def creationContext (name : String) (r : Nat) : Context api QueueWorld where
  rely w w' := ∃ es, w'.log = es ++ w.log ∧ (∀ e ∈ es, e.request ≠ r) ∧
    (w.hasQueue (workStreamName name) = true → w'.hasQueue (workStreamName name) = true) ∧
    (r ∈ unsettled (workStreamName name) w.log → w.hasQueue (workStreamName name) = false →
      w'.hasQueue (workStreamName name) = false)
  inv := Inv name
  permit w := Permitted name w r
  exec w c reply w' := ∃ o, orderly (workStreamName name) w r c o = true ∧
    w.exec r c o = some (reply, w')
  later w w' := ∃ es, w'.log = es ++ w.log
  rely_refl w := ⟨[], rfl, by simp, id, fun _ => id⟩
  rely_trans := by
    rintro u v w ⟨es, hlog, hes, hqueue, hmissing⟩ ⟨fs, hlog', hfs, hqueue', hmissing'⟩
    refine ⟨fs ++ es, by rw [hlog', hlog, List.append_assoc], ?_, hqueue' ∘ hqueue, ?_⟩
    · intro e he
      obtain he | he := List.mem_append.mp he
      · exact hfs e he
      · exact hes e he
    · intro hr hu
      exact hmissing' (by rwa [hlog, mem_unsettled_append hes]) (hmissing hr hu)
  later_trans := by
    rintro u v w ⟨es, hlog⟩ ⟨fs, hlog'⟩
    exact ⟨fs ++ es, by rw [hlog', hlog, List.append_assoc]⟩
  rely_later := by
    rintro u v ⟨es, hlog, -⟩
    exact ⟨es, hlog⟩
  exec_later := by
    rintro u c reply v ⟨o, -, hexec⟩
    obtain ⟨es, hlog, -⟩ := (exec_effect hexec).log
    exact ⟨es, hlog⟩

section Requests

open QueueWorld

variable {name : String} {r : Nat} {w v : QueueWorld}

theorem undecided_stable : Stable (creationContext name r) fun w => Undecided r w.log := by
  intro w v hw hv
  obtain ⟨es, hlog, hes, -⟩ := hv
  intro e he hr
  rw [hlog] at he
  obtain he | he := List.mem_append.mp he
  · exact absurd hr (hes e he)
  · exact hw e he hr

theorem Undecided.looked (h : Undecided r w.log) (stream : String) :
    Undecided r (w.note (.looked r stream)).log := by
  intro e he hr
  obtain rfl | he := List.mem_cons.mp he
  · exact ⟨stream, rfl⟩
  · exact h e he hr

/-- The queue exists and the request has not bound it. -/
def Late (name : String) (r : Nat) (w : QueueWorld) : Prop :=
  w.hasQueue (workStreamName name) = true ∧ Undecided r w.log

theorem late_stable : Stable (creationContext name r) (Late name r) := by
  intro w v hw hv
  refine ⟨?_, undecided_stable hw.2 hv⟩
  obtain ⟨es, -, -, hqueue, -⟩ := hv
  exact hqueue hw.1

/-- There is no queue and the request is the one that may create it. -/
def Alone (name : String) (r : Nat) (w : QueueWorld) : Prop :=
  r ∈ unsettled (workStreamName name) w.log ∧ w.hasQueue (workStreamName name) = false ∧
    Undecided r w.log

theorem alone_stable : Stable (creationContext name r) (Alone name r) := by
  intro w v hw hv
  refine ⟨?_, ?_, undecided_stable hw.2.2 hv⟩
  · obtain ⟨es, hlog, hes, -⟩ := hv
    rw [hlog, mem_unsettled_append hes]
    exact hw.1
  · obtain ⟨es, -, -, -, hmissing⟩ := hv
    exact hmissing hw.1 hw.2.1

/-- The request created the queue and has not answered. -/
def Creator (name : String) (r : Nat) (w : QueueWorld) : Prop :=
  r ∈ creators (workStreamName name) w.log ∧ r ∉ winners name w.log

theorem request_of_winner {e : QueueEvent} (h : e.winner name = some r) : e.request = r := by
  obtain ⟨response, rfl⟩ := QueueEvent.responded_of_winner h
  rfl

theorem creator_stable : Stable (creationContext name r) (Creator name r) := by
  intro w v hw hv
  obtain ⟨es, hlog, hes, -⟩ := hv
  unfold Creator
  rw [hlog, creators, winners, mem_filterMap_append QueueEvent.request_of_creator hes,
    mem_filterMap_append request_of_winner hes]
  exact hw

theorem Undecided.not_winner (h : Undecided r w.log) : r ∉ winners name w.log := by
  intro hr
  obtain ⟨response, hmem⟩ := responded_of_winners hr
  obtain ⟨stream, hlooked⟩ := h _ hmem rfl
  cases hlooked

theorem Late.ok {c : ApiCall} {o : QueueOutcome} (h : Late name r w)
    (hlooks : looksAt (workStreamName name) c = true)
    (hmeets : orderly (workStreamName name) w r c o = true) : o = .ok :=
  ok_of_orderly h.1 h.2 hlooks hmeets

theorem hasQueue_found (h : w.hasQueue (workStreamName name) = true) :
    (∃ s, w.findStream (workStreamName name) = .ok s) ∧
      ∃ c, w.findConsumer (workStreamName name) = .ok c := by
  unfold hasQueue at h
  obtain ⟨s, hstream, hworkers⟩ := (Option.any_eq_true _ _).mp h
  obtain ⟨c, hconsumer⟩ := Option.isSome_iff_exists.mp hworkers
  constructor
  · exact ⟨s.handle, by simp only [findStream, hstream]⟩
  · exact ⟨c, by simp only [findConsumer, hstream, Option.bind_some, hconsumer]⟩

theorem Late.finds {c : ApiCall} {o : QueueOutcome} {reply : c.Reply} (h : Late name r w)
    (hlooks : looksAt (workStreamName name) c = true)
    (hmeets : orderly (workStreamName name) w r c o = true)
    (hexec : w.exec r c o = some (reply, v)) : Effect w r c .ok reply v := by
  obtain rfl := h.ok hlooks hmeets
  exact exec_effect hexec

theorem Looks.permitted {c : ApiCall} (hc : Looks c) : Permitted name w r c :=
  hc.elim trivial (fun _ => trivial) (fun _ _ => trivial) (fun _ => trivial) fun _ _ => trivial

theorem looks_of_looksAt {stream : String} {c : ApiCall} (h : looksAt stream c = true) :
    Looks c := by
  unfold looksAt at h
  split at h
  · trivial
  · trivial
  · trivial
  · trivial
  · cases h

theorem Late.look {β : Type} {c : ApiCall} {k : c.Reply → Api β} {post : β → QueueWorld → Prop}
    (hw : Late name r w) (hlooks : looksAt (workStreamName name) c = true)
    (h : ∀ v v' reply, Late name r v → Effect v r c .ok reply v' →
      Holds (creationContext name r) post (k reply) v') :
    Holds (creationContext name r) post (c.send >>= k) w := by
  apply Holds.call
  intro v hv _
  refine ⟨(looks_of_looksAt hlooks).permitted, fun reply v' hstep => ?_⟩
  obtain ⟨o, hmeets, hexec⟩ := hstep
  have hlate := late_stable hw hv
  exact h v v' reply hlate (hlate.finds hlooks hmeets hexec)

theorem streamQueueInfo_late (time : Int) (hw : Late name r w) :
    Holds (creationContext name r) (fun result _ => ∃ nfo, result = .ok nfo)
      (streamQueueInfo name time) w := by
  apply hw.look (by simp [looksAt])
  intro v v' reply hlate heffect
  obtain ⟨-, consumer, hconsumer⟩ := hasQueue_found hlate.1
  cases heffect
  rw [hconsumer]
  apply hlate.look (by simp [looksAt])
  intro u u' reply hlate heffect
  obtain ⟨⟨stream, hstream⟩, -⟩ := hasQueue_found hlate.1
  cases heffect
  rw [hstream]
  apply hlate.look (by simp [looksAt])
  intro x x' reply hlate heffect
  obtain ⟨-, consumer, hconsumer⟩ := hasQueue_found hlate.1
  cases heffect
  rw [hconsumer]
  exact fun _ _ _ => ⟨_, rfl⟩

theorem Looks.effect {c : ApiCall} {o : QueueOutcome} {reply : c.Reply} (hc : Looks c)
    (h : Effect w r c o reply v) : v = w ∨ ∃ stream, v = w.note (.looked r stream) := by
  cases h with
  | loadStream s => exact Or.inr ⟨s, rfl⟩
  | loadStreamFailed s e => exact Or.inr ⟨s, rfl⟩
  | streamMade | consumerFound | consumerMade | respond => cases hc
  | _ => exact Or.inl rfl

/-- An assertion that survives interference and the looks of its own request. -/
theorem Looks.keeps {P : QueueWorld → Prop} {β : Type} {p : Api β} {Q : β → Prop}
    (hp : p.Yields Looks Q) (hstable : Stable (creationContext name r) P)
    (hlooked : ∀ w stream, P w → P (w.note (.looked r stream))) (hw : P w) :
    Holds (creationContext name r) (fun _ v => P v) p w := by
  apply hp.holds hstable _ hw
  intro w c hc hw
  refine ⟨hc.permitted, fun reply v hstep => ?_⟩
  obtain ⟨o, -, hexec⟩ := hstep
  obtain rfl | ⟨stream, rfl⟩ := hc.effect (exec_effect hexec)
  · exact hw
  · exact hlooked w stream hw

theorem Alone.looked (hw : Alone name r w) (stream : String) :
    Alone name r (w.note (.looked r stream)) := by
  refine ⟨?_, hw.2.1, hw.2.2.looked stream⟩
  simp only [note, unsettled]
  split_ifs
  · exact List.mem_cons_of_mem r hw.1
  · exact hw.1

/-- The request has not made a call that is recorded. -/
def Fresh (r : Nat) (w : QueueWorld) : Prop := ∀ e ∈ w.log, e.request ≠ r

theorem fresh_stable : Stable (creationContext name r) (Fresh r) := by
  intro w v hw hv e he
  obtain ⟨es, hlog, hes, -⟩ := hv
  rw [hlog] at he
  obtain he | he := List.mem_append.mp he
  · exact hes e he
  · exact hw e he

theorem Fresh.undecided (hw : Fresh r w) : Undecided r w.log :=
  fun e he hr => absurd hr (hw e he)

/-- While there is no queue, the first look makes the request one that can create it. -/
theorem Fresh.alone (hw : Fresh r w) (hmissing : w.hasQueue (workStreamName name) = false) :
    Alone name r (w.note (.looked r (workStreamName name))) := by
  have hstarted : started r w.log = false := by
    apply List.any_eq_false.mpr
    intro e he
    simpa using hw e he
  refine ⟨?_, hmissing, hw.undecided.looked _⟩
  simp [note, unsettled, hstarted]

theorem queueInfo_checks (hw : Fresh r w) :
    Holds (creationContext name r) (fun result v => (∃ nfo, result = .ok nfo) ∨ Alone name r v)
      (queueInfo name) w := by
  apply Holds.call
  intro v hv _
  refine ⟨trivial, fun time v' hstep => ?_⟩
  obtain ⟨o, -, hexec⟩ := hstep
  cases exec_effect hexec
  apply Holds.call
  intro u hu _
  refine ⟨trivial, fun reply u' hstep => ?_⟩
  obtain ⟨o, hmeets, hexec⟩ := hstep
  have hfresh : Fresh r u := fresh_stable (fresh_stable hw hv) hu
  cases hqueue : u.hasQueue (workStreamName name) with
  | true =>
    have hlate : Late name r u := ⟨hqueue, hfresh.undecided⟩
    obtain ⟨⟨stream, hstream⟩, -⟩ := hasQueue_found hqueue
    cases hlate.finds (by simp [looksAt]) hmeets hexec
    rw [hstream]
    have hnoted : Late name r (u.note (.looked r (workStreamName name))) :=
      ⟨hqueue, hlate.2.looked _⟩
    exact (streamQueueInfo_late time hnoted).mono fun _ _ _ hok => Or.inl hok
  | false =>
    have halone := hfresh.alone hqueue
    obtain rfl : u' = u.note (.looked r (workStreamName name)) := by
      cases exec_effect hexec <;> rfl
    cases reply with
    | error e => exact fun x hx _ => Or.inr (alone_stable halone hx)
    | ok stream =>
      apply Holds.mono (Looks.keeps (streamQueueInfo_yields name time) alone_stable
        (fun _ stream hw => hw.looked stream) halone)
      exact fun _ _ _ hv => Or.inr hv

theorem respondError_holds (e : ErrorResponse) :
    Holds (creationContext name r) (fun _ _ => True) (respondError e) w := by
  intro v _ _
  exact ⟨Or.inl ⟨e, rfl⟩, fun _ _ _ _ _ _ => trivial⟩

/-- If the queue is there afterwards without an error, the request has created it. -/
theorem loadOrCreateQueue_alone {q : QueueConfig} (hq : q.name = name) (hw : Alone name r w) :
    Holds (creationContext name r) (fun err v => err = none → Creator name r v)
      (loadOrCreateQueue q) w := by
  subst hq
  apply Holds.call
  intro v hv _
  refine ⟨trivial, fun reply v' hstep => ?_⟩
  obtain ⟨o, -, hexec⟩ := hstep
  have heffect := exec_effect hexec
  have hw := alone_stable hw hv
  have halone : Alone q.name r v' := by
    refine ⟨?_, heffect.missing hw.2.1 (fun _ => nofun), ?_⟩
    all_goals
      obtain hlog : v'.log = v.log := by cases heffect <;> rfl
      rw [hlog]
    · exact hw.1
    · exact hw.2.2
  cases reply with
  | error e => exact fun _ _ _ hnone => nomatch hnone
  | ok stream =>
    apply Holds.call
    intro u hu _
    have hw := alone_stable halone hu
    refine ⟨fun _ => ⟨hw.1, hw.2.1⟩, fun reply u' hstep => ?_⟩
    obtain ⟨o, -, hexec⟩ := hstep
    cases reply with
    | error e => exact fun _ _ _ hnone => nomatch hnone
    | ok consumer =>
      have hcreator : Creator q.name r u' := by
        cases exec_effect hexec with
        | consumerFound s opts c hqueue =>
          rw [hw.2.1] at hqueue
          cases hqueue
        | consumerMade s opts o reply handle hnew =>
          refine ⟨?_, hw.2.2.not_winner⟩
          simp [note, creators, QueueEvent.creator]
      exact fun x hx _ _ => creator_stable hcreator hx

theorem Creator.looked (hw : Creator name r w) (stream : String) :
    Creator name r (w.note (.looked r stream)) :=
  hw

theorem createCheckedQueue_holds {q : QueueConfig} (hq : q.name = name) (hname : q.name ≠ "")
    (hcreate : q.noCreate = false) (hw : Fresh r w) :
    Holds (creationContext name r) (fun _ _ => True) (createCheckedQueue q) w := by
  subst hq
  apply Holds.seq (queueInfo_checks hw)
  intro result v _ _ hresult
  cases result with
  | ok nfo => exact respondError_holds _
  | error err =>
    obtain ⟨nfo, hnfo⟩ | halone := hresult
    · cases hnfo
    · simp only [prepareQueue_eq hname hcreate]
      apply Holds.seq (loadOrCreateQueue_alone rfl halone)
      intro result u _ _ hresult
      cases result with
      | some err => exact respondError_holds _
      | none =>
        apply Holds.seq (Looks.keeps (queueInfo_yields q.name) creator_stable
          (fun _ stream hw => hw.looked stream) (hresult rfl))
        intro result x _ _ hcreator
        cases result with
        | error err => exact respondError_holds _
        | ok nfo =>
          intro y hy _
          refine ⟨Or.inr ⟨nfo, rfl, fun _ => creator_stable hcreator hy⟩, ?_⟩
          exact fun _ _ _ _ _ _ => trivial

theorem createCheckedQueue_holds_other {q : QueueConfig} (hq : q.name ≠ name)
    (hname : q.name ≠ "") (hcreate : q.noCreate = false) :
    Holds (creationContext name r) (fun _ _ => True) (createCheckedQueue q) w := by
  apply (createCheckedQueue_yields hname hcreate).holds (P := fun _ => True)
    (fun _ _ _ _ => trivial)
    _ trivial
  intro w c hc _
  refine ⟨?_, fun _ _ _ => trivial⟩
  cases c with
  | setup c =>
    cases c with
    | loadOrNewConsumer s opts =>
      exact fun hs => absurd (workStreamName_inj.mp (hc.symm.trans hs)) hq
    | _ => trivial
  | respond response =>
    obtain ⟨e, rfl⟩ | ⟨info, rfl, hinfo⟩ := hc
    · exact Or.inl ⟨e, rfl⟩
    · exact Or.inr ⟨info, rfl, fun hthis => absurd (hinfo.symm.trans hthis) hq⟩
  | _ => trivial

variable {parseDuration : String → Except Error Int} {allowCreateDefaultQueue : Bool}

theorem createQueue_holds (body : Except Error QueueCreateRequest) (hw : Fresh r w) :
    Holds (creationContext name r) (fun _ _ => True)
      (createQueue parseDuration allowCreateDefaultQueue body) w := by
  unfold createQueue
  cases body with
  | error err => exact respondError_holds _
  | ok req =>
    cases hqueue : req.queue parseDuration allowCreateDefaultQueue with
    | error e =>
      simp only [hqueue]
      exact respondError_holds e
    | ok q =>
      simp only [hqueue]
      obtain ⟨hname, hcreate⟩ := QueueCreateRequest.queue_ok hqueue
      by_cases hq : q.name = name
      · exact createCheckedQueue_holds hq hname hcreate hw
      · exact createCheckedQueue_holds_other hq hname hcreate

end Requests

namespace QueueServer

open QueueWorld

def Inv (name : String) (cfg : QueueServer) : Prop :=
  Serves (creationContext name) (QueueWorld.Inv name) id QueueWorld.log QueueEvent.request
    cfg.world cfg.threads

def orderly (name : String) (cfg : QueueServer) : QueueAction → Bool
  | .run i o =>
    match cfg.nextCall i with
    | some (r, c) => QueueWorld.orderly (workStreamName name) cfg.world r c o
    | none => true
  | .request _ => true

variable {name : String} {cfg cfg' : QueueServer}
  {parseDuration : String → Except Error Int} {allowCreateDefaultQueue : Bool}

theorem Inv.init (streams : String → Option ServerStream) : Inv name (init streams) :=
  Serves.start (QueueWorld.Inv.init streams) rfl

theorem rely_other {w w' : QueueWorld} (h : QueueWorld.Inv name w) {r r' : Nat} (hne : r' ≠ r)
    {c : ApiCall} {o : QueueOutcome} {reply : c.Reply} (hpermit : Permitted name w r c)
    (heffect : Effect w r c o reply w') : (creationContext name r').rely w w' := by
  obtain ⟨es, hlog, hes⟩ := heffect.log
  refine ⟨es, hlog, fun e he => by rw [hes e he]; exact hne.symm, heffect.hasQueue, ?_⟩
  intro hr' hmissing
  apply heffect.missing hmissing
  intro opts hc
  subst hc
  exact hne.symm (h.single hmissing r (hpermit rfl).1 r' hr')

theorem Inv.run (h : Inv name cfg) {i : Nat} {o : QueueOutcome}
    (hmeets : cfg.orderly name (.run i o) = true)
    (hstep : cfg.step parseDuration allowCreateDefaultQueue (.run i o) = some cfg') :
    Inv name cfg' := by
  obtain ⟨⟨w, threads⟩, hthread, rfl⟩ := Option.map_eq_some_iff.mp hstep
  obtain ⟨r, c, k, reply, hget, hexec, rfl⟩ := stepThread_call hthread
  simp only [QueueServer.orderly, QueueServer.nextCall, nextCall_eq hget] at hmeets
  have hpermit := h.permitted hget h.world
  have heffect := exec_effect hexec
  apply h.call hget h.world ⟨o, hmeets, hexec⟩
  · exact h.world.effect hmeets hpermit heffect
  · exact heffect.log
  · intro r' hne
    exact rely_other h.world hne hpermit heffect

theorem Inv.request (h : Inv name cfg) (body : Except Error QueueCreateRequest) :
    Inv name { cfg with
      threads := cfg.threads ++
        [⟨cfg.threads.length, createQueue parseDuration allowCreateDefaultQueue body⟩] } := by
  apply h.arrive rfl
  intro hfresh
  exact createQueue_holds body hfresh

theorem Inv.step (h : Inv name cfg) {a : QueueAction} (hmeets : cfg.orderly name a = true)
    (hstep : cfg.step parseDuration allowCreateDefaultQueue a = some cfg') : Inv name cfg' := by
  cases a with
  | run i o => exact h.run hmeets hstep
  | request body =>
    cases hstep
    exact h.request body

end QueueServer

/-- In every run that meets the condition, whatever streams there are at its beginning, at most
one request is answered with 201 for a queue, and every other answer is an error. -/
theorem one_request_creates (parseDuration : String → Except Error Int)
    (allowCreateDefaultQueue : Bool) (name : String) (streams : String → Option ServerStream)
    (actions : List QueueAction) (cfg : QueueServer)
    (hrun : QueueServer.runWhile parseDuration allowCreateDefaultQueue (QueueServer.orderly name)
      (.init streams) actions = some cfg) :
    (winners name cfg.world.log).length ≤ 1 ∧
    ∀ r response, .responded r response ∈ cfg.world.log →
      (∃ info, response = .queue 201 info) ∨ ∃ e, response = .error e := by
  have hinv : cfg.Inv name :=
    runWhile_induction (P := QueueServer.Inv name) (fun h hmeets hstep => h.step hmeets hstep)
      actions (QueueServer.Inv.init streams) hrun
  have hworld := hinv.world
  refine ⟨?_, hworld.answered⟩
  calc (winners name cfg.world.log).length
      ≤ (creators (workStreamName name) cfg.world.log).length :=
        (List.subperm_of_subset hworld.distinct hworld.won).length_le
    _ ≤ 1 := hworld.once

def noDurations : String → Except Error Int := fun _ => .error (.plain "invalid duration")

def emailQueueRequest (tries : Int) : QueueCreateRequest :=
  { name := "EMAIL", maxTries := some tries }

/-- Request `i` looks for the queue and does not find its stream. -/
def lookingFor (i : Nat) : List QueueAction := [.run i (.time 0), .run i .ok]

/-- Request `i` loads or creates the stream and the consumer, looks again and answers. -/
def preparing (i : Nat) : List QueueAction :=
  [.run i .ok, .run i .ok, .run i (.time 1), .run i .ok, .run i .ok, .run i .ok, .run i .ok,
    .run i .ok]

/-- Request `i` finds the queue and answers. -/
def finding (i : Nat) : List QueueAction :=
  [.run i (.time 2), .run i .ok, .run i .ok, .run i .ok, .run i .ok, .run i .ok]

def laterRequest : List QueueAction :=
  [.request (.ok (emailQueueRequest 10)), .request (.ok (emailQueueRequest 5))] ++
    lookingFor 0 ++ preparing 0 ++
    finding 1

theorem one_request_creates_later : ∃ cfg,
    QueueServer.runWhile noDurations false (QueueServer.orderly "EMAIL") (.init fun _ => none)
      laterRequest = some cfg ∧
    winners "EMAIL" cfg.world.log = [0] ∧ (winners "EMAIL" cfg.world.log).length ≤ 1 := by
  have hrun : (QueueServer.runWhile noDurations false (QueueServer.orderly "EMAIL")
      (.init fun _ => none) laterRequest).any
        (fun cfg => winners "EMAIL" cfg.world.log = [0]) = true := by
    decide +kernel
  obtain ⟨cfg, hcfg, hwinners⟩ := (Option.any_eq_true _ _).mp hrun
  exact ⟨cfg, hcfg, of_decide_eq_true hwinners,
    (one_request_creates noDurations false "EMAIL" _ _ cfg hcfg).1⟩

/-- Both requests look before either creates the queue. -/
def overlappingCreations : List QueueAction :=
  [.request (.ok (emailQueueRequest 10)), .request (.ok (emailQueueRequest 5))] ++
    lookingFor 0 ++ lookingFor 1 ++
    preparing 0 ++ preparing 1

/-- Both are told that theirs was created, and the second gets the settings of the first. -/
theorem two_requests_create : ∃ cfg info,
    QueueServer.runWhile noDurations false (fun _ _ => true) (.init fun _ => none)
      overlappingCreations = some cfg ∧
    winners "EMAIL" cfg.world.log = [1, 0] ∧
    .responded 1 (.queue 201 info) ∈ cfg.world.log ∧ info.consumer.maxDeliver = 10 := by
  have hrun : (QueueServer.runWhile noDurations false (fun _ _ => true) (.init fun _ => none)
      overlappingCreations).any (fun cfg => winners "EMAIL" cfg.world.log = [1, 0] &&
        cfg.world.log.contains (.responded 1 (.queue 201
          ⟨"EMAIL", 1, ⟨false, 0, -1⟩, ⟨defaultJobRunTime, 100, 10⟩⟩))) = true := by
    decide +kernel
  obtain ⟨cfg, hcfg, hlog⟩ := (Option.any_eq_true _ _).mp hrun
  rw [Bool.and_eq_true, decide_eq_true_eq, List.contains_iff_mem] at hlog
  exact ⟨cfg, _, hcfg, hlog.1, hlog.2, rfl⟩

end AsyncJobs
