import AsyncJobs.Security.Binding
import AsyncJobs.System.Records

/-!
# Signatures in the store

`EnqueueTask` signs a task for the queue it puts it on. No later operation touches what was
signed, except that `RetryTaskByID` writes the queue of its own client into the record and does
not sign it again. The stored revisions of a signed task verify as long as it is retried
through clients of its own queue, and no longer.
-/

namespace AsyncJobs

open Interaction

/-- Among the given messages, verification accepts exactly the signature made over the same
one. Signatures have a fixed length, so no scheme can promise this of all messages at once. -/
def Host.Ed25519 (h : Host) (key : Bytes) (messages : String → Prop) : Prop :=
  ∀ message signed, messages message → messages signed →
    (h.verify (publicOf key) message (h.sign key signed) = true ↔ signed = message)

/-- The messages that the signatures of stored records are checked against. -/
def StoredMessage (log : List Event) (message : String) : Prop :=
  ∃ m, Written log m ∧ m.task.signatureMessage = .ok message

theorem Host.publicOf_length {key : Bytes} (h : key.length = privateKeySize) :
    (publicOf key).length = publicKeySize := by
  simp [publicOf, publicKeySize, h, privateKeySize]

theorem Task.signatureMessage_queue {t : Task} {message : String}
    (h : t.signatureMessage = .ok message) : t.queue ≠ "" := by
  intro hqueue
  unfold Task.signatureMessage at h
  rw [if_pos hqueue] at h
  cases h

/-- Of two tasks with one definition, the messages agree exactly if the queues do. -/
theorem Task.same_message_iff {s x : Task} (hs : s.queue ≠ "") (hx : x.queue ≠ "")
    (hdefinition : x.definition = s.definition) :
    s.signatureMessage = x.signatureMessage ↔ x.queue = s.queue := by
  have hid : x.id = s.id := congrArg TaskDefinition.id hdefinition
  have htype : x.type = s.type := congrArg TaskDefinition.type hdefinition
  have hpayload : x.payload = s.payload := congrArg TaskDefinition.payload hdefinition
  have hdeadline : x.deadline = s.deadline := congrArg TaskDefinition.deadline hdefinition
  have htries : x.maxTries = s.maxTries := congrArg TaskDefinition.maxTries hdefinition
  have hcreated : x.createdAt = s.createdAt := congrArg TaskDefinition.createdAt hdefinition
  rw [Task.signatureMessage_eq_iff hs hx]
  constructor
  · intro h
    exact (Task.names_eq_of_colons h.names (by rw [hid]) (by rw [htype])).2.1.symm
  · intro hqueue
    constructor
    · unfold Task.joinedNames
      rw [hid, hqueue, htype]
    · exact htries.symm
    · rw [hcreated]
    · unfold Task.deadlineNano
      rw [hdeadline]
    · rw [hpayload]

/-- A record with the signature made for the task `s` verifies exactly on the queue of `s`. -/
theorem Client.verifyWith_iff {c : Client} {key : Bytes} {s x : Task} {message : String}
    {messages : String → Prop} (hlaw : c.host.Ed25519 key messages)
    (hlength : key.length = Host.privateKeySize) (hmessage : s.signatureMessage = .ok message)
    (hknown : messages message) (hchecked : ∀ m, x.signatureMessage = .ok m → messages m)
    (hsignature : x.signature = hexEncode (c.host.sign key message))
    (hdefinition : x.definition = s.definition) :
    c.verifyWith (Host.publicOf key) x = .ok () ↔ x.queue = s.queue := by
  have hs := Task.signatureMessage_queue hmessage
  by_cases hx : x.queue = ""
  · have hunsigned : x.signatureMessage = .error Sentinel.taskSignatureRequiresQueue.error := by
      unfold Task.signatureMessage
      rw [if_pos hx]
    rw [hx]
    simp [verifyWith, hunsigned, Ne.symm hs]
  · rw [← Task.same_message_iff hs hx hdefinition, hmessage]
    obtain ⟨found, hfound⟩ : ∃ found, x.signatureMessage = .ok found :=
      ⟨_, Task.signatureMessage_eq hx⟩
    have hverify := hlaw found message (hchecked found hfound) hknown
    unfold verifyWith
    simp only [hfound, hsignature, hexDecode_hexEncode, Host.ed25519Verify,
      Host.publicOf_length hlength, ne_eq, not_true_eq_false, if_false, Except.ok.injEq]
    cases hresult : c.host.verify (Host.publicOf key) found (c.host.sign key message) with
    | true => simpa using hverify.mp hresult
    | false =>
      have hne : ¬ message = found := by
        intro heq
        rw [hverify.mpr heq] at hresult
        cases hresult
      simpa using hne

/-- A record made from the task the client signed, on any queue. -/
structure Client.Signed (c : Client) (t : Copy) (x : Task) : Prop where
  definition : x.definition = (c.prepared t.toTask).definition
  signature : x.signature = (c.prepared t.toTask).signature

section

variable {c : Client} {t : Copy} {key : Bytes} {x : Task}

theorem Client.Submits.signed (h : c.Submits t.toTask x) : c.Signed t x := by
  have hsame := h.2.sameOrder
  exact ⟨hsame.definition, hsame.signature⟩

theorem Client.Submits.queue (h : c.Submits t.toTask x) : x.queue = c.opts.queue.name := by
  rcases h.2 with heq | ⟨lastErr, heq⟩
  · rw [heq]
  · rw [heq]

/-- A record signed by the client verifies exactly on the queue of the client, if the law holds
for its message and that of a record the client stored. -/
theorem Client.Signed.verifies_iff (h : c.Signed t x) (hkey : c.signingKey = some key)
    {messages : String → Prop} (hlaw : c.host.Ed25519 key messages) {new : Task}
    (hsubmits : c.Submits t.toTask new) (hnew : ∀ m, new.signatureMessage = .ok m → messages m)
    (hchecked : ∀ m, x.signatureMessage = .ok m → messages m) :
    c.verifyWith (Host.publicOf key) x = .ok () ↔ x.queue = c.opts.queue.name := by
  rcases signTask_ok hsubmits.1 with ⟨hnone, -⟩ | ⟨key', hkey', hsign⟩
  · rw [hkey] at hnone
    cases hnone
  · rw [hkey] at hkey'
    cases hkey'
    obtain ⟨-, hlength, message, hmessage, hprepared⟩ := Task.sign_ok hsign
    have hsignature := h.signature
    have hdefinition := h.definition
    have hstored := hsubmits.signed.definition
    rw [hprepared] at hsignature hdefinition hstored
    have hqueue := hsubmits.queue
    have hs := Task.signatureMessage_queue hmessage
    have hsame := (Task.same_message_iff (x := new) hs (hqueue ▸ hs) hstored).mpr hqueue
    exact verifyWith_iff hlaw hlength hmessage (hnew message (hsame.symm.trans hmessage)) hchecked
      hsignature hdefinition

end

section Runs

variable {cfg : Config} {c : Client} {t : Copy} {n : Nat} {prog : Job Unit}

theorem Config.Accounted.submits (hacc : cfg.Accounted) (hinv : cfg.Inv)
    (hsigner : ⟨⟨n, .enqueue c t⟩, prog⟩ ∈ cfg.threads) {writer : Writer}
    {old : Option StoredTask} {new : StoredTask} {acked : Bool}
    (hsaved : Event.saved n writer old new acked ∈ cfg.world.log) :
    c.Submits t.toTask new.task := by
  obtain ⟨-, rev, hsubmits⟩ := hacc.recorded_by hinv hsigner hsaved rfl
  exact hsubmits

theorem Config.Accounted.retries (hacc : cfg.Accounted) (hinv : cfg.Inv) {id : String}
    (hretry : ⟨⟨n, .retry c id⟩, prog⟩ ∈ cfg.threads) {writer : Writer}
    {old : Option StoredTask} {new : StoredTask} {acked : Bool}
    (hsaved : Event.saved n writer old new acked ∈ cfg.world.log) :
    new.task.queue = c.opts.queue.name := by
  obtain ⟨-, rev, hqueue⟩ := hacc.recorded_by hinv hretry hsaved rfl
  exact hqueue

/-- Every save of a retrier comes from a call of `RetryTaskByID`. -/
theorem Config.Accounted.retrier (hacc : cfg.Accounted) {old : Option StoredTask}
    {new : StoredTask} {acked : Bool}
    (hsaved : Event.saved n .retrier old new acked ∈ cfg.world.log) :
    ∃ c id prog, ⟨⟨n, .retry c id⟩, prog⟩ ∈ cfg.threads := by
  obtain ⟨th, hth, hholder, hwriter, -⟩ := hacc.recorded _ hsaved n rfl
  obtain ⟨⟨holder, role⟩, prog⟩ := th
  cases hholder
  cases role with
  | retry c id => exact ⟨c, id, prog, hth⟩
  | _ => cases hwriter

variable {post pre : List Event} {old : Option StoredTask} {new : StoredTask} {acked : Bool}
  (hacc : cfg.Accounted) (hinv : cfg.Inv)
  (hsigner : ⟨⟨n, .enqueue c t⟩, prog⟩ ∈ cfg.threads)
  (hlog : cfg.world.log = post ++ .saved n .enqueuer old new acked :: pre)
  (honly : ∀ k old' rev acked', Event.saved k .enqueuer old' rev acked' ∈ post →
    rev.task.id = new.task.id → k = n)
include hacc hinv hsigner hlog honly

/-- What the signing call stores, and every other save but an enqueue hands on, holds of all
revisions stored for the task since. -/
theorem Config.Accounted.since_signed {D : Task → Prop}
    (hsubmits : ∀ x, c.Submits t.toTask x → D x)
    (hothers : ∀ log k writer base rev acked', Event.saved k writer base rev acked' ∈ post →
      rev.task.id = new.task.id → writer ≠ .enqueuer → Change writer k log base rev.task →
      (∀ m, base = some m → D m.task) → D rev.task) :
    ∀ m, Written post m → m.task.id = new.task.id → D m.task := by
  have hvalid := hinv.world.valid
  rw [hlog] at hvalid
  apply (Valid.descends (D := D) _ _ hvalid).2
  · intro m hm
    simp only [current, if_true, Option.some.injEq] at hm
    subst hm
    apply hsubmits
    apply hacc.submits hinv hsigner
    rw [hlog]
    exact List.mem_append_right _ (List.mem_cons_self ..)
  · intro log k writer base rev acked' hmem hid hchange hbase
    by_cases hwriter : writer = .enqueuer
    · subst hwriter
      have hk := honly k base rev acked' hmem hid
      subst hk
      apply hsubmits
      apply hacc.submits hinv hsigner
      rw [hlog]
      exact List.mem_append_left _ hmem
    · exact hothers log k writer base rev acked' hmem hid hwriter hchange hbase

/-- Nobody but the signing call itself writes anything else into the signed fields. -/
theorem Config.Accounted.signed_since :
    ∀ m, Written post m → m.task.id = new.task.id → c.Signed t m.task := by
  apply hacc.since_signed (D := c.Signed t) hinv hsigner hlog honly
  · intro x hx
    exact hx.signed
  · intro log k writer base rev acked' hmem hid hwriter hchange hbase
    obtain ⟨m, hm, hcontinues⟩ := hchange.continues hwriter
    have hm := hbase m hm
    exact ⟨hcontinues.definition.trans hm.definition, hcontinues.signature.trans hm.signature⟩

theorem Config.Accounted.queue_since
    (hretries : ∀ k c' id prog' old' rev acked', ⟨⟨k, .retry c' id⟩, prog'⟩ ∈ cfg.threads →
      Event.saved k .retrier old' rev acked' ∈ post → rev.task.id = new.task.id →
      c'.opts.queue.name = c.opts.queue.name) :
    ∀ m, Written post m → m.task.id = new.task.id → m.task.queue = c.opts.queue.name := by
  have hpost : ∀ e ∈ post, e ∈ cfg.world.log := by
    intro e he
    rw [hlog]
    exact List.mem_append_left _ he
  apply hacc.since_signed (D := fun x => x.queue = c.opts.queue.name) hinv hsigner hlog honly
  · intro x hx
    exact hx.queue
  · intro log k writer base rev acked' hmem hid henqueuer hchange hbase
    -- only a retry moves a record to another queue
    by_cases hretrier : writer = .retrier
    · subst hretrier
      obtain ⟨c', id, prog', hretry⟩ := hacc.retrier (hpost _ hmem)
      rw [hacc.retries hinv hretry (hpost _ hmem)]
      exact hretries k c' id prog' base rev acked' hretry hmem hid
    · obtain ⟨m, rfl, -⟩ := hchange.continues henqueuer
      rw [hchange.same_queue henqueuer hretrier]
      exact hbase m rfl

end Runs

/-- A task that `EnqueueTask` signed with a key and that is not enqueued again: all revisions
stored for it since verify under the public key exactly if every `RetryTaskByID` that stored
one went through a client of the queue the task was signed for. -/
theorem stored_revisions_verify_iff (start : Int) (actions : List Action) (cfg : Config)
    (hrun : (Config.init start).run actions = some cfg) (c : Client) (t : Copy) (key : Bytes)
    (hkey : c.signingKey = some key)
    (hlaw : c.host.Ed25519 key (StoredMessage cfg.world.log)) (n : Nat) (prog : Job Unit)
    (hsigner : ⟨⟨n, .enqueue c t⟩, prog⟩ ∈ cfg.threads) (post pre : List Event)
    (old : Option StoredTask) (new : StoredTask) (acked : Bool)
    (hsaved : cfg.world.log = post ++ .saved n .enqueuer old new acked :: pre)
    (honly : ∀ k old' rev acked', Event.saved k .enqueuer old' rev acked' ∈ post →
      rev.task.id = new.task.id → k = n) :
    (∀ rev, rev = new ∨ Written post rev → rev.task.id = new.task.id →
      c.verifyWith (Host.publicOf key) rev.task = .ok ()) ↔
    ∀ k c' id prog' old' rev acked', ⟨⟨k, .retry c' id⟩, prog'⟩ ∈ cfg.threads →
      Event.saved k .retrier old' rev acked' ∈ post → rev.task.id = new.task.id →
      c'.opts.queue.name = c.opts.queue.name := by
  obtain ⟨hinv, hacc⟩ := Config.Accounted.reached hrun
  have hpost : ∀ e ∈ post, e ∈ cfg.world.log := by
    intro e he
    rw [hsaved]
    exact List.mem_append_left _ he
  have hsubmits : c.Submits t.toTask new.task := by
    apply hacc.submits hinv hsigner
    rw [hsaved]
    exact List.mem_append_right _ (List.mem_cons_self ..)
  have hnew : Written cfg.world.log new := by
    refine ⟨n, .enqueuer, old, acked, ?_⟩
    rw [hsaved]
    exact List.mem_append_right _ (List.mem_cons_self ..)
  have hstored : ∀ {m : StoredTask}, Written post m → Written cfg.world.log m := by
    rintro m ⟨k, writer, base, acked', hmem⟩
    exact ⟨k, writer, base, acked', hpost _ hmem⟩
  have hverifies : ∀ {m : StoredTask}, Written cfg.world.log m → c.Signed t m.task →
      (c.verifyWith (Host.publicOf key) m.task = .ok () ↔ m.task.queue = c.opts.queue.name) :=
    fun hm hx => hx.verifies_iff hkey hlaw hsubmits (fun _ h => ⟨new, hnew, h⟩)
      fun _ h => ⟨_, hm, h⟩
  have hsigned := hacc.signed_since hinv hsigner hsaved honly
  constructor
  · intro hall k c' id prog' old' rev acked' hretry hmem hid
    have hwritten : Written post rev := ⟨k, .retrier, old', acked', hmem⟩
    have hqueue := (hverifies (hstored hwritten) (hsigned rev hwritten hid)).mp
      (hall rev (Or.inr hwritten) hid)
    rw [← hqueue, hacc.retries hinv hretry (hpost _ hmem)]
  · intro hretries rev hrev hid
    have hqueue := hacc.queue_since hinv hsigner hsaved honly hretries
    rcases hrev with rfl | hwritten
    · exact (hverifies hnew hsubmits.signed).mpr hsubmits.queue
    · exact (hverifies (hstored hwritten) (hsigned rev hwritten hid)).mpr (hqueue rev hwritten hid)

/-- A host whose signatures are the messages themselves. -/
def echoHost : Host where
  readFile _ := .error (.plain "no such file")
  newKeyFromSeed seed := seed ++ seed
  sign _ message := message.toByteArray.data.toList
  verify _ message sig := sig = message.toByteArray.data.toList

theorem echoHost_ed25519 (key : Bytes) (messages : String → Prop) :
    echoHost.Ed25519 key messages := by
  intro message signed _ _
  simp only [echoHost, decide_eq_true_eq, Array.toList_inj]
  constructor
  · intro h
    exact String.toByteArray_inj.mp (ByteArray.ext h)
  · rintro rfl
    rfl

def echoKey : Bytes := List.replicate 64 0

def echoClient (queue : Queue) : Client :=
  ⟨{ queue := queue, privateKey := some echoKey }, echoHost⟩

/-- The signed task is enqueued, and retried through another client. -/
def retrySigned (queue : Queue) : List Action :=
  [.newTask sampleTask, .enqueue (echoClient sampleQueue) 0] ++ answered 0 4 ++
    .retry (echoClient queue) "T1" :: answered 1 2

/-- The newest event stores a retried task with this property, which call 1 enqueued before
and nobody else. -/
def signedThenRetried (test : Task → Bool) : List Event → Bool
  | .saved _ .retrier _ rev _ :: log =>
    test rev.task &&
    (log.any fun
      | .saved k .enqueuer _ new _ => k = 1 ∧ rev.task.id = new.task.id
      | _ => false) &&
    log.all fun
      | .saved k .enqueuer _ _ _ => k = 1
      | _ => true
  | _ => false

theorem exists_retried {test : Task → Bool} {result : Option Config}
    (h : result.any (fun cfg => signedThenRetried test cfg.world.log) = true) :
    ∃ cfg k base rev acked post old new acked' pre, result = some cfg ∧
      cfg.world.log = (.saved k .retrier base rev acked :: post) ++
        .saved 1 .enqueuer old new acked' :: pre ∧
      rev.task.id = new.task.id ∧ test rev.task = true ∧
      ∀ j old' new' acked', Event.saved j .enqueuer old' new' acked' ∈ post → j = 1 := by
  obtain ⟨cfg, hcfg, hretried⟩ := (Option.any_eq_true _ _).mp h
  unfold signedThenRetried at hretried
  split at hretried
  · rename_i k base rev acked log hlog
    simp only [Bool.and_eq_true] at hretried
    obtain ⟨⟨htest, hany⟩, hall⟩ := hretried
    obtain ⟨e, he, hsaved⟩ := List.any_eq_true.mp hany
    split at hsaved
    · rename_i j old new acked'
      obtain ⟨rfl, hid⟩ := of_decide_eq_true hsaved
      obtain ⟨post, pre, rfl⟩ := List.append_of_mem he
      refine ⟨cfg, k, base, rev, acked, post, old, new, acked', pre, hcfg, hlog, hid, htest, ?_⟩
      intro j old' new' acked'' hmem
      have hj := List.all_eq_true.mp hall _ (List.mem_append_left _ hmem)
      exact of_decide_eq_true hj
    · cases hsaved
  · cases hretried

/-- Retried through a client of the same queue, the record verifies. -/
theorem stored_revisions_verify_sample :
    ∃ cfg k base rev acked log, (Config.init 0).run (retrySigned sampleQueue) = some cfg ∧
      cfg.world.log = .saved k .retrier base rev acked :: log ∧
      (echoClient sampleQueue).verifyWith (Host.publicOf echoKey) rev.task = .ok () := by
  have hrun : ((Config.init 0).run (retrySigned sampleQueue)).any
      (fun cfg => signedThenRetried (fun _ => true) cfg.world.log) = true := by
    decide +kernel
  obtain ⟨cfg, k, base, rev, acked, post, old, new, acked', pre, hcfg, hlog, hid, -, honly⟩ :=
    exists_retried hrun
  have htags : ((Config.init 0).run (retrySigned sampleQueue)).map
      (fun cfg => cfg.threads.map (·.tag)) =
        some [⟨1, .enqueue (echoClient sampleQueue) ⟨sampleTask, none⟩⟩,
          ⟨3, .retry (echoClient sampleQueue) "T1"⟩] := rfl
  rw [hcfg, Option.map_some, Option.some.injEq] at htags
  obtain ⟨⟨tag, prog⟩, hsigner, htag⟩ : ∃ th ∈ cfg.threads, th.tag =
      ⟨1, .enqueue (echoClient sampleQueue) ⟨sampleTask, none⟩⟩ := by
    apply List.mem_map.mp
    rw [htags]
    exact List.mem_cons_self ..
  subst htag
  refine ⟨cfg, k, base, rev, acked, _, hcfg, hlog, ?_⟩
  apply (stored_revisions_verify_iff 0 _ cfg hcfg (echoClient sampleQueue) ⟨sampleTask, none⟩
    echoKey rfl (echoHost_ed25519 echoKey _) 1 prog hsigner _ pre old new acked' hlog ?_).mpr
  · intro j c' id prog' old' rev' acked'' hretry _ _
    have hmem : (⟨j, .retry c' id⟩ : Tag) ∈ cfg.threads.map (·.tag) :=
      List.mem_map_of_mem hretry
    rw [htags] at hmem
    rcases List.mem_cons.mp hmem with heq | hmem
    · cases heq
    · cases List.mem_singleton.mp hmem
      rfl
  · exact Or.inr ⟨k, .retrier, base, acked, List.mem_cons_self ..⟩
  · exact hid
  · intro j old' new' acked'' hmem _
    rcases List.mem_cons.mp hmem with heq | hmem
    · cases heq
    · exact honly j old' new' acked'' hmem

/-- Retried through a client of another queue, the record of the signed task no longer
verifies. -/
theorem retry_on_other_queue_breaks_signature :
    (∀ messages, echoHost.Ed25519 echoKey messages) ∧
    (echoClient sampleQueue).signingKey = some echoKey ∧
    ∃ cfg k base rev acked post old new acked' pre,
      (Config.init 0).run (retrySigned { sampleQueue with name := "OTHER" }) = some cfg ∧
      cfg.world.log = (.saved k .retrier base rev acked :: post) ++
        .saved 1 .enqueuer old new acked' :: pre ∧
      rev.task.id = new.task.id ∧
      (echoClient sampleQueue).verifyWith (Host.publicOf echoKey) rev.task ≠ .ok () := by
  refine ⟨echoHost_ed25519 echoKey, rfl, ?_⟩
  have hrun : ((Config.init 0).run (retrySigned { sampleQueue with name := "OTHER" })).any
      (fun cfg => signedThenRetried (fun t => !((echoClient sampleQueue).verifyWith
        (Host.publicOf echoKey) t).isOk) cfg.world.log) = true := by
    decide +kernel
  obtain ⟨cfg, k, base, rev, acked, post, old, new, acked', pre, hcfg, hlog, hid, htest, -⟩ :=
    exists_retried hrun
  refine ⟨cfg, k, base, rev, acked, post, old, new, acked', pre, hcfg, hlog, hid, ?_⟩
  intro hverifies
  rw [hverifies] at htest
  cases htest

end AsyncJobs
