import AsyncJobs.System.Enqueue
import AsyncJobs.System.Records

/-!
# Enqueueing a task again

A client names its queue in the task and signs it before anything is sent. When the call then
fails and nothing was stored, the caller is left with the changed task, and a second call
starts from that.
-/

namespace AsyncJobs

open Interaction

/-- A task as `NewTask` returns it. -/
structure Copy.Fresh (t : Copy) : Prop where
  unsigned : t.signature = ""
  unsaved : t.storageOptions = none
  state : t.state = .new ∨ t.state = .blocked

theorem Copy.Fresh.enqueueable {t : Copy} (h : t.Fresh) : t.Enqueueable := by
  obtain hstate | hstate := h.state
  · exact .inl hstate
  · exact .inr (.inr hstate)

/-- Only a delete takes a task out of the store. -/
def Call.KeepsTasks (c : Call) : Prop := ∀ seq, c ≠ .deleteMessage seq

namespace World

variable {w w' : World} {n : Nat} {writer : Writer}

theorem exec_keeps_stored {id : String} {c : Call} (hc : c.KeepsTasks)
    {o : Outcome} {r : c.Reply} (hw : w.stored id ≠ none)
    (h : w.exec n writer c o = some (r, w')) : w'.stored id ≠ none := by
  cases exec_effect h with
  | save accepted acked =>
    rw [stored_store]
    split
    · simp
    · exact hw
  | @delete seq m found => exact absurd rfl (hc seq)
  | done t err => rwa [finish_stored]
  | _ => exact hw

end World

namespace Client

variable {c : Client} {t : Copy}

/-- The call gives the task no signature: there is no key, or signing fails. -/
def LeavesUnsigned (c : Client) (t : Task) : Prop :=
  ∀ signed, c.signTask { t with queue := c.opts.queue.name } = .ok signed → signed.signature = ""

def preparedCopy (c : Client) (t : Copy) : Copy := { t with toTask := c.prepared t.toTask }

theorem leavesUnsigned_iff (ht : t.signature = "") :
    c.LeavesUnsigned t.toTask ↔ (c.prepared t.toTask).signature = "" := by
  unfold LeavesUnsigned prepared
  cases c.signTask { t.toTask with queue := c.opts.queue.name } with
  | error fault => simp [ht]
  | ok signed => simp

theorem signTask_again {task signed : Task} (h : c.signTask task = .ok signed)
    (hunsigned : task.signature = "") (hsigned : signed.signature ≠ "") :
    c.signTask signed = .error (.error Sentinel.taskAlreadySigned.error) := by
  have hrefuses : ∀ key, signed.sign c.host key =
      .error (.error Sentinel.taskAlreadySigned.error) := fun key => if_pos hsigned
  unfold signTask at h ⊢
  cases hkey : c.opts.privateKey with
  | some key => exact hrefuses key
  | none =>
    rw [hkey] at h
    by_cases hseed : c.opts.seedFile ≠ ""
    · rw [if_pos hseed] at h
      rw [if_pos hseed]
      cases hread : c.host.readSeedFile c.opts.seedFile with
      | error err =>
        rw [hread] at h
        cases h
      | ok key => exact hrefuses key
    · rw [if_neg hseed] at h
      cases h
      exact absurd hunsigned hsigned

theorem enqueueTask_signing (c : Client) (t : Copy) : c.enqueueTask t =
    match c.signTask { t.toTask with queue := c.opts.queue.name } with
    | .error (.error err) => .ret (some err, { t with queue := c.opts.queue.name })
    | .error (.panic message) => raise message
    | .ok signed => Storage.enqueueTask c.opts.queue { t with toTask := signed } := rfl

theorem enqueueTask_of_signed {signed : Task}
    (h : c.signTask { t.toTask with queue := c.opts.queue.name } = .ok signed) :
    c.enqueueTask t = Storage.enqueueTask c.opts.queue (c.preparedCopy t) := by
  have hprepared : c.prepared t.toTask = signed := by rw [prepared, h]
  rw [enqueueTask_signing, preparedCopy, hprepared, h]

theorem enqueueTask_of_failed {err : Error}
    (h : c.signTask { t.toTask with queue := c.opts.queue.name } = .error (.error err)) :
    c.enqueueTask t = .ret (some err, c.preparedCopy t) := by
  have hprepared : c.prepared t.toTask = { t.toTask with queue := c.opts.queue.name } := by
    rw [prepared, h]
  rw [enqueueTask_signing, preparedCopy, hprepared, h]

theorem enqueueTask_of_panic {message : String}
    (h : c.signTask { t.toTask with queue := c.opts.queue.name } = .error (.panic message)) :
    c.enqueueTask t = raise message := by
  rw [enqueueTask_signing, h]

theorem preparedCopy_eq (c : Client) (t : Copy) : ∃ signature,
    c.preparedCopy t = { t with queue := c.opts.queue.name, signature := signature } := by
  obtain ⟨signature, hprepared, -⟩ := c.prepared_cases t.toTask
  exact ⟨signature, by rw [preparedCopy, hprepared]⟩

theorem preparedCopy_enqueueable (ht : t.Fresh) : (c.preparedCopy t).Enqueueable := by
  obtain ⟨signature, hcopy⟩ := c.preparedCopy_eq t
  rw [hcopy]
  exact ht.enqueueable

theorem preparedCopy_onQueue : (c.preparedCopy t).onQueue c.opts.queue = c.preparedCopy t := by
  obtain ⟨signature, hcopy⟩ := c.preparedCopy_eq t
  rw [hcopy]
  rfl

section FirstCall

variable {w w' : World} {n : Nat} {writer : Writer} {outcomes rest : List Outcome}
  {err : Error} {t' : Copy}

/-- A call of the storage that fails and leaves nothing stored returns the copy it was given. -/
theorem storage_call_copy (ht : t.Enqueueable) {queue : Queue}
    (hrun : w.execute n writer (Storage.enqueueTask queue t) outcomes =
      some ((some err, t'), rest, w'))
    (hnone : w'.stored t.id = none) : t' = t.onQueue queue := by
  have hyields := Storage.enqueueTask_yields (C := Call.KeepsTasks) (fun _ => nofun) queue t
    (fun _ _ _ => nofun) fun _ _ => nofun
  rw [enqueueTask_eq ht] at hrun hyields
  obtain ⟨o, os, reply, u, -, hexec, hafter⟩ := World.execute_request hrun
  cases reply with
  | error saveErr =>
    cases hafter
    rfl
  | ok seq =>
    -- the task is in the store from here on
    have hsaved : u.stored t.id ≠ none := by
      obtain ⟨-, rfl⟩ | ⟨⟨e, herr⟩, -⟩ := World.execSave_cases hexec
      · have hstored := w.stored_store_self n writer (t.onQueue queue)
        simp [show t.id = (t.onQueue queue).id from rfl, hstored]
      · cases herr
    have hkept := Prog.Yields.of_execute (P := fun v : World => v.stored t.id ≠ none)
      (fun _ _ _ _ _ hc hv h => World.exec_keeps_stored hc hv h) (hyields.2 (.ok seq)) hsaved hafter
    exact absurd hnone hkept.1

theorem failed_call_copy (ht : t.Fresh)
    (hrun : w.execute n writer (c.enqueueTask t) outcomes = some ((some err, t'), rest, w'))
    (hnone : w'.stored t.id = none) : t' = c.preparedCopy t := by
  cases hsign : c.signTask { t.toTask with queue := c.opts.queue.name } with
  | error fault =>
    cases fault with
    | error e =>
      rw [enqueueTask_of_failed hsign] at hrun
      cases hrun
      rfl
    | panic message =>
      rw [enqueueTask_of_panic hsign] at hrun
      obtain ⟨-, -, impossible, -⟩ := World.execute_request hrun
      exact Empty.elim impossible
  | ok signed =>
    rw [enqueueTask_of_signed hsign] at hrun
    obtain ⟨signature, hcopy⟩ := c.preparedCopy_eq t
    have hid : (c.preparedCopy t).id = t.id := by rw [hcopy]
    rw [storage_call_copy (preparedCopy_enqueueable ht) hrun (hid ▸ hnone), preparedCopy_onQueue]

theorem signTask_ne_panic {result : (Option Error × Copy) × List Outcome × World}
    (hrun : w.execute n writer (c.enqueueTask t) outcomes = some result) (message : String) :
    c.signTask { t.toTask with queue := c.opts.queue.name } ≠ .error (.panic message) := by
  intro hsign
  rw [enqueueTask_of_panic hsign] at hrun
  obtain ⟨-, -, impossible, -⟩ := World.execute_request hrun
  exact Empty.elim impossible

end FirstCall

theorem enqueueTask_preparedCopy_unsigned (ht : t.Fresh)
    (h : (c.prepared t.toTask).signature = "") :
    c.enqueueTask (c.preparedCopy t) = c.enqueueTask t := by
  obtain ⟨signature, hprepared, -⟩ := c.prepared_cases t.toTask
  have hsignature : signature = t.signature := by
    rw [hprepared] at h
    exact h.trans ht.unsigned.symm
  rw [preparedCopy, hprepared, hsignature]
  rfl

theorem signTask_of_prepared (ht : t.Fresh) (h : (c.prepared t.toTask).signature ≠ "") :
    c.signTask { t.toTask with queue := c.opts.queue.name } = .ok (c.prepared t.toTask) := by
  unfold prepared at h ⊢
  cases hsign : c.signTask { t.toTask with queue := c.opts.queue.name } with
  | error fault =>
    rw [hsign] at h
    exact absurd ht.unsigned h
  | ok signed => rfl

theorem enqueueTask_preparedCopy_signed (ht : t.Fresh)
    (h : (c.prepared t.toTask).signature ≠ "") :
    ∃ t', c.enqueueTask (c.preparedCopy t) =
      .ret (some Sentinel.taskAlreadySigned.error, t') := by
  have hagain := signTask_again (signTask_of_prepared ht h) ht.unsigned h
  have hqueue : { (c.preparedCopy t).toTask with queue := c.opts.queue.name } =
      c.prepared t.toTask := congrArg Copy.toTask (c.preparedCopy_onQueue (t := t))
  rw [← hqueue] at hagain
  exact ⟨_, enqueueTask_of_failed hagain⟩

end Client

section SecondCall

variable {v w' : World} {n : Nat} {writer : Writer} {queue : Queue} {t : Copy}
  {err : Option Error}

/-- A call that nothing fails in stores a task that was not stored, and queues it unless the
server remembers its message ID. -/
theorem EnqueueResult.of_working (h : EnqueueResult v n writer queue t {} err w')
    (hnone : v.stored t.id = none) (ht : t.storageOptions = none) :
    w'.stored t.id ≠ none ∧ (v.isDuplicate queue.name (itemMsgID t) = false →
      err = none ∧ w'.stored t.id = some ⟨v.lastSeq + 1, (t.onQueue queue).toTask⟩ ∧
        w'.hasItem queue.name t.id = true) := by
  have hsaves : ({} : EnqueueFailures).Saves v t := by
    refine ⟨rfl, ?_⟩
    simp [World.accepts, World.lastSubjectSeq, hnone, ht]
  cases h with
  | unsaved hsave e => exact absurd hsaves hsave
  | unannounced hsave hevent e => exact absurd rfl hevent
  | queued hsave hevent hitem =>
    have hstored := v.stored_store_self n writer (t.onQueue queue)
    have hqueued := (v.store n writer (t.onQueue queue) true).hasItem_putItem n queue.name t.id
      (itemMsgID t)
    exact ⟨hstored.trans_ne (Option.some_ne_none _), fun _ => ⟨rfl, hstored, hqueued⟩⟩
  | compensated hsave hevent hitem hundo lastErr e =>
    have hstored := World.stored_store_self
      ((v.store n writer (t.onQueue queue) true).note (.unqueued n)) n writer
      { v.savedCopy (t.onQueue queue) with state := .queueError, lastErr := lastErr }
    refine ⟨hstored.trans_ne (Option.some_ne_none _), fun hnew => ?_⟩
    obtain hlost | hdup := hitem
    · exact absurd rfl hlost
    · exact absurd (hnew.symm.trans hdup) Bool.false_ne_true
  | uncompensated hsave hevent hitem hundo e => exact absurd rfl hundo

end SecondCall

/-- Storage that answers every request; no call sends more. -/
def workingStorage : List Outcome := List.replicate 5 .ok

/-- With working storage a call with the copy `t'` comes to what one with `t` would. -/
def EnqueuesAs (c : Client) (v : World) (n : Nat) (writer : Writer) (t t' : Copy) : Prop :=
  ∃ result, v.execute n writer (c.enqueueTask t) workingStorage = some result ∧
    v.execute n writer (c.enqueueTask t') workingStorage = some result

section

variable {c : Client} {v : World} {n : Nat} {writer : Writer} {t : Copy}

theorem enqueueTask_working (ht : t.Fresh) (hnone : v.stored t.id = none) {signed : Task}
    (hsign : c.signTask { t.toTask with queue := c.opts.queue.name } = .ok signed) :
    ∃ err t' rest w', v.execute n writer (c.enqueueTask t) workingStorage =
        some ((err, t'), rest, w') ∧ w'.stored t.id ≠ none ∧
      (v.isDuplicate c.opts.queue.name (some t.id) = false →
        err = none ∧ w'.stored t.id = some ⟨v.lastSeq + 1, c.prepared t.toTask⟩ ∧
          w'.hasItem c.opts.queue.name t.id = true) := by
  obtain ⟨signature, hcopy⟩ := c.preparedCopy_eq t
  have hmsgID : itemMsgID (c.preparedCopy t) = some t.id := by
    rw [hcopy]
    obtain hstate | hstate := ht.state <;> simp [itemMsgID, hstate]
  obtain ⟨err, t', rest, w', hrun, hresult⟩ := enqueueTask_result v n writer c.opts.queue {}
    (Client.preparedCopy_enqueueable (c := c) ht)
  rw [Client.enqueueTask_of_signed hsign]
  have hworking := hresult.of_working (by rw [hcopy]; exact hnone) (by rw [hcopy]; exact ht.unsaved)
  rw [hmsgID, Client.preparedCopy_onQueue] at hworking
  have hid : (c.preparedCopy t).id = t.id := by rw [hcopy]
  rw [hid] at hworking
  exact ⟨err, t', rest, w', hrun, hworking⟩

/-- A first call with working storage returns, unless it panics. -/
theorem enqueueTask_working_returns (ht : t.Fresh)
    (hsign : ∀ message, c.signTask { t.toTask with queue := c.opts.queue.name } ≠
      .error (.panic message)) :
    ∃ result, v.execute n writer (c.enqueueTask t) workingStorage = some result := by
  cases hsigned : c.signTask { t.toTask with queue := c.opts.queue.name } with
  | error fault =>
    cases fault with
    | error err =>
      rw [Client.enqueueTask_of_failed hsigned]
      exact ⟨_, rfl⟩
    | panic message => exact absurd hsigned (hsign message)
  | ok signed =>
    obtain ⟨err, t', rest, w', hrun, -⟩ := enqueueTask_result v n writer c.opts.queue {}
      (Client.preparedCopy_enqueueable (c := c) ht)
    rw [Client.enqueueTask_of_signed hsigned]
    exact ⟨_, hrun⟩

end

/-- A fresh task was submitted, the call failed, whatever became of its requests, and nothing is
stored for it. Wherever it is submitted again while nothing is stored for it, that call comes
to what a first one would exactly if the first call gave it no signature. It then stores the
same record and queues it; otherwise it is refused before anything is sent. -/
theorem enqueueTask_again (c : Client) (t : Copy) (w : World) (n : Nat) (writer : Writer)
    (outcomes rest : List Outcome) (err : Error) (t' : Copy) (w' : World) (ht : t.Fresh)
    (hrun : w.execute n writer (c.enqueueTask t) outcomes = some ((some err, t'), rest, w'))
    (hnone : w'.stored t.id = none) :
    (∀ (v : World) (k : Nat), v.stored t.id = none →
      (EnqueuesAs c v k writer t t' ↔ c.LeavesUnsigned t.toTask)) ∧
    (¬ c.LeavesUnsigned t.toTask →
      ∃ t'', c.enqueueTask t' = .ret (some Sentinel.taskAlreadySigned.error, t'')) ∧
    (∀ (v : World) (k : Nat), v.stored t.id = none → c.LeavesUnsigned t.toTask →
      c.signTask { t.toTask with queue := c.opts.queue.name } = .ok (c.prepared t.toTask) →
      v.isDuplicate c.opts.queue.name (some t.id) = false →
      ∃ t'' left v', v.execute k writer (c.enqueueTask t') workingStorage =
          some ((none, t''), left, v') ∧
        v'.stored t.id = some ⟨v.lastSeq + 1, c.prepared t.toTask⟩ ∧
        v'.hasItem c.opts.queue.name t.id = true) := by
  obtain rfl := Client.failed_call_copy ht hrun hnone
  rw [Client.leavesUnsigned_iff ht.unsigned]
  have hrefused : (c.prepared t.toTask).signature ≠ "" →
      ∃ t'', c.enqueueTask (c.preparedCopy t) =
        .ret (some Sentinel.taskAlreadySigned.error, t'') :=
    Client.enqueueTask_preparedCopy_signed ht
  refine ⟨?_, hrefused, ?_⟩
  · intro v k hv
    constructor
    · intro ⟨result, hfirst, hsecond⟩
      by_contra hsigned
      obtain ⟨t'', hret⟩ := hrefused hsigned
      rw [hret] at hsecond
      cases hsecond
      obtain ⟨_, _, _, v', hstores, hstored, -⟩ :=
        enqueueTask_working (n := k) ht hv (Client.signTask_of_prepared ht hsigned)
      cases hfirst.symm.trans hstores
      exact hstored hv
    · intro hunsigned
      obtain ⟨result, hfirst⟩ := enqueueTask_working_returns (c := c) (v := v) (n := k)
        ht (Client.signTask_ne_panic hrun)
      refine ⟨result, hfirst, ?_⟩
      rw [Client.enqueueTask_preparedCopy_unsigned ht hunsigned]
      exact hfirst
  · intro v k hv hunsigned hsign hnew
    obtain ⟨err, t'', left, v', hfirst, -, hqueued⟩ := enqueueTask_working (n := k) ht hv hsign
    obtain ⟨rfl, hstored, hitem⟩ := hqueued hnew
    rw [Client.enqueueTask_preparedCopy_unsigned ht hunsigned]
    exact ⟨t'', left, v', hfirst, hstored, hitem⟩

/-- Without a key a task whose save failed is enqueued by the second call. -/
theorem enqueueTask_again_unsigned :
    ∃ t', (World.init 0).execute 0 .enqueuer (sampleClient.enqueueTask ⟨sampleTask, none⟩)
        [.failed (.plain "timeout")] = some ((some (.plain "timeout"), t'), [], World.init 0) ∧
      sampleClient.LeavesUnsigned sampleTask ∧
      ∃ t'' left v', (World.init 0).execute 1 .enqueuer (sampleClient.enqueueTask t')
          workingStorage = some ((none, t''), left, v') ∧
        v'.stored "T1" = some ⟨1, { sampleTask with queue := "EMAIL" }⟩ ∧
        v'.hasItem "EMAIL" "T1" = true := by
  have ht : (⟨sampleTask, none⟩ : Copy).Fresh := ⟨rfl, rfl, .inl rfl⟩
  have hunsigned : sampleClient.LeavesUnsigned sampleTask := by
    intro signed hsign
    cases hsign
    rfl
  obtain ⟨-, -, hsecond⟩ := enqueueTask_again sampleClient ⟨sampleTask, none⟩ (World.init 0) 0
    .enqueuer [.failed (.plain "timeout")] [] (.plain "timeout") _ (World.init 0) ht rfl rfl
  exact ⟨_, rfl, hunsigned, hsecond (World.init 0) 1 rfl hunsigned rfl rfl⟩

/-- With a key the task is left signed and the second call refuses it, although nothing was
stored and the first call would have worked. -/
theorem signed_task_refused_again :
    (∃ t' rest w', (World.init 0).execute 0 .enqueuer
        (signingClient.enqueueTask ⟨sampleTask, none⟩) workingStorage =
          some ((none, t'), rest, w')) ∧
    ∃ t' t'' rest, (World.init 0).execute 0 .enqueuer
        (signingClient.enqueueTask ⟨sampleTask, none⟩) [.failed (.plain "timeout")] =
          some ((some (.plain "timeout"), t'), [], World.init 0) ∧
      (World.init 0).stored "T1" = none ∧
      (World.init 0).execute 1 .enqueuer (signingClient.enqueueTask t') workingStorage =
        some ((some Sentinel.taskAlreadySigned.error, t''), rest, World.init 0) :=
  ⟨⟨_, _, _, rfl⟩, _, _, _, rfl, rfl, rfl⟩

end AsyncJobs
