import AsyncJobs.System.Lifecycle

/-!
# The world agrees with its log

`Effect` says what a request can do to the world, `Permitted` what a thread must
know before it sends one. As long as requests are permitted the log stays valid
and the task stream holds exactly what the log says: the server compares
sequences, the log compares whole revisions, and sequences are never reused.
-/

namespace AsyncJobs

open Interaction

/-- What a request of the thread with copy `n` can do. -/
inductive Effect (n : Nat) (writer : Writer) (w : World) : Call → World → Prop
  | unchanged (c : Call) : Effect n writer w c w
  | read {use : ReadUse} {id : String} {m : StoredTask} (found : w.readLast id = some m) :
      Effect n writer w (.readLast use id) (w.note (.read n writer use m w.clock))
  | save {t : Copy} (accepted : w.accepts t = true) (acked : Bool) :
      Effect n writer w (.publishTask t) (w.store n writer t acked)
  | delete {seq : Nat} {m : StoredTask} (found : (w.tasks.find? fun m => m.seq = seq) = some m) :
      Effect n writer w (.deleteMessage seq) (w.removeTask m (.deleted n m))
  | queue (queue id : String) (msgID : Option String) :
      Effect n writer w (.publishItem queue id msgID) (w.putItem n queue id msgID)
  | queueUnanswered (queue id : String) (msgID : Option String) :
      Effect n writer w (.publishItem queue id msgID)
        ((w.putItem n queue id msgID).note (.unqueued n))
  | unqueued (queue id : String) (msgID : Option String) :
      Effect n writer w (.publishItem queue id msgID) (w.note (.unqueued n))
  | ack (msg : MsgRef) : Effect n writer w (.ackItem msg) (w.removeItem n msg)
  | term (msg : MsgRef) : Effect n writer w (.termItem msg) (w.removeItem n msg)
  | nak (msg : MsgRef) (delay : Int) :
      Effect n writer w (.nakItem msg delay) (w.delayItem msg delay)
  | start (t : Copy) (item : ProcessItem) :
      Effect n writer w (.goHandle t item) (w.beginHandler n t item)
  | release : Effect n writer w .release (w.releaseDelivery n)
  | done (t : Option Copy) (err : Option Error) :
      Effect n writer w (.done t err) (w.finish n t err)

namespace World

variable {w w' : World} {n : Nat} {writer : Writer}

theorem perform_effect {c : Call} {done : World} {o : Outcome} {r : Option Error}
    (hdone : Effect n writer w c done) (h : w.perform done o = some (r, w')) :
    Effect n writer w c w' := by
  cases o with
  | ok => cases h; exact hdone
  | lost e => cases h; exact hdone
  | failed e => cases h; exact .unchanged c
  | handled r => cases h

theorem execRead_effect {use : ReadUse} {id : String} {o : Outcome}
    {r : Except ReadError StoredTask} (h : w.execRead n writer use id o = some (r, w')) :
    Effect n writer w (.readLast use id) w' := by
  cases o with
  | ok =>
    simp only [execRead] at h
    split at h
    · cases h; exact .unchanged _
    · rename_i m hm
      cases h; exact .read hm
  | failed e => cases h; exact .unchanged _
  | lost e => cases h
  | handled r => cases h

theorem execSave_effect {t : Copy} {o : Outcome} {r : Except Error Nat}
    (h : w.execSave n writer t o = some (r, w')) : Effect n writer w (.publishTask t) w' := by
  cases o with
  | ok =>
    simp only [execSave] at h
    split_ifs at h with hacc
    · cases h; exact .save hacc true
    · cases h; exact .unchanged _
  | lost e =>
    simp only [execSave] at h
    split_ifs at h with hacc
    · cases h; exact .save hacc false
    · cases h; exact .unchanged _
  | failed e => cases h; exact .unchanged _
  | handled r => cases h

theorem execDelete_effect {seq : Nat} {o : Outcome} {r : Option Error}
    (h : w.execDelete n seq o = some (r, w')) : Effect n writer w (.deleteMessage seq) w' := by
  simp only [execDelete] at h
  split at h
  · exact perform_effect (.unchanged _) h
  · rename_i m hm
    exact perform_effect (.delete hm) h

theorem execPublishItem_effect {queue id : String} {msgID : Option String} {o : Outcome}
    {r : Except Error Bool} (h : w.execPublishItem n queue id msgID o = some (r, w')) :
    Effect n writer w (.publishItem queue id msgID) w' := by
  cases o with
  | ok =>
    simp only [execPublishItem] at h
    split_ifs at h
    · cases h; exact .unqueued ..
    · cases h; exact .queue ..
  | lost e =>
    simp only [execPublishItem] at h
    split_ifs at h
    · cases h; exact .unqueued ..
    · cases h; exact .queueUnanswered ..
  | failed e => cases h; exact .unqueued ..
  | handled r => cases h

theorem exec_effect {c : Call} {o : Outcome} {r : c.Reply}
    (h : w.exec n writer c o = some (r, w')) : Effect n writer w c w' := by
  cases c with
  | readLast use id => exact execRead_effect h
  | publishTask t => exact execSave_effect h
  | publishEvent t => exact perform_effect (.unchanged _) h
  | deleteMessage seq => exact execDelete_effect h
  | publishItem queue id msgID => exact execPublishItem_effect h
  | ackItem msg => exact perform_effect (.ack msg) h
  | termItem msg => exact perform_effect (.term msg) h
  | nakItem msg delay => exact perform_effect (.nak msg delay) h
  | now => cases o <;> cases h; exact .unchanged _
  | goHandle t item => cases o <;> cases h; exact .start t item
  | runHandler t => cases o <;> cases h; exact .unchanged _
  | release => cases o <;> cases h; exact .release
  | done t err => cases o <;> cases h; exact .done t err
  | panic message => exact r.elim

end World

/-- What the thread with copy `n` must know before it sends a request. -/
def Permitted (n : Nat) (writer : Writer) (log : List Event) : Call → Prop
  | .publishTask t => t.Tracks (known n log) ∧ Change writer n log (known n log) t.toTask
  | .deleteMessage seq => ∃ m, lookedUp n log = some m ∧ m.seq = seq
  | .goHandle t item => Justified log (.started n 0 t item)
  | .publishItem _ id _ => ∃ m, known n log = some m ∧ m.task.id = id
  | .done (some t) _ => t.Tracks (known n log)
  | _ => True

namespace World

structure Inv (w : World) : Prop where
  valid : Valid w.log
  stored : ∀ id, w.stored id = current id w.log
  distinct : w.tasks.Pairwise fun a b => a.task.id ≠ b.task.id
  bounded : ∀ m, Written w.log m → 0 < m.seq ∧ m.seq ≤ w.lastSeq
  named : ∀ m, Written w.log m → World.isWildcard m.task.id = false
  subjects : ∀ e ∈ w.log, ∀ n, e.subject = some n → n < w.nextCopy

theorem Inv.init (start : Int) : (World.init start).Inv where
  valid := trivial
  stored _ := rfl
  distinct := .nil
  bounded := by
    rintro m ⟨_, _, _, _, h⟩
    cases h
  named := by
    rintro m ⟨_, _, _, _, h⟩
    cases h
  subjects := by
    intro e h
    cases h

variable {w w' : World} {n : Nat} {writer : Writer}

theorem stored_eq_some_iff (hd : w.tasks.Pairwise fun a b => a.task.id ≠ b.task.id)
    {id : String} {m : StoredTask} : w.stored id = some m ↔ m ∈ w.tasks ∧ m.task.id = id := by
  unfold stored
  generalize w.tasks = tasks at hd
  induction tasks with
  | nil => simp
  | cons a tasks ih =>
    obtain ⟨ha, hrest⟩ := List.pairwise_cons.mp hd
    by_cases hid : a.task.id = id
    · rw [List.find?_cons_of_pos (by simpa using hid)]
      constructor
      · rintro ⟨⟩
        exact ⟨List.mem_cons_self .., hid⟩
      · rintro ⟨hm, hmid⟩
        rcases List.mem_cons.mp hm with rfl | hm
        · rfl
        · exact absurd (hid.trans hmid.symm) (ha m hm)
    · rw [List.find?_cons_of_neg (by simpa using hid), ih hrest, List.mem_cons]
      constructor
      · rintro ⟨hm, hmid⟩
        exact ⟨Or.inr hm, hmid⟩
      · rintro ⟨rfl | hm, hmid⟩
        · exact absurd hmid hid
        · exact ⟨hm, hmid⟩

theorem Inv.mem_written (h : w.Inv) {m : StoredTask} (hm : m ∈ w.tasks) :
    current m.task.id w.log = some m ∧ Written w.log m := by
  have hcurrent : current m.task.id w.log = some m :=
    (h.stored m.task.id).symm.trans ((stored_eq_some_iff h.distinct).mpr ⟨hm, rfl⟩)
  exact ⟨hcurrent, (current_written hcurrent).1⟩

theorem readLast_mem {id : String} {m : StoredTask} (h : w.readLast id = some m) :
    m ∈ w.tasks := by
  unfold readLast at h
  split_ifs at h with hid
  · exact List.mem_of_mem_head? h
  · exact List.mem_of_find?_eq_some h

theorem readLast_names {id : String} {m : StoredTask} (h : w.readLast id = some m) :
    isWildcard id = true ∨ m.task.id = id := by
  unfold readLast at h
  split_ifs at h with hid
  · exact Or.inl hid
  · exact Or.inr (by simpa using List.find?_some h)

/-- The comparison of sequences the server makes is a comparison of revisions. -/
theorem Inv.accepts_iff (h : w.Inv) {t : Copy} (ht : t.Tracks (known n w.log)) :
    w.accepts t = true ↔ w.stored t.id = known n w.log := by
  have hrev := ht.revision
  have hid := ht.sameID
  unfold accepts lastSubjectSeq
  cases hk : known n w.log with
  | none =>
    cases hs : w.stored t.id with
    | none => simp_all
    | some m =>
      have hpos := (h.bounded m (current_written ((h.stored _).symm.trans hs)).1).1
      simp_all
      omega
  | some m =>
    have hm := known_written h.valid hk
    have hpos := (h.bounded m hm).1
    rw [hk] at hrev hid
    cases hs : w.stored t.id with
    | none =>
      simp [hrev]
      omega
    | some m' =>
      have hm' := (current_written ((h.stored _).symm.trans hs)).1
      simp only [hrev, Option.map_some, Option.getD_some, decide_eq_true_eq, Option.some.injEq]
      constructor
      · exact h.valid.written_inj hm' hm
      · rintro rfl
        rfl

end World

def Event.quiet : Event → Bool
  | .saved _ _ _ _ _ | .deleted _ _ | .dropped _ => false
  | _ => true

theorem current_quiet {e : Event} (he : e.quiet = true) (id : String) (log : List Event) :
    current id (e :: log) = current id log := by
  cases e with
  | saved _ _ _ _ _ => cases he
  | deleted _ _ => cases he
  | dropped _ => cases he
  | _ => rfl

theorem written_quiet {e : Event} (he : e.quiet = true) {log : List Event} {m : StoredTask} :
    Written (e :: log) m ↔ Written log m := by
  rw [written_cons]
  constructor
  · rintro (⟨n, writer, old, acked, rfl⟩ | h)
    · cases he
    · exact h
  · exact Or.inr

namespace World

variable {w w' : World} {n : Nat} {writer : Writer}

theorem Inv.extend (h : w.Inv) {e : Event} (hlog : w'.log = e :: w.log)
    (htasks : w'.tasks = w.tasks) (hseq : w'.lastSeq = w.lastSeq)
    (hnext : w.nextCopy ≤ w'.nextCopy) (hquiet : e.quiet = true) (hj : Justified w.log e)
    (hsubject : ∀ k, e.subject = some k → k < w'.nextCopy) : w'.Inv where
  valid := by
    rw [hlog]
    exact ⟨hj, h.valid⟩
  stored id := by
    rw [hlog, current_quiet hquiet, ← h.stored, World.stored, World.stored, htasks]
  distinct := htasks ▸ h.distinct
  bounded m hm := by
    rw [hlog, written_quiet hquiet] at hm
    exact hseq ▸ h.bounded m hm
  named m hm := by
    rw [hlog, written_quiet hquiet] at hm
    exact h.named m hm
  subjects e' he' k hk := by
    rw [hlog] at he'
    rcases List.mem_cons.mp he' with rfl | he'
    · exact hsubject k hk
    · exact Nat.lt_of_lt_of_le (h.subjects e' he' k hk) hnext

theorem Inv.same (h : w.Inv) (hlog : w'.log = w.log) (htasks : w'.tasks = w.tasks)
    (hseq : w'.lastSeq = w.lastSeq) (hnext : w.nextCopy ≤ w'.nextCopy) : w'.Inv where
  valid := hlog ▸ h.valid
  stored id := by rw [hlog, ← h.stored, World.stored, World.stored, htasks]
  distinct := htasks ▸ h.distinct
  bounded := by
    rw [hlog, hseq]
    exact h.bounded
  named := by
    rw [hlog]
    exact h.named
  subjects e he k hk := Nat.lt_of_lt_of_le (h.subjects e (hlog ▸ he) k hk) hnext

theorem stored_id {id : String} {m : StoredTask} (h : w.stored id = some m) : m.task.id = id := by
  simpa using List.find?_some h

theorem stored_store (t : Copy) (acked : Bool) (id : String) :
    (w.store n writer t acked).stored id =
      if t.id = id then some ⟨w.lastSeq + 1, t.toTask⟩ else w.stored id := by
  unfold store stored
  by_cases hid : t.id = id
  · rw [if_pos hid, List.find?_cons_of_pos (by simpa using hid)]
  · rw [if_neg hid, List.find?_cons_of_neg (by simpa using hid), List.find?_filter]
    congr 1
    funext m
    by_cases hm : m.task.id = id
    · simp [hm, Ne.symm hid]
    · simp [hm]

theorem Inv.store (h : w.Inv) (hn : n < w.nextCopy) {t : Copy} (ht : t.Tracks (known n w.log))
    (hchange : Change writer n w.log (known n w.log) t.toTask) (hacc : w.accepts t = true)
    (acked : Bool) : (w.store n writer t acked).Inv := by
  have hstored := (h.accepts_iff ht).mp hacc
  refine ⟨⟨⟨h.stored t.id, hstored, hstored ▸ hchange, ?_⟩, h.valid⟩, ?_, ?_, ?_, ?_, ?_⟩
  · intro m hm
    have hle := (h.bounded m hm).2
    show m.seq < w.lastSeq + 1
    omega
  · intro id
    rw [stored_store]
    show _ = if t.id = id then _ else _
    rw [h.stored id]
  · refine List.pairwise_cons.mpr ⟨?_, h.distinct.filter _⟩
    intro m hm
    exact Ne.symm (of_decide_eq_true (List.mem_filter.mp hm).2)
  · intro m hm
    rcases written_cons.mp hm with ⟨_, _, _, _, heq⟩ | hm
    · cases heq
      exact ⟨Nat.succ_pos _, Nat.le_refl _⟩
    · have hb := h.bounded m hm
      exact ⟨hb.1, Nat.le_succ_of_le hb.2⟩
  · intro m hm
    rcases written_cons.mp hm with ⟨_, _, _, _, heq⟩ | hm
    · cases heq
      exact ht.named
    · exact h.named m hm
  · intro e he k hk
    rcases List.mem_cons.mp he with rfl | he
    · cases hk
      exact hn
    · exact h.subjects e he k hk

theorem Inv.stored_removeTask (h : w.Inv) {m : StoredTask} (hm : m ∈ w.tasks) (e : Event)
    (id : String) :
    (w.removeTask m e).stored id = if m.task.id = id then none else w.stored id := by
  have hsub : (w.removeTask m e).tasks.Pairwise fun a b => a.task.id ≠ b.task.id :=
    h.distinct.filter _
  apply Option.ext
  intro r
  rw [stored_eq_some_iff hsub]
  show r ∈ w.tasks.filter _ ∧ _ ↔ _
  rw [List.mem_filter, decide_eq_true_iff]
  split_ifs with hid
  · constructor
    · rintro ⟨⟨hr, hne⟩, hrid⟩
      have hrm : w.stored id = some r := (stored_eq_some_iff h.distinct).mpr ⟨hr, hrid⟩
      have hmm : w.stored id = some m := (stored_eq_some_iff h.distinct).mpr ⟨hm, hid⟩
      rw [hrm] at hmm
      cases hmm
      exact absurd rfl hne
    · rintro ⟨⟩
  · rw [stored_eq_some_iff h.distinct]
    constructor
    · rintro ⟨⟨hr, -⟩, hrid⟩
      exact ⟨hr, hrid⟩
    · rintro ⟨hr, hrid⟩
      refine ⟨⟨hr, fun hseq => ?_⟩, hrid⟩
      have heq := h.valid.written_inj (h.mem_written hr).2 (h.mem_written hm).2 hseq
      exact hid (heq ▸ hrid)

theorem Inv.removeTask (h : w.Inv) {m : StoredTask} (hm : m ∈ w.tasks) {e : Event}
    (he : ∀ id, current id (e :: w.log) = if m.task.id = id then none else current id w.log)
    (hj : Justified w.log e) (hwritten : ∀ r, Written (e :: w.log) r → Written w.log r)
    (hsubject : ∀ k, e.subject = some k → k < w.nextCopy) : (w.removeTask m e).Inv := by
  refine ⟨⟨hj, h.valid⟩, ?_, h.distinct.filter _, ?_, ?_, ?_⟩
  · intro id
    rw [h.stored_removeTask hm, h.stored id]
    exact (he id).symm
  · intro r hr
    exact h.bounded r (hwritten r hr)
  · intro r hr
    exact h.named r (hwritten r hr)
  · intro e' he' k hk
    rcases List.mem_cons.mp he' with rfl | he'
    · exact hsubject k hk
    · exact h.subjects e' he' k hk

theorem Inv.dropTask (h : w.Inv) {m : StoredTask} (hm : m ∈ w.tasks) :
    (w.removeTask m (.dropped m)).Inv := by
  refine h.removeTask hm (fun _ => rfl) (h.mem_written hm).1 ?_ (by rintro k ⟨⟩)
  intro r hr
  rcases written_cons.mp hr with ⟨_, _, _, _, heq⟩ | hr
  · cases heq
  · exact hr

theorem Inv.deleteTask (h : w.Inv) (hn : n < w.nextCopy) {m : StoredTask} (hm : m ∈ w.tasks)
    (hlooked : lookedUp n w.log = some m) : (w.removeTask m (.deleted n m)).Inv := by
  refine h.removeTask hm (fun _ => rfl) ⟨(h.mem_written hm).1, hlooked⟩ ?_ ?_
  · intro r hr
    rcases written_cons.mp hr with ⟨_, _, _, _, heq⟩ | hr
    · cases heq
    · exact hr
  · rintro k ⟨⟩
    exact hn

theorem Inv.own (h : w.Inv) (hn : n < w.nextCopy) {e : Event} (hlog : w'.log = e :: w.log)
    (htasks : w'.tasks = w.tasks) (hseq : w'.lastSeq = w.lastSeq)
    (hnext : w'.nextCopy = w.nextCopy) (hquiet : e.quiet = true) (hsubject : e.subject = some n)
    (hj : Justified w.log e) : w'.Inv := by
  refine h.extend hlog htasks hseq (Nat.le_of_eq hnext.symm) hquiet hj ?_
  intro k hk
  rw [hsubject] at hk
  cases hk
  rw [hnext]
  exact hn

theorem Inv.finish (h : w.Inv) (hn : n < w.nextCopy) {t : Option Copy} {err : Option Error}
    (ht : ∀ c, t = some c → c.Tracks (known n w.log)) : (w.finish n t err).Inv := by
  have hreturned : (w.note (.returned n err)).Inv :=
    h.own hn rfl rfl rfl rfl rfl rfl trivial
  cases t with
  | none => exact hreturned
  | some t =>
    refine hreturned.extend rfl rfl rfl (Nat.le_succ _) rfl (ht t rfl) ?_
    rintro k ⟨⟩
    exact Nat.lt_succ_self _

theorem Inv.effect (h : w.Inv) (hn : n < w.nextCopy) {c : Call}
    (hp : Permitted n writer w.log c) (he : Effect n writer w c w') : w'.Inv := by
  cases he with
  | unchanged => exact h
  | read found =>
    exact h.own hn rfl rfl rfl rfl rfl rfl (h.mem_written (readLast_mem found)).1
  | save accepted acked => exact h.store hn hp.1 hp.2 accepted acked
  | delete found =>
    have hm := List.mem_of_find?_eq_some found
    have hseq := by simpa using List.find?_some found
    obtain ⟨m, hlooked, hmseq⟩ := hp
    have heq := h.valid.written_inj (lookedUp_written h.valid hlooked) (h.mem_written hm).2
      (hmseq.trans hseq.symm)
    exact h.deleteTask hn hm (heq ▸ hlooked)
  | queue q id msgID => exact h.own hn rfl rfl rfl rfl rfl rfl hp
  | queueUnanswered q id msgID =>
    have hput : (w.putItem n q id msgID).Inv :=
      h.own hn rfl rfl rfl rfl rfl rfl hp
    exact hput.own hn rfl rfl rfl rfl rfl rfl trivial
  | unqueued q id msgID => exact h.own hn rfl rfl rfl rfl rfl rfl trivial
  | ack msg => exact h.own hn rfl rfl rfl rfl rfl rfl trivial
  | term msg => exact h.own hn rfl rfl rfl rfl rfl rfl trivial
  | nak msg delay => exact h.same rfl rfl rfl (Nat.le_refl _)
  | start t item =>
    refine h.extend rfl rfl rfl (Nat.le_succ _) rfl hp ?_
    rintro k ⟨⟩
    exact Nat.lt_succ_self _
  | release => exact h.same rfl rfl rfl (Nat.le_refl _)
  | done t err =>
    refine h.finish hn fun c hc => ?_
    subst hc
    exact hp

/-- `w'` continues the log of `w`. -/
structure Extends (w w' : World) (es : List Event) : Prop where
  log : w'.log = es ++ w.log
  clock : w.clock ≤ w'.clock

/-- The log grows by events about the thread's own copy or about the next free one. -/
theorem effect_extends {c : Call} (he : Effect n writer w c w') :
    ∃ es, Extends w w' es ∧ w.nextCopy ≤ w'.nextCopy ∧
      ∀ e ∈ es, e.subject = none ∨ e.subject = some n ∨ e.subject = some w.nextCopy := by
  cases he with
  | unchanged => exact ⟨[], ⟨rfl, Int.le_refl _⟩, Nat.le_refl _, by simp⟩
  | read found => exact ⟨[_], ⟨rfl, Int.le_refl _⟩, Nat.le_refl _, by simp [Event.subject]⟩
  | save accepted acked =>
    exact ⟨[_], ⟨rfl, Int.le_refl _⟩, Nat.le_refl _, by simp [Event.subject]⟩
  | delete found => exact ⟨[_], ⟨rfl, Int.le_refl _⟩, Nat.le_refl _, by simp [Event.subject]⟩
  | queue => exact ⟨[_], ⟨rfl, Int.le_refl _⟩, Nat.le_refl _, by simp [Event.subject]⟩
  | queueUnanswered =>
    exact ⟨[_, _], ⟨rfl, Int.le_refl _⟩, Nat.le_refl _, by simp [Event.subject]⟩
  | unqueued => exact ⟨[_], ⟨rfl, Int.le_refl _⟩, Nat.le_refl _, by simp [Event.subject]⟩
  | ack => exact ⟨[_], ⟨rfl, Int.le_refl _⟩, Nat.le_refl _, by simp [Event.subject]⟩
  | term => exact ⟨[_], ⟨rfl, Int.le_refl _⟩, Nat.le_refl _, by simp [Event.subject]⟩
  | nak => exact ⟨[], ⟨rfl, Int.le_refl _⟩, Nat.le_refl _, by simp⟩
  | start t item => exact ⟨[_], ⟨rfl, Int.le_refl _⟩, Nat.le_succ _, by simp [Event.subject]⟩
  | release => exact ⟨[], ⟨rfl, Int.le_refl _⟩, Nat.le_refl _, by simp⟩
  | done t err =>
    cases t with
    | none => exact ⟨[_], ⟨rfl, Int.le_refl _⟩, Nat.le_refl _, by simp [Event.subject]⟩
    | some t => exact ⟨[_, _], ⟨rfl, Int.le_refl _⟩, Nat.le_succ _, by simp [Event.subject]⟩

end World

end AsyncJobs
