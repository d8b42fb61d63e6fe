import AsyncJobs.Http.Server

/-!
# One task for each key

Repeated requests with one key are meant to create one task. The store is consulted before
the task is enqueued and filled after that, so between the two a second request finds
nothing. What the code does guarantee is relative to three conditions on the order and the
outcome of these calls. Under them at most one request with the key is between its lookup
and its store at any time, and only this one can enqueue a task.
-/

namespace AsyncJobs

open Interaction

section Log

variable (key : String)

/-- The requests that found nothing for the key and have neither stored a task for it nor
been answered since. -/
def pending : List HttpEvent → List Request
  | [] => []
  | .missed r k :: log => if k = key then r :: pending log else pending log
  | .enqueued _ _ :: log => pending log
  | .stored r k _ :: log => if k = key then (pending log).filter (· ≠ r) else pending log
  | .responded r _ :: log => (pending log).filter (· ≠ r)

def made : List HttpEvent → List String
  | [] => []
  | .enqueued r id :: log => if r.key = some key then id :: made log else made log
  | _ :: log => made log

variable {key} {r : Request} {es log : List HttpEvent}

theorem mem_pending_append (hes : ∀ e ∈ es, e.request ≠ r) :
    r ∈ pending key (es ++ log) ↔ r ∈ pending key log := by
  induction es with
  | nil => rfl
  | cons e es ih =>
    have hrest := ih fun e he => hes e (List.mem_cons_of_mem _ he)
    have he := hes e (List.mem_cons_self ..)
    cases e with
    | enqueued r' id => exact hrest
    | missed r' k =>
      have hne : r ≠ r' := Ne.symm he
      simp only [List.cons_append, pending]
      split_ifs
      · simp [hne, hrest]
      · exact hrest
    | stored r' k id =>
      have hne : r ≠ r' := Ne.symm he
      simp only [List.cons_append, pending]
      split_ifs
      · simp [hne, hrest]
      · exact hrest
    | responded r' response =>
      have hne : r ≠ r' := Ne.symm he
      simp [pending, hne, hrest]

theorem pending_of_fresh (h : ∀ e ∈ log, e.request ≠ r) : r ∉ pending key log := by
  have hlog : r ∈ pending key (log ++ []) ↔ r ∈ pending key [] := mem_pending_append h
  rw [List.append_nil] at hlog
  rw [hlog]
  exact List.not_mem_nil

theorem made_append (es log : List HttpEvent) :
    made key (es ++ log) = made key es ++ made key log := by
  induction es with
  | nil => rfl
  | cons e es ih =>
    cases e with
    | enqueued r id =>
      simp only [List.cons_append, made, ih]
      split_ifs <;> rfl
    | missed r k => exact ih
    | stored r k id => exact ih
    | responded r response => exact ih

end Log

namespace HttpWorld

/-- The key is not remembered for longer than its retention window. -/
def retained (key : String) (w : HttpWorld) : Bool :=
  match w.idempotency.entries key with
  | none => true
  | some e => w.clock ≤ e.expires

/-- A lookup finds nothing only when no other request with the key is creating a task, the
remembered task loads, and `EnqueueTask` reports no error once it has enqueued a task. -/
def orderly (key : String) (w : HttpWorld) (r : Request) : HttpCall → HttpOutcome → Bool
  | .lookup k, _ => k ≠ key ∨ (w.idempotency.entries key).isSome ∨ pending key w.log = []
  | .loadTaskByID _, .failed _ => r.key ≠ some key
  | .enqueueTask _, .lost _ => r.key ≠ some key
  | _, _ => true

structure Inv (key : String) (w : HttpWorld) : Prop where
  keyed : ∀ r ∈ pending key w.log, r.key = some key
  single : ∀ a ∈ pending key w.log, ∀ b ∈ pending key w.log, a = b
  once : (made key w.log).length ≤ 1
  remembered : ∀ e, w.idempotency.entries key = some e →
    made key w.log = [e.taskID] ∧ pending key w.log = []
  forgotten : w.idempotency.entries key = none → pending key w.log = [] → made key w.log = []
  answered : ∀ r status location t, .responded r (.task status location t) ∈ w.log →
    r.key = some key → made key w.log = [t.id]

/-- What a request has to have seen before it makes a call. -/
def Permitted (key : String) (w : HttpWorld) (r : Request) : HttpCall → Prop
  | .lookup k => r.key = some k
  | .enqueueTask _ => r.key = some key → r ∈ pending key w.log ∧ made key w.log = []
  | .store k id => k = key → r ∈ pending key w.log ∧ made key w.log = [id]
  | .respond response => r.key = some key →
      (∀ status location t, response = .task status location t → made key w.log = [t.id]) ∧
      (r ∈ pending key w.log → made key w.log = [])
  | _ => True

variable {key : String} {w w' : HttpWorld} {r : Request}

theorem Inv.init (start : Int) : Inv key { clock := start } where
  keyed := by simp [pending]
  single := by simp [pending]
  once := by simp [made]
  remembered := by simp
  forgotten := by simp [made]
  answered := by simp

theorem Inv.of_eq (h : Inv key w) (hlog : w'.log = w.log)
    (hentries : w'.idempotency.entries key = w.idempotency.entries key) : Inv key w' := by
  constructor
  · rw [hlog]; exact h.keyed
  · rw [hlog]; exact h.single
  · rw [hlog]; exact h.once
  · rw [hlog, hentries]; exact h.remembered
  · rw [hlog, hentries]; exact h.forgotten
  · rw [hlog]; exact h.answered

theorem Inv.entry_of_pending (h : Inv key w) (hr : r ∈ pending key w.log) :
    w.idempotency.entries key = none := by
  cases hentry : w.idempotency.entries key with
  | none => rfl
  | some e =>
    rw [(h.remembered e hentry).2] at hr
    cases hr

theorem Inv.pending_eq (h : Inv key w) (hr : r ∈ pending key w.log) :
    (pending key w.log).filter (· ≠ r) = [] := by
  rw [List.filter_eq_nil_iff]
  intro a ha
  simpa using h.single a ha r hr

theorem Inv.made_of_append (h : Inv key w') {es : List HttpEvent} (hlog : w'.log = es ++ w.log)
    {id : String} (hmade : made key w.log = [id]) : made key w'.log = [id] := by
  have honce := h.once
  rw [hlog, made_append, hmade] at honce ⊢
  rw [List.length_append, List.length_singleton] at honce
  have hnil : made key es = [] := List.eq_nil_of_length_eq_zero (by omega)
  rw [hnil, List.nil_append]

section Lookup

theorem execLookup_log (k : String) : (w.execLookup r k).2.log = w.log ∨
    (w.execLookup r k).2.log = .missed r k :: w.log := by
  unfold execLookup
  split
  · exact Or.inr rfl
  · exact Or.inl rfl

theorem execLookup_other {k : String} (hk : k ≠ key) :
    (w.execLookup r k).2.idempotency.entries key = w.idempotency.entries key := by
  unfold execLookup IdempotencyStore.lookup
  cases w.idempotency.entries k with
  | none => rfl
  | some e =>
    by_cases hexpired : e.expires < w.clock
    · simp only [hexpired, if_true]
      exact Function.update_of_ne hk.symm ..
    · simp only [hexpired, if_false]

theorem retained.le (h : w.retained key = true) {e : IdempotencyEntry}
    (hentry : w.idempotency.entries key = some e) : ¬ e.expires < w.clock := by
  unfold retained at h
  rw [hentry] at h
  exact not_lt.mpr (of_decide_eq_true h)

theorem execLookup_retained (h : w.retained key = true) :
    w.execLookup r key = match w.idempotency.entries key with
      | none => (none, w.note (.missed r key))
      | some e => (some e.taskID, w) := by
  unfold execLookup IdempotencyStore.lookup
  cases hentry : w.idempotency.entries key with
  | none => rfl
  | some e => simp only [retained.le h hentry, if_false]

theorem sweep_retained (h : w.retained key = true) :
    (w.idempotency.sweep w.clock).entries key = w.idempotency.entries key := by
  unfold IdempotencyStore.sweep
  cases hentry : w.idempotency.entries key with
  | none => simp [hentry]
  | some e => simp only [hentry, Option.filter_some, retained.le h hentry, not_false_eq_true,
      decide_true, if_true]

theorem store_other (h : w.retained key = true) {k id : String} (hk : k ≠ key) :
    (w.idempotency.store w.clock k id).entries key = w.idempotency.entries key := by
  simp only [IdempotencyStore.store, Function.update_of_ne hk.symm]
  exact sweep_retained h

end Lookup

section Events

theorem Inv.missed (h : Inv key w) {k : String} (hkey : r.key = some k)
    (hk : k = key → w.idempotency.entries key = none ∧ pending key w.log = []) :
    Inv key (w.note (.missed r k)) := by
  by_cases hkk : k = key
  · subst hkk
    obtain ⟨hentry, hpending⟩ := hk rfl
    constructor <;> simp only [note, pending, made, if_true, hpending]
    · simpa using hkey
    · simp
    · exact h.once
    · simp [hentry]
    · simp
    · simpa using h.answered
  · constructor <;> simp only [note, pending, made, hkk, if_false]
    · exact h.keyed
    · exact h.single
    · exact h.once
    · exact h.remembered
    · exact h.forgotten
    · simpa using h.answered

theorem Inv.lookup (h : Inv key w) {k : String} (hkey : r.key = some k)
    (hretained : w.retained key = true)
    (horderly : k ≠ key ∨ (w.idempotency.entries key).isSome ∨ pending key w.log = []) :
    Inv key (w.execLookup r k).2 := by
  by_cases hkk : k = key
  · subst hkk
    rw [execLookup_retained hretained]
    cases hentry : w.idempotency.entries k with
    | some e => exact h
    | none =>
      have hpending : pending k w.log = [] := by simpa [hentry] using horderly
      exact h.missed hkey fun _ => ⟨hentry, hpending⟩
  · have hentries := execLookup_other (w := w) (r := r) hkk
    rcases execLookup_log (w := w) (r := r) k with hlog | hlog
    · exact h.of_eq hlog hentries
    · exact (h.missed hkey fun heq => absurd heq hkk).of_eq hlog hentries

/-- Only a pending request enqueues a task, and only the first one. -/
theorem Inv.enqueued (h : Inv key w) (id : String)
    (hpermit : r.key = some key → r ∈ pending key w.log ∧ made key w.log = []) :
    Inv key (w.note (.enqueued r id)) := by
  by_cases hkey : r.key = some key
  · obtain ⟨hr, hmade⟩ := hpermit hkey
    have hentry := h.entry_of_pending hr
    have hnil : pending key w.log ≠ [] := List.ne_nil_of_mem hr
    have hunanswered : ∀ r status location t,
        HttpEvent.responded r (.task status location t) ∈ w.log → r.key ≠ some key := by
      intro r' status location t hmem hkey'
      have htask := h.answered r' status location t hmem hkey'
      rw [hmade] at htask
      cases htask
    constructor <;> simp only [note, pending, made, hkey, if_true, hmade]
    · exact h.keyed
    · exact h.single
    · simp
    · simp [hentry]
    · simp [hnil]
    · intro r' status location t hmem hkey'
      exact absurd hkey' (hunanswered r' status location t (by simpa using hmem))
  · constructor <;> simp only [note, pending, made, hkey, if_false]
    · exact h.keyed
    · exact h.single
    · exact h.once
    · exact h.remembered
    · exact h.forgotten
    · simpa using h.answered

theorem Inv.stored (h : Inv key w) {k id : String} (hretained : w.retained key = true)
    (hpermit : k = key → r ∈ pending key w.log ∧ made key w.log = [id]) :
    Inv key { w with
      idempotency := w.idempotency.store w.clock k id
      log := .stored r k id :: w.log } := by
  by_cases hkk : k = key
  · subst hkk
    obtain ⟨hr, hmade⟩ := hpermit rfl
    have hentry : (w.idempotency.store w.clock k id).entries k =
        some ⟨id, w.clock + idempotencyTTL⟩ := Function.update_self ..
    constructor <;> simp only [pending, made, if_true, h.pending_eq hr, hentry]
    · simp
    · simp
    · exact h.once
    · simpa using hmade
    · simp
    · simpa using h.answered
  · constructor <;> simp only [pending, made, hkk, if_false, store_other hretained hkk]
    · exact h.keyed
    · exact h.single
    · exact h.once
    · exact h.remembered
    · exact h.forgotten
    · simpa using h.answered

theorem Inv.responded (h : Inv key w) {response : Response}
    (hpermit : r.key = some key →
      (∀ status location t, response = .task status location t → made key w.log = [t.id]) ∧
      (r ∈ pending key w.log → made key w.log = [])) :
    Inv key (w.note (.responded r response)) := by
  constructor
  · intro r' hr'
    exact h.keyed r' (List.mem_filter.mp hr').1
  · intro a ha b hb
    exact h.single a (List.mem_filter.mp ha).1 b (List.mem_filter.mp hb).1
  · exact h.once
  · intro e hentry
    obtain ⟨hmade, hpending⟩ := h.remembered e hentry
    refine ⟨hmade, ?_⟩
    simp only [note, pending, hpending, List.filter_nil]
  · intro hentry hnone
    by_cases hr : r ∈ pending key w.log
    · exact (hpermit (h.keyed r hr)).2 hr
    · -- the request was not pending, so nobody is
      apply h.forgotten hentry
      rw [← hnone]
      simp only [note, pending]
      rw [List.filter_eq_self.mpr]
      intro a ha
      have hne : a ≠ r := fun heq => hr (heq ▸ ha)
      simpa using hne
  · intro r' status location t hmem hkey
    rcases List.mem_cons.mp hmem with heq | hmem
    · cases heq
      exact (hpermit hkey).1 status location t rfl
    · exact h.answered r' status location t hmem hkey

end Events

theorem Inv.effect (h : Inv key w) {c : HttpCall} {o : HttpOutcome} {reply : c.Reply}
    (hretained : w.retained key = true) (horderly : w.orderly key r c o = true)
    (hpermit : Permitted key w r c) (heffect : Effect w r c o reply w') : Inv key w' := by
  cases heffect with
  | lookup k => exact h.lookup hpermit hretained (of_decide_eq_true horderly)
  | loaded t => exact h
  | unloaded id e => exact h
  | newID id => exact h
  | now => exact h
  | enqueued task t hid => exact h.enqueued task.id hpermit
  | lost task e => exact h.enqueued task.id hpermit
  | failed task e => exact h
  | store k id => exact h.stored hretained hpermit
  | respond response => exact h.responded hpermit

theorem Effect.log {c : HttpCall} {o : HttpOutcome} {reply : c.Reply}
    (h : Effect w r c o reply w') : ∃ es, w'.log = es ++ w.log ∧ ∀ e ∈ es, e.request = r := by
  cases h with
  | lookup k =>
    rcases execLookup_log (w := w) (r := r) k with hlog | hlog
    · exact ⟨[], hlog, by simp⟩
    · exact ⟨[.missed r k], hlog, by simp [HttpEvent.request]⟩
  | enqueued task t hid => exact ⟨[.enqueued r task.id], rfl, by simp [HttpEvent.request]⟩
  | lost task e => exact ⟨[.enqueued r task.id], rfl, by simp [HttpEvent.request]⟩
  | store k id => exact ⟨[.stored r k id], rfl, by simp [HttpEvent.request]⟩
  | respond response => exact ⟨[.responded r response], rfl, by simp [HttpEvent.request]⟩
  | _ => exact ⟨[], rfl, by simp⟩

/-- Tasks are made for the key by its pending requests only. -/
theorem Effect.made_eq {c : HttpCall} {o : HttpOutcome} {reply : c.Reply}
    (h : Effect w r c o reply w') (hpermit : Permitted key w r c)
    (hr : r ∉ pending key w.log) : made key w'.log = made key w.log := by
  have henqueued : Permitted key w r c → ∀ task, c = .enqueueTask task → r.key ≠ some key := by
    rintro hpermit task rfl hkey
    exact hr (hpermit hkey).1
  cases h with
  | lookup k =>
    rcases execLookup_log (w := w) (r := r) k with hlog | hlog
    · rw [hlog]
    · rw [hlog]
      rfl
  | enqueued task t hid => simp [note, made, henqueued hpermit task rfl]
  | lost task e => simp [note, made, henqueued hpermit task rfl]
  | _ => rfl

end HttpWorld

open HttpWorld in
/-- What a request relies on: the others leave what it is creating alone. -/
def httpContext (key : String) (r : Request) : Context http HttpWorld where
  rely w w' := ∃ es, w'.log = es ++ w.log ∧ (∀ e ∈ es, e.request ≠ r) ∧
    (r ∈ pending key w.log → made key w'.log = made key w.log)
  inv := Inv key
  permit w := Permitted key w r
  exec w c reply w' := ∃ o, w.retained key = true ∧ w.orderly key r c o = true ∧
    w.exec r c o = some (reply, w')
  later w w' := ∃ es, w'.log = es ++ w.log
  rely_refl w := ⟨[], rfl, by simp, fun _ => rfl⟩
  rely_trans := by
    rintro u v w ⟨es, hlog, hes, hmade⟩ ⟨fs, hlog', hfs, hmade'⟩
    refine ⟨fs ++ es, by rw [hlog', hlog, List.append_assoc], ?_, ?_⟩
    · intro e he
      rcases List.mem_append.mp he with he | he
      · exact hfs e he
      · exact hes e he
    · intro hr
      rw [hmade' (by rwa [hlog, mem_pending_append hes]), hmade hr]
  later_trans := by
    rintro u v w ⟨es, hlog⟩ ⟨fs, hlog'⟩
    exact ⟨fs ++ es, by rw [hlog', hlog, List.append_assoc]⟩
  rely_later := by
    rintro u v ⟨es, hlog, -⟩
    exact ⟨es, hlog⟩
  exec_later := by
    rintro u c reply v ⟨o, -, -, hexec⟩
    obtain ⟨es, hlog, -⟩ := (exec_effect hexec).log
    exact ⟨es, hlog⟩

section Requests

open HttpWorld

variable {key : String} {r : Request} {w v : HttpWorld}

theorem rely_pending (h : (httpContext key r).rely w v) :
    r ∈ pending key v.log ↔ r ∈ pending key w.log := by
  obtain ⟨es, hlog, hes, -⟩ := h
  rw [hlog]
  exact mem_pending_append hes

/-- The request found nothing and has not enqueued a task yet. -/
def Creating (key : String) (r : Request) (w : HttpWorld) : Prop :=
  r ∈ pending key w.log ∧ made key w.log = []

theorem creating_stable : Stable (httpContext key r) (Creating key r) := by
  intro w v hw hv
  refine ⟨(rely_pending hv).mpr hw.1, ?_⟩
  obtain ⟨es, -, -, hmade⟩ := hv
  rw [hmade hw.1, hw.2]

/-- The task with the identifier is the one that was made, and the request is not pending. -/
def Made (key : String) (r : Request) (id : String) (w : HttpWorld) : Prop :=
  r ∉ pending key w.log ∧ made key w.log = [id]

theorem made_rely {id : String} (hw : Made key r id w) (hv : (httpContext key r).rely w v)
    (hi : Inv key v) : Made key r id v := by
  refine ⟨fun hr => hw.1 ((rely_pending hv).mp hr), ?_⟩
  obtain ⟨es, hlog, -⟩ := hv
  exact hi.made_of_append hlog hw.2

theorem respond_holds {response : Response}
    (h : ∀ v, (httpContext key r).rely w v → Inv key v → Permitted key v r (.respond response)) :
    Holds (httpContext key r) (fun _ _ => True) (HttpCall.respond response).send w := by
  intro v hv hi
  exact ⟨h v hv hi, fun _ _ _ _ _ _ => trivial⟩

theorem respond_task_holds {status : Nat} {location : String} {t : Task}
    (hw : Made key r t.id w) :
    Holds (httpContext key r) (fun _ _ => True)
      (HttpCall.respond (.task status location t)).send w := by
  apply respond_holds
  intro v hv hi _
  obtain ⟨hr, hmade⟩ := made_rely hw hv hi
  refine ⟨?_, fun hmem => absurd hmem hr⟩
  intro _ _ _ heq
  cases heq
  exact hmade

theorem respond_error_holds {e : ErrorResponse} (hw : Creating key r w) :
    Holds (httpContext key r) (fun _ _ => True) (HttpCall.respond (.error e)).send w := by
  apply respond_holds
  intro v hv _ _
  refine ⟨?_, fun _ => (creating_stable hw hv).2⟩
  intro _ _ _ heq
  cases heq

variable {α : Type} (jsonMarshal : α → Except Error Bytes)
  (body : Except Error (TaskCreateRequest α))

theorem readCreateTaskBody_yields {C : HttpCall → Prop} (hnewID : C .newID) (hnow : C .now) :
    (readCreateTaskBody jsonMarshal body).Yields C fun _ => True := by
  unfold readCreateTaskBody
  cases body with
  | error err => trivial
  | ok req =>
    by_cases hboth : req.payload.isSome ∧ req.payloadBase64.isSome
    · simp only [hboth, and_self, if_true]
      trivial
    · simp only [hboth, if_false]
      exact ⟨hnewID, fun _ => ⟨hnow, fun _ => trivial⟩⟩

theorem store_holds {t : Task} (hw : r ∈ pending key w.log ∧ made key w.log = [t.id]) :
    Holds (httpContext key r) (fun _ _ => True) (do
      (HttpCall.store key t.id).send
      (HttpCall.respond (.task 201 ("/v1/tasks/" ++ t.id) t)).send) w := by
  apply Holds.call
  intro v hv hi
  have hr := (rely_pending hv).mpr hw.1
  have hmade : made key v.log = [t.id] := by
    obtain ⟨es, -, -, hsame⟩ := hv
    rw [hsame hw.1, hw.2]
  refine ⟨fun _ => ⟨hr, hmade⟩, ?_⟩
  rintro reply u ⟨o, -, -, hexec⟩
  cases exec_effect hexec
  apply respond_task_holds
  refine ⟨?_, hmade⟩
  simp only [pending, if_true, List.mem_filter]
  simp

theorem createFresh_holds (hkey : r.key = some key) (hw : Creating key r w) :
    Holds (httpContext key r) (fun _ _ => True) (createFresh jsonMarshal (some key) body) w := by
  have hbody : Holds (httpContext key r) (fun _ v => Creating key r v)
      (readCreateTaskBody jsonMarshal body) w := by
    have hcalls := readCreateTaskBody_yields (C := fun c => c = .newID ∨ c = .now) jsonMarshal
      body (Or.inl rfl) (Or.inr rfl)
    refine hcalls.holds creating_stable ?_ hw
    rintro v c (rfl | rfl) hv
    · refine ⟨trivial, ?_⟩
      rintro reply u ⟨o, -, -, hexec⟩
      cases exec_effect hexec
      exact hv
    · refine ⟨trivial, ?_⟩
      rintro reply u ⟨o, -, -, hexec⟩
      cases exec_effect hexec
      exact hv
  apply hbody.seq
  intro result v hi _ hv
  cases result with
  | error e => exact respond_error_holds hv
  | ok task =>
    apply Holds.call
    intro u hu _
    have hu' := creating_stable hv hu
    refine ⟨fun _ => hu', ?_⟩
    rintro reply x ⟨o, -, horderly, hexec⟩
    cases exec_effect hexec with
    | lost task e => exact absurd hkey (of_decide_eq_true horderly)
    | failed task e => exact respond_error_holds hu'
    | enqueued task t hid =>
      apply store_holds
      refine ⟨hu'.1, ?_⟩
      simp only [note, made, hkey, if_true, hu'.2, hid]

theorem createTask_holds (hkey : r.key = some key) (hfresh : ∀ e ∈ w.log, e.request ≠ r) :
    Holds (httpContext key r) (fun _ _ => True) (createTask jsonMarshal (some key) body) w := by
  apply Holds.call
  intro v hv hi
  refine ⟨hkey, ?_⟩
  rintro reply u ⟨o, hretained, horderly, hexec⟩
  have hr : r ∉ pending key v.log := fun hr => pending_of_fresh hfresh ((rely_pending hv).mp hr)
  cases exec_effect hexec
  rw [execLookup_retained hretained]
  cases hentry : v.idempotency.entries key with
  | none =>
    apply createFresh_holds jsonMarshal body hkey
    refine ⟨?_, hi.forgotten hentry ?_⟩
    · simp [note, pending]
    · simpa [orderly, hentry] using horderly
  | some e =>
    have hmade : Made key r e.taskID v := ⟨hr, (hi.remembered e hentry).1⟩
    apply Holds.call
    intro x hx hix
    refine ⟨trivial, ?_⟩
    rintro reply y ⟨o, -, horderly, hexec⟩
    have hmade := made_rely hmade hx hix
    generalize hid : e.taskID = id at *
    cases exec_effect hexec with
    | loaded t => exact respond_task_holds hmade
    | unloaded id e => exact absurd hkey (of_decide_eq_true horderly)

def OwnKey (r : Request) : HttpCall → Prop
  | .lookup k | .store k _ => r.key = some k
  | _ => True

theorem createFresh_yields {k : Option String} (hkey : r.key = k) :
    (createFresh jsonMarshal k body).Yields (OwnKey r) fun _ => True := by
  apply (readCreateTaskBody_yields jsonMarshal body trivial trivial).bind
  intro result _
  cases result with
  | error e => exact ⟨trivial, fun _ => trivial⟩
  | ok task =>
    refine ⟨trivial, fun reply => ?_⟩
    cases reply with
    | error err => exact ⟨trivial, fun _ => trivial⟩
    | ok task =>
      cases k with
      | none => exact ⟨trivial, fun _ => trivial⟩
      | some k => exact ⟨hkey, fun _ => ⟨trivial, fun _ => trivial⟩⟩

theorem createTask_yields :
    (createTask jsonMarshal r.key body).Yields (OwnKey r) fun _ => True := by
  cases hkey : r.key with
  | none => exact createFresh_yields jsonMarshal body hkey
  | some k =>
    refine ⟨hkey, fun found => ?_⟩
    cases found with
    | none => exact createFresh_yields jsonMarshal body hkey
    | some id =>
      refine ⟨trivial, fun reply => ?_⟩
      cases reply with
      | error err => exact createFresh_yields jsonMarshal body hkey
      | ok task => exact ⟨trivial, fun _ => trivial⟩

theorem createTask_holds_other (hkey : r.key ≠ some key) :
    Holds (httpContext key r) (fun _ _ => True) (createTask jsonMarshal r.key body) w := by
  refine (createTask_yields jsonMarshal body).holds (P := fun _ => True) (fun _ _ _ _ => trivial)
    ?_ trivial
  intro v c hc _
  refine ⟨?_, fun _ _ _ => trivial⟩
  cases c with
  | lookup k => exact hc
  | enqueueTask task => exact fun h => absurd h hkey
  | store k id =>
    intro hk
    subst hk
    exact absurd hc hkey
  | respond response => exact fun h => absurd h hkey
  | _ => trivial

end Requests

namespace HttpConfig

open HttpWorld

def Inv (key : String) (cfg : HttpConfig) : Prop :=
  Serves (httpContext key) (HttpWorld.Inv key) Request.number HttpWorld.log
    (fun e => e.request.number) cfg.world cfg.threads

/-- The premise, that the key is within its retention window, and the conditions. -/
def repeatable {α : Type} (key : String) (cfg : HttpConfig) : HttpAction α → Bool
  | .run i o => cfg.world.retained key &&
      match cfg.nextCall i with
      | some (r, c) => cfg.world.orderly key r c o
      | none => true
  | _ => true

variable {key : String} {cfg cfg' : HttpConfig} {α : Type} {jsonMarshal : α → Except Error Bytes}

theorem Inv.init (start : Int) : Inv key (init start) :=
  Serves.start (HttpWorld.Inv.init start) rfl

theorem rely_other {w w' : HttpWorld} (h : HttpWorld.Inv key w) {r r' : Request}
    (hne : r'.number ≠ r.number) {c : HttpCall} {o : HttpOutcome} {reply : c.Reply}
    (hpermit : Permitted key w r c) (heffect : Effect w r c o reply w') :
    (httpContext key r').rely w w' := by
  have hne : r ≠ r' := fun heq => hne (congrArg Request.number heq.symm)
  obtain ⟨es, hlog, hes⟩ := heffect.log
  refine ⟨es, hlog, fun e he => by rw [hes e he]; exact hne, ?_⟩
  intro hpending
  apply heffect.made_eq hpermit
  intro hr
  exact hne (h.single r hr r' hpending)

theorem Inv.run (h : Inv key cfg) {i : Nat} {o : HttpOutcome}
    (hmeets : cfg.repeatable (α := α) key (.run i o) = true)
    (hstep : cfg.step jsonMarshal (.run i o) = some cfg') : Inv key cfg' := by
  obtain ⟨⟨w, threads⟩, hthread, rfl⟩ := Option.map_eq_some_iff.mp hstep
  obtain ⟨r, c, k, reply, hget, hexec, rfl⟩ := stepThread_call hthread
  simp only [repeatable, HttpConfig.nextCall, nextCall_eq hget, Bool.and_eq_true] at hmeets
  obtain ⟨hretained, horderly⟩ := hmeets
  have hpermit := h.permitted hget h.world
  have heffect := exec_effect hexec
  obtain ⟨es, hlog, hes⟩ := heffect.log
  apply h.call hget h.world ⟨o, hretained, horderly, hexec⟩
  · exact h.world.effect hretained horderly hpermit heffect
  · exact ⟨es, hlog, fun e he => congrArg Request.number (hes e he)⟩
  · intro r' hne
    exact rely_other h.world hne hpermit heffect

theorem Inv.request (h : Inv key cfg) (k : Option String)
    (body : Except Error (TaskCreateRequest α)) :
    Inv key { cfg with
      threads := cfg.threads ++ [⟨⟨cfg.threads.length, k⟩, createTask jsonMarshal k body⟩] } := by
  apply h.arrive rfl
  intro hfresh
  have hother : ∀ e ∈ cfg.world.log, e.request ≠ ⟨cfg.threads.length, k⟩ :=
    fun e he heq => hfresh e he (congrArg Request.number heq)
  by_cases hk : k = some key
  · subst hk
    exact createTask_holds jsonMarshal body rfl hother
  · exact createTask_holds_other (r := ⟨cfg.threads.length, k⟩) jsonMarshal body hk

theorem Inv.step (h : Inv key cfg) {a : HttpAction α} (hmeets : cfg.repeatable key a = true)
    (hstep : cfg.step jsonMarshal a = some cfg') : Inv key cfg' := by
  cases a with
  | run i o => exact h.run hmeets hstep
  | request k body =>
    cases hstep
    exact h.request k body
  | tick d =>
    cases hstep
    apply h.environment
    · exact HttpWorld.Inv.of_eq h.world rfl rfl
    · rfl
    · exact fun r => ⟨[], rfl, by simp, fun _ => rfl⟩

theorem Inv.reached (key : String) (start : Int) (actions : List (HttpAction α))
    (hrun : runWhile jsonMarshal (repeatable key) (HttpConfig.init start) actions = some cfg) :
    Inv key cfg :=
  runWhile_induction (P := Inv key) (fun h hmeets hstep => h.step hmeets hstep) actions
    (Inv.init start) hrun

end HttpConfig

/-- Within the retention window of a key, in every run that meets the conditions, requests
with the key have enqueued at most one task and every task they were answered with is
this one. -/
theorem one_task_for_each_key {α : Type} (jsonMarshal : α → Except Error Bytes) (key : String)
    (start : Int) (actions : List (HttpAction α)) (cfg : HttpConfig)
    (hrun : HttpConfig.runWhile jsonMarshal (HttpConfig.repeatable key) (.init start) actions =
      some cfg) :
    (made key cfg.world.log).length ≤ 1 ∧
    ∀ r status location t, .responded r (.task status location t) ∈ cfg.world.log →
      r.key = some key → made key cfg.world.log = [t.id] := by
  have hinv := HttpConfig.Inv.reached key start actions hrun
  exact ⟨hinv.world.once, hinv.world.answered⟩

def emailRequest : TaskCreateRequest String := { type := "email" }

def emailTask (id : String) : Task :=
  { id, type := "email", queue := "EMAIL", maxTries := 10, state := .new, createdAt := 0 }

/-- Request `i` after a lookup that found nothing. -/
def creating (i : Nat) (id : String) : List (HttpAction String) :=
  [.run i (.named id), .run i .ok, .run i (.enqueued (emailTask id)), .run i .ok, .run i .ok]

def repeatedRequest : List (HttpAction String) :=
  [.request (some "k-1") (.ok emailRequest), .run 0 .ok] ++ creating 0 "T1" ++
    [.tick 1000, .request (some "k-1") (.ok emailRequest), .run 1 .ok,
      .run 1 (.loaded (emailTask "T1")), .run 1 .ok]

def noPayload : String → Except Error Bytes := fun _ => .ok []

theorem one_task_for_repeated_request : ∃ cfg,
    HttpConfig.runWhile noPayload (HttpConfig.repeatable "k-1") (.init 0) repeatedRequest =
      some cfg ∧
    (made "k-1" cfg.world.log).length ≤ 1 ∧
    .responded ⟨0, some "k-1"⟩ (.task 201 "/v1/tasks/T1" (emailTask "T1")) ∈ cfg.world.log ∧
    .responded ⟨1, some "k-1"⟩ (.task 200 "/v1/tasks/T1" (emailTask "T1")) ∈ cfg.world.log := by
  have hrun : (HttpConfig.runWhile noPayload (HttpConfig.repeatable "k-1") (.init 0)
      repeatedRequest).any (fun cfg =>
        cfg.world.log.contains
          (.responded ⟨0, some "k-1"⟩ (.task 201 "/v1/tasks/T1" (emailTask "T1"))) &&
        cfg.world.log.contains
          (.responded ⟨1, some "k-1"⟩ (.task 200 "/v1/tasks/T1" (emailTask "T1")))) = true := by
    decide +kernel
  obtain ⟨cfg, hcfg, hlog⟩ := (Option.any_eq_true _ _).mp hrun
  rw [Bool.and_eq_true, List.contains_iff_mem, List.contains_iff_mem] at hlog
  exact ⟨cfg, hcfg, (one_task_for_each_key noPayload "k-1" 0 _ cfg hcfg).1, hlog.1, hlog.2⟩

/-- The same request twice, the second before the first has stored its task. -/
def overlappingRequests : List (HttpAction String) :=
  [.request (some "k-1") (.ok emailRequest), .request (some "k-1") (.ok emailRequest),
    .run 0 .ok, .run 1 .ok] ++ creating 0 "T1" ++ creating 1 "T2"

theorem two_tasks_for_one_key : ∃ cfg,
    HttpConfig.runWhile noPayload (fun cfg _ => cfg.world.retained "k-1") (.init 0)
      overlappingRequests = some cfg ∧
    made "k-1" cfg.world.log = ["T2", "T1"] ∧
    .responded ⟨0, some "k-1"⟩ (.task 201 "/v1/tasks/T1" (emailTask "T1")) ∈ cfg.world.log ∧
    .responded ⟨1, some "k-1"⟩ (.task 201 "/v1/tasks/T2" (emailTask "T2")) ∈ cfg.world.log := by
  have hrun : (HttpConfig.runWhile noPayload (fun cfg _ => cfg.world.retained "k-1") (.init 0)
      overlappingRequests).any (fun cfg =>
        made "k-1" cfg.world.log = ["T2", "T1"] &&
        cfg.world.log.contains
          (.responded ⟨0, some "k-1"⟩ (.task 201 "/v1/tasks/T1" (emailTask "T1"))) &&
        cfg.world.log.contains
          (.responded ⟨1, some "k-1"⟩ (.task 201 "/v1/tasks/T2" (emailTask "T2")))) = true := by
    decide +kernel
  obtain ⟨cfg, hcfg, hlog⟩ := (Option.any_eq_true _ _).mp hrun
  rw [Bool.and_eq_true, Bool.and_eq_true, decide_eq_true_eq, List.contains_iff_mem,
    List.contains_iff_mem] at hlog
  exact ⟨cfg, hcfg, hlog.1.1, hlog.1.2, hlog.2⟩

end AsyncJobs
