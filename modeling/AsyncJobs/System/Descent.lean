import AsyncJobs.System.Invariant

/-!
# What a save keeps

Every save continues the record it is made over: no operation but `EnqueueTask` changes what
the task was defined to be, its signature or, downwards, its tries. A property of the record
that every such save keeps therefore holds for all revisions after one that has it. A record
is sound when it has a result exactly if it is complete and, while active or complete, no
error and the time of the last try.
-/

namespace AsyncJobs

/-- What a task was defined to be when it was made. -/
structure TaskDefinition where
  id : String
  type : String
  payload : Option Bytes
  deadline : Option Int
  maxTries : Int
  createdAt : Int
  dependencies : List String
  loadDependencies : Bool
  deriving DecidableEq

namespace Task

def definition (t : Task) : TaskDefinition where
  id := t.id
  type := t.type
  payload := t.payload
  deadline := t.deadline
  maxTries := t.maxTries
  createdAt := t.createdAt
  dependencies := t.dependencies
  loadDependencies := t.loadDependencies

/-- The result, the last error and the time of the last try fit the state. -/
structure Sound (t : Task) : Prop where
  result : t.result.isSome = true ↔ t.state = .completed
  tried : t.state = .active ∨ t.state = .completed → t.lastErr = "" ∧ t.lastTriedAt.isSome = true

/-- `t` may replace the revision `m`: the definition and the signature are kept, and at most
one try was added. -/
structure Continues (m t : Task) : Prop where
  definition : t.definition = m.definition
  signature : t.signature = m.signature
  tries : m.tries ≤ t.tries ∧ t.tries ≤ m.tries + 1

theorem Sound.of_idle {t : Task} (hresult : t.result = none) (hactive : t.state ≠ .active)
    (hcompleted : t.state ≠ .completed) : t.Sound where
  result := by simp [hresult, hcompleted]
  tried := by simp [hactive, hcompleted]

theorem Sound.result_none {t : Task} (h : t.Sound) (hstate : t.state ≠ .completed) :
    t.result = none := by
  have hnot : ¬ t.result.isSome = true := fun hsome => hstate (h.result.mp hsome)
  simpa using hnot

end Task

section Changes

variable {writer : Writer} {n : Nat} {log : List Event} {base : Option StoredTask} {t : Task}

theorem Client.errorState_idle (c : Client) (t : Task) (err : Error) :
    c.errorState t err ≠ .active ∧ c.errorState t err ≠ .completed := by
  unfold Client.errorState
  split_ifs <;> simp

theorem WorkerChange.continues {p : Processor} {m : StoredTask} (h : WorkerChange p n log m t) :
    m.task.Continues t := by
  cases h with
  | expire => exact ⟨rfl, rfl, by simp⟩
  | unreachable => exact ⟨rfl, rfl, by simp⟩
  | activate => exact ⟨rfl, rfl, by simp⟩

theorem HandlerChange.continues {c : Client} {m : StoredTask} (h : HandlerChange c m t) :
    m.task.Continues t := by
  cases h with
  | succeed => exact ⟨rfl, rfl, by simp⟩
  | terminate => exact ⟨rfl, rfl, by simp⟩
  | fail => exact ⟨rfl, rfl, by simp⟩

theorem QueueErrorChange.continues (h : QueueErrorChange n log base t) :
    ∃ m, base = some m ∧ m.task.Continues t := by
  obtain ⟨-, m, lastErr, hbase, -, rfl⟩ := h
  exact ⟨m, hbase, rfl, rfl, by simp⟩

/-- Everybody but `EnqueueTask` continues the revision that is stored. -/
theorem Change.continues (h : Change writer n log base t) (hw : writer ≠ .enqueuer) :
    ∃ m, base = some m ∧ m.task.Continues t := by
  cases writer with
  | worker =>
    obtain ⟨p, m, hbase, hchange⟩ := h
    exact ⟨m, hbase, hchange.continues⟩
  | handler =>
    obtain ⟨c, m, hbase, -, hchange⟩ := h
    exact ⟨m, hbase, hchange.continues⟩
  | enqueuer => exact absurd rfl hw
  | retrier =>
    cases h with
    | retry loadedAt loaded known queue => exact ⟨_, known, rfl, rfl, by simp⟩
    | queueError change => exact change.continues
  | reader => exact h.elim

theorem Change.same_queue {m : StoredTask} (h : Change writer n log (some m) t)
    (henqueuer : writer ≠ .enqueuer) (hretrier : writer ≠ .retrier) :
    t.queue = m.task.queue := by
  cases writer with
  | worker =>
    obtain ⟨p, m', hm, hchange⟩ := h
    cases hm
    cases hchange <;> rfl
  | handler =>
    obtain ⟨c, m', hm, -, hchange⟩ := h
    cases hm
    cases hchange <;> rfl
  | enqueuer => exact absurd rfl henqueuer
  | retrier => exact absurd rfl hretrier
  | reader => exact h.elim

/-- What every save of a task hands on from the revision it replaces holds of all that is
stored for it. -/
theorem Valid.descends {D : Task → Prop} {id : String} {es : List Event}
    (hstart : ∀ m, current id log = some m → D m.task)
    (hsave : ∀ pre n writer old new acked, Event.saved n writer old new acked ∈ es →
      new.task.id = id → Change writer n pre old new.task → (∀ m, old = some m → D m.task) →
      D new.task) (hv : Valid (es ++ log)) :
    (∀ m, current id (es ++ log) = some m → D m.task) ∧
      ∀ m, Written es m → m.task.id = id → D m.task := by
  induction es with
  | nil =>
    refine ⟨hstart, fun m hm => ?_⟩
    obtain ⟨_, _, _, _, hmem⟩ := hm
    cases hmem
  | cons e es ih =>
    have hrest : ∀ pre n writer old new acked, Event.saved n writer old new acked ∈ es →
        new.task.id = id → Change writer n pre old new.task → (∀ m, old = some m → D m.task) →
        D new.task := fun pre n writer old new acked hmem =>
      hsave pre n writer old new acked (List.mem_cons_of_mem _ hmem)
    obtain ⟨hcurrent, hwritten⟩ := ih hrest hv.tail
    have hnew : ∀ n writer old new acked, e = .saved n writer old new acked →
        new.task.id = id → D new.task := by
      intro n writer old new acked heq hid
      subst heq
      obtain ⟨hold, -, hchange, -⟩ := hv.1
      apply hsave _ n writer old new acked (List.mem_cons_self ..) hid hchange
      intro m hm
      exact hcurrent m (hid ▸ hold.symm.trans hm)
    constructor
    · intro m hm
      rcases current_cons hm with ⟨n, writer, old, acked, heq, hid⟩ | hm
      · exact hnew n writer old m acked heq hid
      · exact hcurrent m hm
    · intro m hm hid
      rcases written_cons.mp hm with ⟨n, writer, old, acked, heq⟩ | hm
      · exact hnew n writer old m acked heq hid
      · exact hwritten m hm hid

theorem QueueErrorChange.sound (h : QueueErrorChange n log base t)
    (hbase : ∀ m, base = some m → m.task.Sound) : t.Sound := by
  obtain ⟨-, m, lastErr, hm, henq, rfl⟩ := h
  apply Task.Sound.of_idle
  · apply (hbase m hm).result_none
    intro hcompleted
    exact henq.not_final (by rw [hcompleted]; rfl)
  · simp
  · simp

theorem WorkerChange.sound {p : Processor} {m : StoredTask} (h : WorkerChange p n log m t)
    (hm : m.task.Sound) : t.Sound := by
  have hidle : ∀ {loadedAt : Int}, Admitted p n log m loadedAt → m.task.result = none := by
    intro loadedAt hadmitted
    apply hm.result_none
    intro hcompleted
    have hterminated := hadmitted.terminated (by rw [hcompleted]; rfl)
    rw [hcompleted] at hterminated
    cases hterminated
  cases h with
  | expire admitted exceeded =>
    apply Task.Sound.of_idle
    · exact hidle admitted
    · simp
    · simp
  | unreachable eligible blocked dependent results lastErr now =>
    obtain ⟨loadedAt, hadmitted, -⟩ := eligible.admitted
    apply Task.Sound.of_idle
    · exact hidle hadmitted
    · simp
    · simp
  | activate eligible done results now =>
    obtain ⟨loadedAt, hadmitted, -⟩ := eligible.admitted
    constructor
    · simp [hidle hadmitted]
    · simp

theorem HandlerChange.sound {c : Client} {m : StoredTask} (h : HandlerChange c m t)
    (hm : m.task.Sound) (hactive : m.task.state = .active) : t.Sound := by
  have hnone : m.task.result = none := hm.result_none (by rw [hactive]; simp)
  cases h with
  | succeed lastTriedAt completedAt payload =>
    constructor
    · simp
    · simp
  | terminate now err terminal =>
    apply Task.Sound.of_idle
    · exact hnone
    · simp
    · simp
  | fail now err terminal =>
    apply Task.Sound.of_idle
    · exact hnone
    · exact (c.errorState_idle _ err).1
    · exact (c.errorState_idle _ err).2

/-- A sound revision is replaced by a sound one, as far as `EnqueueTask` saves tasks
without a result. -/
theorem Change.sound (h : Change writer n log base t)
    (hbase : ∀ m, base = some m → m.task.Sound)
    (hgiven : writer = .enqueuer → t.result = none) : t.Sound := by
  cases writer with
  | worker =>
    obtain ⟨p, m, hm, hchange⟩ := h
    exact hchange.sound (hbase m hm)
  | handler =>
    obtain ⟨c, m, hm, hactive, hchange⟩ := h
    exact hchange.sound (hbase m hm) hactive
  | enqueuer =>
    cases h with
    | submit given state queue signature =>
      apply Task.Sound.of_idle
      · exact hgiven rfl
      · rcases state with hs | hs | hs <;> simp [hs]
      · rcases state with hs | hs | hs <;> simp [hs]
    | queueError change => exact change.sound hbase
  | retrier =>
    cases h with
    | retry loadedAt loaded known queue => exact Task.Sound.of_idle rfl (by simp) (by simp)
    | queueError change => exact change.sound hbase
  | reader => exact h.elim

end Changes

end AsyncJobs
