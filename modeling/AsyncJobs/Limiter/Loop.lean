import AsyncJobs.Limiter.Tokens
import AsyncJobs.Interaction.Run

/-!
# The processing loop

`processMessages` takes a token from the limiter, polls for an item and processes it;
handlers run beside it. The replies to all requests, the results of polls, the moment
the context ends and the order of the goroutines are arbitrary. A send on the limiter
is possible while the channel is not full.
-/

namespace AsyncJobs

open Interaction

/-- What `PollQueue` returned: an item, an error, or neither. -/
inductive Poll where
  | item (item : ProcessItem)
  | failed (err : Error)
  | empty

/-- Where the goroutine of `processMessages` is: at its `select`, at the top of the
loop in `pollItem`, in the `RetrySleep` of that loop, in the rest of processing an
item, or returned. -/
inductive LoopState where
  | select
  | polling
  | sleeping
  | processing (rest : Job Unit)
  | exited

/-- `held` says that the loop received a token that it neither sent back nor passed on
to a handler. -/
structure ProcessorState where
  limiter : Nat
  held : Bool
  loop : LoopState
  handlers : List (Job Unit)
  ctx : Option ContextEnd

abbrev Answers := (c : Call) → Option c.Reply

/-- What happens next: the context ends, the `select` takes either of its cases, a poll
returns, a sleep ends, the loop or a handler goes on, or the loop is done with its item. -/
inductive Turn where
  | cancel (reason : ContextEnd)
  | receive
  | quit
  | poll (result : Poll)
  | wake (fired : Bool)
  | process (answers : Answers)
  | next
  | handler (i : Nat) (answers : Answers)

def Job.running : Job Unit → Bool
  | .ret _ => false
  | .call _ _ => true

def ProcessorState.running (s : ProcessorState) : Nat := s.handlers.countP Job.running

namespace Processor

variable (p : Processor)

def capacity : Nat := p.c.opts.concurrency

/-- A send on the limiter, which blocks while the channel is full. -/
def send (limiter : Nat) : Option Nat :=
  if limiter < p.capacity then some (limiter + 1) else none

/-- The first `n` sends of `newProcessor`. -/
def fill : Nat → Option Nat
  | 0 => some 0
  | n + 1 =>
    match fill n with
    | none => none
    | some limiter => p.send limiter

/-- `newProcessor` and the start of `processMessages`, which needs a mux. -/
def start (mux : Bool) : Option ProcessorState :=
  match p.fill p.capacity with
  | none => none
  | some limiter => some
      { limiter := limiter
        held := false
        loop := if mux then .select else .exited
        handlers := []
        ctx := none }

/-- `pollItem` returned an error to `processMessages`. -/
def pollFailed (s : ProcessorState) (err : Error) : Option ProcessorState :=
  if err.is .contextDeadlineExceeded then some { s with loop := .exited }
  else if err.is .contextCanceled then some { s with loop := .exited }
  else
    match p.send s.limiter with
    | none => none
    | some limiter => some { s with limiter := limiter, held := false, loop := .select }

/-- One turn of the loop in `pollItem`. -/
def pollItem (s : ProcessorState) (result : Poll) : Option ProcessorState :=
  match s.ctx with
  | some reason => p.pollFailed s reason.error
  | none =>
    match result with
    | .failed err =>
      if err.is .contextCanceled then p.pollFailed s err
      else if err.is .contextDeadlineExceeded then some { s with loop := .polling }
      else some { s with loop := .sleeping }
    | .empty => some { s with loop := .polling }
    | .item item => some { s with loop := .processing (p.processItem item) }

/-- What a request of a goroutine does to the shared state. -/
def perform (s : ProcessorState) : Call → Option ProcessorState
  | .release =>
    match p.send s.limiter with
    | none => none
    | some limiter => some { s with limiter := limiter }
  | .goHandle t item => some { s with handlers := s.handlers ++ [p.handle t item] }
  | _ => some s

/-- The loop goes on with the answer to its request. -/
def process (s : ProcessorState) (answers : Answers) : Job Unit → Option ProcessorState
  | .ret _ => none
  | .call c k =>
    match answers c, p.perform s c with
    | some r, some s => some
        { s with held := s.held && !Call.givesToken c, loop := .processing (k r) }
    | _, _ => none

/-- Handler `i` goes on with the answer to its request. -/
def runHandler (s : ProcessorState) (i : Nat) (answers : Answers) : Job Unit → Option ProcessorState
  | .ret _ => none
  | .call c k =>
    match answers c, p.perform s c with
    | some r, some s => some { s with handlers := s.handlers.set i (k r) }
    | _, _ => none

def turn (s : ProcessorState) : Turn → Option ProcessorState
  | .cancel reason => if s.ctx = none then some { s with ctx := some reason } else none
  | .receive =>
    match s.loop, s.limiter with
    | .select, limiter + 1 => some { s with limiter := limiter, held := true, loop := .polling }
    | _, _ => none
  | .quit =>
    match s.loop with
    | .select => if s.ctx = none then none else some { s with loop := .exited }
    | _ => none
  | .poll result =>
    match s.loop with
    | .polling => p.pollItem s result
    | _ => none
  | .wake fired =>
    match s.loop with
    | .sleeping =>
      if fired then some { s with loop := .polling }
      else
        match s.ctx with
        | none => none
        | some reason =>
          if reason = .canceled then p.pollFailed s reason.error
          else some { s with loop := .polling }
    | _ => none
  | .process answers =>
    match s.loop with
    | .processing rest => p.process s answers rest
    | _ => none
  | .next =>
    match s.loop with
    | .processing (.ret _) => some { s with loop := .select }
    | _ => none
  | .handler i answers =>
    match s.handlers[i]? with
    | none => none
    | some rest => p.runHandler s i answers rest

def turns (s : ProcessorState) (ts : List Turn) : Option ProcessorState :=
  run p.turn s ts

theorem fill_eq {n : Nat} (hn : n ≤ p.capacity) : p.fill n = some n := by
  induction n with
  | zero => rfl
  | succ n ih =>
    have hlt : n < p.capacity := hn
    simp [fill, ih (Nat.le_of_succ_le hn), send, hlt]

/-- The rest of a goroutine gives away the token it accounts for, if it has one. -/
abbrev Accounts (rest : Job Unit) (held : Bool) : Prop :=
  Holds tokenContext (fun _ held => held = false) rest held

/-- A goroutine accounts for a token exactly while it has not returned. -/
theorem Accounts.eq_running {rest : Job Unit} {held : Bool} (h : Accounts rest held) :
    held = rest.running := by
  cases rest with
  | ret u => exact h held rfl trivial
  | call c k => exact (h held rfl trivial).1

theorem Accounts.step {c : Call} {k : c.Reply → Job Unit} {held : Bool}
    (h : Accounts (Prog.call (S := jobs) c k) held) (r : c.Reply) :
    held = true ∧ Accounts (k r) (!c.givesToken) := by
  obtain ⟨hheld, hnext⟩ := h held rfl trivial
  have hheld' : held = true := hheld
  refine ⟨hheld, hnext r _ ?_⟩
  show _ = (held && !c.givesToken)
  rw [hheld', Bool.true_and]

def LoopAccounts (held : Bool) : LoopState → Prop
  | .select => held = false
  | .polling | .sleeping => held = true
  | .processing rest => Accounts rest held
  | .exited => True

/-- Every token is in the limiter, with the loop or with a handler. -/
structure Balanced (s : ProcessorState) : Prop where
  total : s.limiter + s.running + s.held.toNat = p.capacity
  loop : LoopAccounts s.held s.loop
  handlers : ∀ rest ∈ s.handlers, Accounts rest rest.running

variable {p} {s s' : ProcessorState}

theorem Balanced.start {mux : Bool} (h : p.start mux = some s) : p.Balanced s := by
  simp only [Processor.start, p.fill_eq (Nat.le_refl _), Option.some.injEq] at h
  subst h
  refine ⟨by simp [ProcessorState.running], ?_, by simp⟩
  cases mux with
  | true => rfl
  | false => trivial

theorem send_eq_some {limiter limiter' : Nat} (h : p.send limiter = some limiter') :
    limiter' = limiter + 1 := by
  unfold send at h
  split_ifs at h
  exact (Option.some.inj h).symm

theorem Balanced.pollFailed (h : p.Balanced s) (hheld : s.held = true) {err : Error}
    (hs : p.pollFailed s err = some s') : p.Balanced s' := by
  unfold Processor.pollFailed at hs
  split_ifs at hs
  · cases hs
    exact ⟨h.total, trivial, h.handlers⟩
  · cases hs
    exact ⟨h.total, trivial, h.handlers⟩
  · split at hs
    · cases hs
    · rename_i limiter hsend
      cases hs
      have htotal := h.total
      rw [hheld] at htotal
      refine ⟨?_, rfl, h.handlers⟩
      simp only [send_eq_some hsend, ProcessorState.running, Bool.toNat_false, Bool.toNat_true]
        at htotal ⊢
      omega

theorem Balanced.pollItem (h : p.Balanced s) (hheld : s.held = true) {result : Poll}
    (hs : p.pollItem s result = some s') : p.Balanced s' := by
  have hkeep : ∀ {loop : LoopState}, LoopAccounts true loop → p.Balanced { s with loop := loop } :=
    fun hloop => ⟨h.total, hheld ▸ hloop, h.handlers⟩
  unfold Processor.pollItem at hs
  split at hs
  · exact h.pollFailed hheld hs
  · cases result with
    | failed err =>
      simp only at hs
      split_ifs at hs
      · exact h.pollFailed hheld hs
      · cases hs
        exact hkeep rfl
      · cases hs
        exact hkeep rfl
    | empty =>
      cases hs
      exact hkeep rfl
    | item item =>
      cases hs
      exact hkeep (p.processItem_holds_token item)

/-- A request changes the limiter or the handlers by exactly the token it gives away. -/
theorem Balanced.perform {c : Call} (hhandlers : ∀ rest ∈ s.handlers, Accounts rest rest.running)
    (hs : p.perform s c = some s') :
    s'.limiter + s'.running = s.limiter + s.running + (Call.givesToken c).toNat ∧
      s'.held = s.held ∧ s'.loop = s.loop ∧
      (∀ rest ∈ s'.handlers, Accounts rest rest.running) ∧
      ∃ started, s'.handlers = s.handlers ++ started := by
  cases c with
  | release =>
    simp only [Processor.perform] at hs
    split at hs
    · cases hs
    · rename_i limiter hsend
      cases hs
      refine ⟨?_, rfl, rfl, hhandlers, [], (List.append_nil _).symm⟩
      simp only [send_eq_some hsend, ProcessorState.running, Call.givesToken, Bool.toNat_true]
      omega
  | goHandle t item =>
    cases hs
    have hhandle := p.handle_holds_token t item
    have hrunning : Job.running (p.handle t item) = true := (Accounts.eq_running hhandle).symm
    refine ⟨?_, rfl, rfl, ?_, _, rfl⟩
    · simp [ProcessorState.running, hrunning, Call.givesToken]
      omega
    · intro rest hrest
      rcases List.mem_append.mp hrest with hrest | hrest
      · exact hhandlers rest hrest
      · rw [List.mem_singleton.mp hrest, hrunning]
        exact hhandle
  | _ =>
    cases hs
    exact ⟨rfl, rfl, rfl, hhandlers, [], (List.append_nil _).symm⟩

theorem Balanced.process (h : p.Balanced s) {answers : Answers} {rest : Job Unit}
    (hloop : s.loop = .processing rest) (hs : p.process s answers rest = some s') :
    p.Balanced s' := by
  have hrest : Accounts rest s.held := by
    have hl := h.loop
    rwa [hloop] at hl
  cases rest with
  | ret u => cases hs
  | call c k =>
    simp only [Processor.process] at hs
    split at hs
    · rename_i r t _ hperform
      cases hs
      obtain ⟨htotal, hheld, -, hhandlers, -⟩ := Balanced.perform h.handlers hperform
      obtain ⟨htoken, hnext⟩ := Accounts.step hrest r
      have hflag : (t.held && !Call.givesToken c) = !Call.givesToken c := by
        rw [hheld, htoken, Bool.true_and]
      refine ⟨?_, ?_, hhandlers⟩
      · have hbefore := h.total
        rw [htoken] at hbefore
        simp only [hflag]
        cases hgives : Call.givesToken c with
        | true =>
          rw [hgives] at htotal
          simp only [ProcessorState.running, Bool.toNat_true, Bool.not_true, Bool.toNat_false]
            at htotal hbefore ⊢
          omega
        | false =>
          rw [hgives] at htotal
          simp only [ProcessorState.running, Bool.toNat_true, Bool.not_false, Bool.toNat_false]
            at htotal hbefore ⊢
          omega
      · show Accounts (k r) (t.held && !Call.givesToken c)
        rw [hflag]
        exact hnext
    · cases hs

theorem countP_running_set {handlers : List (Job Unit)} {i : Nat} {before : Job Unit}
    (after : Job Unit) (hget : handlers[i]? = some before) (hbefore : before.running = true) :
    (handlers.set i after).countP Job.running + 1 =
      handlers.countP Job.running + after.running.toNat := by
  obtain ⟨hlt, hi⟩ := List.getElem?_eq_some_iff.mp hget
  have hpos : 0 < handlers.countP Job.running :=
    List.countP_pos_iff.mpr ⟨before, List.mem_of_getElem? hget, hbefore⟩
  rw [List.countP_set hlt, hi, hbefore]
  cases after.running with
  | true =>
    simp only [if_true, Bool.toNat_true]
    omega
  | false =>
    simp only [if_true, Bool.false_eq_true, if_false, Bool.toNat_false]
    omega

theorem Balanced.runHandler (h : p.Balanced s) {i : Nat} {answers : Answers} {rest : Job Unit}
    (hget : s.handlers[i]? = some rest) (hs : p.runHandler s i answers rest = some s') :
    p.Balanced s' := by
  cases rest with
  | ret u => cases hs
  | call c k =>
    simp only [Processor.runHandler] at hs
    split at hs
    · rename_i r t _ hperform
      cases hs
      obtain ⟨htotal, hheld, hloop, hhandlers, started, happend⟩ :=
        Balanced.perform h.handlers hperform
      obtain ⟨hrunning, hnext⟩ := Accounts.step (h.handlers _ (List.mem_of_getElem? hget)) r
      have hafter := hnext.eq_running
      obtain ⟨hlt, -⟩ := List.getElem?_eq_some_iff.mp hget
      have hget' : t.handlers[i]? = some (.call c k) := by
        rw [happend, List.getElem?_append_left hlt]
        exact hget
      have hcount := countP_running_set (k r) hget' hrunning
      refine ⟨?_, ?_, ?_⟩
      · have hbefore := h.total
        have hflag : t.held.toNat = s.held.toNat := by rw [hheld]
        rw [← hafter] at hcount
        simp only [ProcessorState.running] at htotal hbefore ⊢
        cases hgives : Call.givesToken c with
        | true =>
          rw [hgives] at htotal hcount
          simp only [Bool.toNat_true, Bool.not_true, Bool.toNat_false] at htotal hcount
          omega
        | false =>
          rw [hgives] at htotal hcount
          simp only [Bool.toNat_true, Bool.not_false, Bool.toNat_false] at htotal hcount
          omega
      · show LoopAccounts t.held t.loop
        rw [hheld, hloop]
        exact h.loop
      · intro rest hrest
        rcases List.mem_or_eq_of_mem_set hrest with hrest | rfl
        · exact hhandlers rest hrest
        · rw [← hafter]
          exact hnext
    · cases hs

theorem Balanced.move (h : p.Balanced s) {loop : LoopState} {ctx : Option ContextEnd}
    (hloop : LoopAccounts s.held loop) : p.Balanced { s with loop := loop, ctx := ctx } :=
  ⟨h.total, hloop, h.handlers⟩

theorem Balanced.receive (h : p.Balanced s) {limiter : Nat} (hheld : s.held = false)
    (hlimiter : s.limiter = limiter + 1) :
    p.Balanced { s with limiter := limiter, held := true, loop := .polling } := by
  have htotal := h.total
  rw [hheld, hlimiter] at htotal
  refine ⟨?_, rfl, h.handlers⟩
  simp only [ProcessorState.running, Bool.toNat_true, Bool.toNat_false] at htotal ⊢
  omega

theorem Balanced.wake (h : p.Balanced s) {fired : Bool} (hsleeping : s.loop = .sleeping)
    (hs : p.turn s (.wake fired) = some s') : p.Balanced s' := by
  have hloop := h.loop
  rw [hsleeping] at hloop
  simp only [Processor.turn, hsleeping] at hs
  split_ifs at hs
  · cases hs
    exact h.move hloop
  · split at hs
    · cases hs
    · split_ifs at hs
      · exact h.pollFailed hloop hs
      · cases hs
        exact h.move hloop

theorem Balanced.turn (h : p.Balanced s) {t : Turn} (hs : p.turn s t = some s') :
    p.Balanced s' := by
  have hloop := h.loop
  cases t with
  | cancel reason =>
    simp only [Processor.turn] at hs
    split_ifs at hs
    cases hs
    exact h.move h.loop
  | receive =>
    simp only [Processor.turn] at hs
    split at hs
    · rename_i limiter hselect hlimiter
      cases hs
      rw [hselect] at hloop
      exact h.receive hloop hlimiter
    · cases hs
  | quit =>
    simp only [Processor.turn] at hs
    split at hs
    · split_ifs at hs
      cases hs
      exact h.move trivial
    · cases hs
  | poll result =>
    simp only [Processor.turn] at hs
    split at hs
    · rename_i hpolling
      rw [hpolling] at hloop
      exact h.pollItem hloop hs
    · cases hs
  | wake fired =>
    by_cases hsleeping : s.loop = .sleeping
    · exact h.wake hsleeping hs
    · simp only [Processor.turn] at hs
      cases hs
  | process answers =>
    simp only [Processor.turn] at hs
    split at hs
    · rename_i rest hrest
      exact h.process hrest hs
    · cases hs
  | next =>
    simp only [Processor.turn] at hs
    split at hs
    · rename_i u hrest
      cases hs
      rw [hrest] at hloop
      exact h.move (Accounts.eq_running hloop)
    · cases hs
  | handler i answers =>
    simp only [Processor.turn] at hs
    split at hs
    · cases hs
    · rename_i rest hrest
      exact h.runHandler hrest hs

theorem Balanced.turns {ts : List Turn} (h : p.Balanced s) (hs : p.turns s ts = some s') :
    p.Balanced s' :=
  run_induction (fun h hturn => h.turn hturn) ts h hs

end Processor

/-- Some goroutine is about to send on the limiter, or may be once its poll returns. -/
def ProcessorState.sending (s : ProcessorState) : Prop :=
  s.loop = .polling ∨ s.loop = .sleeping ∨
    (∃ k, s.loop = .processing (Prog.call (S := jobs) Call.release k)) ∨
    ∃ k, Prog.call (S := jobs) Call.release k ∈ s.handlers

/-- A goroutine that is about to send accounts for a token, so the channel has room. -/
theorem Processor.Balanced.room {p : Processor} {s : ProcessorState} (h : p.Balanced s)
    (hs : s.sending) : s.limiter < p.capacity := by
  have htotal := h.total
  have hloop := h.loop
  have hheld : s.held = true → s.limiter < p.capacity := by
    intro hheld
    rw [hheld, Bool.toNat_true] at htotal
    omega
  rcases hs with hl | hl | ⟨k, hl⟩ | ⟨k, hmem⟩
  · rw [hl] at hloop
    exact hheld hloop
  · rw [hl] at hloop
    exact hheld hloop
  · rw [hl] at hloop
    exact hheld hloop.eq_running
  · have hpos : 0 < s.running := List.countP_pos_iff.mpr ⟨_, hmem, rfl⟩
    omega

/-- Whatever happens, the tokens in the limiter, with the running handlers and with the
loop add up to the concurrency; so no send blocks, the loop is back at its `select`
with no token lost, and at most that many handlers run. -/
theorem tokens_are_conserved (p : Processor) (mux : Bool) (turns : List Turn)
    (first last : ProcessorState) (hstart : p.start mux = some first)
    (hturns : p.turns first turns = some last) :
    last.limiter + last.running + last.held.toNat = p.c.opts.concurrency ∧
      (last.sending → p.send last.limiter = some (last.limiter + 1)) ∧
      (last.loop = .select → last.limiter + last.running = p.c.opts.concurrency) ∧
      last.running ≤ p.c.opts.concurrency := by
  have h := (Processor.Balanced.start hstart).turns hturns
  have htotal : last.limiter + last.running + last.held.toNat = p.c.opts.concurrency := h.total
  refine ⟨htotal, ?_, ?_, ?_⟩
  · intro hsending
    exact if_pos (h.room hsending)
  · intro hselect
    have hloop := h.loop
    rw [hselect] at hloop
    have hheld : last.held = false := hloop
    rw [hheld, Bool.toNat_false] at htotal
    exact htotal
  · omega

/-- The task of the item is gone: the loop terminates the item and returns the token. -/
def discardItem : List Turn :=
  let answers : Answers := fun
    | .readLast _ _ => some (.error .noMessage)
    | .termItem _ => some none
    | .release => some ()
    | _ => none
  [.receive, .poll (.item ⟨"T1", some ⟨"EMAIL", 1, 1⟩⟩), .process answers, .process answers,
    .process answers, .next]

theorem tokens_are_conserved_sample :
    ∃ first last, (⟨sampleClient⟩ : Processor).start true = some first ∧
      (⟨sampleClient⟩ : Processor).turns first discardItem = some last ∧
      last.limiter + last.running + last.held.toNat = 10 := by
  have hrun : ((⟨sampleClient⟩ : Processor).start true).any
      (fun first => ((⟨sampleClient⟩ : Processor).turns first discardItem).isSome) = true := by
    decide +kernel
  obtain ⟨first, hstart, hturns⟩ := (Option.any_eq_true _ _).mp hrun
  obtain ⟨last, hlast⟩ := Option.isSome_iff_exists.mp hturns
  exact ⟨first, last, hstart, hlast,
    (tokens_are_conserved ⟨sampleClient⟩ true discardItem first last hstart hlast).1⟩

end AsyncJobs
