import AsyncJobs.Model.Error

/-!
# An election instance

The package `election` campaigns for a key of a bucket: a candidate tries to create
the key, a leader updates it at the revision it wrote last. The bucket's reply is an
argument here, so every outcome is possible. A win is announced only by the first
successful update.
-/

namespace AsyncJobs.Election

inductive State where
  | unknown
  | candidate
  | leader
  deriving DecidableEq, Repr

def maxUint64 : Nat := 18446744073709551615

inductive Callback where
  | won
  | lost
  deriving DecidableEq, Repr

structure Options where
  onWon : Bool := true
  onLost : Bool := true
  deriving DecidableEq, Repr

def Options.wonCb (o : Options) : Option Callback := if o.onWon then some .won else none

def Options.lostCb (o : Options) : Option Callback := if o.onLost then some .lost else none

/-- `NewElection` gives the default values. `ctxDone` says whether the context of the last
`Start` has ended, `none` before the first one. -/
structure Instance where
  opts : Options
  state : State := .unknown
  lastSeq : Nat := maxUint64
  started : Bool := false
  tries : Nat := 0
  notifyNext : Bool := false
  ctxDone : Option Bool := none
  deriving DecidableEq, Repr

inductive Request where
  | create
  | update (revision : Nat)
  deriving DecidableEq, Repr

namespace Instance

variable (e : Instance)

/-- The errors that are taken for a shutdown and not for a lost key. -/
def isContextError (err : Error) : Bool :=
  err.is .contextCanceled || err.is .contextDeadlineExceeded

def campaignForLeadershipLocked : Except Error Nat → Option Error × Instance
  | .error _ => (none, { e with tries := e.tries + 1 })
  | .ok seq => (none, { e with lastSeq := seq, state := .leader, tries := 0, notifyNext := true })

/-- The callbacks to run and the error. The win is returned in the place of the second
callback, as the source does. -/
def maintainLeadershipLocked :
    Except Error Nat → (Option Callback × Option Callback × Option Error) × Instance
  | .error err =>
    if isContextError err then ((none, none, some err), e)
    else
      let stepped := { e with state := .candidate, lastSeq := maxUint64, tries := 0 }
      if e.notifyNext then ((none, none, some err), { stepped with notifyNext := false })
      else ((none, e.opts.lostCb, some err), stepped)
  | .ok seq =>
    if e.notifyNext then
      ((none, e.opts.wonCb, none), { e with lastSeq := seq, notifyNext := false })
    else ((none, none, none), { e with lastSeq := seq })

/-- The request the next `try` sends. -/
def request : Option Request :=
  match e.state with
  | .leader => some (.update e.lastSeq)
  | .candidate => some .create
  | .unknown => none

/-- `try`: the callbacks it runs in order, its error and the instance afterwards. -/
def tryOnce (reply : Except Error Nat) : List Callback × Option Error × Instance :=
  match e.state with
  | .leader =>
    let ((wonCb, lostCb, err), e) := e.maintainLeadershipLocked reply
    (lostCb.toList ++ wonCb.toList, err, e)
  | .candidate =>
    let (err, e) := e.campaignForLeadershipLocked reply
    ([], err, e)
  | .unknown => ([], some (.plain "campaigned while in unknown state"), e)

/-- A new leader only counts as one after its next successful campaign. -/
def isLeader : Bool := e.state = .leader ∧ e.notifyNext = false

/-- `Start` up to the first campaign, on a parent context that may have ended already. -/
def start (parentDone : Bool) : Except Error Instance :=
  if e.started then .error (.plain "already running")
  else .ok { e with started := true, ctxDone := some parentDone, state := .candidate }

/-- `Stop`, or the end of the parent context. -/
def cancel : Instance :=
  { e with ctxDone := e.ctxDone.map fun _ => true }

def stop : Instance :=
  { e with started := false, ctxDone := some true, state := .candidate, lastSeq := maxUint64 }

/-- The campaign sees that its context is done and stands down. -/
def shutdown : List Callback × Instance :=
  (if e.isLeader then e.opts.lostCb.toList else [], e.stop)

@[simp] theorem tryOnce_opts (reply : Except Error Nat) : (e.tryOnce reply).2.2.opts = e.opts := by
  unfold tryOnce campaignForLeadershipLocked maintainLeadershipLocked
  cases reply <;> cases e.state <;> simp only <;> split_ifs <;> rfl

@[simp] theorem tryOnce_started (reply : Except Error Nat) :
    (e.tryOnce reply).2.2.started = e.started := by
  unfold tryOnce campaignForLeadershipLocked maintainLeadershipLocked
  cases reply <;> cases e.state <;> simp only <;> split_ifs <;> rfl

@[simp] theorem isLeader_stop : e.stop.isLeader = false := rfl

end Instance

end AsyncJobs.Election
