import AsyncJobs.Model.Storage

/-!
# Clients

Task signing and verification, and the functions that move a task from one
state to another. The host supplies key files and the ed25519 primitives; the
two that panic on a key of the wrong length do so here as well.
-/

namespace AsyncJobs

open Interaction

structure Host where
  readFile : String → Except Error String
  newKeyFromSeed : Bytes → Bytes
  sign : Bytes → String → Bytes
  verify : Bytes → String → Bytes → Bool

namespace Host

def publicKeySize : Nat := 32
def privateKeySize : Nat := 64
def seedSize : Nat := 32

variable (h : Host)

def ed25519Sign (key : Bytes) (message : String) : Except Fault Bytes :=
  if key.length ≠ privateKeySize then
    .error (.panic ("ed25519: bad private key: ed25519: bad private key length: " ++
      toString key.length))
  else .ok (h.sign key message)

def ed25519Verify (key : Bytes) (message : String) (sig : Bytes) : Except Fault Bool :=
  if key.length ≠ publicKeySize then
    .error (.panic ("ed25519: bad public key length: " ++ toString key.length))
  else .ok (h.verify key message sig)

/-- `PrivateKey.Public`: the second half of the key. -/
def publicOf (key : Bytes) : Bytes := (key.drop 32).take publicKeySize

def readHexFile (path : String) : Except Error Bytes :=
  match h.readFile path with
  | .error e => .error e
  | .ok text => hexDecode text.toList

/-- The private key derived from the seed stored in a file. -/
def readSeedFile (path : String) : Except Error Bytes :=
  match h.readHexFile path with
  | .error e => .error e
  | .ok seed =>
    if seed.length ≠ seedSize then .error (.plain "invalid seed length")
    else .ok (h.newKeyFromSeed seed)

def readPublicKeyFile (path : String) : Except Error Bytes :=
  match h.readHexFile path with
  | .error e => .error e
  | .ok key =>
    if key.length ≠ publicKeySize then .error (.plain "invalid public key") else .ok key

end Host

structure ClientOpts where
  queue : Queue
  concurrency : Nat := 10
  retryPolicy : Int → Int := fun _ => 0
  discard : List TaskState := []
  privateKey : Option Bytes := none
  seedFile : String := ""
  publicKey : Option Bytes := none
  publicKeyFile : String := ""
  optionalTaskSignatures : Bool := false

def ClientOpts.validate (c : ClientOpts) : Option Error :=
  if c.privateKey ≠ none ∧ c.seedFile ≠ "" then
    some (.plain "cannot set both private key and seed file")
  else if c.publicKey ≠ none ∧ c.publicKeyFile ≠ "" then
    some (.plain "cannot set both public key and public key file")
  else if c.seedFile ≠ "" ∧ (c.publicKeyFile ≠ "" ∨ c.publicKey ≠ none) then
    some (.plain "cannot set a seedfile and public key information")
  else none

structure Client where
  opts : ClientOpts
  host : Host

/-- `Task.sign`. -/
def Task.sign (host : Host) (t : Task) (key : Bytes) : Except Fault Task :=
  if t.signature ≠ "" then .error (.error Sentinel.taskAlreadySigned.error)
  else
    match t.signatureMessage with
    | .error e => .error (.error e)
    | .ok message =>
      match host.ed25519Sign key message with
      | .error f => .error f
      | .ok sig => .ok { t with signature := hexEncode sig }

theorem Task.sign_ok {host : Host} {t signed : Task} {key : Bytes}
    (h : t.sign host key = .ok signed) :
    t.signature = "" ∧ key.length = Host.privateKeySize ∧ ∃ message,
      t.signatureMessage = .ok message ∧
      signed = { t with signature := hexEncode (host.sign key message) } := by
  unfold Task.sign at h
  split_ifs at h with hsigned
  split at h
  · cases h
  · rename_i message hmessage
    unfold Host.ed25519Sign at h
    split_ifs at h with hlength
    cases h
    exact ⟨not_not.mp hsigned, not_not.mp hlength, message, hmessage, rfl⟩

namespace Client

variable (c : Client)

/-- The last part of `verifyTaskSignature`, once a public key was chosen. -/
def verifyWith (key : Bytes) (task : Task) : Except Fault Unit :=
  match task.signatureMessage with
  | .error e => .error (.error (Sentinel.taskSignatureInvalid.error.wrap (": " ++ e.text)))
  | .ok message =>
    match hexDecode task.signature.toList with
    | .error e => .error (.error (Sentinel.taskSignatureInvalid.error.wrap (": " ++ e.text)))
    | .ok sig =>
      match c.host.ed25519Verify key message sig with
      | .error f => .error f
      | .ok true => .ok ()
      | .ok false => .error (.error Sentinel.taskSignatureInvalid.error)

def verifyTaskSignature (task : Task) : Except Fault Unit :=
  if c.opts.publicKey = none ∧ c.opts.publicKeyFile = "" then .ok ()
  else if !c.opts.optionalTaskSignatures ∧ task.signature = "" then
    .error (.error Sentinel.taskNotSigned.error)
  else if task.signature = "" then .ok ()
  else
    match c.opts.publicKey with
    | some key => c.verifyWith key task
    | none =>
      if c.opts.publicKeyFile ≠ "" then
        match c.host.readPublicKeyFile c.opts.publicKeyFile with
        | .error e => .error (.error e)
        | .ok key => c.verifyWith key task
      else if c.opts.seedFile ≠ "" then
        match c.host.readSeedFile c.opts.seedFile with
        | .error e => .error (.error e)
        | .ok key => c.verifyWith (Host.publicOf key) task
      else if !c.opts.optionalTaskSignatures then
        .error (.error (.plain "no task verification keys configured"))
      else .ok ()

def signTask (task : Task) : Except Fault Task :=
  match c.opts.privateKey with
  | some key => task.sign c.host key
  | none =>
    if c.opts.seedFile ≠ "" then
      match c.host.readSeedFile c.opts.seedFile with
      | .error e => .error (.error e)
      | .ok key => task.sign c.host key
    else .ok task

/-- The key `signTask` signs with, if one is configured and can be read. -/
def signingKey : Option Bytes :=
  match c.opts.privateKey with
  | some key => some key
  | none => if c.opts.seedFile ≠ "" then (c.host.readSeedFile c.opts.seedFile).toOption else none

/-- A task leaves `signTask` as it was if there is no key, and otherwise signed with it. -/
theorem signTask_ok {c : Client} {t signed : Task} (h : c.signTask t = .ok signed) :
    (c.signingKey = none ∧ signed = t) ∨
      ∃ key, c.signingKey = some key ∧ t.sign c.host key = .ok signed := by
  unfold signTask at h
  unfold signingKey
  split at h
  · rename_i key _
    exact Or.inr ⟨key, rfl, h⟩
  · by_cases hseed : c.opts.seedFile ≠ ""
    · rw [if_pos hseed] at h ⊢
      split at h
      · cases h
      · rename_i key hread
        rw [hread]
        exact Or.inr ⟨key, rfl, h⟩
    · rw [if_neg hseed] at h ⊢
      cases h
      exact Or.inl ⟨rfl, rfl⟩

theorem signTask_record {c : Client} {task signed : Task} (h : c.signTask task = .ok signed) :
    ∃ signature, signed = { task with signature := signature } := by
  obtain ⟨-, hsame⟩ | ⟨key, -, hsign⟩ := signTask_ok h
  · exact ⟨task.signature, hsame⟩
  · obtain ⟨-, -, message, -, hsigned⟩ := Task.sign_ok hsign
    exact ⟨_, hsigned⟩

def raise {α : Type} (message : String) : Job α :=
  request (.panic message) >>= fun impossible => nomatch (impossible : Empty)

def loadTaskByID (use : ReadUse) (id : String) : Job (Except Error Copy) := do
  match ← Storage.loadTaskByID use id with
  | .error err => return .error err
  | .ok task =>
    match c.verifyTaskSignature task.toTask with
    | .error (.error err) => return .error err
    | .error (.panic message) => raise message
    | .ok () => return .ok task

def retryTaskByID (id : String) : Job (Option Error) :=
  Storage.retryTaskByID c.opts.queue id

def enqueueTask (task : Copy) : Job (Option Error × Copy) := do
  let task := { task with queue := c.opts.queue.name }
  match c.signTask task.toTask with
  | .error (.error err) => return (some err, task)
  | .error (.panic message) => raise message
  | .ok signed => Storage.enqueueTask c.opts.queue { task with toTask := signed }

def setTaskActive (t : Copy) : Job (Option Error × Copy) := do
  let now ← readClock
  Storage.saveTaskState { t with state := .active, lastTriedAt := some now, lastErr := "" } true

def shouldDiscardTask (t : Task) : Bool := c.opts.discard.contains t.state

/-- The event is published whatever its outcome, then the record is removed. -/
def saveOrDiscardTaskIfDesired (t : Copy) : Job (Option Error × Copy) := do
  if !c.shouldDiscardTask t.toTask then
    Storage.saveTaskState t true
  else
    let _ ← Storage.publishTaskStateChangeEvent t
    return (← Storage.deleteTaskByID t.id, t)

def setTaskSuccess (t : Copy) (payload : String) : Job (Option Error × Copy) := do
  let lastTriedAt ← readClock
  let completedAt ← readClock
  c.saveOrDiscardTaskIfDesired { t with
    lastTriedAt := some lastTriedAt, state := .completed, lastErr := "",
    result := some { payload := payload, completedAt := completedAt } }

def handleTaskTerminated (t : Copy) (terr : Error) : Job (Option Error × Copy) := do
  let now ← readClock
  c.saveOrDiscardTaskIfDesired { t with
    lastErr := terr.text, lastTriedAt := some now, state := .terminated }

def handleTaskExpired (t : Copy) : Job (Option Error × Copy) :=
  c.saveOrDiscardTaskIfDesired { t with state := .expired }

/-- The state `handleTaskError` chooses. -/
def errorState (t : Task) (terr : Error) : TaskState :=
  if terr.is .taskDependenciesFailed then .unreachable
  else if t.queue ≠ "" ∧ t.queue = c.opts.queue.name ∧ c.opts.queue.maxTries = t.tries then .expired
  else .retry

def handleTaskError (t : Copy) (terr : Error) : Job (Option Error × Copy) := do
  let now ← readClock
  c.saveOrDiscardTaskIfDesired { t with
    lastErr := terr.text, lastTriedAt := some now, state := c.errorState t.toTask terr }

end Client

/-- A small client to run schedules on: one queue and no keys. -/
def sampleQueue : Queue := { name := "EMAIL", maxTries := 5, maxRunTime := 60 }

def sampleHost : Host where
  readFile _ := .error (.plain "no such file")
  newKeyFromSeed seed := seed ++ seed
  sign _ _ := []
  verify _ _ _ := true

def sampleClient : Client := ⟨{ queue := sampleQueue }, sampleHost⟩

def sampleTask : Task :=
  { id := "T1", type := "email:new", maxTries := 10, state := .new, createdAt := 0 }

end AsyncJobs
