import AsyncJobs.Model.Documents
import AsyncJobs.System.World

/-!
# The task stream as the server holds it

The stream `CHORIA_AJ_TASKS` holds one message of bytes on the subject of each task. Saving a
task sends its JSON document with the sequence that is expected on the subject, loading reads
the newest message and decodes it. Each request either is carried out and answered, is carried
out with the answer lost, or fails without effect.
-/

namespace AsyncJobs

structure LoggedTask where
  seq : Nat
  id : String
  data : Bytes

structure TaskLog where
  lastSeq : Nat
  messages : List LoggedTask

inductive LogRequest where
  | save (task : TaskDocument) (revision : Option Nat)
  | read (id : String)
  | delete (seq : Nat)

/-- What a request gives to its caller. A message that was read is decoded, which can fail. -/
inductive LogReply where
  | saved (r : Except Error Nat)
  | read (r : Except ReadError (Nat × Option TaskDocument))
  | deleted (err : Option Error)

namespace TaskLog

def empty : TaskLog := ⟨0, []⟩

variable (l : TaskLog)

def stored (id : String) : Option LoggedTask := l.messages.find? fun m => m.id = id

def readLast (token : String) : Option LoggedTask :=
  if World.isWildcard token then l.messages.head? else l.stored token

def lastSubjectSeq (id : String) : Nat :=
  match l.stored id with
  | none => 0
  | some m => m.seq

def publish (id : String) (data : Bytes) : TaskLog where
  lastSeq := l.lastSeq + 1
  messages := ⟨l.lastSeq + 1, id, data⟩ :: l.messages.filter fun m => m.id ≠ id

/-- A publish with the sequence that is expected on the subject. -/
def execPublish (id : String) (revision : Option Nat) (data : Bytes) :
    Outcome → Option (LogReply × TaskLog)
  | .ok =>
    if l.lastSubjectSeq id = revision.getD 0 then
      some (.saved (.ok (l.lastSeq + 1)), l.publish id data)
    else some (.saved (.error World.wrongLastSequence), l)
  | .lost e =>
    if l.lastSubjectSeq id = revision.getD 0 then some (.saved (.error e), l.publish id data)
    else some (.saved (.error e), l)
  | .failed e => some (.saved (.error e), l)
  | .handled _ => none

def execRead (id : String) : Outcome → Option (LogReply × TaskLog)
  | .ok =>
    match l.readLast id with
    | none => some (.read (.error .noMessage), l)
    | some m => some (.read (.ok (m.seq, TaskDocument.unmarshal m.data)), l)
  | .failed e => some (.read (.error (.failed e)), l)
  | _ => none

def removed (seq : Nat) : TaskLog := { l with messages := l.messages.filter fun m => m.seq ≠ seq }

def execDelete (seq : Nat) : Outcome → Option (LogReply × TaskLog)
  | .ok =>
    if l.messages.any fun m => m.seq = seq then some (.deleted none, l.removed seq)
    else some (.deleted (some (.plain "no message found")), l)
  | .lost e => some (.deleted (some e), l.removed seq)
  | .failed e => some (.deleted (some e), l)
  | .handled _ => none

/-- A task that cannot be encoded is not sent. -/
def exec : LogRequest × Outcome → Option (LogReply × TaskLog)
  | (.save task revision, o) =>
    match task.marshal with
    | .error err => some (.saved (.error err), l)
    | .ok data => l.execPublish task.id revision data o
  | (.read id, o) => l.execRead id o
  | (.delete seq, o) => l.execDelete seq o

end TaskLog

end AsyncJobs
