import AsyncJobs.System.ProcessorSpec
import AsyncJobs.System.Reachable
import AsyncJobs.System.Revisions
import AsyncJobs.System.FinalStates
import AsyncJobs.System.Dependencies
import AsyncJobs.System.WorkQueue
import AsyncJobs.System.QueueSteps
import AsyncJobs.System.Settlement
import AsyncJobs.System.Covering
import AsyncJobs.System.QueueContext
import AsyncJobs.System.QueueSpec
import AsyncJobs.System.SubmitSpec
import AsyncJobs.System.WaitingTasks
import AsyncJobs.Limiter.Tokens
import AsyncJobs.Limiter.Loop
import AsyncJobs.Election.Instance
import AsyncJobs.Election.Callbacks
import AsyncJobs.Election.Cluster
import AsyncJobs.Model.Scheduler
import AsyncJobs.Schedule.Firing
import AsyncJobs.Schedule.Watch
import AsyncJobs.Security.Verification
import AsyncJobs.Router.Routing
import AsyncJobs.Router.Middleware
import AsyncJobs.Model.Calls
import AsyncJobs.Model.RequestReply
import AsyncJobs.Router.RequestReply
import AsyncJobs.Security.Binding
import AsyncJobs.Model.Http
import AsyncJobs.Http.Idempotency
import AsyncJobs.System.Provenance
import AsyncJobs.System.Records
import AsyncJobs.Security.StoredSignatures
import AsyncJobs.System.Discard
import AsyncJobs.System.MaxTries
import AsyncJobs.System.Exclusion
import AsyncJobs.Handler.Deadline
import AsyncJobs.Interaction.Channel
import AsyncJobs.Schedule.Shutdown
import AsyncJobs.Interaction.Subject
import AsyncJobs.Schedule.Listing
import AsyncJobs.Storage.TaskStream
import AsyncJobs.Interaction.Execution
import AsyncJobs.Model.Setup
import AsyncJobs.Storage.Bindings
import AsyncJobs.System.Lookup
import AsyncJobs.System.Enqueue
import AsyncJobs.System.Resubmission
import AsyncJobs.System.DependencyGate
import AsyncJobs.Interaction.Progress
import AsyncJobs.System.Attendance
import AsyncJobs.System.FinishedItems
import AsyncJobs.Http.KeyHistory
import AsyncJobs.Model.RetryPolicy
import AsyncJobs.Retry.Linear
import AsyncJobs.Model.ClientOptions
import AsyncJobs.Security.KeyLengths
import AsyncJobs.Model.Api
import AsyncJobs.Http.QueueServer
import AsyncJobs.Http.QueueCreation
import AsyncJobs.Http.StoredRequest
import AsyncJobs.Codec.Reader
import AsyncJobs.Http.BodyLimit
import AsyncJobs.Codec.Binary64
import AsyncJobs.Codec.Json
import AsyncJobs.Codec.JsonText
import AsyncJobs.Model.Payload
import AsyncJobs.Http.Payloads
import AsyncJobs.Codec.Calendar
import AsyncJobs.Codec.Record
import AsyncJobs.Model.Documents
import AsyncJobs.Security.Execution
import AsyncJobs.Storage.Documents
import AsyncJobs.System.Announcements
import AsyncJobs.System.Ordering
import AsyncJobs.Election.Timing
import AsyncJobs.Http.TaskDocuments
import AsyncJobs.Interaction.Simulation
import AsyncJobs.Model.Events
import AsyncJobs.Storage.Events
import AsyncJobs.Storage.Refinement
import AsyncJobs.Schedule.Leadership
