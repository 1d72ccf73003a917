import WorkQueue.Config.Codec
import WorkQueue.Config.Environment
import WorkQueue.Config.Yaml
import WorkQueue.Engine.Timer
import WorkQueue.Log.Logger
import WorkQueue.Message.Draft
import WorkQueue.Store.Location
import WorkQueue.Transcript.Names
import WorkQueue.Proofs.Store.Refinement
import WorkQueue.Proofs.Lease.Exclusivity
import WorkQueue.Proofs.Lease.Redelivery
import WorkQueue.Proofs.Cron.Slots
import WorkQueue.Proofs.Store.Legible
import WorkQueue.Proofs.Store.Occupancy
import WorkQueue.Proofs.Scheduler.Fleet
import WorkQueue.Proofs.Lease.Fencing
import WorkQueue.Proofs.Lease.Patrol
import WorkQueue.Proofs.Scheduler.Attempts
import WorkQueue.Proofs.Scheduler.Roster
import WorkQueue.Proofs.Lease.Purging
import WorkQueue.Proofs.Store.Failure
import WorkQueue.Proofs.Lease.Commit
import WorkQueue.Proofs.Worker.Cancellation
import WorkQueue.Proofs.Message.Codec
import WorkQueue.Proofs.Scheduler.Tick
import WorkQueue.Proofs.Lease.Sweep
import WorkQueue.Proofs.Job.Reach
import WorkQueue.Proofs.Cron.Next
import WorkQueue.Proofs.Store.Drain
import WorkQueue.Proofs.Scheduler.Definition
import WorkQueue.Proofs.Scheduler.Removal
import WorkQueue.Proofs.Lease.Requeue
import WorkQueue.Proofs.Store.Window
import WorkQueue.Proofs.Worker.Backoff
import WorkQueue.Proofs.Config.Recovery
import WorkQueue.Proofs.Message.History
