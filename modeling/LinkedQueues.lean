import LinkedQueues.Element
import LinkedQueues.Padded
import LinkedQueues.Proofs.PoolQueue.Teardown
import LinkedQueues.Proofs.Session.Contents
import LinkedQueues.Proofs.Session.DoublePushes
import LinkedQueues.Proofs.Session.Failures
import LinkedQueues.Proofs.Session.Gauges
import LinkedQueues.Proofs.Session.HandleCounts
import LinkedQueues.Proofs.Session.Isolation
import LinkedQueues.Proofs.Session.Itinerary
import LinkedQueues.Proofs.Session.Stamped
import LinkedQueues.Proofs.Spinlock.Contest
import LinkedQueues.Proofs.StampQueue.Lagging
import LinkedQueues.Proofs.StubQueue.Emptiness
import LinkedQueues.Proofs.TwoLockQueue.Teardown
import LinkedQueues.Proofs.Workload
import LinkedQueues.Session.Locks
