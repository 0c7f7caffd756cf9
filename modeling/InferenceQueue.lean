import InferenceQueue.CompletionMarker
import InferenceQueue.JobRaces
import InferenceQueue.LeaseEpochs
import InferenceQueue.LeaseOwnership
import InferenceQueue.SchedulerCapacity
import InferenceQueue.SchedulerFairness
import InferenceQueue.SchedulerPlacement
import InferenceQueue.SystemSteps
import InferenceQueue.RecoveryRetries
import InferenceQueue.EventStreamFormat
import InferenceQueue.StreamEvents
import InferenceQueue.RateLimitExpiry
import InferenceQueue.IdempotencyModel
import InferenceQueue.IdempotencyLinks
import InferenceQueue.JobOwners
import InferenceQueue.SchedulerQueueFull
import InferenceQueue.OrphanSweep
import InferenceQueue.RetryModel
import InferenceQueue.WorkerLoop
import InferenceQueue.CoalescingModel
import InferenceQueue.PlatformModel
import InferenceQueue.PlatformSteps
import InferenceQueue.StatusAgreement
import InferenceQueue.SubmissionLog
import InferenceQueue.IdempotentSubmission
import InferenceQueue.CoalescingWindow
import InferenceQueue.Heartbeat
import InferenceQueue.LostLease
import InferenceQueue.SubmitResult
import InferenceQueue.OAuthModel
import InferenceQueue.OAuthStates
import InferenceQueue.OAuthAccounts
import InferenceQueue.TierCache
import InferenceQueue.TierChanges
import InferenceQueue.RejectedSubmit
import InferenceQueue.StreamEnds
import InferenceQueue.GenerationProgress
import InferenceQueue.DeliveredText
import InferenceQueue.RecoveryPhases
import InferenceQueue.RecoveryTick
import InferenceQueue.AdmissionExact
import InferenceQueue.AppendLog
import InferenceQueue.ApplicationRun
import InferenceQueue.JobReport
import InferenceQueue.OrderByLimit
import InferenceQueue.QueueWait
import InferenceQueue.RequestKeys
import InferenceQueue.RetryAttempts
import InferenceQueue.Subscription
import InferenceQueue.ClearedEntries
import InferenceQueue.OrphanBatch
import InferenceQueue.Backoff
import InferenceQueue.CountLimits
import InferenceQueue.CreationSteps
import InferenceQueue.GenerateStream
import InferenceQueue.PoolDrain
import InferenceQueue.PoolPanics
import InferenceQueue.ServerText
import InferenceQueue.SubmittedPayload
import InferenceQueue.ClientText
import InferenceQueue.StreamProgress
import InferenceQueue.LeaseTiming
import InferenceQueue.OneWorkerPerJob
import InferenceQueue.QueueOverflow
import InferenceQueue.StreamRetention
import InferenceQueue.TierStaleness
import InferenceQueue.OneRedis
import InferenceQueue.SubmitOutcomes
