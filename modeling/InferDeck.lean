import InferDeck.SelectionProgress
import InferDeck.VoiceStandoff
import InferDeck.HeadOfLine
import InferDeck.StreamingSanitizer
import InferDeck.SanitizerStream
import InferDeck.ChunkingIndependence
import InferDeck.BoundedPool
import InferDeck.LlamaCppModel
import InferDeck.PrepareInference
import InferDeck.AdmissionRefinement
import InferDeck.Execution
import InferDeck.SchedulerLoop
import InferDeck.TerminalEvents
import InferDeck.SequenceMemory
import InferDeck.SlotCache
import InferDeck.TaskMemory
import InferDeck.ModelRegistry
import InferDeck.AliasContract
import InferDeck.GenerationSession
import InferDeck.QueueReport
import InferDeck.PrioritySessions
import InferDeck.SessionTokens
import InferDeck.ReclaimIdleContext
import InferDeck.SequenceIdentity
import InferDeck.PromptPositions
import InferDeck.BoundedLoop
import InferDeck.PoolPositions
import InferDeck.PoolContract
import InferDeck.Leases
import InferDeck.Residency
import InferDeck.Threads
import InferDeck.LifecycleFrames
import InferDeck.LifecycleSteps
import InferDeck.SwapSteps
import InferDeck.CoordinatorRuns
import InferDeck.LifecycleChanges
import InferDeck.LeaseChanges
import InferDeck.LeaseLedger
import InferDeck.FrameChanges
import InferDeck.LifecycleInvariant
import InferDeck.AdmissionPools
import InferDeck.ApiKeyStore
import InferDeck.StreamCleanup
import InferDeck.ApiKeyCache
import InferDeck.BackgroundLease
import InferDeck.ConfigRepository
import InferDeck.ConfigContract
import InferDeck.AliasTransaction
import InferDeck.Decoding
import InferDeck.StreamAgreement
import InferDeck.SwapCancel
import InferDeck.MediaHistory
import InferDeck.Retention
import InferDeck.HistoryContract
import InferDeck.ResponsesStream
import InferDeck.ResponsesContract
import InferDeck.Authority
import InferDeck.RouteAuthorizer
import InferDeck.ControlGuard
import InferDeck.SpeechContract
import InferDeck.ProfileBenchmark
import InferDeck.BenchmarkContract
import InferDeck.TokenUsage
import InferDeck.UsageAgreement
import InferDeck.Base64
import InferDeck.Bisection
import InferDeck.ChatHistory
import InferDeck.ContextPoolFit
import InferDeck.Utf8Lossless
import InferDeck.PromptTruncation
import InferDeck.BatchFairness
import InferDeck.OutputLimit
import InferDeck.ContextRebuild
import InferDeck.CapacityContract
import InferDeck.CapacityWaiter
import InferDeck.ConfigSecrets
import InferDeck.SecretFields
import InferDeck.SecretMasking
import InferDeck.SecretRoundTrip
import InferDeck.IntegerContract
import InferDeck.PathConfinement
import InferDeck.SchedulerContract
import InferDeck.StudyContract
import InferDeck.ManifestContract
import InferDeck.SubscriptionContract
import InferDeck.WavContract
import InferDeck.PngContract
import InferDeck.BundleContract
import InferDeck.RequestLedger
import InferDeck.ContinuationHolds
import InferDeck.Poller
import InferDeck.RegistryEntries
import InferDeck.DeadlockFreedom
import InferDeck.ExecutionSafety
import InferDeck.Quiescence
import InferDeck.InstallContract
