import QiForge.DoVfsRollback
import QiForge.TierEvictionRun
import QiForge.SnapshotStreams
import QiForge.TierObjectsRun
import QiForge.SqliteSaverReadBack
import QiForge.ReplaySafety
import QiForge.ToolSchedulerDrains
import QiForge.RunStreamDelivery
import QiForge.ToolMarksResume
import QiForge.RunJoin
import QiForge.RunCoordinatorSafety
import QiForge.TranscriptClient
import QiForge.InteractionAnswers
import QiForge.RepetitionCaps
import QiForge.FrontendCallsRuns
import QiForge.OwnerStoreRuns
import QiForge.ClaimProcessingOnce
import QiForge.ArtifactRuns
import QiForge.FeedbackRuns
import QiForge.HistoryIndexerRuns
import QiForge.FullSweep
import QiForge.StreamImportSafety
import QiForge.ColdMissRetry
import QiForge.BlobCodec
import QiForge.ResourceAuthority
import QiForge.ResultStoreSafety
import QiForge.SseResume
import QiForge.RunRecoverySafety
import QiForge.ResourceCoverage
import QiForge.ContextTruth
import QiForge.DelegationVerified
import QiForge.ReplyPlanCaps
import QiForge.ReplyPlanContinuation
import QiForge.TurnFramesWellFormed
import QiForge.TransferExact
import QiForge.GroupMemoryRuns
import QiForge.CronFloor
import QiForge.TopicGrantsExact
import QiForge.VerificationStops
import QiForge.TopicHistory
import QiForge.TusUploadExact
import QiForge.DocWriteRuns
import QiForge.HubActionRuns
import QiForge.AsksConnectionRuns
import QiForge.CreditRepair
import QiForge.UserKvCalls
