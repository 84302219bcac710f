import LlmRelay.Hedge.RaceSafety
import LlmRelay.Candidates.WalkSafety
import LlmRelay.Streams.CommitProvenance
import LlmRelay.Streams.ThinkTags
import LlmRelay.Dialects.Conservation
import LlmRelay.Dialects.StreamLossless
import LlmRelay.Dialects.ChatTransparency
import LlmRelay.Dialects.RecoveryAgreement
import LlmRelay.Breaker.Isolation
import LlmRelay.Facts.Clearing
import LlmRelay.Jobs.HandleKept
import LlmRelay.Pacing.Guarantee
import LlmRelay.Messages.RequestConservation
import LlmRelay.Messages.ResponsesConservation
import LlmRelay.Usage.StreamedText
import LlmRelay.Usage.ChunkInvariance
import LlmRelay.Storage.LockProgress
import LlmRelay.Streams.ToolUseIdStream
import LlmRelay.Messages.SseRoundTrip
import LlmRelay.Pacing.WindowCount
import LlmRelay.Breaker.CooldownLength
import LlmRelay.Ping.Cadence
import LlmRelay.Ping.ProbeCache
import LlmRelay.Catalog.Refresh
import LlmRelay.Dashboard.Capabilities
import LlmRelay.Reload.Exactness
import LlmRelay.Accounting.WindowReading
import LlmRelay.Refusals.VerdictsKept
import LlmRelay.Candidates.RankingKept
import LlmRelay.Quota.HardCap
import LlmRelay.Quota.LearnedLimits
import LlmRelay.Config.OffloadToggle
import LlmRelay.Pools.PoolLayout
import LlmRelay.Dispatch.LanePlans
import LlmRelay.Messages.DoubleEncoding
import LlmRelay.Messages.StableStringify
import LlmRelay.Config.DeclaredSpecs
import LlmRelay.Refusals.SignatureStability
import LlmRelay.Config.PathEdits
import LlmRelay.Dispatch.LaneStats
import LlmRelay.Dispatch.ReadOnly
import LlmRelay.Keystore.Export
import LlmRelay.Accounting.CellAlgebra
import LlmRelay.Accounting.RequestState
import LlmRelay.Update.VersionOrder
import LlmRelay.Onboarding.KeyImport
import LlmRelay.Sessions.StickySession
import LlmRelay.Jobs.TreeDelta
import LlmRelay.Dispatch.SpendingBound
