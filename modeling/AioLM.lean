import AioLM.Runs
import AioLM.Lists
import AioLM.RelayChunking
import AioLM.AnswerAgreement
import AioLM.ServerState
import AioLM.Routing
import AioLM.LeaseAccounting
import AioLM.PlanAgreement
import AioLM.ArgumentSafety
import AioLM.CommandImport
import AioLM.StoredOptions
import AioLM.MultipartRoundTrip
import AioLM.ConversationReplay
import AioLM.AnthropicInput
import AioLM.GgufFacts
import AioLM.HelpPublication
import AioLM.ConversationCrash
import AioLM.OutboxBindings
import AioLM.SharingRevocation
import AioLM.ToolCallSafety
import AioLM.Overlay
import AioLM.ServerArguments
import AioLM.CommandCapture
import AioLM.CaptureAgreement
import AioLM.RegistryHistory
import AioLM.ChatHistoryRuns
import AioLM.ProfileUpdates
import AioLM.SnapshotRuns
import AioLM.BenchmarkImport
import AioLM.JsonText
import AioLM.ProcessOutput
import AioLM.ContextMemory
import AioLM.SseFramer
import AioLM.GgufDescriptor
import AioLM.CommandSplit
import AioLM.CommandAssembly
import AioLM.OrderReplay
import AioLM.OptionCatalog
import AioLM.RawArguments
import AioLM.PayloadSize
import AioLM.FactsCache
import AioLM.MemorySplit
import AioLM.LogRedaction
import AioLM.HelpListing
import AioLM.PortablePaths
import AioLM.ProfileSnapshot
import AioLM.ShardPlans
import AioLM.ShardGroups
import AioLM.GpuRemap
import AioLM.Paging
import AioLM.OwnerMigrationRuns
import AioLM.OwnerListing
import AioLM.BenchmarkRows
import AioLM.AppOffers
import AioLM.RequestAdaptation
import AioLM.PartSpellings
import AioLM.InstallerDownload
import AioLM.JsonPretty
import AioLM.McpServers
import AioLM.McpServerRuns
import AioLM.ChatHydration
import AioLM.DocumentContext
import AioLM.ChatTrimming
import AioLM.ChatTrimmingRuns
import AioLM.Utf16
import AioLM.Base64Url
import AioLM.RecoveryCodes
import AioLM.TreeCopy
import AioLM.HomeMigration
import AioLM.HomeMigrationRuns
import AioLM.ModelUpdates
import AioLM.ModelUpdateRuns
import AioLM.SentMessages
