import MyCursor.StoreOwnership
import MyCursor.Injections
import MyCursor.PublishedHistory
import MyCursor.UsageAnchor
import MyCursor.EditSchedule
import MyCursor.UpstreamRoutes
import MyCursor.Admissions
import MyCursor.PendingRound
import MyCursor.UsageTotals
import MyCursor.CompactedInput
import MyCursor.RequestPrefixes
import MyCursor.ContextLoads
import MyCursor.NetworkStreams
import MyCursor.BuiltinPlugins
import MyCursor.StatisticsStorage
import MyCursor.PluginWorker
import MyCursor.OAuthSessions
import MyCursor.AccountExport
import MyCursor.CloudCodeContents
import MyCursor.KnowledgeSync
import MyCursor.ByokTurns
import MyCursor.Federation
import MyCursor.WebFetch
import MyCursor.KnowledgeMirror
import MyCursor.ToolNames
import MyCursor.TypeResolution
import MyCursor.FieldNumbers
import MyCursor.EndpointFailover
import MyCursor.CallRecorder
import MyCursor.ModelImport
import MyCursor.Overviews
import MyCursor.CallIds
import MyCursor.ToolSchemas
import MyCursor.Rerank
import MyCursor.SymbolLookup
import MyCursor.UniqueEdits
import MyCursor.DerivedTodos
import MyCursor.GrepGate
import MyCursor.McpGate
import MyCursor.UsageBreakdown
import MyCursor.EditPreview
import MyCursor.CompactionWindow
import MyCursor.SummaryArchive
import MyCursor.ShellGate
import MyCursor.VirtualList
