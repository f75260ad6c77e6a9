import WorkflowEngine.Lib.OrderedMap
import WorkflowEngine.Lib.Transition
import WorkflowEngine.Lib.Lanes
import WorkflowEngine.Lib.ListIndex
import WorkflowEngine.Lib.Text
import WorkflowEngine.Lib.JsonText
import WorkflowEngine.Lib.JsValue
import WorkflowEngine.Lib.JsObject
import WorkflowEngine.Lib.Fallible
import WorkflowEngine.Lib.FetchHeaders
import WorkflowEngine.Lib.ReadableStream
import WorkflowEngine.Lib.Behaviour
import WorkflowEngine.Lib.Scan
import WorkflowEngine.Lib.Kahn
import WorkflowEngine.Sandbox.Protocol
import WorkflowEngine.Sandbox.Bridge
import WorkflowEngine.Sandbox.RunSequencer
import WorkflowEngine.Sandbox.WorkerRuns
import WorkflowEngine.Sandbox.CallPairing
import WorkflowEngine.Sandbox.RunClock
import WorkflowEngine.Sandbox.WorkerTermination
import WorkflowEngine.Sandbox.RunDispatch
import WorkflowEngine.Sandbox.DeathCause
import WorkflowEngine.Sandbox.WorkerRestore
import WorkflowEngine.Sandbox.HostCalls
import WorkflowEngine.Sandbox.OutputBytes
import WorkflowEngine.Sandbox.PendingCallables
import WorkflowEngine.Sandbox.CallableHandles
import WorkflowEngine.Sandbox.PluginBoot
import WorkflowEngine.Sandbox.CuratedErrors
import WorkflowEngine.Sandbox.SqlDispatcher
import WorkflowEngine.Sandbox.MailDispatcher
import WorkflowEngine.Sandbox.DispatcherErrors
import WorkflowEngine.Sandbox.TopoSort
import WorkflowEngine.Sandbox.ConfigGraph
import WorkflowEngine.Sandbox.FetchResponse
import WorkflowEngine.Sandbox.GuestBody
import WorkflowEngine.Sandbox.NetGuard
import WorkflowEngine.Sandbox.HardenedFetch
import WorkflowEngine.Sandbox.RunScopedHandles
import WorkflowEngine.Sdk.Bundle
import WorkflowEngine.Runtime.EventStore
import WorkflowEngine.Runtime.EventStoreDrain
import WorkflowEngine.Runtime.EventStoreTerminal
import WorkflowEngine.Runtime.SecretsScrubber
import WorkflowEngine.Runtime.PluginRun
import WorkflowEngine.Runtime.Invocation
import WorkflowEngine.Runtime.Executor
import WorkflowEngine.Runtime.RunDurations
import WorkflowEngine.Runtime.TriggerFrame
import WorkflowEngine.Runtime.CommittedLayout
import WorkflowEngine.Runtime.EventRows
import WorkflowEngine.Runtime.Manifest
import WorkflowEngine.Runtime.SandboxStore
import WorkflowEngine.Runtime.SandboxStoreCoherence
import WorkflowEngine.Runtime.SandboxStoreEviction
import WorkflowEngine.Runtime.SandboxStoreSweep
import WorkflowEngine.Runtime.SandboxStoreLifecycle
import WorkflowEngine.Runtime.OwnerRepoState
import WorkflowEngine.Runtime.QueueStore
import WorkflowEngine.Runtime.QueueHost
import WorkflowEngine.Runtime.QueueErrors
import WorkflowEngine.Runtime.WorkflowRegistry
import WorkflowEngine.Runtime.WorkflowRecovery
import WorkflowEngine.Runtime.TriggerEntries
import WorkflowEngine.Runtime.TriggerUrls
import WorkflowEngine.Runtime.TriggerRouting
import WorkflowEngine.Runtime.UploadEvents
import WorkflowEngine.Runtime.WorkflowUpload
import WorkflowEngine.Runtime.WorkflowEnv
import WorkflowEngine.Runtime.SecretsPlugin
import WorkflowEngine.Runtime.ScrubbedProtocol
import WorkflowEngine.Runtime.WsConnection
import WorkflowEngine.Runtime.CronSource
import WorkflowEngine.Runtime.CronRuns
import WorkflowEngine.Runtime.CronConfinement
import WorkflowEngine.Runtime.ImapSource
import WorkflowEngine.Runtime.ImapSteps
import WorkflowEngine.Runtime.ImapExclusive
import WorkflowEngine.Runtime.ImapDisposal
import WorkflowEngine.Runtime.ImapFormerClients
import WorkflowEngine.Runtime.ImapNotifications
import WorkflowEngine.Runtime.Flamegraph
import WorkflowEngine.Lib.FirstFit
import WorkflowEngine.Runtime.FlamegraphLayout
import WorkflowEngine.Runtime.ImapMessage
import WorkflowEngine.Runtime.QueueReconcile
import WorkflowEngine.Runtime.FsStorage
import WorkflowEngine.Runtime.SecretSentinels
import WorkflowEngine.Sandbox.SqlRows
import WorkflowEngine.Runtime.StripMarkers
import WorkflowEngine.Sandbox.PostPipeline
import WorkflowEngine.Sandbox.FetchErrors
import WorkflowEngine.Lib.IsoTime
import WorkflowEngine.Lib.WriteChain
import WorkflowEngine.Runtime.EventPrune
import WorkflowEngine.Runtime.UploadHandler
import WorkflowEngine.Lib.FormUrlEncoded
import WorkflowEngine.Sandbox.UrlSearchParams
import WorkflowEngine.Lib.SourceEdits
import WorkflowEngine.Sdk.FactorySources
import WorkflowEngine.Sdk.ObjectLiteral
import WorkflowEngine.Sdk.FactoryTransforms
import WorkflowEngine.Lib.Utf16
import WorkflowEngine.Sandbox.TextEncoderStream
import WorkflowEngine.Lib.Utf8Decode
import WorkflowEngine.Sandbox.WasiFdWrite
import WorkflowEngine.Sandbox.HostErrors
import WorkflowEngine.Sandbox.Timers
import WorkflowEngine.Lib.Grouping
import WorkflowEngine.Runtime.AuthAllow
import WorkflowEngine.Lib.UrlReference
import WorkflowEngine.Runtime.AuthReturnTo
import WorkflowEngine.Runtime.AuthServer
import WorkflowEngine.Runtime.AuthSessions
import WorkflowEngine.Lib.FirstRows
import WorkflowEngine.Runtime.OperatorScopes
import WorkflowEngine.Runtime.InvocationRows
import WorkflowEngine.Runtime.SidebarTree
import WorkflowEngine.Runtime.OperatorPages
import WorkflowEngine.Runtime.OperatorNavigation
import WorkflowEngine.Runtime.KeyRing
import WorkflowEngine.Runtime.KeyRotation
import WorkflowEngine.Runtime.ActionDispatch
import WorkflowEngine.Runtime.TriggerFire
