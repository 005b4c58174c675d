import WasmHost.Core.CapturedOutput
import WasmHost.Core.DeviceWrites
import WasmHost.Core.EventBus
import WasmHost.Core.ExecutableRegistry
import WasmHost.Core.HostileFrames
import WasmHost.Http.RequestBodyReader
import WasmHost.Http.ResponseCuts
import WasmHost.Http.StreamedResponse
import WasmHost.Sdk.SnapshotRoundTrip
import WasmHost.Tool.CallAnswers
import WasmHost.Wasi.DirectoryPages
import WasmHost.Wasi.GuestPaths
import WasmHost.Wasi.HostExceptions
import WasmHost.Wasi.ImportScan
import WasmHost.Wasi.MountComposition
import WasmHost.Wasi.PipeStream
import WasmHost.Wasi.PollReadiness
import WasmHost.Wasi.ProcessTable
import WasmHost.Wasi.RightsChecks
import WasmHost.Wasi.StringLists
import WasmHost.Wasi.VforkReturn
import WasmHost.Web.ByteQueue
import WasmHost.Web.ExecArguments
import WasmHost.Web.ExecOutput
import WasmHost.Web.GatewayCuts
import WasmHost.Web.HttpAnswers
import WasmHost.Web.LoopbackSocket
import WasmHost.Web.ModelStreams
import WasmHost.Web.PackageLookups
import WasmHost.Web.RpcMatching
import WasmHost.Web.TerminalReports
import WasmHost.Web.TokenOwnership
import WasmHost.Web.TurnLifecycles
import WasmHost.Web.WebcMount
import WasmHost.Web.WorkspaceEdit
import WasmHost.Workspace.PhantomChanges
import WasmHost.Workspace.SnapshotRoundTrip
