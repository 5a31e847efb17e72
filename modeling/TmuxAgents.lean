import TmuxAgents.Lib.Choose
import TmuxAgents.Lib.Run
import TmuxAgents.Program.Record
import TmuxAgents.Program.Store
import TmuxAgents.Program.Project
import TmuxAgents.Program.StoreFacts
import TmuxAgents.Program.StoreInvariant
import TmuxAgents.Program.ProjectFacts
import TmuxAgents.Program.Presentation
import TmuxAgents.Program.Eligibility
import TmuxAgents.Program.Authority
import TmuxAgents.Program.Episode
import TmuxAgents.Program.Aggregate
import TmuxAgents.Program.Foreign
import TmuxAgents.Program.Parse
import TmuxAgents.Control.Terminal
import TmuxAgents.Control.Resync
import TmuxAgents.Control.Protocol
import TmuxAgents.Control.ProtocolFacts
import TmuxAgents.Control.Turn
import TmuxAgents.Control.Steps
import TmuxAgents.Control.Accounts
import TmuxAgents.Control.Pane
import TmuxAgents.Control.Epochs
import TmuxAgents.Control.Constructs
import TmuxAgents.Control.Boundary
import TmuxAgents.Runtime.Program
import TmuxAgents.Runtime.Batch
import TmuxAgents.Runtime.Estimate
import TmuxAgents.Runtime.Moves
import TmuxAgents.Runtime.Calls
import TmuxAgents.Runtime.Observe
import TmuxAgents.Runtime.Runs
import TmuxAgents.Runtime.Histories
import TmuxAgents.Runtime.Order
import TmuxAgents.Dispatch.Slots
import TmuxAgents.Dispatch.SlotFacts
import TmuxAgents.Dispatch.SlotRuns
import TmuxAgents.Dispatch.SlotReceipts
import TmuxAgents.Dispatch.Lock
import TmuxAgents.Dispatch.LockRuns
import TmuxAgents.Persist.Metadata
import TmuxAgents.Persist.Footprint
import TmuxAgents.Persist.Transaction
import TmuxAgents.Lib.Swap
import TmuxAgents.Persist.TransactionRuns
import TmuxAgents.Fold.Evidence
import TmuxAgents.Fold.Verdict
import TmuxAgents.Fold.HookClaims
import TmuxAgents.Fold.Engine
import TmuxAgents.Fold.Quiet
import TmuxAgents.Persist.Publication
import TmuxAgents.Runtime.Publication
import TmuxAgents.Persist.PublicationFacts
import TmuxAgents.Runtime.Announcements
import TmuxAgents.Ipc.Frame
import TmuxAgents.Persist.Lease
import TmuxAgents.Persist.Collector
import TmuxAgents.Persist.CollectorRuns
import TmuxAgents.Ipc.FrameFacts
import TmuxAgents.Lib.Format
import TmuxAgents.Persist.Render
import TmuxAgents.Persist.RenderFacts
import TmuxAgents.Control.Decoder
import TmuxAgents.Control.DecoderFacts
import TmuxAgents.Control.Pause
import TmuxAgents.Lib.Codec
import TmuxAgents.Persist.Codecs
import TmuxAgents.Lib.Lines
import TmuxAgents.Transcript.Event
import TmuxAgents.Transcript.Reader
import TmuxAgents.Transcript.Lines
import TmuxAgents.Transcript.Tail
import TmuxAgents.Transcript.Paging
import TmuxAgents.Dispatch.Broker
import TmuxAgents.Dispatch.Firing
import TmuxAgents.Lib.Recency
import TmuxAgents.Program.RecordMap
import TmuxAgents.Program.Selection
import TmuxAgents.Control.Frames
import TmuxAgents.Lib.Base64
import TmuxAgents.Program.Frame
import TmuxAgents.Program.Encode
import TmuxAgents.Dispatch.HookLane
import TmuxAgents.Dispatch.HookLaneRuns
import TmuxAgents.Serve.Device
import TmuxAgents.Serve.Store
import TmuxAgents.Serve.StoreRuns
import TmuxAgents.Serve.Connection
import TmuxAgents.Serve.ConnectionRuns
import TmuxAgents.Serve.Protocol
import TmuxAgents.Serve.Session
import TmuxAgents.Serve.SessionRuns
import TmuxAgents.Install.JsonValue
import TmuxAgents.Control.Payload
import TmuxAgents.Lib.Reach
import TmuxAgents.Runtime.ProcessTree
import TmuxAgents.Dispatch.SlotText
import TmuxAgents.Dispatch.SlotTextFacts
import TmuxAgents.Install.Hooks
import TmuxAgents.Install.JsonRoundTrip
import TmuxAgents.Install.HooksFacts
import TmuxAgents.Install.UserHooks
import TmuxAgents.Install.Statusline
import TmuxAgents.Install.RoundTrip
import TmuxAgents.Transcript.FirstPage
import TmuxAgents.Lib.Json
import TmuxAgents.Transcript.Json
import TmuxAgents.Transcript.JsonFacts
import TmuxAgents.Transcript.JsonGrammar
import TmuxAgents.Payload.Field
import TmuxAgents.Payload.FieldFacts
import TmuxAgents.Payload.CallId
import TmuxAgents.Lib.JsonBrackets
import TmuxAgents.Payload.CallIdFacts
import TmuxAgents.Persist.Quoting
import TmuxAgents.Ui.Ansi
import TmuxAgents.Runtime.Repo
import TmuxAgents.Runtime.RepoCost
import TmuxAgents.Ui.Group
import TmuxAgents.Ui.GroupFacts
import TmuxAgents.Ui.ListView
import TmuxAgents.Ui.Picker
import TmuxAgents.Ui.Watch
import TmuxAgents.Ui.ListFacts
import TmuxAgents.Ui.PickerFacts
import TmuxAgents.Ui.WatchFacts
import TmuxAgents.Ui.Highlight
import TmuxAgents.Lib.Pairing
import TmuxAgents.Ui.Jump
import TmuxAgents.Lib.Lossy
import TmuxAgents.Payload.Telemetry
import TmuxAgents.Runtime.Rollout
import TmuxAgents.Runtime.RolloutScan
import TmuxAgents.Persist.Advisory
import TmuxAgents.Install.Reinstall
import TmuxAgents.Runtime.HookEvent
import TmuxAgents.Runtime.HookFacts
import TmuxAgents.Runtime.HookRuns
import TmuxAgents.Lib.History
import TmuxAgents.Runtime.Capture
import TmuxAgents.Runtime.CaptureFacts
import TmuxAgents.Runtime.CaptureRuns
import TmuxAgents.Runtime.Demotion
import TmuxAgents.Lib.BufRead
import TmuxAgents.Serve.Wire
import TmuxAgents.Serve.Framing
import TmuxAgents.Program.Ownership
import TmuxAgents.Transcript.CursorText
import TmuxAgents.Transcript.Kind
import TmuxAgents.Transcript.Body
import TmuxAgents.Control.Clients
import TmuxAgents.Daemon.Deadlines
import TmuxAgents.Notify.Bells
import TmuxAgents.Install.Keys
import TmuxAgents.Lib.KeyedDiff
import TmuxAgents.Lib.Window
import TmuxAgents.Control.Probe
import TmuxAgents.Runtime.Events
import TmuxAgents.Runtime.Wait
import TmuxAgents.Lib.Http
import TmuxAgents.Dispatch.Http
import TmuxAgents.Dispatch.ApiRequest
import TmuxAgents.Daemon.Delivery
import TmuxAgents.Runtime.WindowName
import TmuxAgents.Daemon.WindowNames
