import HelixRack.Machine
import HelixRack.Simulation
import HelixRack.Histories
import HelixRack.Checks
import HelixRack.Incremental
import HelixRack.RustStr
import HelixRack.Handler
import HelixRack.Response
import HelixRack.Connection
import HelixRack.ReadBuffer
import HelixRack.Boundaries
import HelixRack.GrownBuffer
import HelixRack.Caps
import HelixRack.Framing
import HelixRack.Finished
import HelixRack.CheckedLoop
import HelixRack.Lines
import HelixRack.Client
import HelixRack.ContentLength
import HelixRack.Sync
import HelixRack.KeepAlive
import HelixRack.Bodiless
import HelixRack.HeadLines
import HelixRack.OpenEnded
import HelixRack.Reference
import HelixRack.Segmentation
import HelixRack.ReadLoop
import HelixRack.ReadBody
import HelixRack.StreamedBody
import HelixRack.RackEnv
import HelixRack.RackResponse
import HelixRack.Counter
import HelixRack.Serve
import HelixRack.Isolation
import HelixRack.Endings
import HelixRack.Growth
import HelixRack.CombineWrite
import HelixRack.ServeNative
import HelixRack.Signals
import HelixRack.Shutdown
import HelixRack.Program
import HelixRack.Lifecycle
import HelixRack.Watchdog
import HelixRack.Preemption
import HelixRack.RackServer
