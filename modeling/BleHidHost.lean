import BleHidHost.Lib.Bits
import BleHidHost.Lib.Overlay
import BleHidHost.Lib.Recorder
import BleHidHost.Lib.Run
import BleHidHost.Lib.Callback
import BleHidHost.Lib.Relational
import BleHidHost.Lib.Log
import BleHidHost.Lib.Chronicle
import BleHidHost.Lib.Ledger
import BleHidHost.Lib.Calls
import BleHidHost.Lib.Reduction
import BleHidHost.Lib.Courses
import BleHidHost.Lib.LossyTap
import BleHidHost.Lib.Sightings
import BleHidHost.Lib.SaveStack
import BleHidHost.Lib.Checked
import BleHidHost.Lib.Traced
import BleHidHost.Report
import BleHidHost.Item
import BleHidHost.Parser
import BleHidHost.CheckedParser
import BleHidHost.Recording
import BleHidHost.CheckedRun
import BleHidHost.BitStreams
import BleHidHost.Coherence
import BleHidHost.RelativeAxes
import BleHidHost.Nesting
import BleHidHost.Encoding
import BleHidHost.Extension
import BleHidHost.Blocks
import BleHidHost.Composite
import BleHidHost.Usable
import BleHidHost.Decode
import BleHidHost.DecodeTrace
import BleHidHost.Rounds
import BleHidHost.LayoutBounds
import BleHidHost.Placement
import BleHidHost.KeyboardDecode
import BleHidHost.Declared
import BleHidHost.UsageRuns
import BleHidHost.DeclarationOrder
import BleHidHost.ButtonRuns
import BleHidHost.Balance
import BleHidHost.PushPop
import BleHidHost.MouseDescriptor
import BleHidHost.RoundTrip
import BleHidHost.HostDevice
import BleHidHost.ButtonState
import BleHidHost.Central
import BleHidHost.Discovery
import BleHidHost.Connection
import BleHidHost.Slicing
import BleHidHost.Capacity
import BleHidHost.OneStay
import BleHidHost.Shifts
import BleHidHost.System
import BleHidHost.Rules
import BleHidHost.PipelineRules
import BleHidHost.Scanning
import BleHidHost.Requests
import BleHidHost.Advertising
import BleHidHost.Sequence
import BleHidHost.Liveness
import BleHidHost.Isolation
import BleHidHost.Labels
import BleHidHost.Serial
import BleHidHost.Receipts
import BleHidHost.PointerReports
import BleHidHost.HostEvents
import BleHidHost.WheelTaps
import BleHidHost.HostRuns
import BleHidHost.Updates
import BleHidHost.WholeReports
import BleHidHost.Motion
import BleHidHost.Telling
import BleHidHost.Probe
import BleHidHost.Tables
import BleHidHost.Wiring
import BleHidHost.WiringRun
import BleHidHost.Completion
import BleHidHost.Showing
import BleHidHost.Attribution
import BleHidHost.Reassembly
import BleHidHost.Fresh
import BleHidHost.Reconnect
import BleHidHost.Effort
import BleHidHost.Recovery
import BleHidHost.Cooldown
