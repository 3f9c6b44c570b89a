import Wilupgu.Lib.Outcome
import Wilupgu.Lib.Call
import Wilupgu.Lib.Transition
import Wilupgu.Lib.Lists
import Wilupgu.Lib.Atomic
import Wilupgu.Lib.Extended
import Wilupgu.Lib.Splice
import Wilupgu.Lib.Rounding
import Wilupgu.Lib.ByteMemory
import Wilupgu.Lib.Places
import Wilupgu.Lib.CommandQueue
import Wilupgu.Backend.Dtype
import Wilupgu.Backend.Shader
import Wilupgu.Backend.Contract
import Wilupgu.Backend.Logged
import Wilupgu.Backend.Pool
import Wilupgu.Backend.Custody
import Wilupgu.Backends.Cpu
import Wilupgu.Error
import Wilupgu.Safe.Rules
import Wilupgu.Safe.Device
import Wilupgu.Safe.World
import Wilupgu.Safe.Scope
import Wilupgu.Safe.Step
import Wilupgu.Safe.Frame
import Wilupgu.Safe.Spec
import Wilupgu.Safe.Valid
import Wilupgu.Safe.Origin
import Wilupgu.Safe.Sizes
import Wilupgu.Safe.Nodes
import Wilupgu.Safe.Checked
import Wilupgu.Safe.Ranges
import Wilupgu.Safe.Elements
import Wilupgu.Safe.Reads
import Wilupgu.Backends.CpuFrame
import Wilupgu.Memory.Heap
import Wilupgu.Memory.Layout
import Wilupgu.Memory.Addresses
import Wilupgu.Memory.Balance
import Wilupgu.Memory.Contents
import Wilupgu.Memory.Lists
import Wilupgu.Capture.Recorded
import Wilupgu.Capture.Notes
import Wilupgu.Capture.Located
import Wilupgu.Capture.Nodes
import Wilupgu.Capture.Slots
import Wilupgu.Capture.Solo
import Wilupgu.Capture.Captured
import Wilupgu.Capture.Refinement
import Wilupgu.Capture.Rested
import Wilupgu.Capture.Isolation
import Wilupgu.Backends.Areas
import Wilupgu.Backends.Wgpu
import Wilupgu.Backends.WgpuOrder
import Wilupgu.Builtins.Table
import Wilupgu.Builtins.Owned
import Wilupgu.Builtins.Laws
import Wilupgu.Builtins.Outputs
import Wilupgu.Builtins.Shaders
import Wilupgu.Builtins.Panics
import Wilupgu.Lib.Simt
import Wilupgu.Lib.Lockstep
import Wilupgu.Builtins.Gpu
import Wilupgu.Builtins.Touches
import Wilupgu.Builtins.Ends
import Wilupgu.Builtins.Widths
import Wilupgu.Builtins.Extra
import Wilupgu.Builtins.Addends
import Wilupgu.Builtins.Elementwise
import Wilupgu.Builtins.Shared
import Wilupgu.Builtins.Tiled
import Wilupgu.Builtins.Products
import Wilupgu.Builtins.Partials
import Wilupgu.Builtins.Totals
import Wilupgu.Plan.Deferred
import Wilupgu.Plan.Slots
import Wilupgu.Plan.Memo
import Wilupgu.Plan.Consistent
import Wilupgu.Plan.Spec
import Wilupgu.Plan.Run
import Wilupgu.Plan.Session
import Wilupgu.Plan.Builder
import Wilupgu.Plan.Building
import Wilupgu.Plan.Owners
import Wilupgu.Plan.Handles
import Wilupgu.Plan.Fill
import Wilupgu.Plan.Undone
import Wilupgu.Plan.Client
import Wilupgu.Plan.Misfit
import Wilupgu.Plan.Apply
import Wilupgu.Plan.Hollow
import Wilupgu.Plan.Reference
import Wilupgu.Plan.Described
import Wilupgu.Plan.Steps
import Wilupgu.Plan.Followed
import Wilupgu.Plan.Use
import Wilupgu.Plan.Uses
import Wilupgu.Plan.Captured
import Wilupgu.Plan.Capturing
import Wilupgu.Plan.Twins
import Wilupgu.Plan.WholeUse
import Wilupgu.Tools.Parity
import Wilupgu.Tools.Seeded
