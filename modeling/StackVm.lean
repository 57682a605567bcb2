import StackVm.Numeric.Binary64
import StackVm.Numeric.Shortest
import StackVm.Numeric.FloatText
import StackVm.Exception.Class
import StackVm.Operator
import StackVm.Numeric.Arith
import StackVm.Text.Quote
import StackVm.Value.Basic
import StackVm.Code.Opcode
import StackVm.Code.Flags
import StackVm.Code.Error
import StackVm.Code.Handler
import StackVm.Code.Unit
import StackVm.Code.Validate
import StackVm.Code.Builder
import StackVm.Code.Assembly
import StackVm.Loop.Info
import StackVm.Loop.Compiled
import StackVm.Store.Object
import StackVm.Store.Heap
import StackVm.Machine.Profile
import StackVm.Machine.Basic
import StackVm.Value.Kind
import StackVm.Value.Repr
import StackVm.Value.Equality
import StackVm.Value.Hash
import StackVm.Ops.Arith
import StackVm.Ops.Compare
import StackVm.Ops.Access
import StackVm.Text.Blank
import StackVm.Text.Read
import StackVm.Wire.Doc
import StackVm.Wire.Json
import StackVm.Wire.Spec
import StackVm.Wire.Encode
import StackVm.Interp.Act
import StackVm.Interp.Chain
import StackVm.Interp.Site
import StackVm.Interp.Kit
import StackVm.Interp.Loop
import StackVm.Interp.Function
import StackVm.Interp.Step
import StackVm.Interp.Run
import StackVm.Machine.Setup
import StackVm.Wire.Place
import StackVm.Machine.Env
import StackVm.Wire.Serve
import StackVm.Proofs.Loop.Region
import StackVm.Proofs.Machine.Store
import StackVm.Proofs.Activation.Blind
import StackVm.Proofs.Loop.Interpreted
import StackVm.Proofs.Ops.Immediate
import StackVm.Proofs.Loop.Simulation
import StackVm.Proofs.Engine.Activation
import StackVm.Proofs.Engine.Operation
import StackVm.Proofs.Steady.Engine
import StackVm.Proofs.Activation.Search
import StackVm.Proofs.Activation.Traceback
import StackVm.Proofs.Activation.Unwinding
import StackVm.Proofs.Activation.Depth
import StackVm.Proofs.Activation.Context
import StackVm.Proofs.Ops.Integer
import StackVm.Proofs.Activation.Dispatch
import StackVm.Proofs.Value.Number
import StackVm.Proofs.Value.Hash
import StackVm.Proofs.Value.Nesting
import StackVm.Proofs.Value.Order
import StackVm.Proofs.Value.Containers
import StackVm.Proofs.Ops.Items
import StackVm.Proofs.Code.Ranges
import StackVm.Proofs.Retains.Machine
import StackVm.Proofs.Retains.Step
import StackVm.Proofs.Retains.Engine
import StackVm.Proofs.Generator.Close
import StackVm.Proofs.Function.Binding
import StackVm.Proofs.Builder.Session
import StackVm.Proofs.Builder.Jumps
import StackVm.Proofs.Builder.Pools
import StackVm.Proofs.Builder.Indices
import StackVm.Proofs.Builder.Lines
import StackVm.Proofs.Ops.Range
import StackVm.Proofs.Activation.Leaving
import StackVm.Proofs.Activation.Handled
import StackVm.Proofs.Activation.Height
import StackVm.Proofs.Activation.Room
import StackVm.Proofs.Activation.Walk
import StackVm.Proofs.Builder.Straight
import StackVm.Proofs.Loop.Records
import StackVm.Proofs.Loop.Polling
import StackVm.Proofs.Loop.Lifecycle
import StackVm.Proofs.Engine.Caches
import StackVm.Proofs.Engine.Calls
import StackVm.Proofs.Engine.Exceptions
import StackVm.Proofs.Engine.Functions
import StackVm.Proofs.Engine.Handlers
import StackVm.Proofs.Engine.Loops
import StackVm.Proofs.Engine.Frames
import StackVm.Proofs.Engine.Kits
import StackVm.Proofs.Engine.Requests
import StackVm.Proofs.Engine.Sessions
import StackVm.Proofs.Loop.Reachable
import StackVm.Proofs.Generator.States
