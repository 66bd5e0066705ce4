import Custody.Action.Handle
import Custody.Action.Object
import Custody.Action.Setting
import Custody.Address
import Custody.Allocation.Layout
import Custody.Allocation.Quota
import Custody.Allocation.Registry
import Custody.Bindings
import Custody.Configuration.Basic
import Custody.Configuration.Environment
import Custody.Configuring
import Custody.Counting
import Custody.Creation
import Custody.Decimal.Double
import Custody.Decimal.Shortest
import Custody.Fault.Basic
import Custody.Fault.Handling
import Custody.Fault.Policy
import Custody.Heap.Basic
import Custody.Heap.Lemmas
import Custody.Heap.Value
import Custody.Log.Entry
import Custody.Log.Format
import Custody.Log.Json
import Custody.Log.Level
import Custody.Log.Logger
import Custody.Machine.Basic
import Custody.Machine.Budget
import Custody.Machine.Load
import Custody.Machine.Rest
import Custody.Outcome
import Custody.Script.Answer
import Custody.Script.Step
import Custody.Session
import Custody.State
import Custody.Statistics
import Custody.Text.Aligned
import Custody.Text.Classes
import Custody.Text.GraphemeExtend
import Custody.Text.LowerCase
import Custody.Text.Numeral
import Custody.Text.Quoted
import Custody.Text.Shape
import Custody.Text.Unprintable
import Custody.Text.Utf8
import Custody.Proofs.Locking
import Custody.Proofs.Stage
import Custody.Proofs.View
import Custody.Proofs.Operation
import Custody.Proofs.Supply
import Custody.Proofs.Transition
import Custody.Proofs.Course
import Custody.Proofs.LockDiscipline
import Custody.Proofs.Life
import Custody.Proofs.Conservation
import Custody.Proofs.StackDiscipline
import Custody.Proofs.Unwinding
import Custody.Proofs.Ideal
import Custody.Proofs.Refinement
import Custody.Proofs.Writing
import Custody.Proofs.Atomicity
import Custody.Proofs.Owners
import Custody.Proofs.Handling
import Custody.Proofs.HandleSteps
import Custody.Proofs.Cascade
import Custody.Proofs.Books
import Custody.Proofs.Ownership
import Custody.Proofs.Imaging
import Custody.Proofs.Boundary
import Custody.Proofs.Refusal
import Custody.Proofs.PrivateCopies
import Custody.Proofs.Mirroring
import Custody.Proofs.Simulation
import Custody.Proofs.ValueSemantics
import Custody.Proofs.Reachability
import Custody.Proofs.Provenance
import Custody.Proofs.Tally
import Custody.Proofs.Accounts
import Custody.Proofs.Document
import Custody.Proofs.DocumentReader
import Custody.Proofs.JsonLines
import Custody.Proofs.Likeness
import Custody.Proofs.SideBySide
import Custody.Proofs.Reporting
import Custody.Proofs.Threads
import Custody.Proofs.Recounting
import Custody.Proofs.Serving
import Custody.Proofs.OrderIndependence
import Custody.Proofs.Indifference
import Custody.Proofs.Deeds
import Custody.Proofs.Progress
import Custody.Proofs.Coherence
import Custody.Proofs.Exports
import Custody.Proofs.Tracing
import Custody.Proofs.Journal
import Custody.Proofs.NativeCalls
import Custody.Proofs.Agreement
import Custody.Proofs.Ledger
import Custody.Proofs.Encoding
import Custody.Proofs.Quoting
import Custody.Proofs.Variables
import Custody.Proofs.Outlay
import Custody.Proofs.Charging
import Custody.Proofs.Possession
import Custody.Proofs.Detachment
import Custody.Proofs.Effects
import Custody.Proofs.Arrivals
import Custody.Proofs.Solitude
import Custody.Proofs.Independence
import Custody.Proofs.Interchange
import Custody.Proofs.Renumbering
import Custody.Proofs.KeepingApart
import Custody.Proofs.Keywords
import Custody.Proofs.Errands
import Custody.Proofs.Blocking
import Custody.Proofs.Termination
import Custody.Proofs.HandBuilt
import Custody.Proofs.HandBuiltStates
import Custody.Proofs.HandBuiltActions
import Custody.Proofs.HandBuiltSteps
import Custody.Proofs.HandBuiltSessions
