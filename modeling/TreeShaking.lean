import TreeShaking.Compilation
import TreeShaking.Diagnostic
import TreeShaking.Dispatch.Receiver
import TreeShaking.Dispatch.Selector
import TreeShaking.Exploration.Agenda
import TreeShaking.Exploration.Basic
import TreeShaking.Exploration.Report
import TreeShaking.Exploration.Run
import TreeShaking.Exploration.WorkItem
import TreeShaking.Failure
import TreeShaking.Handle
import TreeShaking.Impact.Basic
import TreeShaking.Impact.Cache
import TreeShaking.Listener.Backend
import TreeShaking.Listener.Basic
import TreeShaking.Listener.Script
import TreeShaking.Names
import TreeShaking.Options
import TreeShaking.Phase
import TreeShaking.Program.Basic
import TreeShaking.Program.Declaration
import TreeShaking.Program.Draft
import TreeShaking.Program.Hierarchy
import TreeShaking.Program.Lookup
import TreeShaking.Table
import TreeShaking.Text.Blank
import TreeShaking.Text.Flags
import TreeShaking.Ty
import TreeShaking.Usage.Class
import TreeShaking.Usage.Flags
import TreeShaking.Usage.Member
import TreeShaking.Use.Basic
import TreeShaking.Use.Kind
import TreeShaking.World.Access
import TreeShaking.World.Basic
import TreeShaking.World.Closed
import TreeShaking.World.Instantiation
import TreeShaking.World.Scope
import TreeShaking.Proofs.Faults
import TreeShaking.Proofs.Inheritance
import TreeShaking.Proofs.MemberUsage
import TreeShaking.Proofs.Account.Basic
import TreeShaking.Proofs.Account.Register
import TreeShaking.Proofs.Account.Enter
import TreeShaking.Proofs.ArrivalOrder
import TreeShaking.Proofs.Hierarchy
import TreeShaking.Proofs.Drafting
import TreeShaking.Proofs.Lookup
import TreeShaking.Proofs.Subtyping
import TreeShaking.Proofs.Representation
import TreeShaking.Proofs.Slots
import TreeShaking.Proofs.ReceiverSets
import TreeShaking.Proofs.Instantiation
import TreeShaking.Proofs.Run.Effect
import TreeShaking.Proofs.Run.Stage
import TreeShaking.Proofs.Run.Books
import TreeShaking.Proofs.Run.Lifecycle
import TreeShaking.Proofs.Run.Classes
import TreeShaking.Proofs.Run.Operations
import TreeShaking.Proofs.Closure.Rules
import TreeShaking.Proofs.Closure.Coverage
import TreeShaking.Proofs.Closure.Soundness
import TreeShaking.Proofs.LeastClosure
import TreeShaking.Proofs.Dispatch
import TreeShaking.Proofs.Containment
import TreeShaking.Proofs.Receivers
import TreeShaking.Proofs.Run.Journal
import TreeShaking.Proofs.Run.Reachable
import TreeShaking.Proofs.AtMostOnce
import TreeShaking.Proofs.Account.Marks
import TreeShaking.Proofs.Run.Records
import TreeShaking.Proofs.Run.Remarks
import TreeShaking.Proofs.QueueOrder
import TreeShaking.Proofs.Answers
import TreeShaking.Proofs.Run.Termination
import TreeShaking.Proofs.Sweep
import TreeShaking.Proofs.Closure.Admission
import TreeShaking.Proofs.Replay
import TreeShaking.Proofs.Release
import TreeShaking.Proofs.RecentClasses
import TreeShaking.Proofs.Halting
import TreeShaking.Proofs.ClassUses
import TreeShaking.Proofs.Growth
import TreeShaking.Proofs.Run.Counts
import TreeShaking.Proofs.Run.Ledger
import TreeShaking.Proofs.Accounting
import TreeShaking.Proofs.ClosedQueue
import TreeShaking.Proofs.Rehearsal
import TreeShaking.Proofs.Retention
import TreeShaking.Proofs.Repetition
import TreeShaking.Proofs.Reapplication
import TreeShaking.Proofs.DirectUses
import TreeShaking.Proofs.Aliases
import TreeShaking.Proofs.TypeText
import TreeShaking.Proofs.Accesses
import TreeShaking.Proofs.Files
import TreeShaking.Proofs.Findings
import TreeShaking.Proofs.CallShapes
import TreeShaking.Proofs.SupportedAccesses
import TreeShaking.Proofs.NameTables
