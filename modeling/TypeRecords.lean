import TypeRecords.Stage
import TypeRecords.Layout
import TypeRecords.Arena
import TypeRecords.Fault
import TypeRecords.Witness
import TypeRecords.Ledger
import TypeRecords.Dependency.Search
import TypeRecords.Dependency.Chain
import TypeRecords.Store
import TypeRecords.Library
import TypeRecords.Machine.Caching
import TypeRecords.Machine.Completing
import TypeRecords.Machine.Step
import TypeRecords.Machine.Run
import TypeRecords.Scenario.Syntax
import TypeRecords.Scenario.Blocks
import TypeRecords.Scenario.Eval
import TypeRecords.Scenario.Perform
import TypeRecords.Scenario.Process
import TypeRecords.Proofs.Store.Naming
import TypeRecords.Proofs.Ownership.Hold
import TypeRecords.Proofs.Ownership.Keeping
import TypeRecords.Proofs.Ownership.Shift
import TypeRecords.Proofs.Ownership.Step
import TypeRecords.Proofs.Process.Run
import TypeRecords.Proofs.Ownership.Process
import TypeRecords.Proofs.Ownership.Single
import TypeRecords.Proofs.Ownership.Advance
import TypeRecords.Proofs.Ownership.Final
import TypeRecords.Proofs.Ownership.Pairing
import TypeRecords.Proofs.Process.Plain
import TypeRecords.Proofs.Process.Frames
import TypeRecords.Proofs.Waiting.Chain
import TypeRecords.Proofs.Waiting.Stranded
import TypeRecords.Proofs.Waiting.Cycles
import TypeRecords.Proofs.Waiting.Rings
import TypeRecords.Proofs.Waiting.Leading
import TypeRecords.Proofs.Waiting.Nesting
import TypeRecords.Proofs.Waiting.Quiescence
import TypeRecords.Proofs.Waiting.Progress
import TypeRecords.Proofs.Process.Handing
import TypeRecords.Proofs.Waiting.Answers
import TypeRecords.Proofs.Process.Scenario
import TypeRecords.Proofs.Finishing.Search
import TypeRecords.Proofs.Finishing.Shut
import TypeRecords.Proofs.Finishing.Concluding
import TypeRecords.Proofs.Finishing.Transitive
import TypeRecords.Proofs.Process.Alone
import TypeRecords.Proofs.Waiting.Mirroring
import TypeRecords.Proofs.Waiting.Modes
import TypeRecords.Proofs.Waiting.Reentrance
import TypeRecords.Proofs.Waiting.Dropping
import TypeRecords.Proofs.Requests.Serving
import TypeRecords.Proofs.Requests.Returning
import TypeRecords.Proofs.Requests.Identity
import TypeRecords.Proofs.Fields.Terms
import TypeRecords.Proofs.Fields.Placing
import TypeRecords.Proofs.Fields.Walking
import TypeRecords.Proofs.Fields.Stepping
import TypeRecords.Proofs.Fields.Known
import TypeRecords.Proofs.Fields.Promises
import TypeRecords.Proofs.Fields.Passing
import TypeRecords.Proofs.Fields.Siting
import TypeRecords.Proofs.Fields.Layouts
import TypeRecords.Proofs.Fields.Clearing
import TypeRecords.Proofs.Fields.Tracking
import TypeRecords.Proofs.Fields.Substituting
import TypeRecords.Proofs.Fields.Settling
import TypeRecords.Proofs.Layout.Rounding
import TypeRecords.Proofs.Arena.Tenancy
import TypeRecords.Proofs.Requests.Strangers
import TypeRecords.Proofs.Process.Chronicle
import TypeRecords.Proofs.Foreign.Founding
import TypeRecords.Proofs.Finishing.Reaching
import TypeRecords.Proofs.Waiting.Following
import TypeRecords.Proofs.Ledger.Exact
import TypeRecords.Proofs.Conforming.Tables
import TypeRecords.Proofs.Layout.Sequential
import TypeRecords.Proofs.Finishing.Elements
import TypeRecords.Proofs.Conforming.Precedence
import TypeRecords.Proofs.Resuming.Outcome
import TypeRecords.Proofs.Arena.Reuse
import TypeRecords.Proofs.Arena.Accepted
import TypeRecords.Proofs.Fault.Cutting
import TypeRecords.Proofs.Fault.Spelling
