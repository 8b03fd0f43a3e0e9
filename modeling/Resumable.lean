import Resumable.Options
import Resumable.Run.Answer
import Resumable.Run.Operations
import Resumable.Script.Scenario
import Resumable.Storage.Dict
import Resumable.Proofs.Run.Alike
import Resumable.Proofs.Run.Standing
import Resumable.Proofs.Run.Coherence
import Resumable.Proofs.Value.Related
import Resumable.Proofs.Run.Admission
import Resumable.Proofs.Run.Regime
import Resumable.Proofs.Run.Keeps
import Resumable.Proofs.Run.Resumption
import Resumable.Proofs.Run.Forwarding
import Resumable.Proofs.Run.Requests
import Resumable.Proofs.Run.Watched
import Resumable.Proofs.Run.Trail
import Resumable.Proofs.Run.Tracking
import Resumable.Proofs.Generator.Lifecycle
import Resumable.Proofs.Generator.Delegation
import Resumable.Proofs.Binary64.Integers
import Resumable.Proofs.Value.Plain
import Resumable.Proofs.Storage.Assoc
import Resumable.Proofs.Value.Canonical
import Resumable.Proofs.Value.EqualHashes
import Resumable.Proofs.Storage.Setting
import Resumable.Proofs.Storage.Keys
import Resumable.Proofs.Storage.Refinement
import Resumable.Proofs.Storage.View
import Resumable.Proofs.Value.PureHooks
import Resumable.Proofs.Storage.Promotion
import Resumable.Proofs.Storage.Snapshot
import Resumable.Proofs.Generator.Escape
import Resumable.Proofs.Generator.StopIteration
import Resumable.Proofs.Generator.Closing
import Resumable.Proofs.Generator.ClosingChains
import Resumable.Proofs.Run.Confined
import Resumable.Proofs.Run.Metering
import Resumable.Proofs.Generator.Chains
import Resumable.Proofs.Generator.Passing
import Resumable.Proofs.Generator.Finished
import Resumable.Proofs.Generator.Crossing
import Resumable.Proofs.Run.Balance
import Resumable.Proofs.Run.Depths
import Resumable.Proofs.Run.Limits
import Resumable.Proofs.Run.Story
import Resumable.Proofs.Run.Telling
import Resumable.Proofs.Run.Recording
import Resumable.Proofs.Generator.Traces
import Resumable.Proofs.Hash.Residues
import Resumable.Proofs.Hash.Floats
import Resumable.Proofs.Generator.Refusals
import Resumable.Proofs.Generator.Exits
import Resumable.Proofs.Run.Restoring
import Resumable.Proofs.Generator.Callers
import Resumable.Proofs.Generator.Injecting
import Resumable.Proofs.Storage.Hosted
import Resumable.Proofs.Storage.HostileKeys
import Resumable.Proofs.Storage.SlotCache
import Resumable.Proofs.Storage.FailedWrites
import Resumable.Proofs.Binary64.Values
import Resumable.Proofs.Value.PlainEquality
import Resumable.Proofs.Hash.Reserved
import Resumable.Proofs.Storage.SideEffects
import Resumable.Proofs.Storage.BothEnds
import Resumable.Proofs.Storage.ViewEntries
import Resumable.Proofs.Run.Noting
import Resumable.Proofs.Storage.SparingHooks
import Resumable.Proofs.Run.Ancestors
import Resumable.Proofs.Generator.Loops
import Resumable.Proofs.Value.Literals
import Resumable.Proofs.Code.Lines
import Resumable.Proofs.Hash.Pairing
import Resumable.Proofs.Storage.Interchange
import Resumable.Proofs.Storage.Building
import Resumable.Proofs.Json.Documents
import Resumable.Proofs.Json.Options
import Resumable.Proofs.Trace.Profiles
import Resumable.Proofs.Heap.Accounts
import Resumable.Proofs.Storage.Reads
import Resumable.Proofs.Generator.HostTraces
import Resumable.Proofs.Run.Families
import Resumable.Proofs.Generator.Moments
