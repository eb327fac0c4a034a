import Wiring.Bench
import Wiring.Config.Reader
import Wiring.Deprecation.Reader
import Wiring.Inspection
import Wiring.Portrait
import Wiring.Program.Emission
import Wiring.Script
import Wiring.Proofs.Candidates
import Wiring.Proofs.Demands
import Wiring.Proofs.EagerGraph
import Wiring.Proofs.Isolation
import Wiring.Proofs.Verdicts
import Wiring.Proofs.Safety
import Wiring.Proofs.Sessions
import Wiring.Proofs.Selection
import Wiring.Proofs.Surfaces
import Wiring.Proofs.Links
import Wiring.Proofs.Correspondence
import Wiring.Proofs.Obtaining
import Wiring.Proofs.Reading
import Wiring.Proofs.Accords
import Wiring.Proofs.Coupling
import Wiring.Proofs.Growth
import Wiring.Proofs.Sharing
import Wiring.Proofs.Heaps
import Wiring.Proofs.Courses
import Wiring.Proofs.Purity
import Wiring.Proofs.Lockstep
import Wiring.Proofs.LockstepCalls
import Wiring.Proofs.Retracing
import Wiring.Proofs.Warming
import Wiring.Proofs.Order
import Wiring.Proofs.Chains
import Wiring.Proofs.Privacy
import Wiring.Proofs.Completions
import Wiring.Proofs.Depths
import Wiring.Proofs.TracedCalls
import Wiring.Proofs.Frozen
import Wiring.Proofs.Freshness
import Wiring.Proofs.Protection
import Wiring.Proofs.Contents
import Wiring.Proofs.Indexing
import Wiring.Proofs.Effects
import Wiring.Proofs.Recompiling
import Wiring.Proofs.WellFormed
import Wiring.Proofs.Blame
import Wiring.Proofs.Traceless
import Wiring.Proofs.Removal
import Wiring.Proofs.Conflicts
import Wiring.Proofs.Closure
import Wiring.Proofs.Refusals
import Wiring.Proofs.Absence
import Wiring.Proofs.Presence
import Wiring.Proofs.Disposal
import Wiring.Proofs.Bindings
import Wiring.Proofs.MethodNames
import Wiring.Proofs.Encodings
