import Wiring.Contention
import Wiring.Demo.Circular
import Wiring.Demo.Logging
import Wiring.Hooks.Session
import Wiring.Links.Session
import Wiring.Log.Setup
import Wiring.Marks.Session
import Wiring.Script.Run
import Wiring.Store.Session
import Wiring.Stress.Building
import Wiring.Stress.Teardown
import Wiring.Proofs.Occurrence
import Wiring.Proofs.Tiers.Change
import Wiring.Proofs.Sample
import Wiring.Proofs.Tiers.Exclusive
import Wiring.Proofs.Tiers.Final
import Wiring.Proofs.Teardown.Tasks
import Wiring.Proofs.Teardown.Order
import Wiring.Proofs.Teardown.Overtaking
import Wiring.Proofs.Assembly.Requests
import Wiring.Proofs.Assembly.Tour
import Wiring.Proofs.Assembly.Blueprint
import Wiring.Proofs.Assembly.Resolution
import Wiring.Proofs.Builds.Change
import Wiring.Proofs.Builds.Serial
import Wiring.Proofs.Builds.Marks
import Wiring.Proofs.Builds.Success
import Wiring.Proofs.Builds.Stranded
import Wiring.Proofs.Tiers.Registered
import Wiring.Proofs.Builds.Confined
import Wiring.Proofs.Builds.Rollback
import Wiring.Proofs.Alteration
import Wiring.Proofs.Builds.Frames
import Wiring.Proofs.Builds.Published
import Wiring.Proofs.Teardown.Agenda
import Wiring.Proofs.Teardown.Running
import Wiring.Proofs.Teardown.Change
import Wiring.Proofs.Teardown.Emptied
import Wiring.Proofs.Teardown.Barring
import Wiring.Proofs.Teardown.Ledger
import Wiring.Proofs.Teardown.Linear
import Wiring.Proofs.Records.Edges
import Wiring.Proofs.Records.Change
import Wiring.Proofs.Records.Containment
import Wiring.Proofs.Builds.Tracked
import Wiring.Proofs.Builds.Sheltered
import Wiring.Proofs.Tiers.Index
import Wiring.Proofs.Tiers.FinalOnly
import Wiring.Proofs.Builds.Aside
import Wiring.Proofs.Builds.Once
import Wiring.Proofs.Teardown.Course
import Wiring.Proofs.Teardown.Reach
import Wiring.Proofs.Teardown.PostOrder
import Wiring.Proofs.Records.Dependents
import Wiring.Proofs.Builds.Related
import Wiring.Proofs.Tiers.Memoized
import Wiring.Proofs.Ensures
import Wiring.Proofs.Stress.Building
import Wiring.Proofs.Transcript
import Wiring.Proofs.Tiers.Counts
import Wiring.Proofs.Tiers.Partition
import Wiring.Proofs.Tiers.Sessions
import Wiring.Proofs.Builds.CleanUp
import Wiring.Proofs.Lockstep
import Wiring.Proofs.Builds.Unwinding
import Wiring.Proofs.Teardown.Outcomes
import Wiring.Proofs.Teardown.Extent
