import Praxec.Agents.DriveLoop
import Praxec.Agents.History
import Praxec.Config.Grants
import Praxec.Executors.BranchIdentity
import Praxec.Executors.RunTree
import Praxec.Expr.RoundTrip
import Praxec.Hitl.Choices
import Praxec.Hitl.Pending
import Praxec.HotReload
import Praxec.LockQueue
import Praxec.Models.Deescalation
import Praxec.Models.PoolResolver
import Praxec.Paths
import Praxec.Reliability.Search
import Praxec.RepoLocks.Durable
import Praxec.Runtime.AbandonedTurn
import Praxec.Runtime.Advance
import Praxec.Runtime.Confidence
import Praxec.Runtime.Continuation
import Praxec.Runtime.DeadChild
import Praxec.Runtime.EvidenceLedger
import Praxec.Runtime.Gates
import Praxec.Runtime.Parity
import Praxec.Runtime.Reaping
import Praxec.Runtime.SchemaDefaults
import Praxec.Runtime.Seeding
import Praxec.Runtime.Suspension
import Praxec.Runtime.Versions
import Praxec.Store.Equivalence
import Praxec.Store.Registration
import Praxec.Validate.Cycles
import Praxec.Validate.OperatorShapes
import Praxec.Validate.Writers
