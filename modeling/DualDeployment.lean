import DualDeployment.Framework.Join
import DualDeployment.Framework.Json
import DualDeployment.Framework.Prog
import DualDeployment.Framework.Sort
import DualDeployment.Impl.Errors
import DualDeployment.Impl.Api
import DualDeployment.Impl.Manifest
import DualDeployment.Impl.Order
import DualDeployment.Impl.Request
import DualDeployment.Impl.Applier
import DualDeployment.Impl.Controller
import DualDeployment.Impl.Teardown
import DualDeployment.Impl.Operator
import DualDeployment.Proof.Traces
import DualDeployment.Spec.Ledger
import DualDeployment.Proof.Refinement
import DualDeployment.Proof.Passes
import DualDeployment.Proof.Inventory
import DualDeployment.Spec.Server
import DualDeployment.Proof.TeardownTraces
import DualDeployment.Proof.Finalizer
import DualDeployment.Proof.Preserve
import DualDeployment.Proof.Deletion
import DualDeployment.Proof.Effects
import DualDeployment.Proof.Gate
import DualDeployment.Proof.Retry
import DualDeployment.Proof.Credential
import DualDeployment.Proof.Leak
import DualDeployment.Framework.Pool
import DualDeployment.Proof.Interleaving
import DualDeployment.Spec.Serving
import DualDeployment.Proof.Phantom
import DualDeployment.Impl.Fetch
import DualDeployment.Impl.Source
import DualDeployment.Spec.Remote
import DualDeployment.Proof.CacheKey
import DualDeployment.Proof.CacheRace
import DualDeployment.Impl.Capture
import DualDeployment.Proof.Capture
import DualDeployment.Proof.Forget
import DualDeployment.Proof.Outcome
import DualDeployment.Proof.Ready
import DualDeployment.Proof.Stamping
import DualDeployment.Proof.IdentityKeys
import DualDeployment.Proof.DeleteOrder
import DualDeployment.Framework.JsonPath
import DualDeployment.Framework.Stream
import DualDeployment.Impl.Transform
import DualDeployment.Proof.Transformations
import DualDeployment.Proof.WebhookURL
import DualDeployment.Proof.CABundle
import DualDeployment.Proof.PinnedRef
import DualDeployment.Proof.URLError
import DualDeployment.Framework.Glob
import DualDeployment.Impl.Subcharts
import DualDeployment.Proof.Subcharts
import DualDeployment.Framework.Path
import DualDeployment.Proof.KustomizeRoot
import DualDeployment.Framework.JsonEqual
import DualDeployment.Framework.Rekey
import DualDeployment.Impl.Equivalence
import DualDeployment.Proof.Scope
import DualDeployment.Proof.Normalize
import DualDeployment.Proof.Divergence
import DualDeployment.Impl.Golden
import DualDeployment.Proof.Golden
import DualDeployment.Proof.Requeue
import DualDeployment.Proof.Converged
import DualDeployment.Proof.Persisted
import DualDeployment.Proof.Lifecycle
import DualDeployment.Proof.Generation
import DualDeployment.Proof.Confined
import DualDeployment.Proof.Stable
import DualDeployment.Proof.Progress
import DualDeployment.Proof.ShootAccess
import DualDeployment.Proof.CacheTransparent
import DualDeployment.Proof.SourceAccess
import DualDeployment.Framework.Both
import DualDeployment.Impl.Manager
import DualDeployment.Proof.Desired
import DualDeployment.Proof.Delivered
import DualDeployment.Framework.Heap
import DualDeployment.Impl.RenderCache
import DualDeployment.Proof.RenderCache
