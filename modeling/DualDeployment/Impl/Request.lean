import DualDeployment.Framework.Prog
import DualDeployment.Impl.Errors
import DualDeployment.Impl.Order

/-!
# What the operator asks of the outside

The requests the operator makes, one constructor for each call that leaves
the repository, with the type of its answer. `Op` are those of the
reconciler on the CR and its source, `Req` adds those of the appliers on a
target cluster.
-/

namespace DDO.Impl

/-- `types.NamespacedName`. -/
structure NamespacedName where
  ns : String
  name : String
  deriving DecidableEq

/-- `source.Mode`. -/
inductive Mode where
  | seed
  | shoot
  deriving DecidableEq

/-- `source.From` has made a renderer for this source, with the credentials of
this namespace. -/
structure Source where
  spec : SourceSpec
  credentialsNamespace : String

/-- An event for the CR. -/
structure EventRecord where
  type : String
  reason : String
  action : String
  note : String

inductive Op where
  | getCR (key : NamespacedName)
  | updateCR (cr : DualDeploymentOperator)
  | updateStatus (cr : DualDeploymentOperator)
  | sourceFrom (spec : SourceSpec) (credentialsNamespace : String)
  | render (src : Source) (mode : Mode) (ns : String)
  | event (rec : EventRecord)

@[reducible] def OpAnswer : Op → Type
  | .getCR _ => Except Err DualDeploymentOperator
  | .updateCR _ => Option Err
  | .updateStatus _ => Option Err
  | .sourceFrom _ _ => Except Err Source
  | .render _ _ _ => Except Err (List Manifest)
  | .event _ => Unit

/-- `corev1.Secret`: its data. -/
structure Secret where
  data : List (String × String)

/-- `rest.Config`; the timeout is in seconds. -/
structure RESTConfig where
  host : String
  bearerToken : String
  caData : String
  timeout : Nat

/-- A request to an API server, or one of the reconciler's own. `patch` is a
server-side apply with `ForceOwnership` under the operator's field manager. -/
inductive Req where
  | op (o : Op)
  | getSecret (key : NamespacedName)
  | newClient (cfg : RESTConfig)
  | get (c : Cluster) (gvk : GroupVersionKind) (ns name : String)
  | patch (c : Cluster) (u : Unstructured)
  | delete (c : Cluster) (u : Unstructured)

/-- A `patch` that succeeds returns the object as the server now has it. -/
@[reducible] def Resp : Req → Type
  | .op o => OpAnswer o
  | .getSecret _ => Except Err Secret
  | .newClient _ => Option Err
  | .get _ _ _ _ => Except Err Unstructured
  | .patch _ _ => Except Err Unstructured
  | .delete _ _ => Option Err

end DDO.Impl
