import DualDeployment.Impl.Teardown

/-!
# The operator over its API requests

The calls of the reconciler carried out by the server-side-apply applier on
the seed and on the shoot: `ssa` answers each call by the requests it makes,
and `Operator.reconcile` is the whole of `Reconcile` at that level.
-/

namespace DDO.Impl

open Prog

/-! ## The shoot applier -/

/-- `clients.ShootRESTConfig`; `none` is `ErrShootCredentialsNotReady`. -/
def shootRESTConfig (secret : Secret) (tokenKey caKey server : String) : Option RESTConfig :=
  let tokenKey := if tokenKey = "" then "token" else tokenKey
  let caKey := if caKey = "" then "bundle.crt" else caKey
  let token := lookupString secret.data tokenKey
  let caData := lookupString secret.data caKey
  if token = "" ∨ caData = "" then none else some ⟨server, token, caData, 30⟩

def buildShootApplier (cr : DualDeploymentOperator) : Prog Req Resp (Except ShootErr Unit) := do
  let ref := cr.spec.shootAccess
  match ← request (Req.getSecret ⟨cr.ns, ref.secretName⟩) with
  | .error e => pure (.error (.other (.text ("failed to get shoot access secret: " ++ e.error))))
  | .ok secret =>
    match shootRESTConfig secret ref.tokenKey ref.caKey ref.server with
    | none => pure (.error .credentialsNotReady)
    | some cfg =>
      match ← request (Req.newClient cfg) with
      | some e => pure (.error (.other e))
      | none => pure (.ok ())

/-- How each call is carried out. -/
def ssa : (e : Call) → Prog Req Resp (Answer e)
  | .op o => request (Req.op o)
  | .buildShoot cr => buildShootApplier cr
  | .apply c m ownedBy => SSAApplier.apply c m ownedBy
  | .get c m => SSAApplier.get c m
  | .delete c m ownedBy => SSAApplier.delete c m ownedBy

/-- `Reconcile`, as the API requests it makes. -/
def Operator.reconcile (r : Reconciler) (key : NamespacedName) : Prog Req Resp Outcome :=
  (Impl.reconcile r key).interp ssa

end DDO.Impl
