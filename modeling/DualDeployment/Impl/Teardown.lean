import DualDeployment.Impl.Controller

/-!
# Teardown and the reconcile loop

`reconcileDelete` and `Reconcile`.
-/

namespace DDO.Impl

open Prog

/-- Number of the entries that teardown deletes. -/
def deletable (cr : DualDeploymentOperator) (statuses : List ResourceStatus) : Nat :=
  (statuses.filter fun rs => !cr.keepsCRD rs).length

/-! ## Events and conditions of a teardown -/

/-- `Recorder.Eventf`, if there is a recorder. -/
def recordEvent (r : Reconciler) (rec : EventRecord) : Prog Call Answer Unit :=
  if r.recorder then request (Call.op (.event rec)) else pure ()

def recordShootUnreachable (r : Reconciler) (cr : DualDeploymentOperator) (err : ShootErr) :
    Prog Call Answer DualDeploymentOperator := do
  recordEvent r ⟨"Warning", "ShootUnreachable", "RetainFinalizer",
    "Shoot API server unreachable during deletion; proceeding with seed cleanup and retaining finalizer"⟩
  pure (cr.setCondition "ShootUnreachable" ("shoot unreachable during deletion: " ++ err.error))

def recordShootCleanupBlocked (r : Reconciler) (cr : DualDeploymentOperator) (cause : Option Err) :
    Prog Call Answer DualDeploymentOperator := do
  recordEvent r ⟨"Warning", "ShootCleanupBlocked", "RetainFinalizer",
    "Shoot cleanup incomplete; retaining finalizer. Set annotation " ++ ForceDeleteAnnotation ++
      "=true to force deletion (orphans remaining shoot resources)"⟩
  pure (cr.setStatusCondition ⟨"ShootCleanup", .conditionFalse, "Blocked",
    "waiting on shoot cleanup; set " ++ ForceDeleteAnnotation ++ "=true to force: " ++ errText cause, 0⟩)

def recordShootCleanupForceDeleted (r : Reconciler) (cr : DualDeploymentOperator)
    (cause : Option Err) : Prog Call Answer DualDeploymentOperator := do
  recordEvent r ⟨"Warning", "ShootCleanupForceDeleted", "ForceDelete",
    "Finalizer removed via force-delete annotation; remaining shoot resources may be orphaned"⟩
  let msg := "shoot cleanup abandoned by operator force-delete; shoot resources may be orphaned"
  let msg :=
    match cause with
    | none => msg
    | some e => msg ++ " (last error: " ++ e.error ++ ")"
  pure (cr.setStatusCondition ⟨"ShootCleanup", .conditionFalse, "ForceDeleted", msg, 0⟩)

/-! ## Teardown -/

/-- The loop of `deleteRender`: the errors of the deletes. -/
def deleteLoop (cr : DualDeploymentOperator) (c : Cluster) (ownedBy : String) :
    List ResourceStatus → Prog Call Answer (List Err)
  | [] => pure []
  | rs :: rest =>
    if cr.keepsCRD rs then deleteLoop cr c ownedBy rest
    else do
      let e ← request (Call.delete c (manifestFromStatus rs) ownedBy)
      let errs ← deleteLoop cr c ownedBy rest
      pure (e.toList ++ errs)

/-- `deleteRender`; no applier, no deletes. -/
def deleteRender (cr : DualDeploymentOperator) (ownedBy : String) (applier : Option Cluster)
    (statuses : List ResourceStatus) : Prog Call Answer (List Err) :=
  match applier with
  | none => pure []
  | some c => deleteLoop cr c ownedBy (sortStatusForDelete statuses)

/-- The shoot applier, built only if there is something to delete on the
shoot; and the CR with the condition of a failed build. -/
def buildForDelete (r : Reconciler) (cr : DualDeploymentOperator) :
    Prog Call Answer (DualDeploymentOperator × Option Cluster) :=
  if deletable cr cr.status.shootResources > 0 then do
    match ← request (Call.buildShoot cr) with
    | .ok () => pure (cr, some .shoot)
    | .error e => do
      let cr' ← recordShootUnreachable r cr e
      pure (cr', none)
  else pure (cr, none)

/-- The errors of deleting both renders, the seed's first in the pair, in the
reverse of the apply order. -/
def deleteRenders (cr : DualDeploymentOperator) (ownedBy : String) (shootApplier : Option Cluster) :
    Prog Call Answer (List Err × List Err) :=
  if cr.spec.applyOrder = .seedFirst then do
    let shootErrs ← deleteRender cr ownedBy shootApplier cr.status.shootResources
    let seedErrs ← deleteRender cr ownedBy (some .seed) cr.status.seedResources
    pure (seedErrs, shootErrs)
  else do
    let seedErrs ← deleteRender cr ownedBy (some .seed) cr.status.seedResources
    let shootErrs ← deleteRender cr ownedBy shootApplier cr.status.shootResources
    pure (seedErrs, shootErrs)

/-- The CR without the finalizer. -/
def removeFinalizer (cr : DualDeploymentOperator) : DualDeploymentOperator :=
  { cr with finalizers := cr.finalizers.filter (· ≠ FinalizerName) }

def DualDeploymentOperator.forceDelete (cr : DualDeploymentOperator) : Bool :=
  lookupString cr.annotations ForceDeleteAnnotation = "true"

/-- The end of a teardown whose seed deletes succeeded. -/
def finishDelete (r : Reconciler) (cr : DualDeploymentOperator) (shootDone : Bool)
    (shootErrs : List Err) : Prog Call Answer Outcome :=
  if shootDone then do
    let e ← request (Call.op (.updateCR (removeFinalizer cr)))
    pure (⟨0⟩, e)
  else if cr.forceDelete then do
    let cr ← recordShootCleanupForceDeleted r cr (newAggregate (shootErrs.map some))
    -- a failed status write is only logged
    let _ ← request (Call.op (.updateStatus cr))
    let e ← request (Call.op (.updateCR (removeFinalizer cr)))
    pure (⟨0⟩, e)
  else do
    let cr ← recordShootCleanupBlocked r cr (newAggregate (shootErrs.map some))
    match ← request (Call.op (.updateStatus cr)) with
    | some e => pure (⟨0⟩, some e)
    | none => pure (⟨30⟩, none)

/-- `reconcileDelete` after its first status write. -/
def teardown (r : Reconciler) (cr : DualDeploymentOperator) : Prog Call Answer Outcome := do
  let (cr', shootApplier) ← buildForDelete r cr
  let (seedErrs, shootErrs) ← deleteRenders cr (r.ownedBy cr) shootApplier
  match newAggregate (seedErrs.map some) with
  | some agg => pure (⟨0⟩, some agg)
  | none =>
    let shootDone := deletable cr cr.status.shootResources = 0 ∨ shootApplier.isSome ∧ shootErrs = []
    finishDelete r cr' shootDone shootErrs

def markDeleting (cr : DualDeploymentOperator) : DualDeploymentOperator :=
  cr.setCondition "Deleting" "CR deletion in progress"

def reconcileDelete (r : Reconciler) (cr : DualDeploymentOperator) : Prog Call Answer Outcome := do
  match ← request (Call.op (.updateStatus (markDeleting cr))) with
  | none => teardown r (markDeleting cr)
  | some e => if e.isNotFound then teardown r (markDeleting cr) else pure (⟨0⟩, some e)

/-! ## Reconcile -/

/-- `Reconcile` of a CR that is not being deleted. -/
def reconcileNormal (r : Reconciler) (cr : DualDeploymentOperator) : Prog Call Answer Outcome :=
  if FinalizerName ∉ cr.finalizers then do
    let e ← request (Call.op (.updateCR { cr with finalizers := cr.finalizers ++ [FinalizerName] }))
    pure (⟨0⟩, e)
  else do
    match ← pipeline r cr with
    | .error (reason, err) => errStatus cr reason err
    | .ok (seed, shoot) => deliver r cr seed shoot

def reconcile (r : Reconciler) (key : NamespacedName) : Prog Call Answer Outcome := do
  match ← request (Call.op (.getCR key)) with
  | .error e => pure (⟨0⟩, ignoreNotFound e)
  | .ok cr => if cr.deletionTimestamp then reconcileDelete r cr else reconcileNormal r cr

end DDO.Impl
