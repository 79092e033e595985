import DualDeployment.Impl.Applier

/-!
# The reconciler

`internal/controller/dualdeploymentoperator_controller.go`, over the methods
of the two appliers (`Call`). `Reconcile` renders and transforms the source
(`pipeline`), delivers the two renders (`deliver`) or, for a CR that is being
deleted, takes them down (`reconcileDelete`).
-/

namespace DDO.Impl

open Prog

/-! ## Calls -/

/-- Why there is no shoot applier: `errShootCredentialsNotReady` or another
error. -/
inductive ShootErr where
  | credentialsNotReady
  | other (err : Err)

def ShootErr.error : ShootErr → String
  | .credentialsNotReady => "shoot credentials not yet populated"
  | .other err => err.error

/-- The calls of the reconciler; the appliers' methods are given the cluster
they are for. -/
inductive Call where
  | op (o : Op)
  | buildShoot (cr : DualDeploymentOperator)
  | apply (c : Cluster) (m : Manifest) (ownedBy : String)
  | get (c : Cluster) (m : Manifest)
  | delete (c : Cluster) (m : Manifest) (ownedBy : String)

@[reducible] def Answer : Call → Type
  | .op o => OpAnswer o
  | .buildShoot _ => Except ShootErr Unit
  | .apply _ _ _ => ApplyAnswer
  | .get _ _ => Except Err Unstructured
  | .delete _ _ _ => Option Err

/-- A call with its answer. -/
abbrev CallEvent := Event Answer

/-- `ctrl.Result`: the seconds after which to requeue, 0 for not at all. -/
structure Result where
  requeueAfter : Nat
  deriving DecidableEq

/-- What `Reconcile` returns. -/
abbrev Outcome := Result × Option Err

/-- A transformation of a render. -/
structure Transformation where
  apply : List Manifest → Except Err (List Manifest)

/-- The reconciler: whether it has an event recorder, the SHA-256 in hex, and
`transform.Build`. -/
structure Reconciler where
  recorder : Bool
  sha256Hex : String → String
  build : List TransformationSpec → Except Err (List Transformation)

def FinalizerName : String := "dual-deployment-operator.cc.sap/finalizer"

def ForceDeleteAnnotation : String := "dual-deployment-operator.cc.sap/force-delete"

/-- The requeue interval of a reconcile that succeeds: ten minutes. -/
def requeueInterval : Nat := 600

namespace DualDeploymentOperator

variable (cr : DualDeploymentOperator)

def key : NamespacedName := ⟨cr.ns, cr.name⟩

def setResources (seed shoot : List ResourceStatus) : DualDeploymentOperator :=
  { cr with status := { cr.status with seedResources := seed, shootResources := shoot } }

def setStatusCondition (c : Condition) : DualDeploymentOperator :=
  { cr with status := { cr.status with conditions := Impl.setStatusCondition c cr.status.conditions } }

/-- `setCondition`: Ready is False for this reason. -/
def setCondition (reason message : String) : DualDeploymentOperator :=
  cr.setStatusCondition ⟨"Ready", .conditionFalse, reason, message, cr.generation⟩

/-- The entry is a CRD that the retention policy keeps. -/
def keepsCRD (rs : ResourceStatus) : Bool :=
  rs.kind = "CustomResourceDefinition" ∧ cr.spec.retentionPolicy.crds ≠ .delete

def shootFirst : Bool := cr.spec.applyOrder ≠ .seedFirst

end DualDeploymentOperator

def Reconciler.ownedBy (r : Reconciler) (cr : DualDeploymentOperator) : String :=
  ownedByValue r.sha256Hex cr.ns cr.name

/-! ## Conditions -/

def anyFailed (statuses : List ResourceStatus) : Bool := statuses.any (·.health = .degraded)

def allFailed (statuses : List ResourceStatus) : Bool :=
  statuses ≠ [] ∧ statuses.all (·.health = .degraded)

def anyProgressing (statuses : List ResourceStatus) : Bool :=
  statuses.any fun s => s.health = .progressing ∨ s.health = .unknown

def computeConditions (seed shoot : List ResourceStatus) : Condition :=
  if anyFailed seed ∨ anyFailed shoot then
    ⟨"Ready", .conditionFalse, "ResourcesDegraded",
      "one or more managed resources are in a Degraded state", 0⟩
  else if anyProgressing seed ∨ anyProgressing shoot then
    ⟨"Ready", .conditionFalse, "Progressing",
      "one or more managed resources are still Progressing or Unknown", 0⟩
  else
    ⟨"Ready", .conditionTrue, "ReconcileSuccess", "all managed resources applied successfully", 0⟩

def errStatus (cr : DualDeploymentOperator) (reason : String) (err : Err) :
    Prog Call Answer Outcome := do
  -- a failed status write is only logged
  let _ ← request (Call.op (.updateStatus (cr.setCondition reason err.error)))
  pure (⟨0⟩, some err)

def finishNotReady (cr : DualDeploymentOperator) (seed shoot : List ResourceStatus) (backoff : Nat) :
    Prog Call Answer Outcome := do
  match ← request (Call.op (.updateStatus (cr.setResources seed shoot))) with
  | some e => pure (⟨0⟩, some e)
  | none =>
    pure (if backoff = 0 then (⟨0⟩, some (.text "shoot render unavailable; requeuing"))
      else (⟨backoff⟩, none))

/-! ## Applying and pruning a render -/

/-- What `applyAll` returns, with the manifests as `Apply` left them. -/
structure Applied where
  statuses : List ResourceStatus
  errs : List Err
  manifests : List Manifest

/-- The aggregated error of `applyAll`. -/
def Applied.err (a : Applied) : Option Err := newAggregate (a.errs.map some)

def applyAll (c : Cluster) (ownedBy : String) : List Manifest → Prog Call Answer Applied
  | [] => pure ⟨[], [], []⟩
  | m :: ms => do
    let a ← request (Call.apply c m ownedBy)
    let rest ← applyAll c ownedBy ms
    pure ⟨a.status :: rest.statuses, a.err.toList ++ rest.errs,
      ⟨a.object, m.origin⟩ :: rest.manifests⟩

/-- The loop of `prune` over the previous entries: the retained ones and the
errors. -/
def pruneLoop (cr : DualDeploymentOperator) (c : Cluster) (ownedBy : String)
    (currentKeys : List String) :
    List ResourceStatus → Prog Call Answer (List ResourceStatus × List Err)
  | [] => pure ([], [])
  | rs :: rest =>
    if statusIdentityKey rs ∈ currentKeys then pruneLoop cr c ownedBy currentKeys rest
    else if cr.keepsCRD rs then pruneLoop cr c ownedBy currentKeys rest
    else do
      match ← request (Call.get c (manifestFromStatus rs)) with
      | .error e =>
        -- the object is gone, or its kind is
        if e.isNotFound ∨ e.isNoMatch then pruneLoop cr c ownedBy currentKeys rest
        else do
          let x ← pruneLoop cr c ownedBy currentKeys rest
          pure (rs :: x.1, e :: x.2)
      | .ok live =>
        if live.ownedBy ≠ ownedBy then pruneLoop cr c ownedBy currentKeys rest
        else do
          match ← request (Call.delete c (manifestFromStatus rs) ownedBy) with
          | none => pruneLoop cr c ownedBy currentKeys rest
          | some e => do
            let x ← pruneLoop cr c ownedBy currentKeys rest
            pure (rs :: x.1, e :: x.2)

def prune (cr : DualDeploymentOperator) (c : Cluster) (ownedBy : String)
    (prev : List ResourceStatus) (current : List Manifest) :
    Prog Call Answer (List ResourceStatus × Option Err) := do
  let x ← pruneLoop cr c ownedBy (current.map manifestIdentityKey) (sortStatusForDelete prev)
  pure (x.1, newAggregate (x.2.map some))

/-! ## Delivery -/

/-- The last step of a delivery that got through: writes the status and
reports the errors. -/
def finish (cr : DualDeploymentOperator) (seed shoot : List ResourceStatus)
    (errs : List (Option Err)) : Prog Call Answer Outcome := do
  let ready := { computeConditions seed shoot with observedGeneration := cr.generation }
  match ← request (Call.op (.updateStatus ((cr.setResources seed shoot).setStatusCondition ready))) with
  | some e => pure (⟨0⟩, some e)
  | none =>
    match newAggregate errs with
    | some e => pure (⟨0⟩, some e)
    | none => pure (⟨requeueInterval⟩, none)

/-- `seedOut` when there is no shoot applier. -/
def seedOut (cr : DualDeploymentOperator) (ownedBy : String) (seedManifests : List Manifest) :
    Prog Call Answer (List ResourceStatus) :=
  -- ShootFirst: the seed is deferred and its inventory preserved
  if cr.shootFirst then pure cr.status.seedResources
  else do
    let seed ← applyAll .seed ownedBy seedManifests
    -- a failed prune is only logged
    let pruned ← prune cr .seed ownedBy cr.status.seedResources seed.manifests
    pure (seed.statuses ++ pruned.1)

/-- Phases `credsNotReady` and `clientFailed`. -/
def deliverWithoutShoot (cr : DualDeploymentOperator) (ownedBy : String)
    (seedManifests : List Manifest) (shootErr : ShootErr) : Prog Call Answer Outcome := do
  let seedOut ← seedOut cr ownedBy seedManifests
  match shootErr with
  | .credentialsNotReady =>
    finishNotReady (cr.setCondition "WaitingForShootCredentials"
      "shoot token/CA not yet populated by Gardener; shoot render deferred")
      seedOut cr.status.shootResources 30
  | .other err =>
    finishNotReady (cr.setCondition "ShootApplyFailed"
      ("shoot render could not be applied: " ++ err.error)) seedOut cr.status.shootResources 0

/-- A shoot resource is degraded: the seed is deferred, and the shoot, which
was applied, is pruned. -/
def deliverDegraded (cr : DualDeploymentOperator) (ownedBy : String) (shoot : Applied) :
    Prog Call Answer Outcome := do
  let pruned ← prune cr .shoot ownedBy cr.status.shootResources shoot.manifests
  let cr' :=
    if allFailed shoot.statuses then
      cr.setCondition "ShootApplyFailed" "every resource in the shoot render failed to apply"
    else
      cr.setCondition "ResourcesDegraded"
        "some shoot resources failed to apply; seed render deferred until shoot converges"
  let x ← finishNotReady cr' cr.status.seedResources (shoot.statuses ++ pruned.1) 0
  pure (x.1, newAggregate [x.2, pruned.2])

def deliverShootFirst (cr : DualDeploymentOperator) (ownedBy : String)
    (seedManifests shootManifests : List Manifest) : Prog Call Answer Outcome := do
  let shoot ← applyAll .shoot ownedBy shootManifests
  if anyFailed shoot.statuses then deliverDegraded cr ownedBy shoot
  else do
    let seed ← applyAll .seed ownedBy seedManifests
    let prunedSeed ← prune cr .seed ownedBy cr.status.seedResources seed.manifests
    let prunedShoot ← prune cr .shoot ownedBy cr.status.shootResources shoot.manifests
    finish cr (seed.statuses ++ prunedSeed.1) (shoot.statuses ++ prunedShoot.1)
      [shoot.err, seed.err, newAggregate [prunedSeed.2, prunedShoot.2]]

def deliverSeedFirst (cr : DualDeploymentOperator) (ownedBy : String)
    (seedManifests shootManifests : List Manifest) : Prog Call Answer Outcome := do
  let seed ← applyAll .seed ownedBy seedManifests
  let shoot ← applyAll .shoot ownedBy shootManifests
  let prunedShoot ← prune cr .shoot ownedBy cr.status.shootResources shoot.manifests
  let prunedSeed ← prune cr .seed ownedBy cr.status.seedResources seed.manifests
  finish cr (seed.statuses ++ prunedSeed.1) (shoot.statuses ++ prunedShoot.1)
    [seed.err, shoot.err, newAggregate [prunedShoot.2, prunedSeed.2]]

/-- Steps 5 to 9 of `Reconcile`. -/
def deliver (r : Reconciler) (cr : DualDeploymentOperator)
    (seedManifests shootManifests : List Manifest) : Prog Call Answer Outcome := do
  match ← request (Call.buildShoot cr) with
  | .error shootErr =>
    deliverWithoutShoot cr (r.ownedBy cr) (sortForApply seedManifests) shootErr
  | .ok () =>
    if cr.shootFirst then
      deliverShootFirst cr (r.ownedBy cr) (sortForApply seedManifests) (sortForApply shootManifests)
    else
      deliverSeedFirst cr (r.ownedBy cr) (sortForApply seedManifests) (sortForApply shootManifests)

/-! ## Rendering -/

/-- Applies each transformation to both renders, in declaration order; an
error comes with the reason for the condition. -/
def transformAll : List Transformation → List Manifest → List Manifest →
    Except (String × Err) (List Manifest × List Manifest)
  | [], seed, shoot => .ok (seed, shoot)
  | t :: ts, seed, shoot =>
    match t.apply seed with
    | .error e => .error ("SeedTransformFailed", e)
    | .ok seed =>
      match t.apply shoot with
      | .error e => .error ("ShootTransformFailed", e)
      | .ok shoot => transformAll ts seed shoot

/-- Steps 1 to 4 of `Reconcile`: the transformed renders. -/
def pipeline (r : Reconciler) (cr : DualDeploymentOperator) :
    Prog Call Answer (Except (String × Err) (List Manifest × List Manifest)) := do
  match ← request (Call.op (.sourceFrom cr.spec.source cr.ns)) with
  | .error e => pure (.error ("InvalidSource", e))
  | .ok src =>
    match ← request (Call.op (.render src .seed cr.ns)) with
    | .error e => pure (.error ("SeedRenderFailed", e))
    | .ok seed =>
      match ← request (Call.op (.render src .shoot cr.spec.shootNamespace)) with
      | .error e => pure (.error ("ShootRenderFailed", e))
      | .ok shoot =>
        match r.build cr.spec.transformations with
        | .error e => pure (.error ("InvalidTransformation", e))
        | .ok transforms => pure (transformAll transforms seed shoot)

end DDO.Impl
