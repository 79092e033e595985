import DualDeployment.Framework.Json

/-!
# The DualDeploymentOperator resource

`api/v1alpha1`: the spec, the status with its two inventories, and the
conditions. The enumerated strings of the spec are their enumerations plus
the empty string of a field left out; timestamps are not kept.
-/

namespace DDO.Impl

/-- The two clusters a CR delivers to, and the appliers for them. -/
inductive Cluster where
  | seed
  | shoot
  deriving DecidableEq

/-! ## Spec -/

structure SecretReference where
  name : String

structure HelmSource where
  repo : String
  name : String
  version : String
  values : Option Json
  seedValues : Option Json
  shootValues : Option Json
  authSecretRef : Option SecretReference

structure KustomizeSource where
  url : String
  seedPath : String
  shootPath : String
  authSecretRef : Option SecretReference

structure SourceSpec where
  helm : Option HelmSource
  kustomize : Option KustomizeSource

structure ShootAccessRef where
  secretName : String
  server : String
  tokenKey : String
  caKey : String

structure Selector where
  kind : String
  name : String
  origin : String

structure JSONPatchOp where
  op : String
  path : String
  «from» : String
  value : Option Json

structure PatchSpec where
  target : Selector
  strategicMerge : Option Json
  jsonPatch : List JSONPatchOp

structure RewriteWebhookURLSpec where
  urlPrefix : String

structure FilterKindsSpec where
  kinds : List String
  source : String

structure TransformationSpec where
  patch : Option PatchSpec
  rewriteWebhookURL : Option RewriteWebhookURLSpec
  filterKinds : Option FilterKindsSpec

/-- `retentionPolicy.crds`. -/
inductive CRDRetention where
  | unset
  | retain
  | delete
  deriving DecidableEq

/-- `spec.applyOrder`. -/
inductive ApplyOrder where
  | unset
  | seedFirst
  | shootFirst
  deriving DecidableEq

structure RetentionPolicy where
  crds : CRDRetention

structure Spec where
  source : SourceSpec
  shootAccess : ShootAccessRef
  shootNamespace : String
  transformations : List TransformationSpec
  retentionPolicy : RetentionPolicy
  applyOrder : ApplyOrder

/-! ## Status -/

inductive HealthState where
  | healthy
  | progressing
  | degraded
  | unknown
  deriving DecidableEq

/-- An entry of an inventory. -/
structure ResourceStatus where
  kind : String
  apiVersion : String
  ns : String
  name : String
  health : HealthState
  message : String
  deriving DecidableEq

inductive ConditionStatus where
  | conditionTrue
  | conditionFalse
  | conditionUnknown
  deriving DecidableEq

structure Condition where
  type : String
  status : ConditionStatus
  reason : String
  message : String
  observedGeneration : Int
  deriving DecidableEq

structure Status where
  seedResources : List ResourceStatus
  shootResources : List ResourceStatus
  conditions : List Condition

/-- The custom resource; its metadata are those the operator reads. -/
structure DualDeploymentOperator where
  ns : String
  name : String
  generation : Int
  deletionTimestamp : Bool
  finalizers : List String
  annotations : List (String × String)
  spec : Spec
  status : Status

/-- The inventory of a cluster. -/
def Status.resources (s : Status) : Cluster → List ResourceStatus
  | .seed => s.seedResources
  | .shoot => s.shootResources

/-! ## Conditions -/

/-- `meta.SetStatusCondition`: updates the condition of that type in place, or
appends it. -/
def setStatusCondition (new : Condition) : List Condition → List Condition
  | [] => [new]
  | c :: cs => if c.type = new.type then new :: cs else c :: setStatusCondition new cs

/-- `meta.FindStatusCondition`. -/
def findStatusCondition (type : String) (cs : List Condition) : Option Condition :=
  cs.find? fun c => c.type = type

/-- The status of the Ready condition. -/
def Status.ready (s : Status) : Option ConditionStatus :=
  (findStatusCondition "Ready" s.conditions).map (·.status)

theorem find_setStatusCondition (new : Condition) (cs : List Condition) :
    findStatusCondition new.type (setStatusCondition new cs) = some new := by
  induction cs with
  | nil => simp [setStatusCondition, findStatusCondition]
  | cons c cs ih =>
    rw [setStatusCondition]
    split
    · simp [findStatusCondition]
    · rename_i h
      simpa [findStatusCondition, h] using ih

end DDO.Impl
