import DualDeployment.Impl.Operator

/-!
# The API servers

The outside of the operator: the CRs that are persisted and the objects that
are live on each cluster, and how an API server answers the operator's
requests (`Step`). A cluster keys its objects by group, kind, namespace and
name. Errors come at any time; a write that fails may have taken effect. What
the API promises is: a read that succeeds has the labels of the live object,
`NotFound` is answered only for absent objects, a forced server-side apply sets
the owned-by label it was given, and a delete that succeeds removes the object.

Two conditions go beyond that. The server keeps the identity of what it is
submitted (`KeepsIdentity`), which it does if the kinds that are cluster-scoped
there are those of `clusterScopedKinds`, and it answers `NoMatch` only for absent
objects, which it does if it serves some version of a kind only together with the
recorded one. `Spec/Serving` has servers without these conditions, and
`ServedStep.toStep` says that they are enough. The CRs are kept apart from the
objects of the seed: no manifest is that of a CR. `HostedStep` there has them
among the objects.
-/

namespace DDO.Spec

open Impl

abbrev ClusterId := Nat

/-- What a live object can be keyed by: it has a kind and a name, and no part of
its identity contains a slash. -/
def Storable (r : ObjRef) : Prop := r.SlashFree ∧ r.kind ≠ "" ∧ r.name ≠ ""

/-- The live objects of a cluster. -/
structure ClusterState where
  objects : ObjRef → Option Unstructured
  wellFormed : ∀ r u, objects r = some u → Storable r

/-- The persisted CRs and the clusters. -/
structure World where
  crs : NamespacedName → Option DualDeploymentOperator
  named : ∀ k cr, crs k = some cr → cr.key = k
  clusters : ClusterId → ClusterState

/-- The clusters a CR delivers to. -/
structure Targets where
  seed : ClusterId
  shoot : ClusterId
  ne : seed ≠ shoot

def Targets.id (T : Targets) : Cluster → ClusterId
  | .seed => T.seed
  | .shoot => T.shoot

theorem Targets.id_inj (T : Targets) {c c' : Cluster} (h : T.id c = T.id c') : c = c' := by
  cases c <;> cases c'
  · rfl
  · exact absurd h T.ne
  · exact absurd h.symm T.ne
  · rfl

namespace World

/-- The live object on a target cluster. -/
def live (w : World) (T : Targets) (c : Cluster) (r : ObjRef) : Option Unstructured :=
  (w.clusters (T.id c)).objects r

/-- `w'` is `w` with an object created, replaced or removed. -/
structure SetObject (T : Targets) (c : Cluster) (r : ObjRef) (v : Option Unstructured)
    (w w' : World) : Prop where
  crs : w'.crs = w.crs
  objects : ∀ id r', (w'.clusters id).objects r' =
    if id = T.id c ∧ r' = r then v else (w.clusters id).objects r'

/-- `w'` is `w` with a CR replaced or removed. -/
structure SetCR (k : NamespacedName) (v : Option DualDeploymentOperator) (w w' : World) : Prop where
  clusters : w'.clusters = w.clusters
  crs : ∀ k', w'.crs k' = if k' = k then v else w.crs k'

theorem SetObject.live_self {T : Targets} {c : Cluster} {r : ObjRef} {v : Option Unstructured}
    {w w' : World} (h : SetObject T c r v w w') : w'.live T c r = v := by
  rw [live, h.objects, if_pos ⟨rfl, rfl⟩]

theorem SetObject.live_of_ne {T : Targets} {c c' : Cluster} {r r' : ObjRef}
    {v : Option Unstructured} {w w' : World} (h : SetObject T c r v w w')
    (hne : ¬(c' = c ∧ r' = r)) : w'.live T c' r' = w.live T c' r' := by
  rw [live, h.objects, if_neg fun he => hne ⟨T.id_inj he.1, he.2⟩, live]

theorem SetCR.live {k : NamespacedName} {v : Option DualDeploymentOperator} {w w' : World}
    (h : SetCR k v w w') (T : Targets) (c : Cluster) (r : ObjRef) : w'.live T c r = w.live T c r := by
  rw [World.live, h.clusters, World.live]

end World

/-- What an update of a CR leaves: its status and deletion timestamp are kept,
and one that is being deleted goes with its last finalizer. -/
def updated (old cr : DualDeploymentOperator) : Option DualDeploymentOperator :=
  if old.deletionTimestamp ∧ cr.finalizers = [] then none
  else some { cr with status := old.status, deletionTimestamp := old.deletionTimestamp }

/-- The object is stored under the identity that it was submitted with. A server
does so if the scope of the kind is the one that `clusterScopedKinds` tells. -/
abbrev KeepsIdentity (u v : Unstructured) : Prop := v.ref = u.ref

/-- What the server makes of a submitted object. -/
structure Accepted (u v : Unstructured) : Prop where
  ref : KeepsIdentity u v
  ownedBy : v.ownedBy = u.ownedBy

def secretRef (k : NamespacedName) : ObjRef := ⟨"", "Secret", k.ns, k.name⟩

/-- Rendering and events, which leave the world as it is. -/
def Quiet : Op → Prop
  | .sourceFrom _ _ => True
  | .render _ _ _ => True
  | .event _ => True
  | _ => False

open World in
/-- An API server, in the state `w`, can give this answer and go to `w'`. -/
inductive Step (T : Targets) : World → Event Resp → World → Prop where
  | quiet {w o a} : Quiet o → Step T w ⟨.op o, a⟩ w
  | getCR {w k cr} : w.crs k = some cr → Step T w ⟨.op (.getCR k), .ok cr⟩ w
  | getCRFailed {w k e} : Step T w ⟨.op (.getCR k), .error e⟩ w
  | updateCR {w w' cr old} : w.crs cr.key = some old →
      SetCR cr.key (updated old cr) w w' →
      Step T w ⟨.op (.updateCR cr), none⟩ w'
  | updateCRFailed {w w' cr e} :
      w' = w ∨ (∃ old, w.crs cr.key = some old ∧ SetCR cr.key (updated old cr) w w') →
      Step T w ⟨.op (.updateCR cr), some e⟩ w'
  | updateStatus {w w' cr old} : w.crs cr.key = some old →
      SetCR cr.key (some { old with status := cr.status }) w w' →
      Step T w ⟨.op (.updateStatus cr), none⟩ w'
  | updateStatusFailed {w w' cr e} :
      w' = w ∨ (∃ old, w.crs cr.key = some old ∧
        SetCR cr.key (some { old with status := cr.status }) w w') →
      Step T w ⟨.op (.updateStatus cr), some e⟩ w'
  | getSecret {w k s} : (w.live T .seed (secretRef k)).isSome →
      Step T w ⟨.getSecret k, .ok s⟩ w
  | getSecretFailed {w k e} : (e.isNotFound → w.live T .seed (secretRef k) = none) →
      Step T w ⟨.getSecret k, .error e⟩ w
  | newClient {w cfg a} : Step T w ⟨.newClient cfg, a⟩ w
  | get {w c gvk ns name u v} : w.live T c (.of gvk ns name) = some v → u.ownedBy = v.ownedBy →
      Step T w ⟨.get c gvk ns name, .ok u⟩ w
  | getFailed {w c gvk ns name e} :
      (e.isNotFound ∨ e.isNoMatch → w.live T c (.of gvk ns name) = none) →
      Step T w ⟨.get c gvk ns name, .error e⟩ w
  | patch {w w' c u v} : Accepted u v → SetObject T c u.ref (some v) w w' →
      Step T w ⟨.patch c u, .ok v⟩ w'
  | patchFailed {w w' c u e} : w' = w ∨ (∃ v, Accepted u v ∧ SetObject T c u.ref (some v) w w') →
      Step T w ⟨.patch c u, .error e⟩ w'
  | delete {w w' c u} : SetObject T c u.ref none w w' → Step T w ⟨.delete c u, none⟩ w'
  | deleteFailed {w w' c u e} :
      (w' = w ∧ (e.isNotFound → w.live T c u.ref = none)) ∨ SetObject T c u.ref none w w' →
      Step T w ⟨.delete c u, some e⟩ w'

/-- A step after something else has happened. -/
def StepAfter (I : World → World → Prop) (T : Targets) (w : World) (l : Event Resp) (w' : World) :
    Prop :=
  ∃ w₁, I w w₁ ∧ Step T w₁ l w'

/-- A call of the reconciler, as a step of the world. -/
abbrev CallStep (I : World → World → Prop) (T : Targets) : World → Event Answer → World → Prop :=
  Prog.lift ssa (StepAfter I T)

end DDO.Spec
