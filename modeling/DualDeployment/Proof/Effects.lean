import DualDeployment.Proof.Passes
import DualDeployment.Proof.TeardownTraces
import DualDeployment.Spec.Server

/-!
# The order of effects

The `Apply` and `Delete` calls of a pass come in four blocks (`EffectBlocks`):
the applies to each cluster, in the order of the spec, then the deletes on each
cluster, in the reverse order. Each block of applies is in apply order and
keeps the render's order within a priority, and each block of deletes is in
delete order: `effects_ordered`.
-/

namespace DDO.Impl

open Prog

/-- What a call asks a cluster to change. -/
inductive Effect where
  | apply (c : Cluster) (m : Manifest)
  | delete (c : Cluster) (m : Manifest)

def effect : CallEvent → Option Effect
  | ⟨.apply c m _, _⟩ => some (.apply c m)
  | ⟨.delete c m _, _⟩ => some (.delete c m)
  | _ => none

/-- The `Apply` and `Delete` calls of a trace. -/
def effects (t : List CallEvent) : List Effect := t.filterMap effect

/-- `m₁` may be deleted before `m₂`. -/
def DeletedNoLater (m₁ m₂ : Manifest) : Prop :=
  applyPriority m₂.unstructured.getKind ≤ applyPriority m₁.unstructured.getKind

/-- The effects of a pass over `cr`: `as c` are applied to each cluster and
`ds c` deleted on it. -/
structure EffectBlocks (r : Reconciler) (cr : DualDeploymentOperator) (t : List CallEvent)
    (as ds : Cluster → List Manifest) : Prop where
  blocks : effects t = cr.applyClusters.flatMap (fun c => (as c).map (.apply c)) ++
    cr.applyClusters.reverse.flatMap fun c => (ds c).map (.delete c)
  applied : ∀ c, (as c).Pairwise AppliedBefore
  stable : ∀ c, as c = [] ∨ ∃ ms, Renders r t cr ms ∧
    ∀ p, (as c).filter (fun m => applyPriority m.unstructured.getKind = p) =
      (ms c).filter fun m => applyPriority m.unstructured.getKind = p
  deleted : ∀ c, (ds c).Pairwise DeletedNoLater

section

variable {c : Cluster} {ownedBy : String}

theorem effects_append (t₁ t₂ : List CallEvent) : effects (t₁ ++ t₂) = effects t₁ ++ effects t₂ :=
  List.filterMap_append

theorem effects_flatMap (cs : List Cluster) (f : Cluster → List CallEvent) :
    effects (cs.flatMap f) = cs.flatMap fun c => effects (f c) :=
  List.filterMap_flatMap

theorem effects_eq_nil {t : List CallEvent} (h : ∀ l ∈ t, effect l = none) : effects t = [] :=
  List.filterMap_eq_nil_iff.mpr h

theorem effect_op {l : CallEvent} {o : Op} (h : l.1 = .op o) : effect l = none := by
  obtain ⟨e, a⟩ := l
  cases h
  rfl

theorem effect_rendering {l : CallEvent} (h : IsRendering l.1) : effect l = none := by
  obtain ⟨o, ho⟩ := h.op
  exact effect_op ho

theorem effects_applyEvents (as : List (Manifest × ApplyAnswer)) :
    effects (applyEvents c ownedBy as) = (as.map (·.1)).map (.apply c) := by
  rw [effects, applyEvents, List.filterMap_map, List.map_map, ← List.filterMap_eq_map]
  rfl

theorem effects_deleteEvents (ds : List (ResourceStatus × Option Err)) :
    effects (deleteEvents c ownedBy ds) =
      ((ds.map (·.1)).map manifestFromStatus).map (.delete c) := by
  rw [effects, deleteEvents, List.filterMap_map, List.map_map, List.map_map, ← List.filterMap_eq_map]
  rfl

/-- `prune` goes on to delete the entry. -/
def Fate.deletes : Fate → Bool
  | deleted _ => true
  | undeleted _ _ => true
  | _ => false

theorem effects_pruneEvents (fs : List (ResourceStatus × Fate)) :
    effects (pruneEvents c ownedBy fs) =
      (((fs.filter (·.2.deletes)).map (·.1)).map manifestFromStatus).map (.delete c) := by
  induction fs with
  | nil => rfl
  | cons p fs ih =>
    have hcons : pruneEvents c ownedBy (p :: fs) = p.2.events c ownedBy p.1 ++ pruneEvents c ownedBy fs :=
      rfl
    rw [hcons, effects_append, ih]
    obtain ⟨rs, f⟩ := p
    cases f <;> rfl

/-- The manifests of entries in delete order are in delete order. -/
theorem deletedNoLater_of_sublist {l prev : List ResourceStatus}
    (h : l.Sublist (sortStatusForDelete prev)) :
    (l.map manifestFromStatus).Pairwise DeletedNoLater := by
  rw [List.pairwise_map]
  refine ((sortStatusForDelete_sorted prev).sublist h).imp fun {a b} hab => ?_
  rw [DeletedNoLater, manifestFromStatus_kind, manifestFromStatus_kind]
  exact hab

end

section

variable {r : Reconciler} {key : NamespacedName} {cr : DualDeploymentOperator}
  {ms : Cluster → List Manifest} {d : Delivery} {t : List CallEvent} {x : Outcome}

theorem EffectBlocks.none (h : effects t = []) : EffectBlocks r cr t (fun _ => []) fun _ => [] where
  blocks := by rw [h]; simp
  applied _ := .nil
  stable _ := Or.inl rfl
  deleted _ := .nil

/-- The manifests a delivery applies to a cluster, in order. -/
def Delivery.appliedManifests (d : Delivery) (c : Cluster) : List Manifest :=
  ((d.run c).map fun run => run.applied.map (·.1)).getD []

/-- The manifests a delivery deletes on a cluster, in order. -/
def Delivery.deletedManifests (d : Delivery) (c : Cluster) : List Manifest :=
  ((d.run c).map fun run =>
    ((run.pruned.filter (·.2.deletes)).map (·.1)).map manifestFromStatus).getD []

theorem effects_applies {ownedBy : String} (c : Cluster) :
    effects (d.applies ownedBy c) = (d.appliedManifests c).map (.apply c) := by
  rw [Delivery.applies, Delivery.appliedManifests]
  cases d.run c with
  | none => rfl
  | some run => exact effects_applyEvents _

theorem effects_prunes {ownedBy : String} (c : Cluster) :
    effects (d.prunes ownedBy c) = (d.deletedManifests c).map (.delete c) := by
  rw [Delivery.prunes, Delivery.deletedManifests]
  cases d.run c with
  | none => rfl
  | some run => exact effects_pruneEvents _

/-- A pass that delivers. -/
theorem Delivers.effectBlocks (h : Delivers r cr ms d t) :
    EffectBlocks r cr t d.appliedManifests d.deletedManifests where
  blocks := by
    obtain ⟨key, tp, seed, shoot, rfl, hp, -⟩ := h.trace
    have hc : ∀ t, effects (⟨.op (.getCR key), .ok cr⟩ :: t) = effects t := fun _ => rfl
    have hb : ∀ t, effects (⟨.buildShoot cr, d.build⟩ :: t) = effects t := fun _ => rfl
    have hw : effects [⟨.op (.updateStatus d.written), d.answer⟩] = [] := rfl
    rw [hc, effects_append, effects_eq_nil fun l hl => effect_rendering (pipeline_mem hp hl),
      List.nil_append, Delivery.events, hb, effects_append, effects_append, hw, List.append_nil,
      effects_flatMap, effects_flatMap]
    simp only [effects_applies, effects_prunes]
  applied c := by
    rw [Delivery.appliedManifests]
    cases hr : d.run c with
    | none => exact .nil
    | some run =>
      rw [Option.map_some, Option.getD_some, (h.delivery.run c run hr).applied]
      exact sortForApply_sorted _
  stable c := by
    rw [Delivery.appliedManifests]
    cases hr : d.run c with
    | none => exact Or.inl rfl
    | some run =>
      refine Or.inr ⟨ms, h.renders, fun p => ?_⟩
      rw [Option.map_some, Option.getD_some, (h.delivery.run c run hr).applied]
      exact sortForApply_stable p _
  deleted c := by
    rw [Delivery.deletedManifests]
    cases hr : d.run c with
    | none => exact .nil
    | some run =>
      have hs : ((run.pruned.filter (·.2.deletes)).map (·.1)).Sublist (run.pruned.map (·.1)) :=
        List.filter_sublist.map _
      rw [(h.delivery.run c run hr).pruned] at hs
      exact deletedNoLater_of_sublist hs

/-- A teardown. -/
theorem teardown_effectBlocks (h : Trace (reconcileDelete r cr) t x) :
    ∃ as ds, EffectBlocks r cr (⟨.op (.getCR key), .ok cr⟩ :: t) as ds := by
  obtain ⟨e, t', rfl, h'⟩ := reconcileDelete_trace h
  rcases h' with h' | ⟨rfl, -⟩
  · obtain ⟨d, tb, te, hof, hb, hend, rfl⟩ := teardown_trace h'
    refine ⟨fun _ => [], fun c => ((d.deleted c).map (·.1)).map manifestFromStatus, ?_, fun _ => .nil,
      fun _ => Or.inl rfl, fun c => ?_⟩
    · have hbuild : effects tb = [] := effects_eq_nil fun l hl => by
        rcases hb.mem hl with ⟨a, -, rfl⟩ | ⟨rec, rfl⟩ <;> rfl
      have hlast : effects te = [] := effects_eq_nil fun l hl => by
        obtain ⟨o, ho⟩ := hend.mem hl
        exact effect_op ho
      have hc : ∀ t, effects (⟨.op (.getCR key), .ok cr⟩ ::
          ⟨.op (.updateStatus (markDeleting cr)), e⟩ :: t) = effects t := fun _ => rfl
      have hcs : (markDeleting cr).applyClusters = cr.applyClusters := rfl
      rw [hc, effects_append, effects_append, hbuild, hlast, TeardownRun.deletes, effects_flatMap, hcs]
      simp [effects_deleteEvents]
    · exact deletedNoLater_of_sublist ((hof.deleted_sublist c).trans List.filter_sublist)
  · exact ⟨_, _, EffectBlocks.none rfl⟩

end

end DDO.Impl

namespace DDO.Spec

open Impl Prog

/-- The effects of every pass come in blocks: applies before deletes, clusters
in the order of the spec for applies and in the reverse order for deletes. -/
theorem effects_ordered {r : Reconciler} {key : NamespacedName} {t : List CallEvent} {x : Outcome}
    (h : Trace (reconcile r key) t x) :
    (∃ e, t = [⟨.op (.getCR key), .error e⟩]) ∨
      ∃ cr t', t = ⟨.op (.getCR key), .ok cr⟩ :: t' ∧ ∃ as ds, EffectBlocks r cr t as ds := by
  rcases reconcile_trace h with he | ⟨cr, t', rfl, ⟨-, hdel⟩ | ⟨hd, -⟩⟩
  · exact Or.inl he
  · exact Or.inr ⟨cr, t', rfl, teardown_effectBlocks hdel⟩
  · refine Or.inr ⟨cr, t', rfl, ?_⟩
    cases reconcile_normal h hd with
    | addFinalizer e _ => exact ⟨_, _, .none rfl⟩
    | failed e _ hp =>
      refine ⟨_, _, .none (effects_eq_nil fun l hl => ?_)⟩
      simp only [List.mem_cons, List.mem_append, List.not_mem_nil, or_false] at hl
      rcases hl with rfl | hl | rfl
      · rfl
      · exact effect_rendering (pipeline_mem hp hl)
      · rfl
    | delivered _ hp hof =>
      exact ⟨_, _, Delivers.effectBlocks ⟨hof, key, _, _, _, rfl, hp, rfl⟩⟩

/-- A ConfigMap and a ServiceAccount for the seed, and a ServiceAccount for the
shoot, which comes first. -/
theorem effects_ordered_sample :
    let S := sampleServer [bare "v1" "ConfigMap" "garden" "config", bare "v1" "ServiceAccount" "garden" "sa"]
      [bare "v1" "ServiceAccount" "kube-system" "sa"]
    let cr := sampleCR .shootFirst .retain
    let t := (S.run sampleReconciler sampleKey (sampleWorld cr rfl)).1
    (effects t).length = 3 ∧ ∃ as ds, EffectBlocks sampleReconciler cr t as ds := by
  intro S cr t
  refine ⟨by decide +kernel, ?_⟩
  rcases effects_ordered (S.run_trace sampleReconciler sampleKey (sampleWorld cr rfl)) with
    ⟨e, he⟩ | ⟨cr', t', he, hb⟩
  · cases (List.cons.inj he).1
  · cases (List.cons.inj he).1
    exact hb

end DDO.Spec
