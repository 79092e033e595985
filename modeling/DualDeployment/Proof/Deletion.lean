import DualDeployment.Proof.Preserve
import DualDeployment.Proof.TeardownTraces
import DualDeployment.Spec.Ledger

/-!
# What a delete may target

Every delete request of a pass is for an object that the CR recorded, that
carries its owned-by value when the request is sent, and that is no CRD the policy
keeps. Outside teardown it is not part of the render either, if the kinds of the
render that are cluster-scoped on the server are in `clusterScopedKinds`
(`SafeDelete`). A pass asks for deletes only in `prune` and in teardown
(`delete_mem`), and the applier sends one only right after reading the label
(`delete_read`); over a run of passes for any CRs this is `delete_safety`. An object
of another kind that is cluster-scoped is deleted by an unchanged second pass
(`unchanged_pass_deletes`).
-/

namespace DDO.Impl

open Prog

section

variable {r : Reconciler} {key : NamespacedName} {cr : DualDeploymentOperator}
  {t : List CallEvent} {x : Outcome} {c : Cluster} {m : Manifest} {o : String} {a : Option Err}

/-- A delivery applies only what it renders. -/
theorem Delivers.apply_mem {ms : Cluster → List Manifest} {d : Delivery} {a : ApplyAnswer}
    (hdel : Delivers r cr ms d t) (hl : ⟨.apply c m o, a⟩ ∈ t) : m ∈ ms c := by
  rcases hdel.mem hl with ⟨_, he⟩ | hr | hev
  · cases he
  · exact hr.elim
  · cases Delivery.makes_of_mem hev with
    | apply hrun hp =>
      rw [← mem_sortForApply, ← (hdel.delivery.run _ _ hrun).applied]
      exact List.mem_map_of_mem hp

/-- A delivery deletes only orphans of a render it applied. -/
theorem Delivers.delete_mem {ms : Cluster → List Manifest} {d : Delivery}
    (hdel : Delivers r cr ms d t) (hl : ⟨.delete c m o, a⟩ ∈ t) :
    ∃ run, d.run c = some run ∧ o = r.ownedBy cr ∧ ∃ rs ∈ cr.status.resources c,
      m = manifestFromStatus rs ∧ Fate.Orphan cr (run.manifests.map manifestIdentityKey) rs := by
  have hm : ⟨.delete c m o, a⟩ ∈ lookupsTo c t := List.mem_filter.mpr ⟨hl, by simp [isLookup]⟩
  rw [hdel.lookupsTo_eq] at hm
  obtain ⟨run, hrun, hm⟩ := Delivery.mem_prunes.mp hm
  have hof := hdel.delivery.run c run hrun
  obtain ⟨-, ho, p, hp, hmp, horphan⟩ := delete_mem_pruneEvents hof.fits hm
  have hprev : p.1 ∈ sortStatusForDelete (cr.status.resources c) := by
    rw [← hof.pruned]
    exact List.mem_map_of_mem hp
  exact ⟨run, hrun, ho, p.1, mem_sortStatusForDelete.mp hprev, hmp, horphan⟩

/-- So does a pass outside teardown. -/
theorem normal_delete (h : Trace (reconcile r key) (⟨.op (.getCR key), .ok cr⟩ :: t) x)
    (hd : cr.deletionTimestamp = false)
    (hl : ⟨.delete c m o, a⟩ ∈ ⟨.op (.getCR key), .ok cr⟩ :: t) :
    ∃ ms d run, Delivers r cr ms d (⟨.op (.getCR key), .ok cr⟩ :: t) ∧ d.run c = some run ∧
      o = r.ownedBy cr ∧ ∃ rs ∈ cr.status.resources c, m = manifestFromStatus rs ∧
        Fate.Orphan cr (run.manifests.map manifestIdentityKey) rs := by
  obtain ⟨-, ms, d, hdel⟩ := reconcile_calls h hd hl (by simp)
  obtain ⟨run, hrun, hrest⟩ := hdel.delete_mem hl
  exact ⟨ms, d, run, hdel, hrun, hrest⟩

/-- Teardown deletes only deletable entries. -/
theorem teardown_deletable (h : Trace (reconcileDelete r cr) t x) (hl : ⟨.delete c m o, a⟩ ∈ t) :
    o = r.ownedBy cr ∧ ∃ rs ∈ cr.status.resources c, m = manifestFromStatus rs ∧
      cr.keepsCRD rs = false := by
  obtain ⟨e, t', rfl, h'⟩ := reconcileDelete_trace h
  have hl' : ⟨.delete c m o, a⟩ ∈ t' := by simpa using hl
  rcases h' with h' | ⟨rfl, -⟩
  · obtain ⟨d, tb, te, hof, hb, hend, rfl⟩ := teardown_trace h'
    obtain ⟨p, hp, rfl, rfl, -⟩ := (TeardownRun.teardown_delete hb hend).mp hl'
    obtain ⟨hrs, hk⟩ := mem_deletableEntries.mp (hof.mem_deletable hp)
    exact ⟨rfl, p.1, by cases c <;> exact hrs, rfl, hk⟩
  · cases hl'

/-- The applier deletes an object only right after it has read the caller's
value on it. -/
theorem delete_read {u : Unstructured} {p q : List (Event Resp)} {b : Option Err}
    (h : Trace (SSAApplier.delete c m o) (p ++ ⟨.delete c u, b⟩ :: q) a) :
    u = m.unstructured ∧ ∃ live, live.ownedBy = o ∧ p = [⟨getOf c u, .ok live⟩] := by
  have hrun := delete_trace h
  have hu : u = m.unstructured := by
    rcases hrun.mem (List.mem_append_right p List.mem_cons_self) with hk | hk
    · cases hk
      rfl
    · cases hk
  obtain ⟨live, hp, ho⟩ := hrun.checked rfl
  exact ⟨hu, live, ho, hu ▸ hp⟩

end

end DDO.Impl

namespace DDO.Spec

open Impl Prog

/-- The kinds the pass renders for a cluster and that are cluster-scoped there
are in `clusterScopedKinds`. -/
def ServedPass.KindsListed {S : Serving} {r : Reconciler} (k : ServedPass S r) : Prop :=
  ∀ cr ms, Renders r k.calls cr ms → ∀ c, ∀ m ∈ ms c, S.Listed (k.targets.id c) m.unstructured

/-- The pass `k` over `cr` may delete `v` in the state `w`. -/
structure SafeDelete {S : Serving} {r : Reconciler} (k : ServedPass S r) (cr : DualDeploymentOperator)
    (c : Cluster) (v : Unstructured) (w : World) : Prop where
  read : k.start.crs k.key = some cr
  recorded : ∃ rs ∈ cr.status.resources c, v = (manifestFromStatus rs).unstructured
  owned : w.Owned k.targets (r.ownedBy cr) c (S.refOf (k.targets.id c) v)
  crd : v.getKind = "CustomResourceDefinition" → cr.spec.retentionPolicy.crds = .delete
  rendered : k.KindsListed → cr.deletionTimestamp = false →
    ∃ ms, Renders r k.calls cr ms ∧ ∀ m ∈ ms c, manifestIdentityKey m ≠ v.ref.key ∧
      S.refOf (k.targets.id c) m.unstructured ≠ S.refOf (k.targets.id c) v

/-- Every delete request of the pass is safe where it is sent. -/
def ServedPass.DeletesSafely {S : Serving} {r : Reconciler} (k : ServedPass S r) : Prop :=
  ∀ c v a us₁ us₂ w, k.requests = us₁ ++ ⟨.delete c v, a⟩ :: us₂ →
    Steps (ServedStep S k.targets) k.start us₁ w → ∃ cr, SafeDelete k cr c v w

section

variable {S : Serving} {T : Targets} {r : Reconciler} {w w' : World} {c : Cluster}

/-- The object that was read just before carries the label that was read. -/
theorem get_live {u live : Unstructured} (h : ServedStep S T w ⟨getOf c u, .ok live⟩ w') :
    w'.Owned T live.ownedBy c (S.refOf (T.id c) u) := by
  cases h with
  | other hn _ => exact absurd trivial hn
  | get _ hv ho => exact ⟨_, hv, ho.symm⟩

/-- The object that `Delete` asks to delete carries the caller's value. -/
theorem served_delete_owned {t : List CallEvent} {us₁ us₂ : List (Event Resp)} {u : Unstructured}
    {a : Option Err} (hx : Expand ssa t (us₁ ++ ⟨.delete c u, a⟩ :: us₂))
    (hs : Steps (ServedStep S T) w us₁ w') :
    ∃ m o b, ⟨.delete c m o, b⟩ ∈ t ∧ u = m.unstructured ∧ w'.Owned T o c (S.refOf (T.id c) u) := by
  obtain ⟨t₁, ⟨e, b⟩, t₂, v₁, p, q, v₂, ht, -, htr, -, rfl, -⟩ := hx.split rfl
  obtain ⟨m, o, rfl, -⟩ := ssa_mem_delete htr (l := ⟨.delete c u, a⟩) (by simp) rfl
  obtain ⟨rfl, live, rfl, rfl⟩ := delete_read htr
  refine ⟨m, live.ownedBy, b, by simp [ht], rfl, ?_⟩
  obtain ⟨w₁, -, hs⟩ := steps_append.mp hs
  obtain ⟨w₂, hstep, hnil⟩ := steps_cons.mp hs
  obtain rfl := steps_nil.mp hnil
  exact get_live hstep

theorem keepsCRD_false {cr : DualDeploymentOperator} {rs : ResourceStatus}
    (h : cr.keepsCRD rs = false) (hk : rs.kind = "CustomResourceDefinition") :
    cr.spec.retentionPolicy.crds = .delete := by
  simpa [DualDeploymentOperator.keepsCRD, hk] using h

/-- A CR that is read is persisted. -/
theorem ServedStep.read {key : NamespacedName} {cr : DualDeploymentOperator}
    (h : ServedStep S T w ⟨.op (.getCR key), .ok cr⟩ w') : w.crs key = some cr := by
  cases h with
  | other _ hstep =>
    cases hstep with
    | quiet hq => exact hq.elim
    | getCR hcr => exact hcr

/-- The CR a pass reads is the one that is persisted when it starts. -/
theorem PassUnder.read {step : Targets → World → Event Resp → World → Prop}
    (hget : ∀ {T w key cr w'}, step T w ⟨.op (.getCR key), .ok cr⟩ w' → w.crs key = some cr)
    (k : PassUnder step r) {cr : DualDeploymentOperator} {t : List CallEvent}
    (h : k.calls = ⟨.op (.getCR k.key), .ok cr⟩ :: t) : k.start.crs k.key = some cr := by
  obtain ⟨w₁, ⟨u, hu, hs⟩, -⟩ := steps_cons.mp (h ▸ steps_lift.mpr ⟨_, k.expand, k.steps⟩)
  rw [trace_request.mp hu] at hs
  obtain ⟨w₂, hstep, -⟩ := steps_cons.mp hs
  exact hget hstep

theorem ServedPass.read (k : ServedPass S r) {cr : DualDeploymentOperator} {t : List CallEvent}
    (h : k.calls = ⟨.op (.getCR k.key), .ok cr⟩ :: t) : k.start.crs k.key = some cr :=
  PassUnder.read ServedStep.read k h

/-- The CR whose render it is, too. -/
theorem ServedPass.renders_read (k : ServedPass S r) {cr : DualDeploymentOperator}
    {ms : Cluster → List Manifest} (h : Renders r k.calls cr ms) : k.start.crs k.key = some cr := by
  obtain ⟨key, tp, rest, seed, shoot, he, -⟩ := h
  rcases reconcile_trace k.trace with ⟨_, hc⟩ | ⟨cr', t, hc, -⟩
  · cases hc.symm.trans he
  · cases hc.symm.trans he
    exact k.read hc

theorem renders_unique {t : List CallEvent} {cr cr' : DualDeploymentOperator}
    {ms ms' : Cluster → List Manifest} (h : Renders r t cr ms) (h' : Renders r t cr' ms') : ms' = ms := by
  obtain ⟨key, tp, rest, seed, shoot, rfl, hp, rfl⟩ := h
  obtain ⟨key', tp', rest', seed', shoot', he, hp', rfl⟩ := h'
  obtain ⟨hread, htail⟩ := List.cons.inj he
  cases hread
  obtain ⟨-, hx⟩ := hp.unique hp' htail
  cases hx
  rfl

/-- An orphan of a render of listed kinds is no object of it. -/
theorem orphan_ne {cr : DualDeploymentOperator} {ms : Cluster → List Manifest} {d : Delivery}
    {t : List CallEvent} {us : List (Event Resp)} (hdel : Delivers r cr ms d t)
    (hx : Expand ssa t us) (hs : Steps (ServedStep S T) w us w')
    (hl : ∀ m ∈ ms c, S.Listed (T.id c) m.unstructured) {run : RenderRun}
    (hrun : d.run c = some run) {rs : ResourceStatus}
    (ho : Fate.Orphan cr (run.manifests.map manifestIdentityKey) rs) {m : Manifest} (hm : m ∈ ms c) :
    manifestIdentityKey m ≠ (manifestFromStatus rs).unstructured.ref.key ∧
      S.refOf (T.id c) m.unstructured ≠ S.refOf (T.id c) (manifestFromStatus rs).unstructured := by
  have hkey : manifestIdentityKey m ≠ (manifestFromStatus rs).unstructured.ref.key := by
    intro he
    refine ho.1 ?_
    rw [listed_keys_eq hdel hx (served_patchesAnswered hs) hl hrun, statusIdentityKey_eq,
      ← manifestFromStatus_ref, ← he]
    exact List.mem_map_of_mem (mem_sortForApply.mpr hm)
  refine ⟨hkey, fun he => hkey ?_⟩
  rw [manifestIdentityKey_eq, (hl m hm).ref_eq he.symm]

/-- Every delete of one pass is safe. -/
theorem ServedPass.deletesSafely (k : ServedPass S r) : k.DeletesSafely := by
  intro c v a us₁ us₂ w he hs
  obtain ⟨m, o, b, hmem, rfl, hlive⟩ := served_delete_owned (he ▸ k.expand) hs
  rcases reconcile_trace k.trace with ⟨_, hc⟩ | ⟨cr, t, hc, ⟨hd, htd⟩ | ⟨hd, -⟩⟩
  · rw [hc] at hmem
    cases List.mem_singleton.mp hmem
  · -- teardown
    rw [hc] at hmem
    obtain ⟨rfl, rs, hrs, rfl, hk⟩ := teardown_deletable htd (by simpa using hmem)
    refine ⟨cr, k.read hc, ⟨rs, hrs, rfl⟩, hlive, ?_, ?_⟩
    · rw [manifestFromStatus_kind]
      exact keepsCRD_false hk
    · intro _ hn
      rw [hd] at hn
      cases hn
  · -- prune
    rw [hc] at hmem
    obtain ⟨ms, d, run, hdel, hrun, rfl, rs, hrs, rfl, horphan⟩ := normal_delete (hc ▸ k.trace) hd hmem
    rw [← hc] at hdel
    refine ⟨cr, k.read hc, ⟨rs, hrs, rfl⟩, hlive, ?_, ?_⟩
    · rw [manifestFromStatus_kind]
      exact keepsCRD_false horphan.2
    · intro hl _
      exact ⟨ms, hdel.renders, fun m hm =>
        orphan_ne hdel k.expand k.steps (hl cr ms hdel.renders c) hrun horphan hm⟩

/-- In every run of passes for any CRs, none of them interrupted, from any state and
with any answers of the servers, every delete request is safe where it is sent. -/
theorem delete_safety {between : World → World → Prop} {w₀ : World} {ks : List (ServedPass S r)}
    (h : ServedRun S r between w₀ ks w) : ∀ k ∈ ks, k.DeletesSafely := by
  induction h with
  | start => simp
  | @pass _ ks k _ _ ih =>
    intro k' hk'
    rcases List.mem_append.mp hk' with hk' | hk'
    · exact ih k' hk'
    · rw [List.mem_singleton.mp hk']
      exact ServedPass.deletesSafely k

end

/-- A ConfigMap that the sample CR applied and recorded. -/
def sampleOrphan : Manifest := bare "v1" "ConfigMap" "garden" "config"

/-- The CR that records it. -/
def sampleRecording : DualDeploymentOperator :=
  { sampleCR .seedFirst .retain with
    status := ⟨[entryFor sampleOrphan.unstructured .healthy ""], [], []⟩ }

/-- Servers with the known cluster-scoped kinds, for an empty render. -/
def emptyServer : ServedServer where
  base := sampleServer [] []
  serving := ⟨fun _ _ kind => isClusterScoped kind, fun _ _ => true⟩
  raw _ := []

/-- The pass over a CR whose ConfigMap has left the render. -/
def orphanPass : ServedPass emptyServer.serving sampleReconciler :=
  emptyServer.pass sampleReconciler sampleKey
    ((sampleWorld sampleRecording rfl).install .seed sampleOrphan (by decide))

/-- It gets and deletes the ConfigMap. -/
theorem delete_safety_orphan :
    (lookupsTo .seed orphanPass.calls).length = 2 ∧ orphanPass.KindsListed ∧
      ∀ k ∈ [orphanPass], k.DeletesSafely :=
  ⟨by decide +kernel, fun _ _ _ _ _ _ h => h,
    delete_safety (.pass (.start orphanPass.start) (rfl : orphanPass.start = orphanPass.start))⟩

/-! ## A policy that is deleted -/

/-- What a pass applies, its CR renders. -/
theorem ServedPass.applied_rendered {S : Serving} {r : Reconciler} (k : ServedPass S r) {c : Cluster}
    {p : Manifest × ApplyAnswer} (hp : p ∈ appliesTo c k.calls) :
    ∃ cr ms, k.start.crs k.key = some cr ∧ cr.deletionTimestamp = false ∧ Renders r k.calls cr ms ∧
      p.1 ∈ ms c := by
  obtain ⟨o, ha⟩ := mem_appliesTo.mp hp
  rcases reconcile_trace k.trace with ⟨_, hc⟩ | ⟨cr, t, hc, ⟨-, htd⟩ | ⟨hd, -⟩⟩
  · rw [hc] at ha
    cases List.mem_singleton.mp ha
  · rw [hc] at ha
    rcases reconcileDelete_mem htd (by simpa using ha) with ⟨_, h⟩ | ⟨_, h⟩ | ⟨_, _, _, h⟩ <;> cases h
  · obtain ⟨-, ms, d, hdel⟩ := reconcile_calls (hc ▸ k.trace) hd (hc ▸ ha) (by simp)
    rw [← hc] at hdel
    exact ⟨cr, ms, k.read hc, hd, hdel.renders, hdel.apply_mem ha⟩

/-- The second pass over the policy, with nothing changed. -/
def unchangedPass : ServedPass policyServer.serving sampleReconciler :=
  policyServer.pass sampleReconciler sampleKey (firstPass policyServer).stop

/-- The pass deletes, without an error, an object with the key of a manifest that it
applies. -/
def deletesApplied (k : ServedPass policyServer.serving sampleReconciler) : Bool :=
  k.requests.any fun
    | ⟨.delete .shoot u, none⟩ => (appliesTo .shoot k.calls).any fun p => manifestIdentityKey p.1 = u.ref.key
    | _ => false

theorem unchangedPass_deletes : deletesApplied unchangedPass = true := by
  decide +kernel

/-- A second pass in which nothing has changed deletes the policy that it renders. -/
theorem unchanged_pass_deletes :
    ServedRun policyServer.serving sampleReconciler Eq (firstPass policyServer).start
        [firstPass policyServer, unchangedPass] unchangedPass.stop ∧
      ∃ cr ms u, ⟨.delete .shoot u, none⟩ ∈ unchangedPass.requests ∧
        unchangedPass.start.crs unchangedPass.key = some cr ∧ cr.deletionTimestamp = false ∧
        Renders sampleReconciler unchangedPass.calls cr ms ∧
        ∃ m ∈ ms .shoot, manifestIdentityKey m = u.ref.key := by
  refine ⟨.pass (.pass (.start _) rfl) rfl, ?_⟩
  have hcheck := unchangedPass_deletes
  rw [deletesApplied, List.any_eq_true] at hcheck
  obtain ⟨l, hl, hcheck⟩ := hcheck
  split at hcheck
  · rename_i u
    obtain ⟨p, hp, he⟩ := List.any_eq_true.mp hcheck
    obtain ⟨cr, ms, hcr, hd, hms, hm⟩ := unchangedPass.applied_rendered hp
    exact ⟨cr, ms, u, hl, hcr, hd, hms, p.1, hm, of_decide_eq_true he⟩
  · cases hcheck

end DDO.Spec
