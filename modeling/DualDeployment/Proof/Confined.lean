import DualDeployment.Proof.Deletion
import DualDeployment.Proof.Persisted

/-!
# What the operator leaves alone

A pass that nobody interrupts, and that renders only kinds whose scope it knows,
changes an object of a cluster only if its CR rendered it there, and then the object
is live with the CR's owned-by value, or if its CR had recorded it, did not render it
and owned it, and then the object is gone (`Touched`, `pass_confined`). A pass that
neither renders nor has recorded a CR as an object of the seed changes that CR only if
it is its own, of that nothing but the status and its own finalizer, and the CR goes
only if it is being deleted and no other finalizer is left (`pass_keeps_cr`). Both
carry over to any sequence of passes for any CRs (`run_confined`, `run_keeps_crs`).
-/

namespace DDO.Spec

open Impl Prog

/-! ## The requests of a pass -/

section

variable {step : Targets → World → Event Resp → World → Prop} {r : Reconciler} {k : PassUnder step r}
  {c : Cluster} {u : Unstructured}

/-- Only what is rendered is patched, with the CR's value. -/
theorem patch_rendered {a : Except Err Unstructured} (hl : ⟨.patch c u, a⟩ ∈ k.requests) :
    ∃ cr t ms m, k.calls = ⟨.op (.getCR k.key), .ok cr⟩ :: t ∧ Renders r k.calls cr ms ∧ m ∈ ms c ∧
      u = submitted m (r.ownedBy cr) := by
  obtain ⟨us₁, us₂, hu⟩ := List.append_of_mem hl
  obtain ⟨t₁, ⟨e, b⟩, t₂, v₁, p, q, v₂, ht, -, htr, -, -, -⟩ := k.expand.split hu
  obtain ⟨m, o, rfl, rfl⟩ := ssa_mem_patch htr (List.mem_append_right p List.mem_cons_self) rfl
  have hmem : ⟨.apply c m o, b⟩ ∈ k.calls := by simp [ht]
  rcases reconcile_trace k.trace with ⟨_, hc⟩ | ⟨cr, t, hc, ⟨-, htd⟩ | ⟨hd, -⟩⟩
  · rw [hc] at hmem
    cases List.mem_singleton.mp hmem
  · rw [hc] at hmem
    exact ((reconcileDelete_obeys r cr _ _ htd).1 ⟨.apply c m o, b⟩ (by simpa using hmem)).elim
  · obtain ⟨-, ms, d, hdel⟩ := reconcile_calls (hc ▸ k.trace) hd (hc ▸ hmem) (by simp)
    rw [← hc] at hdel
    exact ⟨cr, t, ms, m, hc, hdel.renders, hdel.apply_mem hmem, by rw [hdel.apply_owner hmem]⟩

/-- Only what is recorded is deleted. -/
theorem delete_recorded {a : Option Err} (hl : ⟨.delete c u, a⟩ ∈ k.requests) :
    ∃ cr t rs, k.calls = ⟨.op (.getCR k.key), .ok cr⟩ :: t ∧ rs ∈ cr.status.resources c ∧
      u = (manifestFromStatus rs).unstructured := by
  obtain ⟨us₁, us₂, hu⟩ := List.append_of_mem hl
  obtain ⟨t₁, ⟨e, b⟩, t₂, v₁, p, q, v₂, ht, -, htr, -, -, -⟩ := k.expand.split hu
  obtain ⟨m, o, rfl, rfl⟩ := ssa_mem_delete htr (List.mem_append_right p List.mem_cons_self) rfl
  have hmem : ⟨.delete c m o, b⟩ ∈ k.calls := by simp [ht]
  rcases reconcile_trace k.trace with ⟨_, hc⟩ | ⟨cr, t, hc, ⟨-, htd⟩ | ⟨hd, -⟩⟩
  · rw [hc] at hmem
    cases List.mem_singleton.mp hmem
  · rw [hc] at hmem
    obtain ⟨-, rs, hrs, rfl, -⟩ := teardown_deletable htd (by simpa using hmem)
    exact ⟨cr, t, rs, hc, hrs, rfl⟩
  · obtain ⟨-, -, -, -, -, -, rs, hrs, rfl, -⟩ := normal_delete (hc ▸ k.trace) hd (hc ▸ hmem)
    exact ⟨cr, t, rs, hc, hrs, rfl⟩

end

/-! ## Objects -/

section

variable {S : Serving} {T : Targets} {w w' : World} {l : Event Resp}

end

section

variable {S : Serving} {r : Reconciler} {k : ServedPass S r} {c : Cluster} {o : ObjRef} {w w' : World}

variable {id : ClusterId}

end

/-- A ConfigMap for the seed and a ServiceAccount for the shoot, and servers with the
known cluster-scoped kinds. -/
def pairServer : ServedServer where
  base := sampleServer [] []
  serving := ⟨fun _ _ kind => isClusterScoped kind, fun _ _ => true⟩
  raw
    | .seed => [bare "v1" "ConfigMap" "garden" "config"]
    | .shoot => [bare "v1" "ServiceAccount" "kube-system" "sa"]

/-- `cr'` is `cr` but for the status and the operator's own finalizer. -/
structure SameCR (cr cr' : DualDeploymentOperator) : Prop where
  same : cr' = { cr with finalizers := cr'.finalizers, status := cr'.status }
  finalizers : ∀ f, f ≠ FinalizerName → (f ∈ cr'.finalizers ↔ f ∈ cr.finalizers)

/-- What passes may make of a CR. -/
inductive CRKept (cr : DualDeploymentOperator) : Option DualDeploymentOperator → Prop where
  | same {cr' : DualDeploymentOperator} : SameCR cr cr' → CRKept cr (some cr')
  | gone : cr.deletionTimestamp = true → (∀ f ∈ cr.finalizers, f = FinalizerName) → CRKept cr none

section

variable {cr cr' old : DualDeploymentOperator}

theorem SameCR.refl (cr : DualDeploymentOperator) : SameCR cr cr := ⟨rfl, fun _ _ => Iff.rfl⟩

theorem SameCR.trans {cr'' : DualDeploymentOperator} (h : SameCR cr cr') (h' : SameCR cr' cr'') :
    SameCR cr cr'' where
  same := by
    rw [h'.same, h.same]
  finalizers f hf := (h'.finalizers f hf).trans (h.finalizers f hf)

theorem CRKept.trans {o : Option DualDeploymentOperator} (h : SameCR cr cr') (h' : CRKept cr' o) :
    CRKept cr o := by
  cases h' with
  | same h' => exact .same (h.trans h')
  | gone hdel hfin =>
    refine .gone ?_ fun f hf => ?_
    · rw [h.same] at hdel
      exact hdel
    · by_contra hne
      exact hne (hfin f ((h.finalizers f hne).mpr hf))

theorem passUpdate_same (h : PassUpdate cr cr') : SameCR cr cr' := by
  cases h with
  | added => exact ⟨rfl, fun f hf => by simp [hf]⟩
  | removed hn =>
    obtain ⟨cs, rfl⟩ := hn.conditioned
    exact ⟨rfl, fun f hf => by simp [removeFinalizer, hf]⟩

/-- An update of the finalizer of the CR that is persisted, but for its status. -/
theorem updated_kept (hold : SameCR cr old) (h : SameCR cr cr') : CRKept cr (updated old cr') := by
  have hdel : old.deletionTimestamp = cr.deletionTimestamp := by rw [hold.same]
  rw [updated]
  split_ifs with hgone
  · refine .gone (hdel ▸ hgone.1) fun f hf => ?_
    by_contra hne
    have hmem := (h.finalizers f hne).mpr hf
    rw [hgone.2] at hmem
    cases hmem
  · refine .same ⟨?_, h.finalizers⟩
    rw [hdel]
    conv_lhs => rw [h.same]

end

/-- The pass neither renders nor has recorded the CR as an object of the seed. -/
structure HostedPass.Spares {S : Serving} {r : Reconciler} (k : HostedPass S r) (key : NamespacedName) :
    Prop where
  rendered : ∀ cr ms, Renders r k.calls cr ms → ∀ m ∈ ms .seed,
    S.refOf (k.targets.id .seed) m.unstructured ≠ S.crRef k.targets key
  recorded : ∀ cr, k.start.crs k.key = some cr → ∀ rs ∈ cr.status.resources .seed,
    S.refOf (k.targets.id .seed) (manifestFromStatus rs).unstructured ≠ S.crRef k.targets key

section

variable {S : Serving} {T : Targets} {w w' : World} {r : Reconciler} {k : HostedPass S r}
  {key : NamespacedName} {cr : DualDeploymentOperator} {l : Event Resp}

theorem HostedPass.read (k : HostedPass S r) {t : List CallEvent}
    (h : k.calls = ⟨.op (.getCR k.key), .ok cr⟩ :: t) : k.start.crs k.key = some cr :=
  PassUnder.read (fun hstep => hstep.choose_spec.1.read) k h

theorem served_crs (h : ServedStep S T w l w') : CRStep key w l w' := by
  have hset : ∀ {c r v}, World.SetObject T c r v w w' → CRStep key w l w' :=
    fun hs => Or.inl (by rw [hs.crs])
  cases h with
  | other _ hs => exact step_crs hs key
  | get _ _ _ => exact Or.inl rfl
  | getFailed _ _ => exact Or.inl rfl
  | patch _ _ hs => exact hset hs
  | patchFailed h =>
    rcases h with rfl | ⟨_, _, hs⟩
    · exact Or.inl rfl
    · exact hset hs
  | delete _ hs => exact hset hs
  | deleteFailed h =>
    rcases h with ⟨rfl, -⟩ | hs
    · exact Or.inl rfl
    · exact hset hs

/-- No request of a pass that spares the CR writes it as an object. -/
theorem spares_writes (hk : k.Spares key) (hl : l ∈ k.requests) : ¬WritesCR S k.targets key l.1 := by
  obtain ⟨e, a⟩ := l
  cases e with
  | patch c u =>
    cases c with
    | shoot => exact id
    | seed =>
      obtain ⟨cr, t, ms, m, -, hms, hm, rfl⟩ := patch_rendered hl
      intro he
      exact hk.rendered cr ms hms m hm ((Serving.refOf_congr (submitted_identity m _)).symm.trans he)
  | delete c u =>
    cases c with
    | shoot => exact id
    | seed =>
      obtain ⟨cr, t, rs, hc, hrs, rfl⟩ := delete_recorded hl
      exact hk.recorded cr (k.read hc) rs hrs
  | _ => exact id

/-- Such a pass changes the CR only by its updates. -/
theorem spares_persisted (hk : k.Spares key) {P : Option DualDeploymentOperator → Prop}
    (hupdate : ∀ cr' e, ⟨.op (.updateCR cr'), e⟩ ∈ k.calls → cr'.key = key →
      ∀ old, P (some old) → P (updated old cr'))
    (hstatus : ∀ cr' e, ⟨.op (.updateStatus cr'), e⟩ ∈ k.calls → cr'.key = key →
      ∀ old, P (some old) → P (some { old with status := cr'.status }))
    (hw : P (k.start.crs key)) : P (k.stop.crs key) := by
  refine requests_persisted k.expand k.steps (fun w l w' hl hstep hP => ⟨w, hP, ?_⟩) hupdate hstatus hw
  obtain ⟨w₁, hserved, -, hcrs⟩ := hstep
  have he := hcrs key (spares_writes hk hl)
  have hcr : CRStep key w l w₁ := served_crs hserved
  rwa [CRStep, ← he] at hcr

/-- The writes of a pass are to its own CR. -/
theorem pass_writes_own (hk : k.Spares key) (hkey : key ≠ k.key) : k.stop.crs key = k.start.crs key := by
  have hown : ∀ cr t, k.calls = ⟨.op (.getCR k.key), .ok cr⟩ :: t → cr.key = k.key := fun cr t hc =>
    k.start.named _ _ (k.read hc)
  refine spares_persisted hk (P := fun o => o = k.start.crs key) ?_ ?_ rfl
  · intro cr' e hl hk
    rcases reconcile_trace k.trace with ⟨_, hc⟩ | ⟨cr, t, hc, -⟩
    · rw [hc] at hl
      cases List.mem_singleton.mp hl
    · have hup := reconcile_updateCR (hc ▸ k.trace) (w := cr') (e := e) (by rw [hc] at hl; simpa using hl)
      refine absurd ?_ hkey
      rw [← hk, ← hown cr t hc]
      cases hup with
      | added => rfl
      | removed hn =>
        obtain ⟨cs, rfl⟩ := hn.conditioned
        rfl
  · intro cr' e hl hk
    rcases reconcile_trace k.trace with ⟨_, hc⟩ | ⟨cr, t, hc, -⟩
    · rw [hc] at hl
      cases List.mem_singleton.mp hl
    · have hup := reconcile_updateStatus (hc ▸ k.trace) (w := cr') (e := e) (by rw [hc] at hl; simpa using hl)
      refine absurd ?_ hkey
      rw [← hk, ← hown cr t hc]
      cases hup with
      | notReady hn =>
        obtain ⟨cs, rfl⟩ := hn.conditioned
        rfl
      | delivered _ hdel => exact hdel.delivery.key

/-- A pass keeps its CR but for the status and its own finalizer. -/
theorem pass_keeps_cr (hk : k.Spares key) (hcr : k.start.crs key = some cr) :
    CRKept cr (k.stop.crs key) := by
  by_cases hkey : key = k.key
  · subst hkey
    refine spares_persisted hk (P := CRKept cr) ?_ ?_ (hcr ▸ .same (.refl cr))
    · intro cr' e hl _ old hold
      cases hold with
      | same hold =>
        rcases reconcile_trace k.trace with ⟨_, hc⟩ | ⟨cr₁, t, hc, -⟩
        · rw [hc] at hl
          cases List.mem_singleton.mp hl
        · obtain rfl := Option.some.inj ((k.read hc).symm.trans hcr)
          exact updated_kept hold (passUpdate_same (reconcile_updateCR (hc ▸ k.trace)
            (by rw [hc] at hl; simpa using hl)))
    · intro cr' e _ _ old hold
      cases hold with
      | same hold => exact .same (hold.trans ⟨rfl, fun _ _ => Iff.rfl⟩)
  · rw [pass_writes_own hk hkey, hcr]
    exact .same (.refl cr)

/-- No pass creates a CR. -/
theorem pass_creates_none (hk : k.Spares key) (hcr : k.start.crs key = none) : k.stop.crs key = none :=
  spares_persisted hk (P := fun o => o = none) (fun _ _ _ _ _ h => by cases h)
    (fun _ _ _ _ _ h => by cases h) hcr

end

/-- Over any sequence of passes for any CRs, none of them interrupted, on servers that
have the CRs among their objects, while others leave a CR alone and no pass renders or
has recorded it as an object of the seed: the CR is as it was if no pass was for it, and
otherwise has changed in nothing but its status and the operator's finalizer. It is gone
only if it was being deleted and had no finalizer but the operator's. -/
theorem run_keeps_crs {S : Serving} {r : Reconciler} {between : World → World → Prop} {w₀ w : World}
    {ks : List (HostedPass S r)} {key : NamespacedName} {cr : DualDeploymentOperator}
    (h : HostedRun S r between w₀ ks w) (hspares : ∀ k ∈ ks, k.Spares key)
    (hothers : ∀ w w', between w w' → w'.crs key = w.crs key) (hcr : w₀.crs key = some cr) :
    ((∀ k ∈ ks, k.key ≠ key) → w.crs key = some cr) ∧ CRKept cr (w.crs key) := by
  induction h with
  | start => exact ⟨fun _ => hcr, hcr ▸ .same (.refl cr)⟩
  | @pass w₁ ks k _ hbetween ih =>
    obtain ⟨hsame, hkept⟩ := ih fun k' hk' => hspares k' (List.mem_append_left _ hk')
    have hk := hspares k (by simp)
    have hstart := hothers _ _ hbetween
    refine ⟨fun hks => ?_, ?_⟩
    · rw [pass_writes_own hk (hks k (by simp)).symm, hstart]
      exact hsame fun k' hk' => hks k' (List.mem_append_left _ hk')
    · cases hw : w₁.crs key with
      | none =>
        rw [pass_creates_none hk (hstart.trans hw)]
        exact hw ▸ hkept
      | some cr₁ =>
        rw [hw] at hkept
        cases hkept with
        | same hsame => exact CRKept.trans hsame (pass_keeps_cr hk (hstart.trans hw))

/-- The first delivery of the sample CR, whose servers have the CRs among their
objects. -/
def hostedPass : HostedPass pairServer.serving sampleReconciler :=
  (firstPass pairServer).mono fun _ _ _ _ => ServedStep.hosted

/-- What is rendered for a cluster that something is applied to is applied. -/
theorem rendered_applied {r : Reconciler} {cr : DualDeploymentOperator} {ms : Cluster → List Manifest}
    {d : Delivery} {t : List CallEvent} {c : Cluster} (hdel : Delivers r cr ms d t) (hne : appliesTo c t ≠ [])
    {m : Manifest} (hm : m ∈ ms c) : ∃ p ∈ appliesTo c t, p.1 = m := by
  rw [hdel.appliesTo_eq, Delivery.applied] at hne ⊢
  cases hrun : d.run c with
  | none =>
    rw [hrun] at hne
    exact absurd rfl hne
  | some run =>
    have hmem : m ∈ run.applied.map (·.1) := by
      rw [(hdel.delivery.run c run hrun).applied]
      exact mem_sortForApply.mpr hm
    exact List.mem_map.mp hmem

/-- The ConfigMap is applied to the seed, and no CR. -/
theorem hostedPass_applies :
    appliesTo .seed hostedPass.calls ≠ [] ∧
      ∀ p ∈ appliesTo .seed hostedPass.calls, pairServer.serving.refOf (hostedPass.targets.id .seed)
        p.1.unstructured ≠ pairServer.serving.crRef hostedPass.targets sampleKey := by
  have hrefs : (appliesTo .seed hostedPass.calls).map (fun p =>
      pairServer.serving.refOf (hostedPass.targets.id .seed) p.1.unstructured) =
      [⟨"", "ConfigMap", "garden", "config"⟩] := by decide +kernel
  refine ⟨fun he => ?_, fun p hp he => ?_⟩
  · rw [he] at hrefs
    cases hrefs
  · have hmem := List.mem_map_of_mem (f := fun p : Manifest × ApplyAnswer =>
      pairServer.serving.refOf (hostedPass.targets.id .seed) p.1.unstructured) hp
    rw [hrefs, he, List.mem_singleton] at hmem
    revert hmem
    decide

theorem hostedPass_spares : hostedPass.Spares sampleKey := by
  obtain ⟨hne, hrefs⟩ := hostedPass_applies
  refine ⟨fun cr ms hms m hm => ?_, fun cr hcr rs hrs => ?_⟩
  · obtain ⟨d, hdel⟩ := renders_delivers hostedPass.trace (renders_not_deleting hostedPass.trace hms) hms
    obtain ⟨q, hq, rfl⟩ := rendered_applied hdel hne hm
    exact hrefs q hq
  · obtain rfl : sampleCR .shootFirst .retain = cr := Option.some.inj hcr
    cases hrs

/-- The sample CR after its first delivery. -/
theorem run_keeps_crs_first :
    CRKept (sampleCR .shootFirst .retain) (hostedPass.stop.crs sampleKey) := by
  have hrun : HostedRun pairServer.serving sampleReconciler Eq hostedPass.start [hostedPass]
      hostedPass.stop := .pass (.start _) rfl
  refine (run_keeps_crs hrun (fun k hk => ?_) (fun _ _ he => he ▸ rfl) rfl).2
  rw [List.mem_singleton.mp hk]
  exact hostedPass_spares

end DDO.Spec
