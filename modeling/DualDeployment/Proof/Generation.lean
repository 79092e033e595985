import DualDeployment.Proof.Persisted
import DualDeployment.Proof.Preserve
import DualDeployment.Proof.Ready
import DualDeployment.Spec.Runs

/-!
# What a Ready condition says about its generation

A pass writes the status of the CR that it read, which others may have changed
since; so a Ready condition speaks for the generation it names, not for the CR it
stands on. Every Ready True that is persisted comes from a pass over the spec of
its observed generation that applied both renders and found all of them Healthy
(`Vouched`). No write breaks this (`reconcile_vouched`), so it holds after any run
(`ready_vouched`), and if the observed generation is that of the CR, the pass was
over its present spec.
-/

namespace DDO.Spec

open Impl Prog

/-- Others may change the spec, with the generation, but not the status: `specAt`
has the spec of each generation. -/
structure Edits (specAt : Int → Impl.Spec) (key : NamespacedName) (w w' : World) : Prop where
  status : (w'.crs key).map (·.status) = (w.crs key).map (·.status)
  spec : (∀ cr, w.crs key = some cr → cr.spec = specAt cr.generation) →
    ∀ cr, w'.crs key = some cr → cr.spec = specAt cr.generation

theorem Edits.refl (specAt : Int → Impl.Spec) (key : NamespacedName) (w : World) :
    Edits specAt key w w :=
  ⟨rfl, id⟩

/-- The pass rendered this spec, and every `Apply` of the renders returned Healthy. -/
def AppliesHealthy (r : Reconciler) (key : NamespacedName) (spec : Impl.Spec) (t : List CallEvent) :
    Prop :=
  ∃ cr ms, Renders r t cr ms ∧ cr.spec = spec ∧
    ∀ c, ∀ m ∈ ms c, ∃ a, ⟨.apply c m (ownedByKey r key), a⟩ ∈ t ∧ a.status.health = .healthy

/-- A Ready True comes from a pass over the spec of its observed generation. -/
def Vouched (r : Reconciler) (key : NamespacedName) (specAt : Int → Impl.Spec)
    (ts : List (List CallEvent)) (st : Status) : Prop :=
  ∀ c, findStatusCondition "Ready" st.conditions = some c → c.status = .conditionTrue →
    ∃ t ∈ ts, AppliesHealthy r key (specAt c.observedGeneration) t

section

variable {r : Reconciler} {key : NamespacedName} {specAt : Int → Impl.Spec}
  {ts : List (List CallEvent)} {cr cr' : DualDeploymentOperator} {t : List CallEvent} {x : Outcome}

theorem Vouched.mono {ts' : List (List CallEvent)} {st : Status} (h : Vouched r key specAt ts st)
    (hsub : ∀ t ∈ ts, t ∈ ts') : Vouched r key specAt ts' st := fun c hc ht =>
  (h c hc ht).imp fun t h => ⟨hsub t h.1, h.2⟩

/-- A Ready False needs nobody to vouch for it. -/
theorem vouched_of_false {st : Status} (h : st.ready = some .conditionFalse) :
    Vouched r key specAt ts st := by
  intro c hc ht
  rw [Status.ready, hc, Option.map_some, ht] at h
  cases h

/-- A delivery that writes Ready True has applied both renders, all Healthy. -/
theorem delivers_appliesHealthy {ms : Cluster → List Manifest} {d : Delivery}
    (h : Delivers r cr ms d t) (hkey : cr.key = key) (hth : d.Through) (hh : d.Healthy) :
    AppliesHealthy r key cr.spec t := by
  refine ⟨cr, ms, h.renders, rfl, fun c m hm => ?_⟩
  obtain ⟨run, hrun⟩ := Option.ne_none_iff_exists'.mp (hth c)
  obtain ⟨p, hp, rfl⟩ : ∃ p ∈ run.applied, p.1 = m := by
    have hmem := mem_sortForApply.mpr hm
    rwa [← (h.delivery.run c run hrun).applied, List.mem_map] at hmem
  obtain ⟨o, hl⟩ := h.mem_applied hrun hp
  rw [h.apply_owner hl, ownedBy_eq hkey] at hl
  exact ⟨p.2, hl, (hh c run hrun).1 p hp⟩

/-- The status a delivery writes is vouched for by the delivery. -/
theorem delivers_vouched {ms : Cluster → List Manifest} {d : Delivery} (h : Delivers r cr ms d t)
    (hends : d.Ends cr x) (hkey : cr.key = key) (hspec : cr.spec = specAt cr.generation)
    (ht : t ∈ ts) : Vouched r key specAt ts d.written.status := by
  intro c hc htrue
  obtain ⟨hth, hh⟩ := (h.ready_iff hends).mp (by rw [Status.ready, hc, Option.map_some, htrue])
  obtain rfl := Option.some.inj ((hends.ready hth).symm.trans hc)
  exact ⟨t, ht, hspec ▸ delivers_appliesHealthy h hkey hth hh⟩

/-- Every status that a pass over a CR writes is vouched for, if its spec is that
of its generation. -/
theorem reconcile_vouched (h : Trace (reconcile r key) (⟨.op (.getCR key), .ok cr⟩ :: t) x)
    (hkey : cr.key = key) (hspec : cr.spec = specAt cr.generation)
    (ht : (⟨.op (.getCR key), .ok cr⟩ :: t) ∈ ts) {e : Option Err}
    (hl : ⟨.op (.updateStatus cr'), e⟩ ∈ t) : Vouched r key specAt ts cr'.status := by
  cases reconcile_updateStatus h hl with
  | notReady hn => exact vouched_of_false hn.ready
  | delivered hd hdel => exact delivers_vouched hdel (hdel.ends h hd) hkey hspec ht

/-- An update of a pass keeps the spec and the generation. -/
theorem passUpdate_spec (h : PassUpdate cr cr') : cr'.spec = cr.spec ∧ cr'.generation = cr.generation := by
  cases h with
  | added => exact ⟨rfl, rfl⟩
  | removed hn =>
    obtain ⟨cs, rfl⟩ := hn.conditioned
    exact ⟨rfl, rfl⟩

end

/-! ## One pass, and every run -/

section

variable {r : Reconciler} {key : NamespacedName} {T : Targets} {specAt : Int → Impl.Spec}
  {ts : List (List CallEvent)} {t : List CallEvent} {x : Outcome} {w w' : World}

/-- The CR that is persisted has the spec of its generation, and its status is
vouched for. -/
def Sworn (r : Reconciler) (key : NamespacedName) (specAt : Int → Impl.Spec)
    (ts : List (List CallEvent)) (o : Option DualDeploymentOperator) : Prop :=
  ∀ cr, o = some cr → cr.spec = specAt cr.generation ∧ Vouched r key specAt ts cr.status

theorem Sworn.edits (h : Sworn r key specAt ts (w.crs key)) (he : Edits specAt key w w') :
    Sworn r key specAt ts (w'.crs key) := by
  intro cr' hcr'
  refine ⟨he.spec (fun cr hcr => (h cr hcr).1) cr' hcr', ?_⟩
  obtain ⟨cr, hcr, hst⟩ := Option.map_eq_some_iff.mp
    (he.status.symm.trans (congrArg (Option.map (·.status)) hcr'))
  rw [show cr'.status = cr.status from hst.symm]
  exact (h cr hcr).2

theorem pass_sworn (ht : Trace (reconcile r key) t x) (hs : Steps (CallStep (Edits specAt key) T) w t w')
    (hmem : t ∈ ts) (h : Sworn r key specAt ts (w.crs key)) : Sworn r key specAt ts (w'.crs key) := by
  rcases reconcile_trace ht with ⟨e, rfl⟩ | ⟨cr, t', rfl, -⟩
  · exact steps_persisted (fun _ _ hi hw => Sworn.edits hw hi) hs (by simp) (by simp) h
  · obtain ⟨w₁, hi, hcr, hkey, hs'⟩ := steps_read hs
    have h₁ := Sworn.edits h hi
    obtain ⟨hspec, -⟩ := h₁ cr hcr
    refine steps_persisted (fun _ _ hi hw => Sworn.edits hw hi) hs' ?_ ?_ h₁
    · intro cr' e hl _ old hold new hnew
      obtain ⟨hsame, hgen⟩ := passUpdate_spec (reconcile_updateCR ht hl)
      rw [updated] at hnew
      split_ifs at hnew
      cases hnew
      refine ⟨?_, (hold old rfl).2⟩
      change cr'.spec = specAt cr'.generation
      rw [hsame, hgen, hspec]
    · intro cr' e hl _ old hold new hnew
      have hvouched := reconcile_vouched ht hkey hspec hmem hl
      cases hnew
      exact ⟨(hold old rfl).1, hvouched⟩

theorem run_sworn {w₀ : World} (h : Run r key T (Edits specAt key) (Edits specAt key) w₀ ts w)
    (hstart : Sworn r key specAt [] (w₀.crs key)) : Sworn r key specAt ts (w.crs key) := by
  induction h with
  | start => exact hstart
  | @pass w₁ w₂ w₃ ts t x _ hbetween htrace hsteps ih =>
    have h₂ : Sworn r key specAt (ts ++ [t]) (w₂.crs key) := fun cr hcr =>
      (Sworn.edits ih hbetween cr hcr).imp_right fun h => h.mono fun _ => List.mem_append_left _
    exact pass_sworn htrace hsteps (by simp) h₂

end

/-- From a CR without a Ready condition, over any run of passes, whatever fails in
them, while others change the spec of the CR at any time, but with it the
generation: if the persisted Ready condition is True and its observed generation
is that of the CR, then some pass of the run rendered the present spec of the CR
and applied every manifest of both renders, all of them Healthy. -/
theorem ready_vouched {r : Reconciler} {key : NamespacedName} {T : Targets} {specAt : Int → Impl.Spec}
    {ts : List (List CallEvent)} {w₀ w : World}
    (hrun : Run r key T (Edits specAt key) (Edits specAt key) w₀ ts w)
    (hstart : ∀ cr, w₀.crs key = some cr → cr.spec = specAt cr.generation ∧ cr.status.ready = none)
    {cr : DualDeploymentOperator} {c : Condition} (hcr : w.crs key = some cr)
    (hready : findStatusCondition "Ready" cr.status.conditions = some c)
    (htrue : c.status = .conditionTrue) (hgen : c.observedGeneration = cr.generation) :
    ∃ t ∈ ts, AppliesHealthy r key cr.spec t := by
  have hsworn : Sworn r key specAt [] (w₀.crs key) := by
    intro cr₀ hcr₀
    obtain ⟨hspec, hnone⟩ := hstart cr₀ hcr₀
    refine ⟨hspec, fun c hc _ => ?_⟩
    rw [Status.ready, hc] at hnone
    cases hnone
  obtain ⟨hspec, hvouched⟩ := run_sworn hrun hsworn cr hcr
  rw [hspec, ← hgen]
  exact hvouched c hready htrue

/-- The Ready condition of the sample CR after its first delivery. -/
theorem ready_vouched_first :
    ∃ cr, convergedRun.2.2.crs sampleKey = some cr ∧ cr.status.ready = some .conditionTrue ∧
      ∃ t ∈ [convergedRun.1], AppliesHealthy sampleReconciler sampleKey cr.spec t := by
  have htrace : Trace (reconcile sampleReconciler sampleKey) convergedRun.1 convergedRun.2.1 :=
    Server.run_trace _ _ _ _
  have hsteps : Steps (CallStep (Edits (fun _ => (sampleCR .unset .retain).spec) sampleKey) sampleTargets)
      (sampleWorld (sampleCR .unset .retain) rfl) convergedRun.1 convergedRun.2.2 :=
    Server.run_steps (sampleServer _ _) (Edits.refl _ _) _ _ _
  have hready : (convergedRun.2.2.crs sampleKey).map (fun cr =>
      (findStatusCondition "Ready" cr.status.conditions, cr.generation)) = some (some ⟨"Ready",
        .conditionTrue, "ReconcileSuccess", "all managed resources applied successfully", 1⟩, 1) := by
    decide +kernel
  obtain ⟨cr, hcr, he⟩ := Option.map_eq_some_iff.mp hready
  obtain ⟨hcond, hgen⟩ := Prod.mk.inj he
  refine ⟨cr, hcr, by rw [Status.ready, hcond]; rfl, ?_⟩
  refine ready_vouched (.pass (.start _) (Edits.refl ..) htrace hsteps) (fun cr₀ hcr₀ => ?_) hcr hcond rfl
    hgen.symm
  cases hcr₀
  exact ⟨rfl, rfl⟩

end DDO.Spec
