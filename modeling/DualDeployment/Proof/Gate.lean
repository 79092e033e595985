import DualDeployment.Proof.Preserve
import DualDeployment.Spec.Ledger

/-!
# The shoot-first gate

Unless the order is seed first, a pass calls the seed applier only after the
whole shoot render was applied with no resource degraded, and a pass that
cannot get there leaves the seed alone and reports it is not ready
(`SeedDeferred`). With the seed first, the seed render is applied whatever the
shoot does: `shootFirst_gate`.
-/

namespace DDO.Impl

open Prog

/-- The call is one of the applier of the cluster. -/
def Touches (c : Cluster) : Call → Prop
  | .apply c' _ _ => c' = c
  | .get c' _ => c' = c
  | .delete c' _ _ => c' = c
  | _ => False

section

variable {r : Reconciler} {key : NamespacedName} {cr : DualDeploymentOperator}
  {ms : Cluster → List Manifest} {d : Delivery} {t : List CallEvent} {c c' : Cluster} {x : Outcome}

theorem touches_applies {l : CallEvent} {ownedBy : String} (hl : l ∈ d.applies ownedBy c)
    (ht : Touches c' l.1) : c' = c := by
  obtain ⟨run, -, hl⟩ := Delivery.mem_applies.mp hl
  obtain ⟨p, -, rfl⟩ := mem_applyEvents.mp hl
  exact ht.symm

theorem touches_rendering {l : CallEvent} (hl : IsRendering l.1) : ¬Touches c l.1 := by
  obtain ⟨o, he⟩ := hl.op
  rw [he]
  exact id

/-- A delivery touches only the clusters whose renders it applies. -/
theorem Delivers.touches (h : Delivers r cr ms d t) {l : CallEvent} (hl : l ∈ t)
    (ht : Touches c l.1) : d.run c ≠ none := by
  rcases h.mem hl with ⟨key, rfl⟩ | hl | hl
  · exact ht.elim
  · exact absurd ht (touches_rendering hl)
  have hrun : ∀ {c'}, c' = c → ∀ {run}, d.run c' = some run → d.run c ≠ none := by
    rintro _ rfl run hr
    rw [hr]
    exact Option.some_ne_none run
  cases Delivery.makes_of_mem hl with
  | build => exact ht.elim
  | apply hr hp => exact hrun ht hr
  | get hr hp => exact hrun ht hr
  | delete hr hp => exact hrun ht hr
  | write => exact ht.elim

/-- A render that is applied is applied once for each manifest. -/
theorem Delivers.applies_render (h : Delivers r cr ms d t) (hn : d.run c ≠ none) :
    (appliesTo c t).map (·.1) = sortForApply (ms c) := by
  obtain ⟨run, hrun⟩ := Option.ne_none_iff_exists'.mp hn
  rw [h.appliesTo_eq, Delivery.applied, hrun]
  exact (h.delivery.run c run hrun).applied

/-- With the shoot first, everything up to the last `Apply` on the shoot stays
off the seed. -/
theorem Delivers.split_shootFirst (h : Delivers r cr ms d t) (ho : cr.shootFirst = true) :
    ∃ ta tb, t = ta ++ tb ∧ (∀ l ∈ ta, ¬Touches .seed l.1) ∧ appliesTo .shoot ta = d.applied .shoot := by
  obtain ⟨key, tp, seed, shoot, rfl, hp, -⟩ := h.trace
  have hr : ∀ l ∈ tp, IsRendering l.1 := fun l hl => pipeline_mem hp hl
  refine ⟨⟨.op (.getCR key), .ok cr⟩ :: (tp ++ ⟨.buildShoot cr, d.build⟩ ::
    d.applies (r.ownedBy cr) .shoot), d.applies (r.ownedBy cr) .seed ++
    (cr.applyClusters.reverse.flatMap (d.prunes (r.ownedBy cr)) ++
      [⟨.op (.updateStatus d.written), d.answer⟩]), ?_, ?_, ?_⟩
  · rw [Delivery.events, DualDeploymentOperator.applyClusters, if_pos ho]
    simp
  · intro l hl ht
    rcases List.mem_cons.mp hl with rfl | hl
    · exact ht
    rcases List.mem_append.mp hl with hl | hl
    · exact touches_rendering (hr l hl) ht
    rcases List.mem_cons.mp hl with rfl | hl
    · exact ht
    · cases touches_applies hl ht
  · have hc : ∀ t, appliesTo .shoot (⟨.op (.getCR key), .ok cr⟩ :: t) = appliesTo .shoot t :=
      fun _ => rfl
    have hb : ∀ t, appliesTo .shoot (⟨.buildShoot cr, d.build⟩ :: t) = appliesTo .shoot t :=
      fun _ => rfl
    rw [hc, appliesTo_append, appliesTo_rendering hr, hb, Delivery.appliesTo_applies, if_pos rfl,
      List.nil_append]

/-- So a call to the seed comes after all of them. -/
theorem Delivers.seed_after (h : Delivers r cr ms d t) (ho : cr.shootFirst = true)
    {t₁ t₂ : List CallEvent} {l : CallEvent} (he : t = t₁ ++ l :: t₂) (ht : Touches .seed l.1) :
    appliesTo .shoot t₁ = d.applied .shoot := by
  obtain ⟨ta, tb, hab, hta, happ⟩ := h.split_shootFirst ho
  have hall := h.appliesTo_eq (c := .shoot)
  rw [he] at hab
  rcases List.append_eq_append_iff.mp hab with ⟨v, rfl, hv⟩ | ⟨v, rfl, hv⟩
  · cases v with
    | nil => rw [← happ, List.append_nil]
    | cons l' v =>
      obtain ⟨rfl, -⟩ := List.cons.inj hv
      exact absurd ht (hta l (by simp))
  · -- the calls after `ta` apply nothing to the shoot
    rw [he, appliesTo_append, appliesTo_append, happ, List.append_assoc,
      List.append_right_eq_self, List.append_eq_nil_iff] at hall
    rw [appliesTo_append, happ, hall.1, List.append_nil]

end

end DDO.Impl

namespace DDO.Spec

open Impl Prog

/-- The pass leaves the seed alone, hands its inventory to the status write as
it was read, with Ready False, and that is what a successful write persists. -/
structure SeedDeferred (cr : DualDeploymentOperator) (t : List CallEvent) : Prop where
  untouched : ∀ l ∈ t, ¬Touches .seed l.1
  written : ∃ t₀ w e, t = t₀ ++ [⟨.op (.updateStatus w), e⟩] ∧
    (∀ l ∈ t₀, ∀ w', l.1 ≠ .op (.updateStatus w')) ∧
    w.status.seedResources = cr.status.seedResources ∧ w.status.ready = some .conditionFalse ∧
    ∀ I T w₀ w₁, Steps (CallStep I T) w₀ t w₁ → e = none →
      ∃ cr', w₁.crs cr.key = some cr' ∧ cr'.status = w.status

/-- A status write that succeeds as the last call of a pass persists. -/
theorem persists {I : World → World → Prop} {T : Targets} {w₀ w₁ : World} {t : List CallEvent}
    {w : DualDeploymentOperator}
    (h : Steps (CallStep I T) w₀ (t ++ [⟨.op (.updateStatus w), none⟩]) w₁) :
    ∃ cr', w₁.crs w.key = some cr' ∧ cr'.status = w.status := by
  obtain ⟨w₂, -, h⟩ := steps_append.mp h
  obtain ⟨w₃, ⟨u, hu, hs⟩, hnil⟩ := steps_cons.mp h
  obtain rfl := steps_nil.mp hnil
  rw [trace_request.mp hu] at hs
  obtain ⟨w₄, ⟨w₅, -, hstep⟩, hnil⟩ := steps_cons.mp hs
  obtain rfl := steps_nil.mp hnil
  cases hstep with
  | quiet hq => exact hq.elim
  | updateStatus _ hset => exact ⟨_, (hset.crs _).trans (if_pos rfl), rfl⟩

/-- A delivery that is gated defers the seed. -/
theorem deferred_of_gated {r : Reconciler} {cr : DualDeploymentOperator}
    {ms : Cluster → List Manifest} {d : Delivery} {t : List CallEvent} (h : Delivers r cr ms d t)
    (ho : cr.shootFirst = true) (hg : d.Gated) : SeedDeferred cr t where
  untouched l hl ht := h.touches hl ht (h.delivery.seed.mpr ⟨ho, hg⟩)
  written := by
    obtain ⟨key, tp, seed, shoot, rfl, -⟩ := h.trace
    obtain ⟨t₀, he, ht₀⟩ := h.write
    refine ⟨⟨.op (.getCR key), .ok cr⟩ :: t₀, d.written, d.answer, by rw [he]; rfl, ?_, ?_, ?_, ?_⟩
    · refine List.forall_mem_cons.mpr ⟨fun w' hw => ?_, ht₀⟩
      cases hw
    · exact (h.preserved (h.delivery.seed.mpr ⟨ho, hg⟩)).inventory
    · exact h.delivery.gated hg
    · intro I T w₀ w₁ hs hn
      rw [he, hn, ← List.cons_append] at hs
      rw [← h.delivery.key]
      exact persists hs

/-- For every pass that gets past rendering and transformation: unless the
order is seed first, the seed is called only after `Apply` was called on the
shoot for its whole render and no status came back degraded, and it is
deferred if the shoot applier cannot be built or some status is degraded; with
the seed first, `Apply` is called for its whole render. -/
theorem shootFirst_gate {r : Reconciler} {key : NamespacedName} {cr : DualDeploymentOperator}
    {ms : Cluster → List Manifest} {t : List CallEvent} {x : Outcome}
    (h : Trace (reconcile r key) t x) (hr : Renders r t cr ms) (hd : cr.deletionTimestamp = false) :
    (cr.spec.applyOrder ≠ .seedFirst →
      (∀ t₁ l t₂, t = t₁ ++ l :: t₂ → Touches .seed l.1 →
        (appliesTo .shoot t₁).map (·.1) = sortForApply (ms .shoot) ∧
          ∀ p ∈ appliesTo .shoot t₁, p.2.status.health ≠ .degraded) ∧
      (¬Built t ∨ (∃ p ∈ appliesTo .shoot t, p.2.status.health = .degraded) → SeedDeferred cr t)) ∧
    (cr.spec.applyOrder = .seedFirst →
      (appliesTo .seed t).map (·.1) = sortForApply (ms .seed)) := by
  obtain ⟨d, hdel⟩ := renders_delivers h hd hr
  refine ⟨fun ho => ?_, fun ho => ?_⟩
  · have ho' : cr.shootFirst = true := by simpa [DualDeploymentOperator.shootFirst] using ho
    refine ⟨fun t₁ l t₂ he hl => ?_, fun hg => deferred_of_gated hdel ho' ?_⟩
    · -- the seed is touched, so it is not deferred and the shoot has a run
      have hn : ¬d.Gated := fun hg =>
        hdel.touches (he ▸ by simp) hl (hdel.delivery.seed.mpr ⟨ho', hg⟩)
      rw [hdel.gated_iff, not_not, statusesOf] at hn
      rw [hdel.seed_after ho' he hl, ← hdel.appliesTo_eq]
      refine ⟨hdel.applies_render (hdel.delivery.shoot.not.mpr (hdel.built_iff.mp hn.1)), ?_⟩
      simpa [anyFailed] using hn.2
    · rw [hdel.gated_iff, not_and_or, statusesOf]
      simpa [anyFailed] using hg
  · have ho' : cr.shootFirst = false := by simpa [DualDeploymentOperator.shootFirst] using ho
    refine hdel.applies_render fun hn => ?_
    rw [hdel.delivery.seed, ho'] at hn
    cases hn.1

/-- A pass with the default order over a ServiceAccount for the shoot and a
ConfigMap for the seed. -/
theorem shootFirst_gate_sample :
    let S := sampleServer [bare "v1" "ConfigMap" "garden" "config"] [bare "v1" "ServiceAccount" "kube-system" "sa"]
    let cr := sampleCR .unset .retain
    let ms := perCluster [bare "v1" "ConfigMap" "garden" "config"] [bare "v1" "ServiceAccount" "kube-system" "sa"]
    let t := (S.run sampleReconciler sampleKey (sampleWorld cr rfl)).1
    (appliesTo .seed t).length = 1 ∧
      ((∀ t₁ l t₂, t = t₁ ++ l :: t₂ → Touches .seed l.1 →
        (appliesTo .shoot t₁).map (·.1) = sortForApply (ms .shoot) ∧
          ∀ p ∈ appliesTo .shoot t₁, p.2.status.health ≠ .degraded) ∧
      (¬Built t ∨ (∃ p ∈ appliesTo .shoot t, p.2.status.health = .degraded) → SeedDeferred cr t)) := by
  intro S cr ms t
  have hr : Renders sampleReconciler t cr ms :=
    ⟨sampleKey, (t.drop 1).take 3, t.drop 4, _, _, rfl, .call (.call (.call (.ret _))), rfl⟩
  exact ⟨by decide +kernel, (shootFirst_gate (S.run_trace ..) hr rfl).1 (by decide)⟩

end DDO.Spec
