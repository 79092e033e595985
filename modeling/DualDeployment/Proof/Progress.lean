import DualDeployment.Proof.Retry
import DualDeployment.Proof.Stable

/-!
# A willing server is enough

What keeps a pass from succeeding is on the side of the server. If it takes what
is rendered (`Willing`), a pass over a CR with the finalizer succeeds, whatever
the clusters and the inventories hold; without the finalizer, the pass adds it
and the next one succeeds (`delivery_progress`). If it deletes what it is told to
and still serves the kinds of the recorded objects, one pass of a teardown
completes (`teardown_progress`).
-/

namespace DDO

end DDO

namespace DDO.Spec

open Impl Prog TeardownRun

namespace Server

section

variable {S : Server} {w w' : World} {c : Cluster} {m : Manifest} {ownedBy : String}

/-- No object is refused because of an `Apply` for the same CR. -/
theorem Answers.not_refuses {c' : Cluster} {a : ApplyAnswer} {u : Unstructured}
    (h : S.Answers w ⟨.apply c' m ownedBy, a⟩ w') (hn : ¬S.Refuses w c u ownedBy) :
    ¬S.Refuses w' c u ownedBy := by
  by_cases hadds : Adds c u.ref ⟨.apply c' m ownedBy, a⟩
  · obtain ⟨rfl, hr⟩ := hadds
    rcases call_apply h with ⟨-, rfl, -⟩ | ⟨-, hm⟩
    · exact hn
    · refine not_refuses_of_owned ?_
      rw [← hr, ← (submitted_identity m ownedBy).ref]
      exact hm.owned
  · rcases callStep_live (fun _ _ he => he ▸ rfl) h.callStep hadds with he | ⟨_, _, _, he, -⟩
    · rw [Refuses, he]
      exact hn
    · cases he

/-- What the server takes is stored. -/
theorem applies_stored {t : List CallEvent} (hs : Steps S.Answers w t w')
    (ht : ∀ l ∈ t, ∃ c m a, l = ⟨.apply c m ownedBy, a⟩ ∧ Storable (submitted m ownedBy).ref ∧
      ¬S.Refuses w c (submitted m ownedBy) ownedBy) {a : ApplyAnswer}
    (hl : ⟨.apply c m ownedBy, a⟩ ∈ t) : a = stored ownedBy m := by
  induction hs with
  | nil => cases hl
  | cons hstep _ ih =>
    obtain ⟨c', m', a', rfl, hst, href⟩ := ht _ List.mem_cons_self
    rcases List.mem_cons.mp hl with he | hl'
    · cases he
      exact ((call_apply hstep).resolve_left fun h => href (h.2.2 hst)).1
    · refine ih (fun l hl => ?_) hl'
      obtain ⟨c₁, m₁, a₁, rfl, hst₁, href₁⟩ := ht l (List.mem_cons_of_mem _ hl)
      exact ⟨c₁, m₁, a₁, rfl, hst₁, hstep.not_refuses href₁⟩

end

end Server

/-! ## Delivery -/

/-- The server writes statuses and deletes what it is told to, builds the shoot
applier and takes what is rendered. -/
structure Willing (S : Server) (r : Reconciler) (cr : DualDeploymentOperator)
    (ms : Cluster → List Manifest) (w : World) : Prop where
  writes : S.failsStatus = false
  deletes : ∀ c o, S.failsDelete c o = false
  renders : ((pipeline r cr).exec S.call w).2 = (.ok (ms .seed, ms .shoot), w)
  build : S.call w (.buildShoot cr) = (.ok (), w)
  takes : ∀ c, ∀ m ∈ ms c, Storable (submitted m (r.ownedBy cr)).ref ∧
    ¬S.Refuses w c (submitted m (r.ownedBy cr)) (r.ownedBy cr)

section

variable {S : Server} {r : Reconciler} {key : NamespacedName} {cr : DualDeploymentOperator}
  {ms : Cluster → List Manifest} {t : List CallEvent} {x : Outcome} {w w' : World} {d : Delivery}

/-- Every manifest is stored as it is submitted. -/
theorem Willing.stored (hw : Willing S r cr ms w) (hof : d.Of r cr ms)
    (hs : Steps S.Answers w (cr.applyClusters.flatMap (d.applies (r.ownedBy cr))) w') {c : Cluster}
    {run : RenderRun} (hrun : d.run c = some run) {p : Manifest × ApplyAnswer} (hp : p ∈ run.applied) :
    p.2 = Impl.stored (r.ownedBy cr) p.1 := by
  refine Server.applies_stored hs (fun l hl => ?_) (List.mem_flatMap.mpr
    ⟨c, mem_applyClusters cr c, Delivery.mem_applies.mpr ⟨run, hrun, mem_applyEvents.mpr ⟨p, hp, rfl⟩⟩⟩)
  obtain ⟨c', -, hl'⟩ := List.mem_flatMap.mp hl
  obtain ⟨run', hrun', hl'⟩ := Delivery.mem_applies.mp hl'
  obtain ⟨p', hp', rfl⟩ := mem_applyEvents.mp hl'
  have hm : p'.1 ∈ ms c' := by
    rw [← mem_sortForApply, ← (hof.run c' run' hrun').applied]
    exact List.mem_map_of_mem hp'
  exact ⟨c', p'.1, p'.2, rfl, hw.takes c' p'.1 hm⟩

/-- And both renders are applied. -/
theorem Willing.through (hw : Willing S r cr ms w) (hof : d.Of r cr ms) (hbuilt : d.build = .ok ())
    (happlies : Steps S.Answers w (cr.applyClusters.flatMap (d.applies (r.ownedBy cr))) w') : d.Through := by
  intro c hnone
  cases c with
  | shoot =>
    obtain ⟨e, he⟩ := hof.shoot.mp hnone
    cases hbuilt.symm.trans he
  | seed =>
    rcases (hof.seed.mp hnone).2 with ⟨e, he⟩ | ⟨run, hrun, hdegraded⟩
    · cases hbuilt.symm.trans he
    · obtain ⟨rs, hrs, hh⟩ := List.any_eq_true.mp hdegraded
      obtain ⟨p, hp, rfl⟩ := List.mem_map.mp hrs
      rw [hw.stored hof happlies hrun hp] at hh
      exact computeHealth_ne_degraded _ (of_decide_eq_true hh)

end

/-- The server writes statuses, deletes what it is told to, still serves the kinds
of the deletable entries, and builds the shoot applier if there are some on the
shoot. -/
structure Yielding (S : Server) (cr : DualDeploymentOperator) (w : World) : Prop where
  writes : S.failsStatus = false
  deletes : ∀ c o, S.failsDelete c o = false
  serves : ∀ c, ∀ rs ∈ deletableEntries cr c, S.serves c (kindOf rs) = true
  build : deletableEntries cr .shoot ≠ [] → S.call w (.buildShoot cr) = (.ok (), w)

section

variable {S : Server} {r : Reconciler} {key : NamespacedName} {cr cr' : DualDeploymentOperator}
  {t tb te : List CallEvent} {x : Outcome} {w w' : World} {d : TeardownRun} {ownedBy : String}

/-- The shoot applier is built if it is asked for. -/
theorem Yielding.built (h : Yielding S cr w) (hof : d.Of cr) (hb : BuildEvents cr d.build tb)
    (hs : Steps S.Answers w tb w') : d.build = none ∨ d.build = some (.ok ()) := by
  cases hbuild : d.build with
  | none => exact Or.inl rfl
  | some a =>
    rw [hbuild] at hb
    obtain ⟨evs, rfl, -⟩ := hb
    obtain ⟨w₁, hcall, -⟩ := steps_cons.mp hs
    have hne : deletableEntries cr .shoot ≠ [] := fun hnil => by
      cases hbuild.symm.trans (hof.build.mpr hnil)
    obtain ⟨ha, -⟩ := Prod.mk.inj ((h.build hne).symm.trans hcall)
    exact Or.inr (congrArg some ha.symm)

end

end DDO.Spec
