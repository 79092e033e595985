import DualDeployment.Proof.Deletion
import DualDeployment.Proof.Finalizer

/-!
# The shoot-access Secret in a teardown

Teardown deletes what the seed inventory records, whatever becomes of the
shoot. So a pass that is blocked on the shoot leaves the Secret it needs to
come back exactly when the Secret is not a resource of the CR's own seed
render: `blocked_keeps_credential`.
-/

namespace DDO.Spec

open Impl Prog TeardownRun

/-- The Secret that `spec.shootAccess` names, in the namespace of the CR. -/
def accessSecret (cr : DualDeploymentOperator) : ObjRef :=
  secretRef ⟨cr.ns, cr.spec.shootAccess.secretName⟩

/-- The seed inventory records the object. -/
def Recorded (cr : DualDeploymentOperator) (o : ObjRef) : Prop :=
  ∃ rs ∈ cr.status.seedResources, rs.ref = o

/-- The pass keeps the finalizer because shoot resources are outstanding: every
seed delete returned `nil`, the shoot is not settled, and nothing is forced. -/
structure Blocked (cr : DualDeploymentOperator) (ownedBy : String) (t : List CallEvent) : Prop where
  seed : AllDeleted cr ownedBy t .seed
  shoot : ¬ShootSettled cr ownedBy t
  unforced : cr.forceDelete = false

section

variable {r : Reconciler} {cr : DualDeploymentOperator} {t : List CallEvent} {x : Outcome}
  {T : Targets} {I : World → World → Prop} {w w' : World} {o : ObjRef}

theorem teardown_not_adds (h : Trace (reconcileDelete r cr) t x) {l : CallEvent} (hl : l ∈ t)
    {c : Cluster} : ¬Adds c o l := by
  obtain ⟨e, a⟩ := l
  rcases reconcileDelete_mem h hl with ⟨_, he⟩ | ⟨_, he⟩ | ⟨_, _, _, he⟩ <;> cases he <;> exact id

/-- A teardown leaves a seed object as it is, or it removes one that the
inventory records and that carried the CR's value. -/
theorem teardown_live (h : Trace (reconcileDelete r cr) t x)
    (hI : ∀ w w', I w w' → w'.live T .seed o = w.live T .seed o)
    (hs : Steps (CallStep I T) w t w') :
    w'.live T .seed o = w.live T .seed o ∨
      Recorded cr o ∧ w.Owned T (r.ownedBy cr) .seed o ∧ w'.live T .seed o = none := by
  refine hs.inv (P := fun w₁ => w₁.live T .seed o = w.live T .seed o ∨
    Recorded cr o ∧ w.Owned T (r.ownedBy cr) .seed o ∧ w₁.live T .seed o = none) ?_ (Or.inl rfl)
  intro w₁ l w₂ hl hstep hw₁
  rcases callStep_live hI hstep (teardown_not_adds h hl) with he | ⟨m, v, a, rfl, hm, ho, hn⟩
  · rw [he]
    exact hw₁
  · obtain ⟨rfl, rs, hrs, rfl, -⟩ := teardown_deletable h hl
    rw [manifestFromStatus_ref] at hm
    rcases hw₁ with hw₁ | ⟨hrec, hown, -⟩
    · obtain ⟨u, hu, hlabel⟩ := ho
      exact Or.inr ⟨⟨rs, hrs, hm⟩, ⟨u, hw₁ ▸ hu, hlabel⟩, hn⟩
    · exact Or.inr ⟨hrec, hown, hn⟩

/-- What a seed delete of the teardown returned `nil` for is not owned at its
end. -/
theorem teardown_not_owned (h : Trace (reconcileDelete r cr) t x)
    (hI : ∀ w w', I w w' → w'.live T .seed o = w.live T .seed o)
    (hs : Steps (CallStep I T) w t w') {m : Manifest} (hm : m.unstructured.ref = o)
    (hl : ⟨.delete .seed m (r.ownedBy cr), none⟩ ∈ t) : ¬w'.Owned T (r.ownedBy cr) .seed o := by
  obtain ⟨t₁, t₂, rfl⟩ := List.append_of_mem hl
  obtain ⟨w₁, -, hs⟩ := steps_append.mp hs
  obtain ⟨w₂, ⟨u, hu, hsteps⟩, hs⟩ := steps_cons.mp hs
  have hcleared : ¬w₂.Owned T (r.ownedBy cr) .seed o := hm ▸ deleteRun_owned (delete_trace hu) hsteps
  refine hs.inv (P := fun w => ¬w.Owned T (r.ownedBy cr) .seed o) ?_ hcleared
  rintro w₃ l w₄ hl₂ hstep hw₃ ⟨v, hv, hlabel⟩
  have hl₃ : l ∈ t₁ ++ ⟨.delete .seed m (r.ownedBy cr), none⟩ :: t₂ := by simp [hl₂]
  rcases callStep_live hI hstep (teardown_not_adds h hl₃) with he | ⟨_, _, _, _, _, _, hn⟩
  · exact hw₃ ⟨v, he ▸ hv, hlabel⟩
  · rw [hn] at hv
    cases hv

theorem allDeleted_cons {ownedBy : String} {op : Op} {a : OpAnswer op} {c : Cluster} :
    AllDeleted cr ownedBy (⟨.op op, a⟩ :: t) c ↔ AllDeleted cr ownedBy t c := by
  simp [AllDeleted]

theorem shootSettled_cons {ownedBy : String} {op : Op} {a : OpAnswer op} :
    ShootSettled cr ownedBy (⟨.op op, a⟩ :: t) ↔ ShootSettled cr ownedBy t := by
  rw [ShootSettled, allDeleted_cons, ShootSettled]
  simp

/-- Only a pass that is blocked asks to be run again in thirty seconds. -/
theorem blocked_of_requeue (h : Trace (reconcileDelete r cr) t x) (hx : x.1.requeueAfter = 30) :
    Blocked cr (r.ownedBy cr) t := by
  obtain ⟨e, t', rfl, h'⟩ := reconcileDelete_trace h
  rcases h' with h' | ⟨-, _, -, -, rfl⟩
  · obtain ⟨d, tb, te, hof, hb, hend, rfl⟩ := teardown_trace h'
    cases hend with
    | seedFailed _ => cases hx
    | completed _ _ _ => cases hx
    | forced _ _ _ _ _ => cases hx
    | @blocked _ _ e hs hd hf hc hevs =>
      have hend := End.blocked (e := e) hs hd hf hc hevs
      refine ⟨?_, ?_, hf⟩
      · rw [allDeleted_cons]
        exact (allDeleted_iff hb hend hof.seed).mpr hs
      · rw [shootSettled_cons]
        exact fun h => hd ((shootSettled_iff hof hb hend).mp h)
  · cases hx

end

/-- The shoot-access Secret is live when a teardown starts, and nobody else
touches it. Unless the seed inventory records it and it carries the CR's
owned-by value, it is live when the pass ends; and in a pass that keeps the
finalizer because the shoot is outstanding, only then. -/
theorem blocked_keeps_credential {r : Reconciler} {cr : DualDeploymentOperator}
    {t : List CallEvent} {x : Outcome} {T : Targets} {I : World → World → Prop} {w w' : World}
    (h : Trace (reconcileDelete r cr) t x)
    (hI : ∀ w w', I w w' → w'.live T .seed (accessSecret cr) = w.live T .seed (accessSecret cr))
    (hs : Steps (CallStep I T) w t w') (hlive : w.live T .seed (accessSecret cr) ≠ none) :
    (¬(Recorded cr (accessSecret cr) ∧ w.Owned T (r.ownedBy cr) .seed (accessSecret cr)) →
      w'.live T .seed (accessSecret cr) ≠ none) ∧
    (Blocked cr (r.ownedBy cr) t → (w'.live T .seed (accessSecret cr) ≠ none ↔
      ¬(Recorded cr (accessSecret cr) ∧ w.Owned T (r.ownedBy cr) .seed (accessSecret cr)))) := by
  have hkept : ¬(Recorded cr (accessSecret cr) ∧ w.Owned T (r.ownedBy cr) .seed (accessSecret cr)) →
      w'.live T .seed (accessSecret cr) ≠ none := fun hn => by
    rcases teardown_live h hI hs with he | ⟨hrec, hown, -⟩
    · rwa [he]
    · exact absurd ⟨hrec, hown⟩ hn
  refine ⟨hkept, fun hb => ⟨?_, hkept⟩⟩
  rintro hend ⟨⟨rs, hrs, href⟩, hown⟩
  have hk : cr.keepsCRD rs = false := by
    have : rs.kind = "Secret" := congrArg ObjRef.kind href
    simp [DualDeploymentOperator.keepsCRD, this]
  have hgone := teardown_not_owned h hI hs ((manifestFromStatus_ref rs).trans href)
    (hb.seed rs hrs hk).1
  rcases teardown_live h hI hs with he | ⟨-, -, hn⟩
  · obtain ⟨u, hu, hlabel⟩ := hown
    exact hgone ⟨u, he ▸ hu, hlabel⟩
  · exact hend hn

/-! ## A Secret from the CR's own render -/

def credentialSecret : Manifest := bare "v1" "Secret" "garden" "access"

def shootConfig : Manifest := bare "v1" "ConfigMap" "kube-system" "config"

/-- A CR being deleted whose seed render carried the shoot-access Secret. -/
def credentialCR : DualDeploymentOperator :=
  { sampleCR .seedFirst .retain with
    deletionTimestamp := true
    status := ⟨[entryFor credentialSecret.unstructured .healthy ""],
      [entryFor shootConfig.unstructured .healthy ""], []⟩ }

def credentialWorld : World :=
  ((sampleWorld credentialCR rfl).install .seed credentialSecret (by decide)).install .shoot shootConfig
    (by decide)

/-- The shoot fails deletes. -/
def credentialServer : Server :=
  { sampleServer [] [] with failsDelete := fun c _ => c = .shoot }

def credentialPass : List CallEvent × Outcome × World :=
  (reconcileDelete sampleReconciler credentialCR).exec credentialServer.call credentialWorld

/-- In the sample the Secret is not kept, as it is both recorded and labelled. -/
theorem blocked_keeps_credential_sample :
    (¬(Recorded credentialCR (accessSecret credentialCR) ∧ credentialWorld.Owned sampleTargets
      (sampleReconciler.ownedBy credentialCR) .seed (accessSecret credentialCR)) →
        credentialPass.2.2.live sampleTargets .seed (accessSecret credentialCR) ≠ none) ∧
    (credentialPass.2.2.live sampleTargets .seed (accessSecret credentialCR) ≠ none ↔
      ¬(Recorded credentialCR (accessSecret credentialCR) ∧ credentialWorld.Owned sampleTargets
        (sampleReconciler.ownedBy credentialCR) .seed (accessSecret credentialCR))) := by
  have hlive : credentialWorld.live sampleTargets .seed (accessSecret credentialCR) ≠ none := by
    rw [← Option.isSome_iff_ne_none]
    decide +kernel
  have h := blocked_keeps_credential (I := Eq)
    (exec_trace credentialServer.call (reconcileDelete sampleReconciler credentialCR) credentialWorld)
    (fun _ _ he => he ▸ rfl) (exec_steps (credentialServer.callStep fun _ => rfl) _ _) hlive
  exact ⟨h.1, h.2 (blocked_of_requeue (exec_trace _ _ _) (by decide +kernel))⟩

/-- The shoot delete fails, so the finalizer stays for a later pass, and the
Secret that pass will need is deleted. -/
theorem credential_lost :
    Trace (reconcileDelete sampleReconciler credentialCR) credentialPass.1 credentialPass.2.1 ∧
      Steps (CallStep Eq sampleTargets) credentialWorld credentialPass.1 credentialPass.2.2 ∧
      Blocked credentialCR (sampleReconciler.ownedBy credentialCR) credentialPass.1 ∧
      credentialWorld.live sampleTargets .seed (accessSecret credentialCR) ≠ none ∧
      credentialPass.2.2.live sampleTargets .seed (accessSecret credentialCR) = none := by
  refine ⟨exec_trace _ _ _, exec_steps (credentialServer.callStep fun _ => rfl) _ _,
    blocked_of_requeue (exec_trace _ _ _) (by decide +kernel), ?_, ?_⟩
  · rw [← Option.isSome_iff_ne_none]
    decide +kernel
  · rw [← Option.isNone_iff_eq_none]
    decide +kernel

end DDO.Spec
