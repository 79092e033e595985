import DualDeployment.Proof.Deletion

/-!
# No phantom prune

`prune` tells the orphans from the rendered objects by identity keys, which
leave out the namespace of the kinds in `clusterScopedKinds`. On a server that
has just these kinds cluster-scoped, or fewer, no object of the render is
deleted (`no_phantom_prune`). A kind that is cluster-scoped on the server and
not in the list gets a namespace stamped on it, and once that changes its
object is applied and then pruned (`phantom_prune`).
-/

namespace DDO.Spec

open Impl Prog

/-- No delete request of the pass, outside teardown, takes away a live object
that its own render of that cluster contains. -/
def ServedPass.NoPhantomPrune {S : Serving} {r : Reconciler} (k : ServedPass S r) : Prop :=
  ∀ cr ms, cr.deletionTimestamp = false → Renders r k.calls cr ms →
    ∀ us₁ c u a us₂ w w', k.requests = us₁ ++ ⟨.delete c u, a⟩ :: us₂ →
      Steps (ServedStep S k.targets) k.start us₁ w → ServedStep S k.targets w ⟨.delete c u, a⟩ w' →
      ∀ m ∈ ms c, (w.live k.targets c (S.refOf (k.targets.id c) m.unstructured)).isSome →
        (w'.live k.targets c (S.refOf (k.targets.id c) m.unstructured)).isSome

section

variable {S : Serving} {T : Targets} {r : Reconciler} {w w' : World} {c : Cluster}

/-- A delete request changes nothing but its object. -/
theorem ServedStep.delete_other {u : Unstructured} {a : Option Err}
    (h : ServedStep S T w ⟨.delete c u, a⟩ w') {x : ObjRef} (hne : x ≠ S.refOf (T.id c) u) :
    w'.live T c x = w.live T c x := by
  have hset : World.SetObject T c (S.refOf (T.id c) u) none w w' → w'.live T c x = w.live T c x :=
    fun hs => hs.live_of_ne fun he => hne he.2
  cases h with
  | other hn _ => exact absurd trivial hn
  | delete _ hs => exact hset hs
  | deleteFailed hs =>
    rcases hs with ⟨rfl, -⟩ | hs
    · rfl
    · exact hset hs

/-- One pass over listed kinds. -/
theorem ServedPass.noPhantomPrune (k : ServedPass S r) (hl : k.KindsListed) : k.NoPhantomPrune := by
  intro cr ms hd hren us₁ c u a us₂ w w' he hs hstep m hm hlive
  obtain ⟨cr', hsafe⟩ := k.deletesSafely c u a us₁ us₂ w he hs
  obtain rfl := Option.some.inj (hsafe.read.symm.trans (k.renders_read hren))
  obtain ⟨ms', hms', hne⟩ := hsafe.rendered hl hd
  obtain rfl := renders_unique hren hms'
  rw [hstep.delete_other (hne m hm).2]
  exact hlive

/-- In every run of passes for any CRs, from any state and with anything
happening between the passes, a pass that renders only kinds it knows the scope
of deletes no live object of its own render. -/
theorem no_phantom_prune {between : World → World → Prop} {w₀ : World} {ks : List (ServedPass S r)}
    (h : ServedRun S r between w₀ ks w) : ∀ k ∈ ks, k.KindsListed → k.NoPhantomPrune := by
  induction h with
  | start => simp
  | @pass _ ks k _ _ ih =>
    intro k' hk' hl
    rcases List.mem_append.mp hk' with hk | hk
    · exact ih k' hk hl
    · rw [List.mem_singleton.mp hk] at hl ⊢
      exact ServedPass.noPhantomPrune k hl

/-- A pass that applies an object and deletes it prunes a phantom. -/
theorem ServedPass.phantom (k : ServedPass S r) {p : Manifest × ApplyAnswer} {u : Unstructured}
    (hp : p ∈ appliesTo c k.calls) (hu : ⟨.delete c u, none⟩ ∈ k.requests)
    (he : S.refOf (k.targets.id c) u = S.refOf (k.targets.id c) p.1.unstructured) :
    ¬k.NoPhantomPrune := by
  obtain ⟨cr, ms, -, hd, hms, hm⟩ := k.applied_rendered hp
  obtain ⟨us₁, us₂, hreq⟩ := List.append_of_mem hu
  obtain ⟨w, hw, hs⟩ := steps_append.mp (hreq ▸ k.steps)
  obtain ⟨w', hstep, -⟩ := steps_cons.mp hs
  obtain ⟨-, -, -, -, -, v, hv, -⟩ := served_delete_owned (hreq ▸ k.expand) hw
  intro hno
  have hkept := hno cr ms hd hms us₁ c u none us₂ w w' hreq hw hstep p.1 hm (by rw [← he, hv]; rfl)
  cases hstep with
  | other hn _ => exact hn trivial
  | delete _ hset =>
    rw [← he, hset.live_self] at hkept
    cases hkept

end

/-! ## A kind of each sort -/

/-- The second one, after `shootNamespace` has changed. -/
def movedPass (S : ServedServer) : ServedPass S.serving sampleReconciler :=
  S.pass sampleReconciler sampleKey
    ((firstPass S).stop.editSpec sampleKey fun spec => { spec with shootNamespace := "shoot-system" })

theorem movedPass_run {S : ServedServer} (h : ((firstPass S).stop.crs sampleKey).isSome) :
    ServedRun S.serving sampleReconciler (fun w w' => w' = w ∨ SpecChange sampleKey w w')
      (firstPass S).start [firstPass S, movedPass S] (movedPass S).stop :=
  .pass (.pass (.start _) (Or.inl rfl)) (Or.inr (World.editSpec_specChange
    (fun spec => { spec with shootNamespace := "shoot-system" }) h))

/-- The renders of the pass are these, after `ApplyNamespace`. -/
def ServedPass.Stamps {S : Serving} {r : Reconciler} (raw : Mode → List Manifest)
    (k : ServedPass S r) : Prop :=
  ∀ src mode ns a, ⟨.op (.render src mode ns), a⟩ ∈ k.requests → a = .ok (applyNamespace (raw mode) ns)

theorem ServedServer.pass_stamps (S : ServedServer) (r : Reconciler) (key : NamespacedName)
    (w : World) : (S.pass r key w).Stamps S.raw := by
  intro src mode ns a ha
  obtain ⟨w', he⟩ := exec_mem ha
  exact he

/-- The change of `shootNamespace` leaves it alone. -/
theorem no_phantom_prune_listed :
    let S := shootServer isClusterScoped sampleWebhook
    ((movedPass S).stop.live sampleTargets .shoot sampleWebhook.unstructured.ref).isSome ∧
      ∀ k ∈ [firstPass S, movedPass S], k.NoPhantomPrune := by
  refine ⟨by decide +kernel, fun k hk => ?_⟩
  refine no_phantom_prune (movedPass_run (by decide +kernel)) k hk ?_
  intro cr ms _ c m _
  exact id

/-- The pass applies the policy without an error, and deletes it. -/
def prunesPolicy (k : ServedPass policyServer.serving sampleReconciler) : Bool :=
  let ref := policyServer.serving.refOf (k.targets.id .shoot)
  (appliesTo .shoot k.calls).any (fun p => p.2.err.isNone &&
    ref p.1.unstructured = ref samplePolicy.unstructured) &&
  k.requests.any fun
    | ⟨.delete .shoot u, none⟩ => ref u = ref samplePolicy.unstructured
    | _ => false

theorem movedPass_prunes : prunesPolicy (movedPass policyServer) = true := by
  decide +kernel

theorem phantom_of_check {k : ServedPass policyServer.serving sampleReconciler}
    (h : prunesPolicy k = true) : ¬k.NoPhantomPrune := by
  simp only [prunesPolicy, Bool.and_eq_true, List.any_eq_true, decide_eq_true_eq] at h
  obtain ⟨⟨p, hp, -, hep⟩, l, hl, he⟩ := h
  split at he
  · exact k.phantom hp hl ((of_decide_eq_true he).trans hep.symm)
  · cases he

/-- After a change of `shootNamespace` the policy is applied under its new
namespace and pruned under the old one. -/
theorem phantom_prune : ∃ ks w, ServedRun policyServer.serving sampleReconciler
    (fun w w' => w' = w ∨ SpecChange sampleKey w w') (firstPass policyServer).start ks w ∧
    (∀ k ∈ ks, k.Stamps policyServer.raw) ∧ ∃ k ∈ ks, ¬k.NoPhantomPrune := by
  refine ⟨_, _, movedPass_run (by decide +kernel), ?_, movedPass policyServer, by simp, ?_⟩
  · intro k hk
    simp only [List.mem_cons, List.not_mem_nil, or_false] at hk
    rcases hk with rfl | rfl
    · exact policyServer.pass_stamps _ _ _
    · exact policyServer.pass_stamps _ _ _
  · exact phantom_of_check movedPass_prunes

end DDO.Spec
