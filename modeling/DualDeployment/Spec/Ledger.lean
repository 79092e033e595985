import DualDeployment.Framework.Prog
import DualDeployment.Proof.Traces
import DualDeployment.Spec.World

/-!
# The ledger

What the inventories of a CR are for, without the objects: which objects on
the two clusters carry its owned-by value, and the persisted status. A call
of the reconciler can only add the object it applies, and some answers tell
that an object is not owned any more (`Ledger.Step`). The calls on the world
refine these steps (`callStep_ledger` in `Proof/Refinement`).
-/

namespace DDO.Spec

open Impl

/-- The live object carries the owned-by value. -/
def World.Owned (w : World) (T : Targets) (ownedBy : String) (c : Cluster) (r : ObjRef) : Prop :=
  ∃ u, w.live T c r = some u ∧ u.ownedBy = ownedBy

structure Ledger where
  owned : Cluster → ObjRef → Prop
  status : Option Status

/-- The ledger of a CR in a world. -/
def World.ledger (w : World) (T : Targets) (ownedBy : String) (key : NamespacedName) : Ledger :=
  ⟨w.Owned T ownedBy, (w.crs key).map (·.status)⟩

/-- The call applies this object. -/
def Adds (c : Cluster) (r : ObjRef) : CallEvent → Prop
  | ⟨.apply c' m _, _⟩ => c' = c ∧ m.unstructured.ref = r
  | _ => False

/-- The answer tells that this object is absent or does not carry the value. -/
def Clears (ownedBy : String) (c : Cluster) (r : ObjRef) : CallEvent → Prop
  | ⟨.get c' m, .error e⟩ => c' = c ∧ m.unstructured.ref = r ∧ (e.isNotFound ∨ e.isNoMatch)
  | ⟨.get c' m, .ok live⟩ => c' = c ∧ m.unstructured.ref = r ∧ live.ownedBy ≠ ownedBy
  | ⟨.delete c' m ownedBy', none⟩ => c' = c ∧ m.unstructured.ref = r ∧ ownedBy' = ownedBy
  | _ => False

/-- The call can change the persisted status of this CR: a status write, or an
update that leaves it no finalizer. -/
def WritesStatus (key : NamespacedName) : CallEvent → Prop
  | ⟨.op (.updateStatus cr), _⟩ => cr.key = key
  | ⟨.op (.updateCR cr), _⟩ => cr.key = key ∧ cr.finalizers = []
  | _ => False

/-- A call as a step of the ledger. -/
structure Ledger.Step (ownedBy : String) (key : NamespacedName) (s : Ledger) (l : CallEvent)
    (s' : Ledger) : Prop where
  adds : ∀ c r, s'.owned c r → s.owned c r ∨ Adds c r l
  clears : ∀ c r, Clears ownedBy c r l → ¬s'.owned c r
  reads : ∀ cr, l = ⟨.op (.getCR key), .ok cr⟩ → s.status = some cr.status ∧ cr.key = key
  writes : ∀ cr, l = ⟨.op (.updateStatus cr), none⟩ → cr.key = key → s'.status = some cr.status
  keeps : ¬WritesStatus key l → s'.status = s.status
  returns : ∀ c m o a, l = ⟨.apply c m o, a⟩ → a.object.ref = m.unstructured.ref ∧
    ∃ health msg, a.status = entryFor m.unstructured health msg

/-- What others may do: they do not put this value on an object and leave the
status of the CR alone. -/
structure Foreign (T : Targets) (ownedBy : String) (key : NamespacedName) (w w' : World) : Prop where
  owned : ∀ c r, w'.Owned T ownedBy c r → w.Owned T ownedBy c r
  status : (w'.crs key).map (·.status) = (w.crs key).map (·.status)

theorem Foreign.refl (T : Targets) (ownedBy : String) (key : NamespacedName) (w : World) :
    Foreign T ownedBy key w w :=
  ⟨fun _ _ => id, rfl⟩

section

variable {ownedBy : String} {key : NamespacedName} {s s' : Ledger} {t : List CallEvent}

/-- Only what is applied is added, over a whole run. -/
theorem Ledger.steps_adds (h : Steps (Ledger.Step ownedBy key) s t s') {c : Cluster} {r : ObjRef}
    (ho : s'.owned c r) : s.owned c r ∨ ∃ l ∈ t, Adds c r l := by
  induction h with
  | nil => exact Or.inl ho
  | cons h₁ _ ih =>
    rcases ih ho with h | ⟨l, hl, ha⟩
    · rcases h₁.adds c r h with h | h
      · exact Or.inl h
      · exact Or.inr ⟨_, List.mem_cons_self, h⟩
    · exact Or.inr ⟨l, List.mem_cons_of_mem _ hl, ha⟩

/-- An object that was cleared and not applied since is not owned. -/
theorem Ledger.steps_clears (t₁ t₂ : List CallEvent) {l : CallEvent}
    (h : Steps (Ledger.Step ownedBy key) s (t₁ ++ l :: t₂) s') {c : Cluster} {r : ObjRef}
    (hc : Clears ownedBy c r l) (hn : ∀ l' ∈ t₂, ¬Adds c r l') : ¬s'.owned c r := by
  obtain ⟨s₁, -, h₂⟩ := steps_append.mp h
  obtain ⟨s₂, h₃, h₄⟩ := steps_cons.mp h₂
  intro ho
  rcases Ledger.steps_adds h₄ ho with ho | ⟨l', hl, ha⟩
  · exact h₃.clears c r hc ho
  · exact hn l' hl ha

theorem Ledger.steps_keeps (h : Steps (Ledger.Step ownedBy key) s t s')
    (hn : ∀ l ∈ t, ¬WritesStatus key l) : s'.status = s.status := by
  induction h with
  | nil => rfl
  | cons h₁ _ ih =>
    rw [ih fun l hl => hn l (List.mem_cons_of_mem _ hl), h₁.keeps (hn _ List.mem_cons_self)]

end

end DDO.Spec
