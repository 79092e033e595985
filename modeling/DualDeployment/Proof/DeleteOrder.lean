import Mathlib.Data.List.Palindrome
import DualDeployment.Proof.Applier
import DualDeployment.Proof.Traces
import DualDeployment.Spec.Server

/-!
# Teardown order against apply order

`SortForDelete` reverses a stable sort and `SortStatusForDelete` sorts stably
the other way around. What `applyAll` records names the applied objects in
order (`applyAll_named`), so both orders are of one list of names, and they
agree if and only if the names of each priority read the same backwards
(`teardown_reverses_apply_iff`).
-/

namespace DDO.Impl

/-- The kind, namespace and name. -/
structure Named where
  kind : String
  ns : String
  name : String
  deriving DecidableEq

def ResourceStatus.named (rs : ResourceStatus) : Named := ⟨rs.kind, rs.ns, rs.name⟩

def Manifest.named (m : Manifest) : Named :=
  ⟨m.unstructured.getKind, m.unstructured.getNamespace, m.unstructured.getName⟩

end DDO.Impl

namespace DDO.Spec

open Impl Prog

/-- The names of the manifests of one priority, in the order of the render. -/
def tier (ms : List Manifest) (p : Nat) : List Named :=
  (ms.filter fun m => applyPriority m.unstructured.getKind = p).map Manifest.named

theorem map_sortForApply (ms : List Manifest) : (sortForApply ms).map Manifest.named =
    (ms.map Manifest.named).insertionSort fun a b => applyPriority a.kind ≤ applyPriority b.kind :=
  List.map_insertionSort _ _ _ _ fun _ _ _ _ => Iff.rfl

theorem map_sortStatusForDelete (st : List ResourceStatus) :
    (sortStatusForDelete st).map ResourceStatus.named = (st.map ResourceStatus.named).insertionSort
      fun a b => applyPriority b.kind ≤ applyPriority a.kind :=
  List.map_insertionSort _ _ _ _ fun _ _ _ _ => Iff.rfl

theorem filter_named (ms : List Manifest) (p : Nat) :
    (ms.map Manifest.named).filter (applyPriority ·.kind = p) = tier ms p :=
  List.filter_map ..

/-- An entry that `Apply` returns names the manifest, whatever the API server
answers. -/
theorem apply_named {c : Cluster} {m : Manifest} {ownedBy : String} {u : List (Event Resp)}
    {a : ApplyAnswer} (h : Trace (SSAApplier.apply c m ownedBy) u a) : a.status.named = m.named := by
  obtain ⟨health, msg, hst⟩ := (apply_trace h).status
  have hid := submitted_identity m ownedBy
  rw [hst, ResourceStatus.named, Manifest.named, entryFor, hid.kind, hid.ns, hid.name]

/-- What `applyAll` records names the manifests in the order it applies them. -/
theorem applyAll_named {c : Cluster} {ownedBy : String} {ms : List Manifest} {u : List (Event Resp)}
    {x : Applied} (h : Trace ((applyAll c ownedBy ms).interp ssa) u x) :
    x.statuses.map ResourceStatus.named = ms.map Manifest.named := by
  obtain ⟨t, ht, hx⟩ := trace_interp.mp h
  obtain ⟨as, rfl, rfl, rfl⟩ := applyAll_trace ht
  rw [appliedOf, List.map_map, List.map_map]
  refine List.map_congr_left fun p hp => ?_
  obtain ⟨v, hv, -⟩ := hx.mem (mem_applyEvents.mpr ⟨p, hp, rfl⟩)
  exact apply_named hv

/-- The entries that `applyAll` records for a sorted render are taken down in the
reverse of the apply order, if and only if the names of each priority read the
same backwards: within a priority the teardown keeps the apply order. -/
theorem teardown_reverses_apply_iff (c : Cluster) (ownedBy : String) (ms : List Manifest)
    {u : List (Event Resp)} {x : Applied}
    (h : Trace ((applyAll c ownedBy (sortForApply ms)).interp ssa) u x) :
    (sortStatusForDelete x.statuses).map ResourceStatus.named =
        (sortForDelete ms).map Manifest.named ↔
      ∀ p, (tier ms p).Palindrome := by
  rw [map_sortStatusForDelete, applyAll_named h, sortForDelete, List.map_reverse, map_sortForApply,
    insertionSort_eq_reverse_iff fun a : Named => applyPriority a.kind]
  simp only [filter_named, List.Palindrome.iff_reverse_eq]

/-- A namespace, a config map in it and a webhook configuration. -/
def tieredRender : List Manifest :=
  [bare "admissionregistration.k8s.io/v1" "ValidatingWebhookConfiguration" "" "metal",
    bare "v1" "ConfigMap" "metal" "config", bare "v1" "Namespace" "" "metal"]

/-- Two config maps. -/
def tiedRender : List Manifest :=
  [bare "v1" "ConfigMap" "garden" "first", bare "v1" "ConfigMap" "garden" "second"]

/-- `applyAll` of a sorted render against the sample server. -/
def applyRender (ms : List Manifest) : List (Event Resp) × Applied × World :=
  ((applyAll .seed "garden/metal" (sortForApply ms)).interp ssa).exec (sampleServer [] []).answer
    (sampleWorld (sampleCR .seedFirst .delete) (sampleCR_key _ _))

theorem applyRender_trace (ms : List Manifest) :
    Trace ((applyAll .seed "garden/metal" (sortForApply ms)).interp ssa) (applyRender ms).1
      (applyRender ms).2.1 :=
  exec_trace ..

theorem applyPriority_lt (kind : String) : applyPriority kind < 5 := by
  unfold applyPriority
  split_ifs <;> omega

theorem tieredRender_tiers (p : Nat) : (tier tieredRender p).Palindrome := by
  by_cases hp : p < 5
  · have h : ∀ p < 5, (tier tieredRender p).Palindrome := by decide +kernel
    exact h p hp
  · have hnone : ∀ m : Manifest, ¬ applyPriority m.unstructured.getKind = p := by
      intro m hm
      have := applyPriority_lt m.unstructured.getKind
      omega
    simp only [tier, hnone, decide_false, List.filter_false, List.map_nil]
    exact .nil

theorem teardown_reverses_apply_tiers :
    (sortStatusForDelete (applyRender tieredRender).2.1.statuses).map ResourceStatus.named =
      (sortForDelete tieredRender).map Manifest.named :=
  (teardown_reverses_apply_iff .seed "garden/metal" tieredRender (applyRender_trace _)).mpr
    tieredRender_tiers

/-- Of two config maps the one applied first is deleted first. -/
theorem teardown_keeps_ties :
    Trace ((applyAll .seed "garden/metal" (sortForApply tiedRender)).interp ssa)
        (applyRender tiedRender).1 (applyRender tiedRender).2.1 ∧
      (sortStatusForDelete (applyRender tiedRender).2.1.statuses).map ResourceStatus.named =
        [⟨"ConfigMap", "garden", "first"⟩, ⟨"ConfigMap", "garden", "second"⟩] ∧
      (sortForDelete tiedRender).map Manifest.named =
        [⟨"ConfigMap", "garden", "second"⟩, ⟨"ConfigMap", "garden", "first"⟩] :=
  ⟨applyRender_trace _, by decide +kernel, by decide +kernel⟩

end DDO.Spec
