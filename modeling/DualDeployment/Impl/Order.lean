import DualDeployment.Framework.Join
import DualDeployment.Framework.Sort
import DualDeployment.Impl.Api
import DualDeployment.Impl.Manifest

/-!
# Delivery order and identity keys

`internal/deliver/order.go`. The manifest rebuilt from an inventory entry has
the entry's group, version, kind, namespace and name, so it names the object
that the entry records (`manifestFromStatus_ref`). Identity keys tell apart
what the API server tells apart (`ObjRef.key_inj`).
-/

namespace DDO.Impl

/-! ## Order -/

def applyPriority (kind : String) : Nat :=
  if kind = "Namespace" then 0
  else if kind = "CustomResourceDefinition" then 1
  else if kind ∈ ["ClusterRole", "ClusterRoleBinding", "Role", "RoleBinding", "ServiceAccount"] then 2
  else if kind ∈ ["ValidatingWebhookConfiguration", "MutatingWebhookConfiguration"] then 4
  else 3

/-- `m₁` may stand before `m₂` in the apply order. -/
def AppliedBefore (m₁ m₂ : Manifest) : Prop :=
  applyPriority m₁.unstructured.getKind ≤ applyPriority m₂.unstructured.getKind

/-- `r₁` may stand before `r₂` in the delete order. -/
def DeletedBefore (r₁ r₂ : ResourceStatus) : Prop :=
  applyPriority r₂.kind ≤ applyPriority r₁.kind

instance : DecidableRel AppliedBefore := fun _ _ => inferInstanceAs (Decidable (_ ≤ _))

instance : DecidableRel DeletedBefore := fun _ _ => inferInstanceAs (Decidable (_ ≤ _))

instance : Std.Total AppliedBefore := ⟨fun _ _ => Nat.le_total _ _⟩

instance : IsTrans Manifest AppliedBefore := ⟨fun _ _ _ => Nat.le_trans⟩

instance : Std.Total DeletedBefore := ⟨fun _ _ => Nat.le_total _ _⟩

instance : IsTrans ResourceStatus DeletedBefore := ⟨fun _ _ _ h₁ h₂ => Nat.le_trans h₂ h₁⟩

def sortForApply (ms : List Manifest) : List Manifest := ms.insertionSort AppliedBefore

def sortForDelete (ms : List Manifest) : List Manifest := (sortForApply ms).reverse

def sortStatusForDelete (prev : List ResourceStatus) : List ResourceStatus :=
  prev.insertionSort DeletedBefore

theorem mem_sortForApply {m : Manifest} {ms : List Manifest} : m ∈ sortForApply ms ↔ m ∈ ms :=
  List.mem_insertionSort _

theorem mem_sortStatusForDelete {rs : ResourceStatus} {prev : List ResourceStatus} :
    rs ∈ sortStatusForDelete prev ↔ rs ∈ prev :=
  List.mem_insertionSort _

theorem sortForApply_sorted (ms : List Manifest) : (sortForApply ms).Pairwise AppliedBefore :=
  List.pairwise_insertionSort _ _

theorem sortStatusForDelete_sorted (prev : List ResourceStatus) :
    (sortStatusForDelete prev).Pairwise DeletedBefore :=
  List.pairwise_insertionSort _ _

/-- Within a priority the render's order is kept. -/
theorem sortForApply_stable (p : Nat) (ms : List Manifest) :
    (sortForApply ms).filter (fun m => applyPriority m.unstructured.getKind = p) =
      ms.filter fun m => applyPriority m.unstructured.getKind = p :=
  filter_insertionSort _ (fun a b ha hb => by simp_all [AppliedBefore]) ms

/-! ## Identity keys -/

/-- The group and version of an entry; an apiVersion that cannot be parsed
gives empty ones. -/
def ResourceStatus.groupVersion (rs : ResourceStatus) : GroupVersion :=
  (parseGroupVersion rs.apiVersion).getD ⟨"", ""⟩

def identityNamespace (kind ns : String) : String := if isClusterScoped kind then "" else ns

def manifestFromStatus (rs : ResourceStatus) : Manifest :=
  let u := Unstructured.setGroupVersionKind ⟨[]⟩ ⟨rs.groupVersion.group, rs.groupVersion.version, rs.kind⟩
  ⟨(u.setNamespace (identityNamespace rs.kind rs.ns)).setName rs.name, .unset⟩

def statusIdentityKey (rs : ResourceStatus) : String :=
  "/".intercalate [rs.groupVersion.group, rs.kind, identityNamespace rs.kind rs.ns, rs.name]

def manifestIdentityKey (m : Manifest) : String :=
  let gvk := m.unstructured.groupVersionKind
  "/".intercalate [gvk.group, gvk.kind, identityNamespace gvk.kind m.unstructured.getNamespace,
    m.unstructured.getName]

/-- What an identity key is the text of: the group, kind, namespace and name
that a cluster keys its objects by. -/
structure ObjRef where
  group : String
  kind : String
  ns : String
  name : String
  deriving DecidableEq

namespace ObjRef

/-- The object that a request for this kind, namespace and name is about: the
namespace is not used for a cluster-scoped kind. -/
def of (gvk : GroupVersionKind) (ns name : String) : ObjRef :=
  ⟨gvk.group, gvk.kind, identityNamespace gvk.kind ns, name⟩

def key (r : ObjRef) : String := "/".intercalate [r.group, r.kind, r.ns, r.name]

/-- No part contains the separator of the key. -/
def SlashFree (r : ObjRef) : Prop :=
  ∀ s ∈ [r.group, r.kind, r.ns, r.name], '/' ∉ s.toList

theorem key_inj {r r' : ObjRef} (hf : r'.SlashFree) (h : r.key = r'.key) : r = r' := by
  have he := @intercalate_inj '/' [r.group, r.kind, r.ns, r.name] [r'.group, r'.kind, r'.ns, r'.name]
    rfl hf h
  cases r
  cases r'
  simp only [List.cons.injEq, and_true] at he
  rw [mk.injEq]
  exact he

end ObjRef

def Unstructured.ref (u : Unstructured) : ObjRef :=
  .of u.groupVersionKind u.getNamespace u.getName

def ResourceStatus.ref (rs : ResourceStatus) : ObjRef :=
  ⟨rs.groupVersion.group, rs.kind, identityNamespace rs.kind rs.ns, rs.name⟩

theorem manifestIdentityKey_eq (m : Manifest) : manifestIdentityKey m = m.unstructured.ref.key := rfl

theorem statusIdentityKey_eq (rs : ResourceStatus) : statusIdentityKey rs = rs.ref.key := rfl

/-! ## Manifests rebuilt from entries -/

theorem parseGroupVersion_of_count_zero {s : String} (h : s.toList.count '/' = 0) :
    parseGroupVersion s = some ⟨"", s⟩ := by
  rw [parseGroupVersion]
  split_ifs with h'
  · rcases h' with rfl | rfl
    · rfl
    · cases h
  · simp only [h]

/-- What was parsed prints to a text that parses to it again. -/
theorem parseGroupVersion_toString {s : String} {gv : GroupVersion}
    (h : parseGroupVersion s = some gv) : parseGroupVersion gv.toString = some gv := by
  have hp := h
  rw [parseGroupVersion] at h
  split_ifs at h
  · cases h
    decide
  · split at h
    · cases h
      exact hp
    · rename_i hc
      obtain ⟨hs, hv⟩ := cut_at_separator hc
      rw [GroupVersion.toString]
      cases h
      split_ifs with he
      · simp only at he
        rw [he]
        exact parseGroupVersion_of_count_zero (by simpa [List.count_eq_zero] using hv)
      · rw [← hp]
        congr 1
        rw [← String.toList_inj]
        simpa using hs.symm
    · cases h

theorem groupVersion_toString (rs : ResourceStatus) :
    parseGroupVersion rs.groupVersion.toString = some rs.groupVersion := by
  rw [ResourceStatus.groupVersion]
  cases h : parseGroupVersion rs.apiVersion with
  | none => rfl
  | some gv => exact parseGroupVersion_toString h

section

variable (rs : ResourceStatus)

theorem manifestFromStatus_apiVersion :
    (manifestFromStatus rs).unstructured.getAPIVersion = rs.groupVersion.toString := by
  unfold manifestFromStatus Unstructured.setNamespace Unstructured.setName
  split <;> split <;> rfl

theorem manifestFromStatus_kind : (manifestFromStatus rs).unstructured.getKind = rs.kind := by
  unfold manifestFromStatus Unstructured.setNamespace Unstructured.setName
  split <;> split <;> rfl

theorem manifestFromStatus_namespace :
    (manifestFromStatus rs).unstructured.getNamespace = identityNamespace rs.kind rs.ns := by
  unfold manifestFromStatus Unstructured.setNamespace Unstructured.setName
  split_ifs with _ h h
  · rw [h]; rfl
  · rfl
  · rw [h]; rfl
  · rfl

theorem manifestFromStatus_name : (manifestFromStatus rs).unstructured.getName = rs.name := by
  unfold manifestFromStatus Unstructured.setNamespace Unstructured.setName
  split_ifs with h
  · rw [h]; rfl
  · rw [h]; rfl
  · rfl
  · rfl

theorem manifestFromStatus_gvk : (manifestFromStatus rs).unstructured.groupVersionKind =
    ⟨rs.groupVersion.group, rs.groupVersion.version, rs.kind⟩ := by
  rw [Unstructured.groupVersionKind, manifestFromStatus_apiVersion, groupVersion_toString,
    manifestFromStatus_kind]

theorem identityNamespace_idem (kind ns : String) :
    identityNamespace kind (identityNamespace kind ns) = identityNamespace kind ns := by
  unfold identityNamespace
  split <;> rfl

/-- The rebuilt manifest names the object the entry records. -/
theorem manifestFromStatus_ref : (manifestFromStatus rs).unstructured.ref = rs.ref := by
  rw [Unstructured.ref, manifestFromStatus_gvk, manifestFromStatus_namespace,
    manifestFromStatus_name, ObjRef.of, identityNamespace_idem, ResourceStatus.ref]

end

theorem SameIdentity.ref {u v : Unstructured} (h : SameIdentity u v) : v.ref = u.ref := by
  rw [Unstructured.ref, Unstructured.ref, h.gvk, h.ns, h.name]

end DDO.Impl
