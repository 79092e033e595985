import DualDeployment.Impl.Request

/-!
# The server-side-apply applier

`internal/deliver/applier.go`, with the stripping of CA bundles
(`cabundle.go`) and the grading of health (`health.go`). Each method is the
sequence of API requests it makes. What `Apply` does to a manifest before it
sends it leaves its identity alone (`submitted_identity`).
-/

namespace DDO.Impl

open Prog

/-! ## CA bundles -/

def stripCABundleFromWebhook : Json → Json
  | .obj wh => .obj (JsonMap.removeNested ["clientConfig", "caBundle"] wh)
  | wh => wh

def stripCABundleFromWebhooks (u : Unstructured) : Unstructured :=
  match u.object.nestedSlice ["webhooks"] with
  | .found whs => u.setNestedField (.arr (whs.map stripCABundleFromWebhook)) ["webhooks"]
  | _ => u

def stripCABundleFromCRDConversion (u : Unstructured) : Unstructured :=
  u.removeNestedField ["spec", "conversion", "webhook", "clientConfig", "caBundle"]

def prepareForApply (u : Unstructured) : Unstructured :=
  if u.getKind = "ValidatingWebhookConfiguration" ∨ u.getKind = "MutatingWebhookConfiguration" then
    stripCABundleFromWebhooks u
  else if u.getKind = "CustomResourceDefinition" then stripCABundleFromCRDConversion u
  else u

theorem prepareForApply_identity (u : Unstructured) : SameIdentity u (prepareForApply u) := by
  rw [prepareForApply]
  split_ifs
  · rw [stripCABundleFromWebhooks]
    split
    · exact .setNestedField _ _ (by decide) (by decide) (by decide) (by decide)
    · exact .refl u
  · exact .removeNestedField _ (by decide) (by decide) (by decide) (by decide)
  · exact .refl u

theorem prepareForApply_ownedBy (u : Unstructured) : (prepareForApply u).ownedBy = u.ownedBy := by
  rw [prepareForApply]
  split_ifs
  · rw [stripCABundleFromWebhooks]
    split
    · refine ownedBy_congr ?_
      rw [Unstructured.setNestedField]
      cases hs : u.object.setNested _ ["webhooks"] with
      | none => rfl
      | some m => exact JsonMap.nested_setNested hs (by decide)
    · rfl
  · exact ownedBy_congr (JsonMap.nested_removeNested (by decide) _)
  · rfl

/-! ## Health -/

def replicaHealth (u : Unstructured) : HealthState :=
  match u.object.nestedInt64 ["spec", "replicas"],
      u.object.nestedInt64 ["status", "availableReplicas"] with
  | .mistyped, _ => .progressing
  | _, .mistyped => .progressing
  | replicas, available =>
    let count : Lookup Int → Int
      | .found n => n
      | _ => 0
    if count available ≥ count replicas then .healthy else .progressing

/-- The condition says that the CRD is established. -/
def isEstablished : Json → Bool
  | .obj cm =>
    match JsonMap.get? cm "type", JsonMap.get? cm "status" with
    | some (.str type), some (.str status) => type = "Established" ∧ status = "True"
    | _, _ => false
  | _ => false

def crdHealth (u : Unstructured) : HealthState :=
  match u.object.nestedSlice ["status", "conditions"] with
  | .found conds => if conds.any isEstablished then .healthy else .progressing
  | _ => .progressing

def computeHealth (u : Unstructured) : HealthState :=
  if u.getKind = "Deployment" ∨ u.getKind = "StatefulSet" then replicaHealth u
  else if u.getKind = "CustomResourceDefinition" then crdHealth u
  else .healthy

/-! ## The applier -/

/-- `strconv.IsPrint`, with every character beyond Latin-1 taken for a printable
one. -/
def isPrint (c : Char) : Bool :=
  (0x20 ≤ c.toNat ∧ c.toNat < 0x7f) ∨ (0xa1 ≤ c.toNat ∧ c.toNat ≠ 0xad)

/-- A character as `strconv.Quote` writes it. -/
def quoteChar (c : Char) : List Char :=
  let hex := [Nat.digitChar (c.toNat / 16), Nat.digitChar (c.toNat % 16)]
  if c = '"' ∨ c = '\\' then ['\\', c]
  else if isPrint c then [c]
  else
    match c.toNat with
    | 7 => ['\\', 'a']
    | 8 => ['\\', 'b']
    | 9 => ['\\', 't']
    | 10 => ['\\', 'n']
    | 11 => ['\\', 'v']
    | 12 => ['\\', 'f']
    | 13 => ['\\', 'r']
    | n => if n < 0x80 then ['\\', 'x'] ++ hex else ['\\', 'u', '0', '0'] ++ hex

/-- `%q` of a name. -/
def quote (s : String) : String := "\"" ++ String.ofList (s.toList.flatMap quoteChar) ++ "\""

/-- What `Apply` returns, with the object it leaves in the manifest, which it
writes to in place. -/
structure ApplyAnswer where
  status : ResourceStatus
  err : Option Err
  object : Unstructured

/-- The object `Apply` submits for a manifest. -/
def submitted (m : Manifest) (ownedBy : String) : Unstructured :=
  prepareForApply (m.stripInternalAnnotations.setOwnedByLabel ownedBy).unstructured

theorem submitted_identity (m : Manifest) (ownedBy : String) :
    SameIdentity m.unstructured (submitted m ownedBy) :=
  ((stripInternalAnnotations_identity m).trans (setOwnedByLabel_identity _ ownedBy)).trans
    (prepareForApply_identity _)

/-- What `Apply` submits carries the label. -/
theorem submitted_ownedBy {m : Manifest} (ownedBy : String) (hn : m.unstructured.getName ≠ "") :
    (submitted m ownedBy).ownedBy = ownedBy := by
  rw [submitted, prepareForApply_ownedBy]
  exact setOwnedByLabel_ownedBy ownedBy ((stripInternalAnnotations_identity m).name ▸ hn)

/-- The entry for a submitted object. -/
def entryFor (u : Unstructured) (health : HealthState) (message : String) : ResourceStatus :=
  ⟨u.getKind, u.getAPIVersion, u.getNamespace, u.getName, health, message⟩

theorem SameIdentity.entryFor {u v : Unstructured} (h : SameIdentity u v) (health : HealthState)
    (message : String) : entryFor v health message = entryFor u health message := by
  rw [Impl.entryFor, h.kind, h.apiVersion, h.ns, h.name, Impl.entryFor]

/-- The entry records the object, if its apiVersion can be parsed. -/
theorem entryFor_ref {u : Unstructured} (h : (parseGroupVersion u.getAPIVersion).isSome)
    (health : HealthState) (message : String) : (entryFor u health message).ref = u.ref := by
  obtain ⟨gv, hgv⟩ := Option.isSome_iff_exists.mp h
  simp only [ResourceStatus.ref, ResourceStatus.groupVersion, entryFor, Unstructured.ref,
    Unstructured.groupVersionKind, hgv, Option.getD_some, ObjRef.of]

namespace SSAApplier

def get (c : Cluster) (m : Manifest) : Prog Req Resp (Except Err Unstructured) :=
  request (Req.get c m.unstructured.groupVersionKind m.unstructured.getNamespace m.unstructured.getName)

/-- The owner of the live object, and whether it is another CR. -/
def foreignOwner (c : Cluster) (u : Unstructured) (ownedBy : String) :
    Prog Req Resp (Except Err (String × Bool)) := do
  match ← request (Req.get c u.groupVersionKind u.getNamespace u.getName) with
  | .error e => pure (if e.isNotFound then .ok ("", false) else .error e)
  | .ok live => pure (.ok (live.ownedBy, live.ownedBy ≠ "" ∧ live.ownedBy ≠ ownedBy))

/-- The second half of `Apply`: the write and the read-back. -/
def patchAndRead (c : Cluster) (u : Unstructured) : Prog Req Resp ApplyAnswer := do
  match ← request (Req.patch c u) with
  | .error e => pure ⟨entryFor u .degraded e.error, some e, u⟩
  | .ok v =>
    match ← request (Req.get c v.groupVersionKind v.getNamespace v.getName) with
    | .error e =>
      pure ⟨entryFor u .unknown ("apply succeeded but read-back GET failed: " ++ e.error), none, v⟩
    | .ok live => pure ⟨entryFor u (computeHealth live) "", none, v⟩

def apply (c : Cluster) (m : Manifest) (ownedBy : String) : Prog Req Resp ApplyAnswer :=
  let u := submitted m ownedBy
  if isClusterScoped u.getKind then do
    match ← foreignOwner c u ownedBy with
    | .error e =>
      pure ⟨entryFor u .degraded ("cluster-scoped conflict pre-check failed for " ++ u.getKind ++ " " ++
        quote u.getName ++ ": " ++ e.error), some e, u⟩
    | .ok (owner, true) =>
      let message := "cluster-scoped " ++ u.getKind ++ " " ++ quote u.getName ++ " already owned by CR " ++
        quote owner ++ "; refusing to overwrite (single-install-per-seed)"
      pure ⟨entryFor u .degraded message, some (.text message), u⟩
    | .ok (_, false) => patchAndRead c u
  else patchAndRead c u

def delete (c : Cluster) (m : Manifest) (ownedBy : String) : Prog Req Resp (Option Err) := do
  match ← get c m with
  | .error e => pure (if e.isNotFound then none else some e)
  | .ok live =>
    if live.ownedBy ≠ ownedBy then pure none
    else
      match ← request (Req.delete c m.unstructured) with
      | some e => pure (if e.isNotFound then none else some e)
      | none => pure none

end SSAApplier

end DDO.Impl
