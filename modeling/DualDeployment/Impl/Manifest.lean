import DualDeployment.Framework.Json

/-!
# Manifests

`internal/manifest`, over the accessors of apimachinery's
`unstructured.Unstructured` that it uses. Setting labels or annotations
leaves the identity of an object alone (`setLabels_identity`,
`setAnnotations_identity`).
-/

namespace DDO.Impl

/-- `unstructured.Unstructured`. -/
structure Unstructured where
  object : JsonMap

/-! ## Group, version and kind -/

structure GroupVersion where
  group : String
  version : String
  deriving DecidableEq

structure GroupVersionKind where
  group : String
  version : String
  kind : String
  deriving DecidableEq

/-- `schema.ParseGroupVersion`; `none` is its error. -/
def parseGroupVersion (gv : String) : Option GroupVersion :=
  if gv = "" ∨ gv = "/" then some ⟨"", ""⟩
  else
    match gv.toList.count '/' with
    | 0 => some ⟨"", gv⟩
    | 1 => some ⟨String.ofList (gv.toList.takeWhile (· ≠ '/')),
        String.ofList ((gv.toList.dropWhile (· ≠ '/')).drop 1)⟩
    | _ => none

/-- `GroupVersion.String`. -/
def GroupVersion.toString (gv : GroupVersion) : String :=
  if gv.group = "" then gv.version else gv.group ++ "/" ++ gv.version

/-! ## Unstructured objects -/

namespace Unstructured

/-- `getNestedString`: the empty string unless there is one. -/
def getNestedString (u : Unstructured) (fields : List String) : String :=
  match u.object.nestedString fields with
  | .found s => s
  | _ => ""

/-- `setNestedField`, which ignores the error. -/
def setNestedField (u : Unstructured) (val : Json) (fields : List String) : Unstructured :=
  ⟨(u.object.setNested val fields).getD u.object⟩

/-- `RemoveNestedField`. -/
def removeNestedField (u : Unstructured) (fields : List String) : Unstructured :=
  ⟨u.object.removeNested fields⟩

def getAPIVersion (u : Unstructured) : String := u.getNestedString ["apiVersion"]

def getKind (u : Unstructured) : String := u.getNestedString ["kind"]

def getNamespace (u : Unstructured) : String := u.getNestedString ["metadata", "namespace"]

def getName (u : Unstructured) : String := u.getNestedString ["metadata", "name"]

def setAPIVersion (u : Unstructured) (version : String) : Unstructured :=
  u.setNestedField (.str version) ["apiVersion"]

def setKind (u : Unstructured) (kind : String) : Unstructured :=
  u.setNestedField (.str kind) ["kind"]

def setNamespace (u : Unstructured) (ns : String) : Unstructured :=
  if ns = "" then u.removeNestedField ["metadata", "namespace"]
  else u.setNestedField (.str ns) ["metadata", "namespace"]

def setName (u : Unstructured) (name : String) : Unstructured :=
  if name = "" then u.removeNestedField ["metadata", "name"]
  else u.setNestedField (.str name) ["metadata", "name"]

/-- `GroupVersionKind`: all empty if the apiVersion cannot be parsed. -/
def groupVersionKind (u : Unstructured) : GroupVersionKind :=
  match parseGroupVersion u.getAPIVersion with
  | some gv => ⟨gv.group, gv.version, u.getKind⟩
  | none => ⟨"", "", ""⟩

def setGroupVersionKind (u : Unstructured) (gvk : GroupVersionKind) : Unstructured :=
  (u.setAPIVersion (GroupVersion.toString ⟨gvk.group, gvk.version⟩)).setKind gvk.kind

/-- The strings of a string map: a null is an empty string, and `none` if some
value is neither. -/
def stringMap : JsonMap → Option (List (String × String))
  | [] => some []
  | (k, .str s) :: m => (stringMap m).map ((k, s) :: ·)
  | (k, .null) :: m => (stringMap m).map ((k, "") :: ·)
  | _ :: _ => none

/-- `NestedNullCoercingStringMap`; `none` is `nil`. -/
def getStringMap (u : Unstructured) (fields : List String) : Option (List (String × String)) :=
  match u.object.nestedMap fields with
  | .found m => stringMap m
  | _ => none

/-- `setNestedMap`. -/
def setStringMap (u : Unstructured) (m : List (String × String)) (fields : List String) :
    Unstructured :=
  u.setNestedField (.obj (m.map fun f => (f.1, .str f.2))) fields

def getLabels (u : Unstructured) : Option (List (String × String)) :=
  u.getStringMap ["metadata", "labels"]

def getAnnotations (u : Unstructured) : Option (List (String × String)) :=
  u.getStringMap ["metadata", "annotations"]

def setLabels (u : Unstructured) (labels : List (String × String)) : Unstructured :=
  u.setStringMap labels ["metadata", "labels"]

/-- `SetAnnotations`; of `nil`, it removes the field. -/
def setAnnotations (u : Unstructured) : Option (List (String × String)) → Unstructured
  | none => u.removeNestedField ["metadata", "annotations"]
  | some anns => u.setStringMap anns ["metadata", "annotations"]

theorem getNestedString_setNestedField {p q : List String} (hd : JsonMap.Diverge p q)
    (u : Unstructured) (val : Json) :
    (u.setNestedField val p).getNestedString q = u.getNestedString q := by
  rw [setNestedField, getNestedString, getNestedString]
  cases hs : u.object.setNested val p with
  | none => rfl
  | some m => rw [Option.getD_some, JsonMap.nestedString_setNested hs hd]

theorem getNestedString_removeNestedField {p q : List String} (hd : JsonMap.Diverge p q)
    (u : Unstructured) : (u.removeNestedField p).getNestedString q = u.getNestedString q := by
  rw [removeNestedField, getNestedString, getNestedString, JsonMap.nestedString_removeNested hd]

end Unstructured

/-- Indexing a Go `map[string]string`: the empty string if there is no entry. -/
def lookupString (m : List (String × String)) (key : String) : String := (m.lookup key).getD ""

/-- `m[key] = val`, keeping the order of the keys. -/
def insertString (key val : String) : List (String × String) → List (String × String)
  | [] => [(key, val)]
  | (k, v) :: m =>
    if k = key then (key, val) :: m
    else if key < k then (key, val) :: (k, v) :: m
    else (k, v) :: insertString key val m

/-- `delete(m, key)`. -/
def deleteString (key : String) (m : List (String × String)) : List (String × String) :=
  m.filter fun f => f.1 ≠ key

/-! ## Manifests -/

def OriginAnnotation : String := "dual-deployment-operator.cc.sap/origin"

def OwnedByLabel : String := "dual-deployment-operator.cc.sap/owned-by"

/-- `Origin`, with the empty string of a manifest that has none. -/
inductive Origin where
  | unset
  | upstream
  | additions
  deriving DecidableEq

structure Manifest where
  unstructured : Unstructured
  origin : Origin

def clusterScopedKinds : List String :=
  ["CustomResourceDefinition", "ClusterRole", "ClusterRoleBinding", "Namespace", "PriorityClass",
    "StorageClass", "ClusterIssuer", "APIService", "ValidatingWebhookConfiguration",
    "MutatingWebhookConfiguration", "PersistentVolume", "IngressClass", "RuntimeClass",
    "PriorityLevelConfiguration", "FlowSchema", "CSIDriver", "CSINode", "VolumeAttachment",
    "NodeClass"]

def isClusterScoped (kind : String) : Bool := kind ∈ clusterScopedKinds

/-- `OwnedByValue`, for a given hex SHA-256. -/
def ownedByValue (sha256Hex : String → String) (ns name : String) : String :=
  String.ofList ((sha256Hex (ns ++ "/" ++ name)).toList.take 16)

/-- `live.GetLabels()[manifest.OwnedByLabel]`. -/
def Unstructured.ownedBy (u : Unstructured) : String :=
  lookupString (u.getLabels.getD []) OwnedByLabel

namespace Manifest

/-- Removes the origin annotation, and the annotations if none is left. -/
def stripInternalAnnotations (m : Manifest) : Manifest :=
  match m.unstructured.getAnnotations with
  | none => m
  | some anns =>
    match deleteString OriginAnnotation anns with
    | [] => { m with unstructured := m.unstructured.setAnnotations none }
    | anns => { m with unstructured := m.unstructured.setAnnotations (some anns) }

def setOwnedByLabel (m : Manifest) (ownedBy : String) : Manifest :=
  let labels := m.unstructured.getLabels.getD []
  { m with unstructured := m.unstructured.setLabels (insertString OwnedByLabel ownedBy labels) }

/-- What `ApplyNamespace` does to one manifest: a cluster-scoped kind loses its
namespace, and any other gets this one if it has none. -/
def applyNamespace (ns : String) (m : Manifest) : Manifest :=
  let u := m.unstructured
  if isClusterScoped u.getKind then
    if u.getNamespace ≠ "" then { m with unstructured := u.setNamespace "" } else m
  else if ns = "" then m
  else if u.getNamespace ≠ "" then m
  else { m with unstructured := u.setNamespace ns }

end Manifest

def applyNamespace (ms : List Manifest) (ns : String) : List Manifest :=
  ms.map (Manifest.applyNamespace ns)

/-! ## Identity -/

/-- The two objects have the same apiVersion, kind, namespace and name. -/
structure SameIdentity (u v : Unstructured) : Prop where
  apiVersion : v.getAPIVersion = u.getAPIVersion
  kind : v.getKind = u.getKind
  ns : v.getNamespace = u.getNamespace
  name : v.getName = u.getName

namespace SameIdentity

theorem refl (u : Unstructured) : SameIdentity u u := ⟨rfl, rfl, rfl, rfl⟩

theorem trans {u v w : Unstructured} (h₁ : SameIdentity u v) (h₂ : SameIdentity v w) :
    SameIdentity u w :=
  ⟨h₂.1.trans h₁.1, h₂.2.trans h₁.2, h₂.3.trans h₁.3, h₂.4.trans h₁.4⟩

theorem gvk {u v : Unstructured} (h : SameIdentity u v) :
    v.groupVersionKind = u.groupVersionKind := by
  rw [Unstructured.groupVersionKind, h.apiVersion, h.kind, Unstructured.groupVersionKind]

/-- A write to a field off the four paths of the identity. -/
theorem setNestedField {p : List String} (u : Unstructured) (val : Json)
    (h₁ : JsonMap.Diverge p ["apiVersion"]) (h₂ : JsonMap.Diverge p ["kind"])
    (h₃ : JsonMap.Diverge p ["metadata", "namespace"])
    (h₄ : JsonMap.Diverge p ["metadata", "name"]) : SameIdentity u (u.setNestedField val p) :=
  ⟨Unstructured.getNestedString_setNestedField h₁ u val,
    Unstructured.getNestedString_setNestedField h₂ u val,
    Unstructured.getNestedString_setNestedField h₃ u val,
    Unstructured.getNestedString_setNestedField h₄ u val⟩

theorem removeNestedField {p : List String} (u : Unstructured)
    (h₁ : JsonMap.Diverge p ["apiVersion"]) (h₂ : JsonMap.Diverge p ["kind"])
    (h₃ : JsonMap.Diverge p ["metadata", "namespace"])
    (h₄ : JsonMap.Diverge p ["metadata", "name"]) : SameIdentity u (u.removeNestedField p) :=
  ⟨Unstructured.getNestedString_removeNestedField h₁ u,
    Unstructured.getNestedString_removeNestedField h₂ u,
    Unstructured.getNestedString_removeNestedField h₃ u,
    Unstructured.getNestedString_removeNestedField h₄ u⟩

end SameIdentity

theorem setLabels_identity (u : Unstructured) (labels : List (String × String)) :
    SameIdentity u (u.setLabels labels) :=
  .setNestedField _ _ (by decide) (by decide) (by decide) (by decide)

theorem setAnnotations_identity (u : Unstructured) (anns : Option (List (String × String))) :
    SameIdentity u (u.setAnnotations anns) := by
  cases anns with
  | none => exact .removeNestedField _ (by decide) (by decide) (by decide) (by decide)
  | some anns => exact .setNestedField _ _ (by decide) (by decide) (by decide) (by decide)

theorem stripInternalAnnotations_identity (m : Manifest) :
    SameIdentity m.unstructured m.stripInternalAnnotations.unstructured := by
  rw [Manifest.stripInternalAnnotations]
  split
  · exact .refl _
  · split
    · exact setAnnotations_identity m.unstructured none
    · exact setAnnotations_identity m.unstructured (some _)

theorem setOwnedByLabel_identity (m : Manifest) (ownedBy : String) :
    SameIdentity m.unstructured (m.setOwnedByLabel ownedBy).unstructured :=
  setLabels_identity _ _

/-! ## The owned-by label -/

theorem lookupString_insertString (key val : String) (m : List (String × String)) :
    lookupString (insertString key val m) key = val := by
  induction m with
  | nil => simp [insertString, lookupString]
  | cons f m ih =>
    obtain ⟨k, v⟩ := f
    rw [insertString]
    split_ifs with h h'
    · simp [lookupString]
    · simp [lookupString]
    · have hne : (key == k) = false := by simpa using fun he => h he.symm
      rw [lookupString, List.lookup_cons, hne]
      exact ih

theorem stringMap_str (m : List (String × String)) :
    Unstructured.stringMap (m.map fun f => (f.1, Json.str f.2)) = some m := by
  induction m with
  | nil => rfl
  | cons f m ih =>
    simp only [List.map_cons, Unstructured.stringMap, ih]
    rfl

/-- A write off the labels keeps the label. -/
theorem ownedBy_congr {u v : Unstructured}
    (h : (Json.obj v.object).nested ["metadata", "labels"] =
      (Json.obj u.object).nested ["metadata", "labels"]) : v.ownedBy = u.ownedBy := by
  simp only [Unstructured.ownedBy, Unstructured.getLabels, Unstructured.getStringMap,
    JsonMap.nestedMap, h]

/-- The label that was set is read back, from an object that has a name. -/
theorem setOwnedByLabel_ownedBy {m : Manifest} (ownedBy : String) (hn : m.unstructured.getName ≠ "") :
    (m.setOwnedByLabel ownedBy).unstructured.ownedBy = ownedBy := by
  have hfound : ∃ v, (Json.obj m.unstructured.object).nested ["metadata", "name"] = .found v := by
    simp only [Unstructured.getName, Unstructured.getNestedString, JsonMap.nestedString] at hn
    cases h : (Json.obj m.unstructured.object).nested ["metadata", "name"] with
    | found v => exact ⟨v, rfl⟩
    | missing => simp [h] at hn
    | mistyped => simp [h] at hn
  obtain ⟨v, hv⟩ := hfound
  obtain ⟨m', hm'⟩ := JsonMap.setNested_sibling hv "labels" (.obj ((insertString OwnedByLabel ownedBy
    (m.unstructured.getLabels.getD [])).map fun f => (f.1, .str f.2)))
  have hlabels : (m.setOwnedByLabel ownedBy).unstructured.getLabels =
      some (insertString OwnedByLabel ownedBy (m.unstructured.getLabels.getD [])) := by
    simp only [Manifest.setOwnedByLabel, Unstructured.setLabels, Unstructured.setStringMap,
      Unstructured.setNestedField, hm', Option.getD_some]
    rw [Unstructured.getLabels, Unstructured.getStringMap, JsonMap.nestedMap,
      JsonMap.nested_setNested_self hm']
    exact stringMap_str _
  rw [Unstructured.ownedBy, hlabels, Option.getD_some, lookupString_insertString]

end DDO.Impl
