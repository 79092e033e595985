import DualDeployment.Framework.Rekey
import DualDeployment.Impl.Transform

/-!
# The equivalence harness: unwrapping the golden render

`internal/equivalence/golden_classify.go`: `UnwrapManagedResources` takes the objects
that ManagedResources carry out of the Secrets they refer to, and passes the other
documents of a rendered chart through. Base64 and YAML are given by `GoldenLibs`.
-/

namespace DDO.Impl

/-- `base64.StdEncoding.DecodeString`, and the documents that the YAML decoder makes
of a text. -/
structure GoldenLibs where
  decodeString : String → Except Err String
  documents : String → List (Except Err JsonMap)

def isManagedResource (u : Unstructured) : Bool :=
  u.getKind == "ManagedResource" && u.groupVersionKind.group == "resources.gardener.cloud"

/-- `splitYAMLDocs`, of the documents that the decoder makes of the text. -/
def splitYAMLDocs : List (Except Err JsonMap) → Except Err (List Unstructured)
  | [] => .ok []
  | .error e :: _ => .error (.text ("equivalence: decode YAML doc: " ++ e.error))
  | .ok m :: rest =>
    -- a leading or trailing separator
    if m.isEmpty then splitYAMLDocs rest
    else
      match splitYAMLDocs rest with
      | .error e => .error e
      | .ok out => .ok (⟨m⟩ :: out)

/-- The Secrets among the documents. -/
def secrets (docs : List Unstructured) : List Unstructured := docs.filter fun d => d.getKind == "Secret"

def secretsByName (docs : List Unstructured) : AList fun _ : String => Unstructured :=
  keyedBy Unstructured.getName (secrets docs) ∅

/-- The objects of the Secret that a reference of `mr` names. -/
def unwrapSecret (libs : GoldenLibs) (secretsByName : AList fun _ : String => Unstructured) (mr : Unstructured)
    (name : String) : Except Err (List Unstructured) :=
  let noPayload : Err := .text ("equivalence: MR secret " ++ quote name ++ " has no non-empty data[objects.yaml]")
  match secretsByName.lookup name with
  | none =>
    .error (.text ("equivalence: MR " ++ quote mr.getName ++ " references Secret " ++ quote name ++
      " not found in render"))
  | some sec =>
    match sec.object.nestedString ["data", "objects.yaml"] with
    | .mistyped => .error (accessorError sec.object ["data", "objects.yaml"] "string")
    | .missing => .error noPayload
    | .found enc =>
      if enc = "" then .error noPayload
      else
        match libs.decodeString enc with
        | .error e => .error (.text ("equivalence: decode MR secret " ++ quote name ++ " objects.yaml: " ++ e.error))
        | .ok raw =>
          match splitYAMLDocs (libs.documents raw) with
          | .error e => .error (.text ("equivalence: split MR secret " ++ quote name ++ " payload: " ++ e.error))
          | .ok objs => .ok objs

/-- `m["name"].(string)`. -/
def refName (m : JsonMap) : String :=
  match m.get? "name" with
  | some (.str name) => name
  | _ => ""

/-- The loop over the references of `mr`, with what has been unwrapped and the names
that have been referenced before. -/
def unwrapRefs (libs : GoldenLibs) (secretsByName : AList fun _ : String => Unstructured) (mr : Unstructured) :
    List Json → List Unstructured → List String → Except Err (List Unstructured × List String)
  | [], fromMR, referenced => .ok (fromMR, referenced)
  | .obj m :: refs, fromMR, referenced =>
    match unwrapSecret libs secretsByName mr (refName m) with
    | .error e => .error e
    | .ok objs => unwrapRefs libs secretsByName mr refs (fromMR ++ objs) (refName m :: referenced)
  | _ :: refs, fromMR, referenced => unwrapRefs libs secretsByName mr refs fromMR referenced

/-- The loop over the ManagedResources. -/
def unwrapEach (libs : GoldenLibs) (secretsByName : AList fun _ : String => Unstructured) :
    List Unstructured → List Unstructured → List String → Except Err (List Unstructured × List String)
  | [], fromMR, referenced => .ok (fromMR, referenced)
  | d :: docs, fromMR, referenced =>
    if !isManagedResource d then unwrapEach libs secretsByName docs fromMR referenced
    else
      match d.object.nestedSlice ["spec", "secretRefs"] with
      | .mistyped => .error (accessorError d.object ["spec", "secretRefs"] "[]interface\x7b\x7d")
      | .missing => unwrapEach libs secretsByName docs fromMR referenced
      | .found refs =>
        match unwrapRefs libs secretsByName d refs fromMR referenced with
        | .error e => .error e
        | .ok (fromMR, referenced) => unwrapEach libs secretsByName docs fromMR referenced

/-- `UnwrapManagedResources`: `fromMR` and `passthrough`. -/
def unwrapManagedResources (libs : GoldenLibs) (docs : List Unstructured) :
    Except Err (List Unstructured × List Unstructured) :=
  match unwrapEach libs (secretsByName docs) docs [] [] with
  | .error e => .error e
  | .ok (fromMR, referenced) =>
    .ok (fromMR, docs.filter fun d =>
      !isManagedResource d && !(d.getKind == "Secret" && referenced.contains d.getName))

end DDO.Impl
