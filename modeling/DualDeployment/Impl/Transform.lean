import DualDeployment.Framework.Stream
import DualDeployment.Impl.Controller

/-!
# Transformations

`internal/transform`: the selector (`selector.go`), the three kinds of
transformation (`patch.go`, `rewrite_webhook_url.go`, `filter_kinds.go`) and
`Build` (`transform.go`). The patch libraries and `path.Match` are given by
`TransformLibs`.
-/

namespace DDO.Impl

/-! ## Libraries -/

/-- `path.Match`, whether a kind has a Go type in client-go's scheme,
`StrategicMergePatch`, `MergePatch` and the JSON patch of an object, each to
the resulting document, and `UnmarshalJSON` of one. -/
structure TransformLibs where
  pathMatch : String → String → Except Err Bool
  typedStructFor : GroupVersionKind → Bool
  strategicMergePatch : JsonMap → Json → GroupVersionKind → Except Err Json
  mergePatch : JsonMap → Json → Except Err Json
  jsonPatch : List JSONPatchOp → JsonMap → Except Err Json
  unmarshalJSON : Json → Except Err JsonMap

/-- `string(origin)`. -/
def Origin.text : Origin → String
  | .unset => ""
  | .upstream => "upstream"
  | .additions => "additions"

/-! ## Accessor errors -/

/-- `%T` of a decoded value. -/
def goType : Json → String
  | .null => "<nil>"
  | .bool _ => "bool"
  | .int _ => "int64"
  | .float _ => "float64"
  | .str _ => "string"
  | .arr _ => "[]interface \x7b\x7d"
  | .obj _ => "map[string]interface \x7b\x7d"

mutual

/-- `%v` of a decoded value. -/
def goString : Json → String
  | .null => "<nil>"
  | .bool b => if b then "true" else "false"
  | .int n => toString n
  | .float text => text
  | .str s => s
  | .arr xs => "[" ++ " ".intercalate (goElements xs) ++ "]"
  | .obj m => "map[" ++ " ".intercalate (goFields m) ++ "]"

def goElements : List Json → List String
  | [] => []
  | x :: xs => goString x :: goElements xs

def goFields : List (String × Json) → List String
  | [] => []
  | (k, v) :: m => (k ++ ":" ++ goString v) :: goFields m

end

/-- The first field of a path that is looked up in something else than a map,
after these, with the value it is looked up in. -/
def mistypedAt (seen : List String) : Json → List String → Option (List String × Json)
  | _, [] => none
  | .null, _ :: _ => none
  | .obj m, f :: fs =>
    match JsonMap.get? m f with
    | none => none
    | some v => mistypedAt (seen ++ [f]) v fs
  | v, f :: _ => some (seen ++ [f], v)

/-- `jsonPath`. -/
def jsonPath (fields : List String) : String := "." ++ ".".intercalate fields

/-- The error of an accessor of a nested field that expects this type. -/
def accessorError (m : JsonMap) (fields : List String) (expected : String) : Err :=
  let text (fields : List String) (v : Json) (expected : String) : Err :=
    .text (jsonPath fields ++ " accessor error: " ++ goString v ++ " is of the type " ++ goType v ++
      ", expected " ++ expected)
  match mistypedAt [] (.obj m) fields, (Json.obj m).nested fields with
  | some (seen, v), _ => text seen v "map[string]interface\x7b\x7d"
  | none, .found v => text fields v expected
  | none, _ => text fields .null expected

/-! ## Selectors -/

/-- `Match`. -/
def Selector.selects (libs : TransformLibs) (sel : Selector) (m : Manifest) : Bool :=
  if sel.kind ≠ "" ∧ m.unstructured.getKind ≠ sel.kind then false
  else
    let named :=
      if sel.name = "" then true
      else
        match libs.pathMatch sel.name m.unstructured.getName with
        | .ok ok => ok
        | .error _ => false
    named && (sel.origin = "" || m.origin.text = sel.origin)

/-! ## Patches -/

def strategicMerge (libs : TransformLibs) (u : Unstructured) (patch : Json) : Except Err Json :=
  if libs.typedStructFor u.groupVersionKind then
    libs.strategicMergePatch u.object patch u.groupVersionKind
  else libs.mergePatch u.object patch

/-- `applyOne`. -/
def PatchSpec.applyOne (libs : TransformLibs) (spec : PatchSpec) (u : Unstructured) :
    Except Err Unstructured :=
  let result :=
    match spec.strategicMerge with
    | some patch => Impl.strategicMerge libs u patch
    | none => libs.jsonPatch spec.jsonPatch u.object
  match result with
  | .error e => .error e
  | .ok doc =>
    match libs.unmarshalJSON doc with
    | .error e => .error e
    | .ok m => .ok ⟨m⟩

/-- `errorf("<type> <kind>/<name>: %w")`. -/
def transformError (type : String) (u : Unstructured) (e : Err) : Err :=
  .text (type ++ " " ++ u.getKind ++ "/" ++ u.getName ++ ": " ++ e.error)

/-- What `patch` does to one manifest. -/
def PatchSpec.patchManifest (libs : TransformLibs) (spec : PatchSpec) (m : Manifest) :
    Except Err Manifest :=
  if spec.target.selects libs m then
    match spec.applyOne libs m.unstructured with
    | .error e => .error (transformError "patch" m.unstructured e)
    | .ok u => .ok ⟨u, m.origin⟩
  else .ok m

def patch (libs : TransformLibs) (spec : PatchSpec) : Transformation where
  apply ms :=
    let hasSM := spec.strategicMerge.isSome
    let hasJP := !spec.jsonPatch.isEmpty
    if hasSM = hasJP then .error (.text "exactly one of strategicMerge or jsonPatch must be set")
    else mapEach (spec.patchManifest libs) ms

/-! ## Webhook URLs -/

namespace RewriteWebhookURLSpec

variable (spec : RewriteWebhookURLSpec)

/-- The rewritten client config; `none` if it is left alone. -/
def rewriteClientConfig (cc : JsonMap) : Option JsonMap :=
  match cc.get? "url" with
  | some _ => none
  | none =>
    match cc.get? "service" with
    | some (.obj svc) =>
      let pathStr :=
        match JsonMap.get? svc "path" with
        | some (.str s) => s
        | _ => ""
      some ((cc.insert "url" (.str (spec.urlPrefix ++ pathStr))).erase "service")
    | _ => none

/-- What `rewriteWebhookList` makes of an entry; `none` if it is left alone. -/
def rewriteWebhook : Json → Option Json
  | .obj wh =>
    match JsonMap.get? wh "clientConfig" with
    | some (.obj cc) =>
      (spec.rewriteClientConfig cc).map fun cc => .obj (JsonMap.insert "clientConfig" (.obj cc) wh)
    | _ => none
  | _ => none

def rewriteWebhookList (u : Unstructured) : Except Err Unstructured :=
  match u.object.nestedSlice ["webhooks"] with
  | .mistyped => .error (accessorError u.object ["webhooks"] "[]interface\x7b\x7d")
  | .missing => .ok u
  | .found whs =>
    if whs.any fun wh => (spec.rewriteWebhook wh).isSome then
      -- the field has just been read, so it can be set
      .ok (u.setNestedField (.arr (whs.map fun wh => (spec.rewriteWebhook wh).getD wh)) ["webhooks"])
    else .ok u

def rewriteConversion (u : Unstructured) : Except Err Unstructured :=
  let strategy := ["spec", "conversion", "strategy"]
  let clientConfig := ["spec", "conversion", "webhook", "clientConfig"]
  match u.object.nestedString strategy with
  | .mistyped => .error (accessorError u.object strategy "string")
  | .missing => .ok u
  | .found s =>
    if s ≠ "Webhook" then .ok u
    else
      match u.object.nestedMap clientConfig with
      | .mistyped => .error (accessorError u.object clientConfig "map[string]interface\x7b\x7d")
      | .missing => .ok u
      | .found cc =>
        match spec.rewriteClientConfig cc with
        | none => .ok u
        | some cc => .ok (u.setNestedField (.obj cc) clientConfig)

/-- What `rewriteWebhookURL` does to one object. -/
def rewrite (u : Unstructured) : Except Err Unstructured :=
  if u.getKind = "ValidatingWebhookConfiguration" ∨ u.getKind = "MutatingWebhookConfiguration" then
    spec.rewriteWebhookList u
  else if u.getKind = "CustomResourceDefinition" then spec.rewriteConversion u
  else .ok u

/-- What `rewriteWebhookURL` does to one manifest. -/
def rewriteManifest (m : Manifest) : Except Err Manifest :=
  match spec.rewrite m.unstructured with
  | .error e => .error (transformError "rewriteWebhookURL" m.unstructured e)
  | .ok u => .ok ⟨u, m.origin⟩

end RewriteWebhookURLSpec

def rewriteWebhookURL (spec : RewriteWebhookURLSpec) : Transformation where
  apply ms := mapEach spec.rewriteManifest ms

/-! ## Kinds -/

/-- The manifest is dropped by `filterKinds`. -/
def FilterKindsSpec.drops (spec : FilterKindsSpec) (m : Manifest) : Bool :=
  m.unstructured.getKind ∈ spec.kinds ∧ (spec.source = "" ∨ m.origin.text = spec.source)

def filterKinds (spec : FilterKindsSpec) : Transformation where
  apply ms := .ok (ms.filter fun m => !spec.drops m)

/-! ## Build -/

/-- What `Build` makes of an entry, which must set one type. -/
def buildOne (libs : TransformLibs) (s : TransformationSpec) : Except Err Transformation :=
  match s.patch, s.rewriteWebhookURL, s.filterKinds with
  | some spec, none, none => .ok (patch libs spec)
  | none, some spec, none => .ok (rewriteWebhookURL spec)
  | none, none, some spec => .ok (filterKinds spec)
  | patch, rewriteWebhookURL, filterKinds =>
    let set := patch.isSome.toNat + rewriteWebhookURL.isSome.toNat + filterKinds.isSome.toNat
    .error (.text ("exactly one transformation type must be set per entry, got " ++ toString set))

def build (libs : TransformLibs) (specs : List TransformationSpec) : Except Err (List Transformation) :=
  mapEach (buildOne libs) specs

end DDO.Impl
