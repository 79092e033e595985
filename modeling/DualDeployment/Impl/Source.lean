import DualDeployment.Framework.Lru
import DualDeployment.Impl.Fetch

/-!
# Sources and the render cache

`internal/source`, the part that renders: the parsing of rendered manifests
(`internal/manifest/parse.go`), the Helm and kustomize sources (`helm.go`,
`kustomize.go`), the cache key (`cachekey.go`) and the source that caches
renders (`cache.go`), as `source.From` puts them together.
-/

namespace DDO.Impl

open Prog

/-! ## Parsing -/

def originOf (u : Unstructured) (fallback : Origin) : Origin :=
  if lookupString (u.getAnnotations.getD []) OriginAnnotation = "additions" then .additions else fallback

/-- The loop of `Parse` over the decoded documents, from document `idx` on. -/
def parseDocuments (fallback : Origin) : Nat → List (Except Err JsonMap) → Except Err (List Manifest)
  | _, [] => .ok []
  | idx, .error e :: _ =>
    .error (.text ("manifest: decode document " ++ toString idx ++ ": " ++ e.error))
  | idx, .ok obj :: rest =>
    -- an empty, comment-only or null document
    if obj.isEmpty then parseDocuments fallback (idx + 1) rest
    else
      let u : Unstructured := ⟨obj⟩
      if u.getAPIVersion = "" then
        .error (.text ("manifest: document " ++ toString idx ++ " is missing apiVersion"))
      else if u.getKind = "" then
        .error (.text ("manifest: document " ++ toString idx ++ " is missing kind"))
      else
        match parseDocuments fallback (idx + 1) rest with
        | .error e => .error e
        | .ok ms => .ok (⟨u, originOf u fallback⟩ :: ms)

/-- `Parse`, of the documents that the YAML decoder makes of the text. -/
def parse (documents : List (Except Err JsonMap)) (fallback : Origin) : Except Err (List Manifest) :=
  parseDocuments fallback 0 documents

/-! ## Rendering -/

/-- `encoding/json`, `crypto/sha256`, `net/url` and Helm's `CoalesceTables`, which
the cache key and the values are computed with, and what the charts are once they
are expanded. -/
structure Libs where
  net : NetURL
  charts : Charts
  marshal : JsonMap → Option String
  unmarshal : Json → Except String JsonMap
  sha256Hex : String → String
  coalesceTables : JsonMap → JsonMap → JsonMap

/-- Helm and kustomize: a chart that cannot be loaded, `helm install` of a chart
with values, a release name and a namespace, and a kustomize build of a root,
both to YAML, and the documents of a YAML text. -/
structure Engines where
  loadFails : LoadedChart → Option Err
  install : LoadedChart → JsonMap → String → String → Except Err String
  build : KustomizeRoot → Except Err String
  documents : String → List (Except Err JsonMap)

def Mode.text : Mode → String
  | .seed => "seed"
  | .shoot => "shoot"

/-- One step of `mergeValues`: the values given are laid over those so far. -/
def mergeStep (L : Libs) (base : JsonMap) : Option Json → Except Err JsonMap
  | none => .ok base
  | some raw =>
    match L.unmarshal raw with
    | .error e => .error (.text ("source: parse values: " ++ e))
    | .ok m => .ok (L.coalesceTables m base)

def mergeValues (L : Libs) (common modeSpecific : Option Json) : Except Err JsonMap :=
  match mergeStep L [] common with
  | .error e => .error e
  | .ok base => mergeStep L base modeSpecific

def HelmSource.modeValues (spec : HelmSource) : Mode → Option Json
  | .seed => spec.seedValues
  | .shoot => spec.shootValues

def KustomizeSource.subPath (spec : KustomizeSource) : Mode → String
  | .seed => spec.seedPath
  | .shoot => spec.shootPath

/-- The manifests of a rendered text. -/
def manifestsOf (E : Engines) (ns yaml : String) : Except Err (List Manifest) :=
  match parse (E.documents yaml) .upstream with
  | .error e => .error (.text ("source: parse rendered manifests: " ++ e.error))
  | .ok ms => .ok (applyNamespace ms ns)

/-- `helmSource.Render`, from the chart on. -/
def renderChart (L : Libs) (E : Engines) (spec : HelmSource) (mode : Mode) (ns : String)
    (chart : LoadedChart) : Except Err (List Manifest) :=
  match mergeValues L spec.values (spec.modeValues mode) with
  | .error e => .error e
  | .ok vals =>
    if (vals.get? "mode").isSome then
      .error (.text "source: 'mode' is operator-controlled and must not be set in values")
    else
      match E.install chart (vals.insert "mode" (.str mode.text)) spec.name ns with
      | .error e => .error (.text ("source: helm render (mode=" ++ mode.text ++ "): " ++ e.error))
      | .ok yaml => manifestsOf E ns yaml

/-- `kustomizeSource.Render`, from the checked-out root on. -/
def renderRoot (E : Engines) (mode : Mode) (ns : String) (root : KustomizeRoot) :
    Except Err (List Manifest) :=
  match E.build root with
  | .error e => .error (.text ("source: kustomize build (mode=" ++ mode.text ++ "): " ++ e.error))
  | .ok yaml => manifestsOf E ns yaml

/-- `helmSource` and `kustomizeSource`. -/
inductive InnerSource where
  | helm (spec : HelmSource) (loader : HelmLoader)
  | kustomize (spec : KustomizeSource) (resolver : GitResolver)

namespace InnerSource

def render (L : Libs) (E : Engines) (mode : Mode) (ns : String) :
    InnerSource → Fetching (Except Err (List Manifest))
  | .helm spec loader => do
    match ← loader.load L.net L.charts spec.repo spec.name spec.version with
    | .error e => pure (.error (.text ("source: load chart: " ++ e.error)))
    | .ok chart =>
      match E.loadFails chart with
      | some e => pure (.error (.text ("source: load chart: " ++ e.error)))
      | none => pure (renderChart L E spec mode ns chart)
  | .kustomize spec resolver => do
    match ← resolver.root L.net spec.url (spec.subPath mode) with
    | .error e =>
      pure (.error (.text ("source: resolve kustomize root (mode=" ++ mode.text ++ "): " ++ e.error)))
    | .ok root => pure (renderRoot E mode ns root)

/-- The `resolve` function that `wrapHelm` or `wrapKustomize` closes over: the
content id and the scope. -/
def resolve (L : Libs) : InnerSource → Fetching (Except Err (String × String))
  | .helm spec loader =>
    match HelmLoader.repoScope L.net spec.repo with
    | .error e => pure (.error e)
    | .ok scope => do
      match ← loader.resolveID L.net spec.repo spec.name spec.version with
      | .error e => pure (.error e)
      | .ok id => pure (.ok (id, scope))
  | .kustomize spec resolver =>
    match GitResolver.repoScope L.net spec.url with
    | .error e => pure (.error e)
    | .ok scope => do
      match ← resolver.resolveID L.net spec.url with
      | .error e => pure (.error e)
      | .ok id => pure (.ok (id, scope))

end InnerSource

/-! ## The cache key -/

/-- `keyParts`. -/
structure KeyParts where
  sourceKind : String
  repoScope : String
  resolvedID : String
  mode : String
  inputHash : String
  ns : String

def KeyParts.string (k : KeyParts) : String :=
  "|".intercalate [k.sourceKind, k.repoScope, k.resolvedID, k.mode, k.inputHash, k.ns]

def hashValues (L : Libs) (v : JsonMap) : String :=
  L.sha256Hex ((L.marshal v).getD "\x00unmarshalable")

/-- Sets a field to merged values, unless they could not be merged. -/
def insertMerged (key : String) (merged : Except Err JsonMap) (base : JsonMap) : JsonMap :=
  match merged with
  | .ok vals => base.insert key (.obj vals)
  | .error _ => base

/-- The inputs of a Helm render that are hashed. -/
def helmInputs (L : Libs) (spec : HelmSource) : JsonMap :=
  let base := (JsonMap.insert "name" (.str spec.name) []).insert "version" (.str spec.version)
  let base := insertMerged "seedValues" (mergeValues L spec.values spec.seedValues) base
  insertMerged "shootValues" (mergeValues L spec.values spec.shootValues) base

/-- The root path of a URL; that of a bad one is empty. -/
def rootSubPathOf (net : NetURL) (url : String) : String :=
  match splitRef net url with
  | .ok (_, sub, _) => sub
  | .error _ => ""

/-- The inputs of a kustomize render that are hashed. -/
def kustomizeInputs (L : Libs) (spec : KustomizeSource) : JsonMap :=
  ((JsonMap.insert "rootSubPath" (.str (rootSubPathOf L.net spec.url)) []).insert
    "seedPath" (.str spec.seedPath)).insert "shootPath" (.str spec.shootPath)

/-! ## Caching -/

def defaultRenderCacheSize : Nat := 32

/-- `renderCache`; `get` and `put` are those of the LRU cache, with copies of the
manifests. -/
abbrev RenderCache := Lru String (List Manifest)

def newRenderCache (size : Int) : RenderCache :=
  .empty (if size ≤ 0 then defaultRenderCacheSize else size.toNat)

/-- `cachingSource`. -/
structure CachingSource where
  inner : InnerSource
  sourceKind : String
  inputHash : String

def wrapHelm (L : Libs) (spec : HelmSource) (loader : HelmLoader) : CachingSource :=
  ⟨.helm spec loader, "helm", hashValues L (helmInputs L spec)⟩

def wrapKustomize (L : Libs) (spec : KustomizeSource) (resolver : GitResolver) : CachingSource :=
  ⟨.kustomize spec resolver, "kustomize", hashValues L (kustomizeInputs L spec)⟩

namespace CachingSource

/-- The key of a render whose source has resolved to this id and scope. -/
def key (s : CachingSource) (id scope : String) (mode : Mode) (ns : String) : String :=
  KeyParts.string ⟨s.sourceKind, scope, id, mode.text, s.inputHash, ns⟩

def render (L : Libs) (E : Engines) (s : CachingSource) (mode : Mode) (ns : String) :
    Fetching (Except Err (List Manifest)) := do
  match ← s.inner.resolve L with
  -- not keyed: rendered without the cache
  | .error _ => s.inner.render L E mode ns
  | .ok (id, scope) =>
    match ← request (Fetch.cacheGet (s.key id scope mode ns)) with
    | some ms => pure (.ok ms)
    | none =>
      match ← s.inner.render L E mode ns with
      | .error e => pure (.error e)
      | .ok ms => do
        request (Fetch.cachePut (s.key id scope mode ns) ms)
        pure (.ok ms)

end CachingSource

/-! ## From -/

/-- `source.Deps`: the production loader and resolver, the namespace of the
credential resolver, and whether there is a render cache. -/
structure Deps where
  chartLoader : Option HelmLoader
  rootResolver : Option GitResolver
  credentialResolver : Option String
  renderCache : Bool

/-- What `source.From` returns. -/
inductive BuiltSource where
  | uncached (inner : InnerSource)
  | cached (s : CachingSource)

/-- `withHelmCreds`. -/
def withHelmCreds (l : HelmLoader) (deps : Deps) (ref : Option SecretReference) : HelmLoader :=
  match deps.credentialResolver with
  | none => l
  | some ns => ⟨some ⟨ns, ref⟩⟩

/-- `withGitCreds`. -/
def withGitCreds (r : GitResolver) (deps : Deps) (ref : Option SecretReference) : GitResolver :=
  match deps.credentialResolver with
  | none => r
  | some ns => ⟨some ⟨ns, ref⟩⟩

/-- `source.From`. -/
def sourceFrom (L : Libs) (spec : SourceSpec) (deps : Deps) : Except Err BuiltSource :=
  match spec.helm, spec.kustomize with
  | some helm, none =>
    match deps.chartLoader with
    | none => .error (.text "source: helm source requires a ChartLoader (none configured)")
    | some l =>
      let loader := withHelmCreds l deps helm.authSecretRef
      .ok (if deps.renderCache then .cached (wrapHelm L helm loader) else .uncached (.helm helm loader))
  | none, some kustomize =>
    match deps.rootResolver with
    | none => .error (.text "source: kustomize source requires a RootResolver (none configured)")
    | some r =>
      let resolver := withGitCreds r deps kustomize.authSecretRef
      .ok (if deps.renderCache then .cached (wrapKustomize L kustomize resolver)
        else .uncached (.kustomize kustomize resolver))
  | _, _ => .error (.text "source: exactly one of source.helm or source.kustomize must be set")

def BuiltSource.render (L : Libs) (E : Engines) (mode : Mode) (ns : String) :
    BuiltSource → Fetching (Except Err (List Manifest))
  | .uncached inner => inner.render L E mode ns
  | .cached s => s.render L E mode ns

end DDO.Impl
