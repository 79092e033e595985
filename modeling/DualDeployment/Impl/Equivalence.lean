import DualDeployment.Framework.JsonEqual
import DualDeployment.Framework.Path
import DualDeployment.Framework.Rekey
import DualDeployment.Impl.Capture

/-!
# The equivalence harness: comparing two sets of objects

`internal/equivalence`: `allowlist.go`, `normalize.go`, `compare.go` and
`scope.go`. `StripAllowlist` and `Normalize` change an object in place; here they
return it. A Go map is ranged over in any order: `Scope.apply` is given the
objects in the order of its loop, and the lists of a `Report` are sorted.
-/

namespace DDO.Impl

/-! ## The allowlist -/

def allowlistedLabelKeys : List String :=
  ["helm.sh/chart", "helm.sh/resource-policy", "app.kubernetes.io/managed-by",
    "app.kubernetes.io/version", "app.kubernetes.io/instance",
    "dual-deployment-operator.cc.sap/origin", "dual-deployment-operator.cc.sap/owned-by"]

/-- Deletes these keys of the map at a path, and the map if none is left: the
loop of `stripKeys` and of `stripIgnoredLabels`. -/
def Unstructured.deleteKeys (u : Unstructured) (ks path : List String) : Unstructured :=
  match u.object.nestedMap path with
  | .found m =>
    let m := ks.foldl (fun m k => m.erase k) m
    if m.isEmpty then u.removeNestedField path else u.setNestedField (.obj m) path
  | _ => u

def stripKeys (u : Unstructured) (path : List String) : Unstructured :=
  u.deleteKeys allowlistedLabelKeys path

def stripAllowlist (u : Unstructured) : Unstructured :=
  stripKeys (stripKeys u ["metadata", "labels"]) ["metadata", "annotations"]

/-! ## Normalization -/

def isEmpty : Json → Bool
  | .null => true
  | .obj m => m.isEmpty
  | _ => false

mutual

def pruneEmpties : Json → Json
  | .obj m => .obj (pruneFields m [])
  | .arr xs => .arr (pruneElements xs)
  | v => v
termination_by structural v => v

def pruneElements : List Json → List Json
  | [] => []
  | x :: xs => pruneEmpties x :: pruneElements xs
termination_by structural xs => xs

/-- The loop over a map, from the keys already seen on: a field hides the later
ones of its key. -/
def pruneFields : List (String × Json) → List String → JsonMap
  | [], _ => []
  | f :: m, seen =>
    let rest := pruneFields m (f.1 :: seen)
    let pruned := pruneField f
    if f.1 ∈ seen ∨ isEmpty pruned = true then rest else (f.1, pruned) :: rest
termination_by structural m => m

def pruneField : String × Json → Json
  | (_, v) => pruneEmpties v
termination_by structural f => f

end

def normalize (u : Unstructured) : Unstructured := ⟨pruneFields u.object []⟩

/-! ## The report -/

structure Report where
  mismatched : List String
  missingOp : List String
  extraOp : List String

def Report.equal (r : Report) : Bool :=
  r.mismatched.length == 0 && r.missingOp.length == 0 && r.extraOp.length == 0

def displayKey (u : Unstructured) : String :=
  u.getAPIVersion ++ "/" ++ u.getKind ++ "/" ++ u.getNamespace ++ "/" ++ u.getName

/-- `sort.Strings`. -/
def sortStrings (l : List String) : List String := l.insertionSort (· ≤ ·)

/-- The path of a key below `path`. -/
def nextPath (path key : String) : String := if path = "" then key else path ++ "." ++ key

/-- The differences found under the keys of two maps, in the order of the keys. -/
def inKeyOrder (diffs : List (String × List String)) : List String :=
  (diffs.insertionSort fun d d' => d.1 ≤ d'.1).flatMap (·.2)

mutual

def diffPaths : Json → Json → String → List String
  | .obj ta, .obj tb, path =>
    -- the keys of `ta`, and those of `tb` alone
    let only := (tb.map (·.1)).dedup.filter fun k => (JsonMap.get? ta k).isNone
    inKeyOrder (diffFields ta [] tb path ++ only.map fun k => (k, [nextPath path k]))
  | .obj _, _, path => [path]
  | .arr ta, .arr tb, path => if ta.length ≠ tb.length then [path] else diffElements ta tb path 0
  | .arr _, _, path => [path]
  | a, b, path => if a.deepEqual b = true then [] else [path]
termination_by structural a => a

def diffElements : List Json → List Json → String → Nat → List String
  | a :: ta, b :: tb, path, i =>
    diffPaths a b (path ++ "[" ++ toString i ++ "]") ++ diffElements ta tb path (i + 1)
  | _, _, _, _ => []
termination_by structural ta => ta

/-- The differences under the keys of `ta` that have not been seen. -/
def diffFields : List (String × Json) → List String → JsonMap → String → List (String × List String)
  | [], _, _, _ => []
  | f :: ta, seen, tb, path =>
    let rest := diffFields ta (f.1 :: seen) tb path
    if f.1 ∈ seen then rest else (f.1, diffField f tb path) :: rest
termination_by structural ta => ta

def diffField : String × Json → JsonMap → String → List String
  | (k, va), tb, path =>
    match JsonMap.get? tb k with
    | none => [nextPath path k]
    | some vb => diffPaths va vb (nextPath path k)
termination_by structural f => f

end

/-! ## Comparing two sets -/

/-- `prep` of `Compare`. -/
def prep (u : Unstructured) : Unstructured := normalize (stripAllowlist u)

/-- `reflect.DeepEqual(gPrep.Object, oPrep.Object)`. -/
def samePrep (gobj oobj : Unstructured) : Bool :=
  (Json.obj (prep gobj).object).deepEqual (.obj (prep oobj).object)

/-- The entry of `Mismatched` for two objects with one key. -/
def mismatch (gobj oobj : Unstructured) : Option String :=
  if samePrep gobj oobj = true then none
  else
    let paths := diffPaths (.obj (prep gobj).object) (.obj (prep oobj).object) ""
    some (displayKey (prep gobj) ++ " (fields differ: " ++ ", ".intercalate paths ++ ")")

/-- The objects of `a` whose keys `b` does not have. -/
def onlyIn (a b : ObjectSet) : List String :=
  a.entries.filterMap fun e => if (b.lookup e.1).isSome then none else some (displayKey e.2)

def compare (golden op : ObjectSet) : Report where
  mismatched := sortStrings (golden.entries.filterMap fun e => (op.lookup e.1).bind (mismatch e.2))
  missingOp := sortStrings (onlyIn golden op)
  extraOp := sortStrings (onlyIn op golden)

/-! ## The scope of a comparison -/

structure ExclusionEntry where
  kind : String
  name : String

structure Scope where
  comparedKinds : List String
  knownDivergences : List ExclusionEntry
  ignoreLabels : List String
  canonicalNamespace : String

namespace Scope

def comparesKind (s : Scope) (kind : String) : Bool :=
  if s.comparedKinds.length = 0 then true else s.comparedKinds.contains kind

def stripIgnoredLabels (s : Scope) (u : Unstructured) : Unstructured :=
  if s.ignoreLabels.length = 0 then u else u.deleteKeys s.ignoreLabels ["metadata", "labels"]

/-- Whether a namespace is rewritten. -/
def Misplaced (s : Scope) (ns : String) : Prop := ns ≠ "" ∧ ns ≠ s.canonicalNamespace

instance (s : Scope) (ns : String) : Decidable (s.Misplaced ns) := inferInstanceAs (Decidable (_ ∧ _))

/-- The map of a subject whose namespace is rewritten. -/
def misplacedSubject (s : Scope) : Json → Option JsonMap
  | .obj m =>
    match JsonMap.get? m "namespace" with
    | some (.str ns) => if s.Misplaced ns then some m else none
    | _ => none
  | _ => none

def placeSubject (s : Scope) (raw : Json) : Json :=
  match s.misplacedSubject raw with
  | some m => .obj (m.insert "namespace" (.str s.canonicalNamespace))
  | none => raw

def canonicalizeNamespace (s : Scope) (u : Unstructured) : Unstructured :=
  if s.canonicalNamespace = "" then u
  else
    let c := if s.Misplaced u.getNamespace then u.setNamespace s.canonicalNamespace else u
    match c.object.nestedSlice ["subjects"] with
    | .found subjects =>
      if subjects.any (fun raw => (s.misplacedSubject raw).isSome) then
        c.setNestedField (.arr (subjects.map s.placeSubject)) ["subjects"]
      else c
    | _ => c

/-- What `Apply` keeps of an object. -/
def place (s : Scope) (u : Unstructured) : Unstructured := s.canonicalizeNamespace (s.stripIgnoredLabels u)

/-- `Apply`, of the objects of the set in the order of the loop. -/
def apply (s : Scope) (objects : List Unstructured) : ObjectSet :=
  objects.foldl (fun out u =>
    if !s.comparesKind u.getKind then out
    else
      let obj := s.place u
      out.insert (keyOf obj) obj) ∅

def keyIsKnownDivergence (s : Scope) (displayKey : String) : Bool :=
  let parts := (Path.split displayKey.toList).map fun p => String.ofList p.1
  if parts.length < 4 then false
  else
    let kind := parts.getD (parts.length - 3) ""
    let name := parts.getD (parts.length - 1) ""
    s.knownDivergences.any fun e => e.kind == kind && e.name == name

def dropKnownDivergent (s : Scope) (keys : List String) : List String :=
  keys.filter fun k => !s.keyIsKnownDivergence k

def compareScoped (s : Scope) (golden op : ObjectSet) : Report :=
  let r := compare golden op
  if s.knownDivergences.length = 0 then r
  else { r with missingOp := s.dropKnownDivergent r.missingOp, extraOp := s.dropKnownDivergent r.extraOp }

end Scope

end DDO.Impl
