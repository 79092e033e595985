import Mathlib.Data.List.AList
import DualDeployment.Impl.Controller

/-!
# The equivalence harness: capturing the operator

`internal/equivalence/operator_capture.go` and `set.go`: the harness runs the
render and the transformations of a CR as the operator does, and keeps the
objects by their keys. A source is given by what its `Render` returns.
-/

namespace DDO.Impl

/-- A `source.Source`, by its `Render`. -/
abbrev RenderFn := Mode → String → Except Err (List Manifest)

/-- `KeyOf`: `group/kind/namespace/name`. -/
def keyOf (u : Unstructured) : String :=
  u.groupVersionKind.group ++ "/" ++ u.groupVersionKind.kind ++ "/" ++ u.getNamespace ++ "/" ++ u.getName

/-- `ObjectSet`. -/
abbrev ObjectSet := AList fun _ : String => Unstructured

/-- The loop of `renderMode` over the transformations. -/
def transformEach : List Transformation → List Manifest → Except Err (List Manifest)
  | [], ms => .ok ms
  | t :: ts, ms =>
    match t.apply ms with
    | .error e => .error e
    | .ok ms => transformEach ts ms

/-- The loop of `renderMode` that keys the objects, from a set on. -/
def keyed (set : ObjectSet) (ms : List Manifest) : ObjectSet :=
  ms.foldl (fun set m => set.insert (keyOf m.unstructured) m.unstructured) set

def renderMode (src : RenderFn) (mode : Mode) (ns : String) (transforms : List Transformation) :
    Except Err ObjectSet :=
  match src mode ns with
  | .error e => .error e
  | .ok ms =>
    match transformEach transforms ms with
    | .error e => .error e
    | .ok ms => .ok (keyed ∅ ms)

/-- `CaptureOperator`, with what `source.From` has returned: the seed and the
shoot set. -/
def captureOperator (build : List TransformationSpec → Except Err (List Transformation))
    (src : Except Err RenderFn) (cr : DualDeploymentOperator) : Except Err (ObjectSet × ObjectSet) :=
  match src with
  | .error e => .error (.text ("capture: source.From: " ++ e.error))
  | .ok src =>
    match build cr.spec.transformations with
    | .error e => .error (.text ("capture: transform.Build: " ++ e.error))
    | .ok transforms =>
      match renderMode src .seed cr.ns transforms with
      | .error e => .error (.text ("capture: seed: " ++ e.error))
      | .ok seed =>
        match renderMode src .shoot cr.spec.shootNamespace transforms with
        | .error e => .error (.text ("capture: shoot: " ++ e.error))
        | .ok shoot => .ok (seed, shoot)

end DDO.Impl
