import DualDeployment.Framework.Both
import DualDeployment.Impl.Operator
import DualDeployment.Impl.Source
import DualDeployment.Impl.Transform

/-!
# The operator as main sets it up

`cmd/main.go`: the reconciler with the transformations of `internal/transform`
and the sources of `internal/source`. `carry` answers each call of the
reconciler by the requests it leads to, those to the API servers and those of
the sources, and `Manager.reconcile` is the whole of `Reconcile` at that level.
-/

namespace DDO.Impl

open Prog

/-- The libraries that the operator is linked with. -/
structure Manager where
  libs : Libs
  engines : Engines
  transformLibs : TransformLibs

/-- `SourceDeps` as `main` sets them, with the credential resolver that
`Reconcile` makes for a CR in this namespace. -/
def sourceDeps (ns : String) : Deps := ⟨some ⟨none⟩, some ⟨none⟩, some ns, true⟩

namespace Manager

variable (M : Manager)

/-- The reconciler that `main` makes; it has an event recorder. -/
def reconciler : Reconciler := ⟨true, M.libs.sha256Hex, build M.transformLibs⟩

/-- `Source.Render` of what `source.From` makes. -/
def render (src : Source) (mode : Mode) (ns : String) : Fetching (Except Err (List Manifest)) :=
  match sourceFrom M.libs src.spec (sourceDeps src.credentialsNamespace) with
  | .error e => pure (.error e)
  | .ok s => s.render M.libs M.engines mode ns

/-- How each call is carried out. -/
def carry : (e : Call) → Prog (Req ⊕ Fetch) (Both Resp FetchAnswer) (Answer e)
  | .op (.sourceFrom spec ns) =>
    pure ((sourceFrom M.libs spec (sourceDeps ns)).map fun _ => ⟨spec, ns⟩)
  | .op (.render src mode ns) => (M.render src mode ns).inr
  | e => (ssa e).inl

/-- `Reconcile`, as the requests it leads to. -/
def reconcile (key : NamespacedName) : Prog (Req ⊕ Fetch) (Both Resp FetchAnswer) Outcome :=
  (Impl.reconcile M.reconciler key).interp M.carry

end Manager

end DDO.Impl
