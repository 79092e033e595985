import DualDeployment.Framework.Heap
import DualDeployment.Impl.Source

/-!
# The render cache over pointers

`internal/source/rendercache.go`, with the pointers that manifests are: callers
change the objects of manifests in place (`StripInternalAnnotations`,
`SetOwnedByLabel`, `prepareForApply`), and the cache copies manifests when they are
stored and when they are read. `Store` is the cache with the heap and with what
each caller has been given.
-/

namespace DDO.Impl

/-- `manifest.Manifest`: a pointer to the object, and the origin. -/
structure ManifestRef where
  addr : Nat
  origin : Origin

abbrev ObjectHeap := Heap Unstructured

/-- The manifest that is pointed to. -/
def deref (h : ObjectHeap) (m : ManifestRef) : Manifest := ⟨h.cell m.addr, m.origin⟩

/-- A deep copy of each object. -/
def cloneManifests : ObjectHeap → List ManifestRef → ObjectHeap × List ManifestRef
  | h, [] => (h, [])
  | h, m :: ms =>
    let copy := h.alloc (h.cell m.addr)
    let rest := cloneManifests copy.1 ms
    (rest.1, ⟨copy.2, m.origin⟩ :: rest.2)

/-- The objects of a new render. -/
def newManifests : ObjectHeap → List Manifest → ObjectHeap × List ManifestRef
  | h, [] => (h, [])
  | h, m :: ms =>
    let obj := h.alloc m.unstructured
    let rest := newManifests obj.1 ms
    (rest.1, ⟨obj.2, m.origin⟩ :: rest.2)

/-- The cache, with the heap and the manifests that each caller has been given. -/
structure Store (ι : Type) where
  heap : ObjectHeap
  cache : Lru String (List ManifestRef)
  held : ι → List ManifestRef

/-- What a caller does: it renders, changes the object of a manifest it has, stores
manifests it has, or reads. Manifests are named by their places in what it has. -/
inductive Action (ι : Type) where
  | render (i : ι) (ms : List Manifest)
  | mutate (i : ι) (n : Nat) (u : Unstructured)
  | put (i : ι) (key : String) (ns : List Nat)
  | get (i : ι) (key : String)

namespace Store

variable {ι : Type} [DecidableEq ι]

/-- A cache with nothing in it. -/
def start (size : Int) : Store ι where
  heap := ⟨fun _ => ⟨[]⟩, 0⟩
  cache := .empty (if size ≤ 0 then defaultRenderCacheSize else size.toNat)
  held _ := []

/-- Caller `i` is given manifests. -/
def give (s : Store ι) (i : ι) (x : ObjectHeap × List ManifestRef) : Store ι :=
  { s with heap := x.1, held := Function.update s.held i (s.held i ++ x.2) }

/-- The state after an action, and what `get` has returned. -/
def act (s : Store ι) : Action ι → Store ι × Option (List ManifestRef)
  | .render i ms => (s.give i (newManifests s.heap ms), none)
  | .mutate i n u =>
    match (s.held i)[n]? with
    | none => (s, none)
    | some m => ({ s with heap := s.heap.write m.addr u }, none)
  | .put i key ns =>
    let copies := cloneManifests s.heap (ns.filterMap fun n => (s.held i)[n]?)
    ({ s with heap := copies.1, cache := s.cache.add key copies.2 }, none)
  | .get i key =>
    match s.cache.get key with
    | (none, cache) => ({ s with cache }, none)
    | (some ms, cache) =>
      let copies := cloneManifests s.heap ms
      (({ s with cache }).give i copies, some copies.2)

/-- The state after these actions, and the manifests that each has returned, as they
were when it returned them. -/
def run (s : Store ι) : List (Action ι) → Store ι × List (Option (List Manifest))
  | [] => (s, [])
  | a :: as =>
    let x := s.act a
    let y := x.1.run as
    (y.1, x.2.map (·.map (deref x.1.heap)) :: y.2)

end Store

end DDO.Impl
