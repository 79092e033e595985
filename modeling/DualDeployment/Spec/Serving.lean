import DualDeployment.Spec.Runs
import DualDeployment.Spec.Server

/-!
# Scopes and versions

An API server decides itself which kinds are cluster-scoped and which versions
of a kind it serves (`Serving`). It keys an object of a cluster-scoped kind by
group, kind and name and ignores the namespace it is sent, and it answers
`NoMatch` for a version it does not serve; a stored object is live under every
version (`ServedStep`). `ServedRun` is a run of passes against such servers,
and `ServedServer` one that can be executed. For kinds whose scope is that of
`clusterScopedKinds` this is the server of `Spec/World` (`ServedStep.toStep`).
`HostedStep` has the CRs among the objects of the seed, where a manifest can
write them.
-/

namespace DDO.Spec

open Impl Prog

/-- What each cluster serves: the kinds that are cluster-scoped, by group and
kind, and the versions. -/
structure Serving where
  clusterScoped : ClusterId → String → String → Bool
  served : ClusterId → GroupVersionKind → Bool

namespace Serving

variable (S : Serving) (id : ClusterId)

/-- The object that a request for this kind, namespace and name is about. -/
def ref (gvk : GroupVersionKind) (ns name : String) : ObjRef :=
  ⟨gvk.group, gvk.kind, if S.clusterScoped id gvk.group gvk.kind then "" else ns, name⟩

def refOf (u : Unstructured) : ObjRef := S.ref id u.groupVersionKind u.getNamespace u.getName

/-- What the server makes of a submitted object. -/
structure Accepted (u v : Unstructured) : Prop where
  ref : S.refOf id v = S.refOf id u
  ownedBy : v.ownedBy = u.ownedBy

/-- The kind is among the known cluster-scoped ones if it is cluster-scoped on
the server. -/
def Listed (u : Unstructured) : Prop :=
  S.clusterScoped id u.groupVersionKind.group u.groupVersionKind.kind = true →
    isClusterScoped u.groupVersionKind.kind = true

/-- The kind is cluster-scoped on the server if and only if it is a known one. -/
def Agrees (gvk : GroupVersionKind) : Prop := S.clusterScoped id gvk.group gvk.kind = isClusterScoped gvk.kind

variable {S id}

theorem Agrees.listed {u : Unstructured} (h : S.Agrees id u.groupVersionKind) : S.Listed id u :=
  fun hs => h.symm.trans hs

theorem Agrees.ref_eq {gvk : GroupVersionKind} (h : S.Agrees id gvk) (ns name : String) :
    S.ref id gvk ns name = .of gvk ns name := by
  rw [ref, h, ObjRef.of, identityNamespace]

theorem Agrees.refOf_eq {u : Unstructured} (h : S.Agrees id u.groupVersionKind) : S.refOf id u = u.ref :=
  h.ref_eq _ _

theorem refOf_congr {u v : Unstructured} (h : SameIdentity u v) : S.refOf id v = S.refOf id u := by
  rw [refOf, refOf, h.gvk, h.ns, h.name]

/-- Of listed kinds, what the server takes for one object has one identity
key. -/
theorem Listed.ref_eq {u v : Unstructured} (hl : S.Listed id u) (h : S.refOf id v = S.refOf id u) :
    v.ref = u.ref := by
  simp only [refOf, ref, ObjRef.mk.injEq] at h
  obtain ⟨hg, hk, hns, hn⟩ := h
  rw [hg, hk] at hns
  rw [Unstructured.ref, Unstructured.ref, ObjRef.of, ObjRef.of, hg, hk, hn, identityNamespace,
    identityNamespace]
  by_cases hs : S.clusterScoped id u.groupVersionKind.group u.groupVersionKind.kind = true
  · rw [if_pos (hl hs), if_pos (hl hs)]
  · rw [if_neg hs, if_neg hs] at hns
    rw [hns]

end Serving

/-- The request is about an object of a cluster. -/
def IsObject : Req → Prop
  | .get _ _ _ _ => True
  | .patch _ _ => True
  | .delete _ _ => True
  | _ => False

open World in
/-- Servers with these scopes and versions, in the state `w`, can give this
answer and go to `w'`. -/
inductive ServedStep (S : Serving) (T : Targets) : World → Event Resp → World → Prop where
  | other {w l w'} : ¬IsObject l.1 → Step T w l w' → ServedStep S T w l w'
  | get {w c gvk ns name u v} : S.served (T.id c) gvk = true →
      w.live T c (S.ref (T.id c) gvk ns name) = some v → u.ownedBy = v.ownedBy →
      ServedStep S T w ⟨.get c gvk ns name, .ok u⟩ w
  | getFailed {w c gvk ns name e} :
      (e.isNotFound → S.served (T.id c) gvk = true ∧
        w.live T c (S.ref (T.id c) gvk ns name) = none) →
      (e.isNoMatch → S.served (T.id c) gvk = false) →
      ServedStep S T w ⟨.get c gvk ns name, .error e⟩ w
  | patch {w w' c u v} : S.served (T.id c) u.groupVersionKind = true → S.Accepted (T.id c) u v →
      SetObject T c (S.refOf (T.id c) u) (some v) w w' → ServedStep S T w ⟨.patch c u, .ok v⟩ w'
  | patchFailed {w w' c u e} : w' = w ∨ (∃ v, S.Accepted (T.id c) u v ∧
        SetObject T c (S.refOf (T.id c) u) (some v) w w') →
      ServedStep S T w ⟨.patch c u, .error e⟩ w'
  | delete {w w' c u} : S.served (T.id c) u.groupVersionKind = true →
      SetObject T c (S.refOf (T.id c) u) none w w' → ServedStep S T w ⟨.delete c u, none⟩ w'
  | deleteFailed {w w' c u e} :
      (w' = w ∧ (e.isNotFound → w.live T c (S.refOf (T.id c) u) = none)) ∨
        SetObject T c (S.refOf (T.id c) u) none w w' →
      ServedStep S T w ⟨.delete c u, some e⟩ w'

/-- The scope of the kind that the request is about is the known one. -/
def Serving.AgreesOn (S : Serving) (T : Targets) : Req → Prop
  | .get c gvk _ _ => S.Agrees (T.id c) gvk
  | .patch c u => S.Agrees (T.id c) u.groupVersionKind
  | .delete c u => S.Agrees (T.id c) u.groupVersionKind
  | _ => True

/-- A request for a kind whose scope is the known one, answered with `NoMatch` for no
live object, is a step of `Spec/World`. -/
theorem ServedStep.toStep {S : Serving} {T : Targets} {w w' : World} {l : Event Resp}
    (hS : S.AgreesOn T l.1)
    (hno : ∀ c gvk ns name e, l = ⟨.get c gvk ns name, .error e⟩ → e.isNoMatch = true →
      w.live T c (.of gvk ns name) = none) (h : ServedStep S T w l w') : Step T w l w' := by
  have hacc : ∀ {id : ClusterId} {u v : Unstructured}, S.Agrees id u.groupVersionKind →
      S.Accepted id u v → Accepted u v := fun hu ha => ⟨hu.listed.ref_eq ha.ref, ha.ownedBy⟩
  cases h with
  | other _ hs => exact hs
  | get _ hv ho => exact .get (Serving.Agrees.ref_eq hS _ _ ▸ hv) ho
  | getFailed hn _ =>
    refine .getFailed fun he => he.elim (fun hf => ?_) (hno _ _ _ _ _ rfl)
    rw [← Serving.Agrees.ref_eq hS]
    exact (hn hf).2
  | patch _ ha hs => exact .patch (hacc hS ha) (Serving.Agrees.refOf_eq hS ▸ hs)
  | patchFailed hs =>
    refine .patchFailed (hs.imp id ?_)
    rintro ⟨v, ha, hs⟩
    exact ⟨v, hacc hS ha, Serving.Agrees.refOf_eq hS ▸ hs⟩
  | delete _ hs => exact .delete (Serving.Agrees.refOf_eq hS ▸ hs)
  | deleteFailed hs => exact .deleteFailed (Serving.Agrees.refOf_eq hS ▸ hs)

/-- A pass of `Reconcile` for some CR against these servers. -/
abbrev ServedPass (S : Serving) (r : Reconciler) := PassUnder (ServedStep S) r

/-- A run of such passes. -/
abbrev ServedRun (S : Serving) (r : Reconciler) (between : World → World → Prop) :
    World → List (ServedPass S r) → World → Prop :=
  RunUnder (ServedStep S) r between

/-! ## CRs among the objects -/

/-- The kind of the CRs. -/
def crKind : GroupVersionKind := ⟨"dual-deployment-operator.cc.sap", "v1alpha1", "DualDeploymentOperator"⟩

/-- A CR as an object of the seed. -/
def Serving.crRef (S : Serving) (T : Targets) (key : NamespacedName) : ObjRef :=
  S.ref (T.id .seed) crKind key.ns key.name

/-- The request writes the CR as an object of the seed. -/
def WritesCR (S : Serving) (T : Targets) (key : NamespacedName) : Req → Prop
  | .patch .seed u => S.refOf (T.id .seed) u = S.crRef T key
  | .delete .seed u => S.refOf (T.id .seed) u = S.crRef T key
  | _ => False

/-- A step of servers that have the CRs among the objects of the seed: a request that
writes a CR there may make anything of it. -/
def HostedStep (S : Serving) (T : Targets) (w : World) (l : Event Resp) (w' : World) : Prop :=
  ∃ w₁, ServedStep S T w l w₁ ∧ w'.clusters = w₁.clusters ∧
    ∀ key, ¬WritesCR S T key l.1 → w'.crs key = w₁.crs key

theorem ServedStep.hosted {S : Serving} {T : Targets} {w w' : World} {l : Event Resp}
    (h : ServedStep S T w l w') : HostedStep S T w l w' :=
  ⟨w', h, rfl, fun _ _ => rfl⟩

abbrev HostedPass (S : Serving) (r : Reconciler) := PassUnder (HostedStep S) r

/-- A run of passes against such servers. -/
abbrev HostedRun (S : Serving) (r : Reconciler) (between : World → World → Prop) :
    World → List (HostedPass S r) → World → Prop :=
  RunUnder (HostedStep S) r between

/-- Somebody edits the spec of this CR. -/
def SpecChange (key : NamespacedName) (w w' : World) : Prop :=
  ∃ cr spec, w.crs key = some cr ∧ World.SetCR key (some { cr with spec := spec }) w w'

/-- The world after such an edit. -/
def World.editSpec (w : World) (key : NamespacedName) (edit : Impl.Spec → Impl.Spec) : World :=
  match h : w.crs key with
  | none => w
  | some cr => w.putCR key (some { cr with spec := edit cr.spec }) fun cr' hcr => by
      rw [← w.named _ _ h]
      cases hcr
      rfl

theorem World.editSpec_specChange {w : World} {key : NamespacedName}
    (edit : Impl.Spec → Impl.Spec) (h : (w.crs key).isSome) :
    SpecChange key w (w.editSpec key edit) := by
  rw [editSpec]
  split
  · rw [‹w.crs key = none›] at h
    cases h
  · exact ⟨_, _, ‹_›, rfl, fun _ => rfl⟩

/-! ## A server that runs -/

/-- A server with scopes and versions. What it renders has gone through
`ApplyNamespace`. -/
structure ServedServer where
  base : Server
  serving : Serving
  raw : Mode → List Manifest

namespace ServedServer

variable (S : ServedServer)

/-- What is stored of an object: one of a cluster-scoped kind has no
namespace. -/
def stored (id : ClusterId) (u : Unstructured) : Unstructured :=
  if S.serving.clusterScoped id u.groupVersionKind.group u.groupVersionKind.kind then u.setNamespace ""
  else u

theorem stored_accepted (id : ClusterId) (u : Unstructured) :
    S.serving.Accepted id u (S.stored id u) := by
  rw [stored]
  split_ifs with hs
  · have hv : (u.setNamespace "").getAPIVersion = u.getAPIVersion :=
      Unstructured.getNestedString_removeNestedField (by decide) u
    have hk : (u.setNamespace "").getKind = u.getKind :=
      Unstructured.getNestedString_removeNestedField (by decide) u
    have hn : (u.setNamespace "").getName = u.getName :=
      Unstructured.getNestedString_removeNestedField (by decide) u
    have hg : (u.setNamespace "").groupVersionKind = u.groupVersionKind := by
      rw [Unstructured.groupVersionKind, hv, hk, Unstructured.groupVersionKind]
    refine ⟨?_, ownedBy_congr (JsonMap.nested_removeNested (by decide) _)⟩
    rw [Serving.refOf, Serving.refOf, Serving.ref, Serving.ref, hg, hn, if_pos hs, if_pos hs]
  · exact ⟨rfl, rfl⟩

/-- The answer to a request, and the world after it. -/
def answer (w : World) : (e : Req) → Resp e × World
  | .op (.render _ mode ns) => (.ok (applyNamespace (S.raw mode) ns), w)
  | .get c gvk ns name =>
    if S.serving.served (S.base.targets.id c) gvk then
      match w.live S.base.targets c (S.serving.ref (S.base.targets.id c) gvk ns name) with
      | none => (.error errNotFound, w)
      | some u => (.ok u, w)
    else (.error errNoMatch, w)
  | .patch c u =>
    if h : S.serving.served (S.base.targets.id c) u.groupVersionKind = true ∧
        Storable (S.serving.refOf (S.base.targets.id c) u) then
      (.ok (S.stored (S.base.targets.id c) u),
        w.putObject S.base.targets c (S.serving.refOf (S.base.targets.id c) u)
          (some (S.stored (S.base.targets.id c) u)) fun _ _ => h.2)
    else (.error errInternal, w)
  | .delete c u =>
    if S.base.failsDelete c (S.serving.refOf (S.base.targets.id c) u) then (some errInternal, w)
    else if S.serving.served (S.base.targets.id c) u.groupVersionKind then
      match w.live S.base.targets c (S.serving.refOf (S.base.targets.id c) u) with
      | none => (some errNotFound, w)
      | some _ =>
        (none, w.putObject S.base.targets c (S.serving.refOf (S.base.targets.id c) u) none
          fun _ hu => by cases hu)
    else (some errNoMatch, w)
  | e => S.base.answer w e

theorem step (w : World) (e : Req) :
    ServedStep S.serving S.base.targets w ⟨e, (S.answer w e).1⟩ (S.answer w e).2 := by
  cases e with
  | op o =>
    cases o with
    | render src mode ns => exact .other id (.quiet trivial)
    | _ => exact .other id (S.base.step w _)
  | getSecret k => exact .other id (S.base.step w _)
  | newClient cfg => exact .other id (S.base.step w _)
  | get c gvk ns name =>
    rw [answer]
    split_ifs with hs
    · split
      · exact .getFailed (fun _ => ⟨hs, ‹_›⟩) (fun h => by cases h)
      · exact .get hs ‹_› rfl
    · exact .getFailed (fun h => by cases h) (fun _ => (Bool.not_eq_true _).mp hs)
  | patch c u =>
    rw [answer]
    split_ifs with hs
    · exact .patch hs.1 (S.stored_accepted _ u) ⟨rfl, fun _ _ => rfl⟩
    · exact .patchFailed (Or.inl rfl)
  | delete c u =>
    rw [answer]
    split_ifs with hf hs
    · exact .deleteFailed (Or.inl ⟨rfl, fun h => by cases h⟩)
    · split
      · exact .deleteFailed (Or.inl ⟨rfl, fun _ => ‹_›⟩)
      · exact .delete hs ⟨rfl, fun _ _ => rfl⟩
    · exact .deleteFailed (Or.inl ⟨rfl, fun h => by cases h⟩)

/-- The answer to a call, through the requests it makes. -/
def call (w : World) (e : Call) : Answer e × World := ((ssa e).exec S.answer w).2

/-- The calls of one pass of `Reconcile` against the server. -/
def calls (r : Reconciler) (key : NamespacedName) (w : World) : List CallEvent :=
  ((reconcile r key).exec S.call w).1

/-- Its requests, and the world after it. -/
def run (r : Reconciler) (key : NamespacedName) (w : World) : List (Event Resp) × Outcome × World :=
  ((reconcile r key).interp ssa).exec S.answer w

/-- The pass. -/
def pass (r : Reconciler) (key : NamespacedName) (w : World) : ServedPass S.serving r where
  key := key
  targets := S.base.targets
  start := w
  stop := (S.run r key w).2.2
  calls := S.calls r key w
  requests := (S.run r key w).1
  outcome := ((reconcile r key).exec S.call w).2.1
  trace := exec_trace S.call _ w
  expand := exec_interp S.answer ssa _ w
  steps := exec_steps S.step _ w

end ServedServer

/-! ## A policy on the shoot -/

/-- A shoot render with one manifest, and servers with these cluster-scoped
kinds. -/
def shootServer (clusterScoped : String → Bool) (m : Manifest) : ServedServer where
  base := sampleServer [] []
  serving := ⟨fun _ _ kind => clusterScoped kind, fun _ _ => true⟩
  raw
    | .seed => []
    | .shoot => [m]

/-- The first pass over the sample CR. -/
def firstPass (S : ServedServer) : ServedPass S.serving sampleReconciler :=
  S.pass sampleReconciler sampleKey
    (sampleWorld (sampleCR .shootFirst .retain) (sampleCR_key .shootFirst .retain))

/-- A policy, of a kind that is cluster-scoped on every server and not in the
list. -/
def samplePolicy : Manifest :=
  bare "admissionregistration.k8s.io/v1" "ValidatingAdmissionPolicy" "" "guard"

def policyServer : ServedServer :=
  shootServer (fun kind => isClusterScoped kind || kind = "ValidatingAdmissionPolicy") samplePolicy

end DDO.Spec
