import DualDeployment.Spec.World

/-!
# An API server that runs

An executable server for the requests of the operator. It keeps what it is
given, answers `NotFound` for absent objects and `NoMatch` for absent objects
of kinds it does not serve, and can be told to fail status writes and some
deletes. Its answers are steps of the world (`Server.step`), so executing a
pass against it gives a run (`Server.callStep`).
-/

namespace DDO.Spec

open Impl Prog

instance (r : ObjRef) : Decidable r.SlashFree :=
  inferInstanceAs (Decidable (∀ s ∈ [r.group, r.kind, r.ns, r.name], '/' ∉ s.toList))

instance (r : ObjRef) : Decidable (Storable r) :=
  inferInstanceAs (Decidable (r.SlashFree ∧ r.kind ≠ "" ∧ r.name ≠ ""))

namespace World

/-- `w` with a CR replaced or removed. -/
def putCR (w : World) (k : NamespacedName) (v : Option DualDeploymentOperator)
    (h : ∀ cr, v = some cr → cr.key = k) : World where
  crs k' := if k' = k then v else w.crs k'
  named k' cr hcr := by
    split_ifs at hcr with hk
    · exact (h cr hcr).trans hk.symm
    · exact w.named k' cr hcr
  clusters := w.clusters

/-- `w` with an object created, replaced or removed. -/
def putObject (w : World) (T : Targets) (c : Cluster) (r : ObjRef) (v : Option Unstructured)
    (h : ∀ u, v = some u → Storable r) : World where
  crs := w.crs
  named := w.named
  clusters id :=
    { objects := fun r' => if id = T.id c ∧ r' = r then v else (w.clusters id).objects r'
      wellFormed := fun r' u hu => by
        split_ifs at hu with hr
        · rw [hr.2]
          exact h u hu
        · exact (w.clusters id).wellFormed r' u hu }

end World

theorem updated_key {old cr cr' : DualDeploymentOperator} (h : updated old cr = some cr') :
    cr'.key = cr.key := by
  rw [updated] at h
  split_ifs at h
  cases h
  rfl

structure Server where
  targets : Targets
  source : Mode → Except Err (List Manifest)
  secret : Secret
  serves : Cluster → GroupVersionKind → Bool
  failsStatus : Bool
  failsDelete : Cluster → ObjRef → Bool

def errNotFound : Err := .api .notFound "not found"

def errNoMatch : Err := .api .noMatch "no matches for kind"

def errInternal : Err := .api .other "internal error"

namespace Server

variable (S : Server)

/-- The answer to a request, and the world after it. -/
def answer (w : World) : (e : Req) → Resp e × World
  | .op (.getCR k) =>
    match w.crs k with
    | none => (.error errNotFound, w)
    | some cr => (.ok cr, w)
  | .op (.updateCR cr) =>
    match w.crs cr.key with
    | none => (some errNotFound, w)
    | some old => (none, w.putCR cr.key (updated old cr) fun _ => updated_key)
  | .op (.updateStatus cr) =>
    if S.failsStatus then (some errInternal, w)
    else
      match h : w.crs cr.key with
      | none => (some errNotFound, w)
      | some old =>
        (none, w.putCR cr.key (some { old with status := cr.status }) fun cr' hcr => by
          rw [← w.named _ _ h]
          cases hcr
          rfl)
  | .op (.sourceFrom spec ns) => (.ok ⟨spec, ns⟩, w)
  | .op (.render _ mode _) => (S.source mode, w)
  | .op (.event _) => ((), w)
  | .getSecret k =>
    match w.live S.targets .seed (secretRef k) with
    | none => (.error errNotFound, w)
    | some _ => (.ok S.secret, w)
  | .newClient _ => (none, w)
  | .get c gvk ns name =>
    match w.live S.targets c (.of gvk ns name) with
    | none => (.error (if S.serves c gvk then errNotFound else errNoMatch), w)
    | some u => (.ok u, w)
  | .patch c u =>
    if h : Storable u.ref then
      (.ok u, w.putObject S.targets c u.ref (some u) fun _ _ => h)
    else (.error errInternal, w)
  | .delete c u =>
    if S.failsDelete c u.ref then (some errInternal, w)
    else
      match w.live S.targets c u.ref with
      | none => (some errNotFound, w)
      | some _ => (none, w.putObject S.targets c u.ref none fun _ hu => by cases hu)

theorem step (w : World) (e : Req) : Step S.targets w ⟨e, (S.answer w e).1⟩ (S.answer w e).2 := by
  cases e with
  | op o =>
    cases o with
    | getCR k =>
      rw [answer]
      split
      · exact .getCRFailed
      · exact .getCR ‹_›
    | updateCR cr =>
      rw [answer]
      split
      · exact .updateCRFailed (Or.inl rfl)
      · exact .updateCR ‹_› ⟨rfl, fun _ => rfl⟩
    | updateStatus cr =>
      rw [answer]
      split
      · exact .updateStatusFailed (Or.inl rfl)
      · split
        · exact .updateStatusFailed (Or.inl rfl)
        · exact .updateStatus ‹_› ⟨rfl, fun _ => rfl⟩
    | sourceFrom _ _ => exact .quiet trivial
    | render _ _ _ => exact .quiet trivial
    | event _ => exact .quiet trivial
  | getSecret k =>
    rw [answer]
    split
    · exact .getSecretFailed fun _ => ‹_›
    · exact .getSecret (by rw [‹w.live _ _ _ = _›]; rfl)
  | newClient cfg => exact .newClient
  | get c gvk ns name =>
    rw [answer]
    split
    · exact .getFailed fun _ => ‹_›
    · exact .get ‹_› rfl
  | patch c u =>
    rw [answer]
    split
    · exact .patch ⟨rfl, rfl⟩ ⟨rfl, fun _ _ => rfl⟩
    · exact .patchFailed (Or.inl rfl)
  | delete c u =>
    rw [answer]
    split
    · exact .deleteFailed (Or.inl ⟨rfl, fun h => by cases h⟩)
    · split
      · exact .deleteFailed (Or.inl ⟨rfl, fun _ => ‹_›⟩)
      · exact .delete ⟨rfl, fun _ _ => rfl⟩

/-- The answer to a call, through the requests it makes. -/
def call (w : World) (e : Call) : Answer e × World := ((ssa e).exec S.answer w).2

theorem callStep {I : World → World → Prop} (hI : ∀ w, I w w) (w : World) (e : Call) :
    CallStep I S.targets w ⟨e, (S.call w e).1⟩ (S.call w e).2 :=
  ⟨_, exec_trace S.answer (ssa e) w, exec_steps (fun w e => ⟨w, hI w, S.step w e⟩) (ssa e) w⟩

/-- One pass of `Reconcile` against the server. -/
def run (r : Reconciler) (key : NamespacedName) (w : World) : List CallEvent × Outcome × World :=
  (reconcile r key).exec S.call w

theorem run_trace (r : Reconciler) (key : NamespacedName) (w : World) :
    Trace (reconcile r key) (S.run r key w).1 (S.run r key w).2.1 :=
  exec_trace S.call _ w

theorem run_steps {I : World → World → Prop} (hI : ∀ w, I w w) (r : Reconciler)
    (key : NamespacedName) (w : World) :
    Steps (CallStep I S.targets) w (S.run r key w).1 (S.run r key w).2.2 :=
  exec_steps (S.callStep hI) _ w

end Server

/-! ## A small installation -/

def sampleKey : NamespacedName := ⟨"garden", "metal"⟩

/-- No transformations, and a hash that is easy to read. -/
def sampleReconciler : Reconciler where
  recorder := true
  sha256Hex := id
  build _ := .ok []

def sampleCR (order : ApplyOrder) (crds : CRDRetention) : DualDeploymentOperator where
  ns := sampleKey.ns
  name := sampleKey.name
  generation := 1
  deletionTimestamp := false
  finalizers := [FinalizerName]
  annotations := []
  spec := ⟨⟨none, none⟩, ⟨"access", "https://shoot", "", ""⟩, "kube-system", [], ⟨crds⟩, order⟩
  status := ⟨[], [], []⟩

theorem sampleCR_key (order : ApplyOrder) (crds : CRDRetention) : (sampleCR order crds).key = sampleKey :=
  rfl

/-- A manifest with nothing but its identity. -/
def bare (apiVersion kind ns name : String) : Manifest :=
  manifestFromStatus ⟨kind, apiVersion, ns, name, .healthy, ""⟩

/-- The CR, and the shoot-access Secret on the seed. -/
def sampleWorld (cr : DualDeploymentOperator) (h : cr.key = sampleKey) : World where
  crs k := if k = sampleKey then some cr else none
  named k cr' hk := by
    split_ifs at hk with hs
    cases hk
    exact h.trans hs.symm
  clusters id :=
    { objects := fun r =>
        if id = 0 ∧ r = secretRef ⟨"garden", "access"⟩ then
          some (bare "v1" "Secret" "garden" "access").unstructured
        else none
      wellFormed := fun r u hu => by
        split_ifs at hu with hr
        rw [hr.2]
        decide }

def sampleTargets : Targets := ⟨0, 1, by decide⟩

/-- The world with an object that the sample CR has applied. -/
def World.install (w : World) (c : Cluster) (m : Manifest)
    (h : Storable m.unstructured.ref) : World :=
  w.putObject sampleTargets c m.unstructured.ref
    (some (submitted m (ownedByValue sampleReconciler.sha256Hex sampleKey.ns sampleKey.name)))
    fun _ _ => h

def sampleServer (seed shoot : List Manifest) : Server where
  targets := sampleTargets
  source
    | .seed => .ok seed
    | .shoot => .ok shoot
  secret := ⟨[("token", "t"), ("bundle.crt", "ca")]⟩
  serves _ _ := true
  failsStatus := false
  failsDelete _ _ := false

end DDO.Spec
