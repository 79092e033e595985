import DualDeployment.Proof.Finalizer

/-!
# Retrying a teardown

A teardown that finds everything it has to delete already gone. `prune` takes
an object for gone if its `GET` answers `NotFound`, or `NoMatch` because its
kind has no REST mapping; `Delete` only takes `NotFound`. So such a pass drops
the finalizer exactly when the kinds it looks up are still mapped, on the
shoot unless it is forced: `teardown_completes_iff`.
-/

namespace DDO.Spec

open Impl Prog TeardownRun

/-- The kind of the object that an entry records. -/
def kindOf (rs : ResourceStatus) : GroupVersionKind :=
  (manifestFromStatus rs).unstructured.groupVersionKind

/-- In the pass with the calls `t` and the requests `u`, the shoot applier is
built if asked for, all updates succeed, and every object that is looked up is
gone: `NotFound`, or `NoMatch` if its kind is not `mapped`. -/
structure AlreadyGone (mapped : Cluster → GroupVersionKind → Prop) (t : List CallEvent)
    (u : List (Event Resp)) : Prop where
  built : ∀ cr a, ⟨.buildShoot cr, a⟩ ∈ t → a = .ok ()
  statusWritten : ∀ cr e, ⟨.op (.updateStatus cr), e⟩ ∈ t → e = none
  updated : ∀ cr e, ⟨.op (.updateCR cr), e⟩ ∈ t → e = none
  gone : ∀ c gvk ns name a, ⟨.get c gvk ns name, a⟩ ∈ u →
    ∃ e, a = .error e ∧ (mapped c gvk → e.isNotFound = true) ∧ (¬mapped c gvk → e.isNoMatch = true)

theorem isNoMatch_not_isNotFound {e : Err} (h : e.isNoMatch = true) : e.isNotFound = false := by
  cases e with
  | api cls msg => cases cls <;> first | rfl | cases h
  | text msg => rfl
  | aggregate errs => rfl

section

variable {mapped : Cluster → GroupVersionKind → Prop} {r : Reconciler} {cr : DualDeploymentOperator}
  {t tb te : List CallEvent} {u : List (Event Resp)} {x : Outcome} {d : TeardownRun}

/-- `Delete` of an object that is gone succeeds if its kind is mapped, and only
then. -/
theorem AlreadyGone.delete_iff (hg : AlreadyGone mapped t u) (hx : Expand ssa t u) {c : Cluster}
    {m : Manifest} {o : String} {a : Option Err} (hl : ⟨.delete c m o, a⟩ ∈ t) :
    a = none ↔ mapped c m.unstructured.groupVersionKind := by
  obtain ⟨u', htr, hsub⟩ := hx.mem hl
  have hget : ∀ {a}, ⟨getOf c m.unstructured, a⟩ ∈ u' → _ := fun h =>
    hg.gone c m.unstructured.groupVersionKind _ _ _ (hsub _ h)
  cases delete_trace htr with
  | @gone e hn =>
    obtain ⟨_, he, -, hno⟩ := hget List.mem_cons_self
    cases he
    refine ⟨fun _ => by_contra fun hm => ?_, fun _ => rfl⟩
    rw [isNoMatch_not_isNotFound (hno hm)] at hn
    cases hn
  | @unread e hn =>
    obtain ⟨_, he, hyes, -⟩ := hget List.mem_cons_self
    cases he
    refine ⟨fun h => (Option.some_ne_none e h).elim, fun hm => ?_⟩
    rw [hyes hm] at hn
    cases hn
  | foreign _ =>
    obtain ⟨_, he, -⟩ := hget List.mem_cons_self
    cases he
  | deleted _ _ =>
    obtain ⟨_, he, -⟩ := hget List.mem_cons_self
    cases he
  | failed _ _ =>
    obtain ⟨_, he, -⟩ := hget List.mem_cons_self
    cases he

/-- Every delete on a cluster succeeds if every deletable kind is mapped, and
only then. -/
theorem AlreadyGone.succeeded_iff (hg : AlreadyGone mapped t u) (hx : Expand ssa t u) {o : String}
    {c : Cluster} (hof : (d.deleted c).map (·.1) = deletableEntries cr c)
    (ht : ∀ p ∈ d.deleted c, ⟨.delete c (manifestFromStatus p.1) o, p.2⟩ ∈ t) :
    d.Succeeded c ↔ ∀ rs ∈ deletableEntries cr c, mapped c (kindOf rs) := by
  rw [← hof, List.forall_mem_map]
  exact forall₂_congr fun p hp => hg.delete_iff hx (ht p hp)

/-- The shoot is done if every deletable shoot kind is mapped, and only then. -/
theorem AlreadyGone.shootDone_iff (hg : AlreadyGone mapped t u) (hx : Expand ssa t u) {o : String}
    (hof : d.Of cr) (hb : ∀ a, d.build = some a → a = .ok ())
    (ht : ∀ p ∈ d.deleted .shoot, ⟨.delete .shoot (manifestFromStatus p.1) o, p.2⟩ ∈ t) :
    d.ShootDone ↔ ∀ rs ∈ deletableEntries cr .shoot, mapped .shoot (kindOf rs) := by
  rw [ShootDone]
  cases hbuild : d.build with
  | none =>
    rw [hof.build.mp hbuild]
    simp
  | some a =>
    obtain rfl := hb a hbuild
    rw [← hg.succeeded_iff hx (hof.shoot hbuild) ht]
    simp

/-- A teardown that drops the finalizer returns what the update answered. -/
theorem end_outcome (h : End cr d te x) (hr : d.Succeeded .seed ∧ (d.ShootDone ∨ cr.forceDelete = true)) :
    ∃ cr', ⟨.op (.updateCR cr'), x.2⟩ ∈ te := by
  cases h with
  | seedFailed hs => exact absurd hr.1 hs
  | completed _ _ _ => exact ⟨_, List.mem_cons_self⟩
  | forced _ _ _ _ _ => exact ⟨_, List.mem_append_right _ (List.mem_cons_of_mem _ List.mem_cons_self)⟩
  | blocked _ hd hf _ _ =>
    rcases hr.2 with h | h
    · exact absurd h hd
    · rw [hf] at h
      cases h

end

/-- A teardown that finds everything gone drops the finalizer without an error
if and only if every deletable seed kind still has a REST mapping on the seed,
and every deletable shoot kind has one on the shoot or deletion is forced. -/
theorem teardown_completes_iff {mapped : Cluster → GroupVersionKind → Prop} {r : Reconciler}
    {cr : DualDeploymentOperator} {t : List CallEvent} {u : List (Event Resp)} {x : Outcome}
    (h : Trace (reconcileDelete r cr) t x) (hx : Expand ssa t u) (hg : AlreadyGone mapped t u) :
    (Removes t ∧ x.2 = none) ↔
      (∀ rs ∈ cr.status.seedResources, cr.keepsCRD rs = false → mapped .seed (kindOf rs)) ∧
        ((∀ rs ∈ cr.status.shootResources, cr.keepsCRD rs = false → mapped .shoot (kindOf rs)) ∨
          cr.forceDelete = true) := by
  obtain ⟨e, t', rfl, h'⟩ := reconcileDelete_trace h
  obtain rfl := hg.statusWritten _ e List.mem_cons_self
  obtain ⟨d, tb, te, hof, hb, hend, rfl⟩ := teardown_trace (reconcileDelete_written h)
  have hdel : ∀ c, ∀ p ∈ d.deleted c, ⟨.delete c (manifestFromStatus p.1) (r.ownedBy cr), p.2⟩ ∈
      ⟨.op (.updateStatus (markDeleting cr)), none⟩ ::
        (tb ++ (d.deletes (markDeleting cr) (r.ownedBy cr) ++ te)) := fun c p hp =>
    List.mem_cons_of_mem _ ((teardown_delete hb hend).mpr ⟨p, hp, rfl, rfl, rfl⟩)
  have hbuild : ∀ a, d.build = some a → a = .ok () := fun a ha => by
    rw [ha] at hb
    obtain ⟨evs, rfl, -⟩ := hb
    exact hg.built (markDeleting cr) a (by simp)
  have hseed := hg.succeeded_iff hx hof.seed (hdel .seed)
  have hshoot := hg.shootDone_iff hx hof hbuild (hdel .shoot)
  simp only [mem_deletableEntries, and_imp] at hseed hshoot
  have hrem : ∀ t, Removes (⟨.op (.updateStatus (markDeleting cr)), none⟩ :: t) ↔ Removes t :=
    fun t => by simp [Removes]
  rw [hrem, removes_iff hb hend, hseed, hshoot]
  refine and_iff_left_of_imp fun hc => ?_
  obtain ⟨cr', hu⟩ := end_outcome hend ⟨hseed.mpr hc.1, hc.2.imp hshoot.mpr id⟩
  exact hg.updated cr' _ (List.mem_cons_of_mem _ (List.mem_append_right _ (List.mem_append_right _ hu)))

/-! ## A custom resource whose kind went with its CRD -/

/-- What `AlreadyGone` asks of one call. -/
def goneCall : CallEvent → Bool
  | ⟨.buildShoot _, .error _⟩ => false
  | ⟨.op (.updateStatus _), e⟩ => e.isNone
  | ⟨.op (.updateCR _), e⟩ => e.isNone
  | _ => true

/-- What `AlreadyGone` asks of one request. -/
def goneRequest (mapped : Cluster → GroupVersionKind → Bool) : Event Resp → Bool
  | ⟨.get c gvk _ _, .error e⟩ => if mapped c gvk then e.isNotFound else e.isNoMatch
  | ⟨.get _ _ _ _, .ok _⟩ => false
  | _ => true

theorem AlreadyGone.of_check {mapped : Cluster → GroupVersionKind → Bool} {t : List CallEvent}
    {u : List (Event Resp)} (ht : t.all goneCall = true) (hu : u.all (goneRequest mapped) = true) :
    AlreadyGone (fun c gvk => mapped c gvk = true) t u := by
  rw [List.all_eq_true] at ht hu
  refine ⟨fun cr a hl => ?_, fun cr e hl => ?_, fun cr e hl => ?_, fun c gvk ns name a hl => ?_⟩
  · have := ht _ hl
    cases a with
    | error e => cases this
    | ok _ => rfl
  · simpa [goneCall] using ht _ hl
  · simpa [goneCall] using ht _ hl
  · have := hu _ hl
    cases a with
    | error e =>
      refine ⟨e, rfl, fun hm => ?_, fun hm => ?_⟩
      · simpa [goneRequest, hm] using this
      · simpa [goneRequest, hm] using this
    | ok _ => cases this

/-- A CR being deleted that still records a Widget and its CRD, with CRDs not
retained. -/
def widgetCR : DualDeploymentOperator :=
  { sampleCR .seedFirst .delete with
    deletionTimestamp := true
    status := ⟨[⟨"CustomResourceDefinition", "apiextensions.k8s.io/v1", "", "widgets.example.io", .healthy, ""⟩,
      ⟨"Widget", "example.io/v1", "garden", "w", .healthy, ""⟩], [], []⟩ }

/-- The server, with or without a REST mapping for Widgets. -/
def widgetServer (mapped : Bool) : Server :=
  { sampleServer [] [] with serves := fun _ gvk => gvk.kind ≠ "Widget" || mapped }

def widgetPass (mapped : Bool) : List CallEvent × Outcome × World :=
  (reconcileDelete sampleReconciler widgetCR).exec (widgetServer mapped).call (sampleWorld widgetCR rfl)

def widgetRequests (mapped : Bool) : List (Event Resp) :=
  (((reconcileDelete sampleReconciler widgetCR).interp ssa).exec (widgetServer mapped).answer
    (sampleWorld widgetCR rfl)).1

/-- While Widgets are mapped, the teardown completes. -/
theorem teardown_completes_mapped :
    Removes (widgetPass true).1 ∧ (widgetPass true).2.1.2 = none := by
  have hg : AlreadyGone (fun c gvk => (widgetServer true).serves c gvk = true) (widgetPass true).1
      (widgetRequests true) := .of_check (by decide +kernel) (by decide +kernel)
  exact (teardown_completes_iff (exec_trace _ _ _) (exec_interp _ _ _ _) hg).mpr
    ⟨by decide, Or.inl (by decide)⟩

/-- The Widget and its CRD are both gone, and with them the mapping: the pass
fails and keeps the finalizer, and so will every later one. -/
theorem teardown_stuck_unmapped :
    AlreadyGone (fun c gvk => (widgetServer false).serves c gvk = true) (widgetPass false).1
        (widgetRequests false) ∧
      Expand ssa (widgetPass false).1 (widgetRequests false) ∧
      Trace (reconcileDelete sampleReconciler widgetCR) (widgetPass false).1 (widgetPass false).2.1 ∧
      ¬(Removes (widgetPass false).1 ∧ (widgetPass false).2.1.2 = none) := by
  refine ⟨.of_check (by decide +kernel) (by decide +kernel), exec_interp _ _ _ _, exec_trace _ _ _, ?_⟩
  rintro ⟨-, he⟩
  have : (widgetPass false).2.1.2.isNone = false := by decide +kernel
  rw [he] at this
  cases this

end DDO.Spec
