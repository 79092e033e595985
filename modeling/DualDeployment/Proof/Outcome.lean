import DualDeployment.Proof.Passes
import DualDeployment.Spec.Server

/-!
# What a pass returns

`Reconcile` returns the errors its delivery collected. Those of the seed are
lost while the pass waits for the credentials of the shoot
(`delivery_error_returned_iff`), and nowhere else. The Ready condition does
not look at the errors: it grades the inventories that are written, so a pass
that could not prune an orphan recorded Healthy reports a success and returns
the error (`success_with_error_iff`).
-/

namespace DDO.Impl

open Prog

/-! ## Failed calls -/

/-- The call is an `Apply` that returned an error, or a `Get` or `Delete` whose
error makes `prune` retain the entry. -/
def failsDelivery : CallEvent → Bool
  | ⟨.apply _ _ _, a⟩ => ApplyAnswer.err a |>.isSome
  | ⟨.get _ _, .error e⟩ => !(e.isNotFound || e.isNoMatch)
  | ⟨.delete _ _ _, a⟩ => Option.isSome a
  | _ => false

section

variable {cr : DualDeploymentOperator} {c : Cluster} {ownedBy : String}

theorem failsDelivery_rendering {l : CallEvent} (h : IsRendering l.1) : failsDelivery l = false := by
  obtain ⟨e, a⟩ := l
  cases e with
  | op o => rfl
  | _ => exact h.elim

theorem applyEvents_fails (as : List (Manifest × ApplyAnswer)) :
    (∃ l ∈ applyEvents c ownedBy as, failsDelivery l = true) ↔ ∃ p ∈ as, p.2.err.isSome := by
  simp only [mem_applyEvents]
  constructor
  · rintro ⟨_, ⟨p, hp, rfl⟩, hf⟩
    exact ⟨p, hp, hf⟩
  · rintro ⟨p, hp, hf⟩
    exact ⟨_, ⟨p, hp, rfl⟩, hf⟩

theorem Fate.fails_iff {keys : List String} {rs : ResourceStatus} {f : Fate}
    (h : f.Fits cr ownedBy keys rs) :
    (∃ l ∈ f.events c ownedBy rs, failsDelivery l = true) ↔ f.err.isSome := by
  cases f with
  | rendered => simp [Fate.events, Fate.err]
  | kept => simp [Fate.events, Fate.err]
  | gone e => simpa [Fate.events, Fate.err, failsDelivery, or_iff_not_imp_left] using h.2
  | unread e => simpa [Fate.events, Fate.err, failsDelivery] using h.2
  | foreign live => simp [Fate.events, Fate.err, failsDelivery]
  | deleted live => simp [Fate.events, Fate.err, failsDelivery]
  | undeleted live e => simp [Fate.events, Fate.err, failsDelivery]

theorem pruneEvents_fails {keys : List String} {fs : List (ResourceStatus × Fate)}
    (h : ∀ p ∈ fs, p.2.Fits cr ownedBy keys p.1) :
    (∃ l ∈ pruneEvents c ownedBy fs, failsDelivery l = true) ↔ ∃ p ∈ fs, p.2.err.isSome := by
  simp only [pruneEvents, List.mem_flatMap]
  constructor
  · rintro ⟨l, ⟨p, hp, hl⟩, hf⟩
    exact ⟨p, hp, (Fate.fails_iff (h p hp)).mp ⟨l, hl, hf⟩⟩
  · rintro ⟨p, hp, he⟩
    obtain ⟨l, hl, hf⟩ := (Fate.fails_iff (h p hp)).mpr he
    exact ⟨l, ⟨p, hp, hl⟩, hf⟩

end

section

variable {r : Reconciler} {cr : DualDeploymentOperator} {ms : Cluster → List Manifest}
  {d : Delivery} {t : List CallEvent} {x : Outcome}

/-- A delivery has failed if one of its calls has. -/
theorem Delivery.Of.failed_iff (h : d.Of r cr ms) :
    (∃ l ∈ d.events (r.ownedBy cr) cr, failsDelivery l = true) ↔ d.Failed := by
  constructor
  · rintro ⟨l, hl, hf⟩
    rcases Delivery.mem_events.mp hl with rfl | ⟨c, hl⟩ | ⟨c, hl⟩ | rfl
    · cases hf
    · obtain ⟨run, hrun, hl⟩ := Delivery.mem_applies.mp hl
      exact ⟨c, run, hrun, Or.inl ((applyEvents_fails _).mp ⟨l, hl, hf⟩)⟩
    · obtain ⟨run, hrun, hl⟩ := Delivery.mem_prunes.mp hl
      exact ⟨c, run, hrun, Or.inr ((pruneEvents_fails (h.run c run hrun).fits).mp ⟨l, hl, hf⟩)⟩
    · cases hf
  · rintro ⟨c, run, hrun, hf | hf⟩
    · obtain ⟨l, hl, hf⟩ : ∃ l ∈ applyEvents c (r.ownedBy cr) run.applied, failsDelivery l = true :=
        (applyEvents_fails _).mpr hf
      exact ⟨l, Delivery.mem_events.mpr (Or.inr (Or.inl ⟨c, Delivery.mem_applies.mpr ⟨run, hrun, hl⟩⟩)), hf⟩
    · obtain ⟨l, hl, hf⟩ := (pruneEvents_fails (h.run c run hrun).fits).mpr hf
      exact ⟨l, Delivery.mem_events.mpr
        (Or.inr (Or.inr (Or.inl ⟨c, Delivery.mem_prunes.mpr ⟨run, hrun, hl⟩⟩))), hf⟩

namespace Delivers

theorem failed_iff (h : Delivers r cr ms d t) :
    (∃ l ∈ t, failsDelivery l = true) ↔ d.Failed := by
  rw [← h.delivery.failed_iff]
  constructor
  · rintro ⟨l, hl, hf⟩
    rcases h.mem hl with ⟨key, rfl⟩ | hr | hl
    · cases hf
    · rw [failsDelivery_rendering hr] at hf
      cases hf
    · exact ⟨l, hl, hf⟩
  · rintro ⟨l, hl, hf⟩
    exact ⟨l, h.mem_events hl, hf⟩

/-- Both renders are applied once the shoot applier is built, unless the order
is shoot first and a shoot resource is degraded. -/
theorem through_iff (h : Delivers r cr ms d t) : d.Through ↔
    Built t ∧ ¬(cr.shootFirst = true ∧ anyFailed (statusesOf .shoot t) = true) := by
  have hall : d.Through ↔ d.run .shoot ≠ none ∧ d.run .seed ≠ none :=
    ⟨fun ht => ⟨ht .shoot, ht .seed⟩, fun ⟨hs, hse⟩ c => by cases c <;> assumption⟩
  rw [hall, Ne, Ne, h.delivery.shoot, h.delivery.seed, ← h.built_iff, h.gated_iff]
  cases anyFailed (statusesOf .shoot t) <;> simp
  tauto

/-- A pass that delivers ends as its delivery does. -/
theorem ends {key : NamespacedName} (h : Delivers r cr ms d t) (ht : Trace (reconcile r key) t x)
    (hd : cr.deletionTimestamp = false) : d.Ends cr x := by
  obtain ⟨d', h', hends⟩ := renders_ends ht hd h.renders
  -- both deliveries are read off the same calls
  have hbuild : d'.build = d.build := h.build h'.mem_build
  obtain ⟨hwritten, hanswer⟩ := h.written_eq h'.mem_write
  have hthrough : d'.Through ↔ d.Through := h'.through_iff.trans h.through_iff.symm
  have hfailed : d'.Failed ↔ d.Failed := h'.failed_iff.symm.trans h.failed_iff
  have hinv : ∀ c, d'.inventory cr c = d.inventory cr c := fun c => by
    rw [← h'.delivery.inventory c, ← h.delivery.inventory c, hwritten]
  constructor
  · rw [hends.outcome, hbuild, hanswer, hthrough, hfailed]
  · intro hth
    rw [← hwritten, ← hinv .seed, ← hinv .shoot]
    exact hends.ready (hthrough.mpr hth)

end Delivers

end

/-! ## Grading -/

theorem computeConditions_true {seed shoot : List ResourceStatus} :
    (computeConditions seed shoot).status = .conditionTrue ↔
      (∀ s ∈ seed, s.health = .healthy) ∧ ∀ s ∈ shoot, s.health = .healthy := by
  have hh : ∀ l : List ResourceStatus, (∀ s ∈ l, s.health = .healthy) ↔
      anyFailed l = false ∧ anyProgressing l = false := by
    intro l
    simp only [anyFailed, anyProgressing, List.any_eq_false, decide_eq_true_eq]
    constructor
    · intro h
      exact ⟨fun s hs => by simp [h s hs], fun s hs => by simp [h s hs]⟩
    · rintro ⟨hf, hp⟩ s hs
      have h₁ := hf s hs
      have h₂ := hp s hs
      cases he : s.health <;> simp_all
  rw [hh, hh, computeConditions]
  split_ifs with hf hp
  · simp only [false_iff]
    rintro ⟨⟨h₁, -⟩, h₂, -⟩
    simp [h₁, h₂] at hf
  · simp only [false_iff]
    rintro ⟨⟨-, h₁⟩, -, h₂⟩
    simp [h₁, h₂] at hp
  · simp only [not_or, Bool.not_eq_true] at hf hp
    simp [hf, hp]

theorem computeConditions_reason {seed shoot : List ResourceStatus} :
    (computeConditions seed shoot).status = .conditionTrue →
      (computeConditions seed shoot).reason = "ReconcileSuccess" := by
  rw [computeConditions]
  split_ifs
  · intro h
    cases h
  · intro h
    cases h
  · exact fun _ => rfl

/-- What `Apply` returned for the render is Healthy, and so are the entries
that were retained, as they were recorded. -/
def RenderRun.Healthy (run : RenderRun) : Prop :=
  (∀ p ∈ run.applied, p.2.status.health = .healthy) ∧
    ∀ p ∈ run.pruned, p.2.err.isSome → p.1.health = .healthy

theorem RenderRun.inventory_healthy {run : RenderRun} :
    (∀ s ∈ run.inventory, s.health = .healthy) ↔ run.Healthy := by
  simp only [RenderRun.inventory, RenderRun.statuses, List.mem_append, List.mem_map, mem_retainedOf]
  constructor
  · intro h
    exact ⟨fun p hp => h _ (Or.inl ⟨p, hp, rfl⟩), fun p hp he => h _ (Or.inr ⟨p, hp, he, rfl⟩)⟩
  · rintro ⟨ha, hp⟩ s (⟨p, hm, rfl⟩ | ⟨p, hm, he, rfl⟩)
    · exact ha p hm
    · exact hp p hm he

def Delivery.Healthy (d : Delivery) : Prop := ∀ c run, d.run c = some run → run.Healthy

section

variable {r : Reconciler} {cr : DualDeploymentOperator} {ms : Cluster → List Manifest}
  {d : Delivery} {t : List CallEvent} {x : Outcome}

theorem Delivers.build_of_through (h : Delivers r cr ms d t) (hth : d.Through) : d.build = .ok () := by
  cases hb : d.build with
  | error e => exact absurd (h.delivery.shoot.mpr ⟨e, hb⟩) (hth .shoot)
  | ok _ => rfl

/-- A render that was not applied leaves the delivery gated. -/
theorem Delivers.gated_of_not_through (h : Delivers r cr ms d t) (hth : ¬d.Through) : d.Gated := by
  by_contra hn
  refine hth fun c hc => ?_
  cases c with
  | seed => exact hn (h.delivery.seed.mp hc).2
  | shoot => exact hn (Or.inl (h.delivery.shoot.mp hc))

/-- Nothing Healthy holds a delivery up. -/
theorem Delivers.through_of_healthy (h : Delivers r cr ms d t) (hb : d.build = .ok ())
    (hh : d.Healthy) : d.Through := by
  have hbuild : ¬∃ e, d.build = .error e := by
    rintro ⟨e, he⟩
    rw [hb] at he
    cases he
  intro c hc
  cases c with
  | shoot => exact hbuild (h.delivery.shoot.mp hc)
  | seed =>
    obtain ⟨-, he | ⟨run, hrun, hf⟩⟩ := h.delivery.seed.mp hc
    · exact hbuild he
    · obtain ⟨s, hs, hdeg⟩ := List.any_eq_true.mp hf
      obtain ⟨p, hp, rfl⟩ := List.mem_map.mp hs
      rw [(hh .shoot run hrun).1 p hp] at hdeg
      cases hdeg

/-- A delivery writes Ready True if it got through and all it writes is
Healthy. -/
theorem Delivers.ready_iff (h : Delivers r cr ms d t) (hends : d.Ends cr x) :
    d.written.status.ready = some .conditionTrue ↔ d.Through ∧ d.Healthy := by
  by_cases hth : d.Through
  · obtain ⟨seed, hseed⟩ := Option.ne_none_iff_exists'.mp (hth .seed)
    obtain ⟨shoot, hshoot⟩ := Option.ne_none_iff_exists'.mp (hth .shoot)
    have hiff : d.Healthy ↔ seed.Healthy ∧ shoot.Healthy := by
      constructor
      · exact fun hh => ⟨hh .seed seed hseed, hh .shoot shoot hshoot⟩
      · rintro ⟨h₁, h₂⟩ (_ | _) run hrun
        · rw [hseed] at hrun
          cases hrun
          exact h₁
        · rw [hshoot] at hrun
          cases hrun
          exact h₂
    rw [Status.ready, hends.ready hth, Option.map_some, Option.some.injEq, computeConditions_true,
      Delivery.inventory, Delivery.inventory, hseed, hshoot, hiff]
    simp only [Option.map_some, Option.getD_some, RenderRun.inventory_healthy, hth, true_and]
  · rw [h.delivery.gated (h.gated_of_not_through hth)]
    simp [hth]

end

end DDO.Impl

namespace DDO.Spec

open Impl Prog

/-! ## Errors that are not returned -/

/-- The status was written. -/
def wroteStatus : CallEvent → Bool
  | ⟨.op (.updateStatus _), a⟩ => Option.isNone a
  | _ => false

/-- The token or the CA of the shoot is not there yet: phase `credsNotReady`. -/
def waitsForCredentials : CallEvent → Bool
  | ⟨.buildShoot _, .error .credentialsNotReady⟩ => true
  | _ => false

section

variable {r : Reconciler} {key : NamespacedName} {cr : DualDeploymentOperator}
  {ms : Cluster → List Manifest} {d : Delivery} {t : List CallEvent} {x : Outcome}

theorem answer_of_wrote (h : Delivers r cr ms d t) (hw : ∃ l ∈ t, wroteStatus l = true) :
    d.answer = none := by
  obtain ⟨⟨e, a⟩, hl, hs⟩ := hw
  rw [wroteStatus.eq_def] at hs
  split at hs
  · rename_i heq
    cases heq
    rw [← (h.written_eq hl).2]
    exact Option.isNone_iff_eq_none.mp hs
  · cases hs

theorem waits_iff (h : Delivers r cr ms d t) :
    (∃ l ∈ t, waitsForCredentials l = true) ↔ d.build = .error .credentialsNotReady := by
  constructor
  · rintro ⟨⟨e, a⟩, hl, hs⟩
    rw [waitsForCredentials.eq_def] at hs
    split at hs
    · rename_i heq
      cases heq
      exact (h.build hl).symm
    · cases hs
  · intro hb
    have hm := h.mem_build
    rw [hb] at hm
    exact ⟨_, hm, rfl⟩

/-- For every pass over a CR that is not being deleted and whose status write
succeeds: if an `Apply` returned an error, or a `Get` or `Delete` made `prune`
retain an entry, an error is returned if and only if the pass does not wait for
the credentials of the shoot. -/
theorem delivery_error_returned_iff
    (h : Trace (reconcile r key) (⟨.op (.getCR key), .ok cr⟩ :: t) x)
    (hd : cr.deletionTimestamp = false) (hw : ∃ l ∈ t, wroteStatus l = true)
    (hf : ∃ l ∈ t, failsDelivery l = true) :
    x.2 ≠ none ↔ ¬∃ l ∈ t, waitsForCredentials l = true := by
  obtain ⟨l, hl, hfl⟩ := hf
  have hl' := List.mem_cons_of_mem ⟨.op (.getCR key), .ok cr⟩ hl
  obtain ⟨-, ms, d, hdel⟩ := reconcile_calls h hd hl' fun o ho => by
    obtain ⟨e, a⟩ := l
    cases ho
    cases hfl
  have hwait : (∃ l ∈ t, waitsForCredentials l = true) ↔ d.build = .error .credentialsNotReady := by
    rw [← waits_iff hdel, List.exists_mem_cons_iff]
    exact (or_iff_right (by nofun)).symm
  have hanswer : d.answer = none := by
    obtain ⟨l', hl', hs⟩ := hw
    exact answer_of_wrote hdel ⟨l', List.mem_cons_of_mem _ hl', hs⟩
  rw [Ne, (hdel.ends h hd).outcome, hwait]
  simp [hanswer, hdel.failed_iff.mp ⟨l, hl', hfl⟩]

/-- A pass over a ClusterRole for the seed that another CR owns, with the
credentials of the shoot in place or not. -/
def conflictRun (secret : Secret) : List CallEvent × Outcome × World :=
  let role := bare "rbac.authorization.k8s.io/v1" "ClusterRole" "" "metal"
  let S := { sampleServer [role] [] with secret := secret }
  S.run sampleReconciler sampleKey
    ((sampleWorld (sampleCR .seedFirst .retain) (sampleCR_key _ _)).putObject sampleTargets .seed
      role.unstructured.ref (some (submitted role "other")) fun _ _ => by decide)

theorem delivery_error_returned_conflict :
    (conflictRun ⟨[("token", "t"), ("bundle.crt", "ca")]⟩).2.1.2 ≠ none := by
  have h₀ : Trace (reconcile sampleReconciler sampleKey)
      (conflictRun ⟨[("token", "t"), ("bundle.crt", "ca")]⟩).1
      (conflictRun ⟨[("token", "t"), ("bundle.crt", "ca")]⟩).2.1 := Server.run_trace _ _ _ _
  have h : Trace (reconcile sampleReconciler sampleKey)
      (⟨.op (.getCR sampleKey), .ok (sampleCR .seedFirst .retain)⟩ ::
        (conflictRun ⟨[("token", "t"), ("bundle.crt", "ca")]⟩).1.tail)
      (conflictRun ⟨[("token", "t"), ("bundle.crt", "ca")]⟩).2.1 := h₀
  have hrun : (∃ l ∈ (conflictRun ⟨[("token", "t"), ("bundle.crt", "ca")]⟩).1.tail, wroteStatus l = true) ∧
      (∃ l ∈ (conflictRun ⟨[("token", "t"), ("bundle.crt", "ca")]⟩).1.tail, failsDelivery l = true) ∧
      ¬∃ l ∈ (conflictRun ⟨[("token", "t"), ("bundle.crt", "ca")]⟩).1.tail, waitsForCredentials l = true := by
    decide +kernel
  exact (delivery_error_returned_iff h rfl hrun.1 hrun.2.1).mpr hrun.2.2

/-- Seed first, and the shoot's token and CA are not there yet: the error of
the refused `Apply` is dropped, and the pass comes back in 30 seconds. -/
theorem delivery_error_swallowed :
    Trace (reconcile sampleReconciler sampleKey) (conflictRun ⟨[]⟩).1 (⟨30⟩, none) ∧
      (∃ l ∈ (conflictRun ⟨[]⟩).1, wroteStatus l = true) ∧
      ∃ l ∈ (conflictRun ⟨[]⟩).1, failsDelivery l = true :=
  ⟨Server.run_trace _ _ _ _, by decide +kernel⟩

end

/-! ## A success that comes with an error -/

/-- The status was written with Ready True, for the reason of a success. -/
def reportsSuccess : CallEvent → Bool
  | ⟨.op (.updateStatus w), none⟩ =>
    (findStatusCondition "Ready" w.status.conditions).any fun c =>
      c.status = .conditionTrue ∧ c.reason = "ReconcileSuccess"
  | _ => false

section

variable {r : Reconciler} {key : NamespacedName} {cr : DualDeploymentOperator}
  {ms : Cluster → List Manifest} {d : Delivery} {t : List CallEvent} {x : Outcome}

theorem reportsSuccess_iff {l : CallEvent} : reportsSuccess l = true ↔
    ∃ w c, l = ⟨.op (.updateStatus w), none⟩ ∧
      findStatusCondition "Ready" w.status.conditions = some c ∧ c.status = .conditionTrue ∧
      c.reason = "ReconcileSuccess" := by
  constructor
  · intro h
    rw [reportsSuccess.eq_def] at h
    split at h
    · rename_i w
      cases hc : findStatusCondition "Ready" w.status.conditions with
      | none =>
        rw [hc] at h
        cases h
      | some c =>
        rw [hc, Option.any_some, decide_eq_true_eq] at h
        exact ⟨w, c, rfl, hc, h.1, h.2⟩
    · cases h
  · rintro ⟨w, c, rfl, hc, hs, hr⟩
    simp [reportsSuccess, hc, hs, hr]

theorem success_iff (h : Delivers r cr ms d t) (hends : d.Ends cr x) :
    (∃ l ∈ t, reportsSuccess l = true) ↔ d.answer = none ∧ d.Through ∧ d.Healthy := by
  rw [← h.ready_iff hends]
  constructor
  · rintro ⟨l, hl, hl'⟩
    obtain ⟨w, c, rfl, hc, hs, -⟩ := reportsSuccess_iff.mp hl'
    obtain ⟨rfl, ha⟩ := h.written_eq hl
    exact ⟨ha.symm, by rw [Status.ready, hc, Option.map_some, hs]⟩
  · rintro ⟨ha, hr⟩
    have hth := ((h.ready_iff hends).mp hr).1
    have hc := hends.ready hth
    rw [Status.ready, hc, Option.map_some, Option.some.injEq] at hr
    have hm := h.mem_write
    rw [ha] at hm
    exact ⟨_, hm, reportsSuccess_iff.mpr ⟨_, _, rfl, hc, hr, computeConditions_reason hr⟩⟩

/-- A pass that writes Ready True has delivered. -/
theorem delivers_of_ready (h : Trace (reconcile r key) (⟨.op (.getCR key), .ok cr⟩ :: t) x)
    (hd : cr.deletionTimestamp = false) {w : DualDeploymentOperator} {a : Option Err}
    (hw : ⟨.op (.updateStatus w), a⟩ ∈ t) (hr : w.status.ready = some .conditionTrue) :
    ∃ ms d, Delivers r cr ms d (⟨.op (.getCR key), .ok cr⟩ :: t) := by
  cases reconcile_normal h hd with
  | addFinalizer e _ => cases List.mem_singleton.mp hw
  | @failed _ reason err e _ hp =>
    rcases List.mem_append.mp hw with hw | hw
    · exact (pipeline_mem hp hw).elim
    · cases List.mem_singleton.mp hw
      rw [ready_setCondition] at hr
      cases hr
  | delivered _ hp hdel => exact ⟨_, _, hdel, key, _, _, _, rfl, hp, rfl⟩

/-- For every pass over a CR that is not being deleted and whose status write
succeeds: it reports a success and returns an error if and only if the shoot
applier was built, all that `Apply` returned is Healthy, and so are the
retained entries as they were recorded, while some `Apply` failed or some
entry was retained. -/
theorem success_with_error_iff
    (h : Trace (reconcile r key) (⟨.op (.getCR key), .ok cr⟩ :: t) x)
    (hd : cr.deletionTimestamp = false) (hw : ∃ l ∈ t, wroteStatus l = true) :
    ((∃ l ∈ t, reportsSuccess l = true) ∧ x.2 ≠ none) ↔
      ∃ ms d, Delivers r cr ms d (⟨.op (.getCR key), .ok cr⟩ :: t) ∧
        d.build = .ok () ∧ d.Healthy ∧ d.Failed := by
  have hw' : ∃ l ∈ ⟨.op (.getCR key), .ok cr⟩ :: t, wroteStatus l = true := by
    obtain ⟨l, hl, hs⟩ := hw
    exact ⟨l, List.mem_cons_of_mem _ hl, hs⟩
  have hs' : (∃ l ∈ ⟨.op (.getCR key), .ok cr⟩ :: t, reportsSuccess l = true) ↔
      ∃ l ∈ t, reportsSuccess l = true := by
    rw [List.exists_mem_cons_iff]
    exact or_iff_right (by nofun)
  constructor
  · rintro ⟨hs, hx⟩
    obtain ⟨ms, d, hdel⟩ : ∃ ms d, Delivers r cr ms d (⟨.op (.getCR key), .ok cr⟩ :: t) := by
      obtain ⟨l, hl, hl'⟩ := hs
      obtain ⟨w, c, rfl, hc, hc', -⟩ := reportsSuccess_iff.mp hl'
      exact delivers_of_ready h hd hl (by rw [Status.ready, hc, Option.map_some, hc'])
    have hends := hdel.ends h hd
    obtain ⟨ha, hth, hh⟩ := (success_iff hdel hends).mp (hs'.mpr hs)
    refine ⟨ms, d, hdel, hdel.build_of_through hth, hh, ?_⟩
    by_contra hn
    exact hx (hends.outcome.mpr ⟨ha, Or.inr ⟨hth, hn⟩⟩)
  · rintro ⟨ms, d, hdel, hb, hh, hf⟩
    have hends := hdel.ends h hd
    have hth := hdel.through_of_healthy hb hh
    refine ⟨hs'.mp ((success_iff hdel hends).mpr ⟨answer_of_wrote hdel hw', hth, hh⟩), fun hx => ?_⟩
    obtain ⟨-, hb' | ⟨-, hn⟩⟩ := hends.outcome.mp hx
    · rw [hb] at hb'
      cases hb'
    · exact hn hf

/-- A CR that has applied one ConfigMap to the seed, recorded Healthy. -/
def leftoverCR : DualDeploymentOperator :=
  (sampleCR .unset .retain).setResources [⟨"ConfigMap", "v1", "garden", "config", .healthy, ""⟩] []

/-- A pass over it with nothing to render, and the seed refuses the delete. -/
def undeletedRun : List CallEvent × Outcome × World :=
  let S := { sampleServer [] [] with failsDelete := fun _ _ => true }
  S.run sampleReconciler sampleKey ((sampleWorld leftoverCR (sampleCR_key .unset .retain)).install .seed
    (bare "v1" "ConfigMap" "garden" "config") (by decide))

/-- The status write of the run reports a success, and the run returns an error. -/
theorem undeletedRun_reports :
    (∃ l ∈ undeletedRun.1.tail, wroteStatus l = true ∧ reportsSuccess l = true) ∧
      undeletedRun.2.1.2.isSome = true := by
  decide +kernel

theorem success_with_error_undeleted : ∃ ms d,
    Delivers sampleReconciler leftoverCR ms d (⟨.op (.getCR sampleKey), .ok leftoverCR⟩ :: undeletedRun.1.tail) ∧
      d.build = .ok () ∧ d.Healthy ∧ d.Failed := by
  have h₀ : Trace (reconcile sampleReconciler sampleKey) undeletedRun.1 undeletedRun.2.1 :=
    Server.run_trace _ _ _ _
  have h : Trace (reconcile sampleReconciler sampleKey)
      (⟨.op (.getCR sampleKey), .ok leftoverCR⟩ :: undeletedRun.1.tail) undeletedRun.2.1 := h₀
  obtain ⟨⟨l, hl, hwrote, hsuccess⟩, herr⟩ := undeletedRun_reports
  exact (success_with_error_iff h rfl ⟨l, hl, hwrote⟩).mp ⟨⟨l, hl, hsuccess⟩, Option.ne_none_iff_isSome.mpr herr⟩

/-- The orphan could not be deleted: the pass returns the error, with Ready
True on the CR. -/
theorem success_with_error :
    Trace (reconcile sampleReconciler sampleKey) undeletedRun.1 undeletedRun.2.1 ∧
      (∃ l ∈ undeletedRun.1, reportsSuccess l = true) ∧ undeletedRun.2.1.2.isSome := by
  obtain ⟨⟨l, hl, -, hsuccess⟩, herr⟩ := undeletedRun_reports
  exact ⟨Server.run_trace _ _ _ _, ⟨l, List.mem_of_mem_tail hl, hsuccess⟩, herr⟩

end

end DDO.Spec
