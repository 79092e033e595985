import DualDeployment.Proof.Applier
import DualDeployment.Proof.Gate
import DualDeployment.Proof.Outcome

/-!
# What Ready stands for

With server-side-apply appliers, the Ready condition a pass writes is True only
if every manifest of both renders was patched and read back Healthy in that
pass, and an `Apply` that fails makes it False (`ready_truthful`). The health
of an entry is that of the object read back (`apply_graded`), and a failed
`Apply` is recorded as degraded.
-/

namespace DDO.Impl

open Prog

/-! ## The health of an entry -/

/-- The health `Apply` records for what the read-back gave. -/
def readHealth : Except Err Unstructured → HealthState
  | .error _ => .unknown
  | .ok live => computeHealth live

/-- The requests patch `u` without error, read it back, and find it Healthy. -/
def PatchedHealthy (c : Cluster) (u : Unstructured) (s : List (Event Resp)) : Prop :=
  ∃ pre v live, s = pre ++ [⟨.patch c u, .ok v⟩, ⟨getOf c v, .ok live⟩] ∧
    computeHealth live = .healthy

/-- How the requests of an `Apply` are graded: it failed before or in the
`patch`, or it was patched and read back. -/
inductive Graded (c : Cluster) (u : Unstructured) : List (Event Resp) → ApplyAnswer → Prop where
  | failed {pre : List (Event Resp)} {l : Event Resp} {a : ApplyAnswer} :
      (pre = [] ∨ ∃ e, l = ⟨.patch c u, .error e⟩) → a.err.isSome → a.status.health = .degraded →
      Graded c u (pre ++ [l]) a
  | read {pre : List (Event Resp)} {v : Unstructured} {back : Except Err Unstructured}
      {a : ApplyAnswer} : a.err = none → a.status.health = readHealth back →
      Graded c u (pre ++ [⟨.patch c u, .ok v⟩, ⟨getOf c v, back⟩]) a

section

variable {c : Cluster} {ownedBy : String} {s : List (Event Resp)} {a : ApplyAnswer}

theorem patchAndRead_graded {u : Unstructured} (pre : List (Event Resp))
    (h : Trace (SSAApplier.patchAndRead c u) s a) : Graded c u (pre ++ s) a := by
  obtain ⟨x, s₁, rfl, h₁⟩ := trace_request_seq.mp h
  cases x with
  | error e =>
    obtain ⟨rfl, rfl⟩ := trace_pure.mp h₁
    exact .failed (Or.inr ⟨e, rfl⟩) rfl rfl
  | ok v =>
    obtain ⟨y, s₂, rfl, h₂⟩ := trace_request_seq.mp h₁
    cases y with
    | error e =>
      obtain ⟨rfl, rfl⟩ := trace_pure.mp h₂
      exact .read rfl rfl
    | ok live =>
      obtain ⟨rfl, rfl⟩ := trace_pure.mp h₂
      exact .read rfl rfl

theorem apply_graded {m : Manifest} (h : Trace (SSAApplier.apply c m ownedBy) s a) :
    Graded c (submitted m ownedBy) s a := by
  rw [SSAApplier.apply] at h
  split_ifs at h with hk
  · obtain ⟨s₁, s₂, x, rfl, h₁, h₂⟩ := trace_seq.mp h
    -- the pre-check is one `get`
    have hone : ∃ l, s₁ = [] ++ [l] := by
      rcases foreignOwner_trace h₁ with ⟨e, rfl, -⟩ | ⟨live, rfl, -⟩
      · exact ⟨_, rfl⟩
      · exact ⟨_, rfl⟩
    obtain ⟨l, rfl⟩ := hone
    rcases x with e | ⟨owner, _ | _⟩
    · obtain ⟨rfl, rfl⟩ := trace_pure.mp h₂
      rw [List.append_nil]
      exact .failed (Or.inl rfl) rfl rfl
    · exact patchAndRead_graded _ h₂
    · obtain ⟨rfl, rfl⟩ := trace_pure.mp h₂
      rw [List.append_nil]
      exact .failed (Or.inl rfl) rfl rfl
  · exact patchAndRead_graded [] h

theorem Graded.healthy_iff {u : Unstructured} (h : Graded c u s a) :
    PatchedHealthy c u s ↔ a.status.health = .healthy := by
  cases h with
  | @failed pre l _ hpre _ hd =>
    rw [hd]
    simp only [reduceCtorEq, iff_false]
    rintro ⟨pre', v, live, he, -⟩
    rw [show pre' ++ [⟨.patch c u, .ok v⟩, ⟨getOf c v, .ok live⟩] =
      (pre' ++ [⟨.patch c u, .ok v⟩]) ++ [⟨getOf c v, .ok live⟩] by simp] at he
    obtain ⟨rfl, hl⟩ := List.append_inj' he rfl
    rcases hpre with hpre | ⟨e, rfl⟩
    · simp at hpre
    · cases List.cons.inj hl |>.1
  | @read pre v back _ _ hh =>
    rw [hh]
    constructor
    · rintro ⟨pre', v', live, he, hlive⟩
      obtain ⟨-, hl⟩ := List.append_inj' he rfl
      cases hl
      exact hlive
    · intro hback
      cases back with
      | error e => cases hback
      | ok live => exact ⟨pre, v, live, rfl, hback⟩

/-- A failed `Apply` is recorded as degraded. -/
theorem Graded.degraded {u : Unstructured} (h : Graded c u s a) (he : a.err.isSome) :
    a.status.health = .degraded := by
  cases h with
  | failed _ _ hd => exact hd
  | read hn _ =>
    rw [hn] at he
    cases he

end

/-! ## The `Apply` calls of a log -/

/-- The `Apply` calls to a cluster, with the requests they made. -/
def applyRuns (c : Cluster) (log : List (CallEvent × List (Event Resp))) :
    List (Manifest × List (Event Resp)) :=
  log.filterMap fun
    | (⟨.apply c' m _, _⟩, s) => if c' = c then some (m, s) else none
    | _ => none

theorem applyRuns_fst (c : Cluster) (log : List (CallEvent × List (Event Resp))) :
    (applyRuns c log).map (·.1) = (appliesTo c (log.map (·.1))).map (·.1) := by
  rw [applyRuns, appliesTo, List.map_filterMap, List.filterMap_map, List.map_filterMap]
  congr 1
  funext p
  obtain ⟨⟨e, a⟩, s⟩ := p
  cases e with
  | apply c' m o => by_cases hc : c' = c <;> simp [hc]
  | _ => rfl

theorem mem_applyRuns {c : Cluster} {log : List (CallEvent × List (Event Resp))}
    {p : Manifest × List (Event Resp)} :
    p ∈ applyRuns c log ↔ ∃ o a, (⟨.apply c p.1 o, a⟩, p.2) ∈ log := by
  rw [applyRuns, List.mem_filterMap]
  constructor
  · rintro ⟨l, hl, he⟩
    split at he
    · split_ifs at he with hc
      subst hc
      cases he
      exact ⟨_, _, hl⟩
    · cases he
  · rintro ⟨o, a, hl⟩
    exact ⟨_, hl, by simp⟩

/-- For each cluster, every manifest of the render was patched without error
and read back Healthy. -/
def AppliedHealthy (ownedBy : String) (ms : Cluster → List Manifest)
    (log : List (CallEvent × List (Event Resp))) : Prop :=
  ∀ c, ((applyRuns c log).map (·.1)).Perm (ms c) ∧
    ∀ p ∈ applyRuns c log, PatchedHealthy c (submitted p.1 ownedBy) p.2

/-- The orphans that were retained on a cluster. -/
def Delivery.retained (d : Delivery) (c : Cluster) : List ResourceStatus :=
  ((d.run c).map fun run => retainedOf run.pruned).getD []

section

variable {r : Reconciler} {cr : DualDeploymentOperator} {ms : Cluster → List Manifest}
  {d : Delivery} {t : List CallEvent} {log : List (CallEvent × List (Event Resp))} {c : Cluster}
  {x : Outcome}

/-- The answer to an `Apply` is graded by the requests it made. -/
theorem Delivers.graded (h : Delivers r cr ms d t) (hlog : Log ssa t log) {m : Manifest} {o : String}
    {a : ApplyAnswer} {s : List (Event Resp)} (hs : (⟨.apply c m o, a⟩, s) ∈ log) :
    (m, a) ∈ d.applied c ∧ Graded c (submitted m (r.ownedBy cr)) s a := by
  have hm : ⟨.apply c m o, a⟩ ∈ t := hlog.events ▸ List.mem_map_of_mem hs
  refine ⟨h.appliesTo_eq ▸ mem_appliesTo.mpr ⟨o, hm⟩, ?_⟩
  rw [← h.apply_owner hm]
  exact apply_graded (hlog.runs _ hs)

/-- The requests show both renders applied Healthy if the answers do. -/
theorem Delivers.appliedHealthy_iff (h : Delivers r cr ms d t) (hlog : Log ssa t log) :
    AppliedHealthy (r.ownedBy cr) ms log ↔
      ∀ c, ((d.applied c).map (·.1)).Perm (ms c) ∧ ∀ p ∈ d.applied c, p.2.status.health = .healthy := by
  refine forall_congr' fun c => and_congr ?_ ?_
  · rw [applyRuns_fst, hlog.events, h.appliesTo_eq]
  · constructor
    · intro hall p hp
      rw [← h.appliesTo_eq, ← hlog.events] at hp
      obtain ⟨o, hp⟩ := mem_appliesTo.mp hp
      obtain ⟨⟨l, s⟩, hs, hl⟩ := List.mem_map.mp hp
      subst hl
      exact (h.graded hlog hs).2.healthy_iff.mp (hall (p.1, s) (mem_applyRuns.mpr ⟨o, _, hs⟩))
    · intro hall p hp
      obtain ⟨o, a, hs⟩ := mem_applyRuns.mp hp
      obtain ⟨ha, hg⟩ := h.graded hlog hs
      exact hg.healthy_iff.mpr (hall _ ha)

theorem Delivery.healthy_iff :
    d.Healthy ↔ (∀ c, ∀ p ∈ d.applied c, p.2.status.health = .healthy) ∧
      ∀ c, ∀ rs ∈ d.retained c, rs.health = .healthy := by
  have hc : ∀ c, (∀ run, d.run c = some run → run.Healthy) ↔
      (∀ p ∈ d.applied c, p.2.status.health = .healthy) ∧ ∀ rs ∈ d.retained c, rs.health = .healthy := by
    intro c
    rw [Delivery.applied, Delivery.retained]
    cases d.run c with
    | none => simp
    | some run => simp [RenderRun.Healthy, mem_retainedOf]
  rw [← forall_and]
  exact forall_congr' hc

/-- A degraded `Apply` makes Ready False. -/
theorem Delivers.ready_false (h : Delivers r cr ms d t) (hends : d.Ends cr x)
    {p : Manifest × ApplyAnswer} (hp : p ∈ d.applied c) (hg : p.2.status.health = .degraded) :
    d.written.status.ready = some .conditionFalse := by
  by_cases hth : d.Through
  · have hin : ∃ s ∈ d.inventory cr c, s.health = .degraded := by
      obtain ⟨run, hrun⟩ := Option.ne_none_iff_exists'.mp (hth c)
      rw [Delivery.applied, hrun] at hp
      rw [Delivery.inventory, hrun]
      exact ⟨_, List.mem_append_left _ (List.mem_map_of_mem hp), hg⟩
    have hany : anyFailed (d.inventory cr c) = true := by
      obtain ⟨s, hs, he⟩ := hin
      exact List.any_eq_true.mpr ⟨s, hs, by simpa using he⟩
    rw [Status.ready, hends.ready hth, computeConditions, if_pos]
    · rfl
    · cases c with
      | seed => exact Or.inl hany
      | shoot => exact Or.inr hany
  · exact h.delivery.gated (h.gated_of_not_through hth)

end

end DDO.Impl

namespace DDO.Spec

open Impl Prog

/-- The pass writes the status, and always with this Ready condition. -/
def WritesReady (t : List CallEvent) (s : ConditionStatus) : Prop :=
  (∃ w a, ⟨.op (.updateStatus w), a⟩ ∈ t) ∧
    ∀ w a, ⟨.op (.updateStatus w), a⟩ ∈ t → w.status.ready = some s

section

variable {r : Reconciler} {key : NamespacedName} {cr : DualDeploymentOperator}
  {ms : Cluster → List Manifest} {d : Delivery} {t : List CallEvent}
  {log : List (CallEvent × List (Event Resp))} {x : Outcome} {s : ConditionStatus}

theorem writesReady_of_delivers (h : Delivers r cr ms d (⟨.op (.getCR key), .ok cr⟩ :: t))
    (hs : d.written.status.ready = some s) : WritesReady t s := by
  constructor
  · refine ⟨d.written, d.answer, (List.mem_cons.mp h.mem_write).resolve_left ?_⟩
    nofun
  · intro w a hw
    rw [(h.written_eq (List.mem_cons_of_mem _ hw)).1, hs]

/-- For every pass over a CR that is not being deleted, with server-side-apply
appliers: if it writes Ready True, every manifest of both transformed renders
was patched without error and read back Healthy; if that is so, the shoot
applier was built and every retained orphan is recorded Healthy, it writes Ready
True; and if an `Apply` returned an error, it writes Ready False. -/
theorem ready_truthful (h : Trace (reconcile r key) (⟨.op (.getCR key), .ok cr⟩ :: t) x)
    (hd : cr.deletionTimestamp = false) (hlog : Log ssa (⟨.op (.getCR key), .ok cr⟩ :: t) log) :
    ((∃ w a, ⟨.op (.updateStatus w), a⟩ ∈ t ∧ w.status.ready = some .conditionTrue) →
      ∃ ms, Renders r (⟨.op (.getCR key), .ok cr⟩ :: t) cr ms ∧ AppliedHealthy (r.ownedBy cr) ms log) ∧
    (∀ ms d, Delivers r cr ms d (⟨.op (.getCR key), .ok cr⟩ :: t) →
      AppliedHealthy (r.ownedBy cr) ms log → d.build = .ok () →
      (∀ c, ∀ rs ∈ d.retained c, rs.health = .healthy) → WritesReady t .conditionTrue) ∧
    ((∃ c m o a, ⟨.apply c m o, a⟩ ∈ t ∧ a.err.isSome) → WritesReady t .conditionFalse) := by
  refine ⟨?_, ?_, ?_⟩
  · rintro ⟨w, a, hw, hready⟩
    obtain ⟨ms, d, hdel⟩ := delivers_of_ready h hd hw hready
    rw [(hdel.written_eq (List.mem_cons_of_mem _ hw)).1] at hready
    obtain ⟨hth, hh⟩ := (hdel.ready_iff (hdel.ends h hd)).mp hready
    refine ⟨ms, hdel.renders, (hdel.appliedHealthy_iff hlog).mpr fun c => ⟨?_, (Delivery.healthy_iff.mp hh).1 c⟩⟩
    rw [← hdel.appliesTo_eq, hdel.applies_render (hth c)]
    exact List.perm_insertionSort _ _
  · intro ms d hdel happ hb hret
    have hh : d.Healthy := Delivery.healthy_iff.mpr
      ⟨fun c => ((hdel.appliedHealthy_iff hlog).mp happ c).2, hret⟩
    have hth := hdel.through_of_healthy hb hh
    exact writesReady_of_delivers hdel ((hdel.ready_iff (hdel.ends h hd)).mpr ⟨hth, hh⟩)
  · rintro ⟨c, m, o, a, hm, he⟩
    have hm' := List.mem_cons_of_mem ⟨.op (.getCR key), .ok cr⟩ hm
    obtain ⟨-, ms, d, hdel⟩ := reconcile_calls h hd hm' (by simp)
    rw [← hlog.events] at hm'
    obtain ⟨⟨l, u⟩, hl, hl'⟩ := List.mem_map.mp hm'
    subst hl'
    obtain ⟨happ, hg⟩ := hdel.graded hlog hl
    exact writesReady_of_delivers hdel (hdel.ready_false (hdel.ends h hd) happ (hg.degraded he))

end

/-- A pass over a ConfigMap for the seed and a ServiceAccount for the shoot. -/
def convergedRun : List CallEvent × Outcome × World :=
  (sampleServer [bare "v1" "ConfigMap" "garden" "config"]
    [bare "v1" "ServiceAccount" "kube-system" "sa"]).run sampleReconciler sampleKey
    (sampleWorld (sampleCR .unset .retain) (sampleCR_key .unset .retain))

/-- It writes Ready True, so what it applied is there and Healthy. -/
theorem ready_truthful_converged :
    let cr := sampleCR .unset .retain
    let t : List CallEvent := ⟨.op (.getCR sampleKey), .ok cr⟩ :: convergedRun.1.tail
    (∃ l ∈ t, reportsSuccess l = true) ∧ ∃ log ms, Log ssa t log ∧ Renders sampleReconciler t cr ms ∧
      AppliedHealthy (sampleReconciler.ownedBy cr) ms log := by
  intro cr t
  have h₀ : Trace (reconcile sampleReconciler sampleKey) convergedRun.1 convergedRun.2.1 :=
    Server.run_trace _ _ _ _
  have h : Trace (reconcile sampleReconciler sampleKey) t convergedRun.2.1 := h₀
  obtain ⟨u, hx, -⟩ := steps_lift.mp (Server.run_steps _ (I := Eq) (fun _ => rfl) _ _ _ :
    Steps _ _ convergedRun.1 convergedRun.2.2)
  obtain ⟨log, hlog, -⟩ : ∃ log, Log ssa t log ∧ _ := expand_iff_log.mp hx
  have hsuccess : ∃ l ∈ convergedRun.1.tail, reportsSuccess l = true := by decide +kernel
  obtain ⟨l, hl, hl'⟩ := hsuccess
  obtain ⟨w, c, rfl, hc, hs, -⟩ := reportsSuccess_iff.mp hl'
  have hready : w.status.ready = some .conditionTrue := by rw [Status.ready, hc, Option.map_some, hs]
  obtain ⟨ms, hr, ha⟩ := (ready_truthful h rfl hlog).1 ⟨w, none, hl, hready⟩
  exact ⟨⟨_, List.mem_cons_of_mem _ hl, hl'⟩, log, ms, hlog, hr, ha⟩

end DDO.Spec
