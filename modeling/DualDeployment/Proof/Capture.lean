import DualDeployment.Framework.Rekey
import DualDeployment.Impl.Capture
import DualDeployment.Proof.Passes
import DualDeployment.Spec.Server

/-!
# The harness runs the operator's pipeline

`CaptureOperator` transforms one render after the other, after it has built the
transformations; `Reconcile` renders twice before it builds them and transforms
both renders in step. For a source that answers both alike they succeed
together, and what the harness keeps is, for each key, the last object that
`Reconcile` goes on to deliver under it (`capture_eq_pipeline`).
-/

namespace DDO.Impl

open Prog

/-! ## The objects of a render -/

/-- The last object of a render with this key. -/
def lastOf (ms : List Manifest) (key : String) : Option Unstructured :=
  (ms.reverse.find? fun m => keyOf m.unstructured = key).map (·.unstructured)

/-- The loop keeps the last object of each key. -/
theorem lookup_keyed (ms : List Manifest) (key : String) : (keyed ∅ ms).lookup key = lastOf ms key := by
  have hset : keyed ∅ ms = keyedBy keyOf (ms.map (·.unstructured)) ∅ := by
    rw [keyed, keyedBy, List.foldl_map]
  have hlast : lastWith keyOf (ms.map (·.unstructured)) key = lastOf ms key := by
    rw [lastWith, ← List.map_reverse, List.find?_map]
    rfl
  rw [hset, lookup_keyedBy, hlast, AList.lookup_empty, Option.or_none]

/-! ## The transformations -/

/-- Transforming both renders in step succeeds if and only if transforming each
does, with the same results. -/
theorem transformAll_ok {ts : List Transformation} {seed shoot seed' shoot' : List Manifest} :
    transformAll ts seed shoot = .ok (seed', shoot') ↔
      transformEach ts seed = .ok seed' ∧ transformEach ts shoot = .ok shoot' := by
  induction ts generalizing seed shoot with
  | nil => simp [transformAll, transformEach]
  | cons t ts ih =>
    rw [transformAll, transformEach, transformEach]
    cases t.apply seed with
    | error e => simp
    | ok seed₁ =>
      cases t.apply shoot with
      | error e => simp
      | ok shoot₁ => exact ih

/-! ## The two pipelines -/

/-- A call to the source is answered as `src` does. -/
def SourceAnswers (src : Except Err RenderFn) : CallEvent → Prop
  | ⟨.op (.sourceFrom _ _), a⟩ => (∃ s, a = .ok s) ↔ ∃ f, src = .ok f
  | ⟨.op (.render _ mode ns), a⟩ => ∀ f, src = .ok f → a = f mode ns
  | _ => True

/-- `source.From`, both renders, the build and the transformations succeed, with
these renders. -/
def PipelineOk (r : Reconciler) (src : Except Err RenderFn) (cr : DualDeploymentOperator)
    (seed shoot : List Manifest) : Prop :=
  ∃ f seed₀ shoot₀ ts, src = .ok f ∧ f .seed cr.ns = .ok seed₀ ∧
    f .shoot cr.spec.shootNamespace = .ok shoot₀ ∧ r.build cr.spec.transformations = .ok ts ∧
    transformEach ts seed₀ = .ok seed ∧ transformEach ts shoot₀ = .ok shoot

section

variable {r : Reconciler} {src : Except Err RenderFn} {cr : DualDeploymentOperator}

theorem pipeline_ok_iff {t : List CallEvent} {x : Except (String × Err) (List Manifest × List Manifest)}
    (h : Trace (pipeline r cr) t x) (ha : ∀ l ∈ t, SourceAnswers src l) {seed shoot : List Manifest} :
    x = .ok (seed, shoot) ↔ PipelineOk r src cr seed shoot := by
  obtain ⟨a, t₁, rfl, h₁⟩ := trace_request_seq.mp h
  have hfrom : (∃ s, a = .ok s) ↔ ∃ f, src = .ok f := ha _ List.mem_cons_self
  cases a with
  | error e =>
    rw [(trace_pure.mp h₁).2]
    refine ⟨nofun, fun ⟨f, _, _, _, hf, _⟩ => ?_⟩
    obtain ⟨s, hs⟩ := hfrom.mpr ⟨f, hf⟩
    cases hs
  | ok s =>
    obtain ⟨f, rfl⟩ := hfrom.mp ⟨s, rfl⟩
    obtain ⟨b, t₂, rfl, h₂⟩ := trace_request_seq.mp h₁
    have hb : SourceAnswers (.ok f) ⟨.op (.render s .seed cr.ns), b⟩ := ha _ (by simp)
    obtain rfl : b = f .seed cr.ns := hb f rfl
    cases hseed : f .seed cr.ns with
    | error e =>
      rw [hseed] at h₂
      rw [(trace_pure.mp h₂).2]
      refine ⟨nofun, fun ⟨f', _, _, _, hf, hs, _⟩ => ?_⟩
      cases hf
      cases hseed.symm.trans hs
    | ok seed₀ =>
      rw [hseed] at h₂
      obtain ⟨c, t₃, rfl, h₃⟩ := trace_request_seq.mp h₂
      have hc : SourceAnswers (.ok f) ⟨.op (.render s .shoot cr.spec.shootNamespace), c⟩ := ha _ (by simp)
      obtain rfl : c = f .shoot cr.spec.shootNamespace := hc f rfl
      cases hshoot : f .shoot cr.spec.shootNamespace with
      | error e =>
        rw [hshoot] at h₃
        rw [(trace_pure.mp h₃).2]
        refine ⟨nofun, fun ⟨f', _, _, _, hf, _, hs, _⟩ => ?_⟩
        cases hf
        cases hshoot.symm.trans hs
      | ok shoot₀ =>
        rw [hshoot] at h₃
        cases hb : r.build cr.spec.transformations with
        | error e =>
          simp only [hb] at h₃
          rw [(trace_pure.mp h₃).2]
          refine ⟨nofun, fun ⟨_, _, _, _, _, _, _, hts, _⟩ => ?_⟩
          cases hb.symm.trans hts
        | ok ts =>
          simp only [hb] at h₃
          rw [(trace_pure.mp h₃).2, transformAll_ok]
          constructor
          · intro hx
            exact ⟨f, seed₀, shoot₀, ts, rfl, hseed, hshoot, hb, hx⟩
          · rintro ⟨f', seed₁, shoot₁, ts', hf, hs, hh, hts, hx⟩
            cases hf
            cases hseed.symm.trans hs
            cases hshoot.symm.trans hh
            cases hb.symm.trans hts
            exact hx

theorem renderMode_ok {f : RenderFn} {mode : Mode} {ns : String} {ts : List Transformation}
    {set : ObjectSet} : renderMode f mode ns ts = .ok set ↔
      ∃ ms ms', f mode ns = .ok ms ∧ transformEach ts ms = .ok ms' ∧ set = keyed ∅ ms' := by
  rw [renderMode]
  cases f mode ns with
  | error e => simp
  | ok ms => cases ht : transformEach ts ms <;> simp [ht, eq_comm]

/-- The harness succeeds if and only if the pipeline does, with the sets of the
same renders. -/
theorem captureOperator_ok {seedSet shootSet : ObjectSet} :
    captureOperator r.build src cr = .ok (seedSet, shootSet) ↔
      ∃ seed shoot, PipelineOk r src cr seed shoot ∧ seedSet = keyed ∅ seed ∧
        shootSet = keyed ∅ shoot := by
  cases hs : src with
  | error e =>
    refine ⟨nofun, fun ⟨_, _, ⟨_, _, _, _, hf, _⟩, _⟩ => ?_⟩
    cases hf
  | ok f =>
    rw [captureOperator]
    cases hb : r.build cr.spec.transformations with
    | error e =>
      refine ⟨nofun, fun ⟨_, _, ⟨_, _, _, _, _, _, _, hts, _⟩, _⟩ => ?_⟩
      cases hb.symm.trans hts
    | ok ts =>
      constructor
      · intro h
        cases h₁ : renderMode f .seed cr.ns ts with
        | error e =>
          simp only [h₁] at h
          cases h
        | ok set₁ =>
          cases h₂ : renderMode f .shoot cr.spec.shootNamespace ts with
          | error e =>
            simp only [h₁, h₂] at h
            cases h
          | ok set₂ =>
            simp only [h₁, h₂, Except.ok.injEq, Prod.mk.injEq] at h
            obtain ⟨rfl, rfl⟩ := h
            obtain ⟨seed₀, seed, hr₁, ht₁, rfl⟩ := renderMode_ok.mp h₁
            obtain ⟨shoot₀, shoot, hr₂, ht₂, rfl⟩ := renderMode_ok.mp h₂
            exact ⟨seed, shoot, ⟨f, seed₀, shoot₀, ts, rfl, hr₁, hr₂, hb, ht₁, ht₂⟩, rfl, rfl⟩
      · rintro ⟨seed, shoot, ⟨f', seed₀, shoot₀, ts', hf, hr₁, hr₂, hts, ht₁, ht₂⟩, rfl, rfl⟩
        cases hf
        cases hb.symm.trans hts
        simp only [renderMode_ok.mpr ⟨seed₀, seed, hr₁, ht₁, rfl⟩,
          renderMode_ok.mpr ⟨shoot₀, shoot, hr₂, ht₂, rfl⟩]

end

/-! ## The harness and the operator -/

/-- The pass returned through `errStatus`, before any delivery. -/
def ReturnsErrStatus (r : Reconciler) (cr : DualDeploymentOperator) (t : List CallEvent) : Prop :=
  ∃ tp reason err e, Trace (pipeline r cr) tp (.error (reason, err)) ∧
    t = tp ++ [⟨.op (.updateStatus (cr.setCondition reason err.error)), e⟩]

end DDO.Impl

namespace DDO.Spec

open Impl Prog

/-- **The harness runs the operator's pipeline.** A pass of `Reconcile` over a CR
that has its finalizer and is not being deleted returns before delivery if and
only if `CaptureOperator` fails on the CR and the same source. If it does not,
it delivers two renders, and the sets that the harness has captured hold the
last object of each key of theirs. -/
theorem capture_eq_pipeline (r : Reconciler) (key : NamespacedName) (cr : DualDeploymentOperator)
    (t : List CallEvent) (x : Outcome) (src : Except Err RenderFn)
    (h : Trace (reconcile r key) (⟨.op (.getCR key), .ok cr⟩ :: t) x)
    (hd : cr.deletionTimestamp = false) (hf : FinalizerName ∈ cr.finalizers)
    (ha : ∀ l ∈ t, SourceAnswers src l) :
    ((∃ sets, captureOperator r.build src cr = .ok sets) ↔ ¬ ReturnsErrStatus r cr t) ∧
      ∀ seedSet shootSet, captureOperator r.build src cr = .ok (seedSet, shootSet) →
        ∃ ms d, Delivers r cr ms d (⟨.op (.getCR key), .ok cr⟩ :: t) ∧
          (∀ k, seedSet.lookup k = lastOf (ms .seed) k) ∧ ∀ k, shootSet.lookup k = lastOf (ms .shoot) k := by
  rcases reconcile_delivers h hd hf with ⟨tp, reason, err, e, hp, rfl⟩ | ⟨ms, d, hdel⟩
  · -- the pipeline has failed, so there is no pair of renders
    have hno : ∀ sets, captureOperator r.build src cr ≠ .ok sets := by
      rintro ⟨seedSet, shootSet⟩ hcap
      obtain ⟨seed, shoot, hok, -, -⟩ := captureOperator_ok.mp hcap
      have hx := (pipeline_ok_iff hp fun l hl => ha l (List.mem_append_left _ hl)).mpr hok
      cases hx
    refine ⟨⟨fun ⟨sets, hs⟩ => absurd hs (hno sets), fun hn => absurd ?_ hn⟩, fun _ _ hs => absurd hs (hno _)⟩
    exact ⟨tp, reason, err, e, hp, rfl⟩
  · obtain ⟨key', tp, seed, shoot, ht, hp, rfl⟩ := hdel.trace
    obtain ⟨-, rfl⟩ := List.cons.inj ht
    have hok := (pipeline_ok_iff hp fun l hl => ha l (List.mem_append_left _ hl)).mp rfl
    refine ⟨⟨fun _ => ?_, fun _ => ⟨_, captureOperator_ok.mpr ⟨seed, shoot, hok, rfl, rfl⟩⟩⟩, ?_⟩
    · rintro ⟨tp', reason, err, e, hp', he⟩
      cases (hp.unique hp' he).2
    · intro seedSet shootSet hcap
      obtain ⟨seed', shoot', hok', rfl, rfl⟩ := captureOperator_ok.mp hcap
      have hx := (pipeline_ok_iff hp fun l hl => ha l (List.mem_append_left _ hl)).mpr hok'
      cases hx
      exact ⟨_, d, hdel, lookup_keyed seed, lookup_keyed shoot⟩

theorem Server.run_answers (S : Server) (r : Reconciler) (key : NamespacedName) (w : World) :
    ∀ l ∈ (S.run r key w).1, SourceAnswers (.ok fun mode _ => S.source mode) l := by
  intro l hl
  obtain ⟨w', hw⟩ := exec_mem hl
  obtain ⟨e, a⟩ := l
  cases e with
  | op o =>
    cases o with
    | sourceFrom spec ns => exact ⟨fun _ => ⟨_, rfl⟩, fun _ => ⟨_, hw⟩⟩
    | render src mode ns =>
      intro f hf
      cases hf
      exact hw
    | _ => trivial
  | _ => trivial

/-- A pass over two ConfigMaps of one name for the seed. -/
theorem capture_eq_pipeline_sample :
    let seed := [bare "v1" "ConfigMap" "garden" "config", bare "v1" "ConfigMap" "garden" "config"]
    let S := sampleServer seed []
    let cr := sampleCR .seedFirst .retain
    let t := (S.run sampleReconciler sampleKey (sampleWorld cr rfl)).1.tail
    (∃ sets, captureOperator sampleReconciler.build (.ok fun mode _ => S.source mode) cr = .ok sets) ∧
      ¬ ReturnsErrStatus sampleReconciler cr t := by
  intro seed S cr t
  have hcap : ∃ sets, captureOperator sampleReconciler.build (.ok fun mode _ => S.source mode) cr = .ok sets :=
    ⟨_, rfl⟩
  have h := capture_eq_pipeline sampleReconciler sampleKey cr t _ (.ok fun mode _ => S.source mode)
    (S.run_trace sampleReconciler sampleKey (sampleWorld cr rfl)) rfl (by decide)
    fun l hl => S.run_answers _ _ _ l (List.mem_of_mem_tail hl)
  exact ⟨hcap, h.1.mp hcap⟩

end DDO.Spec
