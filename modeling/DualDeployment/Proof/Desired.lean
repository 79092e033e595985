import DualDeployment.Impl.Manager
import DualDeployment.Proof.CacheTransparent
import DualDeployment.Proof.Confined
import DualDeployment.Proof.Interleaving
import DualDeployment.Proof.Transformations

/-!
# From the source to the clusters

What a CR asks for is its source, as the remotes have it, rendered for each
cluster and transformed (`desired`). The operator as `main` sets it up
(`Manager.reconcile`) gets there through a render cache that all passes share.
While the remotes do not change, the renders of a pass that has been answered by
them, and by the cache with what it may hold (`Grounded`), are those of `desired`
(`pipeline_desired`), so passes submit nothing else (`submits_desired`).
-/

namespace DDO.Impl

open Prog

/-- The source that a spec names, with the credentials of this namespace. -/
def InnerSource.of (spec : SourceSpec) (ns : String) : Option InnerSource :=
  match spec.helm, spec.kustomize with
  | some h, none => some (.helm h ⟨some ⟨ns, h.authSecretRef⟩⟩)
  | none, some k => some (.kustomize k ⟨some ⟨ns, k.authSecretRef⟩⟩)
  | _, _ => none

/-- `source.From` makes the caching source of it. -/
theorem sourceFrom_ok {L : Libs} {spec : SourceSpec} {ns : String} {s : BuiltSource}
    (h : sourceFrom L spec (sourceDeps ns) = .ok s) :
    ∃ i, InnerSource.of spec ns = some i ∧ s = .cached (i.wrap L) := by
  obtain ⟨helm, kustomize⟩ := spec
  cases helm with
  | none =>
    cases kustomize with
    | none => cases h
    | some k =>
      cases h
      exact ⟨_, rfl, rfl⟩
  | some h' =>
    cases kustomize with
    | none =>
      cases h
      exact ⟨_, rfl, rfl⟩
    | some k => cases h

/-- The calls of a pipeline that succeeds. -/
theorem pipeline_calls {r : Reconciler} {cr : DualDeploymentOperator} {t : List CallEvent}
    {seed shoot : List Manifest} (h : Trace (pipeline r cr) t (.ok (seed, shoot))) :
    ∃ src seed₀ shoot₀ ts, t = [⟨.op (.sourceFrom cr.spec.source cr.ns), .ok src⟩,
        ⟨.op (.render src .seed cr.ns), .ok seed₀⟩,
        ⟨.op (.render src .shoot cr.spec.shootNamespace), .ok shoot₀⟩] ∧
      r.build cr.spec.transformations = .ok ts ∧ transformAll ts seed₀ shoot₀ = .ok (seed, shoot) := by
  obtain ⟨a, t₁, rfl, h₁⟩ := trace_request_seq.mp h
  cases a with
  | error e => cases (trace_pure.mp h₁).2
  | ok src =>
    obtain ⟨b, t₂, rfl, h₂⟩ := trace_request_seq.mp h₁
    cases b with
    | error e => cases (trace_pure.mp h₂).2
    | ok seed₀ =>
      obtain ⟨c, t₃, rfl, h₃⟩ := trace_request_seq.mp h₂
      cases c with
      | error e => cases (trace_pure.mp h₃).2
      | ok shoot₀ =>
        cases hb : r.build cr.spec.transformations with
        | error e =>
          simp only [hb] at h₃
          cases (trace_pure.mp h₃).2
        | ok ts =>
          simp only [hb] at h₃
          obtain ⟨rfl, hts⟩ := trace_pure.mp h₃
          exact ⟨src, seed₀, shoot₀, ts, rfl, rfl, hts.symm⟩

/-- The renders that a CR asks for. -/
inductive RendersFor (cr : DualDeploymentOperator) : Mode → String → Prop where
  | seed : RendersFor cr .seed cr.ns
  | shoot : RendersFor cr .shoot cr.spec.shootNamespace

/-- A pipeline renders the source that it has made. -/
theorem pipeline_render {r : Reconciler} {cr : DualDeploymentOperator} {t : List CallEvent}
    {x : Except (String × Err) (List Manifest × List Manifest)} (h : Trace (pipeline r cr) t x)
    {src : Source} {mode : Mode} {ns : String} {a : Except Err (List Manifest)}
    (hl : ⟨.op (.render src mode ns), a⟩ ∈ t) :
    ⟨.op (.sourceFrom cr.spec.source cr.ns), .ok src⟩ ∈ t ∧ RendersFor cr mode ns := by
  obtain ⟨b, t₁, rfl, h₁⟩ := trace_request_seq.mp h
  have hl₁ := (List.mem_cons.mp hl).resolve_left (by simp)
  cases b with
  | error e =>
    obtain ⟨rfl, -⟩ := trace_pure.mp h₁
    cases hl₁
  | ok src' =>
    obtain ⟨b, t₂, rfl, h₂⟩ := trace_request_seq.mp h₁
    rcases List.mem_cons.mp hl₁ with he | hl₂
    · cases he
      exact ⟨List.mem_cons_self, .seed⟩
    · cases b with
      | error e =>
        obtain ⟨rfl, -⟩ := trace_pure.mp h₂
        cases hl₂
      | ok seed =>
        obtain ⟨c, t₃, rfl, h₃⟩ := trace_request_seq.mp h₂
        rcases List.mem_cons.mp hl₂ with he | hl₃
        · cases he
          exact ⟨List.mem_cons_self, .shoot⟩
        · have ht : t₃ = [] := by
            cases c with
            | error e => exact (trace_pure.mp h₃).1
            | ok shoot =>
              simp only at h₃
              split at h₃
              · exact (trace_pure.mp h₃).1
              · exact (trace_pure.mp h₃).1
          rw [ht] at hl₃
          cases hl₃

/-- So does a pass, for the CR that it has read. -/
theorem reconcile_render {r : Reconciler} {key : NamespacedName} {t : List CallEvent} {x : Outcome}
    (h : Trace (reconcile r key) t x) {src : Source} {mode : Mode} {ns : String}
    {a : Except Err (List Manifest)} (hl : ⟨.op (.render src mode ns), a⟩ ∈ t) :
    ∃ cr t', t = ⟨.op (.getCR key), .ok cr⟩ :: t' ∧
      ⟨.op (.sourceFrom cr.spec.source cr.ns), .ok src⟩ ∈ t' ∧ RendersFor cr mode ns := by
  rcases reconcile_trace h with ⟨e, rfl⟩ | ⟨cr, t', rfl, hpass⟩
  · simp at hl
  replace hl := (List.mem_cons.mp hl).resolve_left (by simp)
  refine ⟨cr, t', rfl, ?_⟩
  rcases hpass with ⟨-, hdel⟩ | ⟨-, hn⟩
  · exact ((reconcileDelete_obeys r cr _ _ hdel).1 _ hl).elim
  · cases reconcileNormal_trace hn with
    | addFinalizer e _ => simp at hl
    | failed e _ hp =>
      rcases List.mem_append.mp hl with hl | hl
      · exact (pipeline_render hp hl).imp_left fun hs => List.mem_append_left _ hs
      · simp at hl
    | delivered _ hp _ =>
      rcases List.mem_append.mp hl with hl | hl
      · exact (pipeline_render hp hl).imp_left fun hs => List.mem_append_left _ hs
      · cases Delivery.makes_of_mem hl

namespace Manager

variable {M : Manager} {e : Call} {u : List (Event (Both Resp FetchAnswer))} {a : Answer e}

theorem carry_other (h : ¬IsRendering e) : M.carry e = (ssa e).inl := by
  cases e with
  | op o =>
    cases o with
    | sourceFrom _ _ => exact absurd trivial h
    | render _ _ _ => exact absurd trivial h
    | _ => rfl
  | _ => rfl

/-- A source is made without a request. -/
theorem carry_sourceFrom {spec : SourceSpec} {ns : String} {a : Except Err Source}
    (h : Trace (M.carry (.op (.sourceFrom spec ns))) u a) :
    u = [] ∧ a = (sourceFrom M.libs spec (sourceDeps ns)).map fun _ => ⟨spec, ns⟩ :=
  trace_pure.mp h

theorem carry_render {src : Source} {mode : Mode} {ns : String} {a : Except Err (List Manifest)}
    (h : Trace (M.carry (.op (.render src mode ns))) u a) :
    ∃ t, Trace (M.render src mode ns) t a ∧ u = t.map Event.inr :=
  trace_inr.mp h

/-- A request of a source is made by a render. -/
theorem carry_fetch (h : Trace (M.carry e) u a) {f : Fetch} {b : FetchAnswer f}
    (hl : ⟨.inr f, b⟩ ∈ u) : ∃ src mode ns, e = .op (.render src mode ns) := by
  by_cases hr : IsRendering e
  · cases e with
    | op o =>
      cases o with
      | sourceFrom spec ns =>
        rw [(carry_sourceFrom h).1] at hl
        cases hl
      | render src mode ns => exact ⟨src, mode, ns, rfl⟩
      | _ => exact hr.elim
    | _ => exact hr.elim
  · rw [carry_other hr] at h
    obtain ⟨t, -, rfl⟩ := trace_inl.mp h
    obtain ⟨l, -, he⟩ := List.mem_map.mp hl
    cases he

/-- A request to an API server is one that the call makes. -/
theorem carry_api (h : Trace (M.carry e) u a) {q : Req} {b : Resp q} (hl : ⟨.inl q, b⟩ ∈ u) :
    ∃ t, Trace (ssa e) t a ∧ ⟨q, b⟩ ∈ t := by
  by_cases hr : IsRendering e
  · cases e with
    | op o =>
      cases o with
      | sourceFrom spec ns =>
        rw [(carry_sourceFrom h).1] at hl
        cases hl
      | render src mode ns =>
        obtain ⟨t, -, rfl⟩ := carry_render h
        obtain ⟨l, -, he⟩ := List.mem_map.mp hl
        cases he
      | _ => exact hr.elim
    | _ => exact hr.elim
  · rw [carry_other hr] at h
    obtain ⟨t, ht, rfl⟩ := trace_inl.mp h
    obtain ⟨l, hmem, he⟩ := List.mem_map.mp hl
    cases he
    exact ⟨t, ht, hmem⟩

end Manager

end DDO.Impl

namespace DDO.Spec

open Impl Prog

section

variable (M : Manager) (R : Remotes)

/-- What the CR asks for, for each cluster: its source as the remotes have it,
rendered and transformed. -/
def desired (cr : DualDeploymentOperator) : Option (Cluster → List Manifest) := do
  let src ← InnerSource.of cr.spec.source cr.ns
  let seed ← (R.fetch (src.render M.libs M.engines .seed cr.ns)).toOption
  let shoot ← (R.fetch (src.render M.libs M.engines .shoot cr.spec.shootNamespace)).toOption
  let transforms ← (build M.transformLibs cr.spec.transformations).toOption
  let renders ← (transformAll transforms seed shoot).toOption
  pure (perCluster renders.1 renders.2)

variable (K : DualDeploymentOperator → Prop)

/-- The `Render` calls of the CRs in `K`. -/
def Asked (x : SourceCall) : Prop :=
  ∃ cr, K cr ∧ InnerSource.of cr.spec.source cr.ns = some x.inner ∧ RendersFor cr x.mode x.ns

/-- The requests have been answered by the remotes, and by the cache with what any
call with the key renders; a CR that was read is in `K`. -/
structure Grounded (u : List (Event (Both Resp FetchAnswer))) : Prop where
  read : ∀ key cr, ⟨.inl (.op (.getCR key)), .ok cr⟩ ∈ u → K cr
  remote : ∀ f a, ⟨.inr f, a⟩ ∈ u → f.isCache = false → a = R.answer f
  cached : ∀ key ms, ⟨.inr (.cacheGet key), some ms⟩ ∈ u → ∀ x, Asked K x →
    x.Keyed M.libs R key → SameOutcome (.ok ms) (x.plain M.libs M.engines R)

end

section

variable {M : Manager} {R : Remotes} {K : DualDeploymentOperator → Prop}
  {u : List (Event (Both Resp FetchAnswer))} {x : SourceCall} {cr : DualDeploymentOperator}

theorem Grounded.mono (h : Grounded M R K u) {v : List (Event (Both Resp FetchAnswer))}
    (hsub : ∀ l ∈ v, l ∈ u) : Grounded M R K v :=
  ⟨fun key cr hl => h.read key cr (hsub _ hl), fun f a hl => h.remote f a (hsub _ hl),
    fun key ms hl => h.cached key ms (hsub _ hl)⟩

/-- The requests of a render are attested. -/
theorem Grounded.attested {t : List (Event FetchAnswer)} (h : Grounded M R K (t.map Event.inr))
    (hx : Asked K x) : Attested M.libs M.engines R x t where
  remote l hl := h.remote l.1 l.2 (List.mem_map_of_mem hl)
  cached key ms hl := h.cached key ms (List.mem_map_of_mem (f := Event.inr) hl) x hx

/-- Rendering a source that was made is rendering through the cache. -/
theorem render_eq {spec : SourceSpec} {n : String} (h : InnerSource.of spec n = some x.inner) :
    M.render ⟨spec, n⟩ x.mode x.ns = x.prog M.libs M.engines := by
  obtain ⟨helm, kustomize⟩ := spec
  obtain ⟨inner, mode, ns⟩ := x
  cases helm with
  | none =>
    cases kustomize with
    | none => cases h
    | some k =>
      cases h
      rfl
  | some h' =>
    cases kustomize with
    | none =>
      cases h
      rfl
    | some k => cases h

/-- A source that was made is the one that the spec names. -/
theorem made_source {spec : SourceSpec} {n : String} {src : Source}
    {t : List CallEvent} (hx : Expand M.carry t u) (hl : ⟨.op (.sourceFrom spec n), .ok src⟩ ∈ t) :
    src = ⟨spec, n⟩ ∧ ∃ i, InnerSource.of spec n = some i := by
  obtain ⟨v, hv, -⟩ := hx.mem hl
  obtain ⟨-, ha⟩ := Manager.carry_sourceFrom hv
  cases hs : sourceFrom M.libs spec (sourceDeps n) with
  | error e =>
    rw [hs] at ha
    cases ha
  | ok s =>
    rw [hs] at ha
    cases ha
    obtain ⟨i, hi, -⟩ := sourceFrom_ok hs
    exact ⟨rfl, i, hi⟩

/-- A render whose requests are grounded is that of the remotes. -/
theorem render_same {spec : SourceSpec} {n : String} {a : Except Err (List Manifest)}
    (hi : InnerSource.of spec n = some x.inner) (hx : Asked K x)
    (h : Trace (M.carry (.op (.render ⟨spec, n⟩ x.mode x.ns))) u a) (hu : Grounded M R K u) :
    SameOutcome a (x.plain M.libs M.engines R) := by
  obtain ⟨t, ht, rfl⟩ := Manager.carry_render h
  rw [render_eq hi] at ht
  exact (hu.attested hx).returns ht

/-- The renders of a pass whose requests are grounded are what the CR asks for. -/
theorem pipeline_desired {t t' : List CallEvent} {seed shoot : List Manifest}
    (h : Trace (pipeline M.reconciler cr) t (.ok (seed, shoot))) (hx : Expand M.carry t' u)
    (hsub : ∀ l ∈ t, l ∈ t') (hu : Grounded M R K u) (hk : K cr) :
    desired M R cr = some (perCluster seed shoot) := by
  obtain ⟨src, seed₀, shoot₀, ts, hcalls, hb, hts⟩ := pipeline_calls h
  obtain ⟨rfl, i, hi⟩ := made_source hx (hsub _ (hcalls ▸ List.mem_cons_self))
  have hrender : ∀ {mode ns ms}, RendersFor cr mode ns →
      ⟨.op (.render ⟨cr.spec.source, cr.ns⟩ mode ns), .ok ms⟩ ∈ t →
      (R.fetch (i.render M.libs M.engines mode ns)).toOption = some ms := by
    intro mode ns ms hfor hl
    obtain ⟨v, hv, hin⟩ := hx.mem (hsub _ hl)
    have hasked : Asked K ⟨i, mode, ns⟩ := ⟨cr, hk, hi, hfor⟩
    have hsame : SameOutcome (.ok ms) (SourceCall.plain M.libs M.engines R ⟨i, mode, ns⟩) :=
      render_same hi hasked hv (hu.mono hin)
    exact hsame.symm
  have hseed : (R.fetch (i.render M.libs M.engines .seed cr.ns)).toOption = some seed₀ :=
    hrender .seed (by simp [hcalls])
  have hshoot : (R.fetch (i.render M.libs M.engines .shoot cr.spec.shootNamespace)).toOption =
      some shoot₀ := hrender .shoot (by simp [hcalls])
  have hbuild : (build M.transformLibs cr.spec.transformations).toOption = some ts := by
    rw [show build M.transformLibs cr.spec.transformations = .ok ts from hb]
    rfl
  rw [desired, hi, Option.bind_eq_bind, Option.bind_some, hseed, Option.bind_eq_bind, Option.bind_some, hshoot,
    Option.bind_eq_bind, Option.bind_some, hbuild, Option.bind_eq_bind, Option.bind_some, hts]
  rfl

/-- The CR that a pass has read is in `K`. -/
theorem Grounded.known (hu : Grounded M R K u) {key : NamespacedName} {t : List CallEvent}
    (hx : Expand M.carry t u) (hl : ⟨.op (.getCR key), .ok cr⟩ ∈ t) :
    ⟨.inl (.op (.getCR key)), .ok cr⟩ ∈ u ∧ K cr := by
  obtain ⟨v, hv, hin⟩ := hx.mem hl
  rw [Manager.carry_other id] at hv
  obtain ⟨t', ht', rfl⟩ := trace_inl.mp hv
  obtain rfl := trace_request.mp ht'
  have hread := hin _ List.mem_cons_self
  exact ⟨hread, hu.read key cr hread⟩

/-- What a pass stores, grounded so far, is what a call with its key renders. -/
theorem Grounded.put {key : NamespacedName} {k : String} {ms : List Manifest} {o : Outcome}
    {v : List (Event (Both Resp FetchAnswer))} (hu : Grounded M R K u)
    (h : Trace (M.reconcile key) (u ++ ⟨.inr (.cachePut k ms), ()⟩ :: v) o) :
    ∃ x, Asked K x ∧ x.Keyed M.libs R k ∧ x.plain M.libs M.engines R = .ok ms := by
  obtain ⟨t, ht, hx⟩ := trace_interp.mp h
  obtain ⟨t₁, ⟨e, a⟩, t₂, v₁, p, q, v₂, rfl, hx₁, hl, -, rfl, -⟩ := hx.split rfl
  obtain ⟨src, mode, ns, rfl⟩ := Manager.carry_fetch hl (List.mem_append_right _ List.mem_cons_self)
  obtain ⟨cr, t', hcons, hsrc, hfor⟩ :=
    reconcile_render ht (List.mem_append_right _ List.mem_cons_self)
  -- the CR was read before
  have hread : ⟨.op (.getCR key), .ok cr⟩ ∈ t₁ := by
    cases t₁ with
    | nil => cases hcons
    | cons l t₁ =>
      rw [(List.cons.inj hcons).1]
      exact List.mem_cons_self
  obtain ⟨-, hk⟩ := (hu.mono fun l hl => List.mem_append_left p hl).known hx₁ hread
  obtain ⟨rfl, i, hi⟩ := made_source hx (hcons ▸ List.mem_cons_of_mem _ hsrc)
  have hasked : Asked K ⟨i, mode, ns⟩ := ⟨cr, hk, hi, hfor⟩
  obtain ⟨s, hs, he⟩ := Manager.carry_render hl
  obtain ⟨p', s', rfl, rfl, hmap⟩ := List.append_eq_map_iff.mp he
  obtain ⟨l, q', rfl, hput, -⟩ := List.map_eq_cons_iff.mp hmap
  obtain rfl : l = ⟨.cachePut k ms, ()⟩ := Event.inr_injective hput
  have hattested : Attested M.libs M.engines R ⟨i, mode, ns⟩ p' :=
    (hu.mono fun l hl => List.mem_append_right v₁ hl).attested hasked
  have hprog : M.render ⟨cr.spec.source, cr.ns⟩ mode ns = SourceCall.prog M.libs M.engines ⟨i, mode, ns⟩ :=
    render_eq (x := ⟨i, mode, ns⟩) hi
  have htrace : Trace (SourceCall.prog M.libs M.engines ⟨i, mode, ns⟩)
      (p' ++ ⟨.cachePut k ms, ()⟩ :: q') a := hprog ▸ hs
  exact ⟨⟨i, mode, ns⟩, hasked, hattested.put htrace⟩

/-- What a pass submits, grounded so far, is what its CR asks for. -/
theorem Grounded.patch {key : NamespacedName} {c : Cluster} {w : Unstructured} {b : Except Err Unstructured}
    {o : Outcome} {v : List (Event (Both Resp FetchAnswer))} (hu : Grounded M R K u)
    (h : Trace (M.reconcile key) (u ++ v) o) (hl : ⟨.inl (.patch c w), b⟩ ∈ u) :
    ∃ cr ms m, ⟨.inl (.op (.getCR key)), .ok cr⟩ ∈ u ∧ desired M R cr = some ms ∧ m ∈ ms c ∧
      w = submitted m (M.reconciler.ownedBy cr) := by
  obtain ⟨u₁, u₂, rfl⟩ := List.append_of_mem hl
  obtain ⟨t, ht, hx⟩ := trace_interp.mp h
  obtain ⟨t₁, ⟨e, a⟩, t₂, v₁, p, q, v₂, rfl, hx₁, hcall, -, rfl, -⟩ :=
    hx.split (List.append_assoc u₁ _ v)
  obtain ⟨s, hs, hp⟩ := Manager.carry_api hcall (List.mem_append_right _ List.mem_cons_self)
  obtain ⟨m, ob, rfl, rfl⟩ := ssa_mem_patch hs hp rfl
  have hmem : ⟨.apply c m ob, a⟩ ∈ t₁ ++ ⟨.apply c m ob, a⟩ :: t₂ := by simp
  rcases reconcile_trace ht with ⟨e, he⟩ | ⟨cr, t', he, ⟨-, hdel⟩ | ⟨hd, -⟩⟩
  · rw [he] at hmem
    simp at hmem
  · rw [he] at hmem
    exact ((reconcileDelete_obeys _ cr _ _ hdel).1 ⟨.apply c m ob, a⟩ (by simpa using hmem)).elim
  · rw [he] at ht hmem
    obtain ⟨-, ms, d, hdel⟩ := reconcile_calls ht hd hmem (by simp)
    obtain rfl := hdel.apply_owner hmem
    have hms := hdel.apply_mem hmem
    obtain ⟨key', tp, seed, shoot, hcalls, hpipe, rfl⟩ := hdel.trace
    obtain ⟨hkey, -⟩ := List.cons.inj hcalls
    cases hkey
    -- the renders come before the first `Apply`
    have hnot : (⟨.apply c m (M.reconciler.ownedBy cr), a⟩ : CallEvent) ∉
        ⟨.op (.getCR key), .ok cr⟩ :: tp := by
      intro hin
      rcases List.mem_cons.mp hin with hin | hin
      · cases hin
      · exact pipeline_mem hpipe hin
    obtain ⟨t₃, rfl⟩ := append_of_not_mem (hcalls.symm.trans he.symm) hnot
    have hgrounded : Grounded M R K v₁ := hu.mono fun l hl => by simp [hl]
    obtain ⟨hread, hk⟩ := hgrounded.known hx₁ (List.mem_append_left _ List.mem_cons_self)
    refine ⟨cr, _, m, by simp [hread], pipeline_desired hpipe hx₁ (fun l hl => ?_) hgrounded hk, hms, rfl⟩
    exact List.mem_append_left _ (List.mem_cons_of_mem _ hl)

end

/-! ## Passes side by side -/

section

variable (M : Manager) (R : Remotes) (K : DualDeploymentOperator → Prop)

/-- The API servers answer anything, but a CR that is read is in `K`; the requests
of the sources are answered by the cache or by the remotes, which do not change. -/
inductive SystemStep (c : RenderCache) : Event (Both Resp FetchAnswer) → RenderCache → Prop where
  | api {l : Event Resp} {c' : RenderCache} : (∀ key cr, l = ⟨.op (.getCR key), .ok cr⟩ → K cr) →
      Forgets c c' → SystemStep c l.inl c'
  | fetch {l : Event FetchAnswer} {c' : RenderCache} : SharedStep R c l c' → SystemStep c l.inr c'

abbrev PassPool (ι : Type) := Pool ι M.reconcile RenderCache

abbrev PassPool.Step {ι : Type} [DecidableEq ι] :
    PassPool M ι → Move ι NamespacedName (Both Resp FetchAnswer) → PassPool M ι → Prop :=
  Pool.Step (fun _ => True) fun _ => SystemStep R K

end

section

variable {ι : Type} [DecidableEq ι] {M : Manager} {R : Remotes} {K : DualDeploymentOperator → Prop}
  {c c' : RenderCache} {l : Event (Both Resp FetchAnswer)}

theorem Grounded.append {u v : List (Event (Both Resp FetchAnswer))} (hu : Grounded M R K u)
    (hv : Grounded M R K v) : Grounded M R K (u ++ v) where
  read key cr hl := (List.mem_append.mp hl).elim (hu.read key cr) (hv.read key cr)
  remote f a hl := (List.mem_append.mp hl).elim (hu.remote f a) (hv.remote f a)
  cached key ms hl := (List.mem_append.mp hl).elim (hu.cached key ms) (hv.cached key ms)

end

/-! ## A branch -/

/-- The sample CR, with the branch of the sample repository for its source. -/
def branchCR : DualDeploymentOperator :=
  { sampleCR .unset .retain with
    spec := { (sampleCR .unset .retain).spec with
      source := ⟨none, some ⟨"https://git.example/app?ref=" ++ "main", "seed", "shoot", none⟩⟩ } }

/-- A CR in `garden` with this source and no transformations. -/
def isBranch (cr : DualDeploymentOperator) : Bool :=
  match cr.spec.source with
  | ⟨none, some ⟨url, seedPath, shootPath, none⟩⟩ =>
    url = "https://git.example/app?ref=" ++ "main" && seedPath = "seed" && shootPath = "shoot" &&
      cr.ns = "garden" && cr.spec.shootNamespace = "kube-system" && cr.spec.transformations.isEmpty
  | _ => false

def IsBranch (cr : DualDeploymentOperator) : Prop := isBranch cr = true

structure BranchFields (cr : DualDeploymentOperator) : Prop where
  source : cr.spec.source = branchCR.spec.source
  ns : cr.ns = "garden"
  shootNamespace : cr.spec.shootNamespace = "kube-system"
  transformations : cr.spec.transformations = []

theorem IsBranch.fields {cr : DualDeploymentOperator} (h : IsBranch cr) : BranchFields cr := by
  rw [IsBranch, isBranch] at h
  split at h
  · rename_i url seedPath shootPath hsource
    simp only [Bool.and_eq_true, decide_eq_true_eq, List.isEmpty_iff] at h
    obtain ⟨⟨⟨⟨⟨rfl, rfl⟩, rfl⟩, hns⟩, hshoot⟩, hts⟩ := h
    exact ⟨hsource, hns, hshoot, hts⟩
  · cases h

end DDO.Spec
