import DualDeployment.Framework.Pool
import DualDeployment.Proof.CacheKey

/-!
# Renders through a shared cache while refs move

The `Render` calls of one source that is pinned to a branch, a tag or a chart
version, made with any credentials, modes and namespaces, side by side and
through one render cache, while the remotes change at any time. A call asks
twice what its ref stands for: once for the id, and once more when it fetches
the content. If the two agree, every entry of the cache is the render of the
content that its key names, and so is what a call is answered from the cache
(`cache_serves_resolved`); a ref that moves in between leaves an entry under
the wrong id (`cache_serves_moved`). The content of a chart includes the
dependencies that are fetched for it, so what these may be is a parameter
(`Locks`).
-/

namespace DDO.Impl

/-- The source, with the credentials of another CR. -/
def InnerSource.withCreds : InnerSource → Option SourceCredentials → InnerSource
  | .helm spec _, creds => .helm spec ⟨creds⟩
  | .kustomize spec _, creds => .kustomize spec ⟨creds⟩

/-- The request is for the render cache. -/
def Fetch.isCache : Fetch → Bool
  | .cacheGet _ => true
  | .cachePut _ _ => true
  | _ => false

/-- The request asks what a ref stands for, or for a Secret. -/
def Fetch.isLookup : Fetch → Bool
  | .getSecret _ => true
  | .listRefs _ _ => true
  | .resolve _ _ => true
  | _ => false

end DDO.Impl

namespace DDO.Spec

open Impl Prog

/-! ## Calls and their cache -/

/-- A `Render` call of a source. -/
structure RenderCall where
  creds : Option SourceCredentials
  mode : Mode
  ns : String

/-- The remotes, and the render cache that the calls share. -/
structure CacheWorld where
  remotes : Remotes
  cache : RenderCache

section

variable (L : Libs) (E : Engines) (i : InnerSource)

def RenderCall.prog (x : RenderCall) : Fetching (Except Err (List Manifest)) :=
  ((i.withCreds x.creds).wrap L).render L E x.mode x.ns

/-- A key of the source. -/
def OwnKey (key : String) : Prop :=
  ∃ id scope mode ns, i.scope L = .ok scope ∧ key = (i.wrap L).key id scope mode ns

/-- Other users of the cache have left no entry under a key of the source. -/
def Elsewhere (c c' : RenderCache) : Prop := ∀ p ∈ c'.items, OwnKey L i p.1 → p ∈ c.items

/-- A request is answered by the cache or the remotes as they are at that moment.
Then the remotes may change in any way, and the cache through renders of other
sources. -/
inductive CacheStep (w : CacheWorld) : Event FetchAnswer → CacheWorld → Prop where
  | get {key : String} {w' : CacheWorld} : Elsewhere L i (w.cache.get key).2 w'.cache →
      CacheStep w ⟨.cacheGet key, (w.cache.get key).1⟩ w'
  | put {key : String} {ms : List Manifest} {w' : CacheWorld} :
      Elsewhere L i (w.cache.add key ms) w'.cache → CacheStep w ⟨.cachePut key ms, ()⟩ w'
  | remote {e : Fetch} {w' : CacheWorld} : e.isCache = false → Elsewhere L i w.cache w'.cache →
      CacheStep w ⟨e, w.remotes.answer e⟩ w'

/-- The calls under way, the remotes and the cache. -/
abbrev RenderPool (ι : Type) := Pool ι (RenderCall.prog L E i) CacheWorld

abbrev RenderPool.Step {ι : Type} [DecidableEq ι] :
    RenderPool L E i ι → Move ι RenderCall FetchAnswer → RenderPool L E i ι → Prop :=
  Pool.Step (fun _ => True) fun _ => CacheStep L i

/-- Its requests so far have resolved the source to the id. -/
def Resolved (past : List (Event FetchAnswer)) (id : String) : Prop :=
  ∃ t₁ t₂ scope, past = t₁ ++ t₂ ∧ Trace (i.resolve L) t₁ (.ok (id, scope))

/-- The digests that the locked version of a dependency may stand for. If it is at
most one for each, a chart determines what is loaded of it. -/
abbrev Locks := String → String → Digest → Prop

/-- The content has the dependencies that its chart asks for. -/
def Content.Complete (D : Locks) : Content → Prop
  | .commit _ => True
  | .chart c => ∃ chart, L.charts c.digest = .ok chart ∧
      (chart.dir.resolveDepsPlan = .ok false ∧ c.dependencies = [] ∨
        chart.dir.resolveDepsPlan = .ok true ∧ ∃ deps, chart.locked = .ok deps ∧
          List.Forall₂ (fun d digest => D (d.repository ++ "/" ++ d.name) d.version digest)
            (deps.filter fun d => isOCI d.repository) c.dependencies)

/-- What a fetch gives is the content with the id, or a dependency at its locked
version. -/
def Stands (D : Locks) (id : String) : Event FetchAnswer → Prop
  | ⟨.clone _ _ _, .ok commit⟩ => commit.text = id
  | ⟨.pull _ _ _, .ok digest⟩ => digest.text = id
  | ⟨.pullDependency ref version _, .ok digest⟩ => D ref version digest
  | _ => True

/-- When a call that has resolved an id fetches its content, the reference that it
asks for stands for that id, if it stands for anything, and so does each dependency
for what it is locked to. -/
def FetchesResolved (D : Locks) {ι : Type} (s : RenderPool L E i ι) : Move ι RenderCall FetchAnswer → Prop
  | .start _ _ => True
  | .request j l => ∀ x ∈ s.running j, ∀ id, Resolved L (i.withCreds x.call.creds) x.past id →
      Stands D id ⟨l.1, s.world.remotes.answer l.1⟩

/-- What a call that has resolved an id returns from the cache is the render of
the content that the id names. -/
def ServesResolved (D : Locks) {ι : Type} (s : RenderPool L E i ι) : Move ι RenderCall FetchAnswer → Prop
  | .start _ _ => True
  | .request j l => ∀ x ∈ s.running j, ∀ key, l.1 = .cacheGet key →
      ∀ ms, Trace (x.call.prog L E i) (x.past ++ [l]) (.ok ms) →
      ∀ id, Resolved L (i.withCreds x.call.creds) x.past id →
      ∃ c : Content, c.id = id ∧ c.Complete L D ∧ renderContent L E x.call.mode x.call.ns i c = .ok ms

end

/-! ## What credentials do not change -/

section

variable {L : Libs} {E : Engines} {i : InnerSource} {creds : Option SourceCredentials}

theorem withCreds_key (id scope : String) (mode : Mode) (ns : String) :
    ((i.withCreds creds).wrap L).key id scope mode ns = (i.wrap L).key id scope mode ns := by
  cases i <;> rfl

theorem withCreds_renderContent (mode : Mode) (ns : String) (c : Content) :
    renderContent L E mode ns (i.withCreds creds) c = renderContent L E mode ns i c := by
  cases i <;> cases c <;> rfl

theorem withCreds_scope : (i.withCreds creds).scope L = i.scope L := by
  cases i <;> rfl

theorem withCreds_hashPinned : HashPinned L.net (i.withCreds creds) ↔ HashPinned L.net i := by
  cases i <;> rfl

theorem wrap_inner : (i.wrap L).inner = i := by
  cases i <;> rfl

end

/-! ## The requests of a call -/

section

variable {L : Libs} {E : Engines} {mode : Mode} {ns : String}

theorem credFor_asks (c : Option SourceCredentials) : Asks (fun e => e.isLookup = true) (credFor c) := by
  cases c with
  | none => exact asks_pure _
  | some c =>
    rw [credFor, SourceCredentials.resolve]
    split
    · exact asks_pure _
    · split_ifs
      · exact asks_pure _
      · refine asks_seq (asks_request rfl) fun r => ?_
        cases r <;> exact asks_pure _

theorem authFor_asks (r : GitResolver) : Asks (fun e => e.isLookup = true) r.authFor := by
  refine asks_seq (credFor_asks r.resolve) fun c => ?_
  cases c <;> exact asks_pure _

/-- To resolve a source, only lookups are made. -/
theorem resolve_asks (i : InnerSource) : Asks (fun e => e.isLookup = true) (i.resolve L) := by
  cases i with
  | helm spec loader =>
    rw [InnerSource.resolve]
    split
    · exact asks_pure _
    · refine asks_seq ?_ fun id => by cases id <;> exact asks_pure _
      rw [HelmLoader.resolveID]
      split
      · exact asks_pure _
      · split_ifs
        · refine asks_seq (credFor_asks _) fun c => ?_
          cases c with
          | error e => exact asks_pure _
          | ok c => exact asks_seq (asks_request rfl) fun d => by cases d <;> exact asks_pure _
        · exact asks_pure _
  | kustomize spec resolver =>
    rw [InnerSource.resolve]
    split
    · exact asks_pure _
    · refine asks_seq ?_ fun id => by cases id <;> exact asks_pure _
      rw [GitResolver.resolveID]
      split
      · exact asks_pure _
      · split_ifs
        · exact asks_pure _
        · refine asks_seq (authFor_asks _) fun auth => ?_
          cases auth with
          | error e => exact asks_pure _
          | ok auth =>
            refine asks_seq (asks_request rfl) fun refs => ?_
            cases refs with
            | error e => exact asks_pure _
            | ok refs => dsimp only; split <;> exact asks_pure _

theorem isCache_of_isLookup (e : Fetch) (h : e.isLookup = true) : e.isCache = false := by
  cases e <;> first | rfl | cases h

theorem cloneFirst_asks (base : String) (auth : Option BasicAuth) (err : Err) (rns : List String) :
    Asks (fun e => e.isCache = false) (GitResolver.cloneFirst base auth err rns) := by
  induction rns with
  | nil => exact asks_pure _
  | cons rn rns ih =>
    refine asks_seq (asks_request rfl) fun r => ?_
    cases r with
    | ok commit => exact asks_pure _
    | error e => exact ih

theorem fetchPinned_asks (base ref : String) (auth : Option BasicAuth) :
    Asks (fun e => e.isCache = false) (GitResolver.fetchPinned base ref auth) := by
  rw [GitResolver.fetchPinned]
  split_ifs
  · refine asks_seq (asks_request rfl) fun repo => ?_
    cases repo with
    | error e => exact asks_pure _
    | ok repo => dsimp only; split <;> exact asks_pure _
  · exact cloneFirst_asks _ _ _ _

theorem buildDependencies_asks (chart : ExpandedChart) (c : Creds) (deps : List LockedDependency) :
    Asks (fun e => e.isCache = false) (buildDependencies chart c deps) := by
  induction deps with
  | nil => exact asks_pure _
  | cons d deps ih =>
    rw [buildDependencies]
    split_ifs
    · refine asks_seq (asks_request rfl) fun r => ?_
      cases r with
      | error e => exact asks_pure _
      | ok digest => exact asks_seq ih fun r => by cases r <;> exact asks_pure _
    · split
      · exact asks_pure _
      · exact ih

theorem expandAndResolveDeps_asks (l : HelmLoader) (charts : Charts) (digest : Digest) :
    Asks (fun e => e.isCache = false) (l.expandAndResolveDeps charts digest) := by
  rw [HelmLoader.expandAndResolveDeps]
  split
  · exact asks_pure _
  · split
    · exact asks_pure _
    · exact asks_pure _
    · refine asks_seq ((credFor_asks _).mono isCache_of_isLookup) fun c => ?_
      cases c with
      | error e => exact asks_pure _
      | ok c =>
        refine asks_seq ?_ fun r => by cases r <;> exact asks_pure _
        rw [ExpandedChart.build]
        split
        · exact asks_pure _
        · exact buildDependencies_asks _ _ _

theorem load_asks (l : HelmLoader) (net : NetURL) (charts : Charts) (repo name version : String) :
    Asks (fun e => e.isCache = false) (l.load net charts repo name version) := by
  rw [HelmLoader.load]
  split
  · exact asks_pure _
  · split_ifs
    · refine asks_seq ?_ fun r => ?_
      · refine asks_seq ((credFor_asks _).mono isCache_of_isLookup) fun c => ?_
        cases c with
        | error e => exact asks_pure _
        | ok c => exact asks_seq (asks_request rfl) fun d => by cases d <;> exact asks_pure _
      · cases r with
        | error e => exact asks_pure _
        | ok digest => exact expandAndResolveDeps_asks l charts digest
    · exact asks_pure _

/-- The inner render leaves the cache alone. -/
theorem render_asks (i : InnerSource) : Asks (fun e => e.isCache = false) (i.render L E mode ns) := by
  cases i with
  | helm spec loader =>
    refine asks_seq (load_asks _ _ _ _ _ _) fun chart => ?_
    cases chart with
    | error e => exact asks_pure _
    | ok chart => dsimp only; split <;> exact asks_pure _
  | kustomize spec resolver =>
    refine asks_seq ?_ fun root => by cases root <;> exact asks_pure _
    rw [GitResolver.root]
    split
    · exact asks_pure _
    · refine asks_seq ((authFor_asks _).mono isCache_of_isLookup) fun auth => ?_
      cases auth with
      | error e => exact asks_pure _
      | ok auth => exact asks_seq (fetchPinned_asks _ _ _) fun c => by cases c <;> exact asks_pure _

/-- How a call ends: without a key, with a cached render, with an error, or with a
render that it stores. -/
inductive CachedRun (L : Libs) (E : Engines) (s : CachingSource) (mode : Mode) (ns : String) :
    List (Event FetchAnswer) → Except Err (List Manifest) → Prop where
  | unresolved {t₁ t₂ : List (Event FetchAnswer)} {e : Err} {a : Except Err (List Manifest)} :
      Trace (s.inner.resolve L) t₁ (.error e) → Trace (s.inner.render L E mode ns) t₂ a →
      CachedRun L E s mode ns (t₁ ++ t₂) a
  | hit {t₁ : List (Event FetchAnswer)} {id scope : String} {ms : List Manifest} :
      Trace (s.inner.resolve L) t₁ (.ok (id, scope)) →
      CachedRun L E s mode ns (t₁ ++ [⟨.cacheGet (s.key id scope mode ns), some ms⟩]) (.ok ms)
  | failed {t₁ t₂ : List (Event FetchAnswer)} {id scope : String} {e : Err} :
      Trace (s.inner.resolve L) t₁ (.ok (id, scope)) → Trace (s.inner.render L E mode ns) t₂ (.error e) →
      CachedRun L E s mode ns (t₁ ++ ⟨.cacheGet (s.key id scope mode ns), none⟩ :: t₂) (.error e)
  | stored {t₁ t₂ : List (Event FetchAnswer)} {id scope : String} {ms : List Manifest} :
      Trace (s.inner.resolve L) t₁ (.ok (id, scope)) → Trace (s.inner.render L E mode ns) t₂ (.ok ms) →
      CachedRun L E s mode ns ((t₁ ++ ⟨.cacheGet (s.key id scope mode ns), none⟩ :: t₂) ++
        [⟨.cachePut (s.key id scope mode ns) ms, ()⟩]) (.ok ms)

theorem cachedRun_of_trace {s : CachingSource} {t : List (Event FetchAnswer)}
    {a : Except Err (List Manifest)} (h : Trace (s.render L E mode ns) t a) :
    CachedRun L E s mode ns t a := by
  obtain ⟨t₁, t₂, r, rfl, h₁, h₂⟩ := trace_seq.mp h
  cases r with
  | error e => exact .unresolved h₁ h₂
  | ok p =>
    obtain ⟨id, scope⟩ := p
    obtain ⟨r, t₃, rfl, h₃⟩ := trace_request_seq.mp h₂
    cases r with
    | some ms =>
      obtain ⟨rfl, rfl⟩ := trace_pure.mp h₃
      exact .hit h₁
    | none =>
      obtain ⟨t₄, t₅, r, rfl, h₄, h₅⟩ := trace_seq.mp h₃
      cases r with
      | error e =>
        obtain ⟨rfl, rfl⟩ := trace_pure.mp h₅
        rw [List.append_nil]
        exact .failed h₁ h₄
      | ok ms =>
        obtain ⟨_, t₆, rfl, h₆⟩ := trace_request_seq.mp h₅
        obtain ⟨rfl, rfl⟩ := trace_pure.mp h₆
        rw [← List.cons_append, ← List.append_assoc]
        exact .stored h₁ h₄

section

variable {i : InnerSource} {t₁ t₂ : List (Event FetchAnswer)} {a₁ : Except Err (String × String)}
  {a₂ : Except Err (List Manifest)} {l m : Event FetchAnswer}

theorem resolve_no_cache (h : Trace (i.resolve L) t₁ a₁) (hl : l.1.isCache = true) : l ∉ t₁ := by
  intro hm
  rw [isCache_of_isLookup _ (resolve_asks i t₁ a₁ h l hm)] at hl
  cases hl

theorem render_no_cache (h : Trace (i.render L E mode ns) t₂ a₂) (hl : l.1.isCache = true) : l ∉ t₂ := by
  intro hm
  rw [render_asks i t₂ a₂ h l hm] at hl
  cases hl

/-- A call without a key does not ask the cache. -/
theorem unresolved_no_cache (h₁ : Trace (i.resolve L) t₁ a₁) (h₂ : Trace (i.render L E mode ns) t₂ a₂)
    (hl : l.1.isCache = true) : l ∉ t₁ ++ t₂ := by
  intro hm
  rcases List.mem_append.mp hm with hm | hm
  · exact resolve_no_cache h₁ hl hm
  · exact render_no_cache h₂ hl hm

/-- Up to the end of its render, a call asks the cache once. -/
theorem miss_cache (h₁ : Trace (i.resolve L) t₁ a₁) (h₂ : Trace (i.render L E mode ns) t₂ a₂)
    (hl : l.1.isCache = true) (hm : l ∈ t₁ ++ m :: t₂) : l = m := by
  rcases List.mem_append.mp hm with hm | hm
  · exact absurd hm (resolve_no_cache h₁ hl)
  · rcases List.mem_cons.mp hm with hm | hm
    · exact hm
    · exact absurd hm (render_no_cache h₂ hl)

end

/-- A call that is answered from the cache has resolved the id in its key. -/
theorem CachedRun.of_hit {s : CachingSource} {past : List (Event FetchAnswer)} {key : String}
    {r : Option (List Manifest)} {ms : List Manifest}
    (h : CachedRun L E s mode ns (past ++ [⟨.cacheGet key, r⟩]) (.ok ms)) :
    ∃ id scope, Trace (s.inner.resolve L) past (.ok (id, scope)) ∧ key = s.key id scope mode ns ∧
      r = some ms := by
  generalize ht : past ++ [⟨.cacheGet key, r⟩] = t at h
  generalize ha : Except.ok ms = a at h
  have hget : (⟨.cacheGet key, r⟩ : Event FetchAnswer) ∈ t := by simp [← ht]
  cases h with
  | unresolved h₁ h₂ => exact absurd hget (unresolved_no_cache h₁ h₂ rfl)
  | hit h₁ =>
    cases ha
    obtain ⟨rfl, he⟩ := List.append_inj' ht rfl
    cases he
    exact ⟨_, _, h₁, rfl, rfl⟩
  | failed h₁ h₂ => cases ha
  | stored h₁ h₂ =>
    -- the last request of such a call is the one that stores the render
    cases (List.append_inj' ht rfl).2

/-- The request that a call is answered from the cache is its last. -/
theorem CachedRun.get_last {s : CachingSource} {past rest : List (Event FetchAnswer)} {key : String}
    {ms : List Manifest} {a : Except Err (List Manifest)}
    (h : CachedRun L E s mode ns (past ++ ⟨.cacheGet key, some ms⟩ :: rest) a) :
    rest = [] ∧ a = .ok ms := by
  generalize ht : past ++ ⟨.cacheGet key, some ms⟩ :: rest = t at h
  have hget : (⟨.cacheGet key, some ms⟩ : Event FetchAnswer) ∈ t := by simp [← ht]
  cases h with
  | unresolved h₁ h₂ => exact absurd hget (unresolved_no_cache h₁ h₂ rfl)
  | @hit t₁ _ _ ms' h₁ =>
    obtain ⟨t', rfl⟩ := append_of_not_mem ht.symm (resolve_no_cache h₁ rfl)
    rw [List.append_assoc, List.append_cancel_left_eq] at ht
    cases t' with
    | nil =>
      cases ht
      exact ⟨rfl, rfl⟩
    | cons l t' =>
      have hlen := congrArg List.length ht
      simp at hlen
  | failed h₁ h₂ => cases miss_cache h₁ h₂ rfl hget
  | stored h₁ h₂ =>
    rcases List.mem_append.mp hget with hm | hm
    · cases miss_cache h₁ h₂ rfl hm
    · cases List.mem_singleton.mp hm

/-- A call that stores a render has resolved the id in its key, and made the
requests of the render. -/
theorem CachedRun.of_put {s : CachingSource} {past rest : List (Event FetchAnswer)} {key : String}
    {ms : List Manifest} {a : Except Err (List Manifest)}
    (h : CachedRun L E s mode ns (past ++ ⟨.cachePut key ms, ()⟩ :: rest) a) :
    ∃ t₁ t₂ t₃ id scope, past = t₁ ++ t₂ ++ t₃ ∧ Trace (s.inner.resolve L) t₁ (.ok (id, scope)) ∧
      key = s.key id scope mode ns ∧ Trace (s.inner.render L E mode ns) t₂.tail (.ok ms) := by
  generalize ht : past ++ ⟨.cachePut key ms, ()⟩ :: rest = t at h
  have hput : (⟨.cachePut key ms, ()⟩ : Event FetchAnswer) ∈ t := by simp [← ht]
  cases h with
  | unresolved h₁ h₂ => exact absurd hput (unresolved_no_cache h₁ h₂ rfl)
  | hit h₁ =>
    rcases List.mem_append.mp hput with hm | hm
    · exact absurd hm (resolve_no_cache h₁ rfl)
    · cases List.mem_singleton.mp hm
  | failed h₁ h₂ => cases miss_cache h₁ h₂ rfl hput
  | @stored t₁ t₂ id scope ms' h₁ h₂ =>
    have hbefore : (⟨.cachePut key ms, ()⟩ : Event FetchAnswer) ∉
        t₁ ++ ⟨.cacheGet (s.key id scope mode ns), none⟩ :: t₂ := by
      intro hm
      cases miss_cache h₁ h₂ rfl hm
    obtain ⟨t₃, rfl⟩ := append_of_not_mem ht.symm hbefore
    cases List.mem_singleton.mp ((List.mem_append.mp hput).resolve_left hbefore)
    exact ⟨t₁, _, t₃, id, scope, rfl, h₁, rfl, h₂⟩

/-! ## The content of a render -/

theorem cloneFirst_mem {base : String} {auth : Option BasicAuth} {err : Err} {rns : List String}
    {t : List (Event FetchAnswer)} {commit : CommitHash}
    (h : Trace (GitResolver.cloneFirst base auth err rns) t (.ok commit)) :
    ∃ rn, (⟨.clone base auth rn, .ok commit⟩ : Event FetchAnswer) ∈ t := by
  induction rns generalizing t with
  | nil => cases (trace_pure.mp h).2
  | cons rn rns ih =>
    obtain ⟨r, t', rfl, h'⟩ := trace_request_seq.mp h
    cases r with
    | ok c =>
      obtain ⟨rfl, he⟩ := trace_pure.mp h'
      cases he
      exact ⟨rn, List.mem_singleton_self _⟩
    | error e =>
      obtain ⟨rn', hm⟩ := ih h'
      exact ⟨rn', List.mem_cons_of_mem _ hm⟩

/-- The root of a ref that is not a hash is a clone. -/
theorem root_mem {resolver : GitResolver} {net : NetURL} {url sub : String}
    {t : List (Event FetchAnswer)} {root : KustomizeRoot}
    (h : Trace (resolver.root net url sub) t (.ok root)) {base rootSub ref : String}
    (hsp : splitRef net url = .ok (base, rootSub, ref)) (hs : isSHA ref = false) :
    root.rootSubPath = rootSub ∧ root.subPath = sub ∧
      ∃ auth rn, (⟨.clone base auth rn, .ok root.commit⟩ : Event FetchAnswer) ∈ t := by
  obtain ⟨hr, hsub, t₁, t₂, auth, rfl, h₂⟩ := root_trace h hsp
  rw [GitResolver.fetchPinned, hs, if_neg Bool.false_ne_true] at h₂
  obtain ⟨rn, hm⟩ := cloneFirst_mem h₂
  exact ⟨hr, hsub, auth, rn, List.mem_append_right _ hm⟩

theorem pullOCI_mem {loader : HelmLoader} {repo name version : String} {t : List (Event FetchAnswer)}
    {digest : Digest} (h : Trace (loader.pullOCI repo name version) t (.ok digest)) :
    ∃ creds, (⟨.pull ("oci://" ++ ociBase repo ++ "/" ++ name) version creds, .ok digest⟩ :
      Event FetchAnswer) ∈ t := by
  obtain ⟨t₁, t₂, c, rfl, -, h₂⟩ := trace_seq.mp h
  cases c with
  | error e => cases (trace_pure.mp h₂).2
  | ok c =>
    obtain ⟨r, t₃, rfl, h₃⟩ := trace_request_seq.mp h₂
    cases r with
    | error e => cases (trace_pure.mp h₃).2
    | ok d =>
      cases (trace_pure.mp h₃).2
      exact ⟨c, List.mem_append_right _ List.mem_cons_self⟩

/-- What is built of a chart are the locked dependencies of registries. -/
theorem buildDependencies_stands {D : Locks} {id : String} {chart : ExpandedChart} {c : Creds}
    {deps : List LockedDependency} {t : List (Event FetchAnswer)} {digests : List Digest}
    (h : Trace (buildDependencies chart c deps) t (.ok digests)) (ht : ∀ l ∈ t, Stands D id l) :
    List.Forall₂ (fun d digest => D (d.repository ++ "/" ++ d.name) d.version digest)
      (deps.filter fun d => isOCI d.repository) digests := by
  induction deps generalizing t digests with
  | nil =>
    cases (trace_pure.mp h).2
    exact .nil
  | cons d deps ih =>
    rw [buildDependencies] at h
    split_ifs at h with ho
    · obtain ⟨r, t', rfl, h'⟩ := trace_request_seq.mp h
      cases r with
      | error e => cases (trace_pure.mp h').2
      | ok digest =>
        obtain ⟨t₁, t₂, r, rfl, h₁, h₂⟩ := trace_seq.mp h'
        cases r with
        | error e => cases (trace_pure.mp h₂).2
        | ok rest =>
          cases (trace_pure.mp h₂).2
          rw [List.filter_cons, if_pos ho]
          have hd : Stands D id ⟨.pullDependency (d.repository ++ "/" ++ d.name) d.version c, .ok digest⟩ :=
            ht _ List.mem_cons_self
          exact .cons hd (ih h₁ fun l hl => ht l (List.mem_cons_of_mem _ (List.mem_append_left _ hl)))
    · rw [List.filter_cons, if_neg ho]
      split at h
      · cases (trace_pure.mp h).2
      · exact ih h ht

theorem expandAndResolveDeps_stands {D : Locks} {id : String} {l : HelmLoader} {digest : Digest}
    {t : List (Event FetchAnswer)} {chart : LoadedChart}
    (h : Trace (l.expandAndResolveDeps L.charts digest) t (.ok chart)) (ht : ∀ l ∈ t, Stands D id l) :
    chart.digest = digest ∧ (Content.chart chart).Complete L D := by
  rw [HelmLoader.expandAndResolveDeps] at h
  split at h
  · cases (trace_pure.mp h).2
  · rename_i expanded hc
    split at h
    · cases (trace_pure.mp h).2
    · rename_i hplan
      cases (trace_pure.mp h).2
      exact ⟨rfl, expanded, hc, .inl ⟨hplan, rfl⟩⟩
    · rename_i hplan
      obtain ⟨t₁, t₂, c, rfl, -, h₂⟩ := trace_seq.mp h
      cases c with
      | error e => cases (trace_pure.mp h₂).2
      | ok c =>
        obtain ⟨t₃, t₄, r, rfl, h₃, h₄⟩ := trace_seq.mp h₂
        cases r with
        | error e => cases (trace_pure.mp h₄).2
        | ok digests =>
          cases (trace_pure.mp h₄).2
          rw [ExpandedChart.build] at h₃
          split at h₃
          · cases (trace_pure.mp h₃).2
          · rename_i deps hlock
            refine ⟨rfl, expanded, hc, .inr ⟨hplan, deps, hlock, ?_⟩⟩
            exact buildDependencies_stands h₃ fun l hl =>
              ht l (List.mem_append_right _ (List.mem_append_left _ hl))

/-- A chart that is loaded has been pulled, and completed. -/
theorem load_stands {D : Locks} {id : String} {loader : HelmLoader} {repo name version : String}
    {t : List (Event FetchAnswer)} {chart : LoadedChart}
    (h : Trace (loader.load L.net L.charts repo name version) t (.ok chart)) (ht : ∀ l ∈ t, Stands D id l) :
    chart.digest.text = id ∧ (Content.chart chart).Complete L D := by
  rw [HelmLoader.load] at h
  split at h
  · cases (trace_pure.mp h).2
  · split_ifs at h
    · obtain ⟨t₁, t₂, digest, rfl, h₁, h₂⟩ := trace_seq.mp h
      cases digest with
      | error e => cases (trace_pure.mp h₂).2
      | ok digest =>
        obtain ⟨rfl, hcomplete⟩ :=
          expandAndResolveDeps_stands h₂ fun l hl => ht l (List.mem_append_right _ hl)
        obtain ⟨creds, hm⟩ := pullOCI_mem h₁
        exact ⟨ht _ (List.mem_append_left _ hm), hcomplete⟩
    · cases (trace_pure.mp h).2

/-- A source that is not pinned by a hash renders a content that it was given. -/
theorem render_content {D : Locks} {id : String} {i : InnerSource} (hp : ¬ HashPinned L.net i)
    {t : List (Event FetchAnswer)} {ms : List Manifest} (h : Trace (i.render L E mode ns) t (.ok ms))
    (ht : ∀ l ∈ t, Stands D id l) :
    ∃ c : Content, c.id = id ∧ c.Complete L D ∧ renderContent L E mode ns i c = .ok ms := by
  cases i with
  | helm spec loader =>
    obtain ⟨t₁, t₂, chart, rfl, h₁, h₂⟩ := trace_seq.mp h
    cases chart with
    | error e => cases (trace_pure.mp h₂).2
    | ok chart =>
      obtain ⟨hid, hcomplete⟩ := load_stands h₁ fun l hl => ht l (List.mem_append_left _ hl)
      refine ⟨.chart chart, hid, hcomplete, ?_⟩
      dsimp only at h₂
      cases hl : E.loadFails chart with
      | some e =>
        rw [hl] at h₂
        cases (trace_pure.mp h₂).2
      | none =>
        rw [hl] at h₂
        simp only [renderContent, hl]
        exact (trace_pure.mp h₂).2.symm
  | kustomize spec resolver =>
    obtain ⟨t₁, t₂, root, rfl, h₁, h₂⟩ := trace_seq.mp h
    cases root with
    | error e => cases (trace_pure.mp h₂).2
    | ok root =>
      cases hsp : splitRef L.net spec.url with
      | error e =>
        rw [GitResolver.root, hsp] at h₁
        cases (trace_pure.mp h₁).2
      | ok p =>
        obtain ⟨base, rootSub, ref⟩ := p
        have hs : isSHA ref = false := by
          by_contra hs
          exact hp ⟨base, rootSub, ref, hsp, (Bool.not_eq_false _).mp hs⟩
        obtain ⟨hr, hsub, auth, rn, hm⟩ := root_mem h₁ hsp hs
        refine ⟨.commit root.commit, ht _ (List.mem_append_left _ hm), trivial, ?_⟩
        rw [renderContent, rootSubPathOf, hsp, ← hsub]
        dsimp only
        rw [← hr]
        exact (trace_pure.mp h₂).2.symm

/-! ## Keys of one source -/

/-- The keys of one source tell ids, modes and namespaces apart, whatever the
namespaces are. -/
theorem source_key_inj {s : CachingSource} {id id' scope : String} {mode mode' : Mode} {ns ns' : String}
    (hid : '|' ∉ id.toList) (hid' : '|' ∉ id'.toList)
    (h : s.key id scope mode ns = s.key id' scope mode' ns') : id = id' ∧ mode = mode' ∧ ns = ns' := by
  have hkey : ∀ (id : String) (mode : Mode) (ns : String), (s.key id scope mode ns).toList =
      (s.sourceKind.toList ++ '|' :: (scope.toList ++ ['|'])) ++
        (id.toList ++ '|' :: (mode.text.toList ++ '|' :: (s.inputHash.toList ++ '|' :: ns.toList))) := by
    intro id mode ns
    simp [CachingSource.key, KeyParts.string]
  have hl := congrArg String.toList h
  rw [hkey, hkey, List.append_cancel_left_eq] at hl
  obtain ⟨h₁, hl⟩ := append_sep_inj_of_not_mem hid hid' hl
  obtain ⟨h₂, hl⟩ := append_sep_inj_of_not_mem (Mode.text_noBar mode) (Mode.text_noBar mode') hl
  have h₃ : ns.toList = ns'.toList := (List.cons.inj (List.append_cancel_left hl)).2
  exact ⟨String.toList_inj.mp h₁, Mode.text_inj (String.toList_inj.mp h₂), String.toList_inj.mp h₃⟩

end

/-! ## All calls -/

section

variable {ι : Type} [DecidableEq ι] {L : Libs} {E : Engines} {i : InnerSource} {D : Locks}

instance (e : Fetch) : Nonempty (FetchAnswer e) := by
  cases e <;> exact ⟨by first | exact .error (.text "") | exact none | exact ()⟩

/-- Every entry under a key of the source is the render of what the key names. -/
def Truthful (L : Libs) (E : Engines) (i : InnerSource) (D : Locks) (c : RenderCache) : Prop :=
  ∀ p ∈ c.items, ∀ id scope mode ns, '|' ∉ id.toList → i.scope L = .ok scope →
    p.1 = (i.wrap L).key id scope mode ns →
    ∃ c : Content, c.id = id ∧ c.Complete L D ∧ renderContent L E mode ns i c = .ok p.2

/-- What the call was given to render is what it had resolved. -/
def Honest (D : Locks) (x : Running (RenderCall.prog L E i)) : Prop :=
  ∀ id, Resolved L (i.withCreds x.call.creds) x.past id → ∀ l ∈ x.past, Stands D id l

theorem stands_of_isLookup {l : Event FetchAnswer} (h : l.1.isLookup = true) (id : String) :
    Stands D id l := by
  obtain ⟨e, r⟩ := l
  cases e <;> trivial

/-- What has been resolved is resolved by the requests before any that is no lookup. -/
theorem Resolved.of_fetch {past rest : List (Event FetchAnswer)} {l : Event FetchAnswer} {id : String}
    (h : Resolved L i (past ++ l :: rest) id) (hc : l.1.isLookup = false) : Resolved L i past id := by
  obtain ⟨t₁, t₂, scope, he, ht⟩ := h
  have hl : l ∉ t₁ := by
    intro hm
    rw [resolve_asks i t₁ _ ht l hm] at hc
    cases hc
  obtain ⟨t', rfl⟩ := append_of_not_mem he.symm hl
  exact ⟨t₁, t', scope, rfl, ht⟩

theorem Resolved.append {past : List (Event FetchAnswer)} {id : String} (h : Resolved L i past id)
    (rest : List (Event FetchAnswer)) : Resolved L i (past ++ rest) id := by
  obtain ⟨t₁, t₂, scope, rfl, ht⟩ := h
  exact ⟨t₁, t₂ ++ rest, scope, List.append_assoc .., ht⟩

theorem Resolved.unique {past : List (Event FetchAnswer)} {id id' : String} (h : Resolved L i past id)
    (h' : Resolved L i past id') : id = id' := by
  obtain ⟨t₁, t₂, scope, rfl, ht⟩ := h
  obtain ⟨t₁', t₂', scope', he, ht'⟩ := h'
  cases (ht.unique ht' he).2
  rfl

theorem honest_start (c : RenderCall) : Honest D (.start (RenderCall.prog L E i) c) := by
  intro id _ l hl
  cases hl

/-- A request before which the call's ref stands for what it had resolved keeps
the call honest. -/
theorem honest_answered (x : Running (RenderCall.prog L E i)) {e : Fetch}
    {k : FetchAnswer e → Fetching (Except Err (List Manifest))} (h : x.rest = .call e k)
    (r : FetchAnswer e) {w w' : CacheWorld} (hx : Honest D x)
    (hq : ∀ id, Resolved L (i.withCreds x.call.creds) x.past id → Stands D id ⟨e, w.remotes.answer e⟩)
    (hs : CacheStep L i w ⟨e, r⟩ w') : Honest D (x.answered h r) := by
  intro id hid l hl
  have hid' : Resolved L (i.withCreds x.call.creds) (x.past ++ [⟨e, r⟩]) id := hid
  cases hlook : l.1.isLookup with
  | true => exact stands_of_isLookup hlook id
  | false =>
    rcases List.mem_append.mp hl with hl | hl
    · -- the id had been resolved before a fetch that was there before the request
      obtain ⟨v, u, hv⟩ := List.append_of_mem hl
      rw [hv, List.append_assoc, List.cons_append] at hid'
      have hpast := (hid'.of_fetch hlook).append (l :: u)
      rw [← hv] at hpast
      exact hx id hpast l hl
    · cases List.mem_singleton.mp hl
      cases hs with
      | get _ => trivial
      | put _ => trivial
      | remote _ _ => exact hq id (hid'.of_fetch hlook)

/-- An honest call stores the render of the content that its key names. -/
theorem Honest.put {x : Running (RenderCall.prog L E i)} (hx : Honest D x) (hp : ¬ HashPinned L.net i)
    {key : String} {ms : List Manifest} {k : Unit → Fetching (Except Err (List Manifest))}
    (h : x.rest = .call (.cachePut key ms) k) :
    ∃ id scope, '|' ∉ id.toList ∧ i.scope L = .ok scope ∧
      key = (i.wrap L).key id scope x.call.mode x.call.ns ∧
      ∃ c : Content, c.id = id ∧ c.Complete L D ∧ renderContent L E x.call.mode x.call.ns i c = .ok ms := by
  obtain ⟨s, a, ht⟩ := x.exists_trace h ()
  obtain ⟨t₁, t₂, t₃, id, scope, hpast, h₁, hkey, h₂⟩ := (cachedRun_of_trace ht).of_put
  rw [wrap_inner] at h₁ h₂
  have hid : Resolved L (i.withCreds x.call.creds) x.past id :=
    ⟨t₁, t₂ ++ t₃, scope, by rw [hpast, List.append_assoc], h₁⟩
  have hstands : ∀ l ∈ t₂.tail, Stands D id l := by
    intro l hl
    refine hx id hid l ?_
    rw [hpast]
    exact List.mem_append_left _ (List.mem_append_right _ (List.mem_of_mem_tail hl))
  obtain ⟨c, hc, hcomplete, hr⟩ := render_content (fun h => hp (withCreds_hashPinned.mp h)) h₂ hstands
  refine ⟨id, scope, resolve_noBar h₁, withCreds_scope ▸ (resolve_trace h₁).1, hkey.trans (withCreds_key ..),
    c, hc, hcomplete, ?_⟩
  rw [← hr, withCreds_renderContent]

theorem CacheStep.get_eq {w w' : CacheWorld} {key : String} {r : Option (List Manifest)}
    (h : CacheStep L i w ⟨.cacheGet key, r⟩ w') : r = (w.cache.get key).1 := by
  generalize hl : (⟨.cacheGet key, r⟩ : Event FetchAnswer) = l at h
  cases h with
  | get _ =>
    cases hl
    rfl
  | put _ => cases hl
  | remote hc _ =>
    cases hl
    cases hc

theorem Truthful.mono {c c' : RenderCache} (h : Truthful L E i D c) (he : Elsewhere L i c c') :
    Truthful L E i D c' := by
  intro p hp id scope mode ns hid hs hk
  exact h p (he p hp ⟨id, scope, mode, ns, hs, hk⟩) id scope mode ns hid hs hk

/-- The requests of honest calls keep the cache truthful. -/
theorem truthful_step (x : Running (RenderCall.prog L E i)) (hx : Honest D x) (hp : ¬ HashPinned L.net i)
    {e : Fetch} {k : FetchAnswer e → Fetching (Except Err (List Manifest))} (h : x.rest = .call e k)
    {r : FetchAnswer e} {w w' : CacheWorld} (hs : CacheStep L i w ⟨e, r⟩ w')
    (hw : Truthful L E i D w.cache) : Truthful L E i D w'.cache := by
  cases hs with
  | get he => exact Truthful.mono (fun p hp => hw p (Lru.mem_get hp)) he
  | remote _ he => exact hw.mono he
  | @put key ms _ he =>
    refine Truthful.mono (fun p hmem id scope mode ns hid hsc hkey => ?_) he
    rcases Lru.mem_add hmem with rfl | hmem
    · obtain ⟨id', scope', hid', hsc', hkey', hc⟩ := hx.put hp h
      cases hsc.symm.trans hsc'
      obtain ⟨rfl, rfl, rfl⟩ := source_key_inj hid hid' (hkey.symm.trans hkey')
      exact hc
    · exact hw p hmem id scope mode ns hid hsc hkey

/-- **Renders from the cache are those of the resolved id.** A source that is not
pinned by a hash is rendered by any calls, with any credentials, modes and
namespaces, their requests interleaved in any order, through a cache that is
empty at first and that renders of other sources may use too, while the
remotes change at any time. In a run in which, whenever a call fetches, its ref
stands for the id it has resolved, and a dependency of its chart for what it is
locked to, each call that is answered from the cache returns the render of the
content that its id names, with such dependencies. -/
theorem cache_serves_resolved (L : Libs) (E : Engines) (i : InnerSource) (D : Locks)
    (hp : ¬ HashPinned L.net i) (R : Remotes) (size : Int) {ms : List (Move ι RenderCall FetchAnswer)}
    {s : RenderPool L E i ι}
    (h : Steps (fun s m s' => RenderPool.Step L E i s m s' ∧ FetchesResolved L E i D s m)
      (Pool.idle ⟨R, newRenderCache size⟩) ms s) :
    Steps (fun s m s' => RenderPool.Step L E i s m s' ∧ ServesResolved L E i D s m)
      (Pool.idle ⟨R, newRenderCache size⟩) ms s := by
  refine h.mono_inv (P := fun s => Pool.All (fun x _ => Honest D x) s ∧ Truthful L E i D s.world.cache) ?_
    ⟨Pool.all_idle _ _, fun p hp => absurd hp List.not_mem_nil⟩
  rintro s m s' ⟨hg, hw⟩ ⟨hstep, hfetch⟩
  have hall : Pool.All (fun x _ => Honest D x) s' := by
    refine hstep.inv_if (Q := fun x w l => ∀ id, Resolved L (i.withCreds x.call.creds) x.past id →
      Stands D id ⟨l.1, w.remotes.answer l.1⟩)
      (fun c _ _ => honest_start c) (fun x _ _ h r _ _ hx hq hs => honest_answered x h r hx hq hs)
      (fun x y _ _ _ _ _ _ hx _ _ => hx) ?_ hg
    rintro j l rfl x hx
    exact hfetch x hx
  cases hstep with
  | start _ => exact ⟨⟨hall, hw⟩, .start trivial, trivial⟩
  | @request j x e k r w' hx hr hs =>
    refine ⟨⟨hall, truthful_step x (hg j x hx) hp hr hs hw⟩, .request hx hr hs, ?_⟩
    intro y hy key hkey ms ht id hid
    cases Option.some.inj (hx.symm.trans hy)
    obtain rfl : e = .cacheGet key := hkey
    obtain ⟨id', scope, h₁, rfl, rfl⟩ := (cachedRun_of_trace ht).of_hit
    rw [wrap_inner] at h₁
    cases hid.unique ⟨x.past, [], scope, (List.append_nil _).symm, h₁⟩
    exact hw _ (Lru.get_mem hs.get_eq.symm) id scope x.call.mode x.call.ns (resolve_noBar h₁)
      (withCreds_scope ▸ (resolve_trace h₁).1) (withCreds_key ..)

end

/-! ## A branch that moves -/

/-- The root of the sample repository at its branch. -/
def branchSource : InnerSource := gitSource "main" none

/-- The sample repository, open to all. -/
def publicRemotes (hash : CommitHash) : Remotes where
  secrets _ := .error (.text "not found")
  git url _ := if url = "https://git.example/app" then .ok (oneBranch hash) else .error (.text "not found")
  registry _ _ := .error (.text "no registry")

def laterHash : CommitHash :=
  ⟨List.replicate 40 'b', List.length_replicate, CommitHash.hex_replicate (by decide)⟩

/-- A build with one ConfigMap, named after the commit. -/
def commitEngines : Engines where
  loadFails _ := none
  install _ _ _ _ := .ok ""
  build root := .ok root.commit.text
  documents yaml :=
    [.ok [("apiVersion", .str "v1"), ("kind", .str "ConfigMap"), ("metadata", .obj [("name", .str yaml)])]]

/-- Remotes that change after a miss of the cache and after a render is stored. -/
def movingEnv (onMiss onPut : Remotes → Remotes) (w : CacheWorld) : (e : Fetch) → FetchAnswer e × CacheWorld
  | .cacheGet key =>
    ((w.cache.get key).1,
      ⟨if (w.cache.get key).1.isSome then w.remotes else onMiss w.remotes, (w.cache.get key).2⟩)
  | .cachePut key ms => ((), ⟨onPut w.remotes, w.cache.add key ms⟩)
  | e => (w.remotes.answer e, w)

theorem movingEnv_step (onMiss onPut : Remotes → Remotes) (w : CacheWorld) (e : Fetch) :
    CacheStep sampleLibs branchSource w ⟨e, (movingEnv onMiss onPut w e).1⟩ (movingEnv onMiss onPut w e).2 := by
  cases e with
  | cacheGet key => exact .get fun _ hp _ => hp
  | cachePut key ms => exact .put fun _ hp _ => hp
  | _ => exact .remote rfl fun _ hp _ => hp

theorem branch_splitRef :
    splitRef sampleNet ("https://git.example/app?ref=" ++ "main") =
      .ok ("https://git.example/app", "", "main") :=
  toOption_eq_some.mp (by decide +kernel)

theorem branch_mutable : ¬ HashPinned sampleLibs.net branchSource := by
  rintro ⟨base, root, ref, h, hs⟩
  cases branch_splitRef.symm.trans h
  revert hs
  decide

/-- The id that the branch was listed with. -/
def listedID : List (Event FetchAnswer) → Option String
  | ⟨.listRefs _ _, .ok refs⟩ :: _ => (GitResolver.candidate refs "main").map (·.text)
  | _ => none

theorem listedID_eq {past : List (Event FetchAnswer)} {id : String}
    (h : Resolved sampleLibs (branchSource.withCreds none) past id) : listedID past = some id := by
  obtain ⟨t₁, t₂, scope, rfl, ht⟩ := h
  have hid : Trace (GitResolver.resolveID ⟨none⟩ sampleNet ("https://git.example/app?ref=" ++ "main")) t₁
      (.ok id) := (resolve_trace ht).2
  obtain ⟨base, root, ref, hsp, ⟨hs, -⟩ | ⟨-, t₃, auth, refs, hash, rfl, hau, hc, rfl⟩⟩ :=
    resolveID_trace hid
  · exact absurd ⟨base, root, ref, hsp, hs⟩ branch_mutable
  · cases branch_splitRef.symm.trans hsp
    obtain ⟨t₄, t₅, c, rfl, h₄, h₅⟩ := trace_seq.mp hau
    obtain ⟨rfl, rfl⟩ := trace_pure.mp h₄
    obtain ⟨rfl, -⟩ := trace_pure.mp h₅
    simp [listedID, hc]

/-- Nothing is known of the versions of dependencies. -/
def anyDigest : Locks := fun _ _ _ => True

/-- The id of the content that an answer gives. -/
def contentID : Event FetchAnswer → Option String
  | ⟨.clone _ _ _, .ok commit⟩ => some commit.text
  | ⟨.pull _ _ _, .ok digest⟩ => some digest.text
  | _ => none

theorem stands_of_contentID {l : Event FetchAnswer} {id : String} (h : ∀ c, contentID l = some c → c = id) :
    Stands anyDigest id l := by
  obtain ⟨e, r⟩ := l
  cases e with
  | clone _ _ _ => cases r with
    | error e => trivial
    | ok commit => exact h _ rfl
  | pull _ _ _ => cases r with
    | error e => trivial
    | ok digest => exact h _ rfl
  | pullDependency _ _ _ => cases r <;> trivial
  | _ => trivial

/-- The check of `FetchesResolved` for calls without credentials. -/
def checkFetches (s : RenderPool sampleLibs commitEngines branchSource Nat) :
    Move Nat RenderCall FetchAnswer → Bool
  | .start _ _ => true
  | .request j l =>
    match contentID ⟨l.1, s.world.remotes.answer l.1⟩ with
    | none => true
    | some c => (s.running j).all fun x => x.call.creds.isNone && decide (listedID x.past = some c)

theorem fetches_of_check {s : RenderPool sampleLibs commitEngines branchSource Nat}
    {m : Move Nat RenderCall FetchAnswer} (h : checkFetches s m = true) :
    FetchesResolved sampleLibs commitEngines branchSource anyDigest s m := by
  cases m with
  | start _ _ => trivial
  | request j l =>
    intro x hx id hid
    refine stands_of_contentID fun c hc => ?_
    rw [checkFetches, hc] at h
    simp only [Option.mem_def.mp hx, Option.all_some, Bool.and_eq_true, Option.isNone_iff_eq_none,
      decide_eq_true_eq] at h
    rw [h.1] at hid
    exact Option.some.inj (h.2.symm.trans (listedID_eq hid))

def branchPool : RenderPool sampleLibs commitEngines branchSource Nat :=
  .idle ⟨publicRemotes sampleHash, newRenderCache 2⟩

def seedCall : RenderCall := ⟨none, .seed, "ns"⟩

/-- A whole call that finds nothing in the cache. -/
def missTurns : List (Pool.Turn Nat RenderCall) :=
  [.start 0 seedCall, .next 0, .next 0, .next 0, .next 0, .next 0]

/-- The branch moves on after the first call, and the third is answered with what
the second has stored. -/
theorem cache_serves_resolved_branch :
    Steps (fun s m s' => RenderPool.Step sampleLibs commitEngines branchSource s m s' ∧
        ServesResolved sampleLibs commitEngines branchSource anyDigest s m) branchPool
      (branchPool.play (fun _ => movingEnv id fun _ => publicRemotes laterHash)
        (missTurns ++ missTurns ++ [.start 1 seedCall, .next 1, .next 1])).1
      (branchPool.play (fun _ => movingEnv id fun _ => publicRemotes laterHash)
        (missTurns ++ missTurns ++ [.start 1 seedCall, .next 1, .next 1])).2 := by
  refine cache_serves_resolved sampleLibs commitEngines branchSource anyDigest branch_mutable
    (publicRemotes sampleHash) 2 (Steps.mono (Pool.play_steps (P := fun _ => True) (fun _ => movingEnv_step _ _) ?_ ?_)
      fun _ _ _ h => ⟨h.1, fetches_of_check h.2⟩)
  · intro t _
    cases t <;> trivial
  · decide +kernel

/-- The names of what is rendered. -/
def names (ms : List Manifest) : List String := ms.map (·.unstructured.getName)

/-- The branch moves between the id and the fetch of a call, and back; then the
next call resolves the old id. -/
def racedPool : RenderPool sampleLibs commitEngines branchSource Nat :=
  (branchPool.play (fun _ => movingEnv (fun _ => publicRemotes laterHash) fun _ => publicRemotes sampleHash)
    (missTurns ++ [.start 0 seedCall, .next 0])).2

/-- The key of the sample render at a commit. -/
def branchKey (hash : CommitHash) : String :=
  (branchSource.wrap sampleLibs).key hash.text "git:git.example" .seed "ns"

/-- What the next request of a call is for. -/
def nextKey (x : Running (RenderCall.prog sampleLibs commitEngines branchSource)) : Option String :=
  match x.rest with
  | .call (.cacheGet key) _ => some key
  | _ => none

theorem nextKey_some {x : Running (RenderCall.prog sampleLibs commitEngines branchSource)} {key : String}
    (h : nextKey x = some key) : ∃ k, x.rest = .call (.cacheGet key) k := by
  rw [nextKey] at h
  split at h
  · rename_i k hk
    cases h
    exact ⟨k, hk⟩
  · cases h

/-- The render at the first commit has one object, named after it. -/
theorem names_of_render {c : Content} {ms : List Manifest} (hc : c.id = sampleHash.text)
    (h : renderContent sampleLibs commitEngines .seed "ns" branchSource c = .ok ms) :
    names ms = [sampleHash.text] := by
  cases c with
  | chart digest => cases h
  | commit hash =>
    obtain rfl : hash = sampleHash := CommitHash.text_inj hc
    have hn : (renderContent sampleLibs commitEngines .seed "ns" branchSource
        (.commit sampleHash)).toOption.map names = some [sampleHash.text] := by decide +kernel
    rw [h] at hn
    exact Option.some.inj hn

theorem raced_call :
    (racedPool.running 0).map (fun x => (x.call.creds.isNone, x.call.mode, x.call.ns, nextKey x)) =
      some (true, .seed, "ns", some (branchKey sampleHash)) := by
  decide +kernel

theorem raced_entry :
    (racedPool.world.cache.get (branchKey sampleHash)).1.map names = some [laterHash.text] := by
  decide +kernel

theorem branch_scope : branchSource.scope sampleLibs = .ok "git:git.example" :=
  toOption_eq_some.mp (by decide +kernel)

/-- The next request of the second call is answered from the cache with the render
of the later commit, though the call has resolved the first. -/
theorem cache_serves_moved :
    ¬ HashPinned sampleLibs.net branchSource ∧
      (∃ ms, Steps (RenderPool.Step sampleLibs commitEngines branchSource) branchPool ms racedPool) ∧
      ∃ l s', RenderPool.Step sampleLibs commitEngines branchSource racedPool (.request 0 l) s' ∧
        ¬ ServesResolved sampleLibs commitEngines branchSource anyDigest racedPool (.request 0 l) := by
  refine ⟨branch_mutable, ⟨_, (Pool.play_steps (P := fun _ => True) (fun _ => movingEnv_step _ _)
    (fun t _ => by cases t <;> trivial) (q := fun _ _ => true) (by decide +kernel)).mono
      fun _ _ _ h => h.1⟩, ?_⟩
  obtain ⟨x, hx, hcall⟩ := Option.map_eq_some_iff.mp raced_call
  simp only [Prod.mk.injEq, Option.isNone_iff_eq_none] at hcall
  obtain ⟨hcreds, hmode, hns, hnext⟩ := hcall
  obtain ⟨k, hk⟩ := nextKey_some hnext
  obtain ⟨ms, hms, hnames⟩ := Option.map_eq_some_iff.mp raced_entry
  have hs : CacheStep sampleLibs branchSource racedPool.world ⟨.cacheGet (branchKey sampleHash), some ms⟩
      ⟨racedPool.world.remotes, (racedPool.world.cache.get (branchKey sampleHash)).2⟩ := by
    rw [← hms]
    exact .get fun _ hp _ => hp
  refine ⟨_, _, .request hx hk hs, fun h => ?_⟩
  obtain ⟨t, a, ht⟩ := x.exists_trace hk (some ms)
  obtain ⟨rfl, rfl⟩ := (cachedRun_of_trace ht).get_last
  obtain ⟨id, scope, h₁, hkey, -⟩ := (cachedRun_of_trace ht).of_hit
  rw [wrap_inner] at h₁
  have hscope : branchSource.scope sampleLibs = .ok scope := withCreds_scope ▸ (resolve_trace h₁).1
  cases branch_scope.symm.trans hscope
  -- the id in the key is the one that the call has resolved
  obtain ⟨rfl, -, -⟩ := source_key_inj (by decide +kernel) (resolve_noBar h₁)
    (hkey.trans (withCreds_key ..))
  obtain ⟨c, hc, -, hr⟩ := h x hx _ rfl ms ht _ ⟨x.past, [], _, (List.append_nil _).symm, h₁⟩
  rw [hmode, hns] at hr
  have hne := (names_of_render hc hr).symm.trans hnames
  revert hne
  decide +kernel

end DDO.Spec
