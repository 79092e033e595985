import DualDeployment.Impl.RenderCache
import DualDeployment.Proof.CacheTransparent
import Mathlib.Data.List.Nodup

/-!
# Cached manifests are values

The render cache holds pointers, and so do its callers, who change objects in
place. Because it copies on the way in and on the way out, no pointer is held
twice (`Separate`), and whatever callers do with what they have been given, the
cache and each of them see what they would see if manifests were values
(`pointers_as_values`). So the requests that are made of it are answered as by the
cache of values that the sources render through (`pointers_shared`).
-/

namespace DDO.Spec

open Impl Prog

/-! ## Copies -/

/-- New objects with these manifests. -/
structure Copied (h : ObjectHeap) (ms : List Manifest) (x : ObjectHeap × List ManifestRef) : Prop where
  next : h.next ≤ x.1.next
  keeps : ∀ a < h.next, x.1.cell a = h.cell a
  above : ∀ m ∈ x.2, h.next ≤ m.addr ∧ m.addr < x.1.next
  distinct : (x.2.map (·.addr)).Nodup
  values : x.2.map (deref x.1) = ms

section

variable {h : ObjectHeap} {ms : List Manifest} {x : ObjectHeap × List ManifestRef}

theorem Copied.nil (h : ObjectHeap) : Copied h [] (h, []) :=
  ⟨Nat.le_refl _, fun _ _ => rfl, by simp, List.nodup_nil, rfl⟩

theorem Copied.cons {u : Unstructured} (o : Origin) (hx : Copied (h.alloc u).1 ms x) :
    Copied h (⟨u, o⟩ :: ms) (x.1, ⟨h.next, o⟩ :: x.2) := by
  have hnext : h.next + 1 ≤ x.1.next := hx.next
  refine ⟨Nat.le_of_succ_le hnext, fun a ha => ?_, fun m hm => ?_, ?_, ?_⟩
  · rw [hx.keeps a (Nat.lt_succ_of_lt ha), Heap.cell_alloc ha]
  · rcases List.mem_cons.mp hm with rfl | hm
    · exact ⟨Nat.le_refl _, hnext⟩
    · have habove := hx.above m hm
      exact ⟨Nat.le_of_succ_le habove.1, habove.2⟩
  · rw [List.map_cons, List.nodup_cons]
    refine ⟨fun hmem => ?_, hx.distinct⟩
    obtain ⟨m, hm, he⟩ := List.mem_map.mp hmem
    have habove : h.next + 1 ≤ m.addr := (hx.above m hm).1
    exact Nat.ne_of_gt habove he
  · have hcell : x.1.cell h.next = u := (hx.keeps h.next (Nat.lt_succ_self _)).trans Heap.cell_alloc_self
    rw [List.map_cons, hx.values, Impl.deref, hcell]

theorem Copied.deref_eq (hx : Copied h ms x) {m : ManifestRef} (hm : m.addr < h.next) :
    deref x.1 m = deref h m := by
  rw [Impl.deref, hx.keeps _ hm, Impl.deref]

theorem newManifests_copied (h : ObjectHeap) (ms : List Manifest) : Copied h ms (newManifests h ms) := by
  induction ms generalizing h with
  | nil => exact .nil h
  | cons m ms ih => exact .cons m.origin (ih _)

theorem cloneManifests_copied {ms : List ManifestRef} (hms : ∀ m ∈ ms, m.addr < h.next) :
    Copied h (ms.map (deref h)) (cloneManifests h ms) := by
  induction ms generalizing h with
  | nil => exact .nil h
  | cons m ms ih =>
    have hrest : ∀ m' ∈ ms, m'.addr < h.next := fun m' hm' => hms m' (List.mem_cons_of_mem _ hm')
    have hcopied := ih (h := (h.alloc (h.cell m.addr)).1) fun m' hm' => Nat.lt_succ_of_lt (hrest m' hm')
    -- the copy of the first changes none of the others
    have hsame : ms.map (deref (h.alloc (h.cell m.addr)).1) = ms.map (deref h) :=
      List.map_congr_left fun m' hm' => by
        rw [Impl.deref, Heap.cell_alloc (hrest m' hm'), Impl.deref]
    rw [hsame] at hcopied
    exact .cons m.origin hcopied

end

/-! ## Values -/

/-- The cache and what each caller has, with manifests as values. -/
structure Values (ι : Type) where
  cache : RenderCache
  mine : ι → List Manifest

namespace Values

variable {ι : Type}

theorem ext {s s' : Values ι} (hc : s.cache = s'.cache) (hm : ∀ i, s.mine i = s'.mine i) : s = s' := by
  cases s
  cases s'
  cases hc
  cases funext hm
  rfl

variable [DecidableEq ι]

def start (size : Int) : Values ι := ⟨newRenderCache size, fun _ => []⟩

def give (s : Values ι) (i : ι) (ms : List Manifest) : Values ι :=
  { s with mine := Function.update s.mine i (s.mine i ++ ms) }

def act (s : Values ι) : Action ι → Values ι × Option (List Manifest)
  | .render i ms => (s.give i ms, none)
  | .mutate i n u =>
    ({ s with mine := Function.update s.mine i ((s.mine i).modify n fun m => ⟨u, m.origin⟩) }, none)
  | .put i key ns => ({ s with cache := s.cache.add key (ns.filterMap fun n => (s.mine i)[n]?) }, none)
  | .get i key =>
    match s.cache.get key with
    | (none, cache) => ({ s with cache }, none)
    | (some ms, cache) => (({ s with cache }).give i ms, some ms)

def run (s : Values ι) : List (Action ι) → Values ι × List (Option (List Manifest))
  | [] => (s, [])
  | a :: as =>
    let x := s.act a
    let y := x.1.run as
    (y.1, x.2 :: y.2)

end Values

/-- What the pointers of a store stand for. -/
def values {ι : Type} (s : Store ι) : Values ι where
  cache := s.cache.map (List.map (deref s.heap))
  mine i := (s.held i).map (deref s.heap)

/-- No object is held by two callers, or by a caller and the cache. -/
structure Separate {ι : Type} (s : Store ι) : Prop where
  heldBelow : ∀ i, ∀ m ∈ s.held i, m.addr < s.heap.next
  cachedBelow : ∀ p ∈ s.cache.items, ∀ m ∈ p.2, m.addr < s.heap.next
  distinct : ∀ i, ((s.held i).map (·.addr)).Nodup
  callers : ∀ i j, i ≠ j → ∀ m ∈ s.held i, ∀ m' ∈ s.held j, m.addr ≠ m'.addr
  cached : ∀ p ∈ s.cache.items, ∀ m ∈ p.2, ∀ i, ∀ m' ∈ s.held i, m.addr ≠ m'.addr

section

variable {ι : Type} {s : Store ι}

theorem separate_start (size : Int) : Separate (Store.start size : Store ι) :=
  ⟨fun _ _ hm => absurd hm List.not_mem_nil, fun _ hp => absurd hp List.not_mem_nil,
    fun _ => List.nodup_nil, fun _ _ _ _ hm => absurd hm List.not_mem_nil,
    fun _ hp => absurd hp List.not_mem_nil⟩

theorem Separate.sub {cache : Lru String (List ManifestRef)} (h : Separate s)
    (hsub : ∀ p ∈ cache.items, p ∈ s.cache.items) : Separate { s with cache } :=
  ⟨h.heldBelow, fun p hp => h.cachedBelow p (hsub p hp), h.distinct, h.callers,
    fun p hp => h.cached p (hsub p hp)⟩

/-- The manifests at some places of what a caller has. -/
theorem values_places (i : ι) (ns : List Nat) :
    (ns.filterMap fun n => (s.held i)[n]?).map (deref s.heap) =
      ns.filterMap fun n => ((values s).mine i)[n]? := by
  rw [List.map_filterMap]
  exact List.filterMap_congr fun n _ => List.getElem?_map.symm

/-- New objects in the heap leave the values as they are. -/
theorem values_heap {ms : List Manifest} {x : ObjectHeap × List ManifestRef} (h : Separate s)
    (hx : Copied s.heap ms x) : values { s with heap := x.1 } = values s := by
  refine Values.ext (Lru.map_congr fun p hp => ?_) fun i => ?_
  · exact List.map_congr_left fun m hm => hx.deref_eq (h.cachedBelow p hp m hm)
  · exact List.map_congr_left fun m hm => hx.deref_eq (h.heldBelow i m hm)

section

variable {ms : List Manifest} {x : ObjectHeap × List ManifestRef}

/-- Copies that go into the cache. -/
theorem separate_add (h : Separate s) (hx : Copied s.heap ms x) (key : String) :
    Separate { s with heap := x.1, cache := s.cache.add key x.2 } where
  heldBelow j m hm := Nat.lt_of_lt_of_le (h.heldBelow j m hm) hx.next
  cachedBelow p hp m hm := by
    rcases Lru.mem_add hp with rfl | hp
    · exact (hx.above m hm).2
    · exact Nat.lt_of_lt_of_le (h.cachedBelow p hp m hm) hx.next
  distinct := h.distinct
  callers := h.callers
  cached p hp m hm j m' hm' := by
    rcases Lru.mem_add hp with rfl | hp
    · have hlt := h.heldBelow j m' hm'
      have hge := (hx.above m hm).1
      omega
    · exact h.cached p hp m hm j m' hm'

theorem values_add (h : Separate s) (hx : Copied s.heap ms x) (key : String) :
    values { s with heap := x.1, cache := s.cache.add key x.2 } =
      { values s with cache := (values s).cache.add key ms } := by
  have hheap := values_heap h hx
  refine Values.ext ?_ fun j => congrFun (congrArg Values.mine hheap) j
  have hcache : s.cache.map (List.map (deref x.1)) = s.cache.map (List.map (deref s.heap)) :=
    congrArg Values.cache hheap
  simp only [values]
  rw [Lru.map_add, hcache, hx.values]

end

variable [DecidableEq ι]

section

variable {ms : List Manifest} {x : ObjectHeap × List ManifestRef} {i : ι}

theorem values_give (h : Separate s) (hx : Copied s.heap ms x) :
    values (s.give i x) = (values s).give i ms := by
  have hheap := values_heap h hx
  have hcache : s.cache.map (List.map (deref x.1)) = s.cache.map (List.map (deref s.heap)) :=
    congrArg Values.cache hheap
  refine Values.ext hcache fun j => ?_
  have hmine : (s.held j).map (deref x.1) = (s.held j).map (deref s.heap) :=
    congrFun (congrArg Values.mine hheap) j
  simp only [values, Store.give, Values.give]
  by_cases hj : j = i
  · subst hj
    rw [Function.update_self, Function.update_self, List.map_append, hmine, hx.values]
  · rw [Function.update_of_ne hj, Function.update_of_ne hj, hmine]

theorem mem_give {j : ι} {m : ManifestRef} (hm : m ∈ (s.give i x).held j) :
    m ∈ s.held j ∨ j = i ∧ m ∈ x.2 := by
  simp only [Store.give] at hm
  by_cases hj : j = i
  · subst hj
    rw [Function.update_self] at hm
    exact (List.mem_append.mp hm).imp_right fun hm => ⟨rfl, hm⟩
  · rw [Function.update_of_ne hj] at hm
    exact Or.inl hm

theorem separate_give (h : Separate s) (hx : Copied s.heap ms x) : Separate (s.give i x) where
  heldBelow j m hm := by
    rcases mem_give hm with hm | ⟨-, hm⟩
    · exact Nat.lt_of_lt_of_le (h.heldBelow j m hm) hx.next
    · exact (hx.above m hm).2
  cachedBelow p hp m hm := Nat.lt_of_lt_of_le (h.cachedBelow p hp m hm) hx.next
  distinct j := by
    simp only [Store.give]
    by_cases hj : j = i
    · subst hj
      rw [Function.update_self, List.map_append, List.nodup_append']
      refine ⟨h.distinct j, hx.distinct, fun a ha ha' => ?_⟩
      obtain ⟨m, hm, rfl⟩ := List.mem_map.mp ha
      obtain ⟨m', hm', he⟩ := List.mem_map.mp ha'
      have hlt := h.heldBelow j m hm
      have hge := (hx.above m' hm').1
      omega
    · rw [Function.update_of_ne hj]
      exact h.distinct j
  callers j k hjk m hm m' hm' := by
    rcases mem_give hm with h₁ | ⟨hj, h₁⟩
    · rcases mem_give hm' with h₂ | ⟨-, h₂⟩
      · exact h.callers j k hjk m h₁ m' h₂
      · have hlt := h.heldBelow j m h₁
        have hge := (hx.above m' h₂).1
        omega
    · rcases mem_give hm' with h₂ | ⟨hk, -⟩
      · have hlt := h.heldBelow k m' h₂
        have hge := (hx.above m h₁).1
        omega
      · exact absurd (hj.trans hk.symm) hjk
  cached p hp m hm j m' hm' := by
    rcases mem_give hm' with hm' | ⟨-, hm'⟩
    · exact h.cached p hp m hm j m' hm'
    · have hlt := h.cachedBelow p hp m hm
      have hge := (hx.above m' hm').1
      omega

end

/-- A caller's change of an object it has is a change of its own manifest only. -/
theorem values_write (h : Separate s) {i : ι} {n : Nat} {m : ManifestRef} (hm : (s.held i)[n]? = some m)
    (u : Unstructured) : values { s with heap := s.heap.write m.addr u } =
      { values s with
        mine := Function.update (values s).mine i (((values s).mine i).modify n fun m => ⟨u, m.origin⟩) } := by
  have hmem : m ∈ s.held i := List.mem_of_getElem? hm
  have hother : ∀ m', m'.addr ≠ m.addr → deref (s.heap.write m.addr u) m' = deref s.heap m' := fun m' hne => by
    rw [Impl.deref, Heap.cell_write hne, Impl.deref]
  refine Values.ext (Lru.map_congr fun p hp => ?_) fun j => ?_
  · exact List.map_congr_left fun m' hm' => hother m' (h.cached p hp m' hm' i m hmem)
  by_cases hj : j = i
  · subst hj
    simp only [values, Function.update_self]
    refine List.ext_getElem? fun k => ?_
    rw [List.getElem?_modify, List.getElem?_map, List.getElem?_map]
    cases hk : (s.held j)[k]? with
    | none => rfl
    | some m' =>
      by_cases hkn : n = k
      · subst hkn
        cases hm.symm.trans hk
        simp [Impl.deref, Heap.cell_write_self]
      · -- two places of one caller point to two objects
        have hne : m'.addr ≠ m.addr := by
          intro he
          have hnodup := h.distinct j
          have hn : ((s.held j).map (·.addr))[n]? = some m.addr := by rw [List.getElem?_map, hm]; rfl
          have hk' : ((s.held j).map (·.addr))[k]? = some m.addr := by rw [List.getElem?_map, hk, ← he]; rfl
          obtain ⟨hn₁, hn₂⟩ := List.getElem?_eq_some_iff.mp hn
          obtain ⟨hk₁, hk₂⟩ := List.getElem?_eq_some_iff.mp hk'
          exact hkn (hnodup.getElem_inj_iff.mp (hn₂.trans hk₂.symm))
        simp [hkn, hother m' hne]
  · simp only [values, Function.update_of_ne hj]
    exact List.map_congr_left fun m' hm' => hother m' (h.callers j i hj m' hm' m hmem)

/-! ## Actions -/

/-- One action on pointers is the action on values. -/
theorem act_values (h : Separate s) (a : Action ι) :
    Separate (s.act a).1 ∧ values (s.act a).1 = ((values s).act a).1 ∧
      (s.act a).2.map (·.map (deref (s.act a).1.heap)) = ((values s).act a).2 := by
  cases a with
  | render i ms =>
    have hx := newManifests_copied s.heap ms
    exact ⟨separate_give h hx, values_give h hx, rfl⟩
  | mutate i n u =>
    simp only [Store.act, Values.act]
    cases hn : (s.held i)[n]? with
    | none =>
      refine ⟨h, Values.ext rfl fun j => ?_, rfl⟩
      have hlen : ((values s).mine i).length ≤ n := by
        simpa [values] using List.getElem?_eq_none_iff.mp hn
      by_cases hj : j = i
      · subst hj
        simp only [Function.update_self, List.modify_eq_self hlen]
      · simp only [Function.update_of_ne hj]
    | some m => exact ⟨⟨h.heldBelow, h.cachedBelow, h.distinct, h.callers, h.cached⟩, values_write h hn u, rfl⟩
  | put i key ns =>
    have hbelow : ∀ m ∈ ns.filterMap fun n => (s.held i)[n]?, m.addr < s.heap.next := fun m hm => by
      obtain ⟨n, -, hn⟩ := List.mem_filterMap.mp hm
      exact h.heldBelow i m (List.mem_of_getElem? hn)
    have hx := cloneManifests_copied hbelow
    rw [values_places i ns] at hx
    exact ⟨separate_add h hx key, values_add h hx key, rfl⟩
  | get i key =>
    have hget : (values s).cache.get key = ((s.cache.get key).1.map (List.map (deref s.heap)),
        (s.cache.get key).2.map (List.map (deref s.heap))) := Lru.map_get _ _ _
    simp only [Store.act, Values.act, hget]
    have hmem : ∀ {ms}, (s.cache.get key).1 = some ms → (key, ms) ∈ s.cache.items := Lru.get_mem
    have hsep : Separate { s with cache := (s.cache.get key).2 } := h.sub fun p => Lru.mem_get
    rcases hr : s.cache.get key with ⟨r, cache⟩
    rw [hr] at hmem hsep
    cases r with
    | none => exact ⟨hsep, rfl, rfl⟩
    | some ms =>
      have hx := cloneManifests_copied (h := s.heap) fun m hm => h.cachedBelow _ (hmem rfl) m hm
      exact ⟨separate_give hsep hx, values_give hsep hx, congrArg some hx.values⟩

/-- **Pointers as values.** Whatever callers do, in any order, with a render cache
that was empty at first, that they render, change objects of manifests they have
been given, store manifests and read them: every read returns what it would return
if manifests were values, and so at the end does the cache hold, and does each
caller have, what they would hold. -/
theorem pointers_as_values (size : Int) (acts : List (Action ι)) :
    ((Store.start size).run acts).2 = ((Values.start size).run acts).2 ∧
      values ((Store.start size).run acts).1 = ((Values.start size).run acts).1 := by
  suffices hgen : ∀ s : Store ι, Separate s → (s.run acts).2 = ((values s).run acts).2 ∧
      values (s.run acts).1 = ((values s).run acts).1 from hgen _ (separate_start size)
  induction acts with
  | nil => exact fun s _ => ⟨rfl, rfl⟩
  | cons a as ih =>
    intro s hs
    obtain ⟨hsep, hvals, hans⟩ := act_values hs a
    obtain ⟨hrest, hend⟩ := ih _ hsep
    simp only [Store.run, Values.run]
    rw [hans, hrest, hend, hvals]
    exact ⟨rfl, rfl⟩

/-! ## Requests -/

/-- The request that an action makes of the cache, as it is answered. -/
def cacheRequest (s : Store ι) : Action ι → List (Event FetchAnswer)
  | .put i key ns => [⟨.cachePut key ((ns.filterMap fun n => (s.held i)[n]?).map (deref s.heap)), ()⟩]
  | .get i key =>
    [⟨.cacheGet key, (s.act (.get i key)).2.map (·.map (deref (s.act (.get i key)).1.heap))⟩]
  | _ => []

def cacheRequests (s : Store ι) : List (Action ι) → List (Event FetchAnswer)
  | [] => []
  | a :: as => cacheRequest s a ++ cacheRequests (s.act a).1 as

/-- The cache of values can answer the request of an action so. -/
theorem act_shared (R : Remotes) (h : Separate s) (a : Action ι) :
    Steps (SharedStep R) (values s).cache (cacheRequest s a) (values (s.act a).1).cache := by
  obtain ⟨-, hvals, hans⟩ := act_values h a
  rw [hvals]
  cases a with
  | render i ms => exact .nil _
  | mutate i n u => exact .nil _
  | put i key ns =>
    rw [cacheRequest, values_places i ns]
    exact .cons (.put fun _ hp => hp) (.nil _)
  | get i key =>
    have hget : ((values s).act (.get i key)).1.cache = ((values s).cache.get key).2 ∧
        ((values s).act (.get i key)).2 = ((values s).cache.get key).1 := by
      rw [Values.act]
      rcases (values s).cache.get key with ⟨_ | ms, cache⟩ <;> exact ⟨rfl, rfl⟩
    rw [cacheRequest, hans, hget.1, hget.2]
    exact .cons (.get fun _ hp => hp) (.nil _)

/-- Whatever callers do with the cache and with what they have been given, the
requests they make of it are answered as the cache of values answers them. -/
theorem pointers_shared (R : Remotes) (size : Int) (acts : List (Action ι)) :
    Steps (SharedStep R) (newRenderCache size) (cacheRequests (Store.start size) acts)
      (values ((Store.start size).run acts).1).cache := by
  suffices hgen : ∀ s : Store ι, Separate s →
      Steps (SharedStep R) (values s).cache (cacheRequests s acts) (values (s.run acts).1).cache from
    hgen _ (separate_start size)
  induction acts with
  | nil => exact fun s _ => .nil _
  | cons a as ih =>
    intro s hs
    exact steps_append.mpr ⟨_, act_shared R hs a, ih _ (act_values hs a).1⟩

end

end DDO.Spec
