import Mathlib.Data.Set.Card
import DualDeployment.Proof.Compare

/-!
# What a scoped comparison compares

`Apply` enters the objects under the keys they have once their namespaces are
rewritten, so two objects that differ in the namespace alone get one key, and the
later one takes the other's place (`lookup_apply_cons`). A report of `CompareScoped` is about the sets that
`Apply` was given if and only if it loses none of their objects in this way
(`scoped_comparison_iff`).
-/

namespace DDO.Impl

/-- The objects of the set, in an order in which `Apply` may range over it. -/
def ObjectSet.objects (set : ObjectSet) : List Unstructured := set.entries.map (·.2)

theorem ObjectSet.mem_objects {set : ObjectSet} {u : Unstructured} :
    u ∈ set.objects ↔ ∃ k, set.lookup k = some u := by
  rw [objects, List.mem_map]
  constructor
  · rintro ⟨⟨k, u'⟩, he, rfl⟩
    exact ⟨k, AList.mem_lookup_iff.mpr he⟩
  · rintro ⟨k, hk⟩
    exact ⟨⟨k, u⟩, AList.mem_lookup_iff.mp hk, rfl⟩

/-- Without an object, the set has the others. -/
theorem ObjectSet.objects_erase {set : ObjectSet} {k : String} {u : Unstructured}
    (h : set.lookup k = some u) : List.Perm (u :: objects (set.erase k)) set.objects := by
  have hk : k ∈ set.entries.keys := AList.lookup_isSome.mp (Option.isSome_of_eq_some h)
  obtain ⟨u', l₁, l₂, -, he, hr⟩ := List.exists_of_kerase hk
  have hu : u' = u := by
    have hm : set.lookup k = some u' := AList.mem_lookup_iff.mpr (by rw [he]; simp)
    rw [h] at hm
    exact (Option.some_inj.mp hm).symm
  have hr' : (set.erase k).entries = l₁ ++ l₂ := hr
  rw [objects, objects, hr', he, ← hu, List.map_append, List.map_append, List.map_cons]
  exact List.perm_middle.symm

namespace Scope

variable {s : Scope} {set : ObjectSet} {l : List Unstructured}

theorem compareScoped_eq (hs : s.knownDivergences = []) (g o : ObjectSet) :
    s.compareScoped g o = compare g o := by
  rw [compareScoped, hs]
  rfl

/-! ## What is kept of an object -/

theorem stripIgnoredLabels_identity (s : Scope) (u : Unstructured) : SameIdentity u (s.stripIgnoredLabels u) := by
  rw [stripIgnoredLabels]
  split_ifs
  · exact .refl u
  · exact deleteKeys_identity u _ (by decide) (by decide) (by decide) (by decide)

theorem canonicalizeNamespace_identity {u : Unstructured}
    (hu : s.canonicalNamespace = "" ∨ ¬ s.Misplaced u.getNamespace) :
    SameIdentity u (s.canonicalizeNamespace u) := by
  rw [canonicalizeNamespace]
  split_ifs with hc hm
  · exact .refl u
  · exact absurd hm (hu.resolve_left hc)
  · dsimp only
    cases u.object.nestedSlice ["subjects"] with
    | found subjects =>
      dsimp only
      split_ifs
      · exact .setNestedField u _ (by decide) (by decide) (by decide) (by decide)
      · exact .refl u
    | _ => exact .refl u

/-- An object whose namespace is not rewritten keeps its key. -/
theorem keyOf_place {u : Unstructured} (hu : s.canonicalNamespace = "" ∨ ¬ s.Misplaced u.getNamespace) :
    keyOf (s.place u) = keyOf u := by
  have hstrip := stripIgnoredLabels_identity s u
  have h : SameIdentity u (s.place u) :=
    hstrip.trans (canonicalizeNamespace_identity (by rw [hstrip.ns]; exact hu))
  rw [keyOf, h.gvk, h.ns, h.name, keyOf]

/-! ## What `Apply` returns -/

/-- What `Apply` enters, in the order of its loop. -/
def kept (s : Scope) (l : List Unstructured) : List Unstructured :=
  (l.filter fun u => s.comparesKind u.getKind).map s.place

theorem apply_eq (s : Scope) (l : List Unstructured) : s.apply l = keyedBy keyOf (s.kept l) ∅ := by
  rw [apply, keyedBy, kept, List.foldl_map, List.foldl_filter]
  congr 1
  funext out u
  cases s.comparesKind u.getKind with
  | true => rfl
  | false => rfl

theorem lookup_apply (s : Scope) (l : List Unstructured) (k : String) :
    (s.apply l).lookup k = lastWith keyOf (s.kept l) k := by
  rw [apply_eq, lookup_keyedBy, AList.lookup_empty, Option.or_none]

/-- The keys of the objects of the set that are in scope. -/
def inScope (s : Scope) (set : ObjectSet) : Set String :=
  {k | ∃ u, set.lookup k = some u ∧ s.comparesKind u.getKind = true}

/-- The key that `Apply` gives to the object with this key. -/
def newKey (s : Scope) (set : ObjectSet) (k : String) : String :=
  match set.lookup k with
  | some u => keyOf (s.place u)
  | none => k

theorem newKey_eq {k : String} {u : Unstructured} (h : set.lookup k = some u) :
    s.newKey set k = keyOf (s.place u) := by
  rw [newKey, h]

theorem mem_kept (hl : l.Perm set.objects) {v : Unstructured} :
    v ∈ s.kept l ↔ ∃ k u, set.lookup k = some u ∧ s.comparesKind u.getKind = true ∧ s.place u = v := by
  rw [kept, List.mem_map]
  constructor
  · rintro ⟨u, hu, rfl⟩
    rw [List.mem_filter, hl.mem_iff, ObjectSet.mem_objects] at hu
    obtain ⟨⟨k, hk⟩, hc⟩ := hu
    exact ⟨k, u, hk, hc, rfl⟩
  · rintro ⟨k, u, hk, hc, rfl⟩
    exact ⟨u, List.mem_filter.mpr ⟨hl.mem_iff.mpr (ObjectSet.mem_objects.mpr ⟨k, hk⟩), hc⟩, rfl⟩

/-- The keys of what `Apply` returns are those it gives to the objects in scope. -/
theorem mem_apply_iff (hl : l.Perm set.objects) {k' : String} :
    k' ∈ s.apply l ↔ k' ∈ s.newKey set '' s.inScope set := by
  rw [← AList.lookup_isSome, lookup_apply, lastWith_isSome]
  constructor
  · rintro ⟨v, hv, rfl⟩
    obtain ⟨k, u, hk, hc, rfl⟩ := (mem_kept hl).mp hv
    exact ⟨k, ⟨u, hk, hc⟩, newKey_eq hk⟩
  · rintro ⟨k, ⟨u, hk, hc⟩, rfl⟩
    exact ⟨s.place u, (mem_kept hl).mpr ⟨k, u, hk, hc, rfl⟩, (newKey_eq hk).symm⟩

/-- An object that shares its new key with a later one is lost. -/
theorem lookup_apply_cons {u v : Unstructured} (hu : s.comparesKind u.getKind = true) (hv : v ∈ l)
    (hc : s.comparesKind v.getKind = true) (he : keyOf (s.place v) = keyOf (s.place u)) (k : String) :
    (s.apply (u :: l)).lookup k = (s.apply l).lookup k := by
  have hcons : s.kept (u :: l) = s.place u :: s.kept l := by
    simp only [kept, List.filter_cons, hu, if_true, List.map_cons]
  have hmem : s.place v ∈ s.kept l := List.mem_map_of_mem (List.mem_filter.mpr ⟨hv, hc⟩)
  rw [lookup_apply, lookup_apply, hcons, lastWith_cons_of_mem hmem he]

/-! ## A set without one of its objects -/

theorem inScope_erase (s : Scope) (set : ObjectSet) (k : String) :
    s.inScope (set.erase k) = s.inScope set \ {k} := by
  ext k'
  by_cases hk : k' = k
  · subst hk
    simp [inScope]
  · simp [inScope, AList.lookup_erase_ne hk, hk]

theorem newKey_erase {k k' : String} (h : k' ≠ k) : s.newKey (set.erase k) k' = s.newKey set k' := by
  rw [newKey, newKey, AList.lookup_erase_ne h]

theorem inScope_finite (s : Scope) (set : ObjectSet) : (s.inScope set).Finite := by
  refine set.keys.finite_toSet.subset ?_
  rintro k ⟨u, hk, -⟩
  exact AList.mem_keys.mp (AList.lookup_isSome.mp (Option.isSome_of_eq_some hk))

end Scope

end DDO.Impl

namespace DDO.Spec

open Impl Impl.Scope

/-- The set is keyed by `KeyOf`. -/
def Keyed (set : ObjectSet) : Prop := ∀ k u, set.lookup k = some u → k = keyOf u

/-- No two objects in scope get one key from `Apply`. -/
def Apart (s : Scope) (set : ObjectSet) : Prop := Set.InjOn (s.newKey set) (s.inScope set)

/-- In whatever order it ranges over the set, `Apply` returns an object under a key
of its own for each object in scope. -/
def LosesNone (s : Scope) (set : ObjectSet) : Prop :=
  ∀ l : List Unstructured, l.Perm set.objects →
    Set.BijOn (s.newKey set) (s.inScope set) {k | k ∈ s.apply l}

/-- The objects of the two sets that are in scope correspond one to one, with the
same canonical forms once labels and namespaces are out of the way. -/
def Correspond (s : Scope) (g o : ObjectSet) : Prop :=
  ∃ c : String → String, Set.BijOn c (s.inScope g) (s.inScope o) ∧
    ∀ k ∈ s.inScope g, ∀ u v, g.lookup k = some u → o.lookup (c k) = some v →
      samePrep (s.place u) (s.place v) = true

/-- If the scoped sets are reported equal, the sets correspond. -/
def NoFalseGreen (s : Scope) (g o : ObjectSet) : Prop :=
  ∀ lg lo : List Unstructured, lg.Perm g.objects → lo.Perm o.objects →
    (s.compareScoped (s.apply lg) (s.apply lo)).equal = true → Correspond s g o

variable {s : Scope} {g o set : ObjectSet}

/-- `Apply` loses no object if and only if no two get one key. -/
theorem losesNone_iff : LosesNone s set ↔ Apart s set := by
  constructor
  · exact fun h => (h set.objects (.refl _)).injOn
  · intro h l hl
    have he : {k | k ∈ s.apply l} = s.newKey set '' s.inScope set := Set.ext fun k => mem_apply_iff hl
    rw [he]
    exact h.bijOn_image

/-- An object that shares its new key with no other is found under it. -/
theorem Apart.lookup_apply (h : Apart s set) {l : List Unstructured} (hl : l.Perm set.objects) {k : String}
    {u : Unstructured} (hk : set.lookup k = some u) (hc : s.comparesKind u.getKind = true) :
    (s.apply l).lookup (s.newKey set k) = some (s.place u) := by
  have hm : s.newKey set k ∈ s.apply l := (mem_apply_iff hl).mpr ⟨k, ⟨u, hk, hc⟩, rfl⟩
  obtain ⟨v, hv⟩ := Option.isSome_iff_exists.mp (AList.lookup_isSome.mpr hm)
  rw [hv]
  rw [Scope.lookup_apply] at hv
  obtain ⟨hkept, hkey⟩ := of_lastWith hv
  obtain ⟨k', u', hk', hc', rfl⟩ := (mem_kept hl).mp hkept
  have he : k' = k := h ⟨u', hk', hc'⟩ ⟨u, hk, hc⟩ (by rw [newKey_eq hk', hkey])
  subst he
  rw [hk] at hk'
  cases hk'
  rfl

/-- Sets of which `Apply` loses no object are compared object by object. -/
theorem noFalseGreen_of_apart (hs : s.knownDivergences = []) (hg : Apart s g) (ho : Apart s o) :
    NoFalseGreen s g o := by
  intro lg lo hlg hlo heq
  rw [compareScoped_eq hs, compare_equal_iff] at heq
  have hkeys : {k | k ∈ s.apply lg} = {k | k ∈ s.apply lo} := by
    ext k
    show k ∈ s.apply lg ↔ k ∈ s.apply lo
    rw [← AList.lookup_isSome, ← AList.lookup_isSome]
    exact (optionRel_iff.mp (heq k)).2
  have hbg := losesNone_iff.mpr hg lg hlg
  rw [hkeys] at hbg
  obtain ⟨c, hc, hck⟩ := exists_bijOn hbg (losesNone_iff.mpr ho lo hlo)
  refine ⟨c, hc, fun k hk u v hu hv => ?_⟩
  obtain ⟨u', hu', hcu⟩ := hk
  obtain ⟨v', hv', hcv⟩ := hc.mapsTo ⟨u', hu', hcu⟩
  rw [hu] at hu'
  cases hu'
  rw [hv] at hv'
  cases hv'
  refine (optionRel_iff.mp (heq (s.newKey g k))).1 _ _ (hg.lookup_apply hlg hu hcu) ?_
  rw [← hck k ⟨u, hu, hcu⟩, ho.lookup_apply hlo hv hcv]

/-- A set has more objects in scope than the set without one of them. -/
theorem not_correspond_erase {k : String} (hk : k ∈ s.inScope g) : ¬ Correspond s g (g.erase k) := by
  rintro ⟨c, hc, -⟩
  have hcard := hc.ncard_eq
  rw [inScope_erase] at hcard
  have hlt := Set.ncard_sdiff_singleton_lt_of_mem hk (inScope_finite s g)
  omega

/-- Of two objects that get one key, the set without one is reported equal to the
set. -/
theorem false_green (hs : s.knownDivergences = []) {k₁ k₂ : String} (h₁ : k₁ ∈ s.inScope g)
    (h₂ : k₂ ∈ s.inScope g) (hne : k₁ ≠ k₂) (he : s.newKey g k₁ = s.newKey g k₂) :
    ¬ NoFalseGreen s g (g.erase k₁) := by
  intro h
  refine not_correspond_erase h₁ ?_
  obtain ⟨u₁, hu₁, hc₁⟩ := h₁
  obtain ⟨u₂, hu₂, hc₂⟩ := h₂
  have hmem : u₂ ∈ ObjectSet.objects (g.erase k₁) :=
    ObjectSet.mem_objects.mpr ⟨k₂, by rw [AList.lookup_erase_ne (Ne.symm hne), hu₂]⟩
  have hkey : keyOf (s.place u₂) = keyOf (s.place u₁) := by
    rw [← newKey_eq hu₁, ← newKey_eq hu₂, he]
  -- the object is ranged over first, and lost to the other
  refine h _ _ (ObjectSet.objects_erase hu₁) (.refl _) ?_
  rw [compareScoped_eq hs]
  exact compare_same (lookup_apply_cons hc₁ hmem hc₂ hkey)

theorem keyed_erase (h : Keyed set) (k : String) : Keyed (set.erase k) := by
  intro k' u hk
  by_cases he : k' = k
  · subst he
    rw [AList.lookup_erase] at hk
    cases hk
  · rw [AList.lookup_erase_ne he] at hk
    exact h k' u hk

theorem apart_erase (h : Apart s set) (k : String) : Apart s (set.erase k) := by
  intro k₁ h₁ k₂ h₂ he
  rw [inScope_erase] at h₁ h₂
  rw [newKey_erase h₁.2, newKey_erase h₂.2] at he
  exact h h₁.1 h₂.1 he

/-- A set that objects are entered into by `KeyOf`. -/
theorem lookup_entered {us : List Unstructured} {k : String} {u : Unstructured}
    (h : (keyedBy keyOf us ∅).lookup k = some u) : u ∈ us ∧ keyOf u = k := by
  rw [lookup_keyedBy, AList.lookup_empty, Option.or_none] at h
  exact of_lastWith h

theorem keyed_entered (us : List Unstructured) : Keyed (keyedBy keyOf us ∅) :=
  fun _ _ h => (lookup_entered h).2.symm

/-- If no namespace of the objects in scope is rewritten, their keys stay. -/
theorem apart_of_placed (hk : Keyed set)
    (h : ∀ k u, set.lookup k = some u → s.comparesKind u.getKind = true →
      s.canonicalNamespace = "" ∨ ¬ s.Misplaced u.getNamespace) : Apart s set := by
  have hkey : ∀ k ∈ s.inScope set, s.newKey set k = k := by
    rintro k ⟨u, hu, hc⟩
    rw [newKey_eq hu, keyOf_place (h k u hu hc), ← hk k u hu]
  intro k₁ h₁ k₂ h₂ he
  rwa [hkey k₁ h₁, hkey k₂ h₂] at he

/-- **What a scoped comparison compares.** Without known divergences, and for every
set keyed by `KeyOf`: an equal report on it and another set whose objects in scope
get keys of their own, or the set itself without one object, means that the two
correspond one to one, if and only if no two of its objects in scope get one key.
Only then `Apply` loses none of them. -/
theorem scoped_comparison_iff (s : Scope) (hs : s.knownDivergences = []) (g : ObjectSet) (hg : Keyed g) :
    (((∀ o, Keyed o → Apart s o → NoFalseGreen s g o ∧ NoFalseGreen s o g) ∧
          ∀ k, Keyed (g.erase k) ∧ NoFalseGreen s g (g.erase k)) ↔ Apart s g) ∧
      (LosesNone s g ↔ Apart s g) := by
  refine ⟨⟨fun h => ?_, fun h => ?_⟩, losesNone_iff⟩
  · intro k₁ h₁ k₂ h₂ he
    by_contra hne
    exact false_green hs h₁ h₂ hne he (h.2 k₁).2
  · refine ⟨fun o _ ho => ?_, fun k => ⟨keyed_erase hg k, ?_⟩⟩
    · exact ⟨noFalseGreen_of_apart hs h ho, noFalseGreen_of_apart hs ho h⟩
    · exact noFalseGreen_of_apart hs h (apart_erase h k)

/-- A config map of this name and namespace. -/
def namedMap (name ns val : String) : Unstructured :=
  ⟨[("apiVersion", .str "v1"), ("data", .obj [("key", .str val)]), ("kind", .str "ConfigMap"),
    ("metadata", .obj [("name", .str name), ("namespace", .str ns)])]⟩

def configMap (ns val : String) : Unstructured := namedMap "config" ns val

/-- A scope with a canonical namespace. -/
def nsScope : Scope := ⟨["ConfigMap"], [], [], "ns"⟩

/-- Two config maps of two names, in two other namespaces. -/
def movedSet : ObjectSet := keyedBy keyOf [configMap "default" "a", namedMap "other" "kube-system" "b"] ∅

theorem movedSet_apart : Apart nsScope movedSet := by
  rintro k₁ ⟨u₁, h₁, -⟩ k₂ ⟨u₂, h₂, -⟩ he
  rw [newKey_eq h₁, newKey_eq h₂] at he
  obtain ⟨hu₁, rfl⟩ := lookup_entered h₁
  obtain ⟨hu₂, rfl⟩ := lookup_entered h₂
  rcases List.mem_pair.mp hu₁ with rfl | rfl <;> rcases List.mem_pair.mp hu₂ with rfl | rfl
  · rfl
  · exact absurd he (by decide +kernel)
  · exact absurd he (by decide +kernel)
  · rfl

/-- Both are moved to the canonical namespace, and keep keys of their own there. -/
theorem scoped_comparison_moved :
    "/ConfigMap/default/config" ∈ nsScope.inScope movedSet ∧
      "/ConfigMap/kube-system/other" ∈ nsScope.inScope movedSet ∧
      Keyed movedSet ∧ Apart nsScope movedSet ∧ LosesNone nsScope movedSet ∧
      ∀ o, Keyed o → Apart nsScope o → NoFalseGreen nsScope movedSet o ∧ NoFalseGreen nsScope o movedSet := by
  have h := scoped_comparison_iff nsScope rfl movedSet (keyed_entered _)
  exact ⟨⟨_, rfl, by decide⟩, ⟨_, rfl, by decide⟩, keyed_entered _, movedSet_apart, h.2.mpr movedSet_apart,
    (h.1.mpr movedSet_apart).1⟩

/-- Two config maps of one name in two namespaces. -/
def spreadSet : ObjectSet := keyedBy keyOf [configMap "default" "a", configMap "kube-system" "b"] ∅

/-- A set that lacks one of two config maps, with its data, is reported equal to
the set that has both. -/
theorem missing_config_map_is_green :
    ∃ o : ObjectSet, o = spreadSet.erase "/ConfigMap/default/config" ∧ Keyed spreadSet ∧ Keyed o ∧
      (nsScope.compareScoped (nsScope.apply [configMap "default" "a", configMap "kube-system" "b"])
        (nsScope.apply [configMap "kube-system" "b"])).equal = true ∧
      ¬ Correspond nsScope spreadSet o ∧ ¬ NoFalseGreen nsScope spreadSet o := by
  have h₁ : "/ConfigMap/default/config" ∈ nsScope.inScope spreadSet := ⟨_, rfl, by decide⟩
  have h₂ : "/ConfigMap/kube-system/config" ∈ nsScope.inScope spreadSet := ⟨_, rfl, by decide⟩
  refine ⟨_, rfl, keyed_entered _, keyed_erase (keyed_entered _) _, by decide +kernel,
    not_correspond_erase h₁, ?_⟩
  exact false_green rfl h₁ h₂ (by decide) (by decide +kernel)

end DDO.Spec
