import DualDeployment.Proof.Scope

/-!
# Known divergences

`CompareScoped` drops the keys of one set alone that name a known divergence. It reads
the kind and the name off the printed display key, the third and the first segment
from the right, which are the object's own if no slash is in its kind, namespace and
name (`keyIsKnownDivergence_displayKey`), however many segments its apiVersion has.
So exactly the objects that are declared are left out (`known_divergences_suppress`).
-/

namespace DDO.Impl

/-- No slash is in the kind, the namespace and the name. -/
def Unstructured.SlashFree (u : Unstructured) : Prop :=
  '/' ∉ u.getKind.toList ∧ '/' ∉ u.getNamespace.toList ∧ '/' ∉ u.getName.toList

instance (u : Unstructured) : Decidable (u.SlashFree) := inferInstanceAs (Decidable (_ ∧ _ ∧ _))

theorem split_of_not_mem {t : String} (h : '/' ∉ t.toList) :
    (Path.split t.toList).map (fun p => String.ofList p.1) = [t] := by
  rw [Path.split_part ⟨t.toList, h⟩, List.map_singleton, String.ofList_toList]

/-- The segments of a display key end with the kind, the namespace and the name. -/
theorem split_displayKey {u : Unstructured} (h : u.SlashFree) :
    (Path.split (displayKey u).toList).map (fun p => String.ofList p.1) =
      (Path.split u.getAPIVersion.toList).map (fun p => String.ofList p.1) ++
        [u.getKind, u.getNamespace, u.getName] := by
  have htext : (displayKey u).toList = u.getAPIVersion.toList ++ '/' :: (u.getKind.toList ++
      '/' :: (u.getNamespace.toList ++ '/' :: u.getName.toList)) := by
    simp [displayKey, String.toList_append]
  rw [htext, Path.split_slash, Path.split_slash, Path.split_slash, List.map_append, List.map_append,
    List.map_append, split_of_not_mem h.1, split_of_not_mem h.2.1, split_of_not_mem h.2.2]
  rfl

namespace Scope

/-- The object is declared as a known divergence. -/
def Declares (s : Scope) (u : Unstructured) : Prop :=
  ∃ e ∈ s.knownDivergences, e.kind = u.getKind ∧ e.name = u.getName

theorem keyIsKnownDivergence_displayKey {s : Scope} {u : Unstructured} (h : u.SlashFree) :
    s.keyIsKnownDivergence (displayKey u) = true ↔ s.Declares u := by
  rw [keyIsKnownDivergence, split_displayKey h]
  generalize hv : (Path.split u.getAPIVersion.toList).map (fun p => String.ofList p.1) = version
  have hpos : 0 < version.length := by
    rw [← hv, List.length_map]
    exact List.length_pos_iff.mpr (Path.split_ne_nil _)
  have hlen : (version ++ [u.getKind, u.getNamespace, u.getName]).length = version.length + 3 := by simp
  dsimp only
  rw [hlen, if_neg (by omega), List.any_eq_true]
  simp [Declares]

theorem dropKnownDivergent_eq_nil {s : Scope} {keys : List String} :
    s.dropKnownDivergent keys = [] ↔ ∀ k ∈ keys, s.keyIsKnownDivergence k = true := by
  rw [dropKnownDivergent, List.filter_eq_nil_iff]
  simp

theorem dropKnownDivergent_of_none {s : Scope} (hs : s.knownDivergences = []) (keys : List String) :
    s.dropKnownDivergent keys = keys := by
  rw [dropKnownDivergent, List.filter_eq_self]
  intro k _
  simp [keyIsKnownDivergence, hs]

/-- Without known divergences too, what names one is dropped of the keys of one set
alone, and nothing else. -/
theorem compareScoped_drops (s : Scope) (golden op : ObjectSet) :
    s.compareScoped golden op =
      ⟨(compare golden op).mismatched, s.dropKnownDivergent (compare golden op).missingOp,
        s.dropKnownDivergent (compare golden op).extraOp⟩ := by
  rw [compareScoped]
  split_ifs with hs
  · have hn := List.length_eq_zero_iff.mp hs
    rw [dropKnownDivergent_of_none hn, dropKnownDivergent_of_none hn]
  · rfl

/-- No key of `a` alone is left if and only if its objects are declared. -/
theorem dropKnownDivergent_onlyIn {s : Scope} {a b : ObjectSet} (ha : ∀ k u, a.lookup k = some u → u.SlashFree) :
    s.dropKnownDivergent (sortStrings (onlyIn a b)) = [] ↔
      ∀ k u, a.lookup k = some u → k ∉ b → s.Declares u := by
  rw [dropKnownDivergent_eq_nil]
  constructor
  · intro h k u hu hb
    have hmem : displayKey u ∈ sortStrings (onlyIn a b) :=
      (List.mem_insertionSort _).mpr (mem_onlyIn.mpr ⟨k, u, hu, hb, rfl⟩)
    exact (keyIsKnownDivergence_displayKey (ha k u hu)).mp (h _ hmem)
  · intro h t ht
    obtain ⟨k, u, hu, hb, rfl⟩ := mem_onlyIn.mp ((List.mem_insertionSort _).mp ht)
    exact (keyIsKnownDivergence_displayKey (ha k u hu)).mpr (h k u hu hb)

end Scope

end DDO.Impl

namespace DDO.Spec

open Impl Impl.Scope

/-- **Known divergences suppress exactly the one-sided findings.** Of sets whose kinds,
namespaces and names have no slash, nothing is reported if and only if the objects
with one key have one canonical form and each object of one set alone is declared.
The mismatches are those of the comparison without a scope. -/
theorem known_divergences_suppress (s : Scope) (golden op : ObjectSet)
    (hg : ∀ k u, golden.lookup k = some u → u.SlashFree) (ho : ∀ k v, op.lookup k = some v → v.SlashFree) :
    ((s.compareScoped golden op).equal = true ↔
      (∀ k u v, golden.lookup k = some u → op.lookup k = some v →
        (Json.obj (prep u).object).deepEqual (.obj (prep v).object) = true) ∧
      (∀ k u, golden.lookup k = some u → k ∉ op → s.Declares u) ∧
      ∀ k v, op.lookup k = some v → k ∉ golden → s.Declares v) ∧
    (s.compareScoped golden op).mismatched = (compare golden op).mismatched := by
  rw [compareScoped_drops]
  refine ⟨?_, rfl⟩
  rw [Report.equal_iff, Impl.compare, sortStrings_eq_nil, mismatches_eq_nil, dropKnownDivergent_onlyIn hg,
    dropKnownDivergent_onlyIn ho]
  rfl

/-- A scope that declares the config map. -/
def divergentScope : Scope := ⟨[], [⟨"ConfigMap", "config"⟩], [], ""⟩

/-- One config map. -/
def placedSet : ObjectSet := keyedBy keyOf [configMap "ns" "a"] ∅

/-- A declared object that one set lacks is not reported, but an object that differs
is. -/
theorem known_divergences_config_map :
    (divergentScope.compareScoped placedSet ∅).equal = true ∧
      (divergentScope.compareScoped placedSet (keyedBy keyOf [configMap "ns" "b"] ∅)).equal ≠ true := by
  have hfree : ∀ u ∈ [configMap "ns" "a", configMap "ns" "b"], u.SlashFree := List.forall_mem_cons.mpr
    ⟨by decide, List.forall_mem_singleton.mpr (by decide)⟩
  have hg : ∀ k u, placedSet.lookup k = some u → u.SlashFree :=
    fun k u hu => hfree u (List.mem_of_mem_head? (by rw [List.mem_singleton.mp (lookup_entered hu).1]; rfl))
  have hnone : ∀ k v, (∅ : ObjectSet).lookup k ≠ some v := fun k v hv => by
    rw [AList.lookup_empty] at hv
    cases hv
  constructor
  · refine (known_divergences_suppress divergentScope placedSet ∅ hg fun k v hv => ?_).1.mpr ⟨?_, ?_, ?_⟩
    · exact absurd hv (hnone k v)
    · exact fun k u v _ hv => absurd hv (hnone k v)
    · intro k u hu _
      rw [List.mem_singleton.mp (lookup_entered hu).1]
      exact ⟨_, List.mem_singleton_self _, by decide⟩
    · exact fun k v hv => absurd hv (hnone k v)
  · intro h
    have hd := ((known_divergences_suppress divergentScope placedSet _ hg fun k v hv => ?_).1.mp h).1
      "/ConfigMap/ns/config" _ _ rfl rfl
    · revert hd
      decide
    · exact hfree v (List.mem_cons_of_mem _ (lookup_entered hv).1)

end DDO.Spec
