import Mathlib.Data.List.Forall2
import DualDeployment.Proof.Normalize

/-!
# What a comparison reports

`Compare` decides whether two objects differ with `reflect.DeepEqual` and finds where
with `diffPaths`, which has nothing to report of two trees if and only if they are
deeply equal (`diffPaths_eq_nil_iff`). So every entry of `Mismatched` names a path
(`mismatch_eq_some`), and a comparison reports nothing if and only if the two sets
have the same keys and under each objects of one canonical form
(`compare_equal_iff`).
-/

namespace DDO.Impl

open Json

/-! ## Where two trees differ -/

theorem inKeyOrder_eq_nil_iff {diffs : List (String × List String)} :
    inKeyOrder diffs = [] ↔ ∀ d ∈ diffs, d.2 = [] := by
  rw [inKeyOrder, List.flatMap_eq_nil_iff]
  simp only [List.mem_insertionSort]

/-- The differences under the keys that are read off the first map. -/
theorem mem_diffFields {ta tb : JsonMap} {seen : List String} {path : String} {d : String × List String} :
    d ∈ diffFields ta seen tb path ↔
      d.1 ∉ seen ∧ ∃ va, ta.get? d.1 = some va ∧ d.2 = diffField (d.1, va) tb path := by
  induction ta generalizing seen with
  | nil => simp [diffFields]
  | cons f ta ih =>
    obtain ⟨k₀, v₀⟩ := f
    obtain ⟨k, ps⟩ := d
    rw [diffFields]
    by_cases hk : k₀ = k
    · subst hk
      by_cases hs : k₀ ∈ seen
      · simp [hs, ih]
      · simp [hs, ih, JsonMap.get?]
    · by_cases hs : k₀ ∈ seen
      · simp [hs, ih, JsonMap.get?, hk, Ne.symm hk]
      · simp [hs, ih, JsonMap.get?, hk, Ne.symm hk]

theorem diffField_eq_nil_iff {k : String} {va : Json} {tb : JsonMap} {path : String}
    (ih : ∀ vb path, diffPaths va vb path = [] ↔ va.look = vb.look) :
    diffField (k, va) tb path = [] ↔ (tb.get? k).map look = some va.look := by
  rw [diffField]
  cases tb.get? k with
  | none => simp
  | some vb =>
    rw [Option.map_some, Option.some_inj]
    exact (ih vb (nextPath path k)).trans eq_comm

theorem diffElements_eq_nil_iff {ta : List Json}
    (ih : ∀ va ∈ ta, ∀ vb path, diffPaths va vb path = [] ↔ va.look = vb.look) {tb : List Json}
    (hl : ta.length = tb.length) (path : String) (i : Nat) :
    diffElements ta tb path i = [] ↔ ta.map look = tb.map look := by
  induction ta generalizing tb i with
  | nil =>
    rw [List.length_nil, eq_comm, List.length_eq_zero_iff] at hl
    simp [hl, diffElements]
  | cons a ta iht =>
    cases tb with
    | nil => cases hl
    | cons b tb =>
      rw [List.forall_mem_cons] at ih
      rw [diffElements, List.append_eq_nil_iff, ih.1, iht ih.2 (Nat.succ.inj hl), List.map_cons, List.map_cons,
        List.cons.injEq]

/-- No difference is found if and only if both trees show the same. -/
theorem diffPaths_eq_nil_iff (a b : Json) (path : String) : diffPaths a b path = [] ↔ a.look = b.look := by
  induction a using tree_induction generalizing b path with
  | arr ta ih =>
    cases b with
    | arr tb =>
      rw [diffPaths, look_arr_iff]
      by_cases hl : ta.length = tb.length
      · rw [if_neg (not_not.mpr hl)]
        exact diffElements_eq_nil_iff ih hl path 0
      · rw [if_pos hl]
        exact iff_of_false (List.cons_ne_nil _ _) fun h => hl (by simpa using congrArg List.length h)
    | _ => exact iff_of_false (List.cons_ne_nil _ _) fun h => by cases node_of_look h
  | obj ta ih =>
    cases b with
    | obj tb =>
      rw [diffPaths, inKeyOrder_eq_nil_iff, look_obj_iff, ← fields_iff, List.forall_mem_append]
      refine and_congr ?_ ?_
      · have hfield : ∀ k va, JsonMap.get? ta k = some va →
            (diffField (k, va) tb path = [] ↔ (JsonMap.get? tb k).map look = some va.look) :=
          fun k va hk => diffField_eq_nil_iff (ih (k, va) (JsonMap.mem_of_get? hk))
        constructor
        · intro h k va hk
          exact (hfield k va hk).mp (h (k, _) (mem_diffFields.mpr ⟨List.not_mem_nil, va, hk, rfl⟩))
        · intro h d hd
          obtain ⟨-, va, hk, he⟩ := mem_diffFields.mp hd
          rw [he]
          exact (hfield d.1 va hk).mpr (h d.1 va hk)
      · -- a key of the second map alone is a difference
        rw [List.forall_mem_map]
        constructor
        · intro h f hf
          by_contra hn
          have hk : f.1 ∈ (tb.map (·.1)).dedup := List.mem_dedup.mpr (List.mem_map_of_mem hf)
          exact List.cons_ne_nil _ _ (h f.1 (List.mem_filter.mpr ⟨hk, by simpa using hn⟩))
        · intro h k hk
          obtain ⟨hm, hn⟩ := List.mem_filter.mp hk
          obtain ⟨f, hf, rfl⟩ := List.mem_map.mp (List.mem_dedup.mp hm)
          have hs := h f hf
          rw [Option.isNone_iff_eq_none.mp hn] at hs
          cases hs
    | _ => exact iff_of_false (List.cons_ne_nil _ _) fun h => by cases node_of_look h
  | _ =>
    rw [← deepEqual_iff]
    refine ite_eq_left_iff.trans ?_
    simp

/-! ## The display key -/

theorem deleteKeys_identity {path : List String} (u : Unstructured) (ks : List String)
    (h₁ : JsonMap.Diverge path ["apiVersion"]) (h₂ : JsonMap.Diverge path ["kind"])
    (h₃ : JsonMap.Diverge path ["metadata", "namespace"]) (h₄ : JsonMap.Diverge path ["metadata", "name"]) :
    SameIdentity u (u.deleteKeys ks path) := by
  rw [Unstructured.deleteKeys]
  cases u.object.nestedMap path with
  | found m =>
    dsimp only
    split_ifs
    · exact .removeNestedField u h₁ h₂ h₃ h₄
    · exact .setNestedField u _ h₁ h₂ h₃ h₄
  | _ => exact .refl u

theorem stripAllowlist_identity (u : Unstructured) : SameIdentity u (stripAllowlist u) :=
  (deleteKeys_identity u _ (by decide) (by decide) (by decide) (by decide)).trans
    (deleteKeys_identity _ _ (by decide) (by decide) (by decide) (by decide))

theorem getNestedString_normalize (u : Unstructured) (q : List String) :
    (normalize u).getNestedString q = u.getNestedString q := by
  have hiff : ∀ s, (normalize u).object.nestedString q = .found s ↔ u.object.nestedString q = .found s := by
    intro s
    rw [JsonMap.nestedString_eq_found, JsonMap.nestedString_eq_found, ← look_eq_str, ← look_eq_str, obj_normalize]
    exact ⟨look_of_pruneEmpties, look_pruneEmpties_solid (by simp)⟩
  rw [Unstructured.getNestedString, Unstructured.getNestedString]
  cases h : u.object.nestedString q with
  | found s => rw [(hiff s).mpr h]
  | _ =>
    cases h' : (normalize u).object.nestedString q with
    | found s =>
      rw [hiff, h] at h'
      cases h'
    | _ => rfl

theorem normalize_identity (u : Unstructured) : SameIdentity u (normalize u) :=
  ⟨getNestedString_normalize u _, getNestedString_normalize u _, getNestedString_normalize u _,
    getNestedString_normalize u _⟩

/-- Preparing an object leaves its display key. -/
theorem displayKey_prep (u : Unstructured) : displayKey (prep u) = displayKey u := by
  have h : SameIdentity u (prep u) := (stripAllowlist_identity u).trans (normalize_identity _)
  rw [displayKey, h.apiVersion, h.kind, h.ns, h.name, displayKey]

/-! ## The report -/

theorem Report.equal_iff {r : Report} :
    r.equal = true ↔ r.mismatched = [] ∧ r.missingOp = [] ∧ r.extraOp = [] := by
  rw [equal, Bool.and_eq_true, Bool.and_eq_true, beq_iff_eq, beq_iff_eq, beq_iff_eq, and_assoc,
    List.length_eq_zero_iff, List.length_eq_zero_iff, List.length_eq_zero_iff]

theorem sortStrings_eq_nil {l : List String} : sortStrings l = [] ↔ l = [] := by
  rw [← List.length_eq_zero_iff, sortStrings, List.length_insertionSort, List.length_eq_zero_iff]

theorem mem_onlyIn {a b : ObjectSet} {t : String} :
    t ∈ onlyIn a b ↔ ∃ k u, a.lookup k = some u ∧ k ∉ b ∧ t = displayKey u := by
  rw [onlyIn, List.mem_filterMap]
  constructor
  · rintro ⟨⟨k, u⟩, he, ht⟩
    split_ifs at ht with hb
    refine ⟨k, u, AList.mem_lookup_iff.mpr he, fun hk => hb (AList.lookup_isSome.mpr hk), ?_⟩
    exact (Option.some_inj.mp ht).symm
  · rintro ⟨k, u, hu, hb, rfl⟩
    exact ⟨⟨k, u⟩, AList.mem_lookup_iff.mp hu, if_neg fun hs => hb (AList.lookup_isSome.mp hs)⟩

theorem onlyIn_eq_nil {a b : ObjectSet} :
    onlyIn a b = [] ↔ ∀ k, (a.lookup k).isSome = true → (b.lookup k).isSome = true := by
  rw [List.eq_nil_iff_forall_not_mem]
  constructor
  · intro h k hk
    obtain ⟨u, hu⟩ := Option.isSome_iff_exists.mp hk
    by_contra hb
    exact h (displayKey u) (mem_onlyIn.mpr ⟨k, u, hu, fun hm => hb (AList.lookup_isSome.mpr hm), rfl⟩)
  · intro h t ht
    obtain ⟨k, u, hu, hb, -⟩ := mem_onlyIn.mp ht
    exact hb (AList.lookup_isSome.mp (h k (Option.isSome_of_eq_some hu)))

theorem mismatch_eq_none {u v : Unstructured} : mismatch u v = none ↔ samePrep u v = true := by
  rw [mismatch]
  split_ifs with h
  · simp [h]
  · simp [h]

/-- The entry of two objects that differ names a path. -/
theorem mismatch_eq_some {u v : Unstructured} {t : String} (h : mismatch u v = some t) :
    ∃ paths : List String, paths = diffPaths (.obj (prep u).object) (.obj (prep v).object) "" ∧ paths ≠ [] ∧
      t = displayKey u ++ " (fields differ: " ++ ", ".intercalate paths ++ ")" := by
  rw [mismatch] at h
  split_ifs at h with hs
  refine ⟨_, rfl, ?_, ?_⟩
  · rwa [Ne, diffPaths_eq_nil_iff, ← deepEqual_iff]
  · rw [← displayKey_prep u]
    exact (Option.some_inj.mp h).symm

theorem mismatches_eq_nil {golden op : ObjectSet} :
    golden.entries.filterMap (fun e => (op.lookup e.1).bind (mismatch e.2)) = [] ↔
      ∀ k u v, golden.lookup k = some u → op.lookup k = some v → samePrep u v = true := by
  rw [List.filterMap_eq_nil_iff]
  constructor
  · intro h k u v hu hv
    have hn := h ⟨k, u⟩ (AList.mem_lookup_iff.mp hu)
    rw [hv] at hn
    exact mismatch_eq_none.mp hn
  · intro h e he
    rw [Option.bind_eq_none_iff]
    intro v hv
    exact mismatch_eq_none.mpr (h e.1 e.2 v (AList.mem_lookup_iff.mpr he) hv)

/-- Nothing is reported of two sets if and only if they have the same keys and
under each objects of one canonical form. -/
theorem compare_equal_iff {golden op : ObjectSet} :
    (compare golden op).equal = true ↔
      ∀ k, Option.Rel (fun u v => samePrep u v = true) (golden.lookup k) (op.lookup k) := by
  rw [Report.equal_iff, compare, sortStrings_eq_nil, sortStrings_eq_nil, sortStrings_eq_nil, mismatches_eq_nil,
    onlyIn_eq_nil, onlyIn_eq_nil]
  constructor
  · rintro ⟨hm, hg, ho⟩ k
    exact optionRel_iff.mpr ⟨hm k, hg k, ho k⟩
  · intro h
    have hk := fun k => optionRel_iff.mp (h k)
    exact ⟨fun k => (hk k).1, fun k => (hk k).2.mp, fun k => (hk k).2.mpr⟩

/-- Nothing is reported of a set and the same set. -/
theorem compare_same {golden op : ObjectSet} (h : ∀ k, golden.lookup k = op.lookup k) :
    (compare golden op).equal = true := by
  refine compare_equal_iff.mpr fun k => ?_
  rw [h k]
  cases op.lookup k with
  | none => exact .none
  | some u => exact .some (Json.deepEqual_refl _)

end DDO.Impl

namespace DDO.Spec

open Json Impl

/-- The texts are one for each key with the property, in some order. -/
def OneFor (P : String → Prop) (R : String → String → Prop) (texts : List String) : Prop :=
  ∃ ks ts : List String, ks.Nodup ∧ (∀ k, k ∈ ks ↔ P k) ∧ List.Forall₂ R ks ts ∧ ts.Perm texts

/-- The text is the display key of the object with this key. -/
def Displays (set : ObjectSet) (k t : String) : Prop := ∃ u, set.lookup k = some u ∧ t = displayKey u

/-- The canonical forms of the objects with this key differ. -/
def Differ (golden op : ObjectSet) (k : String) : Prop :=
  ∃ u v, golden.lookup k = some u ∧ op.lookup k = some v ∧
    (Json.obj (prep u).object).deepEqual (.obj (prep v).object) = false

/-- The text names the objects with this key and paths at which they differ, one at
least. -/
def NamesPaths (golden op : ObjectSet) (k t : String) : Prop :=
  ∃ u v, golden.lookup k = some u ∧ op.lookup k = some v ∧
    ∃ paths : List String, paths = diffPaths (.obj (prep u).object) (.obj (prep v).object) "" ∧ paths ≠ [] ∧
      t = displayKey u ++ " (fields differ: " ++ ", ".intercalate paths ++ ")"

/-- What is collected of the entries of a set, one text at most for each. -/
theorem forall₂_filterMap {R : String → String → Prop} {f : (Σ _ : String, Unstructured) → Option String}
    (es : List (Σ _ : String, Unstructured)) (h : ∀ e ∈ es, ∀ t, f e = some t → R e.1 t) :
    List.Forall₂ R ((es.filter fun e => (f e).isSome).map (·.1)) (es.filterMap f) := by
  induction es with
  | nil => exact .nil
  | cons e es ih =>
    rw [List.forall_mem_cons] at h
    cases he : f e with
    | none =>
      rw [List.filter_cons_of_neg (by simp [he]), List.filterMap_cons_none he]
      exact ih h.2
    | some t =>
      rw [List.filter_cons_of_pos (by simp [he]), List.filterMap_cons_some he]
      exact .cons (h.1 t he) (ih h.2)

theorem oneFor_filterMap {P : String → Prop} {R : String → String → Prop} {set : ObjectSet}
    {f : (Σ _ : String, Unstructured) → Option String}
    (hP : ∀ k, P k ↔ ∃ u, set.lookup k = some u ∧ (f ⟨k, u⟩).isSome = true)
    (hR : ∀ k u t, set.lookup k = some u → f ⟨k, u⟩ = some t → R k t) :
    OneFor P R (sortStrings (set.entries.filterMap f)) := by
  refine ⟨_, _, ?_, fun k => ?_, forall₂_filterMap set.entries fun e he t ht => ?_,
    (List.perm_insertionSort _ _).symm⟩
  · exact List.Nodup.sublist (List.filter_sublist.map _) set.nodupKeys
  · rw [hP, List.mem_map]
    constructor
    · rintro ⟨⟨k, u⟩, he, rfl⟩
      obtain ⟨hm, hs⟩ := List.mem_filter.mp he
      exact ⟨u, AList.mem_lookup_iff.mpr hm, hs⟩
    · rintro ⟨u, hu, hs⟩
      exact ⟨⟨k, u⟩, List.mem_filter.mpr ⟨AList.mem_lookup_iff.mp hu, hs⟩, rfl⟩
  · exact hR e.1 e.2 t (AList.mem_lookup_iff.mpr he) ht

theorem oneFor_onlyIn (a b : ObjectSet) :
    OneFor (fun k => k ∈ a ∧ k ∉ b) (Displays a) (sortStrings (onlyIn a b)) := by
  refine oneFor_filterMap (fun k => ?_) fun k u t hu ht => ?_
  · rw [← AList.lookup_isSome, Option.isSome_iff_exists, ← AList.lookup_isSome]
    constructor
    · rintro ⟨⟨u, hu⟩, hb⟩
      exact ⟨u, hu, by rw [if_neg hb]; rfl⟩
    · rintro ⟨u, hu, hs⟩
      refine ⟨⟨u, hu⟩, fun hb => ?_⟩
      rw [if_pos hb] at hs
      cases hs
  · split_ifs at ht
    exact ⟨u, hu, (Option.some_inj.mp ht).symm⟩

theorem oneFor_mismatched (golden op : ObjectSet) :
    OneFor (Differ golden op) (NamesPaths golden op) (compare golden op).mismatched := by
  refine oneFor_filterMap (fun k => ?_) fun k u t hu ht => ?_
  · constructor
    · rintro ⟨u, v, hu, hv, hd⟩
      refine ⟨u, hu, ?_⟩
      rw [hv, Option.bind_some, Option.isSome_iff_ne_none, Ne, mismatch_eq_none, Bool.not_eq_true]
      exact hd
    · rintro ⟨u, hu, hs⟩
      obtain ⟨t, ht⟩ := Option.isSome_iff_exists.mp hs
      obtain ⟨v, hv, hm⟩ := Option.bind_eq_some_iff.mp ht
      refine ⟨u, v, hu, hv, Bool.eq_false_iff.mpr fun hd => ?_⟩
      rw [mismatch_eq_none.mpr hd] at hm
      cases hm
  · obtain ⟨v, hv, hm⟩ := Option.bind_eq_some_iff.mp ht
    exact ⟨u, v, hu, hv, mismatch_eq_some hm⟩

theorem samePrep_iff {u v : Unstructured} :
    samePrep u v = true ↔ (Json.obj (prep u).object).look = (Json.obj (prep v).object).look :=
  deepEqual_iff _ _

/-- Reporting nothing is an equivalence. -/
theorem equivalence_equal : Equivalence fun golden op : ObjectSet => (compare golden op).equal = true := by
  refine ⟨fun golden => compare_same fun _ => rfl, fun {a b} h => ?_, fun {a b c} h h' => ?_⟩
  · rw [compare_equal_iff] at h ⊢
    intro k
    obtain ⟨hform, hkeys⟩ := optionRel_iff.mp (h k)
    refine optionRel_iff.mpr ⟨fun v u hv hu => ?_, hkeys.symm⟩
    exact samePrep_iff.mpr (samePrep_iff.mp (hform u v hu hv)).symm
  · rw [compare_equal_iff] at h h' ⊢
    intro k
    obtain ⟨hform, hkeys⟩ := optionRel_iff.mp (h k)
    obtain ⟨hform', hkeys'⟩ := optionRel_iff.mp (h' k)
    refine optionRel_iff.mpr ⟨fun u w hu hw => ?_, hkeys.trans hkeys'⟩
    obtain ⟨v, hv⟩ := Option.isSome_iff_exists.mp (hkeys.mp (Option.isSome_of_eq_some hu))
    exact samePrep_iff.mpr ((samePrep_iff.mp (hform u v hu hv)).trans (samePrep_iff.mp (hform' v w hv hw)))

/-- **A comparison pinpoints every difference.** No paths are listed of two trees if
and only if they are deeply equal. For each key of both sets there is a mismatch if
and only if the canonical forms of the two objects differ, and it names a path at
least; the keys of one set alone are reported by display key, and exchanged with the
sets. Reporting nothing is an equivalence. -/
theorem comparison_pinpoints :
    (∀ (a b : Json) (path : String), diffPaths a b path = [] ↔ a.deepEqual b = true) ∧
      (∀ golden op : ObjectSet,
        OneFor (Differ golden op) (NamesPaths golden op) (compare golden op).mismatched ∧
        OneFor (fun k => k ∈ golden ∧ k ∉ op) (Displays golden) (compare golden op).missingOp ∧
        OneFor (fun k => k ∈ op ∧ k ∉ golden) (Displays op) (compare golden op).extraOp ∧
        (compare op golden).missingOp = (compare golden op).extraOp ∧
        (compare op golden).extraOp = (compare golden op).missingOp) ∧
      Equivalence fun golden op : ObjectSet => (compare golden op).equal = true := by
  refine ⟨fun a b path => ?_, fun golden op => ?_, equivalence_equal⟩
  · rw [diffPaths_eq_nil_iff, deepEqual_iff]
  · exact ⟨oneFor_mismatched golden op, oneFor_onlyIn golden op, oneFor_onlyIn op golden, rfl, rfl⟩

end DDO.Spec
