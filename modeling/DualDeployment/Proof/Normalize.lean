import Mathlib.Data.List.Dedup
import Mathlib.Logic.Relation
import DualDeployment.Impl.Equivalence

/-!
# What normalization ignores

`Normalize` drops the fields of a map whose values are null or empty maps, bottom
up: a map that is left without a field is dropped from its own map in turn, but an
element of a list stays. What stands at a path afterwards stood there before
(`at?_pruneEmpties`), and scalars and lists stay where they are
(`look_pruneEmpties_solid`). Two trees have one normal form if and only if each can
be had from the other by adding and removing such fields (`deepEqual_normalize_iff`):
adding one does not change the normal form, and the fields that `Normalize` drops
can be added back.
-/

namespace DDO.Impl

open Json

theorem obj_normalize (u : Unstructured) : Json.obj (normalize u).object = pruneEmpties (.obj u.object) := by
  rw [normalize, pruneEmpties]

theorem isEmpty_eq_true_iff {v : Json} : isEmpty v = true ↔ v = .null ∨ v = .obj [] := by
  cases v <;> simp [isEmpty]

/-! ## One level -/

theorem pruneElements_eq (xs : List Json) : pruneElements xs = xs.map pruneEmpties := by
  induction xs with
  | nil => rfl
  | cons x xs ih => rw [pruneElements, ih, List.map_cons]

/-- What is left of the value of a field. -/
def pruneValue (v : Json) : Option Json :=
  if isEmpty (pruneEmpties v) = true then none else some (pruneEmpties v)

theorem pruneValue_eq_some {v w : Json} :
    pruneValue v = some w ↔ isEmpty (pruneEmpties v) = false ∧ pruneEmpties v = w := by
  rw [pruneValue]
  split_ifs with h
  · simp [h]
  · simp [h]

theorem get?_pruneFields (m : JsonMap) (seen : List String) (k : String) :
    (pruneFields m seen).get? k = if k ∈ seen then none else (m.get? k).bind pruneValue := by
  induction m generalizing seen with
  | nil => simp [pruneFields]
  | cons f m ih =>
    obtain ⟨k₀, v₀⟩ := f
    by_cases hk : k₀ = k
    · subst hk
      rw [JsonMap.get?, if_pos rfl, Option.bind_some, pruneValue, pruneFields, pruneField]
      by_cases hs : k₀ ∈ seen
      · simp [hs, ih]
      · by_cases he : isEmpty (pruneEmpties v₀) = true
        · simp [hs, he, ih]
        · simp [hs, he, JsonMap.get?]
    · have hrest : JsonMap.get? (pruneFields m (k₀ :: seen)) k =
          if k ∈ seen then none else (JsonMap.get? m k).bind pruneValue := by
        rw [ih]
        simp [Ne.symm hk]
      rw [JsonMap.get?, if_neg hk, pruneFields]
      by_cases hd : k₀ ∈ seen ∨ isEmpty (pruneField (k₀, v₀)) = true
      · rw [if_pos hd, hrest]
      · rw [if_neg hd, JsonMap.get?, if_neg hk, hrest]

/-! ## The normal form -/

theorem pruneFields_pruneFields {m : JsonMap} {seen seen' : List String} (hs : seen' ⊆ seen)
    (hm : ∀ f ∈ m, pruneEmpties (pruneEmpties f.2) = pruneEmpties f.2) :
    pruneFields (pruneFields m seen) seen' = pruneFields m seen := by
  induction m generalizing seen seen' with
  | nil => rfl
  | cons f m ih =>
    obtain ⟨k, v⟩ := f
    rw [List.forall_mem_cons] at hm
    rw [pruneFields, pruneField]
    dsimp only
    split_ifs with h
    · exact ih (fun x hx => List.mem_cons_of_mem k (hs hx)) hm.2
    · rw [not_or] at h
      have hk : ¬(k ∈ seen' ∨ isEmpty (pruneEmpties v) = true) :=
        not_or.mpr ⟨fun hk => h.1 (hs hk), h.2⟩
      rw [pruneFields, pruneField, hm.1]
      dsimp only
      rw [if_neg hk, ih (List.cons_subset_cons k hs) hm.2]

theorem pruneEmpties_pruneEmpties (v : Json) : pruneEmpties (pruneEmpties v) = pruneEmpties v := by
  induction v using tree_induction with
  | arr xs ih =>
    rw [pruneEmpties, pruneEmpties, pruneElements_eq, pruneElements_eq, List.map_map]
    exact congrArg Json.arr (List.map_congr_left ih)
  | obj m ih =>
    rw [pruneEmpties, pruneEmpties]
    exact congrArg Json.obj (pruneFields_pruneFields (List.Subset.refl []) ih)
  | _ => rfl

/-! ## Along a path -/

theorem node_pruneEmpties (v : Json) : (pruneEmpties v).node = v.node := by
  cases v with
  | arr xs => rw [pruneEmpties, pruneElements_eq, node, node, List.length_map]
  | _ => rfl

/-- What stands at a path is what is left of what stood there. -/
theorem at?_pruneEmpties {p : JsonPath} {v w : Json} (h : (pruneEmpties v).at? p = some w) :
    ∃ v', v.at? p = some v' ∧ w = pruneEmpties v' := by
  induction p generalizing v with
  | nil =>
    rw [at?_nil, Option.some_inj] at h
    exact ⟨v, at?_nil v, h.symm⟩
  | cons s p ih =>
    cases v with
    | obj m =>
      cases s with
      | key k =>
        rw [pruneEmpties, at?_key, get?_pruneFields, if_neg List.not_mem_nil] at h
        obtain ⟨x, hx, hp⟩ := Option.bind_eq_some_iff.mp h
        obtain ⟨v₀, hv, h₀⟩ := Option.bind_eq_some_iff.mp hx
        rw [pruneValue_eq_some] at h₀
        rw [← h₀.2] at hp
        obtain ⟨v', hv', hw⟩ := ih hp
        exact ⟨v', by rw [at?_key, hv, Option.bind_some, hv'], hw⟩
      | idx i => cases h
    | arr xs =>
      cases s with
      | key k => cases h
      | idx i =>
        rw [pruneEmpties, at?_idx, pruneElements_eq, List.getElem?_map] at h
        obtain ⟨x, hx, hp⟩ := Option.bind_eq_some_iff.mp h
        obtain ⟨v₀, hv, rfl⟩ := Option.map_eq_some_iff.mp hx
        obtain ⟨v', hv', hw⟩ := ih hp
        exact ⟨v', by rw [at?_idx, hv, Option.bind_some, hv'], hw⟩
    | _ => cases s <;> cases h

/-- No map has a field that is null or an empty map. -/
theorem get?_at?_pruneEmpties {p : JsonPath} {v w : Json} {m : JsonMap} {k : String}
    (hp : (pruneEmpties v).at? p = some (.obj m)) (hk : m.get? k = some w) : isEmpty w = false := by
  obtain ⟨v', -, hm⟩ := at?_pruneEmpties hp
  cases v' with
  | obj m' =>
    rw [pruneEmpties, Json.obj.injEq] at hm
    rw [hm, get?_pruneFields, if_neg List.not_mem_nil] at hk
    obtain ⟨v₀, -, hv⟩ := Option.bind_eq_some_iff.mp hk
    rw [pruneValue_eq_some] at hv
    rw [← hv.2, hv.1]
  | _ => cases hm

theorem look_of_pruneEmpties {p : JsonPath} {v : Json} {n : JsonNode}
    (h : (pruneEmpties v).look p = some n) : v.look p = some n := by
  obtain ⟨w, hw, rfl⟩ := Option.map_eq_some_iff.mp h
  obtain ⟨v', hv', rfl⟩ := at?_pruneEmpties hw
  rw [look, hv', Option.map_some, node_pruneEmpties]

/-- Where something other than null and a map is seen, the root is not empty. -/
theorem isEmpty_of_look {p : JsonPath} {v : Json} {n : JsonNode} (hn : n ≠ .null ∧ n ≠ .obj)
    (h : v.look p = some n) : isEmpty v = false := by
  rw [Bool.eq_false_iff, Ne, isEmpty_eq_true_iff]
  rintro (rfl | rfl)
  · cases p with
    | nil => exact hn.1 (Option.some_inj.mp h).symm
    | cons s p => cases s <;> cases h
  · cases p with
    | nil => exact hn.2 (Option.some_inj.mp h).symm
    | cons s p => cases s <;> cases h

/-- Scalars and lists stay. -/
theorem look_pruneEmpties_solid {p : JsonPath} {v : Json} {n : JsonNode} (hn : n ≠ .null ∧ n ≠ .obj)
    (h : v.look p = some n) : (pruneEmpties v).look p = some n := by
  induction p generalizing v with
  | nil =>
    rw [look_nil] at h ⊢
    rw [node_pruneEmpties, h]
  | cons s p ih =>
    cases v with
    | obj m =>
      cases s with
      | key k =>
        rw [look_key] at h
        obtain ⟨v₀, hv, hp⟩ := Option.bind_eq_some_iff.mp h
        -- what is seen below the field keeps it
        have hk : pruneValue v₀ = some (pruneEmpties v₀) :=
          pruneValue_eq_some.mpr ⟨isEmpty_of_look hn (ih hp), rfl⟩
        rw [pruneEmpties, look_key, get?_pruneFields, if_neg List.not_mem_nil, hv, Option.bind_some, hk,
          Option.bind_some, ih hp]
      | idx i => cases h
    | arr xs =>
      cases s with
      | key k => cases h
      | idx i =>
        rw [look_idx] at h
        obtain ⟨v₀, hv, hp⟩ := Option.bind_eq_some_iff.mp h
        rw [pruneEmpties, look_idx, pruneElements_eq, List.getElem?_map, hv, Option.map_some, Option.bind_some,
          ih hp]
    | _ => cases s <;> cases h

/-- Every element of a list stays at its position. -/
theorem look_pruneEmpties_element (v : Json) (p : JsonPath) (i : Nat) :
    (pruneEmpties v).look (p ++ [.idx i]) = v.look (p ++ [.idx i]) := by
  refine Option.ext fun n => ⟨look_of_pruneEmpties, fun h => ?_⟩
  rw [look_append] at h
  obtain ⟨w, hw, hi⟩ := Option.bind_eq_some_iff.mp h
  cases w with
  | arr xs =>
    have hlist : v.look p = some (.arr xs.length) := by rw [look, hw, Option.map_some, node]
    have hkept := look_pruneEmpties_solid (by simp) hlist
    obtain ⟨w', hw', -⟩ := Option.map_eq_some_iff.mp hkept
    obtain ⟨v', hv', rfl⟩ := at?_pruneEmpties hw'
    rw [hw, Option.some_inj] at hv'
    subst hv'
    rw [look_idx] at hi
    obtain ⟨x, hx, hn⟩ := Option.bind_eq_some_iff.mp hi
    rw [look_append, hw', Option.bind_some, pruneEmpties, look_idx, pruneElements_eq, List.getElem?_map, hx,
      Option.map_some, Option.bind_some, look_nil, node_pruneEmpties, ← look_nil, hn]
  | _ => cases hi

/-! ## Trees that show the same -/

theorem isEmpty_congr {v w : Json} (h : v.look = w.look) : isEmpty v = isEmpty w := by
  have hn := node_of_look h
  cases v with
  | obj m =>
    cases w with
    | obj m' =>
      have hk := look_obj_iff.mp h
      cases m with
      | nil =>
        cases m' with
        | nil => rfl
        | cons f m' => simpa [JsonMap.get?] using hk f.1
      | cons f m =>
        cases m' with
        | nil => simpa [JsonMap.get?] using hk f.1
        | cons f' m' => rfl
    | _ => cases hn
  | null => cases w <;> first | rfl | cases hn
  | _ => cases w <;> first | rfl | cases hn

theorem pruneValue_congr {v w : Json} (h : (pruneEmpties v).look = (pruneEmpties w).look) :
    (pruneValue v).map look = (pruneValue w).map look := by
  rw [pruneValue, pruneValue, isEmpty_congr h]
  split_ifs
  · rfl
  · rw [Option.map_some, Option.map_some, h]

theorem look_pruneEmpties_obj {m m' : JsonMap} :
    (pruneEmpties (.obj m)).look = (pruneEmpties (.obj m')).look ↔
      ∀ k, ((m.get? k).bind pruneValue).map look = ((m'.get? k).bind pruneValue).map look := by
  rw [pruneEmpties, pruneEmpties, look_obj_iff]
  simp only [get?_pruneFields, List.not_mem_nil, if_false]

theorem look_pruneEmpties_arr {xs ys : List Json} :
    (pruneEmpties (.arr xs)).look = (pruneEmpties (.arr ys)).look ↔
      xs.map (fun x => (pruneEmpties x).look) = ys.map fun y => (pruneEmpties y).look := by
  rw [pruneEmpties, pruneEmpties, pruneElements_eq, pruneElements_eq, look_arr_iff, List.map_map, List.map_map]
  rfl

/-- Trees that show the same have normal forms that show the same. -/
theorem look_pruneEmpties_congr {v w : Json} (h : v.look = w.look) :
    (pruneEmpties v).look = (pruneEmpties w).look := by
  induction v using tree_induction generalizing w with
  | arr xs ih =>
    cases w with
    | arr ys =>
      rw [look_arr_iff] at h
      rw [look_pruneEmpties_arr]
      induction xs generalizing ys with
      | nil =>
        rw [List.map_nil, eq_comm, List.map_eq_nil_iff] at h
        rw [h]
      | cons x xs ihx =>
        cases ys with
        | nil => cases h
        | cons y ys =>
          rw [List.map_cons, List.map_cons, List.cons.injEq] at h
          rw [List.forall_mem_cons] at ih
          rw [List.map_cons, List.map_cons, ih.1 h.1, ihx ih.2 ys h.2]
    | _ => cases node_of_look h
  | obj m ih =>
    cases w with
    | obj m' =>
      rw [look_obj_iff] at h
      refine look_pruneEmpties_obj.mpr fun k => ?_
      have hk := h k
      cases hm : m.get? k with
      | none =>
        rw [hm, Option.map_none, eq_comm, Option.map_eq_none_iff] at hk
        rw [hk]
      | some v =>
        rw [hm, Option.map_some, eq_comm, Option.map_eq_some_iff] at hk
        obtain ⟨w, hw, hl⟩ := hk
        rw [hw, Option.bind_some, Option.bind_some]
        exact pruneValue_congr (ih (k, v) (JsonMap.mem_of_get? hm) hl.symm)
    | _ => cases node_of_look h
  | _ =>
    have hn := node_of_look h
    cases w <;> first | exact h | cases hn

end DDO.Impl

namespace DDO.Spec

open Json Impl

/-- The second tree is the first one with a field added to one of its maps, at any
depth, whose value is null or an empty map. -/
inductive AddsEmpty : Json → Json → Prop
  | entry {m : JsonMap} {k : String} {e : Json} (hk : m.get? k = none) (he : e = .null ∨ e = .obj []) :
      AddsEmpty (.obj m) (.obj (m.insert k e))
  | field {m : JsonMap} {k : String} {a b : Json} (h : AddsEmpty a b) :
      AddsEmpty (.obj (m.insert k a)) (.obj (m.insert k b))
  | element {xs ys : List Json} {a b : Json} (h : AddsEmpty a b) :
      AddsEmpty (.arr (xs ++ a :: ys)) (.arr (xs ++ b :: ys))

/-- The least equivalence that such additions are in. Trees that are deeply equal are
one value, whatever the order in which the fields of a map are kept. -/
def UpToEmpties : Json → Json → Prop :=
  Relation.EqvGen fun a b => a.deepEqual b = true ∨ AddsEmpty a b

variable {a b : Json}

/-! ## Additions do not change the normal form -/

theorem AddsEmpty.look_pruneEmpties (h : AddsEmpty a b) : (pruneEmpties a).look = (pruneEmpties b).look := by
  induction h with
  | @entry m k e hk he =>
    refine look_pruneEmpties_obj.mpr fun k' => ?_
    by_cases hne : k = k'
    · subst hne
      rw [hk, JsonMap.get?_insert_self]
      rcases he with rfl | rfl <;> rfl
    · rw [JsonMap.get?_insert_of_ne hne]
  | @field m k a b _ ih =>
    refine look_pruneEmpties_obj.mpr fun k' => ?_
    by_cases hne : k = k'
    · subst hne
      rw [JsonMap.get?_insert_self, JsonMap.get?_insert_self, Option.bind_some, Option.bind_some]
      exact pruneValue_congr ih
    · rw [JsonMap.get?_insert_of_ne hne, JsonMap.get?_insert_of_ne hne]
  | @element xs ys a b _ ih =>
    rw [look_pruneEmpties_arr, List.map_append, List.map_append, List.map_cons, List.map_cons, ih]

theorem UpToEmpties.look_pruneEmpties (h : UpToEmpties a b) :
    (pruneEmpties a).look = (pruneEmpties b).look := by
  induction h with
  | rel a b h =>
    rcases h with h | h
    · exact look_pruneEmpties_congr ((deepEqual_iff a b).mp h)
    · exact h.look_pruneEmpties
  | refl a => rfl
  | symm a b _ ih => exact ih.symm
  | trans a b c _ _ ih₁ ih₂ => exact ih₁.trans ih₂

/-! ## What is dropped can be added back -/

theorem UpToEmpties.of_look (h : a.look = b.look) : UpToEmpties a b :=
  .rel a b (.inl ((deepEqual_iff a b).mpr h))

theorem UpToEmpties.of_addsEmpty (h : AddsEmpty a b) : UpToEmpties a b := .rel a b (.inr h)

theorem UpToEmpties.symm (h : UpToEmpties a b) : UpToEmpties b a := Relation.EqvGen.symm a b h

theorem UpToEmpties.trans {c : Json} (h : UpToEmpties a b) (h' : UpToEmpties b c) : UpToEmpties a c :=
  Relation.EqvGen.trans a b c h h'

/-- A context that keeps equal trees equal and additions additions keeps the relation. -/
theorem UpToEmpties.lift {f : Json → Json} (hl : ∀ a b, a.look = b.look → (f a).look = (f b).look)
    (ha : ∀ a b, AddsEmpty a b → AddsEmpty (f a) (f b)) (h : UpToEmpties a b) : UpToEmpties (f a) (f b) := by
  induction h with
  | rel a b h =>
    rcases h with h | h
    · exact .of_look (hl a b ((deepEqual_iff a b).mp h))
    · exact .of_addsEmpty (ha a b h)
  | refl a => exact .refl _
  | symm a b _ ih => exact ih.symm
  | trans a b c _ _ ih₁ ih₂ => exact ih₁.trans ih₂

theorem UpToEmpties.field (m : JsonMap) (k : String) (h : UpToEmpties a b) :
    UpToEmpties (.obj (m.insert k a)) (.obj (m.insert k b)) := by
  refine h.lift (f := fun v => .obj (m.insert k v)) (fun a b hl => ?_) fun a b => .field
  exact look_obj_insert hl fun _ _ => rfl

theorem UpToEmpties.element (xs ys : List Json) (h : UpToEmpties a b) :
    UpToEmpties (.arr (xs ++ a :: ys)) (.arr (xs ++ b :: ys)) := by
  refine h.lift (f := fun v => .arr (xs ++ v :: ys)) (fun a b hl => ?_) fun a b => .element
  rw [look_arr_iff, List.map_append, List.map_append, List.map_cons, List.map_cons, hl]

/-- The elements of a list are normalized one after the other. -/
theorem upToEmpties_elements {xs : List Json} (h : ∀ x ∈ xs, UpToEmpties x (pruneEmpties x)) (pre : List Json) :
    UpToEmpties (.arr (pre ++ xs)) (.arr (pre ++ xs.map pruneEmpties)) := by
  induction xs generalizing pre with
  | nil => exact .refl _
  | cons x xs ih =>
    rw [List.forall_mem_cons] at h
    have hrest := ih h.2 (pre ++ [pruneEmpties x])
    rw [List.append_assoc, List.append_assoc] at hrest
    exact (h.1.element pre xs).trans hrest

/-- A field is normalized, and dropped if nothing is left of it. -/
theorem upToEmpties_field {m : JsonMap} {k : String} {v : Json} (hk : m.get? k = some v)
    (h : UpToEmpties v (pruneEmpties v)) :
    ∃ m' : JsonMap, UpToEmpties (.obj m) (.obj m') ∧ m'.get? k = pruneValue v ∧
      ∀ k', k ≠ k' → m'.get? k' = m.get? k' := by
  have hself : UpToEmpties (.obj m) (.obj (m.insert k (pruneEmpties v))) :=
    (UpToEmpties.of_look (look_obj_insert_get? hk).symm).trans (h.field m k)
  by_cases he : isEmpty (pruneEmpties v) = true
  · refine ⟨m.erase k, hself.trans ?_, ?_, fun k' hne => JsonMap.get?_erase_of_ne hne m⟩
    · have hadd : AddsEmpty (.obj (m.erase k)) (.obj ((m.erase k).insert k (pruneEmpties v))) :=
        .entry (JsonMap.get?_erase_self k m) (isEmpty_eq_true_iff.mp he)
      have hsame : (Json.obj (m.insert k (pruneEmpties v))).look =
          (Json.obj ((m.erase k).insert k (pruneEmpties v))).look :=
        look_obj_insert rfl fun k' hne => by rw [JsonMap.get?_erase_of_ne hne]
      exact (UpToEmpties.of_look hsame).trans (UpToEmpties.of_addsEmpty hadd).symm
    · rw [JsonMap.get?_erase_self, pruneValue, if_pos he]
  · refine ⟨m.insert k (pruneEmpties v), hself, ?_, fun k' hne => JsonMap.get?_insert_of_ne hne _ m⟩
    rw [JsonMap.get?_insert_self, pruneValue, if_neg he]

/-- The fields of a map are normalized one after the other: `m'` is the map on the
way, with the keys `ks` still to come. -/
theorem upToEmpties_fields {m : JsonMap} (h : ∀ k v, m.get? k = some v → UpToEmpties v (pruneEmpties v))
    {ks : List String} (hd : ks.Nodup) {m' : JsonMap} (hks : ∀ k ∈ ks, m'.get? k = m.get? k)
    (hdone : ∀ k, k ∉ ks → m'.get? k = (m.get? k).bind pruneValue) :
    UpToEmpties (.obj m') (pruneEmpties (.obj m)) := by
  induction ks generalizing m' with
  | nil =>
    refine .of_look ?_
    rw [pruneEmpties, look_obj_iff]
    intro k
    rw [hdone k List.not_mem_nil, get?_pruneFields, if_neg List.not_mem_nil]
  | cons k ks ih =>
    rw [List.forall_mem_cons] at hks
    rw [List.nodup_cons] at hd
    -- the map with the field of `k` done
    have hnext : ∃ m'' : JsonMap, UpToEmpties (.obj m') (.obj m'') ∧
        m''.get? k = (m.get? k).bind pruneValue ∧ ∀ k', k ≠ k' → m''.get? k' = m'.get? k' := by
      cases hk : m.get? k with
      | none => exact ⟨m', .refl _, hks.1.trans hk, fun _ _ => rfl⟩
      | some v => exact upToEmpties_field (hks.1.trans hk) (h k v hk)
    obtain ⟨m'', hm, hk, hoff⟩ := hnext
    refine hm.trans (ih hd.2 (fun k' hk' => ?_) fun k' hk' => ?_)
    · rw [hoff k' fun he => hd.1 (he ▸ hk'), hks.2 k' hk']
    · by_cases hne : k = k'
      · rw [← hne, hk]
      · rw [hoff k' hne, hdone k' fun hm => (List.mem_cons.mp hm).elim (Ne.symm hne) hk']

/-- A tree has its normal form up to empty fields. -/
theorem upToEmpties_pruneEmpties (a : Json) : UpToEmpties a (pruneEmpties a) := by
  induction a using tree_induction with
  | arr xs ih =>
    rw [pruneEmpties, pruneElements_eq]
    exact upToEmpties_elements ih []
  | obj m ih =>
    refine upToEmpties_fields (fun k v hk => ih (k, v) (JsonMap.mem_of_get? hk)) (List.nodup_dedup (m.map (·.1)))
      (fun _ _ => rfl) fun k hk => ?_
    have hnone : m.get? k = none := by
      by_contra hs
      obtain ⟨f, hf, rfl⟩ := JsonMap.get?_isSome.mp (Option.isSome_iff_ne_none.mpr hs)
      exact hk (List.mem_dedup.mpr (List.mem_map_of_mem hf))
    rw [hnone, Option.bind_none]
  | _ => exact .refl _

/-- Two objects are normalized to equal ones if and only if they are the same up to
empty fields. -/
theorem deepEqual_normalize_iff (u v : Unstructured) :
    (Json.obj (normalize u).object).deepEqual (.obj (normalize v).object) = true ↔
      UpToEmpties (.obj u.object) (.obj v.object) := by
  rw [deepEqual_iff, obj_normalize, obj_normalize]
  constructor
  · intro h
    exact (upToEmpties_pruneEmpties _).trans ((UpToEmpties.of_look h).trans (upToEmpties_pruneEmpties _).symm)
  · exact fun h => h.look_pruneEmpties

/-- **Normalization ignores exactly the empty fields.** It leaves no field that is null
or an empty map in any map; a second pass changes nothing; and two objects are
normalized to equal ones if and only if they are the same up to such fields. What it
shows was there before, and the scalars, the lists with their lengths and all elements
of lists are shown as they were. -/
theorem normalize_ignores_empties :
    (∀ (u : Unstructured) (p : JsonPath) (m : JsonMap) (k : String) (v : Json),
        (Json.obj (normalize u).object).at? p = some (.obj m) → m.get? k = some v →
          v ≠ .null ∧ v ≠ .obj []) ∧
      (∀ u, normalize (normalize u) = normalize u) ∧
      (∀ u v : Unstructured, (Json.obj (normalize u).object).deepEqual (.obj (normalize v).object) = true ↔
        UpToEmpties (.obj u.object) (.obj v.object)) ∧
      ∀ (u : Unstructured) (p : JsonPath),
        (∀ n, (Json.obj (normalize u).object).look p = some n → (Json.obj u.object).look p = some n) ∧
        (∀ n, n ≠ .null ∧ n ≠ .obj → (Json.obj u.object).look p = some n →
          (Json.obj (normalize u).object).look p = some n) ∧
        ∀ i, (Json.obj (normalize u).object).look (p ++ [.idx i]) = (Json.obj u.object).look (p ++ [.idx i]) := by
  refine ⟨fun u p m k v hp hk => ?_, fun u => ?_, deepEqual_normalize_iff, fun u p => ?_⟩
  · rw [obj_normalize] at hp
    have he := get?_at?_pruneEmpties hp hk
    rwa [Bool.eq_false_iff, Ne, isEmpty_eq_true_iff, not_or] at he
  · have hj : Json.obj (normalize (normalize u)).object = .obj (normalize u).object := by
      rw [obj_normalize, obj_normalize, pruneEmpties_pruneEmpties]
    exact congrArg Unstructured.mk (Json.obj.inj hj)
  · rw [obj_normalize]
    exact ⟨fun n => look_of_pruneEmpties, fun n => look_pruneEmpties_solid, look_pruneEmpties_element _ p⟩

end DDO.Spec
