import DualDeployment.Framework.JsonPath

/-!
# Deep equality of JSON trees

`deepEqual` compares two trees as `reflect.DeepEqual` does: lists element by
element and maps key by key, in whatever order their fields are kept. It holds
if and only if every path shows the same in both (`deepEqual_iff`), so it is an
equivalence.
-/

namespace DDO

theorem JsonMap.get?_isSome {m : JsonMap} {k : String} :
    (m.get? k).isSome = true ↔ ∃ f ∈ m, f.1 = k := by
  induction m with
  | nil => simp
  | cons f m ih =>
    rw [JsonMap.get?, List.exists_mem_cons_iff]
    split_ifs with h
    · simp [h]
    · rw [ih, or_iff_right h]

theorem JsonMap.mem_of_get? {m : JsonMap} {k : String} {v : Json} (h : m.get? k = some v) : (k, v) ∈ m := by
  induction m with
  | nil => cases h
  | cons f m ih =>
    rw [JsonMap.get?] at h
    split_ifs at h with hk
    · cases h
      rw [← hk]
      exact List.mem_cons_self
    · exact List.mem_cons_of_mem f (ih h)

namespace Json

/-! ## Induction on a tree -/

/-- What holds of a list if it holds of its elements, and of a map if it holds of
the values of its fields, holds of every tree. -/
@[elab_as_elim] theorem tree_induction {P : Json → Prop} (null : P null) (bool : ∀ b, P (bool b))
    (int : ∀ n, P (int n)) (float : ∀ text, P (float text)) (str : ∀ s, P (str s))
    (arr : ∀ xs, (∀ x ∈ xs, P x) → P (arr xs))
    (obj : ∀ m : JsonMap, (∀ f ∈ m, P f.2) → P (obj m)) (v : Json) : P v := by
  refine @Json.rec P (fun xs => ∀ x ∈ xs, P x) (fun m => ∀ f ∈ m, P f.2) (fun f => P f.2)
    null bool int float str arr obj ?noElement ?element ?noField ?field (fun _ _ h => h) v
  case noElement => exact fun x hx => absurd hx List.not_mem_nil
  case element => exact fun x xs hx hxs => List.forall_mem_cons.mpr ⟨hx, hxs⟩
  case noField => exact fun f hf => absurd hf List.not_mem_nil
  case field => exact fun f m hf hm => List.forall_mem_cons.mpr ⟨hf, hm⟩

mutual

def deepEqual : Json → Json → Bool
  | .null, .null => true
  | .bool a, .bool b => a == b
  | .int a, .int b => a == b
  | .float a, .float b => a == b
  | .str a, .str b => a == b
  | .arr xs, .arr ys => elementsEqual xs ys
  | .obj m, .obj m' => fieldsEqual m [] m' && m'.all fun f => (JsonMap.get? m f.1).isSome
  | _, _ => false
termination_by structural v => v

def elementsEqual : List Json → List Json → Bool
  | [], [] => true
  | x :: xs, y :: ys => deepEqual x y && elementsEqual xs ys
  | _, _ => false
termination_by structural xs => xs

/-- The fields of the first map whose keys have not been seen: a field hides the
later ones of its key. -/
def fieldsEqual : List (String × Json) → List String → JsonMap → Bool
  | [], _, _ => true
  | f :: m, seen, m' => (seen.contains f.1 || fieldEqual f m') && fieldsEqual m (f.1 :: seen) m'
termination_by structural m => m

def fieldEqual : String × Json → JsonMap → Bool
  | (k, v), m' =>
    match JsonMap.get? m' k with
    | none => false
    | some w => deepEqual v w
termination_by structural f => f

end

/-! ## What the paths show -/

theorem node_of_look {v w : Json} (h : v.look = w.look) : v.node = w.node := by
  have hn := congrFun h []
  rwa [look_nil, look_nil, Option.some_inj] at hn

/-- What two optional trees show is the same. -/
theorem map_look_iff {v w : Option Json} :
    v.map look = w.map look ↔ ∀ p, (v.bind fun x => x.look p) = w.bind fun x => x.look p := by
  cases v with
  | none =>
    cases w with
    | none => simp
    | some y => exact iff_of_false (fun h => by cases h) fun h => by simpa [look_nil] using h []
  | some x =>
    cases w with
    | none => exact iff_of_false (fun h => by cases h) fun h => by simpa [look_nil] using h []
    | some y => simp [funext_iff]

theorem look_obj_iff {m m' : JsonMap} :
    (obj m).look = (obj m').look ↔ ∀ k, (m.get? k).map look = (m'.get? k).map look := by
  constructor
  · intro h k
    refine map_look_iff.mpr fun p => ?_
    rw [← look_key, ← look_key, h]
  · intro h
    funext p
    cases p with
    | nil => rfl
    | cons s p =>
      cases s with
      | key k =>
        rw [look_key, look_key]
        exact map_look_iff.mp (h k) p
      | idx i => rfl

theorem look_arr_iff {xs ys : List Json} :
    (arr xs).look = (arr ys).look ↔ xs.map look = ys.map look := by
  constructor
  · intro h
    refine List.ext_getElem? fun i => ?_
    rw [List.getElem?_map, List.getElem?_map]
    refine map_look_iff.mpr fun p => ?_
    rw [← look_idx, ← look_idx, h]
  · intro h
    have hl : xs.length = ys.length := by simpa using congrArg List.length h
    funext p
    cases p with
    | nil => rw [look_nil, look_nil, node, node, hl]
    | cons s p =>
      cases s with
      | key k => rfl
      | idx i =>
        rw [look_idx, look_idx]
        refine map_look_iff.mp ?_ p
        rw [← List.getElem?_map, ← List.getElem?_map, h]

/-- Maps with one field in common show the same if the fields besides it do. -/
theorem look_obj_insert {m m' : JsonMap} {k : String} {v w : Json} (hk : v.look = w.look)
    (hoff : ∀ k', k ≠ k' → (m.get? k').map look = (m'.get? k').map look) :
    (obj (m.insert k v)).look = (obj (m'.insert k w)).look := by
  refine look_obj_iff.mpr fun k' => ?_
  by_cases hne : k = k'
  · subst hne
    rw [JsonMap.get?_insert_self, JsonMap.get?_insert_self, Option.map_some, Option.map_some, hk]
  · rw [JsonMap.get?_insert_of_ne hne, JsonMap.get?_insert_of_ne hne, hoff k' hne]

/-- A field that is inserted again changes nothing. -/
theorem look_obj_insert_get? {m : JsonMap} {k : String} {v : Json} (hk : m.get? k = some v) :
    (obj (m.insert k v)).look = (obj m).look := by
  refine look_obj_iff.mpr fun k' => ?_
  by_cases hne : k = k'
  · subst hne
    rw [JsonMap.get?_insert_self, hk]
  · rw [JsonMap.get?_insert_of_ne hne]

/-! ## Equality is what the paths show -/

/-- Maps show the same if the first one's fields are the second one's too, and
the second has no other key. -/
theorem fields_iff {m m' : JsonMap} :
    ((∀ k v, m.get? k = some v → (m'.get? k).map look = some v.look) ∧
        ∀ f ∈ m', (m.get? f.1).isSome = true) ↔
      ∀ k, (m.get? k).map look = (m'.get? k).map look := by
  constructor
  · rintro ⟨hm, hm'⟩ k
    cases hk : m.get? k with
    | some v => rw [hm k v hk, Option.map_some]
    | none =>
      cases hk' : m'.get? k with
      | none => rfl
      | some w =>
        obtain ⟨f, hf, rfl⟩ := JsonMap.get?_isSome.mp (Option.isSome_of_eq_some hk')
        have hs := hm' f hf
        rw [hk] at hs
        cases hs
  · intro h
    refine ⟨fun k v hk => ?_, fun f hf => ?_⟩
    · rw [← h k, hk, Option.map_some]
    · have hs : (m'.get? f.1).isSome = true := JsonMap.get?_isSome.mpr ⟨f, hf, rfl⟩
      rw [← Option.isSome_map (f := look), ← h f.1, Option.isSome_map] at hs
      exact hs

/-- A tree of another kind at the root shows something else. -/
theorem unlike {v w : Json} (hd : v.deepEqual w = false) (hn : v.node ≠ w.node) :
    v.deepEqual w = true ↔ v.look = w.look :=
  iff_of_false (by rw [hd]; exact Bool.false_ne_true) fun h => hn (node_of_look h)

/-- A tree with nothing below its root is what stands there. -/
theorem leaf_iff {v w : Json} (hd : v.deepEqual w = true ↔ v = w) (hn : v.node = w.node → v = w) :
    v.deepEqual w = true ↔ v.look = w.look :=
  hd.trans ⟨fun h => by rw [h], fun h => hn (node_of_look h)⟩

mutual

theorem deepEqual_iff (v w : Json) : v.deepEqual w = true ↔ v.look = w.look := by
  cases v with
  | arr xs =>
    cases w with
    | arr ys => rw [deepEqual, elementsEqual_iff xs ys, look_arr_iff]
    | _ => exact unlike rfl (fun h => by cases h)
  | obj m =>
    cases w with
    | obj m' =>
      rw [deepEqual, Bool.and_eq_true, fieldsEqual_iff m [] m', List.all_eq_true, look_obj_iff, ← fields_iff]
      simp
    | _ => exact unlike rfl (fun h => by cases h)
  | _ =>
    cases w with
    | arr ys => exact unlike rfl (fun h => by cases h)
    | obj m' => exact unlike rfl (fun h => by cases h)
    | _ => exact leaf_iff (by simp [deepEqual]) (by simp [node])

theorem elementsEqual_iff : ∀ xs ys : List Json, elementsEqual xs ys = true ↔ xs.map look = ys.map look
  | [], [] => by simp [elementsEqual]
  | [], _ :: _ => by simp [elementsEqual]
  | _ :: _, [] => by simp [elementsEqual]
  | x :: xs, y :: ys => by
    rw [elementsEqual, Bool.and_eq_true, deepEqual_iff x y, elementsEqual_iff xs ys, List.map_cons,
      List.map_cons, List.cons.injEq]

theorem fieldsEqual_iff : ∀ (m : List (String × Json)) (seen : List String) (m' : JsonMap),
    fieldsEqual m seen m' = true ↔
      ∀ k v, k ∉ seen → JsonMap.get? m k = some v → (m'.get? k).map look = some v.look
  | [], _, _ => by simp [fieldsEqual, JsonMap.get?]
  | (k₀, v₀) :: m, seen, m' => by
    rw [fieldsEqual, Bool.and_eq_true, Bool.or_eq_true, fieldEqual_iff (k₀, v₀) m',
      fieldsEqual_iff m (k₀ :: seen) m', List.contains_iff_mem]
    constructor
    · rintro ⟨h₀, h⟩ k v hs hk
      rw [JsonMap.get?] at hk
      split_ifs at hk with he
      · subst he
        cases hk
        exact h₀.resolve_left hs
      · refine h k v (fun hm => ?_) hk
        rcases List.mem_cons.mp hm with rfl | hm
        · exact he rfl
        · exact hs hm
    · intro h
      constructor
      · by_cases hs : k₀ ∈ seen
        · exact .inl hs
        · exact .inr (h k₀ v₀ hs (by rw [JsonMap.get?, if_pos rfl]))
      · intro k v hs hk
        rw [List.mem_cons, not_or] at hs
        exact h k v hs.2 (by rw [JsonMap.get?, if_neg (Ne.symm hs.1), hk])

theorem fieldEqual_iff : ∀ (f : String × Json) (m' : JsonMap),
    fieldEqual f m' = true ↔ (m'.get? f.1).map look = some f.2.look
  | (k, v), m' => by
    rw [fieldEqual]
    cases hw : m'.get? k with
    | none => simp
    | some w => simp [deepEqual_iff v w, eq_comm]

end

theorem deepEqual_refl (v : Json) : v.deepEqual v = true := (deepEqual_iff v v).mpr rfl

end Json

end DDO
