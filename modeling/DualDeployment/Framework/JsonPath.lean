import DualDeployment.Framework.Json

/-!
# Paths into JSON trees

A path goes through maps by key and through lists by position. `Json.look`
tells what stands at a path without what is below it, so that a change at one
place is no change at the places above it. A map at a path of keys is modified
in place by `modifyNested`, of which `removeNested` and the overwriting
`setNested` are instances; modifications at one place compose
(`modifyNested_modifyNested`). `EditedAt` says that a tree is another one with
the values at some places edited, and everything else as it was.
-/

namespace DDO

/-- A step of a path: to the value of a key, or to an element of a list. -/
inductive JsonStep where
  | key (k : String)
  | idx (i : Nat)
  deriving DecidableEq

abbrev JsonPath := List JsonStep

/-- The path of these keys. -/
def keys (fs : List String) : JsonPath := fs.map .key

/-- What stands at a place of a tree, without what is below it. -/
inductive JsonNode where
  | null
  | bool (b : Bool)
  | int (n : Int)
  | float (text : String)
  | str (s : String)
  | arr (length : Nat)
  | obj
  deriving DecidableEq

namespace Json

def node : Json → JsonNode
  | .null => .null
  | .bool b => .bool b
  | .int n => .int n
  | .float text => .float text
  | .str s => .str s
  | .arr xs => .arr xs.length
  | .obj _ => .obj

/-- The tree at a path. -/
def at? : Json → JsonPath → Option Json
  | v, [] => some v
  | .obj m, .key k :: p => (JsonMap.get? m k).bind fun v => v.at? p
  | .arr xs, .idx i :: p => xs[i]?.bind fun v => v.at? p
  | _, _ :: _ => none

/-- What stands at a path. -/
def look (v : Json) (p : JsonPath) : Option JsonNode := (v.at? p).map node

@[simp] theorem at?_nil (v : Json) : v.at? [] = some v := by
  cases v <;> rfl

@[simp] theorem at?_key (m : JsonMap) (k : String) (p : JsonPath) :
    (obj m).at? (.key k :: p) = (m.get? k).bind fun v => v.at? p := rfl

@[simp] theorem at?_idx (xs : List Json) (i : Nat) (p : JsonPath) :
    (arr xs).at? (.idx i :: p) = xs[i]?.bind fun v => v.at? p := rfl

theorem at?_append (v : Json) (p q : JsonPath) : v.at? (p ++ q) = (v.at? p).bind fun w => w.at? q := by
  induction p generalizing v with
  | nil => simp
  | cons s p ih =>
    cases v with
    | obj m =>
      cases s with
      | key k => cases h : JsonMap.get? m k <;> simp [h, ih]
      | idx i => rfl
    | arr xs =>
      cases s with
      | key k => rfl
      | idx i => cases h : xs[i]? <;> simp [h, ih]
    | _ => cases s <;> rfl

@[simp] theorem look_nil (v : Json) : v.look [] = some v.node := by
  simp [look]

theorem look_append (v : Json) (p q : JsonPath) : v.look (p ++ q) = (v.at? p).bind fun w => w.look q := by
  rw [look, at?_append]
  cases v.at? p <;> rfl

@[simp] theorem look_key (m : JsonMap) (k : String) (p : JsonPath) :
    (obj m).look (.key k :: p) = (m.get? k).bind fun v => v.look p := by
  rw [look, at?_key]
  cases m.get? k <;> rfl

@[simp] theorem look_idx (xs : List Json) (i : Nat) (p : JsonPath) :
    (arr xs).look (.idx i :: p) = xs[i]?.bind fun v => v.look p := by
  rw [look, at?_idx]
  cases xs[i]? <;> rfl

/-- A string is seen where it stands. -/
theorem look_eq_str {v : Json} {p : JsonPath} {s : String} : v.look p = some (.str s) ↔ v.at? p = some (.str s) := by
  rw [look]
  cases v.at? p with
  | none => simp
  | some w => cases w <;> simp [node]

/-- A nested field is found where the path of its keys leads. -/
theorem nested_eq_found_iff {v w : Json} {fs : List String} :
    v.nested fs = .found w ↔ v.at? (keys fs) = some w := by
  induction fs generalizing v with
  | nil =>
    have hn : v.nested [] = .found v := by cases v <;> rfl
    rw [hn, keys, List.map_nil, at?_nil, Lookup.found.injEq, Option.some.injEq]
  | cons f fs ih =>
    cases v with
    | obj m =>
      rw [Json.nested, keys, List.map_cons, at?_key]
      cases JsonMap.get? m f with
      | none => simp
      | some v => exact ih
    | _ => exact iff_of_false (fun h => by cases h) (fun h => by cases h)

end Json

namespace JsonMap

open Json

section

variable {m : JsonMap} {fs : List String}

theorem nestedString_eq_found {s : String} :
    m.nestedString fs = .found s ↔ (obj m).at? (keys fs) = some (.str s) := by
  rw [← nested_eq_found_iff, nestedString]
  cases (obj m).nested fs with
  | found v => cases v <;> simp
  | missing => simp
  | mistyped => simp

theorem nestedSlice_singleton (m : JsonMap) (f : String) :
    m.nestedSlice [f] =
      match m.get? f with
      | some (.arr xs) => .found xs
      | some _ => .mistyped
      | none => .missing := by
  rw [nestedSlice, Json.nested]
  cases m.get? f with
  | none => rfl
  | some v => cases v <;> rfl

theorem nestedMap_eq_found {m' : JsonMap} :
    m.nestedMap fs = .found m' ↔ (obj m).at? (keys fs) = some (.obj m') := by
  rw [← nested_eq_found_iff, nestedMap]
  cases (obj m).nested fs with
  | found v => cases v <;> simp
  | missing => simp
  | mistyped => simp

end

/-! ## Fields that are set and removed -/

/-- Of two writes of one field the later counts. -/
theorem insert_insert (key : String) (v w : Json) (m : JsonMap) :
    insert key v (insert key w m) = insert key v m := by
  induction m with
  | nil => simp [insert]
  | cons f m ih =>
    obtain ⟨k, x⟩ := f
    simp only [insert]
    split_ifs with h₁ h₂
    · simp [insert]
    · simp [insert]
    · simp only [insert, h₁, h₂, if_false, ih]

/-- Removing a field and setting one of a greater key commute. -/
theorem erase_insert {k key : String} (h : k < key) (v : Json) (m : JsonMap) :
    erase k (insert key v m) = insert key v (erase k m) := by
  have keeps : ∀ {f : String × Json} {m : JsonMap}, f.1 ≠ k → erase k (f :: m) = f :: erase k m :=
    fun hf => List.filter_cons_of_pos (by simpa using hf)
  have drops : ∀ {f : String × Json} {m : JsonMap}, f.1 = k → erase k (f :: m) = erase k m :=
    fun hf => List.filter_cons_of_neg (by simpa using hf)
  induction m with
  | nil => exact keeps (ne_of_gt h)
  | cons f m ih =>
    obtain ⟨k', x⟩ := f
    by_cases hk : k' = k
    · -- the field that goes is none that `insert` stops at
      have hne : ¬ k' = key := by
        rw [hk]
        exact ne_of_lt h
      have hlt : ¬ key < k' := by
        rw [hk]
        exact lt_asymm h
      rw [insert, if_neg hne, if_neg hlt, drops hk, drops hk, ih]
    · rw [keeps (m := m) (f := (k', x)) hk, insert, insert]
      split_ifs with h₁ h₂
      · exact keeps (ne_of_gt h)
      · rw [keeps (ne_of_gt h), keeps hk]
      · rw [keeps hk, ih]

theorem erase_erase (k : String) (m : JsonMap) : erase k (erase k m) = erase k m := by
  simp [erase]

/-- Two removals commute. -/
theorem erase_comm (k k' : String) (m : JsonMap) : erase k (erase k' m) = erase k' (erase k m) := by
  rw [erase, erase, erase, erase, List.filter_filter, List.filter_filter]
  simp only [Bool.and_comm]

theorem look_insert_self (key : String) (v : Json) (m : JsonMap) (p : JsonPath) :
    (obj (m.insert key v)).look (.key key :: p) = v.look p := by
  rw [look_key, get?_insert_self]
  rfl

/-- Setting a field leaves the paths alone that do not lead through it. -/
theorem look_insert_off {key : String} (v : Json) (m : JsonMap) {q : JsonPath}
    (hq : ¬ [JsonStep.key key] <+: q) : (obj (m.insert key v)).look q = (obj m).look q := by
  cases q with
  | nil => rfl
  | cons s q =>
    cases s with
    | idx i => rfl
    | key k =>
      have hk : key ≠ k := by
        rintro rfl
        exact hq ⟨q, rfl⟩
      rw [look_key, look_key, get?_insert_of_ne hk]

theorem look_erase_below (k : String) (m : JsonMap) {q : JsonPath} (hq : [JsonStep.key k] <+: q) :
    (obj (m.erase k)).look q = none := by
  obtain ⟨q, rfl⟩ := hq
  rw [List.singleton_append, look_key, get?_erase_self]
  rfl

theorem look_erase_off {k : String} (m : JsonMap) {q : JsonPath} (hq : ¬ [JsonStep.key k] <+: q) :
    (obj (m.erase k)).look q = (obj m).look q := by
  cases q with
  | nil => rfl
  | cons s q =>
    cases s with
    | idx i => rfl
    | key k' =>
      have hk : k ≠ k' := by
        rintro rfl
        exact hq ⟨q, rfl⟩
      rw [look_key, look_key, get?_erase_of_ne hk]

/-! ## Maps that are modified in place -/

/-- Modifies the map at a path of keys, if there is one. -/
def modifyNested (f : JsonMap → JsonMap) : List String → JsonMap → JsonMap
  | [], m => f m
  | g :: gs, m =>
    match m.get? g with
    | some (.obj m₁) => m.insert g (.obj (modifyNested f gs m₁))
    | _ => m

/-- Modifies a map and leaves any other value. -/
def mapObj (f : JsonMap → JsonMap) : Json → Json
  | .obj m => .obj (f m)
  | v => v

section

variable {f g : JsonMap → JsonMap} {p : List String} {m m₁ : JsonMap}

/-- What is at the path is modified. -/
theorem at?_modifyNested (f : JsonMap → JsonMap) (p : List String) (m : JsonMap) :
    (obj (modifyNested f p m)).at? (keys p) = ((obj m).at? (keys p)).map (mapObj f) := by
  induction p generalizing m with
  | nil => rfl
  | cons k p ih =>
    rw [modifyNested, keys, List.map_cons, at?_key]
    split
    · rename_i m₁ hm
      rw [at?_key, get?_insert_self, hm]
      exact ih m₁
    · rename_i hne
      rw [at?_key]
      cases hm : m.get? k with
      | none => rfl
      | some v =>
        cases p with
        | nil => cases v <;> first | rfl | exact absurd hm (hne _)
        | cons k' p => cases v <;> first | rfl | exact absurd hm (hne _)

/-- Paths that do not lead there are left alone. -/
theorem look_modifyNested_off (f : JsonMap → JsonMap) (m : JsonMap) {q : JsonPath}
    (hq : ¬ keys p <+: q) : (obj (modifyNested f p m)).look q = (obj m).look q := by
  induction p generalizing m q with
  | nil => exact absurd (List.nil_prefix) hq
  | cons k p ih =>
    rw [modifyNested]
    split
    · rename_i m₁ hm
      by_cases hk : [JsonStep.key k] <+: q
      · obtain ⟨q, rfl⟩ := hk
        rw [List.singleton_append, look_insert_self, look_key, hm]
        exact ih m₁ fun hp => hq (List.cons_prefix_cons.mpr ⟨rfl, hp⟩)
      · exact look_insert_off _ _ hk
    · rfl

/-- Two modifications at one place are one. -/
theorem modifyNested_modifyNested (f g : JsonMap → JsonMap) (p : List String) (m : JsonMap) :
    modifyNested f p (modifyNested g p m) = modifyNested (f ∘ g) p m := by
  induction p generalizing m with
  | nil => rfl
  | cons k p ih =>
    simp only [modifyNested]
    cases hm : m.get? k with
    | none => simp only [hm]
    | some v =>
      cases v with
      | obj m₁ => simp only [get?_insert_self, ih, insert_insert]
      | _ => simp only [hm]

theorem modifyNested_congr (h : ∀ m₁, (obj m).at? (keys p) = some (.obj m₁) → f m₁ = g m₁) :
    modifyNested f p m = modifyNested g p m := by
  induction p generalizing m with
  | nil => exact h m (at?_nil _)
  | cons k p ih =>
    simp only [modifyNested]
    split
    · rename_i m₁ hm
      rw [ih fun m₂ h₂ => h m₂ (by rw [keys, List.map_cons, at?_key, hm]; exact h₂)]
    · rfl

/-- A typed access finds the modified map. -/
theorem nestedMap_modifyNested_found (h : m.nestedMap p = .found m₁) (f : JsonMap → JsonMap) :
    (modifyNested f p m).nestedMap p = .found (f m₁) := by
  rw [nestedMap_eq_found] at h ⊢
  rw [at?_modifyNested, h, Option.map_some, mapObj]

/-- Where nothing is found, nothing is modified. -/
theorem nested_modifyNested_missing (h : (obj m).nested p = .missing) (f : JsonMap → JsonMap) :
    (obj (modifyNested f p m)).nested p = .missing := by
  induction p generalizing m with
  | nil => cases h
  | cons k p ih =>
    rw [modifyNested]
    split
    · rename_i m₁ hm
      rw [Json.nested, hm] at h
      rw [Json.nested, get?_insert_self]
      exact ih h
    · exact h

theorem nestedMap_eq_missing {fs : List String} :
    m.nestedMap fs = .missing ↔ (obj m).nested fs = .missing := by
  rw [nestedMap]
  cases (obj m).nested fs with
  | found v => cases v <;> simp
  | missing => simp
  | mistyped => simp

theorem nestedString_modifyNested {q : List String} (hd : Diverge p q) (f : JsonMap → JsonMap)
    (m : JsonMap) : nestedString (modifyNested f p m) q = nestedString m q := by
  suffices h : (obj (modifyNested f p m)).nested q = (obj m).nested q by
    rw [nestedString, nestedString, h]
  induction p generalizing q m with
  | nil => exact hd.elim
  | cons k p ih =>
    cases q with
    | nil => exact hd.elim
    | cons k' q =>
      rw [modifyNested]
      split
      · rename_i m₁ hm
        by_cases hk : k = k'
        · subst hk
          simp only [Json.nested, get?_insert_self, hm, ih (hd.resolve_left fun h => h rfl)]
        · exact nested_insert_of_ne hk _ _ _
      · rfl

/-- To remove a field is to modify the map that it is in. -/
theorem removeNested_append (p : List String) (k : String) (m : JsonMap) :
    removeNested (p ++ [k]) m = modifyNested (erase k) p m := by
  induction p generalizing m with
  | nil => rfl
  | cons g p ih =>
    cases p with
    | nil => rfl
    | cons g' p =>
      rw [List.cons_append, List.cons_append, removeNested, modifyNested]
      cases m.get? g with
      | none => rfl
      | some v =>
        cases v with
        | obj m₁ => exact congrArg (fun m' => m.insert g (.obj m')) (ih m₁)
        | _ => rfl

/-- To write over a map is to modify it. -/
theorem setNested_eq_modifyNested (hp : p ≠ []) (h : (obj m).at? (keys p) = some (.obj m₁))
    (m' : JsonMap) : setNested (.obj m') p m = some (modifyNested (fun _ => m') p m) := by
  induction p generalizing m with
  | nil => exact absurd rfl hp
  | cons k p ih =>
    rw [keys, List.map_cons, at?_key] at h
    obtain ⟨v, hk, hv⟩ := Option.bind_eq_some_iff.mp h
    cases p with
    | nil =>
      obtain rfl : v = .obj m₁ := Option.some.inj ((at?_nil v).symm.trans hv)
      simp only [setNested, modifyNested, hk]
    | cons k' p =>
      cases v with
      | obj m₂ =>
        have h₂ := ih (List.cons_ne_nil _ _) hv
        rw [setNested, modifyNested]
        simp only [hk, h₂, Option.map_some]
      | _ => cases hv

end

end JsonMap

/-! ## Edits at places -/

/-- `b` is `a` with the values at these places edited, and nothing else. -/
structure EditedAt (P : JsonPath → Prop) (f : Json → Json) (a b : Json) : Prop where
  place : ∀ loc, P loc → b.at? loc = (a.at? loc).map f
  off : ∀ q, (∀ loc, P loc → ¬ loc <+: q) → b.look q = a.look q

namespace EditedAt

open Json JsonMap

variable {P Q : JsonPath → Prop} {f : Json → Json} {a b : Json}

/-- Below a place stands what is below the edited value. -/
theorem below (h : EditedAt P f a b) {loc : JsonPath} (hl : P loc) (r : JsonPath) :
    b.look (loc ++ r) = (a.at? loc).bind fun v => (f v).look r := by
  rw [look_append, h.place loc hl]
  cases a.at? loc <;> rfl

/-- Nothing changes where the edit leaves the values at the places alone. -/
theorem same (h : ∀ loc, P loc → ∀ v, a.at? loc = some v → f v = v) : EditedAt P f a a where
  place loc hl := by
    cases hv : a.at? loc with
    | none => rfl
    | some v => rw [Option.map_some, h loc hl v hv]
  off _ _ := rfl

theorem of_iff (h : EditedAt Q f a b) (hPQ : ∀ loc, P loc ↔ Q loc) : EditedAt P f a b where
  place loc hl := h.place loc ((hPQ loc).mp hl)
  off q hq := h.off q fun loc hl => hq loc ((hPQ loc).mpr hl)

/-- The edit leaves alone what stands at the places of a tree that did not change. -/
theorem fixed (h : EditedAt P f a a) {loc : JsonPath} (hl : P loc) {v : Json} (hv : a.at? loc = some v) :
    f v = v := by
  have hp := h.place loc hl
  rw [hv, Option.map_some] at hp
  exact (Option.some.inj hp).symm

/-- A map that is modified in place. -/
theorem modifyNested (f : JsonMap → JsonMap) (p : List String) (m : JsonMap) :
    EditedAt (· = keys p) (mapObj f) (obj m) (obj (m.modifyNested f p)) where
  place := by
    rintro loc rfl
    exact at?_modifyNested f p m
  off q hq := look_modifyNested_off f m (hq _ rfl)

/-- A list under a key, with each element edited. -/
theorem elements {k : String} {m : JsonMap} {xs : List Json} (hk : m.get? k = some (.arr xs))
    {g : Json → Json} (hg : ∀ x, EditedAt Q f x (g x)) :
    EditedAt (fun loc => ∃ i loc', loc = .key k :: .idx i :: loc' ∧ Q loc') f (obj m)
      (obj (m.insert k (.arr (xs.map g)))) where
  place := by
    rintro loc ⟨i, loc', rfl, hloc⟩
    rw [at?_key, get?_insert_self, at?_key, hk]
    simp only [Option.bind_some, at?_idx, List.getElem?_map]
    cases xs[i]? with
    | none => rfl
    | some x => exact (hg x).place loc' hloc
  off q hq := by
    by_cases hp : [JsonStep.key k] <+: q
    · obtain ⟨q, rfl⟩ := hp
      rw [List.singleton_append, look_insert_self, look_key, hk]
      cases q with
      | nil => simp [node]
      | cons s q =>
        cases s with
        | key k' => rfl
        | idx i =>
          simp only [Option.bind_some, look_idx, List.getElem?_map]
          cases xs[i]? with
          | none => rfl
          | some x =>
            refine (hg x).off q fun loc hloc hpre => hq _ ⟨i, loc, rfl, hloc⟩ ?_
            exact List.cons_prefix_cons.mpr ⟨rfl, List.cons_prefix_cons.mpr ⟨rfl, hpre⟩⟩
    · exact look_insert_off _ m hp

end EditedAt

end DDO
