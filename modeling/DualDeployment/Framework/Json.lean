import Mathlib.Data.String.Basic

/-!
# JSON trees and their nested fields

Decoded JSON. A map is a list of fields kept in the order of its keys:
`insert` puts a new field where it belongs and `erase` keeps the order, so a
map built from the empty one has one representation. `nested`, `setNested`
and `removeNested` read, write and remove the field at a path of keys;
writing or removing one field leaves those on diverging paths alone
(`nested_setNested`, `nested_removeNested`).
-/

namespace DDO

/-- A JSON value. Integers are apart from other numbers, which are kept by
their text. -/
inductive Json where
  | null
  | bool (b : Bool)
  | int (n : Int)
  | float (text : String)
  | str (s : String)
  | arr (xs : List Json)
  | obj (fields : List (String × Json))

/-- The fields of a JSON map. -/
abbrev JsonMap := List (String × Json)

namespace JsonMap

/-- The value of a field. -/
def get? : JsonMap → String → Option Json
  | [], _ => none
  | (k, v) :: m, key => if k = key then some v else get? m key

/-- Sets a field, in the order of the keys. -/
def insert (key : String) (val : Json) : JsonMap → JsonMap
  | [] => [(key, val)]
  | (k, v) :: m =>
    if k = key then (key, val) :: m
    else if key < k then (key, val) :: (k, v) :: m
    else (k, v) :: insert key val m

/-- Removes a field. -/
def erase (key : String) (m : JsonMap) : JsonMap := m.filter fun f => f.1 ≠ key

@[simp] theorem get?_nil (key : String) : get? [] key = none := rfl

theorem get?_insert_self (key : String) (val : Json) (m : JsonMap) :
    get? (insert key val m) key = some val := by
  induction m with
  | nil => simp [insert, get?]
  | cons f m ih =>
    simp only [insert]
    split_ifs with h h'
    · simp [get?]
    · simp [get?]
    · simp [get?, h, ih]

theorem get?_insert_of_ne {key key' : String} (h : key ≠ key') (val : Json) (m : JsonMap) :
    get? (insert key val m) key' = get? m key' := by
  induction m with
  | nil => simp [insert, get?, h]
  | cons f m ih =>
    obtain ⟨k, v⟩ := f
    simp only [insert]
    split_ifs with h₁ h₂
    · subst h₁; simp [get?, h]
    · simp [get?, h]
    · simp only [get?, ih]

theorem get?_erase_of_ne {key key' : String} (h : key ≠ key') (m : JsonMap) :
    get? (erase key m) key' = get? m key' := by
  induction m with
  | nil => rfl
  | cons f m ih =>
    obtain ⟨k, v⟩ := f
    by_cases hk : k = key
    · subst hk
      rw [erase, List.filter_cons_of_neg (by simp), ← erase, ih, get?, if_neg h]
    · rw [erase, List.filter_cons_of_pos (by simpa using hk), ← erase, get?, get?, ih]

theorem get?_erase_self (key : String) (m : JsonMap) : get? (erase key m) key = none := by
  induction m with
  | nil => rfl
  | cons f m ih =>
    obtain ⟨k, v⟩ := f
    by_cases hk : k = key
    · rw [erase, List.filter_cons_of_neg (by simpa using hk), ← erase, ih]
    · rw [erase, List.filter_cons_of_pos (by simpa using hk), ← erase, get?, if_neg hk, ih]

end JsonMap

/-- What a typed read of a nested field finds. -/
inductive Lookup (α : Type) where
  | found (a : α)
  | missing
  | mistyped
  deriving DecidableEq

/-- The field at the path `fs`: missing if some field on the way is absent or
null, mistyped if one is not a map. -/
def Json.nested : Json → List String → Lookup Json
  | v, [] => .found v
  | .null, _ :: _ => .missing
  | .obj m, f :: fs =>
    match JsonMap.get? m f with
    | none => .missing
    | some v => v.nested fs
  | _, _ :: _ => .mistyped

/-- A path is followed to where its first part leads, and on from there. -/
theorem Json.nested_append {v w : Json} {p : List String} (h : v.nested p = .found w)
    (q : List String) : v.nested (p ++ q) = w.nested q := by
  induction p generalizing v with
  | nil =>
    cases h
    rfl
  | cons f fs ih =>
    cases v with
    | obj m =>
      simp only [Json.nested, List.cons_append] at h ⊢
      cases hm : JsonMap.get? m f with
      | none =>
        rw [hm] at h
        cases h
      | some v' =>
        rw [hm] at h
        exact ih h
    | _ => cases h

namespace JsonMap

/-- The string at the path `fs`. -/
def nestedString (m : JsonMap) (fs : List String) : Lookup String :=
  match (Json.obj m).nested fs with
  | .found (.str s) => .found s
  | .found _ => .mistyped
  | .missing => .missing
  | .mistyped => .mistyped

/-- The integer at the path `fs`. -/
def nestedInt64 (m : JsonMap) (fs : List String) : Lookup Int :=
  match (Json.obj m).nested fs with
  | .found (.int n) => .found n
  | .found _ => .mistyped
  | .missing => .missing
  | .mistyped => .mistyped

/-- The list at the path `fs`. -/
def nestedSlice (m : JsonMap) (fs : List String) : Lookup (List Json) :=
  match (Json.obj m).nested fs with
  | .found (.arr xs) => .found xs
  | .found _ => .mistyped
  | .missing => .missing
  | .mistyped => .mistyped

/-- The map at the path `fs`. -/
def nestedMap (m : JsonMap) (fs : List String) : Lookup JsonMap :=
  match (Json.obj m).nested fs with
  | .found (.obj m') => .found m'
  | .found _ => .mistyped
  | .missing => .missing
  | .mistyped => .mistyped

/-- Sets the field at a path, creating the maps on the way that are absent;
`none` if a field on the way is there and not a map. -/
def setNested (val : Json) : List String → JsonMap → Option JsonMap
  | [], _ => none
  | [f], m => some (m.insert f val)
  | f :: g :: fs, m =>
    match m.get? f with
    | none => (setNested val (g :: fs) []).map fun m' => m.insert f (.obj m')
    | some (.obj m₁) => (setNested val (g :: fs) m₁).map fun m' => m.insert f (.obj m')
    | some _ => none

/-- Removes the field at a path, if every field on the way is a map. -/
def removeNested : List String → JsonMap → JsonMap
  | [], m => m
  | [f], m => m.erase f
  | f :: g :: fs, m =>
    match m.get? f with
    | some (.obj m₁) => m.insert f (.obj (removeNested (g :: fs) m₁))
    | _ => m

/-- The two paths part ways before either ends. -/
def Diverge : List String → List String → Prop
  | f :: fs, g :: gs => f ≠ g ∨ Diverge fs gs
  | _, _ => False

instance : (p q : List String) → Decidable (Diverge p q)
  | f :: fs, g :: gs =>
    have := instDecidableDiverge fs gs
    inferInstanceAs (Decidable (f ≠ g ∨ Diverge fs gs))
  | [], _ => inferInstanceAs (Decidable False)
  | _ :: _, [] => inferInstanceAs (Decidable False)

theorem nested_insert_of_ne {f g : String} (h : f ≠ g) (val : Json) (m : JsonMap)
    (gs : List String) : (Json.obj (m.insert f val)).nested (g :: gs) = (Json.obj m).nested (g :: gs) := by
  simp only [Json.nested, get?_insert_of_ne h]

theorem nested_setNested {val : Json} {p q : List String} {m m' : JsonMap}
    (hs : setNested val p m = some m') (hd : Diverge p q) :
    (Json.obj m').nested q = (Json.obj m).nested q := by
  induction p generalizing q m m' with
  | nil => cases hs
  | cons f fs ih =>
    cases q with
    | nil => exact hd.elim
    | cons g gs =>
      by_cases h : f = g
      · subst h
        have hd' : Diverge fs gs := hd.resolve_left fun h => h rfl
        cases fs with
        | nil => cases gs <;> exact hd'.elim
        | cons f' fs =>
          simp only [setNested] at hs
          cases hm : m.get? f with
          | none =>
            rw [hm] at hs
            obtain ⟨m₁, h₁, rfl⟩ := Option.map_eq_some_iff.mp hs
            have := ih h₁ hd'
            cases gs with
            | nil => exact hd'.elim
            | cons g gs =>
              simp only [Json.nested, get?_nil] at this
              simp only [Json.nested, get?_insert_self, hm, this]
          | some v =>
            rw [hm] at hs
            cases v with
            | obj m₂ =>
              obtain ⟨m₁, h₁, rfl⟩ := Option.map_eq_some_iff.mp hs
              simp only [Json.nested, get?_insert_self, hm, ih h₁ hd']
            | _ => cases hs
      · cases fs with
        | nil =>
          simp only [setNested, Option.some.injEq] at hs
          rw [← hs, nested_insert_of_ne h]
        | cons f' fs =>
          simp only [setNested] at hs
          split at hs
          · obtain ⟨m₁, -, rfl⟩ := Option.map_eq_some_iff.mp hs
            exact nested_insert_of_ne h _ _ _
          · obtain ⟨m₁, -, rfl⟩ := Option.map_eq_some_iff.mp hs
            exact nested_insert_of_ne h _ _ _
          · cases hs

/-- What was set is read back. -/
theorem nested_setNested_self {val : Json} {p : List String} {m m' : JsonMap}
    (hs : setNested val p m = some m') : (Json.obj m').nested p = .found val := by
  induction p generalizing m m' with
  | nil => cases hs
  | cons f fs ih =>
    cases fs with
    | nil =>
      simp only [setNested, Option.some.injEq] at hs
      simp [← hs, Json.nested, get?_insert_self]
    | cons g gs =>
      simp only [setNested] at hs
      split at hs
      · obtain ⟨m₁, h₁, rfl⟩ := Option.map_eq_some_iff.mp hs
        rw [Json.nested, get?_insert_self]
        exact ih h₁
      · obtain ⟨m₁, h₁, rfl⟩ := Option.map_eq_some_iff.mp hs
        rw [Json.nested, get?_insert_self]
        exact ih h₁
      · cases hs

/-- A field can be set beside one that is there. -/
theorem setNested_sibling {f g : String} {v : Json} {m : JsonMap}
    (h : (Json.obj m).nested [f, g] = .found v) (g' : String) (val : Json) :
    ∃ m', setNested val [f, g'] m = some m' := by
  simp only [Json.nested] at h
  cases hm : m.get? f with
  | none =>
    rw [hm] at h
    cases h
  | some v' =>
    rw [hm] at h
    cases v' with
    | obj m₁ => exact ⟨_, by simp only [setNested, hm, Option.map_some]; rfl⟩
    | _ => cases h

/-- A field of a field can be set if that is absent or a map. -/
theorem setNested_pair {f g : String} {val : Json} {m : JsonMap} :
    (setNested val [f, g] m).isSome ↔ m.get? f = none ∨ ∃ m₁, m.get? f = some (.obj m₁) := by
  simp only [setNested]
  cases m.get? f with
  | none => simp
  | some v => cases v <;> simp

theorem nested_removeNested_pair {f g : String} {m m₁ : JsonMap} (h : m.get? f = some (.obj m₁)) :
    (Json.obj (removeNested [f, g] m)).nested [f, g] = .missing := by
  simp only [removeNested, h, Json.nested, get?_insert_self, get?_erase_self]

theorem nested_removeNested {p q : List String} (hd : Diverge p q) (m : JsonMap) :
    (Json.obj (removeNested p m)).nested q = (Json.obj m).nested q := by
  induction p generalizing q m with
  | nil => rfl
  | cons f fs ih =>
    cases q with
    | nil => exact hd.elim
    | cons g gs =>
      by_cases h : f = g
      · subst h
        have hd' : Diverge fs gs := hd.resolve_left fun h => h rfl
        cases fs with
        | nil => cases gs <;> exact hd'.elim
        | cons f' fs =>
          simp only [removeNested]
          split
          · rename_i m₁ hm
            simp only [Json.nested, get?_insert_self, hm, ih hd']
          · rfl
      · cases fs with
        | nil => simp only [removeNested, Json.nested, get?_erase_of_ne h]
        | cons f' fs =>
          simp only [removeNested]
          split
          · exact nested_insert_of_ne h _ _ _
          · rfl

theorem nestedString_setNested {val : Json} {p q : List String} {m m' : JsonMap}
    (hs : setNested val p m = some m') (hd : Diverge p q) :
    nestedString m' q = nestedString m q := by
  rw [nestedString, nestedString, nested_setNested hs hd]

theorem nestedString_removeNested {p q : List String} (hd : Diverge p q) (m : JsonMap) :
    nestedString (removeNested p m) q = nestedString m q := by
  rw [nestedString, nestedString, nested_removeNested hd]

end JsonMap

end DDO
