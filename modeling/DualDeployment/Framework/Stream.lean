import Mathlib.Data.List.Basic

/-!
# Stream functions that work element by element

A partial function on lists is elementwise if it makes of a list what it makes
of its parts, and of one element nothing or one related to it (`Elementwise`).
Loops over the elements are (`Elementwise.mapEach`), filters are
(`Elementwise.filter`), and so is one such function after another
(`Elementwise.comp`).
-/

namespace DDO

variable {α β ε : Type}

theorem toOption_eq_some {x : Except ε α} {a : α} : x.toOption = some a ↔ x = .ok a := by
  cases x with
  | error e => exact iff_of_false (fun h => by cases h) (fun h => by cases h)
  | ok b => exact ⟨fun h => congrArg _ (Option.some.inj h), fun h => congrArg _ (Except.ok.inj h)⟩

/-- A partial function of each element, from the front; the first error counts. -/
def mapEach (f : α → Except ε β) : List α → Except ε (List β)
  | [] => .ok []
  | a :: as =>
    match f a with
    | .error e => .error e
    | .ok b =>
      match mapEach f as with
      | .error e => .error e
      | .ok bs => .ok (b :: bs)

/-- A loop succeeds if it does for each element. -/
theorem mapEach_eq_ok {f : α → Except ε β} {as : List α} {bs : List β} :
    mapEach f as = .ok bs ↔ List.Forall₂ (fun a b => f a = .ok b) as bs := by
  induction as generalizing bs with
  | nil =>
    constructor
    · intro h
      cases h
      exact .nil
    · intro h
      cases h
      rfl
  | cons a as ih =>
    rw [mapEach]
    cases hf : f a with
    | error e =>
      refine iff_of_false (fun h => by cases h) fun h => ?_
      cases h with
      | cons hb _ => cases hf.symm.trans hb
    | ok b =>
      cases ht : mapEach f as with
      | error e =>
        refine iff_of_false (fun h => by cases h) fun h => ?_
        cases h with
        | cons _ hbs => cases ht.symm.trans (ih.mpr hbs)
      | ok bs' =>
        rw [Except.ok.injEq]
        constructor
        · rintro rfl
          exact .cons hf (ih.mp ht)
        · intro h
          cases h with
          | cons hb hbs =>
            cases hf.symm.trans hb
            cases ht.symm.trans (ih.mpr hbs)
            rfl

theorem exists_of_forall₂ {R : α → β → Prop} {as : List α} {bs : List β} (h : List.Forall₂ R as bs) {a : α}
    (ha : a ∈ as) : ∃ b, R a b := by
  induction h with
  | nil => cases ha
  | cons hab _ ih =>
    rcases List.mem_cons.mp ha with rfl | ha
    · exact ⟨_, hab⟩
    · exact ih ha

theorem mapEach_map {γ : Type} (f : β → Except ε γ) (g : α → β) (as : List α) :
    mapEach f (as.map g) = mapEach (fun a => f (g a)) as := by
  induction as with
  | nil => rfl
  | cons a as ih => rw [List.map_cons, mapEach, mapEach, ih]

theorem toOption_mapEach_cons (f : α → Except ε β) (a : α) (as : List α) :
    (mapEach f (a :: as)).toOption =
      (f a).toOption.bind fun b => (mapEach f as).toOption.map (b :: ·) := by
  rw [mapEach]
  cases f a with
  | error e => rfl
  | ok b => cases mapEach f as <;> rfl

theorem toOption_mapEach_append (f : α → Except ε β) (as as' : List α) :
    (mapEach f (as ++ as')).toOption =
      (mapEach f as).toOption.bind fun bs => (mapEach f as').toOption.map (bs ++ ·) := by
  induction as with
  | nil =>
    show _ = (mapEach f as').toOption.map id
    rw [Option.map_id]
    rfl
  | cons a as ih =>
    rw [List.cons_append, toOption_mapEach_cons, toOption_mapEach_cons, ih]
    cases (f a).toOption with
    | none => rfl
    | some b =>
      cases (mapEach f as).toOption with
      | none => rfl
      | some bs => cases (mapEach f as').toOption <;> rfl

/-- What the function makes of a list it makes of its parts, and of one element it
makes nothing or one related to it. -/
structure Elementwise (R : α → α → Prop) (T : List α → Option (List α)) : Prop where
  append : ∀ xs ys, T (xs ++ ys) = (T xs).bind fun xs' => (T ys).map (xs' ++ ·)
  single : ∀ x zs, T [x] = some zs → zs = [] ∨ ∃ y, zs = [y] ∧ R x y

namespace Elementwise

variable {R : α → α → Prop} {T U : List α → Option (List α)}

/-- It makes nothing of nothing, if it makes anything. -/
theorem nil (h : Elementwise R T) {zs : List α} (hz : T [] = some zs) : zs = [] := by
  have ha := h.append [] []
  rw [List.append_nil, hz] at ha
  exact List.append_right_eq_self.mp (Option.some.inj ha).symm

theorem id (hR : ∀ x, R x x) : Elementwise R (some : List α → Option (List α)) where
  append _ _ := rfl
  single x _ hz := Or.inr ⟨x, (Option.some.inj hz).symm, hR x⟩

/-- The function fails on every list. -/
theorem never : Elementwise R (fun _ : List α => none) where
  append _ _ := rfl
  single _ _ hz := by cases hz

theorem comp (hR : ∀ x y z, R x y → R y z → R x z) (hT : Elementwise R T) (hU : Elementwise R U) :
    Elementwise R fun xs => (T xs).bind U where
  append xs ys := by
    rw [hT.append]
    cases T xs with
    | none => rfl
    | some xs' =>
      cases T ys with
      | none => simp
      | some ys' => exact hU.append xs' ys'
  single x zs hz := by
    obtain ⟨ys, hx, hy⟩ := Option.bind_eq_some_iff.mp hz
    rcases hT.single x ys hx with rfl | ⟨y, rfl, hxy⟩
    · exact Or.inl (hU.nil hy)
    · rcases hU.single y zs hy with rfl | ⟨z, rfl, hyz⟩
      · exact Or.inl rfl
      · exact Or.inr ⟨z, rfl, hR x y z hxy hyz⟩

theorem mapEach {f : α → Except ε α} (hf : ∀ x y, f x = .ok y → R x y) :
    Elementwise R fun xs => (DDO.mapEach f xs).toOption where
  append := toOption_mapEach_append f
  single x zs hz := by
    rw [toOption_mapEach_cons] at hz
    cases hx : f x with
    | error e =>
      rw [hx] at hz
      cases hz
    | ok y =>
      rw [hx] at hz
      exact Or.inr ⟨y, (Option.some.inj hz).symm, hf x y hx⟩

theorem filter (hR : ∀ x, R x x) (c : α → Bool) : Elementwise R fun xs => some (xs.filter c) where
  append xs ys := congrArg some (List.filter_append xs ys)
  single x zs hz := by
    rw [← Option.some.inj hz]
    cases hc : c x with
    | true => exact Or.inr ⟨x, List.filter_cons_of_pos hc, hR x⟩
    | false => exact Or.inl (List.filter_cons_of_neg (by simp [hc]))

end Elementwise

end DDO
