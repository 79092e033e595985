import Mathlib.Data.List.AList
import Mathlib.Data.Set.Function

/-!
# Keying a list of values

`keyedBy` enters values under a key that is computed from each. Of the values
with one key the last one stays (`lookup_keyedBy`), so values with distinct keys
all stay, and values that share a key are lost but one. Two sets with distinct
keys that are the same correspond one to one (`exists_bijOn`).
-/

namespace DDO

section

variable {α κ : Type} [DecidableEq κ] (key : α → κ)

/-- Enters the values into `out`, one after the other. -/
def keyedBy (l : List α) (out : AList fun _ : κ => α) : AList fun _ : κ => α :=
  l.foldl (fun out a => out.insert (key a) a) out

/-- The last value with this key. -/
def lastWith (l : List α) (k : κ) : Option α := l.reverse.find? fun a => key a = k

theorem lastWith_cons (a : α) (l : List α) (k : κ) :
    lastWith key (a :: l) k = (lastWith key l k).or (if key a = k then some a else none) := by
  rw [lastWith, lastWith, List.reverse_cons, List.find?_append, List.find?_singleton]
  simp only [decide_eq_true_eq]

/-- The loop keeps the last value of each key. -/
theorem lookup_keyedBy (l : List α) (out : AList fun _ : κ => α) (k : κ) :
    (keyedBy key l out).lookup k = (lastWith key l k).or (out.lookup k) := by
  induction l generalizing out with
  | nil => rfl
  | cons a l ih =>
    rw [lastWith_cons, Option.or_assoc]
    show (keyedBy key l (out.insert (key a) a)).lookup k = _
    rw [ih]
    congr 1
    by_cases hk : key a = k
    · subst hk
      rw [AList.lookup_insert, if_pos rfl, Option.some_or]
    · rw [AList.lookup_insert_ne (Ne.symm hk), if_neg hk, Option.none_or]

variable {key} {l : List α} {k : κ} {a : α}

theorem of_lastWith (h : lastWith key l k = some a) : a ∈ l ∧ key a = k := by
  have hk := List.find?_some h
  exact ⟨List.mem_reverse.mp (List.mem_of_find?_eq_some h), of_decide_eq_true hk⟩

/-- Two keys that pick the same values out have the same last value. -/
theorem lastWith_congr {κ' : Type} [DecidableEq κ'] {key' : α → κ'} {k' : κ'}
    (h : ∀ a ∈ l, key a = k ↔ key' a = k') : lastWith key l k = lastWith key' l k' := by
  induction l with
  | nil => rfl
  | cons a l ih =>
    rw [List.forall_mem_cons] at h
    rw [lastWith_cons, lastWith_cons, ih h.2, if_congr h.1 rfl rfl]

theorem lastWith_isSome : (lastWith key l k).isSome = true ↔ ∃ a ∈ l, key a = k := by
  rw [lastWith, List.find?_isSome]
  simp

/-- A value whose key comes up again later is lost. -/
theorem lastWith_cons_of_mem {b : α} (hb : b ∈ l) (hk : key b = key a) (k : κ) :
    lastWith key (a :: l) k = lastWith key l k := by
  rw [lastWith_cons]
  split_ifs with h
  · obtain ⟨c, hc⟩ := Option.isSome_iff_exists.mp (lastWith_isSome.mpr ⟨b, hb, hk.trans h⟩)
    rw [hc, Option.some_or]
  · exact Option.or_none

end

/-- Two lookups are related if both find nothing or both find values that are. -/
theorem optionRel_iff {α β : Type} {R : α → β → Prop} {x : Option α} {y : Option β} :
    Option.Rel R x y ↔
      (∀ a b, x = some a → y = some b → R a b) ∧ (x.isSome = true ↔ y.isSome = true) := by
  constructor
  · rintro (hr | _)
    · refine ⟨fun a b ha hb => ?_, Iff.rfl⟩
      cases ha
      cases hb
      exact hr
    · refine ⟨fun a b ha _ => ?_, Iff.rfl⟩
      cases ha
  · rintro ⟨hr, hs⟩
    cases x with
    | none =>
      cases y with
      | none => exact .none
      | some b => cases hs.mpr rfl
    | some a =>
      cases y with
      | none => cases hs.mp rfl
      | some b => exact .some (hr a b rfl rfl)

/-- Sets that are entered under the same keys, each under distinct ones,
correspond one to one. -/
theorem exists_bijOn {α β κ : Type} [Nonempty β] {f : α → κ} {g : β → κ} {s : Set α} {t : Set β}
    {u : Set κ} (hf : Set.BijOn f s u) (hg : Set.BijOn g t u) :
    ∃ c : α → β, Set.BijOn c s t ∧ ∀ a ∈ s, g (c a) = f a := by
  have hi : Set.InvOn (Function.invFunOn g t) g t u := hg.invOn_invFunOn
  have hs : Set.BijOn (Function.invFunOn g t) u t := hi.symm.bijOn hg.surjOn.mapsTo_invFunOn hg.mapsTo
  exact ⟨Function.invFunOn g t ∘ f, hs.comp hf, fun a ha => hi.2 (hf.mapsTo ha)⟩

end DDO
