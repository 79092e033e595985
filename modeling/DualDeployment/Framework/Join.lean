import Mathlib.Data.String.Basic

/-!
# Joined strings

Joining strings around a separator that does not occur in them can be undone.
It is enough that one side is free of the separator when both have the same
number of parts (`intercalate_inj`), the first part may contain it if the others
do not (`intercalate_inj_tail`), and a text with one separator is cut at it
(`cut_at_separator`).
-/

namespace DDO

theorem count_intercalate {α : Type} [BEq α] [LawfulBEq α] (c : α) (xs : List (List α)) :
    ([c].intercalate xs).count c = xs.flatten.count c + (xs.length - 1) := by
  match xs with
  | [] => rfl
  | [x] => simp [List.intercalate]
  | x :: y :: xs =>
    have ih := count_intercalate c (y :: xs)
    rw [List.flatten_cons, List.count_append, List.length_cons, Nat.add_one_sub_one] at ih
    rw [List.intercalate_cons_cons, List.count_append, List.count_append, List.count_singleton_self, ih,
      List.flatten_cons, List.flatten_cons, List.count_append, List.count_append, List.length_cons,
      List.length_cons]
    omega

/-- Two joins of as many parts are equal only if the parts are, if no part of
the second contains the separator. -/
theorem intercalate_inj {c : Char} {xs ys : List String} (hl : xs.length = ys.length)
    (hy : ∀ y ∈ ys, c ∉ y.toList)
    (h : (String.singleton c).intercalate xs = (String.singleton c).intercalate ys) : xs = ys := by
  have hs : [c].intercalate (xs.map String.toList) = [c].intercalate (ys.map String.toList) := by
    simpa using congrArg String.toList h
  -- the first join has no more separators than the second, so its parts have none
  have hx : ∀ x ∈ xs.map String.toList, c ∉ x := by
    have hc := congrArg (List.count c) hs
    simp only [count_intercalate, List.length_map, hl, Nat.add_right_cancel_iff] at hc
    have h0 : c ∉ (ys.map String.toList).flatten := by
      intro hm
      obtain ⟨l, hl, hcl⟩ := List.mem_flatten.mp hm
      obtain ⟨y, hmem, rfl⟩ := List.mem_map.mp hl
      exact hy y hmem hcl
    rw [List.count_eq_zero.mpr h0] at hc
    intro x hmem hcx
    exact List.count_eq_zero.mp hc (List.mem_flatten.mpr ⟨x, hmem, hcx⟩)
  have hy' : ∀ y ∈ ys.map String.toList, c ∉ y := by
    intro l hl
    obtain ⟨y, hmem, rfl⟩ := List.mem_map.mp hl
    exact hy y hmem
  rcases ys.eq_nil_or_concat with rfl | ⟨ys', y, rfl⟩
  · exact List.length_eq_zero_iff.mp hl
  · have hne : xs ≠ [] := by
      rintro rfl
      simp at hl
    have he := congrArg (List.splitOn c) hs
    rw [List.splitOn_intercalate c hx (by simpa using hne),
      List.splitOn_intercalate c hy' (by simp)] at he
    exact List.map_injective_iff.mpr (fun _ _ => String.toList_inj.mp) he

/-- Two cuts of one text at a separator are the same, or one is inside what
stands before the other. -/
theorem append_sep_cases {c : Char} {p p' a b : List Char} (h : p ++ c :: a = p' ++ c :: b) :
    (p = p' ∧ a = b) ∨ (∃ v, p' = p ++ c :: v ∧ a = v ++ c :: b) ∨
      ∃ v, p = p' ++ c :: v ∧ b = v ++ c :: a := by
  rcases List.append_eq_append_iff.mp h with ⟨v, rfl, hv⟩ | ⟨v, rfl, hv⟩
  · cases v with
    | nil => exact Or.inl ⟨(List.append_nil p).symm, (List.cons.inj hv).2⟩
    | cons d v =>
      obtain ⟨rfl, ha⟩ := List.cons.inj hv
      exact Or.inr (Or.inl ⟨v, rfl, ha⟩)
  · cases v with
    | nil => exact Or.inl ⟨List.append_nil p', (List.cons.inj hv).2.symm⟩
    | cons d v =>
      obtain ⟨rfl, hb⟩ := List.cons.inj hv
      exact Or.inr (Or.inr ⟨v, rfl, hb⟩)

/-- Two texts cut at a separator, with as many separators after the cut. -/
theorem append_sep_inj {c : Char} {p p' a b : List Char} (hc : a.count c = b.count c)
    (h : p ++ c :: a = p' ++ c :: b) : p = p' ∧ a = b := by
  rcases append_sep_cases h with h | ⟨v, -, rfl⟩ | ⟨v, -, rfl⟩
  · exact h
  · rw [List.count_append, List.count_cons_self] at hc
    omega
  · rw [List.count_append, List.count_cons_self] at hc
    omega

/-- Two texts cut at a separator that does not occur before the cut. -/
theorem append_sep_inj_of_not_mem {c : Char} {p p' a b : List Char} (hp : c ∉ p) (hp' : c ∉ p')
    (h : p ++ c :: a = p' ++ c :: b) : p = p' ∧ a = b := by
  rcases append_sep_cases h with h | ⟨v, rfl, -⟩ | ⟨v, rfl, -⟩
  · exact h
  · exact absurd (List.mem_append_right _ List.mem_cons_self) hp'
  · exact absurd (List.mem_append_right _ List.mem_cons_self) hp

/-- The first part of a join may contain the separator, if the others do not. -/
theorem intercalate_inj_tail {c : Char} {p p' x y : String} {xs ys : List String}
    (hl : xs.length = ys.length) (hx : ∀ z ∈ x :: xs, c ∉ z.toList)
    (hy : ∀ z ∈ y :: ys, c ∉ z.toList)
    (h : (String.singleton c).intercalate (p :: x :: xs) =
      (String.singleton c).intercalate (p' :: y :: ys)) : p = p' ∧ x :: xs = y :: ys := by
  have hcount : ∀ zs : List String, (∀ z ∈ zs, c ∉ z.toList) →
      ([c].intercalate (zs.map String.toList)).count c = zs.length - 1 := by
    intro zs hz
    rw [count_intercalate, List.length_map, Nat.add_eq_right, List.count_eq_zero]
    intro hm
    obtain ⟨l, hl, hcl⟩ := List.mem_flatten.mp hm
    obtain ⟨z, hmem, rfl⟩ := List.mem_map.mp hl
    exact hz z hmem hcl
  have hs : p.toList ++ c :: [c].intercalate ((x :: xs).map String.toList) =
      p'.toList ++ c :: [c].intercalate ((y :: ys).map String.toList) := by
    simpa [List.intercalate_cons_cons] using congrArg String.toList h
  obtain ⟨hp, ht⟩ := append_sep_inj (by rw [hcount _ hx, hcount _ hy]; simp [hl]) hs
  refine ⟨String.toList_inj.mp hp, intercalate_inj (by simp [hl]) hy (String.toList_inj.mp ?_)⟩
  simpa using ht

/-- A text with one separator is what stands before it, the separator, and
what stands after it. -/
theorem cut_at_separator {c : Char} {s : List Char} (h : s.count c = 1) :
    s = s.takeWhile (· ≠ c) ++ c :: (s.dropWhile (· ≠ c)).drop 1 ∧
      c ∉ (s.dropWhile (· ≠ c)).drop 1 := by
  have hpre : c ∉ s.takeWhile (· ≠ c) := fun hm => by
    simpa using List.all_eq_true.mp List.all_takeWhile c hm
  have happ := @List.takeWhile_append_dropWhile _ (· ≠ c) s
  cases hd : s.dropWhile (· ≠ c) with
  | nil =>
    rw [hd, List.append_nil] at happ
    rw [happ] at hpre
    rw [List.count_eq_zero.mpr hpre] at h
    omega
  | cons c' cs =>
    have hc : c' = c := by
      have := List.head?_dropWhile_not (· ≠ c) s
      rw [hd] at this
      simpa using this
    subst hc
    rw [hd] at happ
    refine ⟨by simpa using happ.symm, ?_⟩
    rw [← happ, List.count_append, List.count_eq_zero.mpr hpre, List.count_cons_self] at h
    exact List.count_eq_zero.mp (by rw [List.drop_one, List.tail_cons]; omega)

end DDO
