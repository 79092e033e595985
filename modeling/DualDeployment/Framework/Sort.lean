import Mathlib.Data.List.Sort

/-!
# Stable sorting by a rank

A stable sort is determined by its specification, so `sort.SliceStable` with
a comparison of ranks is `List.insertionSort`: in order of rank
(`List.pairwise_insertionSort`), a permutation (`List.perm_insertionSort`),
and the elements of one rank in the order they came in
(`filter_insertionSort`). Two lists in order of rank are the same if they agree
on each rank (`eq_of_filter_rank`), so a stable sort the other way reverses a
sorted list only if each rank reads the same backwards
(`insertionSort_eq_reverse_iff`).
-/

namespace DDO

variable {α : Type} {r : α → α → Prop} [DecidableRel r]

/-- Elements that `r` relates to each other keep their order. -/
theorem filter_insertionSort (c : α → Bool) (hc : ∀ a b, c a → c b → r a b) (l : List α) :
    (l.insertionSort r).filter c = l.filter c := by
  have hp : (l.filter c).Pairwise r := by
    refine List.pairwise_of_forall_mem_list fun a ha b hb => hc a b ?_ ?_
    · exact (List.mem_filter.mp ha).2
    · exact (List.mem_filter.mp hb).2
  have hs := (List.sublist_insertionSort hp List.filter_sublist).filter c
  rw [List.filter_filter] at hs
  simp only [Bool.and_self] at hs
  exact (hs.eq_of_length ((List.perm_insertionSort r l).filter c).symm.length_eq).symm

/-- Two lists in order of rank are the same if they agree on each rank. -/
theorem eq_of_filter_rank {β : Type} [LinearOrder β] (rank : α → β) {l₁ l₂ : List α}
    (h₁ : l₁.Pairwise fun a b => rank a ≤ rank b) (h₂ : l₂.Pairwise fun a b => rank a ≤ rank b)
    (h : ∀ p, l₁.filter (rank · = p) = l₂.filter (rank · = p)) : l₁ = l₂ := by
  have mem_iff : ∀ {l l' : List α}, (∀ p, l.filter (rank · = p) = l'.filter (rank · = p)) →
      ∀ a, a ∈ l ↔ a ∈ l' := by
    intro l l' h a
    have ha := congrArg (a ∈ ·) (h (rank a))
    simpa only [List.mem_filter, decide_true, and_true, eq_iff_iff] using ha
  induction l₁ generalizing l₂ with
  | nil =>
    refine (List.eq_nil_iff_forall_not_mem.mpr fun a ha => ?_).symm
    cases (mem_iff h a).mpr ha
  | cons a l₁ ih =>
    have hmem := mem_iff h
    cases l₂ with
    | nil => cases (hmem a).mp List.mem_cons_self
    | cons b l₂ =>
      rw [List.pairwise_cons] at h₁ h₂
      -- each head is in the other list, so neither rank is below the other
      have hab : rank a = rank b := by
        refine le_antisymm ?_ ?_
        · rcases List.mem_cons.mp ((hmem b).mpr List.mem_cons_self) with hb | hb
          · rw [hb]
          · exact h₁.1 b hb
        · rcases List.mem_cons.mp ((hmem a).mp List.mem_cons_self) with ha | ha
          · rw [ha]
          · exact h₂.1 a ha
      have hhead := h (rank a)
      rw [List.filter_cons_of_pos (by simp), List.filter_cons_of_pos (by simp [hab])] at hhead
      obtain ⟨rfl, -⟩ := List.cons.inj hhead
      have htail : ∀ p, l₁.filter (rank · = p) = l₂.filter (rank · = p) := by
        intro p
        have hp := h p
        simp only [List.filter_cons] at hp
        split_ifs at hp with hr
        · exact (List.cons.inj hp).2
        · exact hp
      exact congrArg _ (ih h₁.2 h₂.2 htail)

/-- Sorted by rank and then, stably, the other way around: the reverse, if and
only if each rank reads the same backwards. -/
theorem insertionSort_eq_reverse_iff (rank : α → Nat) (l : List α) :
    (l.insertionSort fun a b => rank a ≤ rank b).insertionSort (fun a b => rank b ≤ rank a) =
        (l.insertionSort fun a b => rank a ≤ rank b).reverse ↔
      ∀ p, (l.filter (rank · = p)).reverse = l.filter (rank · = p) := by
  have up : ∀ p, (l.insertionSort fun a b => rank a ≤ rank b).filter (rank · = p) =
      l.filter (rank · = p) := fun p =>
    filter_insertionSort _ (fun a b ha hb => by simp_all) l
  have down : ∀ p, ((l.insertionSort fun a b => rank a ≤ rank b).insertionSort
      fun a b => rank b ≤ rank a).filter (rank · = p) = l.filter (rank · = p) := fun p =>
    (filter_insertionSort _ (fun a b ha hb => by simp_all) _).trans (up p)
  constructor
  · intro h p
    have hp := congrArg (List.filter (rank · = p)) h
    rw [down, List.filter_reverse, up] at hp
    exact hp.symm
  · intro h
    have hdown : ((l.insertionSort fun a b => rank a ≤ rank b).insertionSort
        fun a b => rank b ≤ rank a).Pairwise fun a b => OrderDual.toDual (rank a) ≤ OrderDual.toDual (rank b) :=
      @List.pairwise_insertionSort _ (fun a b => rank b ≤ rank a) _ ⟨fun _ _ => Nat.le_total _ _⟩
        ⟨fun _ _ _ h h' => Nat.le_trans h' h⟩ _
    have hup : (l.insertionSort fun a b => rank a ≤ rank b).Pairwise fun a b => rank a ≤ rank b :=
      @List.pairwise_insertionSort _ (fun a b => rank a ≤ rank b) _ ⟨fun _ _ => Nat.le_total _ _⟩
        ⟨fun _ _ _ => Nat.le_trans⟩ _
    refine eq_of_filter_rank (fun a => OrderDual.toDual (rank a)) hdown (List.pairwise_reverse.mpr hup) ?_
    intro p
    have hdual : ∀ a, (OrderDual.toDual (rank a) = p) = (rank a = OrderDual.ofDual p) := fun _ => rfl
    simp only [hdual, down, List.filter_reverse, up, h]

end DDO
