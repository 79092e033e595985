import Mathlib.Data.List.Nodup

/-!
# A least-recently-used cache

The entries of a bounded cache, the most recently used first. A hit moves its
entry to the front, and an entry that is added goes to the front and may drive
out the last. What is read was added under that key (`get_mem`, `mem_add`).
-/

namespace DDO

/-- A cache of at most `size` entries, one for each key. -/
structure Lru (K V : Type) where
  size : Nat
  items : List (K × V)
  nodup : (items.map Prod.fst).Nodup
  bounded : items.length ≤ size

namespace Lru

variable {K V : Type}

def empty (size : Nat) : Lru K V := ⟨size, [], List.nodup_nil, Nat.zero_le size⟩

variable [DecidableEq K] (c : Lru K V) (key : K)

/-- Adds an entry, or replaces the one of its key; it is the most recent one. -/
def add (val : V) : Lru K V where
  size := c.size
  items := ((key, val) :: c.items.filter fun p => p.1 ≠ key).take c.size
  nodup := by
    refine List.Nodup.sublist ((List.take_sublist _ _).map Prod.fst) ?_
    rw [List.map_cons, List.nodup_cons]
    exact ⟨by simp, c.nodup.sublist (List.filter_sublist.map Prod.fst)⟩
  bounded := by
    rw [List.length_take]
    exact Nat.min_le_left _ _

/-- The entry of a key, which becomes the most recent one. -/
def get : Option V × Lru K V :=
  match c.items.lookup key with
  | none => (none, c)
  | some val => (some val, c.add key val)

variable {c key}

theorem mem_add {val : V} {p : K × V} (h : p ∈ (c.add key val).items) : p = (key, val) ∨ p ∈ c.items := by
  rcases List.mem_cons.mp (List.mem_of_mem_take h) with h | h
  · exact Or.inl h
  · exact Or.inr (List.mem_of_mem_filter h)

theorem lookup_mem {val : V} (h : c.items.lookup key = some val) : (key, val) ∈ c.items := by
  obtain ⟨l₁, l₂, hl, -⟩ := List.lookup_eq_some_iff.mp h
  rw [hl]
  exact List.mem_append_right _ List.mem_cons_self

theorem get_mem {val : V} (h : (c.get key).1 = some val) : (key, val) ∈ c.items := by
  rw [get] at h
  split at h
  · cases h
  · cases h
    exact lookup_mem ‹_›

theorem mem_get {p : K × V} (h : p ∈ (c.get key).2.items) : p ∈ c.items := by
  rw [get] at h
  split at h
  · exact h
  · rcases mem_add h with rfl | h
    · exact lookup_mem ‹_›
    · exact h

end Lru

end DDO
