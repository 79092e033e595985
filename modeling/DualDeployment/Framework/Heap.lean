import DualDeployment.Framework.Lru
import Mathlib.Logic.Function.Basic

/-!
# Cells

A heap of mutable cells that are allocated one after another, and never freed.
Cells that were allocated keep their value when others are allocated
(`cell_alloc`) or written (`cell_write`); values held by a cache are mapped by
`Lru.map`, which goes through its operations.
-/

namespace DDO

/-- The value of each cell, and the next cell that is free. -/
structure Heap (V : Type) where
  cell : Nat → V
  next : Nat

namespace Heap

variable {V : Type} (h : Heap V) {a b : Nat} {v : V}

def alloc (v : V) : Heap V × Nat := (⟨Function.update h.cell h.next v, h.next + 1⟩, h.next)

def write (a : Nat) (v : V) : Heap V := ⟨Function.update h.cell a v, h.next⟩

variable {h}

theorem cell_alloc (ha : a < h.next) : (h.alloc v).1.cell a = h.cell a :=
  Function.update_of_ne (Nat.ne_of_lt ha) _ _

theorem cell_alloc_self : (h.alloc v).1.cell h.next = v := Function.update_self ..

theorem cell_write (hne : b ≠ a) : (h.write a v).cell b = h.cell b := Function.update_of_ne hne _ _

theorem cell_write_self : (h.write a v).cell a = v := Function.update_self ..

end Heap

namespace Lru

variable {K V W : Type}

/-- The cache with a function applied to its values. -/
def map (c : Lru K V) (f : V → W) : Lru K W where
  size := c.size
  items := c.items.map fun p => (p.1, f p.2)
  nodup := by
    rw [List.map_map]
    exact c.nodup
  bounded := by
    rw [List.length_map]
    exact c.bounded

theorem ext {c c' : Lru K V} (hs : c.size = c'.size) (hi : c.items = c'.items) : c = c' := by
  cases c
  cases c'
  cases hs
  cases hi
  rfl

theorem map_congr {c : Lru K V} {f g : V → W} (h : ∀ p ∈ c.items, f p.2 = g p.2) : c.map f = c.map g :=
  ext rfl (List.map_congr_left fun p hp => by rw [h p hp])

variable [DecidableEq K]

theorem map_add (c : Lru K V) (f : V → W) (key : K) (val : V) :
    (c.add key val).map f = (c.map f).add key (f val) := by
  refine ext rfl ?_
  simp only [map, add, List.map_take, List.map_cons, List.filter_map]
  rfl

theorem lookup_map (items : List (K × V)) (f : V → W) (key : K) :
    (items.map fun p => (p.1, f p.2)).lookup key = (items.lookup key).map f := by
  induction items with
  | nil => rfl
  | cons p items ih =>
    rw [List.map_cons, List.lookup_cons, List.lookup_cons]
    cases key == p.1
    · exact ih
    · rfl

theorem map_get (c : Lru K V) (f : V → W) (key : K) :
    (c.map f).get key = ((c.get key).1.map f, (c.get key).2.map f) := by
  have hl : (c.map f).items.lookup key = (c.items.lookup key).map f := lookup_map c.items f key
  rw [get, hl, get]
  cases c.items.lookup key with
  | none => rfl
  | some val => exact congrArg (Prod.mk _) (map_add c f key val).symm

end Lru

end DDO
