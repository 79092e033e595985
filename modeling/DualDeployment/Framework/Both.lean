import DualDeployment.Framework.Prog

/-!
# Requests of two kinds

A program that makes requests of one kind is a program for two kinds (`inl`,
`inr`), with the same runs (`trace_inl`, `trace_inr`).
-/

namespace DDO

variable {E F : Type} {R : E → Type} {S : F → Type} {α : Type}

/-- The answers to requests of two kinds. -/
@[reducible] def Both (R : E → Type) (S : F → Type) : E ⊕ F → Type
  | .inl e => R e
  | .inr f => S f

instance [∀ e, Nonempty (R e)] [∀ f, Nonempty (S f)] : ∀ e, Nonempty (Both R S e)
  | .inl e => inferInstanceAs (Nonempty (R e))
  | .inr f => inferInstanceAs (Nonempty (S f))

namespace Event

def inl (l : Event R) : Event (Both R S) := ⟨.inl l.1, l.2⟩

def inr (l : Event S) : Event (Both R S) := ⟨.inr l.1, l.2⟩

theorem inr_injective {l l' : Event S} (h : (l.inr : Event (Both R S)) = l'.inr) : l = l' := by
  obtain ⟨f, r⟩ := l
  obtain ⟨f', r'⟩ := l'
  cases h
  rfl

end Event

namespace Prog

def inl : Prog E R α → Prog (E ⊕ F) (Both R S) α
  | ret a => ret a
  | call e k => call (.inl e) fun r => (k r).inl

def inr : Prog F S α → Prog (E ⊕ F) (Both R S) α
  | ret a => ret a
  | call f k => call (.inr f) fun r => (k r).inr

theorem trace_inl {p : Prog E R α} {u : List (Event (Both R S))} {a : α} :
    Trace p.inl u a ↔ ∃ t, Trace p t a ∧ u = t.map Event.inl := by
  induction p generalizing u with
  | ret b =>
    rw [inl, trace_ret]
    constructor
    · rintro ⟨rfl, rfl⟩
      exact ⟨[], .ret _, rfl⟩
    · rintro ⟨t, ht, rfl⟩
      obtain ⟨rfl, rfl⟩ := trace_ret.mp ht
      exact ⟨rfl, rfl⟩
  | call e k ih =>
    rw [inl, trace_call]
    constructor
    · rintro ⟨r, u', rfl, hu⟩
      obtain ⟨t, ht, rfl⟩ := (ih r).mp hu
      exact ⟨⟨e, r⟩ :: t, .call ht, rfl⟩
    · rintro ⟨t, ht, rfl⟩
      obtain ⟨r, t', rfl, hk⟩ := trace_call.mp ht
      exact ⟨r, t'.map Event.inl, rfl, (ih r).mpr ⟨t', hk, rfl⟩⟩

theorem trace_inr {p : Prog F S α} {u : List (Event (Both R S))} {a : α} :
    Trace p.inr u a ↔ ∃ t, Trace p t a ∧ u = t.map Event.inr := by
  induction p generalizing u with
  | ret b =>
    rw [inr, trace_ret]
    constructor
    · rintro ⟨rfl, rfl⟩
      exact ⟨[], .ret _, rfl⟩
    · rintro ⟨t, ht, rfl⟩
      obtain ⟨rfl, rfl⟩ := trace_ret.mp ht
      exact ⟨rfl, rfl⟩
  | call f k ih =>
    rw [inr, trace_call]
    constructor
    · rintro ⟨r, u', rfl, hu⟩
      obtain ⟨t, ht, rfl⟩ := (ih r).mp hu
      exact ⟨⟨f, r⟩ :: t, .call ht, rfl⟩
    · rintro ⟨t, ht, rfl⟩
      obtain ⟨r, t', rfl, hk⟩ := trace_call.mp ht
      exact ⟨r, t'.map Event.inr, rfl, (ih r).mpr ⟨t', hk, rfl⟩⟩

end Prog

end DDO
