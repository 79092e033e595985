import Mathlib.Logic.Basic

/-!
# Programs that make requests

A `Prog E R α` makes requests `e : E`, goes on with the answer of type `R e`
it gets to each, and returns an `α`. It says nothing about who answers:

* `Trace p t a`: with the answers recorded in `t`, `p` returns `a`; a
  statement about every trace is one about every way its requests can be
  answered;
* `Steps step w t w'`: an environment in state `w` can give the answers of
  `t` and end in `w'`;
* `interp h p` answers each request of `p` by running a program of its own
  (`h`); `trace_interp` and `steps_lift` take a run of it apart into a trace
  of `p` and the runs of `h`;
* `exec` runs a program against an environment that computes its answers,
  which gives a trace (`exec_trace`), a run (`exec_steps`) and, for a program
  run by a program, an expansion (`exec_interp`).
-/

namespace DDO

/-- A program that makes requests in `E`, answered in `R`, and returns an `α`. -/
inductive Prog (E : Type) (R : E → Type) (α : Type) where
  | ret (a : α)
  | call (e : E) (k : R e → Prog E R α)

/-- A request with the answer it got. -/
abbrev Event {E : Type} (R : E → Type) := (e : E) × R e

namespace Prog

variable {E F : Type} {R : E → Type} {S : F → Type} {α β : Type}

/-- `p`, then `f` of what it returns. -/
def bind : Prog E R α → (α → Prog E R β) → Prog E R β
  | ret a, f => f a
  | call e k, f => call e fun r => (k r).bind f

instance : Monad (Prog E R) where
  pure := ret
  bind := bind

/-- A single request. -/
def request (e : E) : Prog E R (R e) := call e ret

/-- `p`, with each request `e` answered by running `h e`. -/
def interp (h : (e : E) → Prog F S (R e)) : Prog E R α → Prog F S α
  | ret a => ret a
  | call e k => (h e).bind fun r => (k r).interp h

/-- With the answers of `t`, the program makes the requests of `t` in that
order and returns `a`. -/
inductive Trace : Prog E R α → List (Event R) → α → Prop where
  | ret (a : α) : Trace (.ret a) [] a
  | call {e : E} {k : R e → Prog E R α} {r : R e} {t : List (Event R)} {a : α} :
      Trace (k r) t a → Trace (.call e k) (⟨e, r⟩ :: t) a

theorem trace_ret {a b : α} {t : List (Event R)} :
    Trace (.ret a : Prog E R α) t b ↔ t = [] ∧ b = a := by
  constructor
  · rintro ⟨⟩; exact ⟨rfl, rfl⟩
  · rintro ⟨rfl, rfl⟩; exact .ret _

theorem trace_pure {a b : α} {t : List (Event R)} :
    Trace (pure a : Prog E R α) t b ↔ t = [] ∧ b = a := trace_ret

theorem trace_call {e : E} {k : R e → Prog E R α} {t : List (Event R)} {a : α} :
    Trace (.call e k) t a ↔ ∃ r t', t = ⟨e, r⟩ :: t' ∧ Trace (k r) t' a := by
  constructor
  · rintro ⟨⟩; exact ⟨_, _, rfl, ‹_›⟩
  · rintro ⟨r, t', rfl, h⟩; exact .call h

theorem trace_request {e : E} {t : List (Event R)} {a : R e} :
    Trace (request e) t a ↔ t = [⟨e, a⟩] := by
  simp only [request, trace_call, trace_ret]
  constructor
  · rintro ⟨r, t', rfl, rfl, rfl⟩; rfl
  · rintro rfl; exact ⟨a, [], rfl, rfl, rfl⟩

theorem trace_bind {p : Prog E R α} {f : α → Prog E R β} {t : List (Event R)} {b : β} :
    Trace (p.bind f) t b ↔ ∃ t₁ t₂ a, t = t₁ ++ t₂ ∧ Trace p t₁ a ∧ Trace (f a) t₂ b := by
  induction p generalizing t with
  | ret a =>
    constructor
    · intro h; exact ⟨[], t, a, rfl, .ret a, h⟩
    · rintro ⟨t₁, t₂, a', rfl, h₁, h₂⟩
      obtain ⟨rfl, rfl⟩ := trace_ret.mp h₁
      exact h₂
  | call e k ih =>
    constructor
    · intro h
      obtain ⟨r, t', rfl, hk⟩ := trace_call.mp h
      obtain ⟨t₁, t₂, a, rfl, h₁, h₂⟩ := (ih r).mp hk
      exact ⟨⟨e, r⟩ :: t₁, t₂, a, rfl, .call h₁, h₂⟩
    · rintro ⟨t₁, t₂, a, rfl, h₁, h₂⟩
      obtain ⟨r, t', rfl, hk⟩ := trace_call.mp h₁
      exact .call ((ih r).mpr ⟨t', t₂, a, rfl, hk, h₂⟩)

/-- `trace_bind`, in the form `do` notation produces. -/
theorem trace_seq {p : Prog E R α} {f : α → Prog E R β} {t : List (Event R)} {b : β} :
    Trace (p >>= f) t b ↔ ∃ t₁ t₂ a, t = t₁ ++ t₂ ∧ Trace p t₁ a ∧ Trace (f a) t₂ b :=
  trace_bind

/-- A request, then `f` of its answer. -/
theorem trace_request_seq {e : E} {f : R e → Prog E R β} {t : List (Event R)} {b : β} :
    Trace (request e >>= f) t b ↔ ∃ r t', t = ⟨e, r⟩ :: t' ∧ Trace (f r) t' b :=
  trace_call

/-- The answers determine where a run ends and what it returns. -/
theorem Trace.unique {p : Prog E R α} {t t' s s' : List (Event R)} {a a' : α} (h : Trace p t a)
    (h' : Trace p t' a') (he : t ++ s = t' ++ s') : t = t' ∧ a = a' := by
  induction h generalizing t' with
  | ret a =>
    obtain ⟨rfl, rfl⟩ := trace_ret.mp h'
    exact ⟨rfl, rfl⟩
  | call _ ih =>
    obtain ⟨r', t₁, rfl, h₁⟩ := trace_call.mp h'
    rw [List.cons_append, List.cons_append, List.cons.injEq] at he
    obtain ⟨he, ht⟩ := he
    cases he
    obtain ⟨rfl, rfl⟩ := ih h₁ ht
    exact ⟨rfl, rfl⟩

/-- An event that has not come yet when a part of a run is over comes after it. -/
theorem append_of_not_mem {L : Type} {t u v s : List L} {l : L} (h : t ++ u = v ++ l :: s) (hl : l ∉ t) :
    ∃ t', v = t ++ t' := by
  rcases List.append_eq_append_iff.mp h with ⟨a, ha, -⟩ | ⟨a, ha, hb⟩
  · exact ⟨a, ha⟩
  · cases a with
    | nil => exact ⟨[], by rw [ha, List.append_nil, List.append_nil]⟩
    | cons b a =>
      obtain ⟨rfl, -⟩ := List.cons.inj hb
      exact absurd (ha ▸ List.mem_append_right _ List.mem_cons_self) hl

/-- Every request of every run satisfies `Q`. -/
def Asks (Q : E → Prop) (p : Prog E R α) : Prop := ∀ t a, Trace p t a → ∀ l ∈ t, Q l.1

theorem Asks.mono {Q Q' : E → Prop} {p : Prog E R α} (h : Asks Q p) (hq : ∀ e, Q e → Q' e) : Asks Q' p :=
  fun t a ht l hl => hq _ (h t a ht l hl)

theorem asks_pure {Q : E → Prop} (a : α) : Asks Q (pure a : Prog E R α) := by
  intro t b h l hl
  rw [(trace_pure.mp h).1] at hl
  cases hl

theorem asks_request {Q : E → Prop} {e : E} (h : Q e) : Asks Q (request e : Prog E R (R e)) := by
  intro t b ht l hl
  rw [trace_request.mp ht, List.mem_singleton] at hl
  rw [hl]
  exact h

theorem asks_seq {Q : E → Prop} {p : Prog E R α} {f : α → Prog E R β} (hp : Asks Q p)
    (hf : ∀ a, Asks Q (f a)) : Asks Q (p >>= f) := by
  intro t b h l hl
  obtain ⟨t₁, t₂, a, rfl, h₁, h₂⟩ := trace_seq.mp h
  rcases List.mem_append.mp hl with hl | hl
  · exact hp t₁ a h₁ l hl
  · exact hf a t₂ b h₂ l hl

/-- Every run asks only for what `Q` allows, and returns what `P` allows. -/
def Obeys (Q : E → Prop) (P : α → Prop) (p : Prog E R α) : Prop :=
  ∀ t a, Trace p t a → (∀ l ∈ t, Q l.1) ∧ P a

section Obeys

variable {Q : E → Prop} {P : α → Prop} {P' : β → Prop}

theorem obeys_pure {a : α} (h : P a) : Obeys Q P (pure a : Prog E R α) := by
  intro t b ht
  obtain ⟨rfl, rfl⟩ := trace_pure.mp ht
  exact ⟨List.forall_mem_nil _, h⟩

theorem obeys_request {e : E} {f : R e → Prog E R β} (he : Q e) (hf : ∀ r, Obeys Q P' (f r)) :
    Obeys Q P' (request e >>= f) := by
  intro t b ht
  obtain ⟨r, t', rfl, h'⟩ := trace_request_seq.mp ht
  obtain ⟨hq, hb⟩ := hf r t' b h'
  exact ⟨List.forall_mem_cons.mpr ⟨he, hq⟩, hb⟩

theorem obeys_seq {p : Prog E R α} {f : α → Prog E R β} (hp : Obeys Q P p)
    (hf : ∀ a, P a → Obeys Q P' (f a)) : Obeys Q P' (p >>= f) := by
  intro t b ht
  obtain ⟨t₁, t₂, a, rfl, h₁, h₂⟩ := trace_seq.mp ht
  obtain ⟨hq₁, ha⟩ := hp t₁ a h₁
  obtain ⟨hq₂, hb⟩ := hf a ha t₂ b h₂
  refine ⟨fun l hl => ?_, hb⟩
  rcases List.mem_append.mp hl with hl | hl
  · exact hq₁ l hl
  · exact hq₂ l hl

end Obeys

/-! ## Programs run by programs -/

/-- The events of `t`, each replaced by the events of a run of `h` that gives
its answer. -/
inductive Expand (h : (e : E) → Prog F S (R e)) : List (Event R) → List (Event S) → Prop where
  | nil : Expand h [] []
  | cons {e : E} {r : R e} {t : List (Event R)} {u us : List (Event S)} :
      Trace (h e) u r → Expand h t us → Expand h (⟨e, r⟩ :: t) (u ++ us)

variable {h : (e : E) → Prog F S (R e)}

/-- A run of `interp h p` is a trace of `p` with its events expanded. -/
theorem trace_interp {p : Prog E R α} {u : List (Event S)} {a : α} :
    Trace (p.interp h) u a ↔ ∃ t, Trace p t a ∧ Expand h t u := by
  induction p generalizing u with
  | ret a' =>
    constructor
    · intro hu
      obtain ⟨rfl, rfl⟩ := trace_ret.mp hu
      exact ⟨[], .ret _, .nil⟩
    · rintro ⟨t, ht, hx⟩
      obtain ⟨rfl, rfl⟩ := trace_ret.mp ht
      cases hx
      exact .ret _
  | call e k ih =>
    constructor
    · intro hu
      obtain ⟨u₁, u₂, r, rfl, h₁, h₂⟩ := trace_bind.mp hu
      obtain ⟨t, ht, hx⟩ := (ih r).mp h₂
      exact ⟨⟨e, r⟩ :: t, .call ht, .cons h₁ hx⟩
    · rintro ⟨t, ht, hx⟩
      obtain ⟨r, t', rfl, hk⟩ := trace_call.mp ht
      cases hx with
      | cons h₁ hx => exact trace_bind.mpr ⟨_, _, r, rfl, h₁, (ih r).mpr ⟨t', hk, hx⟩⟩

/-- The events of `t`, each with the run of `h` that gave its answer. -/
structure Log (h : (e : E) → Prog F S (R e)) (t : List (Event R))
    (log : List (Event R × List (Event S))) : Prop where
  events : log.map (·.1) = t
  runs : ∀ p ∈ log, Trace (h p.1.1) p.2 p.1.2

/-- An expansion is a log with the runs put together. -/
theorem expand_iff_log {t : List (Event R)} {us : List (Event S)} :
    Expand h t us ↔ ∃ log, Log h t log ∧ us = log.flatMap (·.2) := by
  constructor
  · intro hx
    induction hx with
    | nil => exact ⟨[], ⟨rfl, by simp⟩, rfl⟩
    | @cons e r t u us hu _ ih =>
      obtain ⟨log, ⟨rfl, hruns⟩, rfl⟩ := ih
      exact ⟨(⟨e, r⟩, u) :: log, ⟨rfl, List.forall_mem_cons.mpr ⟨hu, hruns⟩⟩, rfl⟩
  · rintro ⟨log, ⟨rfl, hruns⟩, rfl⟩
    induction log with
    | nil => exact .nil
    | cons p log ih =>
      obtain ⟨hp, hruns⟩ := List.forall_mem_cons.mp hruns
      exact .cons hp (ih hruns)

/-- Each event is answered by some of the events it expands to. -/
theorem Expand.mem {t : List (Event R)} {us : List (Event S)} (hx : Expand h t us) {l : Event R}
    (hl : l ∈ t) : ∃ u, Trace (h l.1) u l.2 ∧ ∀ e ∈ u, e ∈ us := by
  induction hx with
  | nil => cases hl
  | cons hu _ ih =>
    rcases List.mem_cons.mp hl with rfl | hl
    · exact ⟨_, hu, fun e he => List.mem_append_left _ he⟩
    · obtain ⟨u, hu, hs⟩ := ih hl
      exact ⟨u, hu, fun e he => List.mem_append_right _ (hs e he)⟩

/-- An event of the expansion lies in the run of one event, between the
expansions of those before and after. -/
theorem Expand.split {t : List (Event R)} {us us₁ us₂ : List (Event S)} {e : Event S}
    (hx : Expand h t us) (he : us = us₁ ++ e :: us₂) :
    ∃ t₁ l t₂ v₁ p q v₂, t = t₁ ++ l :: t₂ ∧ Expand h t₁ v₁ ∧ Trace (h l.1) (p ++ e :: q) l.2 ∧
      Expand h t₂ v₂ ∧ us₁ = v₁ ++ p ∧ us₂ = q ++ v₂ := by
  induction hx generalizing us₁ with
  | nil => cases us₁ <;> cases he
  | @cons e' r t u us hu hx ih =>
    rcases List.append_eq_append_iff.mp he with ⟨v, rfl, hus⟩ | ⟨v, rfl, hv⟩
    · obtain ⟨t₁, l, t₂, v₁, p, q, v₂, rfl, h₁, hl, h₂, rfl, rfl⟩ := ih hus
      exact ⟨⟨e', r⟩ :: t₁, l, t₂, u ++ v₁, p, q, v₂, rfl, .cons hu h₁, hl, h₂,
        (List.append_assoc ..).symm, rfl⟩
    · cases v with
      | nil =>
        obtain ⟨t₁, l, t₂, v₁, p, q, v₂, rfl, h₁, hl, h₂, hp, rfl⟩ :=
          ih (show us = [] ++ e :: us₂ from hv.symm)
        refine ⟨⟨e', r⟩ :: t₁, l, t₂, us₁ ++ [] ++ v₁, p, q, v₂, rfl, .cons hu h₁, hl, h₂, ?_, rfl⟩
        rw [List.append_assoc, ← hp, List.append_nil, List.append_nil]
      | cons e'' q =>
        obtain ⟨rfl, rfl⟩ := List.cons.inj hv
        exact ⟨[], ⟨e', r⟩, t, [], us₁, q, us, rfl, .nil, hu, hx, rfl, rfl⟩

end Prog

/-! ## Environments -/

section Steps

variable {W L : Type}

/-- The runs of a labelled transition relation, with the labels passed. -/
inductive Steps (step : W → L → W → Prop) : W → List L → W → Prop where
  | nil (w : W) : Steps step w [] w
  | cons {w w₁ w₂ : W} {l : L} {ls : List L} :
      step w l w₁ → Steps step w₁ ls w₂ → Steps step w (l :: ls) w₂

variable {step : W → L → W → Prop}

theorem steps_nil {w w' : W} : Steps step w [] w' ↔ w' = w := by
  constructor
  · rintro ⟨⟩; rfl
  · rintro rfl; exact .nil _

theorem steps_cons {w w' : W} {l : L} {ls : List L} :
    Steps step w (l :: ls) w' ↔ ∃ w₁, step w l w₁ ∧ Steps step w₁ ls w' := by
  constructor
  · rintro ⟨⟩; exact ⟨_, ‹_›, ‹_›⟩
  · rintro ⟨w₁, h₁, h₂⟩; exact .cons h₁ h₂

theorem steps_append {w w' : W} {l₁ l₂ : List L} :
    Steps step w (l₁ ++ l₂) w' ↔ ∃ w₁, Steps step w l₁ w₁ ∧ Steps step w₁ l₂ w' := by
  induction l₁ generalizing w with
  | nil => simp [steps_nil]
  | cons l ls ih =>
    simp only [List.cons_append, steps_cons, ih]
    constructor
    · rintro ⟨w₁, h₁, w₂, h₂, h₃⟩; exact ⟨w₂, ⟨w₁, h₁, h₂⟩, h₃⟩
    · rintro ⟨w₂, ⟨w₁, h₁, h₂⟩, h₃⟩; exact ⟨w₁, h₁, w₂, h₂, h₃⟩

/-- What every step keeps, every run keeps. -/
theorem Steps.inv {P : W → Prop} {w w' : W} {ls : List L} (h : Steps step w ls w')
    (hs : ∀ w l w', l ∈ ls → step w l w' → P w → P w') (hw : P w) : P w' := by
  induction h with
  | nil => exact hw
  | cons h₁ _ ih =>
    exact ih (fun w l w' hl => hs w l w' (List.mem_cons_of_mem _ hl))
      (hs _ _ _ List.mem_cons_self h₁ hw)

/-- Every label of a run is that of one of its steps. -/
theorem Steps.mem {w w' : W} {ls : List L} (h : Steps step w ls w') {l : L} (hl : l ∈ ls) :
    ∃ w₁ w₂, step w₁ l w₂ := by
  induction h with
  | nil => cases hl
  | cons h₁ _ ih =>
    rcases List.mem_cons.mp hl with rfl | hl
    · exact ⟨_, _, h₁⟩
    · exact ih hl

/-- A simulation takes runs to runs. -/
theorem Steps.map {V : Type} {step' : V → L → V → Prop} (f : W → V) {w w' : W} {ls : List L}
    (h : Steps step w ls w') (hs : ∀ w l w', step w l w' → step' (f w) l (f w')) :
    Steps step' (f w) ls (f w') := by
  induction h with
  | nil => exact .nil _
  | cons h₁ _ ih => exact .cons (hs _ _ _ h₁) ih

theorem Steps.mono {step' : W → L → W → Prop} {w w' : W} {ls : List L}
    (h : Steps step w ls w') (hs : ∀ w l w', step w l w' → step' w l w') :
    Steps step' w ls w' := by
  induction h with
  | nil => exact .nil _
  | cons h₁ _ ih => exact .cons (hs _ _ _ h₁) ih

/-- What an invariant adds to each step, it adds to every step of a run. -/
theorem Steps.mono_inv {P : W → Prop} {step' : W → L → W → Prop} {w w' : W} {ls : List L}
    (h : Steps step w ls w') (hs : ∀ w l w', P w → step w l w' → P w' ∧ step' w l w') (hw : P w) :
    Steps step' w ls w' := by
  induction h with
  | nil => exact .nil _
  | cons h₁ _ ih =>
    obtain ⟨hw', h₂⟩ := hs _ _ _ hw h₁
    exact .cons h₂ (ih hw')

end Steps

namespace Prog

variable {E F : Type} {R : E → Type} {S : F → Type} {α W : Type}

/-- A request `e` of a program run through `h`, as one step of the
environment that answers the requests of `h e`. -/
def lift (h : (e : E) → Prog F S (R e)) (step : W → Event S → W → Prop)
    (w : W) (l : Event R) (w' : W) : Prop :=
  ∃ u, Trace (h l.1) u l.2 ∧ Steps step w u w'

/-- A run of the expanded events is a run of the events, each as one step. -/
theorem steps_lift {h : (e : E) → Prog F S (R e)} {step : W → Event S → W → Prop}
    {w w' : W} {t : List (Event R)} :
    Steps (lift h step) w t w' ↔ ∃ u, Expand h t u ∧ Steps step w u w' := by
  induction t generalizing w with
  | nil =>
    constructor
    · intro hs; exact ⟨[], .nil, by rw [steps_nil] at hs ⊢; exact hs⟩
    · rintro ⟨u, hx, hs⟩; cases hx; rw [steps_nil] at hs ⊢; exact hs
  | cons l t ih =>
    rw [steps_cons]
    constructor
    · rintro ⟨w₁, ⟨u, hu, hs⟩, ht⟩
      obtain ⟨us, hx, hs'⟩ := ih.mp ht
      exact ⟨u ++ us, .cons hu hx, steps_append.mpr ⟨w₁, hs, hs'⟩⟩
    · rintro ⟨u, hx, hs⟩
      cases hx with
      | cons hu hx =>
        obtain ⟨w₁, hs, hs'⟩ := steps_append.mp hs
        exact ⟨w₁, ⟨_, hu, hs⟩, ih.mpr ⟨_, hx, hs'⟩⟩

/-- Runs the program against an environment that computes its answers. -/
def exec (env : W → (e : E) → R e × W) : Prog E R α → W → List (Event R) × α × W
  | ret a, w => ([], a, w)
  | call e k, w =>
    let r := env w e
    let x := (k r.1).exec env r.2
    (⟨e, r.1⟩ :: x.1, x.2)

theorem exec_trace (env : W → (e : E) → R e × W) (p : Prog E R α) (w : W) :
    Trace p (p.exec env w).1 (p.exec env w).2.1 := by
  induction p generalizing w with
  | ret a => exact .ret a
  | call e k ih => exact .call (ih _ _)

theorem exec_steps {step : W → Event R → W → Prop} {env : W → (e : E) → R e × W}
    (hs : ∀ w e, step w ⟨e, (env w e).1⟩ (env w e).2) (p : Prog E R α) (w : W) :
    Steps step w (p.exec env w).1 (p.exec env w).2.2 := by
  induction p generalizing w with
  | ret a => exact .nil w
  | call e k ih => exact .cons (hs w e) (ih _ _)

/-- Every answer is one that the environment computes. -/
theorem exec_mem {env : W → (e : E) → R e × W} {p : Prog E R α} {w : W} {l : Event R}
    (hl : l ∈ (p.exec env w).1) : ∃ w', l.2 = (env w' l.1).1 := by
  induction p generalizing w with
  | ret a => cases hl
  | call e k ih =>
    rcases List.mem_cons.mp hl with rfl | hl
    · exact ⟨w, rfl⟩
    · exact ih _ hl

theorem exec_bind {β : Type} (env : W → (e : E) → R e × W) (p : Prog E R α) (f : α → Prog E R β)
    (w : W) : (p.bind f).exec env w = ((p.exec env w).1 ++
      ((f (p.exec env w).2.1).exec env (p.exec env w).2.2).1,
      ((f (p.exec env w).2.1).exec env (p.exec env w).2.2).2) := by
  induction p generalizing w with
  | ret a => rfl
  | call e k ih =>
    rw [bind, exec, ih]
    rfl

/-- Executing the expanded program expands what executing the program gives. -/
theorem exec_interp (env : W → (e : F) → S e × W) (h : (e : E) → Prog F S (R e)) (p : Prog E R α)
    (w : W) : Expand h (p.exec (fun w e => ((h e).exec env w).2) w).1 ((p.interp h).exec env w).1 := by
  induction p generalizing w with
  | ret a => exact .nil
  | call e k ih =>
    rw [interp, exec_bind]
    exact .cons (exec_trace env (h e) w) (ih _ _)

end Prog

end DDO
