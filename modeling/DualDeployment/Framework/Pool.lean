import DualDeployment.Framework.Prog
import Mathlib.Tactic.SplitIfs

/-!
# Programs run side by side

Calls `c : C`, each carried out by a program `prog c`, under way at the same
time and sharing one environment. Their requests interleave in any order, and
a slot may start a call at any time, giving up the one it was in. A call under
way (`Running`) knows its own requests so far, and what others have asked for
since the last of them.

* `Step.inv`: an invariant of single calls that survives the call's own
  requests and those of others is kept by every move (`Step.inv_if`: by every
  move that meets a condition);
* `play` runs a schedule against an environment that computes its answers,
  which gives a run (`play_steps`).
-/

namespace DDO

variable {F W C ι : Type} {S : F → Type} {A : C → Type}

namespace Prog

variable {α : Type}

/-- With the answers of `t`, `p` has made the requests of `t` and goes on as `q`. -/
inductive Reaches : Prog F S α → List (Event S) → Prog F S α → Prop where
  | refl (p : Prog F S α) : Reaches p [] p
  | call {e : F} {k : S e → Prog F S α} {r : S e} {t : List (Event S)} {q : Prog F S α} :
      Reaches (k r) t q → Reaches (.call e k) (⟨e, r⟩ :: t) q

theorem Reaches.next {p : Prog F S α} {t : List (Event S)} {e : F} {k : S e → Prog F S α}
    (h : Reaches p t (.call e k)) (r : S e) : Reaches p (t ++ [⟨e, r⟩]) (k r) := by
  generalize hq : (.call e k : Prog F S α) = q at h
  induction h with
  | refl p =>
    cases hq
    exact .call (.refl _)
  | call _ ih => exact .call (ih hq)

theorem Reaches.trace {p q : Prog F S α} {t s : List (Event S)} {a : α} (h : Reaches p t q)
    (hq : Trace q s a) : Trace p (t ++ s) a := by
  induction h with
  | refl p => exact hq
  | call _ ih => exact .call (ih hq)

theorem exists_trace [∀ e, Nonempty (S e)] (p : Prog F S α) : ∃ t a, Trace p t a := by
  induction p with
  | ret a => exact ⟨[], a, .ret a⟩
  | call e k ih =>
    obtain ⟨r⟩ := ‹∀ e, Nonempty (S e)› e
    obtain ⟨t, a, h⟩ := ih r
    exact ⟨⟨e, r⟩ :: t, a, .call h⟩

end Prog

open Prog

/-- A call under way: its requests so far, how it goes on, and the requests of
other calls since its last one. -/
structure Running (prog : (c : C) → Prog F S (A c)) where
  call : C
  past : List (Event S)
  rest : Prog F S (A call)
  reached : Reaches (prog call) past rest
  since : List (C × Event S)

namespace Running

variable {prog : (c : C) → Prog F S (A c)}

def start (prog : (c : C) → Prog F S (A c)) (c : C) : Running prog :=
  ⟨c, [], prog c, .refl _, []⟩

/-- The call gets an answer. -/
def answered (x : Running prog) {e : F} {k : S e → Prog F S (A x.call)} (h : x.rest = .call e k)
    (r : S e) : Running prog :=
  ⟨x.call, x.past ++ [⟨e, r⟩], k r, (h ▸ x.reached).next r, []⟩

/-- The next request of the call stands in a whole run of it. -/
theorem exists_trace [∀ e, Nonempty (S e)] (x : Running prog) {e : F}
    {k : S e → Prog F S (A x.call)} (h : x.rest = .call e k) (r : S e) :
    ∃ s a, Trace (prog x.call) (x.past ++ ⟨e, r⟩ :: s) a := by
  obtain ⟨s, a, hs⟩ := Prog.exists_trace (k r)
  exact ⟨s, a, x.reached.trace (h ▸ .call hs)⟩

/-- Another call makes a request. -/
def saw (x : Running prog) (c : C) (l : Event S) : Running prog :=
  { x with since := x.since ++ [(c, l)] }

end Running

/-- The calls under way in each slot, and the state of the environment. -/
structure Pool (ι : Type) (prog : (c : C) → Prog F S (A c)) (W : Type) where
  running : ι → Option (Running prog)
  world : W

/-- A slot starts a call, or its call makes a request and gets its answer. -/
inductive Move (ι C : Type) (S : F → Type) where
  | start (i : ι) (c : C)
  | request (i : ι) (l : Event S)

namespace Pool

variable {prog : (c : C) → Prog F S (A c)}

/-- Nothing is under way. -/
def idle (w : W) : Pool ι prog W := ⟨fun _ => none, w⟩

/-- Every call under way satisfies `I`. -/
def All (I : Running prog → W → Prop) (s : Pool ι prog W) : Prop :=
  ∀ i x, s.running i = some x → I x s.world

theorem all_idle (I : Running prog → W → Prop) (w : W) : All I (idle w : Pool ι prog W) := by
  intro i x hx
  cases hx

variable [DecidableEq ι]

def start (s : Pool ι prog W) (i : ι) (c : C) : Pool ι prog W :=
  { s with running := fun j => if j = i then some (.start prog c) else s.running j }

/-- The call of slot `i` goes on as `x`, after its request `l`. -/
def answered (s : Pool ι prog W) (i : ι) (x : Running prog) (l : Event S) (w : W) : Pool ι prog W where
  running j := if j = i then some x else (s.running j).map (·.saw x.call l)
  world := w

/-- The moves of a pool that starts calls in `P`, when an environment answers
the requests of a call `c` by `step c`. -/
inductive Step (P : C → Prop) (step : C → W → Event S → W → Prop) :
    Pool ι prog W → Move ι C S → Pool ι prog W → Prop where
  | start {s : Pool ι prog W} {i : ι} {c : C} : P c → Step P step s (.start i c) (s.start i c)
  | request {s : Pool ι prog W} {i : ι} {x : Running prog} {e : F} {k : S e → Prog F S (A x.call)}
      {r : S e} {w : W} : s.running i = some x → (h : x.rest = .call e k) →
      step x.call s.world ⟨e, r⟩ w →
      Step P step s (.request i ⟨e, r⟩) (s.answered i (x.answered h r) ⟨e, r⟩ w)

variable {P : C → Prop} {step : C → W → Event S → W → Prop}

/-- What starting a call, its own requests, if they satisfy `Q`, and the requests
of the others keep, every move keeps. -/
theorem Step.inv_if {I : Running prog → W → Prop} {Q : Running prog → W → Event S → Prop}
    (hstart : ∀ c w, P c → I (.start prog c) w)
    (hown : ∀ (x : Running prog) {e k} (h : x.rest = .call e k) r {w w'}, I x w → Q x w ⟨e, r⟩ →
      step x.call w ⟨e, r⟩ w' → I (x.answered h r) w')
    (hother : ∀ (x y : Running prog) {e k}, y.rest = .call e k → ∀ r {w w'}, I x w → I y w →
      step y.call w ⟨e, r⟩ w' → I (x.saw y.call ⟨e, r⟩) w')
    {s s' : Pool ι prog W} {m : Move ι C S} (h : Step P step s m s')
    (hq : ∀ i l, m = .request i l → ∀ x ∈ s.running i, Q x s.world l) (hs : All I s) : All I s' := by
  cases h with
  | @start i c hc =>
    intro j x hx
    simp only [Pool.start] at hx
    split_ifs at hx
    · cases hx
      exact hstart c _ hc
    · exact hs j x hx
  | @request i y e k r w hy hr hstep =>
    intro j x hx
    simp only [answered] at hx
    split_ifs at hx
    · cases hx
      exact hown y hr r (hs i y hy) (hq i _ rfl y hy) hstep
    · obtain ⟨x, hj, rfl⟩ := Option.map_eq_some_iff.mp hx
      exact hother x y hr r (hs j x hj) (hs i y hy) hstep

/-- What starting a call, its own requests and the requests of the others keep,
every move keeps. -/
theorem Step.inv {I : Running prog → W → Prop} (hstart : ∀ c w, P c → I (.start prog c) w)
    (hown : ∀ (x : Running prog) {e k} (h : x.rest = .call e k) r {w w'}, I x w →
      step x.call w ⟨e, r⟩ w' → I (x.answered h r) w')
    (hother : ∀ (x y : Running prog) {e k}, y.rest = .call e k → ∀ r {w w'}, I x w → I y w →
      step y.call w ⟨e, r⟩ w' → I (x.saw y.call ⟨e, r⟩) w')
    {s s' : Pool ι prog W} {m : Move ι C S} (h : Step P step s m s') (hs : All I s) : All I s' :=
  h.inv_if (Q := fun _ _ _ => True) hstart (fun x _ _ h r _ _ hx _ hstep => hown x h r hx hstep) hother
    (fun _ _ _ _ _ => trivial) hs

/-! ## Schedules -/

/-- What a scheduler picks: a call to start, or a slot to make its next request. -/
inductive Turn (ι C : Type) where
  | start (i : ι) (c : C)
  | next (i : ι)

/-- The call that a turn starts is in `P`. -/
def Turn.Starts (P : C → Prop) : Turn ι C → Prop
  | .start _ c => P c
  | .next _ => True

instance [DecidablePred P] : DecidablePred (Turn.Starts P : Turn ι C → Prop)
  | .start _ c => inferInstanceAs (Decidable (P c))
  | .next _ => .isTrue trivial

/-- One turn; a slot without a request to make does nothing. -/
def turn (env : C → W → (e : F) → S e × W) (s : Pool ι prog W) :
    Turn ι C → List (Move ι C S) × Pool ι prog W
  | .start i c => ([.start i c], s.start i c)
  | .next i =>
    match s.running i with
    | none => ([], s)
    | some x =>
      match h : x.rest with
      | .ret _ => ([], s)
      | .call e _ =>
        let r := env x.call s.world e
        ([.request i ⟨e, r.1⟩], s.answered i (x.answered h r.1) ⟨e, r.1⟩ r.2)

/-- The moves of a schedule, and the pool after it. -/
def play (env : C → W → (e : F) → S e × W) (s : Pool ι prog W) :
    List (Turn ι C) → List (Move ι C S) × Pool ι prog W
  | [] => ([], s)
  | t :: ts =>
    let x := s.turn env t
    let y := x.2.play env ts
    (x.1 ++ y.1, y.2)

/-- Every move of a schedule passes the check. -/
def every (env : C → W → (e : F) → S e × W) (q : Pool ι prog W → Move ι C S → Bool)
    (s : Pool ι prog W) : List (Turn ι C) → Bool
  | [] => true
  | t :: ts => (s.turn env t).1.all (q s) && (s.turn env t).2.every env q ts

theorem turn_steps {env : C → W → (e : F) → S e × W}
    (he : ∀ c w e, step c w ⟨e, (env c w e).1⟩ (env c w e).2) {t : Turn ι C} (ht : t.Starts P)
    {q : Pool ι prog W → Move ι C S → Bool} {s : Pool ι prog W} (hq : (s.turn env t).1.all (q s)) :
    Steps (fun s m s' => Step P step s m s' ∧ q s m) s (s.turn env t).1 (s.turn env t).2 := by
  cases t with
  | start i c => exact .cons ⟨.start ht, by simpa [turn] using hq⟩ (.nil _)
  | next i =>
    rw [turn] at hq ⊢
    split at hq
    · exact .nil _
    · split at hq
      · exact .nil _
      · exact .cons ⟨.request ‹_› ‹_› (he ..), by simpa using hq⟩ (.nil _)

/-- Playing a schedule is a run of the pool. -/
theorem play_steps {env : C → W → (e : F) → S e × W}
    (he : ∀ c w e, step c w ⟨e, (env c w e).1⟩ (env c w e).2) {ts : List (Turn ι C)}
    (ht : ∀ t ∈ ts, t.Starts P) {q : Pool ι prog W → Move ι C S → Bool} {s : Pool ι prog W}
    (hq : s.every env q ts) :
    Steps (fun s m s' => Step P step s m s' ∧ q s m) s (s.play env ts).1 (s.play env ts).2 := by
  induction ts generalizing s with
  | nil => exact .nil s
  | cons t ts ih =>
    obtain ⟨h₁, h₂⟩ := Bool.and_eq_true_iff.mp hq
    exact steps_append.mpr ⟨_, turn_steps he (ht t List.mem_cons_self) h₁,
      ih (fun t' ht' => ht t' (List.mem_cons_of_mem _ ht')) h₂⟩

end Pool

end DDO
