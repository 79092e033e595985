import DualDeployment.Proof.Passes
import DualDeployment.Spec.World

/-!
# Runs of the reconcile loop

A run is a sequence of `Reconcile` passes for one CR, each a trace whose calls
are carried out on the world (`Run`), or of passes for any CRs, each carried
out without interruption (`RunUnder`).
-/

namespace DDO.Spec

open Impl Prog

/-- The passes with these traces lead from one world to another; `between` may
happen before each pass and `during` before each request. -/
inductive Run (r : Reconciler) (key : NamespacedName) (T : Targets)
    (between during : World → World → Prop) : World → List (List CallEvent) → World → Prop where
  | start (w : World) : Run r key T between during w [] w
  | pass {w₀ w₁ w₂ w₃ : World} {ts : List (List CallEvent)} {t : List CallEvent} {x : Outcome} :
      Run r key T between during w₀ ts w₁ → between w₁ w₂ → Trace (reconcile r key) t x →
      Steps (CallStep during T) w₂ t w₃ → Run r key T between during w₀ (ts ++ [t]) w₃

/-- A run from `w₀` gets to `w` and there makes the call `l`. -/
def Issues (r : Reconciler) (key : NamespacedName) (T : Targets)
    (between during : World → World → Prop) (w₀ w : World) (l : CallEvent) : Prop :=
  ∃ ts w₁ w₂ t x t₁ t₂, Run r key T between during w₀ ts w₁ ∧ between w₁ w₂ ∧
    Trace (reconcile r key) t x ∧ t = t₁ ++ l :: t₂ ∧ Steps (CallStep during T) w₂ t₁ w

/-- A pass of `Reconcile` for some CR against servers that take these steps, with
its calls, the requests they make, and nobody else touching the world meanwhile. -/
structure PassUnder (step : Targets → World → Event Resp → World → Prop) (r : Reconciler) where
  key : NamespacedName
  targets : Targets
  start : World
  stop : World
  calls : List CallEvent
  requests : List (Event Resp)
  outcome : Outcome
  trace : Trace (reconcile r key) calls outcome
  expand : Expand ssa calls requests
  steps : Steps (step targets) start requests stop

/-- A pass against some servers is one against servers that can do more. -/
def PassUnder.mono {step step' : Targets → World → Event Resp → World → Prop} {r : Reconciler}
    (k : PassUnder step r) (h : ∀ T w l w', step T w l w' → step' T w l w') : PassUnder step' r where
  key := k.key
  targets := k.targets
  start := k.start
  stop := k.stop
  calls := k.calls
  requests := k.requests
  outcome := k.outcome
  trace := k.trace
  expand := k.expand
  steps := k.steps.mono (h k.targets)

/-- The passes lead from one world to another, and `between` may happen before
each. -/
inductive RunUnder (step : Targets → World → Event Resp → World → Prop) (r : Reconciler)
    (between : World → World → Prop) : World → List (PassUnder step r) → World → Prop where
  | start (w : World) : RunUnder step r between w [] w
  | pass {w₀ w : World} {ks : List (PassUnder step r)} {k : PassUnder step r} :
      RunUnder step r between w₀ ks w → between w k.start →
      RunUnder step r between w₀ (ks ++ [k]) k.stop

/-- The owned-by value of the CR with this key. -/
def ownedByKey (r : Reconciler) (key : NamespacedName) : String :=
  ownedByValue r.sha256Hex key.ns key.name

theorem ownedBy_eq {r : Reconciler} {key : NamespacedName} {cr : DualDeploymentOperator}
    (h : cr.key = key) : r.ownedBy cr = ownedByKey r key := by
  subst h
  rfl

end DDO.Spec
