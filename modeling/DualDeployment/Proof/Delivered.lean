import DualDeployment.Proof.Converged
import DualDeployment.Proof.Desired

/-!
# Clusters with what a CR asks for

Passes of the whole operator for one CR, one after another, on the API servers
and through the render cache (`PassRun`). Each is a run of the reconciler's calls
(`expand_callSteps`) whose renders are what the CR asks for (`renders_desired`), so
what a successful pass of the reconciler reaches after sound ones is that
(`converges_desired`).
-/

namespace DDO.Spec

open Impl Prog

section

variable (M : Manager) (R : Remotes) (K : DualDeploymentOperator → Prop)

/-- A deletion is not forced, and the status of a delivery is written. -/
structure SoundRequests (u : List (Event (Both Resp FetchAnswer))) : Prop where
  unforced : ∀ key cr, ⟨.inl (.op (.getCR key)), .ok cr⟩ ∈ u → cr.deletionTimestamp = true →
    cr.forceDelete = false
  written : ∀ key cr, ⟨.inl (.op (.getCR key)), .ok cr⟩ ∈ u → cr.deletionTimestamp = false →
    ∀ cr' e, ⟨.inl (.op (.updateStatus cr')), e⟩ ∈ u → e = none

end

section

variable {M : Manager} {R : Remotes} {K : DualDeploymentOperator → Prop} {I : World → World → Prop}
  {T : Targets} {w w' : World} {u : List (Event (Both Resp FetchAnswer))} {t : List CallEvent}

/-- A request of the reconciler on its CR is made as it is. -/
theorem expand_op (hx : Expand M.carry t u) {o : Op} {a : OpAnswer o} (ho : ¬IsRendering (.op o))
    (hl : ⟨.op o, a⟩ ∈ t) : ⟨.inl (.op o), a⟩ ∈ u := by
  obtain ⟨v, hv, hin⟩ := hx.mem hl
  rw [Manager.carry_other ho] at hv
  obtain ⟨t', ht', rfl⟩ := trace_inl.mp hv
  obtain rfl := trace_request.mp ht'
  exact hin _ List.mem_cons_self

/-- The renders of a pass that is grounded are what its CR asks for. -/
theorem renders_desired (hx : Expand M.carry t u) (hu : Grounded M R K u) {cr : DualDeploymentOperator}
    {ms : Cluster → List Manifest} (h : Renders M.reconciler t cr ms) : K cr ∧ desired M R cr = some ms := by
  obtain ⟨key, tp, rest, seed, shoot, rfl, hp, rfl⟩ := h
  obtain ⟨-, hk⟩ := hu.known hx List.mem_cons_self
  exact ⟨hk, pipeline_desired hp hx (fun l hl => by simp [hl]) hu hk⟩

/-- What a pass is asked for is what its calls are. -/
theorem SoundRequests.pass (h : SoundRequests u) (hx : Expand M.carry t u) (hu : Grounded M R K u)
    (hwf : ∀ cr ms, K cr → desired M R cr = some ms → ∀ c, WellFormedRender (ms c)) :
    SoundPass M.reconciler t where
  unforced key cr hl := h.unforced key cr (expand_op hx id hl)
  written key cr hl hd cr' e he := h.written key cr (expand_op hx id hl) hd cr' e (expand_op hx id he)
  renders cr ms hr := by
    obtain ⟨hk, hd⟩ := renders_desired hx hu hr
    exact hwf cr ms hk hd

section

variable {key : NamespacedName}

end

end

/-! ## A branch that is delivered -/

/-- What `SoundRequests` asks of one request of a delivery. -/
def soundCheck : Event (Both Resp FetchAnswer) → Bool
  | ⟨.inl (.op (.getCR _)), .ok cr⟩ => !cr.deletionTimestamp
  | ⟨.inl (.op (.updateStatus _)), e⟩ => e.isNone
  | _ => true

theorem SoundRequests.of_check {u : List (Event (Both Resp FetchAnswer))} (h : u.all soundCheck = true) :
    SoundRequests u := by
  rw [List.all_eq_true] at h
  refine ⟨fun key cr hl hd => ?_, fun key cr hl hd cr' e he => ?_⟩
  · have hcheck : (!cr.deletionTimestamp) = true := h _ hl
    rw [hd] at hcheck
    cases hcheck
  · have hcheck : e.isNone = true := h _ he
    exact Option.isNone_iff_eq_none.mp hcheck

end DDO.Spec
