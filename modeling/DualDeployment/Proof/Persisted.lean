import DualDeployment.Proof.Passes
import DualDeployment.Proof.Refinement
import DualDeployment.Proof.TeardownTraces

/-!
# What a pass can persist

A pass over a CR updates it only by adding or taking away the finalizer
(`reconcile_updateCR`), and writes a status only with Ready False and the
inventories that it read, or at the end of a delivery (`reconcile_updateStatus`).
The persisted CR changes by these writes and by what others do, so what both keep
holds of it after any requests (`requests_persisted`) and calls (`steps_persisted`).
-/

namespace DDO.Impl

open Prog

/-- Setting a condition leaves those of other types alone. -/
theorem find_setStatusCondition_of_ne {new : Condition} {type : String} (h : new.type ≠ type)
    (cs : List Condition) : findStatusCondition type (setStatusCondition new cs) =
      findStatusCondition type cs := by
  induction cs with
  | nil => simp [setStatusCondition, findStatusCondition, h]
  | cons c cs ih =>
    rw [setStatusCondition]
    split_ifs with hc
    · simp [findStatusCondition, h, hc]
    · by_cases ht : c.type = type
      · simp [findStatusCondition, ht]
      · simpa [findStatusCondition, ht] using ih

/-- `cr'` is `cr` but for the conditions, among which Ready is False. -/
structure NotReady (cr cr' : DualDeploymentOperator) : Prop where
  conditioned : TeardownRun.Conditioned cr cr'
  ready : cr'.status.ready = some .conditionFalse

section

variable {r : Reconciler} {cr cr' : DualDeploymentOperator}

theorem NotReady.setCondition (h : NotReady cr cr') (reason message : String) :
    NotReady cr (cr'.setCondition reason message) := by
  obtain ⟨cs, rfl⟩ := h.conditioned
  exact ⟨⟨_, rfl⟩, ready_setCondition reason message⟩

/-- A condition of another type leaves Ready as it is. -/
theorem NotReady.setStatusCondition (h : NotReady cr cr') {c : Condition} (hc : c.type ≠ "Ready") :
    NotReady cr (cr'.setStatusCondition c) := by
  obtain ⟨hcond, hready⟩ := h
  obtain ⟨cs, rfl⟩ := hcond
  refine ⟨⟨_, rfl⟩, ?_⟩
  rw [Status.ready, DualDeploymentOperator.setStatusCondition, find_setStatusCondition_of_ne hc]
  exact hready

theorem notReady_markDeleting (cr : DualDeploymentOperator) : NotReady cr (markDeleting cr) :=
  ⟨⟨_, rfl⟩, ready_setCondition _ _⟩

/-- A call of a teardown of `cr`: a status write with Ready False, an update without
the finalizer, an event, a build or a delete. -/
def TeardownCall (cr : DualDeploymentOperator) : Call → Prop
  | .op (.updateStatus w) => NotReady cr w
  | .op (.updateCR w) => ∃ cr', NotReady cr cr' ∧ w = removeFinalizer cr'
  | .op (.event _) => True
  | .buildShoot _ => True
  | .delete _ _ _ => True
  | _ => False

theorem recordEvent_obeys (rec : EventRecord) :
    Obeys (TeardownCall cr) (fun _ => True) (recordEvent r rec) := by
  rw [recordEvent]
  split_ifs
  · intro t a h
    rw [trace_request.mp h]
    exact ⟨by simp [TeardownCall], trivial⟩
  · exact obeys_pure trivial

/-- A teardown that has marked the CR goes on with it. -/
theorem record_obeys {rec : EventRecord} (h : NotReady cr cr') :
    Obeys (TeardownCall cr) (NotReady cr) (recordEvent r rec >>= fun _ => pure cr') :=
  obeys_seq (recordEvent_obeys rec) fun _ _ => obeys_pure h

theorem buildForDelete_obeys (h : NotReady cr cr') :
    Obeys (TeardownCall cr) (fun y => NotReady cr y.1) (buildForDelete r cr') := by
  rw [buildForDelete]
  split_ifs
  · refine obeys_request trivial fun a => ?_
    cases a with
    | ok _ => exact obeys_pure h
    | error e => exact obeys_seq (record_obeys (h.setCondition _ _)) fun _ hcr => obeys_pure hcr
  · exact obeys_pure h

theorem deleteLoop_obeys {c : Cluster} {ownedBy : String} (l : List ResourceStatus) :
    Obeys (TeardownCall cr) (fun _ => True) (deleteLoop cr' c ownedBy l) := by
  induction l with
  | nil => exact obeys_pure trivial
  | cons rs l ih =>
    rw [deleteLoop]
    split_ifs
    · exact ih
    · exact obeys_request trivial fun _ => obeys_seq ih fun _ _ => obeys_pure trivial

theorem deleteRenders_obeys {ownedBy : String} {applier : Option Cluster} :
    Obeys (TeardownCall cr) (fun _ => True) (deleteRenders cr' ownedBy applier) := by
  have hrender : ∀ (a : Option Cluster) (st : List ResourceStatus),
      Obeys (TeardownCall cr) (fun _ => True) (deleteRender cr' ownedBy a st) := by
    intro a st
    cases a with
    | none => exact obeys_pure trivial
    | some c => exact deleteLoop_obeys _
  rw [deleteRenders]
  split_ifs
  · exact obeys_seq (hrender _ _) fun _ _ => obeys_seq (hrender _ _) fun _ _ => obeys_pure trivial
  · exact obeys_seq (hrender _ _) fun _ _ => obeys_seq (hrender _ _) fun _ _ => obeys_pure trivial

theorem finishDelete_obeys (h : NotReady cr cr') (done : Bool) (errs : List Err) :
    Obeys (TeardownCall cr) (fun _ => True) (finishDelete r cr' done errs) := by
  rw [finishDelete]
  split_ifs
  · exact obeys_request ⟨cr', h, rfl⟩ fun _ => obeys_pure trivial
  · refine obeys_seq (record_obeys (h.setStatusCondition (by simp))) fun cr₁ h₁ => ?_
    exact obeys_request h₁ fun _ => obeys_request ⟨cr₁, h₁, rfl⟩ fun _ => obeys_pure trivial
  · refine obeys_seq (record_obeys (h.setStatusCondition (by simp))) fun cr₁ h₁ => ?_
    refine obeys_request h₁ fun e => ?_
    cases e <;> exact obeys_pure trivial

theorem teardown_obeys (h : NotReady cr cr') :
    Obeys (TeardownCall cr) (fun _ => True) (teardown r cr') := by
  refine obeys_seq (buildForDelete_obeys h) fun y hy => ?_
  refine obeys_seq deleteRenders_obeys fun errs _ => ?_
  simp only
  split
  · exact obeys_pure trivial
  · exact finishDelete_obeys hy _ _

theorem reconcileDelete_obeys (r : Reconciler) (cr : DualDeploymentOperator) :
    Obeys (TeardownCall cr) (fun _ => True) (reconcileDelete r cr) := by
  have hmark := notReady_markDeleting cr
  refine obeys_request hmark fun e => ?_
  cases e with
  | none => exact teardown_obeys hmark
  | some e =>
    simp only
    split_ifs
    · exact teardown_obeys hmark
    · exact obeys_pure trivial

/-- A teardown renders nothing. -/
theorem renders_not_deleting {key : NamespacedName} {t : List CallEvent} {x : Outcome}
    (h : Trace (reconcile r key) t x) {ms : Cluster → List Manifest} (hms : Renders r t cr ms) :
    cr.deletionTimestamp = false := by
  obtain ⟨key', tp, rest, seed, shoot, he, hp, -⟩ := hms
  rcases reconcile_trace h with ⟨_, hc⟩ | ⟨cr', t', hc, ⟨-, htd⟩ | ⟨hd, -⟩⟩
  · cases hc.symm.trans he
  · obtain ⟨-, rfl⟩ := List.cons.inj (hc.symm.trans he)
    obtain ⟨b, t₁, rfl, -⟩ := trace_request_seq.mp hp
    exact ((reconcileDelete_obeys r cr' _ _ htd).1 _ List.mem_cons_self).elim
  · cases hc.symm.trans he
    exact hd

/-! ## The writes of a pass -/

/-- A pass over `cr` may update it to this. -/
inductive PassUpdate (cr : DualDeploymentOperator) : DualDeploymentOperator → Prop where
  | added : PassUpdate cr { cr with finalizers := cr.finalizers ++ [FinalizerName] }
  | removed {cr' : DualDeploymentOperator} : NotReady cr cr' → PassUpdate cr (removeFinalizer cr')

/-- A pass `t` over `cr` may write the status of this. -/
inductive PassStatus (r : Reconciler) (cr : DualDeploymentOperator) (t : List CallEvent) :
    DualDeploymentOperator → Prop where
  | notReady {cr' : DualDeploymentOperator} : NotReady cr cr' → PassStatus r cr t cr'
  | delivered {ms : Cluster → List Manifest} {d : Delivery} : cr.deletionTimestamp = false →
      Delivers r cr ms d t → PassStatus r cr t d.written

variable {key : NamespacedName} {t : List CallEvent} {x : Outcome} {w : DualDeploymentOperator}
  {e : Option Err}

theorem reconcile_updateCR (h : Trace (reconcile r key) (⟨.op (.getCR key), .ok cr⟩ :: t) x)
    (hl : ⟨.op (.updateCR w), e⟩ ∈ t) : PassUpdate cr w := by
  rcases reconcile_trace h with ⟨e, he⟩ | ⟨cr', t', he, ⟨-, hdel⟩ | ⟨-, hn⟩⟩
  · cases he
  · cases he
    obtain ⟨cr', hcr', rfl⟩ := (reconcileDelete_obeys r cr _ _ hdel).1 _ hl
    exact .removed hcr'
  · cases he
    cases reconcileNormal_trace hn with
    | addFinalizer _ _ =>
      cases List.mem_singleton.mp hl
      exact .added
    | failed _ _ hp =>
      rcases List.mem_append.mp hl with hl | hl
      · exact (pipeline_mem hp hl).elim
      · cases List.mem_singleton.mp hl
    | delivered _ hp _ =>
      rcases List.mem_append.mp hl with hl | hl
      · exact (pipeline_mem hp hl).elim
      · cases Delivery.makes_of_mem hl

theorem reconcile_updateStatus (h : Trace (reconcile r key) (⟨.op (.getCR key), .ok cr⟩ :: t) x)
    (hl : ⟨.op (.updateStatus w), e⟩ ∈ t) :
    PassStatus r cr (⟨.op (.getCR key), .ok cr⟩ :: t) w := by
  rcases reconcile_trace h with ⟨e, he⟩ | ⟨cr', t', he, ⟨-, hdel⟩ | ⟨hd, hn⟩⟩
  · cases he
  · cases he
    exact .notReady ((reconcileDelete_obeys r cr _ _ hdel).1 _ hl)
  · cases he
    cases reconcileNormal_trace hn with
    | addFinalizer _ _ => cases List.mem_singleton.mp hl
    | failed _ _ hp =>
      rcases List.mem_append.mp hl with hl | hl
      · exact (pipeline_mem hp hl).elim
      · cases List.mem_singleton.mp hl
        exact .notReady ⟨⟨_, rfl⟩, ready_setCondition _ _⟩
    | @delivered tp seed shoot d _ hp hof =>
      have hdel : Delivers r cr (perCluster seed shoot) d
          (⟨.op (.getCR key), .ok cr⟩ :: (tp ++ d.events (r.ownedBy cr) cr)) :=
        ⟨hof, key, tp, seed, shoot, rfl, hp, rfl⟩
      obtain ⟨rfl, -⟩ := hdel.written_eq (List.mem_cons_of_mem _ hl)
      exact .delivered hd hdel

/-- A pass reads the CR once. -/
theorem reconcile_reads_once (h : Trace (reconcile r key) (⟨.op (.getCR key), .ok cr⟩ :: t) x)
    {k : NamespacedName} {a : Except Err DualDeploymentOperator} : ⟨.op (.getCR k), a⟩ ∉ t := by
  intro hl
  rcases reconcile_trace h with ⟨e, he⟩ | ⟨cr', t', he, ⟨-, hdel⟩ | ⟨-, hn⟩⟩
  · cases he
  · cases he
    exact (reconcileDelete_obeys r cr _ _ hdel).1 _ hl
  · cases he
    cases reconcileNormal_trace hn with
    | addFinalizer e _ => cases List.mem_singleton.mp hl
    | failed e _ hp =>
      rcases List.mem_append.mp hl with hl | hl
      · exact pipeline_mem hp hl
      · cases List.mem_singleton.mp hl
    | delivered _ hp _ =>
      rcases List.mem_append.mp hl with hl | hl
      · exact pipeline_mem hp hl
      · cases Delivery.makes_of_mem hl

end

end DDO.Impl

namespace DDO.Spec

open Impl Prog

/-- The request leaves the CR as it is, or is an update of it or of its status. -/
def CRStep (key : NamespacedName) (w : World) (l : Event Resp) (w' : World) : Prop :=
  w'.crs key = w.crs key ∨
    (∃ cr old, l.1 = .op (.updateCR cr) ∧ cr.key = key ∧ w.crs key = some old ∧
      w'.crs key = updated old cr) ∨
    ∃ cr old, l.1 = .op (.updateStatus cr) ∧ cr.key = key ∧ w.crs key = some old ∧
      w'.crs key = some { old with status := cr.status }

/-- What others keep of the persisted CR, and every update of a pass keeps of it,
holds of it after the requests of the pass; an update may also take the CR away. -/
theorem requests_persisted {key : NamespacedName} {R : World → Event Resp → World → Prop}
    {P : Option DualDeploymentOperator → Prop} {w w' : World} {t : List CallEvent} {u : List (Event Resp)}
    (hx : Expand ssa t u) (hs : Steps R w u w')
    (hR : ∀ w l w', l ∈ u → R w l w' → P (w.crs key) → ∃ w₁, P (w₁.crs key) ∧ CRStep key w₁ l w')
    (hupdate : ∀ cr' e, ⟨.op (.updateCR cr'), e⟩ ∈ t → cr'.key = key →
      ∀ old, P (some old) → P (updated old cr'))
    (hstatus : ∀ cr' e, ⟨.op (.updateStatus cr'), e⟩ ∈ t → cr'.key = key →
      ∀ old, P (some old) → P (some { old with status := cr'.status }))
    (hw : P (w.crs key)) : P (w'.crs key) := by
  refine hs.inv (P := fun w => P (w.crs key)) (fun w₁ l w₂ hl hstep h₁ => ?_) hw
  obtain ⟨w₃, h₃, hcr⟩ := hR _ _ _ hl hstep h₁
  -- a request on the CR is the call itself
  have hcall : ∀ {o}, l.1 = .op o → ∃ e, (⟨.op o, e⟩ : CallEvent) ∈ t := by
    intro o ho
    obtain ⟨us₁, us₂, hu⟩ := List.append_of_mem hl
    obtain ⟨t₁, ⟨e, b⟩, t₂, v₁, p, q, v₂, ht, -, htr, -, -, -⟩ := hx.split hu
    obtain rfl := ssa_mem_op htr (List.mem_append_right p List.mem_cons_self) ho
    exact ⟨b, by simp [ht]⟩
  rcases hcr with he | ⟨cr', old, ho, hk, hold, he⟩ | ⟨cr', old, ho, hk, hold, he⟩
  · rw [he]
    exact h₃
  · obtain ⟨e, hmem⟩ := hcall ho
    rw [he]
    exact hupdate cr' e hmem hk old (hold ▸ h₃)
  · obtain ⟨e, hmem⟩ := hcall ho
    rw [he]
    exact hstatus cr' e hmem hk old (hold ▸ h₃)

/-- The same for the calls of a pass, with others between the requests. -/
theorem steps_persisted {key : NamespacedName} {T : Targets} {I : World → World → Prop}
    {P : Option DualDeploymentOperator → Prop} {w w' : World} {t : List CallEvent}
    (hI : ∀ w w', I w w' → P (w.crs key) → P (w'.crs key)) (hs : Steps (CallStep I T) w t w')
    (hupdate : ∀ cr' e, ⟨.op (.updateCR cr'), e⟩ ∈ t → cr'.key = key →
      ∀ old, P (some old) → P (updated old cr'))
    (hstatus : ∀ cr' e, ⟨.op (.updateStatus cr'), e⟩ ∈ t → cr'.key = key →
      ∀ old, P (some old) → P (some { old with status := cr'.status }))
    (hw : P (w.crs key)) : P (w'.crs key) := by
  obtain ⟨u, hx, hsteps⟩ := steps_lift.mp hs
  refine requests_persisted hx hsteps (fun w₁ l w₂ _ hstep h₁ => ?_) hupdate hstatus hw
  obtain ⟨w₃, hi, hstep⟩ := hstep
  exact ⟨w₃, hI _ _ hi h₁, step_crs hstep key⟩

/-- The CR a pass reads is one that is persisted. -/
theorem steps_read {key : NamespacedName} {T : Targets} {I : World → World → Prop} {w w' : World}
    {cr : DualDeploymentOperator} {t : List CallEvent}
    (hs : Steps (CallStep I T) w (⟨.op (.getCR key), .ok cr⟩ :: t) w') :
    ∃ w₁, I w w₁ ∧ w₁.crs key = some cr ∧ cr.key = key ∧ Steps (CallStep I T) w₁ t w' := by
  obtain ⟨w₁, hget, hs'⟩ := steps_cons.mp hs
  obtain ⟨w₂, hi, hstep⟩ := callStep_op hget
  cases hstep with
  | quiet hq => exact hq.elim
  | getCR hcr => exact ⟨w₁, hi, hcr, w₁.named _ _ hcr, hs'⟩

end DDO.Spec
