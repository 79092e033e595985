import DualDeployment.Proof.Applier
import DualDeployment.Spec.Ledger

/-!
# The calls refine the steps of the ledger

Each call of the reconciler, carried out by the requests of the
server-side-apply applier while others do not write the CR's owned-by value,
is a step of its ledger (`callStep_ledger`), and a run of the operator is a pass
of `Reconcile` with its calls as steps (`operator_iff`).
-/

namespace DDO.Spec

open Impl Prog

/-! ## What one request can do -/

section Requests

variable {T : Targets} {w w' : World} {l : Event Resp}

/-- A request changes a live object only as a `patch` or a `delete` of it. -/
theorem step_live (h : Step T w l w') (c : Cluster) (r : ObjRef) :
    w'.live T c r = w.live T c r ∨
      (∃ u v, l.1 = .patch c u ∧ u.ref = r ∧ Accepted u v ∧ w'.live T c r = some v) ∨
      ∃ u, l.1 = .delete c u ∧ u.ref = r ∧ w'.live T c r = none := by
  have hpatch : ∀ {c' u v}, Accepted u v → World.SetObject T c' u.ref (some v) w w' →
      w'.live T c r = w.live T c r ∨
        ∃ u' v, Req.patch c' u = .patch c u' ∧ u'.ref = r ∧ Accepted u' v ∧ w'.live T c r = some v := by
    intro c' u v ha hs
    by_cases he : c = c' ∧ r = u.ref
    · obtain ⟨rfl, rfl⟩ := he
      exact Or.inr ⟨u, v, rfl, rfl, ha, hs.live_self⟩
    · exact Or.inl (hs.live_of_ne he)
  have hdelete : ∀ {c' u}, World.SetObject T c' u.ref none w w' →
      w'.live T c r = w.live T c r ∨
        ∃ u', Req.delete c' u = .delete c u' ∧ u'.ref = r ∧ w'.live T c r = none := by
    intro c' u hs
    by_cases he : c = c' ∧ r = u.ref
    · obtain ⟨rfl, rfl⟩ := he
      exact Or.inr ⟨u, rfl, rfl, hs.live_self⟩
    · exact Or.inl (hs.live_of_ne he)
  cases h with
  | updateCR _ hs => exact Or.inl (hs.live T c r)
  | updateCRFailed h =>
    rcases h with rfl | ⟨_, _, hs⟩
    · exact Or.inl rfl
    · exact Or.inl (hs.live T c r)
  | updateStatus _ hs => exact Or.inl (hs.live T c r)
  | updateStatusFailed h =>
    rcases h with rfl | ⟨_, _, hs⟩
    · exact Or.inl rfl
    · exact Or.inl (hs.live T c r)
  | patch ha hs => exact (hpatch ha hs).imp_right Or.inl
  | patchFailed h =>
    rcases h with rfl | ⟨v, ha, hs⟩
    · exact Or.inl rfl
    · exact (hpatch ha hs).imp_right Or.inl
  | delete hs => exact (hdelete hs).imp_right Or.inr
  | deleteFailed h =>
    rcases h with ⟨rfl, _⟩ | hs
    · exact Or.inl rfl
    · exact (hdelete hs).imp_right Or.inr
  | _ => exact Or.inl rfl

/-- A request changes a persisted CR only as an update of it or of its status. -/
theorem step_crs (h : Step T w l w') (k : NamespacedName) :
    w'.crs k = w.crs k ∨
      (∃ cr old, l.1 = .op (.updateCR cr) ∧ cr.key = k ∧ w.crs k = some old ∧
        w'.crs k = updated old cr) ∨
      ∃ cr old, l.1 = .op (.updateStatus cr) ∧ cr.key = k ∧ w.crs k = some old ∧
        w'.crs k = some { old with status := cr.status } := by
  have hset : ∀ {k' v}, World.SetCR k' v w w' → w'.crs k = w.crs k ∨ k = k' ∧ w'.crs k = v := by
    intro k' v hs
    rw [hs.crs]
    split_ifs with hk
    · exact Or.inr ⟨hk, rfl⟩
    · exact Or.inl rfl
  have hobj : ∀ {c r v}, World.SetObject T c r v w w' → w'.crs k = w.crs k := fun hs => by
    rw [hs.crs]
  cases h with
  | updateCR ho hs =>
    rcases hset hs with h | ⟨rfl, h⟩
    · exact Or.inl h
    · exact Or.inr (Or.inl ⟨_, _, rfl, rfl, ho, h⟩)
  | updateCRFailed h =>
    rcases h with rfl | ⟨_, ho, hs⟩
    · exact Or.inl rfl
    · rcases hset hs with h | ⟨rfl, h⟩
      · exact Or.inl h
      · exact Or.inr (Or.inl ⟨_, _, rfl, rfl, ho, h⟩)
  | updateStatus ho hs =>
    rcases hset hs with h | ⟨rfl, h⟩
    · exact Or.inl h
    · exact Or.inr (Or.inr ⟨_, _, rfl, rfl, ho, h⟩)
  | updateStatusFailed h =>
    rcases h with rfl | ⟨_, ho, hs⟩
    · exact Or.inl rfl
    · rcases hset hs with h | ⟨rfl, h⟩
      · exact Or.inl h
      · exact Or.inr (Or.inr ⟨_, _, rfl, rfl, ho, h⟩)
  | patch _ hs => exact Or.inl (hobj hs)
  | patchFailed h =>
    rcases h with rfl | ⟨_, _, hs⟩
    · exact Or.inl rfl
    · exact Or.inl (hobj hs)
  | delete hs => exact Or.inl (hobj hs)
  | deleteFailed h =>
    rcases h with ⟨rfl, _⟩ | hs
    · exact Or.inl rfl
    · exact Or.inl (hobj hs)
  | _ => exact Or.inl rfl

end Requests

/-! ## The operator and its calls -/

/-- What the operator can do by its requests is what a pass of `Reconcile` can do
when each of its calls is a step. -/
theorem operator_iff {T : Targets} {I : World → World → Prop} {w w' : World} {r : Reconciler}
    {key : NamespacedName} {x : Outcome} :
    (∃ u, Trace (Operator.reconcile r key) u x ∧ Steps (StepAfter I T) w u w') ↔
      ∃ t, Trace (reconcile r key) t x ∧ Steps (CallStep I T) w t w' := by
  constructor
  · rintro ⟨u, hu, hs⟩
    obtain ⟨t, ht, hx⟩ := trace_interp.mp hu
    exact ⟨t, ht, steps_lift.mpr ⟨u, hx, hs⟩⟩
  · rintro ⟨t, ht, hs⟩
    obtain ⟨u, hx, hs⟩ := steps_lift.mp hs
    exact ⟨u, trace_interp.mpr ⟨t, ht, hx⟩, hs⟩

/-! ## What one call can do -/

section Calls

variable {T : Targets} {ownedBy : String} {key : NamespacedName} {I : World → World → Prop}
  {w w' : World}

/-- Requests add an object only by a `patch` of it. -/
theorem steps_owned (hI : ∀ w w', I w w' → Foreign T ownedBy key w w') {u : List (Event Resp)}
    (h : Steps (StepAfter I T) w u w') {c : Cluster} {r : ObjRef} (ho : w'.Owned T ownedBy c r) :
    w.Owned T ownedBy c r ∨ ∃ l ∈ u, ∃ v, l.1 = .patch c v ∧ v.ref = r := by
  induction h with
  | nil => exact Or.inl ho
  | @cons w₀ w₁ _ l ls h₁ _ ih =>
    rcases ih ho with ⟨v, hv, hvo⟩ | ⟨l', hl, hp⟩
    · obtain ⟨w₂, hi, hs⟩ := h₁
      rcases step_live hs c r with he | ⟨v', _, hl, hr, -⟩ | ⟨_, _, _, hn⟩
      · exact Or.inl ((hI _ _ hi).owned c r ⟨v, he ▸ hv, hvo⟩)
      · exact Or.inr ⟨l, List.mem_cons_self, v', hl, hr⟩
      · rw [hv] at hn
        cases hn
    · exact Or.inr ⟨l', List.mem_cons_of_mem _ hl, hp⟩

/-- A call of the reconciler's own is one request. -/
theorem callStep_op {o : Op} {a : OpAnswer o} (h : CallStep I T w ⟨.op o, a⟩ w') :
    StepAfter I T w ⟨.op o, a⟩ w' := by
  obtain ⟨u, hu, hs⟩ := h
  rw [trace_request.mp hu] at hs
  obtain ⟨w₁, hstep, hnil⟩ := steps_cons.mp hs
  rw [steps_nil.mp hnil]
  exact hstep

/-- The request keeps `f` of the persisted CR. -/
def KeepsCR {β : Type} (key : NamespacedName) (f : DualDeploymentOperator → β) : Call → Prop
  | .op (.updateCR cr) => cr.key = key → ∀ old, (updated old cr).map f = some (f old)
  | .op (.updateStatus cr) => cr.key = key → ∀ old, f { old with status := cr.status } = f old
  | _ => True

/-- What others and the call keep of the persisted CR stays. -/
theorem callStep_crs {β : Type} {f : DualDeploymentOperator → β}
    (hI : ∀ w w', I w w' → (w'.crs key).map f = (w.crs key).map f) {l : CallEvent}
    (h : CallStep I T w l w') (hk : KeepsCR key f l.1) :
    (w'.crs key).map f = (w.crs key).map f := by
  obtain ⟨u, hu, hs⟩ := h
  have hop : ∀ l' ∈ u, ∀ o, l'.1 = .op o → KeepsCR key f (.op o) := fun l' hl' o ho => by
    rw [← ssa_mem_op hu hl' ho]
    exact hk
  clear hu
  induction hs with
  | nil => rfl
  | @cons w₀ w₁ _ l' ls h₁ _ ih =>
    obtain ⟨w₂, hi, hs⟩ := h₁
    rw [ih fun l hl => hop l (List.mem_cons_of_mem _ hl), ← hI _ _ hi]
    rcases step_crs hs key with he | ⟨cr, old, hl, hkey, hold, he⟩ | ⟨cr, old, hl, hkey, hold, he⟩
    · rw [he]
    · rw [he, hold]
      exact hop _ List.mem_cons_self _ hl hkey old
    · rw [he, hold, Option.map_some, Option.map_some, hop _ List.mem_cons_self _ hl hkey old]

/-- A `get` tells whether the object is owned. -/
theorem get_owned {c : Cluster} {u : Unstructured} {x : Except Err Unstructured}
    (h : Step T w ⟨getOf c u, x⟩ w') :
    (∀ e, x = .error e → e.isNotFound ∨ e.isNoMatch → ¬w'.Owned T ownedBy c u.ref) ∧
      ∀ live, x = .ok live → live.ownedBy ≠ ownedBy → ¬w'.Owned T ownedBy c u.ref := by
  cases h with
  | get hv hu =>
    refine ⟨by simp, ?_⟩
    rintro _ ⟨⟩ hne ⟨v', hv', ho⟩
    cases hv.symm.trans hv'
    exact hne (hu.trans ho)
  | getFailed hn =>
    refine ⟨?_, by simp⟩
    rintro _ ⟨⟩ hg ⟨v, hv, -⟩
    cases (hn hg).symm.trans hv

/-- A `Delete` that returns `nil` leaves an object that is not owned. -/
theorem deleteRun_owned {c : Cluster} {u : Unstructured} {t : List (Event Resp)}
    (hr : DeleteRun c u ownedBy t none) (h : Steps (StepAfter I T) w t w') :
    ¬w'.Owned T ownedBy c u.ref := by
  cases hr with
  | gone he =>
    obtain ⟨w₁, ⟨w₂, -, hs⟩, hnil⟩ := steps_cons.mp h
    rw [steps_nil.mp hnil]
    exact (get_owned hs).1 _ rfl (Or.inl he)
  | foreign ho =>
    obtain ⟨w₁, ⟨w₂, -, hs⟩, hnil⟩ := steps_cons.mp h
    rw [steps_nil.mp hnil]
    exact (get_owned hs).2 _ rfl ho
  | deleted _ ha =>
    obtain ⟨w₁, -, h₁⟩ := steps_cons.mp h
    obtain ⟨w₂, ⟨w₃, -, hs⟩, hnil⟩ := steps_cons.mp h₁
    rw [steps_nil.mp hnil]
    have hnone : w₂.live T c u.ref = none := by
      cases hs with
      | delete hs => exact hs.live_self
      | deleteFailed hs =>
        rcases hs with ⟨rfl, hn⟩ | hs
        · exact hn (ha _ rfl)
        · exact hs.live_self
    rintro ⟨v, hv, -⟩
    rw [hnone] at hv
    cases hv

/-- Requests that neither patch nor delete an object leave it as it is. -/
theorem steps_live {c : Cluster} {r : ObjRef}
    (hI : ∀ w w', I w w' → w'.live T c r = w.live T c r) {u : List (Event Resp)}
    (h : Steps (StepAfter I T) w u w')
    (hu : ∀ l ∈ u, ∀ v, l.1 = .patch c v ∨ l.1 = .delete c v → v.ref ≠ r) :
    w'.live T c r = w.live T c r := by
  refine h.inv (P := fun w₁ => w₁.live T c r = w.live T c r) (fun w₁ l w₂ hl hs h₁ => ?_) rfl
  obtain ⟨w₃, hi, hstep⟩ := hs
  rcases step_live hstep c r with he | ⟨v, _, hv, hr, -⟩ | ⟨v, hv, hr, -⟩
  · rw [he, hI _ _ hi, h₁]
  · exact absurd hr (hu l hl v (Or.inl hv))
  · exact absurd hr (hu l hl v (Or.inr hv))

/-- Reads leave an object as it is. -/
theorem reads_live {c : Cluster} {r : ObjRef}
    (hI : ∀ w w', I w w' → w'.live T c r = w.live T c r) {u : List (Event Resp)}
    (h : Steps (StepAfter I T) w u w') (hu : ∀ l ∈ u, ∃ v, l.1 = getOf c v) :
    w'.live T c r = w.live T c r :=
  steps_live hI h fun l hl v hv => by
    obtain ⟨v', he⟩ := hu l hl
    rcases hv with hv | hv <;> cases he.symm.trans hv

theorem get_keeps {c : Cluster} {r : ObjRef} (hI : ∀ w w', I w w' → w'.live T c r = w.live T c r)
    {u : Unstructured} {x : Except Err Unstructured}
    (h : Steps (StepAfter I T) w [⟨getOf c u, x⟩] w') : w'.live T c r = w.live T c r :=
  reads_live hI h fun l hl => ⟨u, by rw [List.mem_singleton.mp hl]⟩

/-- A `Delete` changes only its object, and that only by removing it while it
is owned. -/
theorem deleteRun_live {c : Cluster} {u : Unstructured} {t : List (Event Resp)} {a : Option Err}
    (hI : ∀ w w', I w w' → w'.live T c u.ref = w.live T c u.ref)
    (hr : DeleteRun c u ownedBy t a) (h : Steps (StepAfter I T) w t w') :
    w'.live T c u.ref = w.live T c u.ref ∨
      w.Owned T ownedBy c u.ref ∧ w'.live T c u.ref = none := by
  -- the label that was read is that of the object the delete finds
  have hdel : ∀ {live b}, live.ownedBy = ownedBy →
      Steps (StepAfter I T) w [⟨getOf c u, .ok live⟩, ⟨.delete c u, b⟩] w' →
      w'.live T c u.ref = w.live T c u.ref ∨ w.Owned T ownedBy c u.ref ∧ w'.live T c u.ref = none := by
    intro live b ho h
    obtain ⟨w₁, ⟨w₂, hi, hs⟩, h₁⟩ := steps_cons.mp h
    obtain ⟨w₃, ⟨w₄, hi', hs'⟩, hnil⟩ := steps_cons.mp h₁
    obtain rfl := steps_nil.mp hnil
    cases hs with
    | get hv hlabel =>
      rcases step_live hs' c u.ref with he | ⟨_, _, hp, -⟩ | ⟨_, _, _, hn⟩
      · exact Or.inl (by rw [he, hI _ _ hi', hI _ _ hi])
      · cases hp
      · exact Or.inr ⟨⟨_, (hI _ _ hi).symm.trans hv, hlabel.symm.trans ho⟩, hn⟩
  cases hr with
  | gone _ => exact Or.inl (get_keeps hI h)
  | unread _ => exact Or.inl (get_keeps hI h)
  | foreign _ => exact Or.inl (get_keeps hI h)
  | deleted ho _ => exact hdel ho h
  | failed ho _ => exact hdel ho h

/-- An `Apply` leaves its object as it is, and then it fails, or with the label
it was given. -/
theorem applyRun_live {c : Cluster} {u : Unstructured} {t : List (Event Resp)} {a : ApplyAnswer}
    (hI : ∀ w w', I w w' → w'.live T c u.ref = w.live T c u.ref)
    (hr : ApplyRun c u ownedBy t a) (h : Steps (StepAfter I T) w t w') :
    w'.live T c u.ref = w.live T c u.ref ∧ a.err ≠ none ∨
      ∃ v, w'.live T c u.ref = some v ∧ v.ownedBy = u.ownedBy := by
  cases hr with
  | unchecked _ _ => exact Or.inl ⟨get_keeps hI h, by simp⟩
  | conflict _ _ => exact Or.inl ⟨get_keeps hI h, by simp⟩
  | failed hp =>
    obtain ⟨w₁, h₁, h₂⟩ := steps_append.mp h
    obtain ⟨w₂, ⟨w₃, hi, hs⟩, hnil⟩ := steps_cons.mp h₂
    obtain rfl := steps_nil.mp hnil
    rcases step_live hs c u.ref with he | ⟨_, v, hv, -, ha, hlive⟩ | ⟨_, hv, -⟩
    · exact Or.inl ⟨by rw [he, hI _ _ hi, reads_live hI h₁ fun l hl => hp.mem hl], by simp⟩
    · cases hv
      exact Or.inr ⟨v, hlive, ha.ownedBy⟩
    · cases hv
  | @applied _ v _ _ _ hp =>
    obtain ⟨w₁, -, h₂⟩ := steps_append.mp h
    obtain ⟨w₂, ⟨w₃, -, hs⟩, h₃⟩ := steps_cons.mp h₂
    have hread : w'.live T c u.ref = w₂.live T c u.ref :=
      reads_live hI h₃ fun l hl => ⟨v, by rw [List.mem_singleton.mp hl]⟩
    cases hs with
    | patch ha hset => exact Or.inr ⟨v, hread.trans hset.live_self, ha.ownedBy⟩

/-- A call changes an object only as an `Apply` of it, or as a `Delete` of it
that removes it while it is owned. -/
theorem callStep_live {c : Cluster} {r : ObjRef}
    (hI : ∀ w w', I w w' → w'.live T c r = w.live T c r) {l : CallEvent}
    (h : CallStep I T w l w') (hn : ¬Adds c r l) :
    w'.live T c r = w.live T c r ∨ ∃ m o a, l = ⟨.delete c m o, a⟩ ∧ m.unstructured.ref = r ∧
      w.Owned T o c r ∧ w'.live T c r = none := by
  obtain ⟨u, hu, hs⟩ := h
  obtain ⟨e, a⟩ := l
  by_cases hd : ∃ m o, e = .delete c m o ∧ m.unstructured.ref = r
  · obtain ⟨m, o, rfl, rfl⟩ := hd
    rcases deleteRun_live hI (delete_trace hu) hs with he | ⟨ho, hnone⟩
    · exact Or.inl he
    · exact Or.inr ⟨m, o, a, rfl, rfl, ho, hnone⟩
  · refine Or.inl (steps_live hI hs fun l' hl' v hv hr => ?_)
    rcases hv with hv | hv
    · obtain ⟨m, o, rfl, rfl⟩ := ssa_mem_patch hu hl' hv
      exact hn ⟨rfl, (submitted_identity m o).ref.symm.trans hr⟩
    · obtain ⟨m, o, rfl, rfl⟩ := ssa_mem_delete hu hl' hv
      exact hd ⟨m, o, rfl, hr⟩

/-- `Apply` leaves a manifest of the same object. -/
theorem applyRun_object {c : Cluster} {u : Unstructured} {t : List (Event Resp)} {a : ApplyAnswer}
    (hr : ApplyRun c u ownedBy t a) (h : Steps (StepAfter I T) w t w') : a.object.ref = u.ref := by
  cases hr with
  | unchecked _ _ => rfl
  | conflict _ _ => rfl
  | failed _ => rfl
  | applied _ =>
    obtain ⟨w₁, -, h₁⟩ := steps_append.mp h
    obtain ⟨w₂, ⟨w₃, -, hs⟩, -⟩ := steps_cons.mp h₁
    cases hs with
    | patch ha _ => exact ha.ref

/-- Every call is a step of the ledger. -/
theorem callStep_ledger (hI : ∀ w w', I w w' → Foreign T ownedBy key w w') {l : CallEvent}
    (h : CallStep I T w l w') :
    Ledger.Step ownedBy key (w.ledger T ownedBy key) l (w'.ledger T ownedBy key) where
  adds c r ho := by
    obtain ⟨u, hu, hs⟩ := h
    rcases steps_owned hI hs ho with ho | ⟨l', hl', v, hv, rfl⟩
    · exact Or.inl ho
    · obtain ⟨m, o, he, rfl⟩ := ssa_mem_patch hu hl' hv
      obtain ⟨e, a⟩ := l
      cases he
      exact Or.inr ⟨rfl, (submitted_identity m o).ref.symm⟩
  clears c r hc := by
    obtain ⟨u, hu, hs⟩ := h
    obtain ⟨e, a⟩ := l
    cases e with
    | get c' m =>
      obtain rfl := get_trace hu
      obtain ⟨w₁, ⟨w₂, -, hstep⟩, hnil⟩ := steps_cons.mp hs
      obtain rfl := steps_nil.mp hnil
      cases a with
      | error e =>
        obtain ⟨rfl, rfl, he⟩ := hc
        exact (get_owned hstep).1 e rfl he
      | ok live =>
        obtain ⟨rfl, rfl, hne⟩ := hc
        exact (get_owned hstep).2 live rfl hne
    | delete c' m o =>
      cases a with
      | none =>
        obtain ⟨rfl, rfl, rfl⟩ := hc
        exact deleteRun_owned (delete_trace hu) hs
      | some e => exact hc.elim
    | _ => exact hc.elim
  reads cr hl := by
    subst hl
    obtain ⟨w₂, hi, hstep⟩ := callStep_op h
    cases hstep with
    | quiet hq => exact hq.elim
    | getCR hcr =>
      refine ⟨?_, w'.named _ _ hcr⟩
      rw [World.ledger, ← (hI _ _ hi).status, hcr]
      rfl
  writes cr hl hk := by
    subst hl
    obtain ⟨w₂, hi, hstep⟩ := callStep_op h
    cases hstep with
    | quiet hq => exact hq.elim
    | updateStatus ho hset =>
      rw [World.ledger, hset.crs, if_pos hk.symm]
      rfl
  keeps hn := by
    refine callStep_crs (fun _ _ hi => (hI _ _ hi).status) h ?_
    obtain ⟨e, a⟩ := l
    unfold KeepsCR
    split
    · rename_i cr he
      cases he
      intro hk old
      rw [updated, if_neg fun hf => hn ⟨hk, hf.2⟩]
      rfl
    · rename_i cr he
      cases he
      exact fun hk => absurd hk hn
    · trivial
  returns c m o a hl := by
    subst hl
    obtain ⟨u, hu, hs⟩ := h
    have hr := apply_trace hu
    obtain ⟨health, msg, hst⟩ := hr.status
    exact ⟨(applyRun_object hr hs).trans (submitted_identity m o).ref, health, msg,
      hst.trans ((submitted_identity m o).entryFor health msg)⟩

end Calls

end DDO.Spec
