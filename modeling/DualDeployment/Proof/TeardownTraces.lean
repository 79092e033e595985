import DualDeployment.Proof.Traces

/-!
# What one teardown can do

The traces of `reconcileDelete`, in closed form (`teardown_trace`): the shoot
applier is built if a shoot entry is to be deleted, the deletable entries of
both inventories are deleted in the reverse of the apply order, those of the
shoot only with an applier, and the pass ends in one of four ways.
-/

namespace DDO.Impl

open Prog

/-! ## Deleting a render -/

/-- The entries teardown deletes, in delete order. -/
def deletableEntries (cr : DualDeploymentOperator) (c : Cluster) : List ResourceStatus :=
  (sortStatusForDelete (cr.status.resources c)).filter fun rs => !cr.keepsCRD rs

theorem mem_deletableEntries {cr : DualDeploymentOperator} {c : Cluster} {rs : ResourceStatus} :
    rs ∈ deletableEntries cr c ↔ rs ∈ cr.status.resources c ∧ cr.keepsCRD rs = false := by
  rw [deletableEntries, List.mem_filter, mem_sortStatusForDelete, Bool.not_eq_true']

/-- `deletable` counts them. -/
theorem deletable_eq_zero {cr : DualDeploymentOperator} {c : Cluster} :
    deletable cr (cr.status.resources c) = 0 ↔ deletableEntries cr c = [] := by
  rw [deletable, List.length_eq_zero_iff, List.eq_nil_iff_forall_not_mem,
    List.eq_nil_iff_forall_not_mem]
  simp only [mem_deletableEntries, List.mem_filter, Bool.not_eq_true']

/-- The calls of `deleteRender`. -/
def deleteEvents (c : Cluster) (ownedBy : String) (ds : List (ResourceStatus × Option Err)) :
    List CallEvent :=
  ds.map fun p => ⟨.delete c (manifestFromStatus p.1) ownedBy, p.2⟩

theorem mem_deleteEvents {c : Cluster} {ownedBy : String} {ds : List (ResourceStatus × Option Err)}
    {l : CallEvent} : l ∈ deleteEvents c ownedBy ds ↔
      ∃ p ∈ ds, l = ⟨.delete c (manifestFromStatus p.1) ownedBy, p.2⟩ := by
  rw [deleteEvents, List.mem_map]
  exact ⟨fun ⟨p, hp, h⟩ => ⟨p, hp, h.symm⟩, fun ⟨p, hp, h⟩ => ⟨p, hp, h.symm⟩⟩

theorem deleteLoop_trace {cr : DualDeploymentOperator} {c : Cluster} {ownedBy : String}
    {l : List ResourceStatus} {t : List CallEvent} {errs : List Err}
    (h : Trace (deleteLoop cr c ownedBy l) t errs) :
    ∃ ds, ds.map (·.1) = l.filter (fun rs => !cr.keepsCRD rs) ∧ t = deleteEvents c ownedBy ds ∧
      errs = ds.filterMap (·.2) := by
  induction l generalizing t errs with
  | nil =>
    obtain ⟨rfl, rfl⟩ := trace_pure.mp h
    exact ⟨[], rfl, rfl, rfl⟩
  | cons rs l ih =>
    rw [deleteLoop] at h
    split_ifs at h with hk
    · obtain ⟨ds, hds, ht, he⟩ := ih h
      exact ⟨ds, by simp [hds, hk], ht, he⟩
    · obtain ⟨e, t₁, rfl, h₁⟩ := trace_request_seq.mp h
      obtain ⟨t₂, t₃, es, rfl, h₂, h₃⟩ := trace_seq.mp h₁
      obtain ⟨rfl, rfl⟩ := trace_pure.mp h₃
      obtain ⟨ds, hds, rfl, rfl⟩ := ih h₂
      refine ⟨(rs, e) :: ds, by simp [hds, hk], by simp [deleteEvents], ?_⟩
      cases e <;> rfl

/-! ## The whole pass -/

/-- A teardown: the build of the shoot applier, if there was one, and the
deletes with their answers. -/
structure TeardownRun where
  build : Option (Except ShootErr Unit)
  deleted : Cluster → List (ResourceStatus × Option Err)

namespace TeardownRun

/-- It is a teardown of this CR. -/
structure Of (cr : DualDeploymentOperator) (d : TeardownRun) : Prop where
  build : d.build = none ↔ deletableEntries cr .shoot = []
  seed : (d.deleted .seed).map (·.1) = deletableEntries cr .seed
  shoot : d.build = some (.ok ()) → (d.deleted .shoot).map (·.1) = deletableEntries cr .shoot
  noShoot : d.build ≠ some (.ok ()) → d.deleted .shoot = []

/-- It deletes deletable entries, in delete order. -/
theorem Of.deleted_sublist {cr : DualDeploymentOperator} {d : TeardownRun} (h : d.Of cr)
    (c : Cluster) : ((d.deleted c).map (·.1)).Sublist (deletableEntries cr c) := by
  cases c with
  | seed => rw [h.seed]
  | shoot =>
    by_cases hb : d.build = some (.ok ())
    · rw [h.shoot hb]
    · rw [h.noShoot hb]
      exact List.nil_sublist _

theorem Of.mem_deletable {cr : DualDeploymentOperator} {d : TeardownRun} (h : d.Of cr) {c : Cluster}
    {p : ResourceStatus × Option Err} (hp : p ∈ d.deleted c) : p.1 ∈ deletableEntries cr c :=
  (h.deleted_sublist c).subset (List.mem_map_of_mem hp)

/-- Every delete on the cluster returned `nil`. -/
def Succeeded (d : TeardownRun) (c : Cluster) : Prop := ∀ p ∈ d.deleted c, p.2 = none

/-- `shootDone`. -/
def ShootDone (d : TeardownRun) : Prop :=
  d.build = none ∨ d.build = some (.ok ()) ∧ d.Succeeded .shoot

/-- Only events are recorded. -/
def EventsOnly (t : List CallEvent) : Prop := ∀ l ∈ t, ∃ rec, l = ⟨.op (.event rec), ()⟩

/-- The calls of the build. -/
def BuildEvents (cr : DualDeploymentOperator) (build : Option (Except ShootErr Unit))
    (t : List CallEvent) : Prop :=
  match build with
  | none => t = []
  | some a => ∃ evs, t = ⟨.buildShoot cr, a⟩ :: evs ∧ EventsOnly evs

/-- The shoot applier of the build. -/
def applierOf : Option (Except ShootErr Unit) → Option Cluster
  | some (.ok _) => some .shoot
  | _ => none

/-- The deletes, in order. -/
def deletes (cr : DualDeploymentOperator) (ownedBy : String) (d : TeardownRun) : List CallEvent :=
  cr.applyClusters.reverse.flatMap fun c => deleteEvents c ownedBy (d.deleted c)

/-- `cr'` is `cr` but for the conditions. -/
def Conditioned (cr cr' : DualDeploymentOperator) : Prop :=
  ∃ cs, cr' = { cr with status := { cr.status with conditions := cs } }

/-- How the pass ends: its last calls, and what it returns. -/
inductive End (cr : DualDeploymentOperator) (d : TeardownRun) : List CallEvent → Outcome → Prop where
  | seedFailed {e : Err} : ¬d.Succeeded .seed → End cr d [] (⟨0⟩, some e)
  | completed {cr' : DualDeploymentOperator} {e : Option Err} : d.Succeeded .seed → d.ShootDone →
      Conditioned cr cr' → End cr d [⟨.op (.updateCR (removeFinalizer cr')), e⟩] (⟨0⟩, e)
  | forced {cr' : DualDeploymentOperator} {evs : List CallEvent} {e₁ e : Option Err} :
      d.Succeeded .seed → ¬d.ShootDone → cr.forceDelete = true → Conditioned cr cr' →
      EventsOnly evs →
      End cr d (evs ++ [⟨.op (.updateStatus cr'), e₁⟩, ⟨.op (.updateCR (removeFinalizer cr')), e⟩])
        (⟨0⟩, e)
  | blocked {cr' : DualDeploymentOperator} {evs : List CallEvent} {e : Option Err} :
      d.Succeeded .seed → ¬d.ShootDone → cr.forceDelete = false → Conditioned cr cr' →
      EventsOnly evs →
      End cr d (evs ++ [⟨.op (.updateStatus cr'), e⟩]) (if e.isSome then ⟨0⟩ else ⟨30⟩, e)

section

variable {cr : DualDeploymentOperator} {tb te : List CallEvent} {x : Outcome} {d : TeardownRun}
  {ownedBy : String}

/-- The ends of a teardown make calls of the reconciler only. -/
theorem End.mem (h : End cr d te x) {l : CallEvent} (hl : l ∈ te) : ∃ o, l.1 = .op o := by
  have hev : ∀ {evs}, EventsOnly evs → l ∈ evs → ∃ o, l.1 = .op o := fun hevs hl => by
    obtain ⟨rec, rfl⟩ := hevs l hl
    exact ⟨_, rfl⟩
  cases h with
  | seedFailed _ => cases hl
  | completed _ _ _ =>
    rw [List.mem_singleton.mp hl]
    exact ⟨_, rfl⟩
  | forced _ _ _ _ hevs =>
    simp only [List.mem_append, List.mem_cons, List.not_mem_nil, or_false] at hl
    rcases hl with hl | rfl | rfl
    · exact hev hevs hl
    · exact ⟨_, rfl⟩
    · exact ⟨_, rfl⟩
  | blocked _ _ _ _ hevs =>
    simp only [List.mem_append, List.mem_singleton] at hl
    rcases hl with hl | rfl
    · exact hev hevs hl
    · exact ⟨_, rfl⟩

theorem BuildEvents.mem {build : Option (Except ShootErr Unit)} (h : BuildEvents cr build tb)
    {l : CallEvent} (hl : l ∈ tb) :
    (∃ a, build = some a ∧ l = ⟨.buildShoot cr, a⟩) ∨ ∃ rec, l = ⟨.op (.event rec), ()⟩ := by
  unfold BuildEvents at h
  split at h
  · rw [h] at hl
    cases hl
  · obtain ⟨evs, rfl, hevs⟩ := h
    rcases List.mem_cons.mp hl with rfl | hl
    · exact Or.inl ⟨_, rfl, rfl⟩
    · exact Or.inr (hevs l hl)

theorem mem_deletes {l : CallEvent} : l ∈ d.deletes cr ownedBy ↔
    ∃ c, ∃ p ∈ d.deleted c, l = ⟨.delete c (manifestFromStatus p.1) ownedBy, p.2⟩ := by
  simp only [deletes, List.mem_flatMap, List.mem_reverse, mem_applyClusters, true_and,
    mem_deleteEvents]

/-- The deletes of a teardown are those of its run. -/
theorem teardown_delete (hb : BuildEvents cr d.build tb) (hend : End cr d te x) {c : Cluster}
    {m : Manifest} {o : String} {a : Option Err} :
    ⟨.delete c m o, a⟩ ∈ tb ++ (d.deletes cr ownedBy ++ te) ↔
      ∃ p ∈ d.deleted c, m = manifestFromStatus p.1 ∧ o = ownedBy ∧ a = p.2 := by
  constructor
  · intro h
    rcases List.mem_append.mp h with h | h
    · rcases hb.mem h with ⟨_, _, h⟩ | ⟨_, h⟩ <;> cases h
    · rcases List.mem_append.mp h with h | h
      · obtain ⟨c', p, hp, h⟩ := mem_deletes.mp h
        cases h
        exact ⟨p, hp, rfl, rfl, rfl⟩
      · obtain ⟨_, h⟩ := hend.mem h
        cases h
  · rintro ⟨p, hp, rfl, rfl, rfl⟩
    exact List.mem_append_right _ (List.mem_append_left _ (mem_deletes.mpr ⟨c, p, hp, rfl⟩))

end

end TeardownRun

open TeardownRun

section

variable {r : Reconciler} {cr : DualDeploymentOperator} {t : List CallEvent}

theorem recordEvent_trace {rec : EventRecord} (h : Trace (recordEvent r rec) t ()) :
    EventsOnly t := by
  rw [recordEvent] at h
  split_ifs at h
  · rw [trace_request.mp h]
    intro l hl
    exact ⟨rec, List.mem_singleton.mp hl⟩
  · rw [(trace_pure.mp h).1]
    intro l hl
    cases hl

theorem record_trace {rec : EventRecord} {cr' x : DualDeploymentOperator}
    (h : Trace (recordEvent r rec >>= fun _ => pure cr') t x) : EventsOnly t ∧ x = cr' := by
  obtain ⟨t₁, t₂, _, rfl, h₁, h₂⟩ := trace_seq.mp h
  obtain ⟨rfl, rfl⟩ := trace_pure.mp h₂
  rw [List.append_nil]
  exact ⟨recordEvent_trace h₁, rfl⟩

theorem buildForDelete_trace {y : DualDeploymentOperator × Option Cluster}
    (h : Trace (buildForDelete r cr) t y) :
    ∃ build, (build = none ↔ deletableEntries cr .shoot = []) ∧ BuildEvents cr build t ∧
      y.2 = applierOf build ∧ Conditioned cr y.1 := by
  rw [buildForDelete] at h
  split_ifs at h with hp
  · have hne : deletableEntries cr .shoot ≠ [] := fun he =>
      absurd (deletable_eq_zero.mpr he) (Nat.pos_iff_ne_zero.mp hp)
    obtain ⟨a, t₁, rfl, h₁⟩ := trace_request_seq.mp h
    cases a with
    | ok _ =>
      obtain ⟨rfl, rfl⟩ := trace_pure.mp h₁
      refine ⟨some (.ok ()), by simp [hne], ⟨[], rfl, by simp [EventsOnly]⟩, rfl, _, rfl⟩
    | error e =>
      obtain ⟨t₂, t₃, cr', rfl, h₂, h₃⟩ := trace_seq.mp h₁
      obtain ⟨rfl, rfl⟩ := trace_pure.mp h₃
      obtain ⟨hev, rfl⟩ := record_trace h₂
      exact ⟨some (.error e), by simp [hne], ⟨t₂, by simp, hev⟩, rfl, _, rfl⟩
  · obtain ⟨rfl, rfl⟩ := trace_pure.mp h
    have he : deletableEntries cr .shoot = [] := deletable_eq_zero.mp (Nat.eq_zero_of_not_pos hp)
    exact ⟨none, by simp [he], rfl, rfl, _, rfl⟩

theorem deleteRender_trace {ownedBy : String} {c : Cluster} {errs : List Err}
    (h : Trace (deleteRender cr ownedBy (some c) (cr.status.resources c)) t errs) :
    ∃ ds, ds.map (·.1) = deletableEntries cr c ∧ t = deleteEvents c ownedBy ds ∧
      errs = ds.filterMap (·.2) :=
  deleteLoop_trace h

theorem deleteShoot_trace {ownedBy : String} {build : Option (Except ShootErr Unit)}
    {errs : List Err}
    (h : Trace (deleteRender cr ownedBy (applierOf build) (cr.status.resources .shoot)) t errs) :
    ∃ ds, (build = some (.ok ()) → ds.map (·.1) = deletableEntries cr .shoot) ∧
      (build ≠ some (.ok ()) → ds = []) ∧ t = deleteEvents .shoot ownedBy ds ∧
      errs = ds.filterMap (·.2) := by
  match build, h with
  | some (.ok _), h =>
    obtain ⟨ds, hds, ht, he⟩ := deleteRender_trace h
    exact ⟨ds, fun _ => hds, fun hn => absurd rfl hn, ht, he⟩
  | some (.error e), h =>
    obtain ⟨rfl, rfl⟩ := trace_pure.mp h
    exact ⟨[], by simp, fun _ => rfl, rfl, rfl⟩
  | none, h =>
    obtain ⟨rfl, rfl⟩ := trace_pure.mp h
    exact ⟨[], by simp, fun _ => rfl, rfl, rfl⟩

theorem deleteRenders_trace {ownedBy : String} {build : Option (Except ShootErr Unit)}
    {errs : List Err × List Err}
    (hb : build = none ↔ deletableEntries cr .shoot = [])
    (h : Trace (deleteRenders cr ownedBy (applierOf build)) t errs) :
    ∃ d : TeardownRun, d.Of cr ∧ d.build = build ∧ t = d.deletes cr ownedBy ∧
      errs = ((d.deleted .seed).filterMap (·.2), (d.deleted .shoot).filterMap (·.2)) := by
  rw [deleteRenders] at h
  split_ifs at h with ho
  · obtain ⟨t₁, t', es₁, rfl, h₁, h'⟩ := trace_seq.mp h
    obtain ⟨t₂, t₃, es₂, rfl, h₂, h₃⟩ := trace_seq.mp h'
    obtain ⟨rfl, rfl⟩ := trace_pure.mp h₃
    obtain ⟨ds₁, hok, hno, rfl, rfl⟩ := deleteShoot_trace h₁
    obtain ⟨ds₂, hds, rfl, rfl⟩ := deleteRender_trace h₂
    refine ⟨⟨build, perCluster ds₂ ds₁⟩, ⟨hb, hds, hok, hno⟩, rfl, ?_, rfl⟩
    simp [deletes, DualDeploymentOperator.applyClusters, DualDeploymentOperator.shootFirst, ho,
      perCluster]
  · obtain ⟨t₁, t', es₁, rfl, h₁, h'⟩ := trace_seq.mp h
    obtain ⟨t₂, t₃, es₂, rfl, h₂, h₃⟩ := trace_seq.mp h'
    obtain ⟨rfl, rfl⟩ := trace_pure.mp h₃
    obtain ⟨ds₁, hds, rfl, rfl⟩ := deleteRender_trace h₁
    obtain ⟨ds₂, hok, hno, rfl, rfl⟩ := deleteShoot_trace h₂
    refine ⟨⟨build, perCluster ds₁ ds₂⟩, ⟨hb, hds, hok, hno⟩, rfl, ?_, rfl⟩
    simp [deletes, DualDeploymentOperator.applyClusters, DualDeploymentOperator.shootFirst, ho,
      perCluster]

theorem filterMap_eq_nil {ds : List (ResourceStatus × Option Err)} :
    ds.filterMap (·.2) = [] ↔ ∀ p ∈ ds, p.2 = none :=
  List.filterMap_eq_nil_iff

theorem newAggregate_map_some (errs : List Err) :
    newAggregate (errs.map some) = none ↔ errs = [] := by
  rw [newAggregate_eq_none]
  cases errs <;> simp

theorem finishDelete_trace {cr' : DualDeploymentOperator} {d : TeardownRun} {done : Bool}
    {errs : List Err} {x : Outcome} (hc : Conditioned cr cr') (hseed : d.Succeeded .seed)
    (hdone : done = true ↔ d.ShootDone) (h : Trace (finishDelete r cr' done errs) t x) :
    End cr d t x := by
  have hforce : cr'.forceDelete = cr.forceDelete := by
    obtain ⟨cs, rfl⟩ := hc
    rfl
  have hcond : ∀ c, Conditioned cr (cr'.setStatusCondition c) := by
    obtain ⟨cs, rfl⟩ := hc
    exact fun c => ⟨_, rfl⟩
  rw [finishDelete] at h
  split_ifs at h with h₁ h₂
  · obtain ⟨e, t', rfl, h'⟩ := trace_request_seq.mp h
    obtain ⟨rfl, rfl⟩ := trace_pure.mp h'
    exact .completed hseed (hdone.mp h₁) hc
  · obtain ⟨t₁, t', cr₂, rfl, hrec, h'⟩ := trace_seq.mp h
    obtain ⟨hev, rfl⟩ := record_trace hrec
    obtain ⟨e₁, t₂, rfl, h₂'⟩ := trace_request_seq.mp h'
    obtain ⟨e, t₃, rfl, h₃⟩ := trace_request_seq.mp h₂'
    obtain ⟨rfl, rfl⟩ := trace_pure.mp h₃
    exact .forced hseed (fun hd => h₁ (hdone.mpr hd)) (hforce ▸ h₂) (hcond _) hev
  · obtain ⟨t₁, t', cr₂, rfl, hrec, h'⟩ := trace_seq.mp h
    obtain ⟨hev, rfl⟩ := record_trace hrec
    obtain ⟨e, t₂, rfl, h₂'⟩ := trace_request_seq.mp h'
    have hx : t₂ = [] ∧ x = (if e.isSome then ⟨0⟩ else ⟨30⟩, e) := by
      cases e with
      | none => exact trace_pure.mp h₂'
      | some e => exact trace_pure.mp h₂'
    obtain ⟨rfl, rfl⟩ := hx
    exact .blocked hseed (fun hd => h₁ (hdone.mpr hd))
      (by rw [← hforce]; exact (Bool.not_eq_true _).mp h₂) (hcond _) hev

/-- A teardown builds, deletes, and ends in one of four ways. -/
theorem teardown_trace {x : Outcome} (h : Trace (teardown r cr) t x) :
    ∃ (d : TeardownRun) (tb te : List CallEvent), d.Of cr ∧ BuildEvents cr d.build tb ∧
      End cr d te x ∧ t = tb ++ (d.deletes cr (r.ownedBy cr) ++ te) := by
  obtain ⟨tb, t₁, ⟨cr', applier⟩, rfl, hb, h₁⟩ := trace_seq.mp h
  obtain ⟨build, hbuild, hevents, rfl, hc⟩ := buildForDelete_trace hb
  obtain ⟨td, te, ⟨seedErrs, shootErrs⟩, rfl, hd, h₂⟩ := trace_seq.mp h₁
  obtain ⟨d, hof, rfl, rfl, he⟩ := deleteRenders_trace hbuild hd
  obtain ⟨rfl, rfl⟩ := Prod.mk.inj he
  refine ⟨d, tb, te, hof, hevents, ?_, rfl⟩
  simp only at h₂
  split at h₂
  · rename_i agg hagg
    obtain ⟨rfl, rfl⟩ := trace_pure.mp h₂
    refine .seedFailed fun hs => ?_
    rw [(newAggregate_map_some _).mpr (filterMap_eq_nil.mpr hs)] at hagg
    cases hagg
  · rename_i hagg
    have hseed : d.Succeeded .seed := filterMap_eq_nil.mp ((newAggregate_map_some _).mp hagg)
    refine finishDelete_trace hc hseed ?_ h₂
    rw [decide_eq_true_iff, ShootDone, hof.build, ← deletable_eq_zero, Succeeded, ← filterMap_eq_nil]
    refine or_congr Iff.rfl (and_congr_left fun _ => ?_)
    match d.build with
    | some (.ok _) => simp [applierOf]
    | some (.error e) => simp [applierOf]
    | none => simp [applierOf]

/-- `reconcileDelete` tears down unless its first status write fails. -/
theorem reconcileDelete_trace {x : Outcome} (h : Trace (reconcileDelete r cr) t x) :
    ∃ e t', t = ⟨.op (.updateStatus (markDeleting cr)), e⟩ :: t' ∧
      (Trace (teardown r (markDeleting cr)) t' x ∨
        t' = [] ∧ ∃ err, e = some err ∧ err.isNotFound = false ∧ x = (⟨0⟩, some err)) := by
  obtain ⟨e, t', rfl, h'⟩ := trace_request_seq.mp h
  refine ⟨e, t', rfl, ?_⟩
  cases e with
  | none => exact Or.inl h'
  | some err =>
    simp only at h'
    split_ifs at h' with he
    · exact Or.inl h'
    · obtain ⟨rfl, rfl⟩ := trace_pure.mp h'
      exact Or.inr ⟨rfl, err, rfl, (Bool.not_eq_true _).mp he, rfl⟩

/-- The calls of a teardown. -/
theorem reconcileDelete_mem {x : Outcome} (h : Trace (reconcileDelete r cr) t x) {l : CallEvent}
    (hl : l ∈ t) :
    (∃ o, l.1 = .op o) ∨ (∃ cr', l.1 = .buildShoot cr') ∨ ∃ c m o, l.1 = .delete c m o := by
  obtain ⟨e, t', rfl, h'⟩ := reconcileDelete_trace h
  rcases List.mem_cons.mp hl with rfl | hl'
  · exact Or.inl ⟨_, rfl⟩
  rcases h' with h' | ⟨rfl, -⟩
  · obtain ⟨d, tb, te, -, hb, hend, rfl⟩ := teardown_trace h'
    rcases List.mem_append.mp hl' with hl' | hl'
    · rcases hb.mem hl' with ⟨a, -, rfl⟩ | ⟨rec, rfl⟩
      · exact Or.inr (Or.inl ⟨_, rfl⟩)
      · exact Or.inl ⟨_, rfl⟩
    · rcases List.mem_append.mp hl' with hl' | hl'
      · obtain ⟨c, p, -, rfl⟩ := mem_deletes.mp hl'
        exact Or.inr (Or.inr ⟨_, _, _, rfl⟩)
      · exact Or.inl (hend.mem hl')
  · cases hl'

end

end DDO.Impl
