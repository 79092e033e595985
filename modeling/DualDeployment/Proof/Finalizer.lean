import DualDeployment.Proof.Refinement
import DualDeployment.Proof.TeardownTraces
import DualDeployment.Spec.Runs
import DualDeployment.Spec.Server

/-!
# The finalizer

Nothing is applied before the finalizer is persisted or after deletion was
asked for, a teardown drops the finalizer exactly when its deletes allow it,
and then nothing it had to delete is still owned (`finalizer_safety`).
-/

namespace DDO.Spec

open Impl Prog TeardownRun

/-! ## Applies -/

/-- What guards the deliveries of a CR. -/
def guards (cr : DualDeploymentOperator) : List String × Bool := (cr.finalizers, cr.deletionTimestamp)

/-- Others leave the finalizers and the deletion timestamp of the CR alone. -/
def Steady (key : NamespacedName) (w w' : World) : Prop :=
  (w'.crs key).map guards = (w.crs key).map guards

theorem Steady.refl (key : NamespacedName) (w : World) : Steady key w w := rfl

/-- The persisted CR has the finalizer and is not being deleted. -/
def Guarded (key : NamespacedName) (w : World) : Prop :=
  ∃ cr, w.crs key = some cr ∧ FinalizerName ∈ cr.finalizers ∧ cr.deletionTimestamp = false

section

variable {r : Reconciler} {cr : DualDeploymentOperator} {t : List CallEvent} {x : Outcome}

/-- A pass that applies something has read a CR with the finalizer that is not
being deleted, and does not update it. -/
theorem reconcile_apply {key : NamespacedName} (h : Trace (reconcile r key) t x) {c : Cluster}
    {m : Manifest} {o : String} {a : ApplyAnswer} (ha : ⟨.apply c m o, a⟩ ∈ t) :
    ∃ cr t', t = ⟨.op (.getCR key), .ok cr⟩ :: t' ∧ FinalizerName ∈ cr.finalizers ∧
      cr.deletionTimestamp = false ∧ ∀ l ∈ t', ∀ cr', l.1 ≠ .op (.updateCR cr') := by
  rcases reconcile_trace h with ⟨e, rfl⟩ | ⟨cr, t', rfl, ⟨-, hdel⟩ | ⟨hd, -⟩⟩
  · cases List.mem_singleton.mp ha
  · have ha' : ⟨.apply c m o, a⟩ ∈ t' := by simpa using ha
    rcases reconcileDelete_mem hdel ha' with ⟨_, h⟩ | ⟨_, h⟩ | ⟨_, _, _, h⟩ <;> cases h
  · obtain ⟨hf, ms, d, hdel⟩ := reconcile_calls h hd ha (by simp)
    refine ⟨cr, _, rfl, hf, hd, fun l hl cr' hl' => ?_⟩
    rcases hdel.mem (List.mem_cons_of_mem _ hl) with ⟨_, rfl⟩ | hr | hev
    · cases hl'
    · rw [hl'] at hr
      exact hr
    · obtain ⟨e, a⟩ := l
      cases hl'
      cases Delivery.makes_of_mem hev

end

/-- Whenever a run applies something, the persisted CR is guarded. -/
theorem issues_guarded {r : Reconciler} {key : NamespacedName} {T : Targets}
    {between : World → World → Prop} {w₀ w : World} {c : Cluster} {m : Manifest} {o : String}
    {a : ApplyAnswer} (h : Issues r key T between (Steady key) w₀ w ⟨.apply c m o, a⟩) :
    Guarded key w := by
  obtain ⟨ts, w₁, w₂, t, x, t₁, t₂, -, -, ht, rfl, hs⟩ := h
  obtain ⟨cr, t', he, hf, hd, hup⟩ := reconcile_apply ht (List.mem_append_right _ List.mem_cons_self)
  cases t₁ with
  | nil => cases he
  | cons l t₁ =>
    obtain ⟨rfl, rfl⟩ := List.cons.inj he
    obtain ⟨w₃, hget, hs'⟩ := steps_cons.mp hs
    -- after the read the persisted CR is the one that was read, as far as the guards go
    have h₃ : (w₃.crs key).map guards = some (guards cr) := by
      obtain ⟨w₄, -, hstep⟩ := callStep_op hget
      cases hstep with
      | quiet hq => exact hq.elim
      | getCR hcr => rw [hcr]; rfl
    have h₄ : (w.crs key).map guards = some (guards cr) := by
      refine hs'.inv (P := fun w => (w.crs key).map guards = some (guards cr)) ?_ h₃
      intro w l w' hl hstep hw
      rw [callStep_crs (fun _ _ h => h) hstep ?_, hw]
      have hne := hup l (List.mem_append_left _ hl)
      unfold KeepsCR
      split
      · rename_i cr' hl'
        exact absurd hl' (hne cr')
      · exact fun _ _ => rfl
      · trivial
    obtain ⟨cr', hcr', hg⟩ := Option.map_eq_some_iff.mp h₄
    obtain ⟨hfin, hdel⟩ := Prod.mk.inj hg
    exact ⟨cr', hcr', hfin ▸ hf, hdel ▸ hd⟩

/-! ## Dropping the finalizer -/

/-- The pass hands the CR without the finalizer to `Update`. -/
def Removes (t : List CallEvent) : Prop :=
  ∃ cr e, ⟨.op (.updateCR cr), e⟩ ∈ t ∧ FinalizerName ∉ cr.finalizers

/-- Every deletable entry of the cluster had its `Delete`, and it returned `nil`. -/
def AllDeleted (cr : DualDeploymentOperator) (ownedBy : String) (t : List CallEvent) (c : Cluster) :
    Prop :=
  ∀ rs ∈ cr.status.resources c, cr.keepsCRD rs = false →
    ⟨.delete c (manifestFromStatus rs) ownedBy, none⟩ ∈ t ∧
      ∀ e, ⟨.delete c (manifestFromStatus rs) ownedBy, some e⟩ ∉ t

/-- There is no deletable shoot entry, or the shoot applier was built and every
deletable shoot entry's `Delete` returned `nil`. -/
def ShootSettled (cr : DualDeploymentOperator) (ownedBy : String) (t : List CallEvent) : Prop :=
  (∀ rs ∈ cr.status.shootResources, cr.keepsCRD rs = true) ∨
    (∃ cr', ⟨.buildShoot cr', .ok ()⟩ ∈ t) ∧ AllDeleted cr ownedBy t .shoot

section

variable {r : Reconciler} {cr : DualDeploymentOperator} {t tb te : List CallEvent} {x : Outcome}
  {d : TeardownRun} {ownedBy : String}

theorem allDeleted_iff (hb : BuildEvents cr d.build tb) (hend : End cr d te x) {c : Cluster}
    (hof : (d.deleted c).map (·.1) = deletableEntries cr c) :
    AllDeleted cr ownedBy (tb ++ (d.deletes cr ownedBy ++ te)) c ↔ d.Succeeded c := by
  constructor
  · intro h p hp
    have hrs := mem_deletableEntries.mp (hof ▸ List.mem_map_of_mem hp)
    cases he : p.2 with
    | none => rfl
    | some e =>
      exact absurd ((teardown_delete hb hend).mpr ⟨p, hp, rfl, rfl, he.symm⟩)
        ((h p.1 hrs.1 hrs.2).2 e)
  · intro h rs hrs hk
    obtain ⟨p, hp, rfl⟩ := List.mem_map.mp (hof ▸ mem_deletableEntries.mpr ⟨hrs, hk⟩)
    refine ⟨(teardown_delete hb hend).mpr ⟨p, hp, rfl, rfl, (h p hp).symm⟩, fun e he => ?_⟩
    obtain ⟨p', hp', -, -, hsome⟩ := (teardown_delete hb hend).mp he
    rw [h p' hp'] at hsome
    cases hsome

theorem shootSettled_iff (hof : d.Of cr) (hb : BuildEvents cr d.build tb) (hend : End cr d te x) :
    ShootSettled cr ownedBy (tb ++ (d.deletes cr ownedBy ++ te)) ↔ d.ShootDone := by
  have hbuilt : (∃ cr', ⟨.buildShoot cr', .ok ()⟩ ∈ tb ++ (d.deletes cr ownedBy ++ te)) ↔
      d.build = some (.ok ()) := by
    constructor
    · rintro ⟨cr', h⟩
      rcases List.mem_append.mp h with h | h
      · rcases hb.mem h with ⟨a, ha, h⟩ | ⟨_, h⟩
        · cases h
          exact ha
        · cases h
      · rcases List.mem_append.mp h with h | h
        · obtain ⟨_, _, _, h⟩ := mem_deletes.mp h
          cases h
        · obtain ⟨_, h⟩ := hend.mem h
          cases h
    · intro h
      rw [h] at hb
      obtain ⟨evs, rfl, -⟩ := hb
      exact ⟨cr, List.mem_append_left _ List.mem_cons_self⟩
  have hnone : (∀ rs ∈ cr.status.shootResources, cr.keepsCRD rs = true) ↔ d.build = none := by
    rw [hof.build, List.eq_nil_iff_forall_not_mem]
    simp only [mem_deletableEntries, not_and, Bool.not_eq_false]
    rfl
  rw [ShootSettled, ShootDone, hbuilt, hnone]
  refine or_congr Iff.rfl (and_congr_right fun h => ?_)
  exact allDeleted_iff hb hend (hof.shoot h)

theorem removeFinalizer_not_mem (cr : DualDeploymentOperator) :
    FinalizerName ∉ (removeFinalizer cr).finalizers := by
  simp [removeFinalizer]

theorem removes_iff (hb : BuildEvents cr d.build tb) (hend : End cr d te x) :
    Removes (tb ++ (d.deletes cr ownedBy ++ te)) ↔
      d.Succeeded .seed ∧ (d.ShootDone ∨ cr.forceDelete = true) := by
  have hmem : Removes (tb ++ (d.deletes cr ownedBy ++ te)) ↔ Removes te := by
    refine exists_congr fun cr' => exists_congr fun e => and_congr_left fun _ => ?_
    refine ⟨fun h => ?_, fun h => List.mem_append_right _ (List.mem_append_right _ h)⟩
    rcases List.mem_append.mp h with h | h
    · rcases hb.mem h with ⟨_, _, h⟩ | ⟨_, h⟩ <;> cases h
    · rcases List.mem_append.mp h with h | h
      · obtain ⟨_, _, _, h⟩ := mem_deletes.mp h
        cases h
      · exact h
  rw [hmem]
  cases hend with
  | seedFailed hs => exact ⟨fun ⟨_, _, h, _⟩ => (by cases h), fun h => absurd h.1 hs⟩
  | completed hs hd _ =>
    exact ⟨fun _ => ⟨hs, Or.inl hd⟩, fun _ => ⟨_, _, List.mem_cons_self, removeFinalizer_not_mem _⟩⟩
  | forced hs _ hf _ _ =>
    exact ⟨fun _ => ⟨hs, Or.inr hf⟩, fun _ => ⟨_, _, List.mem_append_right _
      (List.mem_cons_of_mem _ List.mem_cons_self), removeFinalizer_not_mem _⟩⟩
  | blocked hs hd hf _ hevs =>
    refine ⟨fun ⟨_, _, h, _⟩ => ?_, fun h => ?_⟩
    · rcases List.mem_append.mp h with h | h
      · obtain ⟨_, h⟩ := hevs _ h
        cases h
      · cases List.mem_singleton.mp h
    · rcases h.2 with h | h
      · exact absurd h hd
      · rw [hf] at h
        cases h

/-- The trace of a teardown after its first status write. -/
theorem reconcileDelete_written
    (h : Trace (reconcileDelete r cr) (⟨.op (.updateStatus (markDeleting cr)), none⟩ :: t) x) :
    Trace (teardown r (markDeleting cr)) t x := by
  obtain ⟨e, t', he, h'⟩ := reconcileDelete_trace h
  cases he
  rcases h' with h' | ⟨-, err, he, -⟩
  · exact h'
  · cases he

theorem reconcileDelete_removes
    (h : Trace (reconcileDelete r cr) (⟨.op (.updateStatus (markDeleting cr)), none⟩ :: t) x) :
    Removes t ↔ AllDeleted cr (r.ownedBy cr) t .seed ∧
      (ShootSettled cr (r.ownedBy cr) t ∨ cr.forceDelete = true) := by
  obtain ⟨d, tb, te, hof, hb, hend, rfl⟩ := teardown_trace (reconcileDelete_written h)
  rw [removes_iff hb hend, ← allDeleted_iff hb hend hof.seed, ← shootSettled_iff hof hb hend]
  rfl

/-- An update of the CR is the last call of the pass, without the finalizer. -/
theorem end_update (h : End cr d te x) {cr' : DualDeploymentOperator} {e : Option Err}
    (hu : ⟨.op (.updateCR cr'), e⟩ ∈ te) :
    (∃ t₀, te = t₀ ++ [⟨.op (.updateCR cr'), e⟩]) ∧ FinalizerName ∉ cr'.finalizers ∧
      cr'.key = cr.key := by
  cases h with
  | seedFailed _ => cases hu
  | completed _ _ hc =>
    obtain ⟨cs, rfl⟩ := hc
    cases List.mem_singleton.mp hu
    exact ⟨⟨[], rfl⟩, removeFinalizer_not_mem _, rfl⟩
  | @forced _ evs e₁ _ _ _ _ hc hevs =>
    obtain ⟨cs, rfl⟩ := hc
    simp only [List.mem_append, List.mem_cons, List.not_mem_nil, or_false] at hu
    rcases hu with hm | hm | hm
    · obtain ⟨_, hm⟩ := hevs _ hm
      cases hm
    · cases hm
    · cases hm
      exact ⟨⟨evs ++ [⟨.op (.updateStatus _), e₁⟩], by rw [List.append_assoc]; rfl⟩,
        removeFinalizer_not_mem _, rfl⟩
  | blocked _ _ _ _ hevs =>
    rcases List.mem_append.mp hu with hm | hm
    · obtain ⟨_, hm⟩ := hevs _ hm
      cases hm
    · cases List.mem_singleton.mp hm

theorem reconcileDelete_update (h : Trace (reconcileDelete r cr) t x)
    {cr' : DualDeploymentOperator} {e : Option Err} (hu : ⟨.op (.updateCR cr'), e⟩ ∈ t) :
    (∃ t₀, t = t₀ ++ [⟨.op (.updateCR cr'), e⟩]) ∧ FinalizerName ∉ cr'.finalizers ∧
      cr'.key = cr.key := by
  obtain ⟨e₀, t', rfl, h'⟩ := reconcileDelete_trace h
  have hu' : ⟨.op (.updateCR cr'), e⟩ ∈ t' := by simpa using hu
  rcases h' with h' | ⟨rfl, -⟩
  · obtain ⟨d, tb, te, -, hb, hend, rfl⟩ := teardown_trace h'
    have hte : ⟨.op (.updateCR cr'), e⟩ ∈ te := by
      rcases List.mem_append.mp hu' with hm | hm
      · rcases hb.mem hm with ⟨_, _, hm⟩ | ⟨_, hm⟩ <;> cases hm
      · rcases List.mem_append.mp hm with hm | hm
        · obtain ⟨_, _, _, hm⟩ := mem_deletes.mp hm
          cases hm
        · exact hm
    obtain ⟨⟨t₀, rfl⟩, hfin, hkey⟩ := end_update hend hte
    refine ⟨⟨⟨_, e₀⟩ :: (tb ++ (d.deletes (markDeleting cr) (r.ownedBy cr) ++ t₀)), ?_⟩, hfin, hkey⟩
    simp only [List.cons_append, List.append_assoc]
    rfl
  · cases hu'

/-- An update that succeeds leaves no CR with the finalizer. -/
theorem reconcileDelete_persisted {T : Targets} {I : World → World → Prop} {w w' : World}
    (h : Trace (reconcileDelete r cr) t x) (hs : Steps (CallStep I T) w t w')
    {cr' : DualDeploymentOperator} (hu : ⟨.op (.updateCR cr'), none⟩ ∈ t)
    {p : DualDeploymentOperator} (hp : w'.crs cr.key = some p) : FinalizerName ∉ p.finalizers := by
  obtain ⟨⟨t₀, rfl⟩, hfin, hkey⟩ := reconcileDelete_update h hu
  obtain ⟨w₁, -, hlast⟩ := steps_append.mp hs
  obtain ⟨w₂, hstep, hnil⟩ := steps_cons.mp hlast
  obtain rfl := steps_nil.mp hnil
  obtain ⟨w₃, -, hstep⟩ := callStep_op hstep
  cases hstep with
  | quiet hq => exact hq.elim
  | updateCR ho hset =>
    rw [hset.crs, if_pos hkey.symm, updated] at hp
    split_ifs at hp
    cases hp
    exact hfin

/-- What a delete of the pass returned `nil` for is not owned at its end. -/
theorem reconcileDelete_clears {T : Targets} {key : NamespacedName} {w w' : World}
    (h : Trace (reconcileDelete r cr) t x)
    (hs : Steps (CallStep (Foreign T (r.ownedBy cr) key) T) w t w') {c : Cluster}
    (hd : AllDeleted cr (r.ownedBy cr) t c) {rs : ResourceStatus} (hrs : rs ∈ cr.status.resources c)
    (hk : cr.keepsCRD rs = false) : ¬w'.Owned T (r.ownedBy cr) c rs.ref := by
  obtain ⟨t₁, t₂, ht⟩ := List.append_of_mem (hd rs hrs hk).1
  have hledger := hs.map (fun w => w.ledger T (r.ownedBy cr) key)
    fun _ _ _ => callStep_ledger fun _ _ => id
  rw [ht] at hledger
  refine Ledger.steps_clears t₁ t₂ hledger ⟨rfl, manifestFromStatus_ref rs, rfl⟩ fun l hl ha => ?_
  have hl' : l ∈ t := by
    rw [ht]
    exact List.mem_append_right _ (List.mem_cons_of_mem _ hl)
  obtain ⟨e, a⟩ := l
  rcases reconcileDelete_mem h hl' with ⟨_, he⟩ | ⟨_, he⟩ | ⟨_, _, _, he⟩ <;> cases he <;> exact ha

end

/-- While a pass runs, others leave the finalizers and the deletion timestamp
of the CR alone; between passes anything may happen.
* No pass applies anything unless the persisted CR has the finalizer and is not
  being deleted.
* A teardown whose first status write succeeds drops the finalizer if and only
  if every seed delete returned `nil`, and the shoot is settled or the
  force-delete annotation is set.
* When it drops it, no deletable seed entry's object is still owned, and, if
  the shoot is settled, no deletable shoot entry's; and once the update
  succeeds no CR with the finalizer is persisted. -/
theorem finalizer_safety (r : Reconciler) (T : Targets) :
    (∀ (key : NamespacedName) (between : World → World → Prop) (w₀ w : World) (c : Cluster)
      (m : Manifest) (o : String) (a : ApplyAnswer),
      Issues r key T between (Steady key) w₀ w ⟨.apply c m o, a⟩ → Guarded key w) ∧
    ∀ (cr : DualDeploymentOperator) (t : List CallEvent) (x : Outcome),
      Trace (reconcileDelete r cr) (⟨.op (.updateStatus (markDeleting cr)), none⟩ :: t) x →
      (Removes t ↔ AllDeleted cr (r.ownedBy cr) t .seed ∧
        (ShootSettled cr (r.ownedBy cr) t ∨ cr.forceDelete = true)) ∧
      ∀ w w', Steps (CallStep (Foreign T (r.ownedBy cr) cr.key) T) w
          (⟨.op (.updateStatus (markDeleting cr)), none⟩ :: t) w' → Removes t →
        (∀ rs ∈ cr.status.seedResources, cr.keepsCRD rs = false →
          ¬w'.Owned T (r.ownedBy cr) .seed rs.ref) ∧
        (ShootSettled cr (r.ownedBy cr) t → ∀ rs ∈ cr.status.shootResources,
          cr.keepsCRD rs = false → ¬w'.Owned T (r.ownedBy cr) .shoot rs.ref) ∧
        ∀ cr', ⟨.op (.updateCR cr'), none⟩ ∈ t → ∀ p, w'.crs cr.key = some p →
          FinalizerName ∉ p.finalizers := by
  refine ⟨fun key between w₀ w c m o a h => issues_guarded h, fun cr t x h => ?_⟩
  have hiff := reconcileDelete_removes h
  have hcons : ∀ c, AllDeleted cr (r.ownedBy cr) t c →
      AllDeleted cr (r.ownedBy cr) (⟨.op (.updateStatus (markDeleting cr)), none⟩ :: t) c :=
    fun c hd rs hrs hk => by simpa using hd rs hrs hk
  refine ⟨hiff, fun w w' hs hrem => ⟨fun rs hrs hk => ?_, fun hset rs hrs hk => ?_,
    fun cr' hu p hp => reconcileDelete_persisted h hs (List.mem_cons_of_mem _ hu) hp⟩⟩
  · exact reconcileDelete_clears h hs (hcons .seed (hiff.mp hrem).1) hrs hk
  · rcases hset with hkeep | ⟨-, hd⟩
    · rw [hkeep rs hrs] at hk
      cases hk
    · exact reconcileDelete_clears h hs (hcons .shoot hd) hrs hk

/-- The sample CR, being deleted, with an object recorded on each cluster. -/
def sampleDeleted : DualDeploymentOperator :=
  { sampleCR .shootFirst .retain with
    deletionTimestamp := true
    status := ⟨[⟨"ConfigMap", "v1", "garden", "config", .healthy, ""⟩],
      [⟨"Deployment", "apps/v1", "kube-system", "agent", .healthy, ""⟩], []⟩ }

/-- A server with one ConfigMap to deliver. -/
def configServer : Server := sampleServer [bare "v1" "ConfigMap" "garden" "config"] []

theorem config_storable : Storable (bare "v1" "ConfigMap" "garden" "config").unstructured.ref := by decide

/-- The sample CR being deleted, with its ConfigMap still there. -/
def undeletedWorld : World :=
  (sampleWorld sampleDeleted rfl).install .seed (bare "v1" "ConfigMap" "garden" "config") config_storable

def sampleTeardown : List CallEvent × Outcome × World :=
  (reconcileDelete sampleReconciler sampleDeleted).exec configServer.call undeletedWorld

theorem sampleTeardown_trace :
    Trace (reconcileDelete sampleReconciler sampleDeleted)
      (⟨.op (.updateStatus (markDeleting sampleDeleted)), none⟩ :: sampleTeardown.1.tail) sampleTeardown.2.1 :=
  exec_trace configServer.call (reconcileDelete sampleReconciler sampleDeleted) undeletedWorld

theorem sampleTeardown_steps :
    Steps (CallStep (Foreign sampleTargets "garden/metal" sampleKey) sampleTargets) undeletedWorld
      (⟨.op (.updateStatus (markDeleting sampleDeleted)), none⟩ :: sampleTeardown.1.tail) sampleTeardown.2.2 :=
  exec_steps (configServer.callStep (Foreign.refl sampleTargets "garden/metal" sampleKey))
    (reconcileDelete sampleReconciler sampleDeleted) undeletedWorld

theorem sampleTeardown_removes : Removes sampleTeardown.1.tail :=
  ⟨_, none, List.mem_of_getElem? (i := 3) rfl, by decide⟩

/-- A ConfigMap is applied under the finalizer, and its teardown drops it. -/
theorem finalizer_safety_sample :
    let S := sampleServer [bare "v1" "ConfigMap" "garden" "config"] []
    let w₀ := sampleWorld (sampleCR .seedFirst .retain) rfl
    let w₁ := (sampleWorld sampleDeleted rfl).install .seed (bare "v1" "ConfigMap" "garden" "config")
      (by decide)
    let teardown := (reconcileDelete sampleReconciler sampleDeleted).exec S.call w₁
    (∃ w a, Issues sampleReconciler sampleKey sampleTargets (fun _ _ => True) (Steady sampleKey) w₀ w
      ⟨.apply .seed (bare "v1" "ConfigMap" "garden" "config") "garden/metal", a⟩ ∧ Guarded sampleKey w) ∧
    Removes teardown.1.tail ∧ ¬teardown.2.2.Owned sampleTargets "garden/metal" .seed
      ⟨"", "ConfigMap", "garden", "config"⟩ := by
  intro S w₀ w₁ teardown
  obtain ⟨happly, hteardown⟩ := finalizer_safety sampleReconciler sampleTargets
  constructor
  · have hmem : ∃ a, ⟨.apply .seed (bare "v1" "ConfigMap" "garden" "config") "garden/metal", a⟩ ∈
        (S.run sampleReconciler sampleKey w₀).1 := ⟨_, List.mem_of_getElem? (i := 5) rfl⟩
    obtain ⟨a, ha⟩ := hmem
    obtain ⟨t₁, t₂, ht⟩ := List.append_of_mem ha
    have hs := S.run_steps (Steady.refl sampleKey) sampleReconciler sampleKey w₀
    rw [ht] at hs
    obtain ⟨w, hw, -⟩ := steps_append.mp hs
    have hissue : Issues sampleReconciler sampleKey sampleTargets (fun _ _ => True) (Steady sampleKey) w₀ w
        ⟨.apply .seed (bare "v1" "ConfigMap" "garden" "config") "garden/metal", a⟩ :=
      ⟨[], w₀, w₀, _, _, t₁, t₂, .start _, trivial, S.run_trace sampleReconciler sampleKey w₀, ht, hw⟩
    exact ⟨w, a, hissue, happly _ _ _ _ _ _ _ _ hissue⟩
  · refine ⟨sampleTeardown_removes, ?_⟩
    obtain ⟨-, hclears⟩ := hteardown sampleDeleted sampleTeardown.1.tail _ sampleTeardown_trace
    have hsample : teardown = sampleTeardown := rfl
    rw [hsample]
    exact (hclears undeletedWorld _ sampleTeardown_steps sampleTeardown_removes).1 _ List.mem_cons_self rfl

end DDO.Spec
