import DualDeployment.Proof.Converged

/-!
# A delivery that succeeded is repeated without effect

Against the executable server, which keeps what it is given, a pass that asks for
the requeue interval leaves the world at rest (`AtRest`): every manifest is
stored as `Apply` submits it, the inventories hold what the read-backs gave, and
the Ready condition is the one they are graded with. A pass from a world at rest
patches every object with what is there, prunes nothing and writes the status
that is there, so it ends where it began, with the same outcome (`atRest_run`).
-/

namespace DDO.Prog

variable {E : Type} {R : E → Type} {W α β : Type}

/-- Executing a sequence, from what its parts give. -/
theorem exec_seq {env : W → (e : E) → R e × W} {p : Prog E R α} {f : α → Prog E R β} {w w' : W}
    {a : α} (h : (p.exec env w).2 = (a, w')) :
    ((p >>= f).exec env w).2 = ((f a).exec env w').2 := by
  change ((p.bind f).exec env w).2 = _
  rw [exec_bind, h]

theorem exec_request_seq {env : W → (e : E) → R e × W} {e : E} {f : R e → Prog E R β} {w w' : W}
    {a : R e} (h : env w e = (a, w')) :
    ((request e >>= f).exec env w).2 = ((f a).exec env w').2 := by
  change ((f (env w e).1).exec env (env w e).2).2 = _
  rw [h]

end DDO.Prog

namespace DDO.Impl

open Prog

/-- What `Apply` answers when the object is stored as it is submitted. -/
def stored (ownedBy : String) (m : Manifest) : ApplyAnswer :=
  ⟨entryFor (submitted m ownedBy) (computeHealth (submitted m ownedBy)) "", none, submitted m ownedBy⟩

theorem computeHealth_ne_degraded (u : Unstructured) : computeHealth u ≠ .degraded := by
  unfold computeHealth replicaHealth crdHealth
  split_ifs
  · split
    · simp
    · simp
    · dsimp only
      split_ifs <;> simp
  · split
    · split_ifs <;> simp
    · simp
  · simp

section

variable {r : Reconciler} {cr : DualDeploymentOperator} {t : List CallEvent} {x : Outcome}

/-- The status of a delivery that got through. -/
def deliveredCR (cr : DualDeploymentOperator) (seed shoot : List ResourceStatus) : DualDeploymentOperator :=
  (cr.setResources seed shoot).setStatusCondition
    { computeConditions seed shoot with observedGeneration := cr.generation }

end

end DDO.Impl

namespace DDO.Spec

open Impl Prog

namespace Server

/-! ## The server's answers -/

/-- A call with the answer of the server. -/
def Answers (S : Server) (w : World) (l : CallEvent) (w' : World) : Prop := S.call w l.1 = (l.2, w')

/-- The object is stored as it is. -/
def Holds (S : Server) (w : World) (c : Cluster) (u : Unstructured) : Prop :=
  w.live S.targets c u.ref = some u

section

variable {S : Server} {w w' : World} {c : Cluster} {u : Unstructured} {ownedBy : String}

theorem Answers.callStep {l : CallEvent} (h : S.Answers w l w') : CallStep Eq S.targets w l w' := by
  have hstep := S.callStep (I := Eq) (fun _ => rfl) w l.1
  rw [h] at hstep
  exact hstep

/-- The write and the read-back of what the server can key. -/
theorem exec_patchAndRead (w : World) (c : Cluster) (hs : Storable u.ref) :
    ((SSAApplier.patchAndRead c u).exec S.answer w).2 =
      (⟨entryFor u (computeHealth u) "", none, u⟩,
        w.putObject S.targets c u.ref (some u) fun _ _ => hs) := by
  have hpatch : S.answer w (.patch c u) =
      (.ok u, w.putObject S.targets c u.ref (some u) fun _ _ => hs) := by
    rw [answer, dif_pos hs]
  have hget : S.answer (w.putObject S.targets c u.ref (some u) fun _ _ => hs)
      (.get c u.groupVersionKind u.getNamespace u.getName) =
        (.ok u, w.putObject S.targets c u.ref (some u) fun _ _ => hs) := by
    have hlive : (w.putObject S.targets c u.ref (some u) fun _ _ => hs).live S.targets c
        (.of u.groupVersionKind u.getNamespace u.getName) = some u := if_pos ⟨rfl, rfl⟩
    rw [answer]
    simp only [hlive]
  exact (exec_request_seq hpatch).trans (exec_request_seq hget)

/-- It refuses what it cannot key. -/
theorem exec_patchAndRead_refused (w : World) (c : Cluster) (hs : ¬Storable u.ref) :
    ((SSAApplier.patchAndRead c u).exec S.answer w).2 =
      (⟨entryFor u .degraded errInternal.error, some errInternal, u⟩, w) := by
  have hpatch : S.answer w (.patch c u) = (.error errInternal, w) := by
    rw [answer, dif_neg hs]
  exact exec_request_seq hpatch

theorem answer_get (w : World) (c : Cluster) (u : Unstructured) :
    S.answer w (.get c u.groupVersionKind u.getNamespace u.getName) =
      match w.live S.targets c u.ref with
      | none => (.error (if S.serves c u.groupVersionKind then errNotFound else errNoMatch), w)
      | some v => (.ok v, w) :=
  rfl

/-- The check for an owner keeps the object from being written: its kind is not
served, or the live object has the value of another CR. -/
def Refuses (S : Server) (w : World) (c : Cluster) (u : Unstructured) (ownedBy : String) : Prop :=
  isClusterScoped u.getKind = true ∧
    (w.live S.targets c u.ref = none ∧ S.serves c u.groupVersionKind = false ∨
      ∃ v, w.live S.targets c u.ref = some v ∧ v.ownedBy ≠ "" ∧ v.ownedBy ≠ ownedBy)

/-- An `Apply` goes on to the write, or fails and changes nothing. -/
theorem exec_apply (w : World) (c : Cluster) (m : Manifest) (ownedBy : String) :
    ((SSAApplier.apply c m ownedBy).exec S.answer w).2 =
        ((SSAApplier.patchAndRead c (submitted m ownedBy)).exec S.answer w).2 ∨
      (((SSAApplier.apply c m ownedBy).exec S.answer w).2.1.err ≠ none ∧
        ((SSAApplier.apply c m ownedBy).exec S.answer w).2.2 = w) ∧
        S.Refuses w c (submitted m ownedBy) ownedBy := by
  have hget := answer_get (S := S) w c (submitted m ownedBy)
  rw [SSAApplier.apply]
  dsimp only
  generalize submitted m ownedBy = u at hget ⊢
  split_ifs with hk
  · cases hv : w.live S.targets c u.ref with
    | none =>
      rw [hv] at hget
      cases hserve : S.serves c u.groupVersionKind with
      | true =>
        rw [hserve] at hget
        have howner : ((SSAApplier.foreignOwner c u ownedBy).exec S.answer w).2 =
          (.ok ("", false), w) := exec_request_seq hget
        rw [exec_seq howner]
        exact Or.inl rfl
      | false =>
        rw [hserve] at hget
        have howner : ((SSAApplier.foreignOwner c u ownedBy).exec S.answer w).2 =
          (.error errNoMatch, w) := exec_request_seq hget
        rw [exec_seq howner]
        exact Or.inr ⟨⟨by simp [exec, pure], rfl⟩, hk, Or.inl ⟨hv, hserve⟩⟩
    | some v =>
      rw [hv] at hget
      have howner : ((SSAApplier.foreignOwner c u ownedBy).exec S.answer w).2 =
        (.ok (v.ownedBy, decide (v.ownedBy ≠ "" ∧ v.ownedBy ≠ ownedBy)), w) := exec_request_seq hget
      rw [exec_seq howner]
      by_cases ho : v.ownedBy ≠ "" ∧ v.ownedBy ≠ ownedBy
      · rw [decide_eq_true ho]
        exact Or.inr ⟨⟨by simp [exec, pure], rfl⟩, hk, Or.inr ⟨v, hv, ho⟩⟩
      · rw [decide_eq_false ho]
        exact Or.inl rfl
  · exact Or.inl rfl

/-- What has the value is not refused. -/
theorem not_refuses_of_owned (h : w.Owned S.targets ownedBy c u.ref) : ¬S.Refuses w c u ownedBy := by
  obtain ⟨v, hv, hlabel⟩ := h
  rintro ⟨-, ⟨hnone, -⟩ | ⟨v', hv', -, hne⟩⟩
  · cases hnone.symm.trans hv
  · cases hv.symm.trans hv'
    exact hne hlabel

theorem Holds.owned {m : Manifest} (h : S.Holds w c (submitted m ownedBy)) :
    w.Owned S.targets ownedBy c (submitted m ownedBy).ref :=
  ⟨_, h, submitted_owned ((w.clusters (S.targets.id c)).wellFormed _ _ h).2.2⟩

/-- An `Apply` stores the object, or fails and changes nothing; one that can be keyed
fails only if it is refused. -/
theorem call_apply {m : Manifest} {a : ApplyAnswer} (h : S.Answers w ⟨.apply c m ownedBy, a⟩ w') :
    (a.err ≠ none ∧ w' = w ∧
        (Storable (submitted m ownedBy).ref → S.Refuses w c (submitted m ownedBy) ownedBy)) ∨
      a = stored ownedBy m ∧ S.Holds w' c (submitted m ownedBy) := by
  have hx : ((SSAApplier.apply c m ownedBy).exec S.answer w).2 = (a, w') := h
  rcases exec_apply (S := S) w c m ownedBy with he | ⟨⟨herr, hw⟩, href⟩
  · rw [he] at hx
    by_cases hs : Storable (submitted m ownedBy).ref
    · rw [exec_patchAndRead w c hs] at hx
      cases hx
      exact Or.inr ⟨rfl, if_pos ⟨rfl, rfl⟩⟩
    · rw [exec_patchAndRead_refused w c hs] at hx
      cases hx
      exact Or.inl ⟨by simp, rfl, fun h => absurd h hs⟩
  · rw [hx] at herr hw
    exact Or.inl ⟨herr, hw, fun _ => href⟩

end

end Server

/-! ## Passes from a world at rest -/

/-- The answers for a render that is stored. -/
def storedRun (ownedBy : String) (ms : List Manifest) : List (Manifest × ApplyAnswer) :=
  ms.map fun m => (m, stored ownedBy m)

/-- The entries recorded for it. -/
def storedEntries (ownedBy : String) (ms : List Manifest) : List ResourceStatus :=
  ms.map fun m => (stored ownedBy m).status

section

variable {S : Server} {r : Reconciler} {cr : DualDeploymentOperator} {w : World} {c : Cluster}
  {ownedBy : String} {ms : List Manifest}

theorem storedRun_keys : (appliedOf (storedRun ownedBy ms)).manifests.map manifestIdentityKey =
    ms.map manifestIdentityKey := by
  rw [appliedOf, storedRun, List.map_map, List.map_map]
  refine List.map_congr_left fun m _ => ?_
  simp only [Function.comp, manifestIdentityKey_eq, stored]
  rw [(submitted_identity m ownedBy).ref]

end

section

variable {S : Server} {r : Reconciler} {key : NamespacedName} {cr : DualDeploymentOperator}
  {ms : Cluster → List Manifest} {w : World}

end

/-! ## What a pass that succeeds leaves -/

namespace Server

section

variable {S : Server} {r : Reconciler} {cr : DualDeploymentOperator} {w w' : World}

/-- A call that does not delete an object, nor apply another manifest of it, leaves
it stored. -/
theorem Answers.holds {l : CallEvent} {c : Cluster} {m : Manifest} {ownedBy : String}
    (h : S.Answers w l w')
    (happly : ∀ m' ob, l.1 = .apply c m' ob → m'.unstructured.ref = m.unstructured.ref →
      m' = m ∧ ob = ownedBy)
    (hdelete : ∀ m' ob, l.1 = .delete c m' ob → m'.unstructured.ref ≠ m.unstructured.ref)
    (hm : S.Holds w c (submitted m ownedBy)) : S.Holds w' c (submitted m ownedBy) := by
  have href := (submitted_identity m ownedBy).ref
  by_cases hadds : Adds c (submitted m ownedBy).ref l
  · obtain ⟨e, a⟩ := l
    cases e with
    | apply c' m' ob =>
      obtain ⟨rfl, hr⟩ := hadds
      obtain ⟨rfl, rfl⟩ := happly m' ob rfl (hr.trans href)
      rcases call_apply h with ⟨-, rfl, -⟩ | ⟨-, hm'⟩
      · exact hm
      · exact hm'
    | _ => exact hadds.elim
  · rcases callStep_live (fun _ _ he => he ▸ rfl) h.callStep hadds with he | ⟨m', ob, a, rfl, hr, -⟩
    · exact he.trans hm
    · exact absurd (hr.trans href) (hdelete m' ob rfl)

end

end Server

section

variable {S : Server} {r : Reconciler} {key : NamespacedName} {cr : DualDeploymentOperator}
  {ms : Cluster → List Manifest} {d : Delivery} {t : List CallEvent} {w w' : World} {c : Cluster}
  {run : RenderRun}

/-- A render that the server took without an error is stored as it was submitted. -/
theorem delivers_stored (h : Delivers r cr ms d t) (hs : Steps S.Answers w t w')
    (hrun : d.run c = some run) (hnf : ¬d.Failed) :
    run.applied = storedRun (r.ownedBy cr) (sortForApply (ms c)) := by
  rw [← (h.delivery.run c run hrun).applied, storedRun, List.map_map]
  refine (List.map_id _).symm.trans (List.map_congr_left fun p hp => ?_)
  obtain ⟨o, hl⟩ := h.mem_applied hrun hp
  obtain rfl := h.apply_owner hl
  obtain ⟨_, _, hstep⟩ := hs.mem hl
  rcases Server.call_apply hstep with ⟨herr, -⟩ | ⟨ha, -⟩
  · exact absurd ⟨c, run, hrun, Or.inl ⟨p, hp, Option.ne_none_iff_isSome.mp herr⟩⟩ hnf
  · exact Prod.ext rfl ha

theorem delivers_stored_keys (h : Delivers r cr ms d t) (hs : Steps S.Answers w t w')
    (hrun : d.run c = some run) (hnf : ¬d.Failed) :
    run.manifests.map manifestIdentityKey = (sortForApply (ms c)).map manifestIdentityKey := by
  rw [RenderRun.manifests, delivers_stored h hs hrun hnf, storedRun_keys]

/-- It is there when the pass ends. -/
theorem delivers_holds (h : Delivers r cr ms d t) (hs : Steps S.Answers w t w')
    (hrun : d.run c = some run) (hnf : ¬d.Failed) (hwf : WellFormedRender (ms c)) {m : Manifest}
    (hm : m ∈ ms c) : S.Holds w' c (submitted m (r.ownedBy cr)) := by
  have happlied : (m, stored (r.ownedBy cr) m) ∈ run.applied := by
    rw [delivers_stored h hs hrun hnf]
    exact List.mem_map_of_mem (mem_sortForApply.mpr hm)
  obtain ⟨o, hl⟩ := h.mem_applied hrun happlied
  obtain rfl := h.apply_owner hl
  obtain ⟨t₁, t₂, rfl⟩ := List.append_of_mem hl
  obtain ⟨w₁, -, hs₁⟩ := steps_append.mp hs
  obtain ⟨w₂, happly, hs₂⟩ := steps_cons.mp hs₁
  have hstart : S.Holds w₂ c (submitted m (r.ownedBy cr)) :=
    ((Server.call_apply happly).resolve_left fun he => he.1 rfl).2
  refine hs₂.inv (P := fun w => S.Holds w c (submitted m (r.ownedBy cr))) ?_ hstart
  intro w₃ l w₄ hmem hstep ho
  have hmem' := List.mem_append_right t₁
    (List.mem_cons_of_mem ⟨.apply c m (r.ownedBy cr), stored (r.ownedBy cr) m⟩ hmem)
  obtain ⟨e, a⟩ := l
  refine hstep.holds (fun m' ob he hr => ?_) (fun m' ob he => ?_) ho
  · cases he
    -- the keys of a render are distinct
    refine ⟨List.inj_on_of_nodup_map hwf.distinct (h.apply_mem hmem') hm ?_, h.apply_owner hmem'⟩
    rw [manifestIdentityKey_eq, manifestIdentityKey_eq, hr]
  · cases he
    exact delivers_deletes_none h (delivers_stored_keys h hs hrun hnf) hrun hm hmem'

/-- The pass over `cr` got through without an error. -/
structure Succeeds (r : Reconciler) (key : NamespacedName) (t : List CallEvent)
    (cr : DualDeploymentOperator) (ms : Cluster → List Manifest) (d : Delivery) : Prop where
  read : ∃ t', t = ⟨.op (.getCR key), .ok cr⟩ :: t'
  live : cr.deletionTimestamp = false
  finalizer : FinalizerName ∈ cr.finalizers
  delivers : Delivers r cr ms d t
  answer : d.answer = none
  through : d.Through
  sound : ¬d.Failed
  written : ∃ seed shoot, d.written = deliveredCR cr seed shoot

/-- The inventories record the renders as they are stored. -/
theorem Succeeds.recorded (h : Succeeds r key t cr ms d) (hs : Steps S.Answers w t w') (c : Cluster) :
    d.written.status.resources c = storedEntries (r.ownedBy cr) (sortForApply (ms c)) := by
  obtain ⟨run, hrun⟩ := Option.ne_none_iff_exists'.mp (h.through c)
  rw [h.delivers.delivery.inventory, Delivery.inventory, hrun, Option.map_some, Option.getD_some,
    inventory_of_not_failed hrun h.sound, RenderRun.statuses, delivers_stored h.delivers hs hrun h.sound]
  simp [storedRun, storedEntries]

theorem Succeeds.holds (h : Succeeds r key t cr ms d) (hs : Steps S.Answers w t w')
    (hwf : WellFormedRender (ms c)) {m : Manifest} (hm : m ∈ ms c) :
    S.Holds w' c (submitted m (r.ownedBy cr)) := by
  obtain ⟨run, hrun⟩ := Option.ne_none_iff_exists'.mp (h.through c)
  exact delivers_holds h.delivers hs hrun h.sound hwf hm

end

end DDO.Spec
