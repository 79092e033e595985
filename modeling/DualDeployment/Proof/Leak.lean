import DualDeployment.Proof.Deletion
import DualDeployment.Proof.Gate
import DualDeployment.Proof.Refinement

/-!
# A status write that fails

A pass records what it applied only in its last call. If that status write
fails and the next pass renders without an object that the first one added,
neither the inventory nor the render leads to the object any more: it stays on
the cluster with the CR's owned-by value, and no inventory records it
(`failed_write_leaks`).
-/

namespace DDO.Spec

open Impl Prog

/-- Others leave the object and the status of the CR alone; they may edit its
spec. -/
structure LeavesAlone (T : Targets) (key : NamespacedName) (c : Cluster) (o : ObjRef)
    (w w' : World) : Prop where
  live : w'.live T c o = w.live T c o
  status : (w'.crs key).map (·.status) = (w.crs key).map (·.status)

theorem LeavesAlone.refl (T : Targets) (key : NamespacedName) (c : Cluster) (o : ObjRef) (w : World) :
    LeavesAlone T key c o w w :=
  ⟨rfl, rfl⟩

/-- The object is not live with the value, or the persisted inventory records
it. -/
def Accounted (w : World) (T : Targets) (ownedBy : String) (key : NamespacedName) (c : Cluster)
    (o : ObjRef) : Prop :=
  ¬w.Owned T ownedBy c o ∨
    ∃ cr, w.crs key = some cr ∧ ∃ rs ∈ cr.status.resources c, statusIdentityKey rs = o.key

/-! ## What a pass does to an object that is not recorded -/

section Calls

variable {T : Targets} {I : World → World → Prop} {w w' : World} {ownedBy : String} {c : Cluster}
  {o : ObjRef}

theorem Owned.storable (h : w.Owned T ownedBy c o) : Storable o := by
  obtain ⟨u, hu, -⟩ := h
  exact (w.clusters (T.id c)).wellFormed o u hu

/-- A call keeps an object owned unless it applies it with another value or
deletes it. -/
theorem callStep_owned (hI : ∀ w w', I w w' → w'.live T c o = w.live T c o) {l : CallEvent}
    (h : CallStep I T w l w') (ho : w.Owned T ownedBy c o)
    (happ : ∀ m v a, l = ⟨.apply c m v, a⟩ → v = ownedBy)
    (hdel : ∀ m v a, l = ⟨.delete c m v, a⟩ → m.unstructured.ref ≠ o) : w'.Owned T ownedBy c o := by
  have hname := (Owned.storable ho).2.2
  obtain ⟨u, hu, hlabel⟩ := ho
  by_cases ha : Adds c o l
  · obtain ⟨e, a⟩ := l
    cases e with
    | apply c' m v =>
      obtain ⟨rfl, rfl⟩ := ha
      obtain rfl := happ m v a rfl
      obtain ⟨us, htr, hs⟩ := h
      have href := (submitted_identity m v).ref
      rw [← href] at hI hu ⊢
      rcases applyRun_live hI (apply_trace htr) hs with ⟨he, -⟩ | ⟨u', hu', hl'⟩
      · exact ⟨u, he.trans hu, hlabel⟩
      · exact ⟨u', hu', hl'.trans (submitted_ownedBy v hname)⟩
    | _ => exact ha.elim
  · rcases callStep_live hI h ha with he | ⟨m, v, a, rfl, hm, -⟩
    · exact ⟨u, he.trans hu, hlabel⟩
    · exact absurd hm (hdel m v a rfl)

/-- An `Apply` that succeeds leaves its object owned. -/
theorem apply_owned {m : Manifest} {a : ApplyAnswer}
    (hI : ∀ w w', I w w' → w'.live T c m.unstructured.ref = w.live T c m.unstructured.ref)
    (h : CallStep I T w ⟨.apply c m ownedBy, a⟩ w') (ha : a.err = none) :
    w'.Owned T ownedBy c m.unstructured.ref := by
  obtain ⟨us, htr, hs⟩ := h
  have href := (submitted_identity m ownedBy).ref
  rw [← href] at hI ⊢
  rcases applyRun_live hI (apply_trace htr) hs with ⟨-, he⟩ | ⟨v, hv, hl⟩
  · exact absurd ha he
  · have hst := (w'.clusters (T.id c)).wellFormed _ v hv
    rw [href] at hst
    exact ⟨v, hv, hl.trans (submitted_ownedBy ownedBy hst.2.2)⟩

/-- The entry of an `Apply` that succeeds has the key of the manifest. -/
theorem apply_entry_key {m : Manifest} {v : String} {a : ApplyAnswer}
    (h : CallStep I T w ⟨.apply c m v, a⟩ w') (ha : a.err = none) :
    statusIdentityKey a.status = manifestIdentityKey m := by
  obtain ⟨us, htr, hs⟩ := h
  cases apply_trace htr with
  | unchecked _ _ => cases ha
  | conflict _ _ => cases ha
  | failed _ => cases ha
  | applied _ =>
    obtain ⟨w₁, -, hs⟩ := steps_append.mp hs
    obtain ⟨w₂, ⟨w₃, -, hstep⟩, -⟩ := steps_cons.mp hs
    cases hstep with
    | patch _ hset =>
      -- what the server took has a kind, so its apiVersion can be parsed
      have hkind := ((w₂.clusters (T.id c)).wellFormed _ _ hset.live_self).2.1
      have hparse : (parseGroupVersion (submitted m v).getAPIVersion).isSome = true := by
        by_contra hn
        rw [Bool.not_eq_true, Option.isSome_eq_false_iff, Option.isNone_iff_eq_none] at hn
        refine hkind ?_
        rw [Unstructured.ref, ObjRef.of, Unstructured.groupVersionKind, hn]
      rw [statusIdentityKey_eq, entryFor_ref hparse, (submitted_identity m v).ref,
        manifestIdentityKey_eq]

end Calls

section Passes

variable {r : Reconciler} {key : NamespacedName} {cr : DualDeploymentOperator}
  {t : List CallEvent} {x : Outcome} {T : Targets} {I : World → World → Prop} {w w' : World}
  {c : Cluster} {o : ObjRef}

/-- A pass applies everything with the CR's own value. -/
theorem normal_apply (h : Trace (reconcile r key) (⟨.op (.getCR key), .ok cr⟩ :: t) x)
    (hd : cr.deletionTimestamp = false) {m : Manifest} {v : String} {a : ApplyAnswer}
    (hl : ⟨.apply c m v, a⟩ ∈ ⟨.op (.getCR key), .ok cr⟩ :: t) : v = r.ownedBy cr := by
  obtain ⟨-, ms, d, hdel⟩ := reconcile_calls h hd hl (by simp)
  exact hdel.apply_owner hl

/-- No part of a pass takes an object that is not recorded from the CR. -/
theorem normal_owned (h : Trace (reconcile r key) (⟨.op (.getCR key), .ok cr⟩ :: t) x)
    (hd : cr.deletionTimestamp = false)
    (hn : ∀ rs ∈ cr.status.resources c, statusIdentityKey rs ≠ o.key)
    (hI : ∀ w w', I w w' → w'.live T c o = w.live T c o) {t' : List CallEvent}
    (hsub : ∀ l ∈ t', l ∈ ⟨.op (.getCR key), .ok cr⟩ :: t) (hs : Steps (CallStep I T) w t' w')
    (ho : w.Owned T (r.ownedBy cr) c o) : w'.Owned T (r.ownedBy cr) c o := by
  refine hs.inv (P := fun w => w.Owned T (r.ownedBy cr) c o) (fun w₁ l w₂ hl hstep ho => ?_) ho
  refine callStep_owned hI hstep ho (fun m v a he => ?_) fun m v a he href => ?_
  · exact normal_apply h hd (he ▸ hsub l hl)
  · obtain ⟨_, _, _, -, -, -, rs, hrs, rfl, -⟩ := normal_delete h hd (he ▸ hsub l hl)
    rw [manifestFromStatus_ref] at href
    exact hn rs hrs (by rw [statusIdentityKey_eq, href])

/-- A pass that applies an object that was not recorded leaves it owned. -/
theorem normal_applied (h : Trace (reconcile r key) (⟨.op (.getCR key), .ok cr⟩ :: t) x)
    (hd : cr.deletionTimestamp = false)
    (hn : ∀ rs ∈ cr.status.resources c, statusIdentityKey rs ≠ o.key)
    (hI : ∀ w w', I w w' → w'.live T c o = w.live T c o)
    (hs : Steps (CallStep I T) w (⟨.op (.getCR key), .ok cr⟩ :: t) w') {m : Manifest} {v : String}
    {a : ApplyAnswer} (hl : ⟨.apply c m v, a⟩ ∈ ⟨.op (.getCR key), .ok cr⟩ :: t)
    (ha : a.err = none) (hm : m.unstructured.ref = o) : w'.Owned T (r.ownedBy cr) c o := by
  subst hm
  obtain rfl := normal_apply h hd hl
  obtain ⟨t₁, t₂, he⟩ := List.append_of_mem hl
  rw [he] at hs
  obtain ⟨w₁, -, hs⟩ := steps_append.mp hs
  obtain ⟨w₂, hstep, hs⟩ := steps_cons.mp hs
  refine normal_owned h hd hn hI (fun l hl => ?_) hs (apply_owned hI hstep ha)
  rw [he]
  exact List.mem_append_right _ (List.mem_cons_of_mem _ hl)

/-- The CR a pass reads has the persisted status. -/
theorem read_status (hI : ∀ w w', I w w' → (w'.crs key).map (·.status) = (w.crs key).map (·.status))
    (hs : Steps (CallStep I T) w (⟨.op (.getCR key), .ok cr⟩ :: t) w') :
    (w.crs key).map (·.status) = some cr.status ∧ cr.key = key := by
  obtain ⟨w₁, hstep, -⟩ := steps_cons.mp hs
  obtain ⟨w₂, hi, hstep⟩ := callStep_op hstep
  cases hstep with
  | quiet hq => exact hq.elim
  | getCR hcr => exact ⟨by rw [← hI _ _ hi, hcr]; rfl, w₁.named _ _ hcr⟩

/-- The inventory that a delivery writes does not record an object that was
neither recorded nor rendered, if every `Apply` succeeds. -/
theorem delivery_unrecorded {ms : Cluster → List Manifest} {d : Delivery} (h : Delivers r cr ms d t)
    (hn : ∀ rs ∈ cr.status.resources c, statusIdentityKey rs ≠ o.key)
    (hleft : ∀ m ∈ ms c, manifestIdentityKey m ≠ o.key)
    (hok : ∀ m v a, ⟨.apply c m v, a⟩ ∈ t → a.err = none) (hs : Steps (CallStep I T) w t w') :
    ∀ rs ∈ d.written.status.resources c, statusIdentityKey rs ≠ o.key := by
  rw [h.delivery.inventory, Delivery.inventory]
  cases hr : d.run c with
  | none => exact hn
  | some run =>
    have hof := h.delivery.run c run hr
    intro rs hrs
    rcases List.mem_append.mp hrs with hrs | hrs
    · obtain ⟨p, hp, rfl⟩ := List.mem_map.mp hrs
      have hap : p ∈ appliesTo c t := by rw [h.appliesTo_eq, Delivery.applied, hr]; exact hp
      obtain ⟨v, hl⟩ := mem_appliesTo.mp hap
      obtain ⟨w₁, w₂, hstep⟩ := hs.mem hl
      rw [apply_entry_key hstep (hok _ _ _ hl)]
      refine hleft p.1 (mem_sortForApply.mp ?_)
      rw [← hof.applied]
      exact List.mem_map_of_mem hp
    · obtain ⟨p, hp, -, rfl⟩ := mem_retainedOf.mp hrs
      refine hn p.1 (mem_sortStatusForDelete.mp ?_)
      rw [← hof.pruned]
      exact List.mem_map_of_mem hp

/-- Nor does the persisted inventory at the end of the pass. -/
theorem normal_unrecorded (h : Trace (reconcile r key) (⟨.op (.getCR key), .ok cr⟩ :: t) x)
    (hd : cr.deletionTimestamp = false)
    (hn : ∀ rs ∈ cr.status.resources c, statusIdentityKey rs ≠ o.key)
    (hleft : ∀ ms, Renders r (⟨.op (.getCR key), .ok cr⟩ :: t) cr ms →
      ∀ m ∈ ms c, manifestIdentityKey m ≠ o.key)
    (hok : ∀ m v a, ⟨.apply c m v, a⟩ ∈ ⟨.op (.getCR key), .ok cr⟩ :: t → a.err = none)
    (hwr : ∀ wr e, ⟨.op (.updateStatus wr), e⟩ ∈ ⟨.op (.getCR key), .ok cr⟩ :: t → e = none)
    (hI : ∀ w w', I w w' → (w'.crs key).map (·.status) = (w.crs key).map (·.status))
    (hs : Steps (CallStep I T) w (⟨.op (.getCR key), .ok cr⟩ :: t) w') {p : DualDeploymentOperator}
    (hp : w'.crs key = some p) : ∀ rs ∈ p.status.resources c, statusIdentityKey rs ≠ o.key := by
  obtain ⟨hst, hkey⟩ := read_status hI hs
  -- a pass that ends in a status write persists what it writes
  have written : ∀ t₀ wr e, t = t₀ ++ [⟨.op (.updateStatus wr), e⟩] → wr.key = key →
      p.status = wr.status := by
    rintro t₀ wr e rfl hk
    obtain rfl := hwr wr e (by simp)
    rw [← List.cons_append] at hs
    obtain ⟨p', hp', hst'⟩ := persists hs
    rw [hk, hp] at hp'
    cases hp'
    exact hst'
  cases reconcile_normal h hd with
  | addFinalizer e hf =>
    have hkeep := hs.inv (P := fun w₁ => (w₁.crs key).map (·.status) = (w.crs key).map (·.status))
      (fun w₁ l w₂ hl hstep hw₁ => (callStep_crs hI hstep ?_).trans hw₁) rfl
    · rw [hp, hst] at hkeep
      have hps : p.status = cr.status := Option.some.inj hkeep
      rw [hps]
      exact hn
    · rcases List.mem_cons.mp hl with rfl | hl
      · trivial
      · rw [List.mem_singleton.mp hl]
        intro _ old
        simp [updated]
  | @failed tp reason err e _ hpipe =>
    rw [written tp _ e rfl hkey]
    cases c <;> exact hn
  | @delivered tp seed shoot d _ hpipe hof =>
    have hdel : Delivers r cr (perCluster seed shoot) d _ := ⟨hof, key, tp, seed, shoot, rfl, hpipe, rfl⟩
    obtain ⟨t₀, ht, -⟩ := hdel.write
    rw [written t₀ _ _ ht (hof.key.trans hkey)]
    exact delivery_unrecorded hdel hn (hleft _ hdel.renders) hok hs

end Passes

/-! ## Two passes -/

def succeeds : CallEvent → Bool
  | ⟨.op (.getCR _), a⟩ => a.isOk
  | ⟨.op (.updateCR _), e⟩ => e.isNone
  | ⟨.op (.updateStatus _), e⟩ => e.isNone
  | ⟨.op (.sourceFrom _ _), a⟩ => a.isOk
  | ⟨.op (.render _ _ _), a⟩ => a.isOk
  | ⟨.op (.event _), _⟩ => true
  | ⟨.buildShoot _, a⟩ => a.isOk
  | ⟨.apply _ _ _, a⟩ => a.err.isNone
  | ⟨.get _ _, a⟩ => a.isOk
  | ⟨.delete _ _ _, e⟩ => e.isNone

/-- The pass reads `cr`, which is not being deleted and does not record the
object, applies the object, and fails to write the status, which stays as it
was. -/
structure LostWrite (key : NamespacedName) (cr : DualDeploymentOperator) (c : Cluster) (o : ObjRef)
    (t : List CallEvent) (w w' : World) : Prop where
  read : t.head? = some ⟨.op (.getCR key), .ok cr⟩
  notDeleted : cr.deletionTimestamp = false
  unrecorded : ∀ rs ∈ cr.status.resources c, statusIdentityKey rs ≠ o.key
  applied : ∃ m v a, ⟨.apply c m v, a⟩ ∈ t ∧ a.err = none ∧ m.unstructured.ref = o
  failed : ∃ wr e, ⟨.op (.updateStatus wr), some e⟩ ∈ t
  unchanged : (w'.crs key).map (·.status) = (w.crs key).map (·.status)

/-- The pass reads `cr`, which is not being deleted, renders without the
object, and every call of it succeeds. -/
structure CleanPass (r : Reconciler) (key : NamespacedName) (cr : DualDeploymentOperator) (c : Cluster)
    (o : ObjRef) (t : List CallEvent) : Prop where
  read : t.head? = some ⟨.op (.getCR key), .ok cr⟩
  notDeleted : cr.deletionTimestamp = false
  left : ∀ ms, Renders r t cr ms → ∀ m ∈ ms c, manifestIdentityKey m ≠ o.key
  succeeds : t.all succeeds = true

/-- Whenever a pass that added an object loses its status write and the next
pass renders without the object, with every call succeeding and nobody else
touching the object or the status, the object is not accounted for. -/
theorem failed_write_leaks {r : Reconciler} {key : NamespacedName} {T : Targets} {c : Cluster}
    {o : ObjRef} {cr₁ cr₂ : DualDeploymentOperator} {t₁ t₂ : List CallEvent} {x₁ x₂ : Outcome}
    {w₀ w₁ w₂ w₃ : World} (h₁ : Trace (reconcile r key) t₁ x₁)
    (hs₁ : Steps (CallStep (LeavesAlone T key c o) T) w₀ t₁ w₁)
    (hlost : LostWrite key cr₁ c o t₁ w₀ w₁) (hbetween : LeavesAlone T key c o w₁ w₂)
    (h₂ : Trace (reconcile r key) t₂ x₂)
    (hs₂ : Steps (CallStep (LeavesAlone T key c o) T) w₂ t₂ w₃)
    (hclean : CleanPass r key cr₂ c o t₂) : ¬Accounted w₃ T (ownedByKey r key) key c o := by
  obtain ⟨t₁, rfl⟩ := List.head?_eq_some_iff.mp hlost.read
  obtain ⟨t₂, rfl⟩ := List.head?_eq_some_iff.mp hclean.read
  obtain ⟨hst₁, hkey₁⟩ := read_status (fun _ _ h => h.status) hs₁
  obtain ⟨hst₂, hkey₂⟩ := read_status (fun _ _ h => h.status) hs₂
  -- the second pass reads the status the first one read
  have hst : cr₂.status = cr₁.status := by
    rw [hbetween.status, hlost.unchanged, hst₁] at hst₂
    exact (Option.some.inj hst₂).symm
  have hn₂ : ∀ rs ∈ cr₂.status.resources c, statusIdentityKey rs ≠ o.key := hst ▸ hlost.unrecorded
  have howned : w₃.Owned T (ownedByKey r key) c o := by
    obtain ⟨m, v, a, hl, ha, hm⟩ := hlost.applied
    have ho₁ := normal_applied h₁ hlost.notDeleted hlost.unrecorded (fun _ _ h => h.live) hs₁ hl ha hm
    rw [ownedBy_eq hkey₁, ← ownedBy_eq hkey₂] at ho₁
    obtain ⟨u, hu, hlabel⟩ := ho₁
    rw [← ownedBy_eq hkey₂]
    exact normal_owned h₂ hclean.notDeleted hn₂ (fun _ _ h => h.live) (fun _ hl => hl) hs₂
      ⟨u, hbetween.live.trans hu, hlabel⟩
  have hok := List.all_eq_true.mp hclean.succeeds
  rintro (hno | ⟨p, hp, rs, hrs, hk⟩)
  · exact hno howned
  · exact normal_unrecorded h₂ hclean.notDeleted hn₂ hclean.left
      (fun m v a hl => by simpa [succeeds] using hok _ hl)
      (fun wr e hl => by simpa [succeeds] using hok _ hl) (fun _ _ h => h.status) hs₂ hp rs hrs hk

/-! ## A ConfigMap that was rendered once -/

/-- The call renders no manifest of the object. -/
def rendersWithout (o : ObjRef) : CallEvent → Bool
  | ⟨.op (.render _ _ _), .ok ms⟩ => ms.all fun m => manifestIdentityKey m ≠ o.key
  | _ => true

theorem left_of_check {r : Reconciler} (hr : ∀ specs, r.build specs = .ok []) {o : ObjRef}
    {t : List CallEvent} (h : t.all (rendersWithout o) = true) {cr : DualDeploymentOperator} :
    ∀ ms, Renders r t cr ms → ∀ c, ∀ m ∈ ms c, manifestIdentityKey m ≠ o.key := by
  rw [List.all_eq_true] at h
  rintro _ ⟨key, tp, rest, seed, shoot, rfl, hp, rfl⟩ c m hm
  obtain ⟨src, seed₀, shoot₀, ts, hseed, hshoot, hb, ht⟩ := pipeline_ok hp
  obtain rfl : [] = ts := by simpa using (hr _).symm.trans hb
  cases ht
  have hmem : ∀ l ∈ tp, rendersWithout o l = true := fun l hl =>
    h l (List.mem_cons_of_mem _ (List.mem_append_left _ hl))
  cases c with
  | seed => exact of_decide_eq_true (List.all_eq_true.mp (hmem _ hseed) m hm)
  | shoot => exact of_decide_eq_true (List.all_eq_true.mp (hmem _ hshoot) m hm)

def leakedConfig : Manifest := bare "v1" "ConfigMap" "garden" "config"

def lostServer : Server := { sampleServer [leakedConfig] [] with failsStatus := true }

/-- A pass that renders the ConfigMap and fails its status write. -/
def lostPass : List CallEvent × Outcome × World :=
  lostServer.run sampleReconciler sampleKey (sampleWorld (sampleCR .seedFirst .retain) rfl)

/-- The next pass, which renders nothing. -/
def cleanPass : List CallEvent × Outcome × World :=
  (sampleServer [] []).run sampleReconciler sampleKey lostPass.2.2

theorem lostPass_lostWrite : LostWrite sampleKey (sampleCR .seedFirst .retain) .seed
    leakedConfig.unstructured.ref lostPass.1 (sampleWorld (sampleCR .seedFirst .retain) rfl)
    lostPass.2.2 where
  read := rfl
  notDeleted := rfl
  unrecorded := by simp [sampleCR, Status.resources]
  applied := by
    obtain ⟨v, hv⟩ := mem_appliesTo.mp (show (leakedConfig, _) ∈ appliesTo .seed lostPass.1 from
      List.mem_cons_self)
    exact ⟨_, v, _, hv, rfl, rfl⟩
  failed := ⟨_, errInternal, List.mem_of_getLast? rfl⟩
  unchanged := rfl

theorem cleanPass_clean : CleanPass sampleReconciler sampleKey (sampleCR .seedFirst .retain) .seed
    leakedConfig.unstructured.ref cleanPass.1 where
  read := rfl
  notDeleted := rfl
  left ms hr := left_of_check (fun _ => rfl) (by decide +kernel) ms hr .seed
  succeeds := by decide +kernel

theorem failed_write_leaks_sample :
    ¬Accounted cleanPass.2.2 sampleTargets (ownedByKey sampleReconciler sampleKey) sampleKey .seed
      leakedConfig.unstructured.ref := by
  have hI := LeavesAlone.refl sampleTargets sampleKey .seed leakedConfig.unstructured.ref
  exact failed_write_leaks (lostServer.run_trace ..) (lostServer.run_steps hI ..) lostPass_lostWrite
    (hI _) ((sampleServer [] []).run_trace ..) ((sampleServer [] []).run_steps hI ..) cleanPass_clean

/-- The ConfigMap is still on the seed with the CR's value, and the persisted
inventory is empty. -/
theorem config_leaked :
    Trace (reconcile sampleReconciler sampleKey) lostPass.1 lostPass.2.1 ∧
      Steps (CallStep Eq sampleTargets) (sampleWorld (sampleCR .seedFirst .retain) rfl) lostPass.1
        lostPass.2.2 ∧
      LostWrite sampleKey (sampleCR .seedFirst .retain) .seed leakedConfig.unstructured.ref lostPass.1
        (sampleWorld (sampleCR .seedFirst .retain) rfl) lostPass.2.2 ∧
      Trace (reconcile sampleReconciler sampleKey) cleanPass.1 cleanPass.2.1 ∧
      Steps (CallStep Eq sampleTargets) lostPass.2.2 cleanPass.1 cleanPass.2.2 ∧
      CleanPass sampleReconciler sampleKey (sampleCR .seedFirst .retain) .seed
        leakedConfig.unstructured.ref cleanPass.1 ∧
      ¬Accounted cleanPass.2.2 sampleTargets (ownedByKey sampleReconciler sampleKey) sampleKey .seed
        leakedConfig.unstructured.ref := by
  refine ⟨lostServer.run_trace .., lostServer.run_steps (fun _ => rfl) .., lostPass_lostWrite,
    (sampleServer [] []).run_trace .., (sampleServer [] []).run_steps (fun _ => rfl) ..,
    cleanPass_clean, ?_⟩
  rintro (hno | ⟨cr, hcr, rs, hrs, -⟩)
  · exact hno ⟨_, rfl, by decide +kernel⟩
  · have hempty : (cleanPass.2.2.crs sampleKey).map (·.status.seedResources) = some [] := rfl
    rw [hcr] at hempty
    have hnil : cr.status.seedResources = [] := Option.some.inj hempty
    rw [Status.resources, hnil] at hrs
    cases hrs

end DDO.Spec
