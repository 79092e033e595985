import DualDeployment.Proof.Refinement
import DualDeployment.Spec.Runs
import DualDeployment.Spec.Server

/-!
# The inventories cover what the CR owns

Over any run of passes that do not delete the CR, every live object with the
CR's owned-by value is recorded in the inventory of its cluster, apart from
CRDs that left the render while the policy kept them, and no identity key is
recorded twice (`inventory_covers`). One pass keeps this on the ledger
(`pass_covered`), for whatever calls fail.
-/

namespace DDO.Spec

open Impl Prog

/-! ## The invariant -/

/-- The identity keys of an inventory. -/
def recordedKeys (inv : List ResourceStatus) : List String := inv.map statusIdentityKey

/-- Every owned object is recorded or exempt, and no key is recorded twice. -/
structure Covered (owned exempt : Cluster → ObjRef → Prop) (st : Status) : Prop where
  recorded : ∀ c o, owned c o → o.key ∈ recordedKeys (st.resources c) ∨ exempt c o
  distinct : ∀ c, (recordedKeys (st.resources c)).Nodup

theorem Covered.mono {owned owned' exempt exempt' : Cluster → ObjRef → Prop} {st st' : Status}
    (h : Covered owned exempt st) (ho : ∀ c o, owned' c o → owned c o)
    (he : ∀ c o, exempt c o → exempt' c o) (hst : ∀ c, st'.resources c = st.resources c) :
    Covered owned' exempt' st' := by
  refine ⟨fun c o h' => ?_, fun c => by rw [hst]; exact h.distinct c⟩
  rw [hst]
  exact (h.recorded c o (ho c o h')).imp_right (he c o)

/-- The render has distinct identity keys and well-formed apiVersions. -/
structure WellFormedRender (ms : List Manifest) : Prop where
  distinct : (ms.map manifestIdentityKey).Nodup
  apiVersions : ∀ m ∈ ms, (parseGroupVersion m.unstructured.getAPIVersion).isSome

/-- In this pass the object, a recorded CRD, was not in the render, while the
policy kept CRDs. -/
def LeftRender (r : Reconciler) (t : List CallEvent) (c : Cluster) (o : ObjRef) : Prop :=
  ∃ cr ms, Renders r t cr ms ∧ o.kind = "CustomResourceDefinition" ∧
    cr.spec.retentionPolicy.crds ≠ .delete ∧ o.key ∈ recordedKeys (cr.status.resources c) ∧
    o.key ∉ (ms c).map manifestIdentityKey

/-- A pass over a CR that is not being deleted, whose status writes succeed and
whose renders are well formed. -/
structure DeliveryPass (r : Reconciler) (t : List CallEvent) : Prop where
  notDeleted : ∀ key cr, ⟨.op (.getCR key), .ok cr⟩ ∈ t → cr.deletionTimestamp = false
  written : ∀ cr e, ⟨.op (.updateStatus cr), e⟩ ∈ t → e = none
  renders : ∀ cr ms, Renders r t cr ms → ∀ c, WellFormedRender (ms c)

instance (ms : List Manifest) : Decidable (WellFormedRender ms) :=
  decidable_of_iff ((ms.map manifestIdentityKey).Nodup ∧
    ∀ m ∈ ms, (parseGroupVersion m.unstructured.getAPIVersion).isSome = true)
    ⟨fun h => ⟨h.1, h.2⟩, fun h => ⟨h.1, h.2⟩⟩

/-- What a delivery pass asks of one call, for a reconciler without
transformations. -/
def passCheck : CallEvent → Bool
  | ⟨.op (.getCR _), .ok cr⟩ => !cr.deletionTimestamp
  | ⟨.op (.updateStatus _), e⟩ => e.isNone
  | ⟨.op (.render _ _ _), .ok ms⟩ => decide (WellFormedRender ms)
  | _ => true

theorem DeliveryPass.of_check {r : Reconciler} (hr : ∀ specs, r.build specs = .ok [])
    {t : List CallEvent} (h : t.all passCheck = true) : DeliveryPass r t := by
  rw [List.all_eq_true] at h
  refine ⟨fun key cr hm => by simpa [passCheck] using h _ hm,
    fun cr e hm => by simpa [passCheck] using h _ hm, ?_⟩
  rintro cr _ ⟨key, tp, rest, seed, shoot, rfl, hp, rfl⟩ c
  obtain ⟨src, seed₀, shoot₀, ts, hseed, hshoot, hb, ht⟩ := pipeline_ok hp
  obtain rfl : [] = ts := by simpa using (hr _).symm.trans hb
  cases ht
  have hmem : ∀ l ∈ tp, passCheck l = true := fun l hl =>
    h l (List.mem_cons_of_mem _ (List.mem_append_left _ hl))
  cases c with
  | seed => exact of_decide_eq_true (hmem _ hseed)
  | shoot => exact of_decide_eq_true (hmem _ hshoot)

/-! ## One delivery -/

section

variable {r : Reconciler} {cr : DualDeploymentOperator} {ms : Cluster → List Manifest}
  {d : Delivery} {ownedBy : String} {key : NamespacedName} {s s' : Ledger}
  {c : Cluster} {o : ObjRef} {run : RenderRun}

theorem not_adds_of_mem_prunes {l : CallEvent} (hl : l ∈ d.prunes ownedBy c) {c' : Cluster} :
    ¬Adds c' o l := by
  obtain ⟨run, -, hl⟩ := Delivery.mem_prunes.mp hl
  rcases mem_pruneEvents hl with ⟨p, -, ⟨a, rfl⟩ | ⟨a, rfl⟩⟩ <;> exact id

/-- What a delivery adds to a cluster is in the render that it applies there. -/
theorem delivery_adds (hd : d.Of r cr ms) {l : CallEvent} (hl : l ∈ d.events ownedBy cr)
    (ha : Adds c o l) : (d.run c).isSome ∧ o.key ∈ (ms c).map manifestIdentityKey := by
  cases Delivery.makes_of_mem hl with
  | @apply _ _ p hrun hp =>
    obtain ⟨rfl, rfl⟩ := ha
    refine ⟨by rw [hrun]; rfl, List.mem_map.mpr ⟨p.1, ?_, manifestIdentityKey_eq _⟩⟩
    rw [← mem_sortForApply, ← (hd.run _ _ hrun).applied]
    exact List.mem_map_of_mem hp
  | _ => exact ha.elim

/-- An entry whose object an answer cleared is not owned at the end. -/
theorem delivery_clears (hs : Steps (Ledger.Step ownedBy key) s (d.events ownedBy cr) s')
    {l : CallEvent} (hl : l ∈ d.prunes ownedBy c) (hc : Clears ownedBy c o l) : ¬s'.owned c o := by
  have hmem : l ∈ cr.applyClusters.reverse.flatMap (d.prunes ownedBy) :=
    List.mem_flatMap.mpr ⟨c, by simpa using mem_applyClusters cr c, hl⟩
  obtain ⟨t₁, t₂, ht⟩ := List.append_of_mem hmem
  rw [Delivery.events, ht] at hs
  refine Ledger.steps_clears (_ :: (_ ++ t₁)) (t₂ ++ [_])
    (by simpa only [List.cons_append, List.append_assoc] using hs) hc fun l' hl' => ?_
  rcases List.mem_append.mp hl' with hl' | hl'
  · have : l' ∈ cr.applyClusters.reverse.flatMap (d.prunes ownedBy) := by
      rw [ht]
      exact List.mem_append_right _ (List.mem_cons_of_mem _ hl')
    obtain ⟨c', -, hl'⟩ := List.mem_flatMap.mp this
    exact not_adds_of_mem_prunes hl'
  · rw [List.mem_singleton.mp hl']
    exact id

/-! ## The inventory of a run -/

/-- `Apply` returned an entry for each manifest and left its identity alone. -/
structure Faithful (run : RenderRun) : Prop where
  object : ∀ p ∈ run.applied, p.2.object.ref = p.1.unstructured.ref
  status : ∀ p ∈ run.applied, ∃ health msg, p.2.status = entryFor p.1.unstructured health msg

theorem delivery_faithful (hs : Steps (Ledger.Step ownedBy key) s (d.events ownedBy cr) s')
    (hrun : d.run c = some run) : Faithful run := by
  have hstep : ∀ p ∈ run.applied, p.2.object.ref = p.1.unstructured.ref ∧
      ∃ health msg, p.2.status = entryFor p.1.unstructured health msg := by
    intro p hp
    obtain ⟨_, _, h⟩ := hs.mem (Delivery.mem_events.mpr (Or.inr (Or.inl
      ⟨c, Delivery.mem_applies.mpr ⟨run, hrun, mem_applyEvents.mpr ⟨p, hp, rfl⟩⟩⟩)))
    exact h.returns _ _ _ _ rfl
  exact ⟨fun p hp => (hstep p hp).1, fun p hp => (hstep p hp).2⟩

/-- The keys `prune` compares with are those of the render. -/
theorem manifests_keys (hf : Faithful run) {ms : List Manifest} (hrun : run.Of cr c ownedBy ms) :
    run.manifests.map manifestIdentityKey = ms.map manifestIdentityKey := by
  rw [← hrun.applied, RenderRun.manifests, appliedOf, List.map_map, List.map_map]
  refine List.map_congr_left fun p hp => ?_
  rw [Function.comp, Function.comp, manifestIdentityKey_eq, manifestIdentityKey_eq, hf.object p hp]

/-- The keys it records are those of the render. -/
theorem statuses_keys (hf : Faithful run) {ms : List Manifest} (hrun : run.Of cr c ownedBy ms)
    (hv : ∀ m ∈ ms, (parseGroupVersion m.unstructured.getAPIVersion).isSome) :
    recordedKeys run.statuses = ms.map manifestIdentityKey := by
  rw [← hrun.applied, RenderRun.statuses, recordedKeys, List.map_map, List.map_map]
  refine List.map_congr_left fun p hp => ?_
  obtain ⟨health, msg, h⟩ := hf.status p hp
  have hm : p.1 ∈ ms := by
    rw [← hrun.applied]
    exact List.mem_map_of_mem hp
  rw [Function.comp, Function.comp, h, statusIdentityKey_eq, entryFor_ref (hv _ hm),
    manifestIdentityKey_eq]

theorem recordedKeys_append (l₁ l₂ : List ResourceStatus) :
    recordedKeys (l₁ ++ l₂) = recordedKeys l₁ ++ recordedKeys l₂ :=
  List.map_append

/-- No key is recorded twice: the render's are distinct, the retained ones
were, and a retained entry is not in the render. -/
theorem inventory_distinct (hf : Faithful run) (hrun : run.Of cr c ownedBy (sortForApply (ms c)))
    (hwf : WellFormedRender (ms c)) (hprev : (recordedKeys (cr.status.resources c)).Nodup) :
    (recordedKeys run.inventory).Nodup := by
  have hms : ((sortForApply (ms c)).map manifestIdentityKey).Perm ((ms c).map manifestIdentityKey) :=
    (List.perm_insertionSort _ _).map _
  have hret : (recordedKeys (retainedOf run.pruned)).Sublist
      (recordedKeys (sortStatusForDelete (cr.status.resources c))) := by
    rw [← hrun.pruned]
    exact (List.filter_sublist.map _).map _
  have hsorted : (recordedKeys (sortStatusForDelete (cr.status.resources c))).Perm
      (recordedKeys (cr.status.resources c)) :=
    (List.perm_insertionSort _ _).map _
  rw [RenderRun.inventory, recordedKeys_append, statuses_keys hf hrun fun m hm =>
    hwf.apiVersions m (mem_sortForApply.mp hm)]
  refine List.nodup_append.mpr ⟨hms.nodup_iff.mpr hwf.distinct,
    (hsorted.nodup_iff.mpr hprev).sublist hret, ?_⟩
  rintro k hk k' hk' rfl
  obtain ⟨rs, hrs, rfl⟩ := List.mem_map.mp hk'
  obtain ⟨p, hp, he, rfl⟩ := mem_retainedOf.mp hrs
  have ho := (hrun.fits p hp).orphan he
  rw [manifests_keys hf hrun] at ho
  exact ho.1 hk

/-- An entry that was recorded and whose object is still owned at the end is
retained, rendered or kept. -/
theorem entry_accounted (hs : Steps (Ledger.Step ownedBy key) s (d.events ownedBy cr) s')
    (hrun : d.run c = some run) {keys : List String}
    (hfit : ∀ p ∈ run.pruned, p.2.Fits cr ownedBy keys p.1) {p : ResourceStatus × Fate}
    (hp : p ∈ run.pruned) (ho : s'.owned c p.1.ref) :
    p.1 ∈ retainedOf run.pruned ∨ statusIdentityKey p.1 ∈ keys ∨
      statusIdentityKey p.1 ∉ keys ∧ cr.keepsCRD p.1 = true := by
  have hmem : ∀ l ∈ p.2.events c ownedBy p.1, l ∈ d.prunes ownedBy c := fun l hl =>
    Delivery.mem_prunes.mpr ⟨run, hrun, List.mem_flatMap.mpr ⟨p, hp, hl⟩⟩
  have href := manifestFromStatus_ref p.1
  obtain ⟨rs, f⟩ := p
  have hf := hfit _ hp
  cases f with
  | rendered => exact Or.inr (Or.inl hf)
  | kept => exact Or.inr (Or.inr hf)
  | gone e =>
    exact absurd ho (delivery_clears hs (hmem _ List.mem_cons_self) ⟨rfl, href, hf.2⟩)
  | unread e => exact Or.inl (mem_retainedOf.mpr ⟨_, hp, rfl, rfl⟩)
  | foreign live =>
    exact absurd ho (delivery_clears hs (hmem _ List.mem_cons_self) ⟨rfl, href, hf.2⟩)
  | deleted live =>
    exact absurd ho (delivery_clears hs (hmem _ (List.mem_cons_of_mem _ List.mem_cons_self))
      ⟨rfl, href, rfl⟩)
  | undeleted live e => exact Or.inl (mem_retainedOf.mpr ⟨_, hp, rfl, rfl⟩)

/-- What was not added was owned before: it is not in the render, or the render
was not applied. -/
theorem delivery_not_added (hd : d.Of r cr ms)
    (hs : Steps (Ledger.Step ownedBy key) s (d.events ownedBy cr) s') (ho : s'.owned c o)
    (hn : o.key ∉ (ms c).map manifestIdentityKey ∨ d.run c = none) : s.owned c o := by
  rcases Ledger.steps_adds hs ho with h | ⟨l, hl, ha⟩
  · exact h
  · obtain ⟨hrun, hk⟩ := delivery_adds hd hl ha
    rcases hn with hn | hn
    · exact absurd hk hn
    · rw [hn] at hrun
      cases hrun

/-- A recorded object that is still owned and not in the render is retained, or
a CRD that the policy keeps. -/
theorem run_retains (hs : Steps (Ledger.Step ownedBy key) s (d.events ownedBy cr) s')
    (hrun : d.run c = some run) (hof : run.Of cr c ownedBy (sortForApply (ms c)))
    (hslash : o.SlashFree) (ho : s'.owned c o)
    (hrec : o.key ∈ recordedKeys (cr.status.resources c))
    (hk : o.key ∉ (ms c).map manifestIdentityKey) :
    o.key ∈ recordedKeys (retainedOf run.pruned) ∨
      o.kind = "CustomResourceDefinition" ∧ cr.spec.retentionPolicy.crds ≠ .delete := by
  obtain ⟨rs, hrs, hkey⟩ := List.mem_map.mp hrec
  -- keys are injective on what is live, so the entry is about this object
  have href : rs.ref = o := ObjRef.key_inj hslash hkey
  obtain ⟨p, hp, rfl⟩ : ∃ p ∈ run.pruned, p.1 = rs := by
    have := mem_sortStatusForDelete.mpr hrs
    rwa [← hof.pruned, List.mem_map] at this
  have hfit := hof.fits
  rw [manifests_keys (delivery_faithful hs hrun) hof] at hfit
  rcases entry_accounted hs hrun hfit hp (href ▸ ho) with h | h | ⟨-, h⟩
  · exact Or.inl (hkey ▸ List.mem_map_of_mem h)
  · obtain ⟨m, hm, hmk⟩ := List.mem_map.mp h
    exact absurd (List.mem_map.mpr ⟨m, mem_sortForApply.mp hm, hmk.trans hkey⟩) hk
  · have h' := of_decide_eq_true h
    exact Or.inr ⟨href ▸ h'.1, h'.2⟩

/-- What a delivery leaves is covered by what it writes. -/
theorem delivery_covered (hd : d.Of r cr ms)
    (hs : Steps (Ledger.Step ownedBy key) s (d.events ownedBy cr) s')
    (hob : ownedBy = r.ownedBy cr) (hwf : ∀ c, WellFormedRender (ms c))
    (hslash : ∀ c o, s'.owned c o → o.SlashFree) {exempt : Cluster → ObjRef → Prop}
    (hc : Covered s.owned exempt cr.status) :
    Covered s'.owned (fun c o => exempt c o ∨ o.kind = "CustomResourceDefinition" ∧
      cr.spec.retentionPolicy.crds ≠ .delete ∧ o.key ∈ recordedKeys (cr.status.resources c) ∧
      o.key ∉ (ms c).map manifestIdentityKey) d.written.status := by
  subst hob
  refine ⟨fun c o ho => ?_, fun c => ?_⟩
  · rw [hd.inventory, Delivery.inventory]
    cases hrun : d.run c with
    | none =>
      -- the render was not applied: nothing was added, and the inventory is as before
      exact (hc.recorded c o (delivery_not_added hd hs ho (Or.inr hrun))).imp_right Or.inl
    | some run =>
      have hof := hd.run c run hrun
      rw [Option.map_some, Option.getD_some, RenderRun.inventory, recordedKeys_append,
        statuses_keys (delivery_faithful hs hrun) hof fun m hm =>
          (hwf c).apiVersions m (mem_sortForApply.mp hm)]
      by_cases hk : o.key ∈ (ms c).map manifestIdentityKey
      · obtain ⟨m, hm, hmk⟩ := List.mem_map.mp hk
        exact Or.inl (List.mem_append_left _ (List.mem_map.mpr ⟨m, mem_sortForApply.mpr hm, hmk⟩))
      · rcases hc.recorded c o (delivery_not_added hd hs ho (Or.inl hk)) with hrec | hex
        · rcases run_retains hs hrun hof (hslash c o ho) ho hrec hk with h | ⟨hcrd, hpolicy⟩
          · exact Or.inl (List.mem_append_right _ h)
          · exact Or.inr (Or.inr ⟨hcrd, hpolicy, hrec, hk⟩)
        · exact Or.inr (Or.inl hex)
  · rw [hd.inventory, Delivery.inventory]
    cases hrun : d.run c with
    | none => exact hc.distinct c
    | some run =>
      exact inventory_distinct (delivery_faithful hs hrun) (hd.run c run hrun) (hwf c) (hc.distinct c)

/-! ## One pass, and every run -/

theorem not_adds_of_isRendering {l : CallEvent} (h : IsRendering l.1) : ¬Adds c o l := by
  obtain ⟨e, a⟩ := l
  obtain ⟨o, rfl⟩ := h.op
  exact id

/-- A pass that delivers keeps the invariant. -/
theorem delivers_covered {t : List CallEvent} (h : Delivers r cr ms d (⟨.op (.getCR key), .ok cr⟩ :: t))
    (hs : Steps (Ledger.Step (ownedByKey r key) key) s (⟨.op (.getCR key), .ok cr⟩ :: t) s')
    (hp : DeliveryPass r (⟨.op (.getCR key), .ok cr⟩ :: t))
    (hslash : ∀ c o, s'.owned c o → o.SlashFree) {exempt : Cluster → ObjRef → Prop}
    (hkey : cr.key = key) (hc : Covered s.owned exempt cr.status) :
    ∃ st', s'.status = some st' ∧
      Covered s'.owned (fun c o => exempt c o ∨ LeftRender r (⟨.op (.getCR key), .ok cr⟩ :: t) c o) st' := by
  have hrend := h.renders
  obtain ⟨_, tp, seed, shoot, he, hpipe, rfl⟩ := h.trace
  obtain ⟨-, rfl⟩ := List.cons.inj he
  obtain ⟨s₁, hget, hs'⟩ := steps_cons.mp hs
  obtain ⟨s₂, hs₂, hdeliv⟩ := steps_append.mp hs'
  have hanswer : d.answer = none := hp.written _ _ (h.mem_events
    (Delivery.mem_events.mpr (Or.inr (Or.inr (Or.inr rfl)))))
  have hst' : s'.status = some d.written.status := by
    rw [Delivery.events, ← List.cons_append] at hdeliv
    obtain ⟨s₃, -, hlast⟩ := steps_append.mp hdeliv
    obtain ⟨s₄, hw, hnil⟩ := steps_cons.mp hlast
    obtain rfl := steps_nil.mp hnil
    rw [hanswer] at hw
    exact hw.writes _ rfl (h.delivery.key.trans hkey)
  -- reading and rendering add nothing
  have hc₂ : Covered s₂.owned exempt cr.status := by
    refine hc.mono (fun c o ho => ?_) (fun _ _ => id) fun _ => rfl
    rcases Ledger.steps_adds hs₂ ho with h | ⟨l, hl, ha⟩
    · exact (hget.adds c o h).resolve_right id
    · exact absurd ha (not_adds_of_isRendering (pipeline_mem hpipe hl))
  rw [ownedBy_eq hkey] at hdeliv
  have hcov := delivery_covered h.delivery hdeliv (ownedBy_eq hkey).symm (hp.renders _ _ hrend) hslash hc₂
  refine ⟨_, hst', hcov.mono (fun _ _ => id) (fun c o h => ?_) fun _ => rfl⟩
  exact h.imp_right fun h => ⟨cr, _, hrend, h⟩

/-- One pass keeps the invariant, with the CRDs it leaves behind exempt. -/
theorem pass_covered {t : List CallEvent} {x : Outcome} (ht : Trace (reconcile r key) t x)
    (hs : Steps (Ledger.Step (ownedByKey r key) key) s t s') (hp : DeliveryPass r t)
    (hslash : ∀ c o, s'.owned c o → o.SlashFree) {exempt : Cluster → ObjRef → Prop} {st : Status}
    (hst : s.status = some st) (hc : Covered s.owned exempt st) :
    ∃ st', s'.status = some st' ∧
      Covered s'.owned (fun c o => exempt c o ∨ LeftRender r t c o) st' := by
  -- a pass that applies nothing and writes the inventories back as they were
  have idle : (∀ l ∈ t, ∀ c o, ¬Adds c o l) → ∀ st', s'.status = some st' →
      (∀ c, st'.resources c = st.resources c) →
      Covered s'.owned (fun c o => exempt c o ∨ LeftRender r t c o) st' := by
    intro hn st' _ hres
    refine hc.mono (fun c o ho => ?_) (fun _ _ => Or.inl) hres
    rcases Ledger.steps_adds hs ho with h | ⟨l, hl, ha⟩
    · exact h
    · exact absurd ha (hn l hl c o)
  rcases reconcile_trace ht with ⟨e, rfl⟩ | ⟨cr, t', rfl, ⟨hdel, -⟩ | ⟨-, hnorm⟩⟩
  · have hst' := (Ledger.steps_keeps hs (by simp [WritesStatus])).trans hst
    exact ⟨st, hst', idle (by simp [Adds]) st hst' fun _ => rfl⟩
  · have := hp.notDeleted key cr List.mem_cons_self
    rw [hdel] at this
    cases this
  · obtain ⟨s₁, hget, hs'⟩ := steps_cons.mp hs
    obtain ⟨hread, hkey⟩ := hget.reads cr rfl
    obtain rfl : cr.status = st := by simpa using hread.symm.trans hst
    cases reconcileNormal_trace hnorm with
    | addFinalizer e _ =>
      have hst' := (Ledger.steps_keeps hs (by simp [WritesStatus])).trans hst
      exact ⟨_, hst', idle (by simp [Adds]) _ hst' fun _ => rfl⟩
    | @failed tp reason err e _ hpipe =>
      obtain ⟨s₂, hs₂, hlast⟩ := steps_append.mp hs'
      obtain ⟨s₃, hw, hnil⟩ := steps_cons.mp hlast
      obtain rfl := steps_nil.mp hnil
      obtain rfl : e = none := hp.written (cr.setCondition reason err.error) e (by simp)
      have hst' := hw.writes _ rfl hkey
      refine ⟨_, hst', idle (fun l hl c o => ?_) _ hst' fun _ => ?_⟩
      · simp only [List.mem_cons, List.mem_append, List.not_mem_nil, or_false] at hl
        rcases hl with rfl | hl | rfl
        · exact id
        · exact not_adds_of_isRendering (pipeline_mem hpipe hl)
        · exact id
      · rename_i c
        cases c <;> rfl
    | @delivered tp seed shoot d _ hpipe hd =>
      exact delivers_covered ⟨hd, key, tp, seed, shoot, rfl, hpipe, rfl⟩ hs hp hslash hkey hc

end

theorem owned_slashFree {w : World} {T : Targets} {ownedBy : String} {c : Cluster} {o : ObjRef}
    (h : w.Owned T ownedBy c o) : o.SlashFree := by
  obtain ⟨u, hu, -⟩ := h
  exact ((w.clusters (T.id c)).wellFormed o u hu).1

/-- At the end of every pass of a run, each live object with the CR's owned-by
value is recorded under its identity key in the inventory of its cluster,
unless it is a CRD that left the render in some pass while the policy kept
CRDs; and no key is recorded twice. Others may do anything between any two
requests except put the CR's value on an object or write its status. -/
theorem inventory_covers {r : Reconciler} {key : NamespacedName} {T : Targets} {w₀ w : World}
    {ts : List (List CallEvent)} {cr₀ : DualDeploymentOperator}
    (hrun : Run r key T (Foreign T (ownedByKey r key) key) (Foreign T (ownedByKey r key) key) w₀ ts w)
    (hpass : ∀ t ∈ ts, DeliveryPass r t) (hcr : w₀.crs key = some cr₀)
    (hstart : Covered (w₀.Owned T (ownedByKey r key)) (fun _ _ => False) cr₀.status) :
    ∃ cr, w.crs key = some cr ∧ Covered (w.Owned T (ownedByKey r key))
      (fun c o => ∃ t ∈ ts, LeftRender r t c o) cr.status := by
  induction hrun with
  | start => exact ⟨cr₀, hcr, hstart.mono (fun _ _ => id) (fun _ _ => False.elim) fun _ => rfl⟩
  | @pass w₁ w₂ w₃ ts t x _ hbetween htrace hsteps ih =>
    obtain ⟨cr, hcr, hcov⟩ := ih fun t ht => hpass t (List.mem_append_left _ ht)
    have hst : (w₂.ledger T (ownedByKey r key) key).status = some cr.status := by
      rw [World.ledger, hbetween.status, hcr]
      rfl
    have hledger := hsteps.map (fun w => w.ledger T (ownedByKey r key) key)
      fun _ _ _ => callStep_ledger fun _ _ => id
    obtain ⟨st, hst', hcov'⟩ := pass_covered htrace hledger (hpass t (by simp))
      (fun _ _ => owned_slashFree) hst (hcov.mono hbetween.owned (fun _ _ => id) fun _ => rfl)
    obtain ⟨cr', hcr', rfl⟩ := Option.map_eq_some_iff.mp hst'
    refine ⟨cr', hcr', hcov'.mono (fun _ _ => id) (fun c o h => ?_) fun _ => rfl⟩
    rcases h with ⟨t', ht', h⟩ | h
    · exact ⟨t', List.mem_append_left _ ht', h⟩
    · exact ⟨t, by simp, h⟩

theorem sampleWorld_not_owned {cr : DualDeploymentOperator} {h : cr.key = sampleKey} {T : Targets}
    {ownedBy : String} (hob : ownedBy ≠ "") {c : Cluster} {o : ObjRef} :
    ¬(sampleWorld cr h).Owned T ownedBy c o := by
  rintro ⟨u, hu, ho⟩
  simp only [World.live, sampleWorld] at hu
  split_ifs at hu
  cases hu
  exact hob (ho.symm.trans (by decide))

/-- The first delivery of a ConfigMap and a ServiceAccount to the seed. -/
theorem inventory_covers_first :
    let S := sampleServer [bare "v1" "ConfigMap" "garden" "config", bare "v1" "ServiceAccount" "garden" "sa"] []
    let pass := S.run sampleReconciler sampleKey (sampleWorld (sampleCR .seedFirst .retain) rfl)
    ∃ cr, pass.2.2.crs sampleKey = some cr ∧
      Covered (pass.2.2.Owned S.targets (ownedByKey sampleReconciler sampleKey))
        (fun c o => ∃ t ∈ [pass.1], LeftRender sampleReconciler t c o) cr.status := by
  intro S pass
  refine inventory_covers (.pass (.start _) (Foreign.refl ..) (S.run_trace ..)
    (S.run_steps (Foreign.refl _ _ _) ..)) (fun t ht => ?_) rfl ⟨?_, fun c => ?_⟩
  · rw [List.mem_singleton.mp ht]
    exact .of_check (fun _ => rfl) (by decide +kernel)
  · exact fun c o ho => absurd ho (sampleWorld_not_owned (by decide))
  · cases c <;> exact List.nodup_nil

end DDO.Spec
