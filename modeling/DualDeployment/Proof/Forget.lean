import DualDeployment.Proof.Phantom

/-!
# What pruning forgets

An entry that `prune` drops should be one whose object is gone. `prune` reads
the object under the version that the entry records, and takes `NoMatch` for
"the kind does not exist there". A server that no longer serves that version but
serves another of the kind gives the same answer while the object lives on. So
`prune` forgets only what is gone if and only if the recorded version of each
orphan that is still live and owned is served (`forgets_only_gone_iff`).
-/

namespace DDO.Spec

open Impl Prog

/-- The object that an entry records, on a server with these scopes. -/
def Serving.entryRef (S : Serving) (id : ClusterId) (rs : ResourceStatus) : ObjRef :=
  S.ref id ⟨rs.groupVersion.group, rs.groupVersion.version, rs.kind⟩ (identityNamespace rs.kind rs.ns) rs.name

/-- The object of the entry is live under some version that is served, and
carries the owned-by value. -/
def StillOwned (S : Serving) (T : Targets) (c : Cluster) (ownedBy : String) (rs : ResourceStatus)
    (w : World) : Prop :=
  (∃ version, S.served (T.id c) ⟨rs.groupVersion.group, version, rs.kind⟩ = true) ∧
    ∃ u, w.live T c (S.entryRef (T.id c) rs) = some u ∧ u.ownedBy = ownedBy

/-- The version that the entry records is served. -/
def VersionServed (S : Serving) (T : Targets) (c : Cluster) (rs : ResourceStatus) : Prop :=
  S.served (T.id c) ⟨rs.groupVersion.group, rs.groupVersion.version, rs.kind⟩ = true

/-- However `prune` runs against these servers, from this state on, the entries it
drops because it takes them for gone are not still owned after it. -/
def ForgetsOnlyGone (S : Serving) (T : Targets) (cr : DualDeploymentOperator) (c : Cluster)
    (ownedBy : String) (prev : List ResourceStatus) (current : List Manifest) (w : World) : Prop :=
  ∀ t x w', Trace (prune cr c ownedBy prev current) t x → Steps (lift ssa (ServedStep S T)) w t w' →
    ∀ rs ∈ prev, Fate.Orphan cr (current.map manifestIdentityKey) rs → rs ∉ x.1 →
      ¬ StillOwned S T c ownedBy rs w'

section

variable {S : Serving} {T : Targets} {c : Cluster} {ownedBy : String} {w w' : World}

theorem entryRef_eq (rs : ResourceStatus) :
    S.refOf (T.id c) (manifestFromStatus rs).unstructured = S.entryRef (T.id c) rs := by
  rw [Serving.refOf, manifestFromStatus_gvk, manifestFromStatus_namespace, manifestFromStatus_name,
    Serving.entryRef]

/-! ## Single calls -/

/-- `w'` has no object that `w` does not have. -/
def Shrinks (T : Targets) (w w' : World) : Prop :=
  ∀ c r u, w'.live T c r = some u → w.live T c r = some u

theorem Shrinks.trans {w₁ : World} (h : Shrinks T w w₁) (h' : Shrinks T w₁ w') : Shrinks T w w' :=
  fun c r u hu => h c r u (h' c r u hu)

theorem StillOwned.of_shrinks {rs : ResourceStatus} (hs : Shrinks T w w')
    (h : StillOwned S T c ownedBy rs w') : StillOwned S T c ownedBy rs w := by
  obtain ⟨hv, u, hu, ho⟩ := h
  exact ⟨hv, u, hs _ _ u hu, ho⟩

theorem shrinks_of_remove {r : ObjRef} (h : World.SetObject T c r none w w') : Shrinks T w w' := by
  intro c' r' u hu
  by_cases he : c' = c ∧ r' = r
  · obtain ⟨rfl, rfl⟩ := he
    rw [h.live_self] at hu
    cases hu
  · rwa [h.live_of_ne he] at hu

/-- What the answer to a read says about the object and its kind. -/
structure ReadOf (S : Serving) (T : Targets) (c : Cluster) (u : Unstructured) (w : World)
    (a : Except Err Unstructured) : Prop where
  absent : ∀ e, a = .error e → e.isNotFound = true → w.live T c (S.refOf (T.id c) u) = none
  unserved : ∀ e, a = .error e → e.isNoMatch = true → S.served (T.id c) u.groupVersionKind = false
  present : ∀ live, a = .ok live → ∃ v, w.live T c (S.refOf (T.id c) u) = some v ∧ live.ownedBy = v.ownedBy

theorem ServedStep.readOf {u : Unstructured} {a : Except Err Unstructured}
    (h : ServedStep S T w ⟨getOf c u, a⟩ w') : w' = w ∧ ReadOf S T c u w a := by
  cases h with
  | other hn _ => exact absurd trivial hn
  | get _ hv ho => exact ⟨rfl, nofun, nofun, fun live hl => by cases hl; exact ⟨_, hv, ho⟩⟩
  | getFailed hn hm =>
    refine ⟨rfl, fun e he hf => ?_, fun e he hf => ?_, nofun⟩
    · cases he
      exact (hn hf).2
    · cases he
      exact hm hf

theorem lift_get {m : Manifest} {a : Except Err Unstructured}
    (h : lift ssa (ServedStep S T) w ⟨.get c m, a⟩ w') :
    w' = w ∧ ReadOf S T c m.unstructured w a := by
  obtain ⟨us, hu, hs⟩ := h
  rw [get_trace hu] at hs
  obtain ⟨w₁, hstep, hnil⟩ := steps_cons.mp hs
  rw [steps_nil.mp hnil]
  exact hstep.readOf

/-- The object is live and carries the owned-by value. -/
def LiveOwned (S : Serving) (T : Targets) (c : Cluster) (ownedBy : String) (u : Unstructured)
    (w : World) : Prop :=
  ∃ v, w.live T c (S.refOf (T.id c) u) = some v ∧ v.ownedBy = ownedBy

theorem ReadOf.not_owned {u : Unstructured} {a : Except Err Unstructured} (h : ReadOf S T c u w a)
    (ha : (∃ e, a = .error e ∧ e.isNotFound = true) ∨ ∃ live, a = .ok live ∧ live.ownedBy ≠ ownedBy) :
    ¬ LiveOwned S T c ownedBy u w := by
  rintro ⟨v, hv, ho⟩
  rcases ha with ⟨e, he, hn⟩ | ⟨live, hl, hne⟩
  · rw [h.absent e he hn] at hv
    cases hv
  · obtain ⟨v', hv', ho'⟩ := h.present live hl
    cases hv.symm.trans hv'
    exact hne (ho'.trans ho)

theorem ServedStep.delete_none {u : Unstructured} {a : Option Err}
    (h : ServedStep S T w ⟨.delete c u, a⟩ w') :
    Shrinks T w w' ∧ ((∀ e, a = some e → e.isNotFound = true) → w'.live T c (S.refOf (T.id c) u) = none) := by
  cases h with
  | other hn _ => exact absurd trivial hn
  | delete _ hs => exact ⟨shrinks_of_remove hs, fun _ => hs.live_self⟩
  | deleteFailed hs =>
    rcases hs with ⟨rfl, hn⟩ | hs
    · exact ⟨fun _ _ _ hu => hu, fun ha => hn (ha _ rfl)⟩
    · exact ⟨shrinks_of_remove hs, fun _ => hs.live_self⟩

/-- `Delete` creates nothing, and if it succeeds the object is not owned after
it. -/
theorem lift_delete {m : Manifest} {a : Option Err}
    (h : lift ssa (ServedStep S T) w ⟨.delete c m ownedBy, a⟩ w') :
    Shrinks T w w' ∧ (a = none → ¬ LiveOwned S T c ownedBy m.unstructured w') := by
  obtain ⟨us, hu, hs⟩ := h
  have hrun : DeleteRun c m.unstructured ownedBy us a := delete_trace hu
  cases hrun with
  | gone he =>
    obtain ⟨w₁, hstep, hnil⟩ := steps_cons.mp hs
    obtain ⟨rfl, hread⟩ := hstep.readOf
    rw [steps_nil.mp hnil]
    exact ⟨fun _ _ _ hu => hu, fun _ => hread.not_owned (.inl ⟨_, rfl, he⟩)⟩
  | unread _ =>
    obtain ⟨w₁, hstep, hnil⟩ := steps_cons.mp hs
    obtain ⟨rfl, -⟩ := hstep.readOf
    rw [steps_nil.mp hnil]
    exact ⟨fun _ _ _ hu => hu, nofun⟩
  | foreign ho =>
    obtain ⟨w₁, hstep, hnil⟩ := steps_cons.mp hs
    obtain ⟨rfl, hread⟩ := hstep.readOf
    rw [steps_nil.mp hnil]
    exact ⟨fun _ _ _ hu => hu, fun _ => hread.not_owned (.inr ⟨_, rfl, ho⟩)⟩
  | deleted _ ha =>
    obtain ⟨w₁, hget, hs₁⟩ := steps_cons.mp hs
    obtain ⟨w₂, hstep, hnil⟩ := steps_cons.mp hs₁
    rw [hget.readOf.1] at hstep
    rw [steps_nil.mp hnil]
    obtain ⟨hshrink, hnone⟩ := hstep.delete_none
    refine ⟨hshrink, fun _ ⟨v, hv, _⟩ => ?_⟩
    rw [hnone ha] at hv
    cases hv
  | failed _ _ =>
    obtain ⟨w₁, hget, hs₁⟩ := steps_cons.mp hs
    obtain ⟨w₂, hstep, hnil⟩ := steps_cons.mp hs₁
    rw [hget.readOf.1] at hstep
    rw [steps_nil.mp hnil]
    exact ⟨hstep.delete_none.1, nofun⟩

/-! ## The run of prune -/

/-- `prune` creates nothing. -/
theorem prune_shrinks {fs : List (ResourceStatus × Fate)}
    (hs : Steps (lift ssa (ServedStep S T)) w (pruneEvents c ownedBy fs) w') : Shrinks T w w' := by
  refine hs.inv (P := Shrinks T w) (fun w₁ l w₂ hl hstep hw => ?_) fun _ _ _ hu => hu
  obtain ⟨p, -, ⟨a, rfl⟩ | ⟨a, rfl⟩⟩ := mem_pruneEvents hl
  · rw [(lift_get hstep).1]
    exact hw
  · exact hw.trans (lift_delete hstep).1

/-- An orphan of a served version that is not retained is not owned after its
own calls. -/
theorem fate_forgets {cr : DualDeploymentOperator} {keys : List String} {rs : ResourceStatus} {f : Fate}
    (hf : f.Fits cr ownedBy keys rs) (ho : Fate.Orphan cr keys rs) (he : f.err = none)
    (hv : VersionServed S T c rs) (hs : Steps (lift ssa (ServedStep S T)) w (f.events c ownedBy rs) w') :
    ¬ LiveOwned S T c ownedBy (manifestFromStatus rs).unstructured w' := by
  cases f with
  | rendered => exact absurd hf ho.1
  | kept => exact absurd (hf.2.symm.trans ho.2) (by decide)
  | unread e => cases he
  | undeleted live e => cases he
  | gone e =>
    obtain ⟨w₁, hstep, hnil⟩ := steps_cons.mp hs
    obtain ⟨rfl, hread⟩ := lift_get hstep
    rw [steps_nil.mp hnil]
    rcases hf.2 with hn | hn
    · exact hread.not_owned (.inl ⟨e, rfl, hn⟩)
    · have hno := hread.unserved e rfl hn
      rw [manifestFromStatus_gvk] at hno
      exact absurd (hno.symm.trans hv) (by decide)
  | foreign live =>
    obtain ⟨w₁, hstep, hnil⟩ := steps_cons.mp hs
    obtain ⟨rfl, hread⟩ := lift_get hstep
    rw [steps_nil.mp hnil]
    exact hread.not_owned (.inr ⟨live, rfl, hf.2⟩)
  | deleted live =>
    obtain ⟨w₁, -, hs⟩ := steps_cons.mp hs
    obtain ⟨w₂, hstep, hnil⟩ := steps_cons.mp hs
    rw [steps_nil.mp hnil]
    exact (lift_delete hstep).2 rfl

theorem StillOwned.liveOwned {rs : ResourceStatus} (h : StillOwned S T c ownedBy rs w) :
    LiveOwned S T c ownedBy (manifestFromStatus rs).unstructured w := by
  obtain ⟨-, u, hu, ho⟩ := h
  exact ⟨u, by rwa [entryRef_eq], ho⟩

/-! ## A server whose requests fail -/

/-- Reads of a version that is not served are answered `NoMatch`, and every other
request for an object fails. -/
def failingAnswer (S : Serving) (T : Targets) (w : World) : (e : Req) → Resp e × World
  | .get c gvk _ _ => (.error (if S.served (T.id c) gvk then errInternal else errNoMatch), w)
  | .patch _ _ => (.error errInternal, w)
  | .delete _ _ => (some errInternal, w)
  | e => Server.answer { sampleServer [] [] with targets := T } w e

theorem failingAnswer_step (S : Serving) (T : Targets) (w : World) (e : Req) :
    ServedStep S T w ⟨e, (failingAnswer S T w e).1⟩ (failingAnswer S T w e).2 := by
  cases e with
  | op o => exact .other id (Server.step { sampleServer [] [] with targets := T } w _)
  | getSecret k => exact .other id (Server.step { sampleServer [] [] with targets := T } w _)
  | newClient cfg => exact .other id (Server.step { sampleServer [] [] with targets := T } w _)
  | get c gvk ns name =>
    rw [failingAnswer]
    split_ifs with hs
    · exact .getFailed nofun nofun
    · exact .getFailed nofun fun _ => (Bool.not_eq_true _).mp hs
  | patch c u => exact .patchFailed (Or.inl rfl)
  | delete c u => exact .deleteFailed (Or.inl ⟨rfl, nofun⟩)

def failingCall (S : Serving) (T : Targets) (w : World) (e : Call) : Answer e × World :=
  ((ssa e).exec (failingAnswer S T) w).2

theorem failingCall_step (S : Serving) (T : Targets) (w : World) (e : Call) :
    lift ssa (ServedStep S T) w ⟨e, (failingCall S T w e).1⟩ (failingCall S T w e).2 :=
  ⟨_, exec_trace (failingAnswer S T) (ssa e) w, exec_steps (failingAnswer_step S T) (ssa e) w⟩

theorem failingCall_get (S : Serving) (T : Targets) (w : World) (c : Cluster) (rs : ResourceStatus) :
    failingCall S T w (.get c (manifestFromStatus rs)) =
      (.error (if S.served (T.id c) ⟨rs.groupVersion.group, rs.groupVersion.version, rs.kind⟩
        then errInternal else errNoMatch), w) := by
  rw [← manifestFromStatus_gvk]
  rfl

/-- Against it, an orphan is dropped if its version is not served, and else
retained. -/
theorem failing_fate {cr : DualDeploymentOperator} {keys : List String} {rs : ResourceStatus} {f : Fate}
    (hf : f.Fits cr ownedBy keys rs) (ho : Fate.Orphan cr keys rs)
    (ha : ∀ l ∈ f.events c ownedBy rs, ∃ w, l.2 = (failingCall S T w l.1).1) :
    (∃ e, f = .gone e ∧ ¬ VersionServed S T c rs) ∨ ∃ e, f = .unread e ∧ VersionServed S T c rs := by
  have hget : ∀ a, ⟨.get c (manifestFromStatus rs), a⟩ ∈ f.events c ownedBy rs →
      a = .error (if S.served (T.id c) ⟨rs.groupVersion.group, rs.groupVersion.version, rs.kind⟩
        then errInternal else errNoMatch) := by
    intro a hl
    obtain ⟨w, hw⟩ := ha _ hl
    rw [failingCall_get] at hw
    exact hw
  cases f with
  | rendered => exact absurd hf ho.1
  | kept => exact absurd (hf.2.symm.trans ho.2) (by decide)
  | gone e =>
    refine Or.inl ⟨e, rfl, fun hv => ?_⟩
    have he := hget _ (List.mem_singleton_self _)
    rw [VersionServed] at hv
    rw [hv, if_pos rfl] at he
    cases he
    rcases hf.2 with h | h <;> cases h
  | unread e =>
    refine Or.inr ⟨e, rfl, ?_⟩
    by_contra hv
    have he := hget _ (List.mem_singleton_self _)
    rw [VersionServed] at hv
    rw [if_neg hv] at he
    cases he
    exact hf.2 (Or.inr rfl)
  | foreign live => cases hget _ List.mem_cons_self
  | deleted live => cases hget _ List.mem_cons_self
  | undeleted live e => cases hget _ List.mem_cons_self

/-! ## Forgetting -/

variable {cr : DualDeploymentOperator} {prev : List ResourceStatus} {current : List Manifest}

/-- If the version of each orphan that is live and owned is served, `prune`
forgets only what is gone. -/
theorem forgets_of_served
    (h : ∀ rs ∈ prev, Fate.Orphan cr (current.map manifestIdentityKey) rs →
      StillOwned S T c ownedBy rs w → VersionServed S T c rs) :
    ForgetsOnlyGone S T cr c ownedBy prev current w := by
  intro t x w' ht hs rs hrs ho hx hown
  obtain ⟨fs, hfs, hfit, rfl, rfl⟩ := prune_trace ht
  have hmem : rs ∈ fs.map (·.1) := by
    rw [hfs]
    exact mem_sortStatusForDelete.mpr hrs
  obtain ⟨⟨rs', f⟩, hp, rfl⟩ := List.mem_map.mp hmem
  have herr : f.err = none := by
    cases he : f.err with
    | none => rfl
    | some e => exact absurd (mem_retainedOf.mpr ⟨_, hp, by simp [he], rfl⟩) hx
  have hv := h rs' hrs ho (hown.of_shrinks (prune_shrinks hs))
  -- the calls for the entry, and those before and after them
  obtain ⟨fs₁, fs₂, rfl⟩ := List.append_of_mem hp
  rw [pruneEvents, List.flatMap_append, List.flatMap_cons] at hs
  obtain ⟨w₁, -, hs⟩ := steps_append.mp hs
  obtain ⟨w₂, hs₁, hs₂⟩ := steps_append.mp hs
  exact fate_forgets (hfit _ hp) ho herr hv hs₁ (hown.of_shrinks (prune_shrinks hs₂)).liveOwned

/-- If `prune` forgets only what is gone whatever fails, the version of each orphan
that is live and owned is served. -/
theorem served_of_forgets (h : ForgetsOnlyGone S T cr c ownedBy prev current w) {rs : ResourceStatus}
    (hrs : rs ∈ prev) (ho : Fate.Orphan cr (current.map manifestIdentityKey) rs)
    (hown : StillOwned S T c ownedBy rs w) : VersionServed S T c rs := by
  by_contra hv
  have ht := exec_trace (failingCall S T) (prune cr c ownedBy prev current) w
  have hs := exec_steps (failingCall_step S T) (prune cr c ownedBy prev current) w
  have ha : ∀ l ∈ ((prune cr c ownedBy prev current).exec (failingCall S T) w).1,
      ∃ w', l.2 = (failingCall S T w' l.1).1 := fun l hl => exec_mem hl
  generalize (prune cr c ownedBy prev current).exec (failingCall S T) w = y at ht hs ha
  obtain ⟨t, x, w'⟩ := y
  obtain ⟨fs, hfs, hfit, rfl, rfl⟩ := prune_trace ht
  have hfate : ∀ p ∈ fs, Fate.Orphan cr (current.map manifestIdentityKey) p.1 →
      (∃ e, p.2 = .gone e ∧ ¬ VersionServed S T c p.1) ∨ ∃ e, p.2 = .unread e ∧ VersionServed S T c p.1 :=
    fun p hp hop => failing_fate (hfit p hp) hop fun l hl => ha l (List.mem_flatMap.mpr ⟨p, hp, hl⟩)
  -- nothing but reads happens, so the state stays as it is
  have hw : w' = w := by
    refine hs.inv (P := (· = w)) (fun w₁ l w₂ hl hstep hw => ?_) rfl
    obtain ⟨p, hp, hl⟩ := List.mem_flatMap.mp hl
    rcases hfate p hp ((hfit p hp).orphan_of_mem hl) with ⟨e, hf, -⟩ | ⟨e, hf, -⟩
    all_goals
      rw [hf] at hl
      cases List.mem_singleton.mp hl
      exact (lift_get hstep).1.trans hw
  have hnot : rs ∉ retainedOf fs := by
    rintro hr
    obtain ⟨p, hp, he, rfl⟩ := mem_retainedOf.mp hr
    rcases hfate p hp ho with ⟨e, hf, -⟩ | ⟨e, -, hv'⟩
    · rw [hf] at he
      cases he
    · exact hv hv'
  refine h _ _ w' ht hs rs hrs ho hnot ?_
  rw [hw]
  exact hown

/-- `prune` forgets only what is gone, whatever requests fail, if and only if each
orphan that is live under a served version and owned is recorded with a version
that is served. -/
theorem forgets_only_gone_iff (S : Serving) (T : Targets) (cr : DualDeploymentOperator) (c : Cluster)
    (ownedBy : String) (prev : List ResourceStatus) (current : List Manifest) (w : World) :
    ForgetsOnlyGone S T cr c ownedBy prev current w ↔
      ∀ rs ∈ prev, Fate.Orphan cr (current.map manifestIdentityKey) rs →
        StillOwned S T c ownedBy rs w → VersionServed S T c rs :=
  ⟨fun h _ hrs ho hown => served_of_forgets h hrs ho hown, forgets_of_served⟩

end

/-! ## A version that is no longer served -/

/-- A budget recorded under a version that was removed. -/
def oldBudget : ResourceStatus := ⟨"PodDisruptionBudget", "policy/v1beta1", "kube-system", "web", .healthy, ""⟩

/-- A shoot that serves version `v1` of every kind, and no other. -/
def upgradedServer : ServedServer where
  base := sampleServer [] []
  serving := ⟨fun _ _ kind => isClusterScoped kind, fun _ gvk => decide (gvk.version = "v1")⟩
  raw _ := []

/-- The budget is live on the shoot. -/
def budgetWorld : World :=
  (sampleWorld (sampleCR .shootFirst .retain) (sampleCR_key .shootFirst .retain)).install .shoot
    (bare "policy/v1" "PodDisruptionBudget" "kube-system" "web") (by decide)

/-- What `prune` does when the budget is no longer rendered. -/
def pruneBudget : List CallEvent × (List ResourceStatus × Option Err) × World :=
  (prune (sampleCR .shootFirst .retain) .shoot (sampleReconciler.ownedBy (sampleCR .shootFirst .retain))
    [oldBudget] []).exec upgradedServer.call budgetWorld

/-- The budget is forgotten while it is live, owned and can be read under `v1`. -/
theorem forgets_live :
    ¬ ForgetsOnlyGone upgradedServer.serving sampleTargets (sampleCR .shootFirst .retain) .shoot
      (sampleReconciler.ownedBy (sampleCR .shootFirst .retain)) [oldBudget] [] budgetWorld := by
  intro h
  have hsteps : Steps (lift ssa (ServedStep upgradedServer.serving sampleTargets)) budgetWorld pruneBudget.1
      pruneBudget.2.2 :=
    exec_steps (fun w e => ⟨_, exec_trace upgradedServer.answer (ssa e) w,
      exec_steps upgradedServer.step (ssa e) w⟩) _ _
  refine h pruneBudget.1 pruneBudget.2.1 pruneBudget.2.2 (exec_trace _ _ _) hsteps oldBudget
    (List.mem_singleton_self _) ⟨by decide, by decide⟩ (by decide +kernel) ⟨⟨"v1", by decide⟩, ?_⟩
  have hlive : (pruneBudget.2.2.live sampleTargets .shoot
      (upgradedServer.serving.entryRef (sampleTargets.id .shoot) oldBudget)).map (·.ownedBy) =
      some (sampleReconciler.ownedBy (sampleCR .shootFirst .retain)) := by decide +kernel
  exact Option.map_eq_some_iff.mp hlive

end DDO.Spec
