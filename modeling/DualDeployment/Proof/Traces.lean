import DualDeployment.Impl.Teardown

/-!
# What one delivery can do

The traces of `applyAll`, `prune` and `deliver`, in closed form. `applyAll`
calls `Apply` once for each manifest (`applyAll_trace`), `prune` gives each
entry of the previous inventory one of seven fates (`prune_trace`), and a
delivery applies some of the two renders in the order of the spec, prunes
those it applied in the reverse order, and writes one status (`deliver_trace`).
Everything said about deliveries below is read off these three.
-/

namespace DDO.Impl

open Prog

/-! ## Applying -/

/-- The calls of `applyAll`. -/
def applyEvents (c : Cluster) (ownedBy : String) (as : List (Manifest × ApplyAnswer)) :
    List CallEvent :=
  as.map fun p => ⟨.apply c p.1 ownedBy, p.2⟩

/-- What `applyAll` makes of the answers. -/
def appliedOf (as : List (Manifest × ApplyAnswer)) : Applied :=
  ⟨as.map (·.2.status), as.flatMap (·.2.err.toList), as.map fun p => ⟨p.2.object, p.1.origin⟩⟩

theorem applyAll_trace {c : Cluster} {ownedBy : String} {ms : List Manifest} {t : List CallEvent}
    {x : Applied} (h : Trace (applyAll c ownedBy ms) t x) :
    ∃ as, as.map (·.1) = ms ∧ t = applyEvents c ownedBy as ∧ x = appliedOf as := by
  induction ms generalizing t x with
  | nil =>
    obtain ⟨rfl, rfl⟩ := trace_pure.mp h
    exact ⟨[], rfl, rfl, rfl⟩
  | cons m ms ih =>
    obtain ⟨a, t₁, rfl, h₁⟩ := trace_request_seq.mp h
    obtain ⟨t₂, t₃, y, rfl, h₂, h₃⟩ := trace_seq.mp h₁
    obtain ⟨rfl, rfl⟩ := trace_pure.mp h₃
    obtain ⟨as, rfl, rfl, rfl⟩ := ih h₂
    exact ⟨(m, a) :: as, rfl, by simp [applyEvents], rfl⟩

/-! ## Pruning -/

/-- What `prune` finds out about an entry. -/
inductive Fate where
  | rendered
  | kept
  | gone (e : Err)
  | unread (e : Err)
  | foreign (live : Unstructured)
  | deleted (live : Unstructured)
  | undeleted (live : Unstructured) (e : Err)

namespace Fate

/-- `prune` goes on to look the entry up. -/
def Orphan (cr : DualDeploymentOperator) (keys : List String) (rs : ResourceStatus) : Prop :=
  statusIdentityKey rs ∉ keys ∧ cr.keepsCRD rs = false

/-- When an entry has this fate. -/
def Fits (cr : DualDeploymentOperator) (ownedBy : String) (keys : List String)
    (rs : ResourceStatus) : Fate → Prop
  | rendered => statusIdentityKey rs ∈ keys
  | kept => statusIdentityKey rs ∉ keys ∧ cr.keepsCRD rs = true
  | gone e => Orphan cr keys rs ∧ (e.isNotFound ∨ e.isNoMatch)
  | unread e => Orphan cr keys rs ∧ ¬(e.isNotFound ∨ e.isNoMatch)
  | foreign live => Orphan cr keys rs ∧ live.ownedBy ≠ ownedBy
  | deleted live => Orphan cr keys rs ∧ live.ownedBy = ownedBy
  | undeleted live _ => Orphan cr keys rs ∧ live.ownedBy = ownedBy

/-- The calls made for it. -/
def events (c : Cluster) (ownedBy : String) (rs : ResourceStatus) : Fate → List CallEvent
  | rendered => []
  | kept => []
  | gone e => [⟨.get c (manifestFromStatus rs), .error e⟩]
  | unread e => [⟨.get c (manifestFromStatus rs), .error e⟩]
  | foreign live => [⟨.get c (manifestFromStatus rs), .ok live⟩]
  | deleted live =>
    [⟨.get c (manifestFromStatus rs), .ok live⟩, ⟨.delete c (manifestFromStatus rs) ownedBy, none⟩]
  | undeleted live e =>
    [⟨.get c (manifestFromStatus rs), .ok live⟩, ⟨.delete c (manifestFromStatus rs) ownedBy, some e⟩]

/-- The error, for an entry that is retained. -/
def err : Fate → Option Err
  | unread e => some e
  | undeleted _ e => some e
  | _ => none

end Fate

/-- The entries that are retained. -/
def retainedOf (fs : List (ResourceStatus × Fate)) : List ResourceStatus :=
  (fs.filter fun p => p.2.err.isSome).map (·.1)

theorem mem_retainedOf {fs : List (ResourceStatus × Fate)} {rs : ResourceStatus} :
    rs ∈ retainedOf fs ↔ ∃ p ∈ fs, p.2.err.isSome ∧ p.1 = rs := by
  simp only [retainedOf, List.mem_map, List.mem_filter, and_assoc]

theorem Fate.Fits.orphan {cr : DualDeploymentOperator} {ownedBy : String} {keys : List String}
    {rs : ResourceStatus} {f : Fate} (h : f.Fits cr ownedBy keys rs) (he : f.err.isSome) :
    Fate.Orphan cr keys rs := by
  cases f with
  | unread e => exact h.1
  | undeleted live e => exact h.1
  | _ => cases he

/-- The calls of `prune`. -/
def pruneEvents (c : Cluster) (ownedBy : String) (fs : List (ResourceStatus × Fate)) :
    List CallEvent :=
  fs.flatMap fun p => p.2.events c ownedBy p.1

section

variable {cr : DualDeploymentOperator} {c : Cluster} {ownedBy : String}

theorem Fate.mem_events {rs : ResourceStatus} {f : Fate} {l : CallEvent}
    (h : l ∈ f.events c ownedBy rs) : (∃ a, l = ⟨.get c (manifestFromStatus rs), a⟩) ∨
      ∃ a, l = ⟨.delete c (manifestFromStatus rs) ownedBy, a⟩ := by
  cases f with
  | rendered => cases h
  | kept => cases h
  | gone e => exact Or.inl ⟨_, List.mem_singleton.mp h⟩
  | unread e => exact Or.inl ⟨_, List.mem_singleton.mp h⟩
  | foreign live => exact Or.inl ⟨_, List.mem_singleton.mp h⟩
  | deleted live =>
    rcases List.mem_cons.mp h with h | h
    · exact Or.inl ⟨_, h⟩
    · exact Or.inr ⟨_, List.mem_singleton.mp h⟩
  | undeleted live e =>
    rcases List.mem_cons.mp h with h | h
    · exact Or.inl ⟨_, h⟩
    · exact Or.inr ⟨_, List.mem_singleton.mp h⟩

/-- A call is made for orphans only. -/
theorem Fate.Fits.orphan_of_mem {keys : List String} {rs : ResourceStatus} {f : Fate}
    (h : f.Fits cr ownedBy keys rs) {l : CallEvent} (hl : l ∈ f.events c ownedBy rs) :
    Fate.Orphan cr keys rs := by
  cases f with
  | rendered => cases hl
  | kept => cases hl
  | gone e => exact h.1
  | unread e => exact h.1
  | foreign live => exact h.1
  | deleted live => exact h.1
  | undeleted live e => exact h.1

/-- `prune` only gets and deletes the objects of previous entries. -/
theorem mem_pruneEvents {fs : List (ResourceStatus × Fate)} {l : CallEvent}
    (h : l ∈ pruneEvents c ownedBy fs) :
    ∃ p ∈ fs, (∃ a, l = ⟨.get c (manifestFromStatus p.1), a⟩) ∨
      ∃ a, l = ⟨.delete c (manifestFromStatus p.1) ownedBy, a⟩ := by
  obtain ⟨p, hp, hl⟩ := List.mem_flatMap.mp h
  exact ⟨p, hp, Fate.mem_events hl⟩

/-- It deletes only orphans. -/
theorem delete_mem_pruneEvents {keys : List String} {fs : List (ResourceStatus × Fate)}
    (hf : ∀ p ∈ fs, p.2.Fits cr ownedBy keys p.1) {c' : Cluster} {m : Manifest} {o : String}
    {a : Option Err} (h : ⟨.delete c' m o, a⟩ ∈ pruneEvents c ownedBy fs) :
    c' = c ∧ o = ownedBy ∧ ∃ p ∈ fs, m = manifestFromStatus p.1 ∧ Fate.Orphan cr keys p.1 := by
  obtain ⟨p, hp, hl⟩ := List.mem_flatMap.mp h
  have ho := (hf p hp).orphan_of_mem hl
  rcases Fate.mem_events hl with ⟨a', he⟩ | ⟨a', he⟩
  · cases he
  · cases he
    exact ⟨rfl, rfl, p, hp, rfl, ho⟩

theorem mem_applyEvents {as : List (Manifest × ApplyAnswer)} {l : CallEvent} :
    l ∈ applyEvents c ownedBy as ↔ ∃ p ∈ as, l = ⟨.apply c p.1 ownedBy, p.2⟩ := by
  rw [applyEvents, List.mem_map]
  exact ⟨fun ⟨p, hp, h⟩ => ⟨p, hp, h.symm⟩, fun ⟨p, hp, h⟩ => ⟨p, hp, h.symm⟩⟩

theorem pruneLoop_trace {keys : List String} {l : List ResourceStatus} {t : List CallEvent}
    {x : List ResourceStatus × List Err} (h : Trace (pruneLoop cr c ownedBy keys l) t x) :
    ∃ fs, fs.map (·.1) = l ∧ (∀ p ∈ fs, p.2.Fits cr ownedBy keys p.1) ∧
      t = pruneEvents c ownedBy fs ∧ x = (retainedOf fs, fs.filterMap (·.2.err)) := by
  induction l generalizing t x with
  | nil =>
    obtain ⟨rfl, rfl⟩ := trace_pure.mp h
    exact ⟨[], rfl, by simp, rfl, rfl⟩
  | cons rs l ih =>
    -- an entry that is dropped and one that is retained, each with its calls
    have drop : ∀ {f : Fate} {t'}, f.Fits cr ownedBy keys rs → f.err = none →
        t = f.events c ownedBy rs ++ t' → Trace (pruneLoop cr c ownedBy keys l) t' x →
        ∃ fs, fs.map (·.1) = rs :: l ∧ (∀ p ∈ fs, p.2.Fits cr ownedBy keys p.1) ∧
          t = pruneEvents c ownedBy fs ∧ x = (retainedOf fs, fs.filterMap (·.2.err)) := by
      intro f t' hf he ht h'
      obtain ⟨fs, rfl, hfs, rfl, rfl⟩ := ih h'
      refine ⟨(rs, f) :: fs, rfl, ?_, by simp [ht, pruneEvents], by simp [retainedOf, he]⟩
      exact List.forall_mem_cons.mpr ⟨hf, hfs⟩
    have retain : ∀ {f : Fate} {e : Err} {t'}, f.Fits cr ownedBy keys rs → f.err = some e →
        t = f.events c ownedBy rs ++ t' →
        Trace (pruneLoop cr c ownedBy keys l >>= fun y => pure (rs :: y.1, e :: y.2)) t' x →
        ∃ fs, fs.map (·.1) = rs :: l ∧ (∀ p ∈ fs, p.2.Fits cr ownedBy keys p.1) ∧
          t = pruneEvents c ownedBy fs ∧ x = (retainedOf fs, fs.filterMap (·.2.err)) := by
      intro f e t' hf he ht h'
      obtain ⟨t₁, t₂, y, rfl, h₁, h₂⟩ := trace_seq.mp h'
      obtain ⟨rfl, rfl⟩ := trace_pure.mp h₂
      obtain ⟨fs, rfl, hfs, rfl, rfl⟩ := ih h₁
      refine ⟨(rs, f) :: fs, rfl, ?_, by simp [ht, pruneEvents], by simp [retainedOf, he]⟩
      exact List.forall_mem_cons.mpr ⟨hf, hfs⟩
    rw [pruneLoop] at h
    split_ifs at h with hk hc
    · exact drop (f := .rendered) hk rfl rfl h
    · exact drop (f := .kept) ⟨hk, hc⟩ rfl rfl h
    · have ho : Fate.Orphan cr keys rs := ⟨hk, by simpa using hc⟩
      obtain ⟨a, t₁, rfl, h₁⟩ := trace_request_seq.mp h
      cases a with
      | error e =>
        simp only at h₁
        split_ifs at h₁ with hg
        · exact drop (f := .gone e) ⟨ho, hg⟩ rfl rfl h₁
        · exact retain (f := .unread e) ⟨ho, hg⟩ rfl rfl h₁
      | ok live =>
        simp only at h₁
        split_ifs at h₁ with hl
        · exact drop (f := .foreign live) ⟨ho, hl⟩ rfl rfl h₁
        · obtain ⟨a, t₂, rfl, h₂⟩ := trace_request_seq.mp h₁
          cases a with
          | none => exact drop (f := .deleted live) ⟨ho, not_not.mp hl⟩ rfl rfl h₂
          | some e => exact retain (f := .undeleted live e) ⟨ho, not_not.mp hl⟩ rfl rfl h₂

theorem prune_trace {prev : List ResourceStatus} {current : List Manifest} {t : List CallEvent}
    {x : List ResourceStatus × Option Err}
    (h : Trace (prune cr c ownedBy prev current) t x) :
    ∃ fs, fs.map (·.1) = sortStatusForDelete prev ∧
      (∀ p ∈ fs, p.2.Fits cr ownedBy (current.map manifestIdentityKey) p.1) ∧
      t = pruneEvents c ownedBy fs ∧
      x = (retainedOf fs, newAggregate ((fs.filterMap (·.2.err)).map some)) := by
  obtain ⟨t₁, t₂, y, rfl, h₁, h₂⟩ := trace_seq.mp h
  obtain ⟨rfl, rfl⟩ := trace_pure.mp h₂
  obtain ⟨fs, hl, hf, rfl, rfl⟩ := pruneLoop_trace h₁
  exact ⟨fs, hl, hf, List.append_nil _, rfl⟩

end

/-! ## Delivering -/

/-- One value for each cluster. -/
def perCluster {α : Type} (seed shoot : α) : Cluster → α
  | .seed => seed
  | .shoot => shoot

/-- The clusters in the order their renders are applied. -/
def DualDeploymentOperator.applyClusters (cr : DualDeploymentOperator) : List Cluster :=
  if cr.shootFirst then [.shoot, .seed] else [.seed, .shoot]

theorem mem_applyClusters (cr : DualDeploymentOperator) (c : Cluster) : c ∈ cr.applyClusters := by
  rw [DualDeploymentOperator.applyClusters]
  cases c <;> split <;> simp

/-- A render that was applied and pruned: the answers to `Apply` and the fates
of the previous entries. -/
structure RenderRun where
  applied : List (Manifest × ApplyAnswer)
  pruned : List (ResourceStatus × Fate)

namespace RenderRun

def statuses (run : RenderRun) : List ResourceStatus := run.applied.map (·.2.status)

/-- The manifests as `Apply` left them. -/
def manifests (run : RenderRun) : List Manifest := (appliedOf run.applied).manifests

/-- The inventory it leaves. -/
def inventory (run : RenderRun) : List ResourceStatus := run.statuses ++ retainedOf run.pruned

/-- It is a run of this render, against the inventory of the CR. -/
structure Of (cr : DualDeploymentOperator) (c : Cluster) (ownedBy : String) (ms : List Manifest)
    (run : RenderRun) : Prop where
  applied : run.applied.map (·.1) = ms
  pruned : run.pruned.map (·.1) = sortStatusForDelete (cr.status.resources c)
  fits : ∀ p ∈ run.pruned, p.2.Fits cr ownedBy (run.manifests.map manifestIdentityKey) p.1

/-- An `Apply` returned an error, or an entry was retained. -/
def Failed (run : RenderRun) : Prop :=
  (∃ p ∈ run.applied, p.2.err.isSome) ∨ ∃ p ∈ run.pruned, p.2.err.isSome

theorem applied_err {run : RenderRun} :
    (appliedOf run.applied).err = none ↔ ¬∃ p ∈ run.applied, p.2.err.isSome := by
  rw [Applied.err, newAggregate_some_eq_none, appliedOf, List.flatMap_eq_nil_iff]
  simp [Option.toList_eq_nil_iff]

/-- The error `prune` returns. -/
def prunedErr (run : RenderRun) : Option Err :=
  newAggregate ((run.pruned.filterMap (·.2.err)).map some)

theorem pruned_err {run : RenderRun} : run.prunedErr = none ↔ ¬∃ p ∈ run.pruned, p.2.err.isSome := by
  rw [prunedErr, newAggregate_some_eq_none, List.filterMap_eq_nil_iff]
  simp

/-- The errors of two runs, as the end of a delivery collects them. -/
theorem collected_err (run run' : RenderRun) :
    newAggregate [(appliedOf run.applied).err, (appliedOf run'.applied).err,
      newAggregate [run'.prunedErr, run.prunedErr]] = none ↔ ¬(run.Failed ∨ run'.Failed) := by
  simp only [newAggregate_eq_none, List.forall_mem_cons, List.not_mem_nil, false_implies,
    implies_true, and_true]
  rw [applied_err, applied_err, pruned_err, pruned_err, Failed, Failed, not_or, not_or, not_or]
  exact ⟨fun ⟨ha, hb, hq, hp⟩ => ⟨⟨ha, hp⟩, hb, hq⟩, fun ⟨⟨ha, hp⟩, hb, hq⟩ => ⟨ha, hb, hq, hp⟩⟩

end RenderRun

/-- A delivery: what the build of the shoot applier answered, the renders that
were applied, and the status write with its answer. -/
structure Delivery where
  build : Except ShootErr Unit
  run : Cluster → Option RenderRun
  written : DualDeploymentOperator
  answer : Option Err

namespace Delivery

/-- The `Apply` calls to a cluster. -/
def applies (d : Delivery) (ownedBy : String) (c : Cluster) : List CallEvent :=
  ((d.run c).map fun run => applyEvents c ownedBy run.applied).getD []

/-- The calls of `prune` to a cluster. -/
def prunes (d : Delivery) (ownedBy : String) (c : Cluster) : List CallEvent :=
  ((d.run c).map fun run => pruneEvents c ownedBy run.pruned).getD []

/-- All calls, in order. -/
def events (d : Delivery) (ownedBy : String) (cr : DualDeploymentOperator) : List CallEvent :=
  ⟨.buildShoot cr, d.build⟩ :: (cr.applyClusters.flatMap (d.applies ownedBy) ++
    cr.applyClusters.reverse.flatMap (d.prunes ownedBy) ++ [⟨.op (.updateStatus d.written), d.answer⟩])

theorem mem_applies {d : Delivery} {ownedBy : String} {c : Cluster} {l : CallEvent} :
    l ∈ d.applies ownedBy c ↔ ∃ run, d.run c = some run ∧ l ∈ applyEvents c ownedBy run.applied := by
  rw [applies]
  cases d.run c <;> simp

theorem mem_prunes {d : Delivery} {ownedBy : String} {c : Cluster} {l : CallEvent} :
    l ∈ d.prunes ownedBy c ↔ ∃ run, d.run c = some run ∧ l ∈ pruneEvents c ownedBy run.pruned := by
  rw [prunes]
  cases d.run c <;> simp

theorem mem_events {d : Delivery} {ownedBy : String} {cr : DualDeploymentOperator} {l : CallEvent} :
    l ∈ d.events ownedBy cr ↔ l = ⟨.buildShoot cr, d.build⟩ ∨ (∃ c, l ∈ d.applies ownedBy c) ∨
      (∃ c, l ∈ d.prunes ownedBy c) ∨ l = ⟨.op (.updateStatus d.written), d.answer⟩ := by
  simp only [events, List.mem_cons, List.mem_append, List.mem_flatMap, List.mem_reverse,
    mem_applyClusters, true_and, List.not_mem_nil, or_false, or_assoc]

/-- The calls of a delivery: the shoot applier is built, manifests are applied,
previous entries are looked up and deleted, and the status is written. -/
inductive Makes (d : Delivery) (ownedBy : String) (cr : DualDeploymentOperator) : CallEvent → Prop where
  | build : Makes d ownedBy cr ⟨.buildShoot cr, d.build⟩
  | apply {c : Cluster} {run : RenderRun} {p : Manifest × ApplyAnswer} (hr : d.run c = some run)
      (hp : p ∈ run.applied) : Makes d ownedBy cr ⟨.apply c p.1 ownedBy, p.2⟩
  | get {c : Cluster} {run : RenderRun} {p : ResourceStatus × Fate} {a : Except Err Unstructured}
      (hr : d.run c = some run) (hp : p ∈ run.pruned) : Makes d ownedBy cr ⟨.get c (manifestFromStatus p.1), a⟩
  | delete {c : Cluster} {run : RenderRun} {p : ResourceStatus × Fate} {a : Option Err}
      (hr : d.run c = some run) (hp : p ∈ run.pruned) :
      Makes d ownedBy cr ⟨.delete c (manifestFromStatus p.1) ownedBy, a⟩
  | write : Makes d ownedBy cr ⟨.op (.updateStatus d.written), d.answer⟩

theorem makes_of_mem {d : Delivery} {ownedBy : String} {cr : DualDeploymentOperator} {l : CallEvent}
    (hl : l ∈ d.events ownedBy cr) : d.Makes ownedBy cr l := by
  rcases mem_events.mp hl with rfl | ⟨c, hl⟩ | ⟨c, hl⟩ | rfl
  · exact .build
  · obtain ⟨run, hrun, hl⟩ := mem_applies.mp hl
    obtain ⟨p, hp, rfl⟩ := mem_applyEvents.mp hl
    exact .apply hrun hp
  · obtain ⟨run, hrun, hl⟩ := mem_prunes.mp hl
    obtain ⟨p, hp, ⟨a, rfl⟩ | ⟨a, rfl⟩⟩ := mem_pruneEvents hl
    · exact .get hrun hp
    · exact .delete hrun hp
  · exact .write

/-- The inventory that is written for a cluster: that of the run, or the one
read if the render was not applied. -/
def inventory (d : Delivery) (cr : DualDeploymentOperator) (c : Cluster) : List ResourceStatus :=
  ((d.run c).map RenderRun.inventory).getD (cr.status.resources c)

/-- The seed is deferred: there is no shoot applier, or a shoot resource is
degraded. -/
def Gated (d : Delivery) : Prop :=
  (∃ e, d.build = .error e) ∨ ∃ run, d.run .shoot = some run ∧ anyFailed run.statuses = true

/-- It is a delivery of these renders. -/
structure Of (r : Reconciler) (cr : DualDeploymentOperator) (ms : Cluster → List Manifest)
    (d : Delivery) : Prop where
  run : ∀ c run, d.run c = some run → run.Of cr c (r.ownedBy cr) (sortForApply (ms c))
  key : d.written.key = cr.key
  inventory : ∀ c, d.written.status.resources c = d.inventory cr c
  shoot : d.run .shoot = none ↔ ∃ e, d.build = .error e
  seed : d.run .seed = none ↔ cr.shootFirst = true ∧ d.Gated
  gated : d.Gated → d.written.status.ready = some .conditionFalse

/-- Both renders were applied. -/
def Through (d : Delivery) : Prop := ∀ c, d.run c ≠ none

/-- An `Apply` returned an error, or an entry was retained. -/
def Failed (d : Delivery) : Prop := ∃ c run, d.run c = some run ∧ run.Failed

/-- How a delivery ends. It returns no error if the status was written and the
delivery waits for credentials or got through without an error; if it got
through, the Ready condition grades the inventories it writes. -/
structure Ends (cr : DualDeploymentOperator) (d : Delivery) (x : Outcome) : Prop where
  outcome : x.2 = none ↔
    d.answer = none ∧ (d.build = .error .credentialsNotReady ∨ d.Through ∧ ¬d.Failed)
  ready : d.Through → findStatusCondition "Ready" d.written.status.conditions =
    some { computeConditions (d.inventory cr .seed) (d.inventory cr .shoot) with
      observedGeneration := cr.generation }

end Delivery

section

variable {cr : DualDeploymentOperator} {ownedBy : String} {t : List CallEvent} {x : Outcome}

theorem finish_trace {seed shoot : List ResourceStatus} {errs : List (Option Err)}
    (h : Trace (finish cr seed shoot errs) t x) :
    ∃ e, t = [⟨.op (.updateStatus ((cr.setResources seed shoot).setStatusCondition
      { computeConditions seed shoot with observedGeneration := cr.generation })), e⟩] ∧
      (x.2 = none ↔ e = none ∧ newAggregate errs = none) := by
  obtain ⟨e, t', rfl, h'⟩ := trace_request_seq.mp h
  cases e with
  | some e =>
    obtain ⟨rfl, rfl⟩ := trace_pure.mp h'
    exact ⟨_, rfl, by simp⟩
  | none =>
    simp only at h'
    split at h'
    · rename_i he
      obtain ⟨rfl, rfl⟩ := trace_pure.mp h'
      exact ⟨_, rfl, by simp [he]⟩
    · rename_i he
      obtain ⟨rfl, rfl⟩ := trace_pure.mp h'
      exact ⟨_, rfl, by simp [he]⟩

theorem finishNotReady_trace {seed shoot : List ResourceStatus} {backoff : Nat}
    (h : Trace (finishNotReady cr seed shoot backoff) t x) :
    ∃ e, t = [⟨.op (.updateStatus (cr.setResources seed shoot)), e⟩] ∧
      (x.2 = none ↔ e = none ∧ backoff ≠ 0) := by
  obtain ⟨e, t', rfl, h'⟩ := trace_request_seq.mp h
  cases e with
  | some e =>
    obtain ⟨rfl, rfl⟩ := trace_pure.mp h'
    exact ⟨_, rfl, by simp⟩
  | none =>
    obtain ⟨rfl, rfl⟩ := trace_pure.mp h'
    refine ⟨_, rfl, ?_⟩
    by_cases hb : backoff = 0 <;> simp [hb]

theorem ready_setResources (seed shoot : List ResourceStatus) :
    (cr.setResources seed shoot).status.ready = cr.status.ready := rfl

theorem ready_setCondition (reason message : String) :
    (cr.setCondition reason message).status.ready = some .conditionFalse := by
  rw [DualDeploymentOperator.setCondition, DualDeploymentOperator.setStatusCondition, Status.ready,
    find_setStatusCondition ⟨"Ready", .conditionFalse, reason, message, cr.generation⟩]
  rfl

theorem find_computeConditions (seed shoot : List ResourceStatus) (generation : Int)
    (cs : List Condition) : findStatusCondition "Ready" (setStatusCondition
      { computeConditions seed shoot with observedGeneration := generation } cs) =
        some { computeConditions seed shoot with observedGeneration := generation } := by
  have ht : (computeConditions seed shoot).type = "Ready" := by
    rw [computeConditions]
    split_ifs <;> rfl
  exact (congrArg (findStatusCondition · _) ht.symm).trans
    (find_setStatusCondition { computeConditions seed shoot with observedGeneration := generation } cs)

/-- A degraded resource makes Ready False. -/
theorem ready_computeConditions {seed shoot : List ResourceStatus} (generation : Int)
    (h : anyFailed shoot = true) : (cr.setStatusCondition
      { computeConditions seed shoot with observedGeneration := generation }).status.ready =
        some .conditionFalse := by
  rw [computeConditions, if_pos (Or.inr h), DualDeploymentOperator.setStatusCondition, Status.ready,
    find_setStatusCondition ⟨"Ready", .conditionFalse, _, _, generation⟩]
  rfl

theorem anyFailed_append (l₁ l₂ : List ResourceStatus) :
    anyFailed (l₁ ++ l₂) = (anyFailed l₁ || anyFailed l₂) :=
  List.any_append

/-- No shoot applier: the seed is delivered if it comes first. -/
theorem deliverWithoutShoot_trace {ms : List Manifest} {shootErr : ShootErr}
    (h : Trace (deliverWithoutShoot cr ownedBy ms shootErr) t x) :
    ∃ run : Option RenderRun, (∀ R, run = some R → R.Of cr .seed ownedBy ms) ∧
      (run = none ↔ cr.shootFirst = true) ∧ ∃ w e, w.key = cr.key ∧
      w.status.ready = some .conditionFalse ∧
      w.status.seedResources = (run.map RenderRun.inventory).getD cr.status.seedResources ∧
      w.status.shootResources = cr.status.shootResources ∧
      t = (run.map fun R => applyEvents .seed ownedBy R.applied ++
        pruneEvents .seed ownedBy R.pruned).getD [] ++ [⟨.op (.updateStatus w), e⟩] ∧
      (x.2 = none ↔ e = none ∧ shootErr = .credentialsNotReady) := by
  obtain ⟨t₁, t₂, out, rfl, h₁, h₂⟩ := trace_seq.mp h
  have hw : ∃ w e, w.key = cr.key ∧ w.status.ready = some .conditionFalse ∧
      w.status.seedResources = out ∧
      w.status.shootResources = cr.status.shootResources ∧
      t₂ = [⟨.op (.updateStatus w), e⟩] ∧
      (x.2 = none ↔ e = none ∧ shootErr = .credentialsNotReady) := by
    cases shootErr with
    | credentialsNotReady =>
      obtain ⟨e, rfl, hx⟩ := finishNotReady_trace h₂
      exact ⟨_, e, rfl, ready_setCondition _ _, rfl, rfl, rfl, by simp [hx]⟩
    | other err =>
      obtain ⟨e, rfl, hx⟩ := finishNotReady_trace h₂
      exact ⟨_, e, rfl, ready_setCondition _ _, rfl, rfl, rfl, by simp [hx]⟩
  obtain ⟨w, e, hk, hr, hs, hsh, rfl, hx⟩ := hw
  rw [seedOut] at h₁
  split_ifs at h₁ with ho
  · obtain ⟨rfl, rfl⟩ := trace_pure.mp h₁
    exact ⟨none, by simp, by simp [ho], w, e, hk, hr, hs, hsh, rfl, hx⟩
  · obtain ⟨ta, t', a, rfl, ha, h'⟩ := trace_seq.mp h₁
    obtain ⟨tp, t'', p, rfl, hp, h''⟩ := trace_seq.mp h'
    obtain ⟨rfl, rfl⟩ := trace_pure.mp h''
    obtain ⟨as, has, rfl, rfl⟩ := applyAll_trace ha
    obtain ⟨fs, hfs, hfit, rfl, rfl⟩ := prune_trace hp
    refine ⟨some ⟨as, fs⟩, ?_, by simp [ho], w, e, hk, hr, hs, hsh, by simp, hx⟩
    rintro R ⟨⟩
    exact ⟨has, hfs, hfit⟩

/-- A degraded shoot is pruned, and the seed left alone. -/
theorem deliverDegraded_trace {as : List (Manifest × ApplyAnswer)}
    (h : Trace (deliverDegraded cr ownedBy (appliedOf as)) t x) :
    ∃ fs, RenderRun.Of cr .shoot ownedBy (as.map (·.1)) ⟨as, fs⟩ ∧
      ∃ w e, w.key = cr.key ∧ w.status.ready = some .conditionFalse ∧
      w.status.seedResources = cr.status.seedResources ∧
      w.status.shootResources = RenderRun.inventory ⟨as, fs⟩ ∧
      t = pruneEvents .shoot ownedBy fs ++ [⟨.op (.updateStatus w), e⟩] ∧ x.2 ≠ none := by
  obtain ⟨tp, t', p, rfl, hp, h'⟩ := trace_seq.mp h
  obtain ⟨fs, hfs, hfit, rfl, rfl⟩ := prune_trace hp
  obtain ⟨tf, t'', y, rfl, hf, h''⟩ := trace_seq.mp h'
  obtain ⟨rfl, rfl⟩ := trace_pure.mp h''
  obtain ⟨e, rfl, hy⟩ := finishNotReady_trace hf
  refine ⟨fs, ⟨rfl, hfs, hfit⟩, _, e, ?_, ?_, rfl, rfl, by simp, ?_⟩
  · split <;> rfl
  · rw [ready_setResources]
    split
    · exact ready_setCondition _ _
    · exact ready_setCondition _ _
  · -- a backoff of zero asks for a requeue by an error
    show newAggregate [y.2, _] ≠ none
    rw [Ne, newAggregate_eq_none]
    intro hn
    exact absurd rfl (hy.mp (hn _ List.mem_cons_self)).2

end

section

variable {r : Reconciler} {cr : DualDeploymentOperator} {seedMs shootMs : List Manifest}
  {t : List CallEvent} {x : Outcome}

/-- A delivery of both renders, by their runs. -/
theorem Delivery.of_both (seedRun shootRun : RenderRun) (e : Option Err)
    (hseed : seedRun.Of cr .seed (r.ownedBy cr) (sortForApply seedMs))
    (hshoot : shootRun.Of cr .shoot (r.ownedBy cr) (sortForApply shootMs))
    (hgate : cr.shootFirst = true → anyFailed shootRun.statuses = false) :
    Delivery.Of r cr (perCluster seedMs shootMs)
      ⟨.ok (), perCluster (some seedRun) (some shootRun),
        (cr.setResources seedRun.inventory shootRun.inventory).setStatusCondition
          { computeConditions seedRun.inventory shootRun.inventory with
            observedGeneration := cr.generation }, e⟩ := by
  refine ⟨?_, rfl, ?_, by simp [perCluster], ?_, ?_⟩
  · rintro (_ | _) R ⟨⟩
    · exact hseed
    · exact hshoot
  · rintro (_ | _) <;> rfl
  · simp only [perCluster, Delivery.Gated, reduceCtorEq, exists_false, Option.some.injEq,
      false_or, exists_eq_left', false_iff, not_and, Bool.not_eq_true]
    exact hgate
  · rintro (⟨e, he⟩ | ⟨R, hR, hf⟩)
    · cases he
    · cases hR
      exact ready_computeConditions _ (by rw [RenderRun.inventory, anyFailed_append, hf]; rfl)

/-- It ends without an error if none was collected. -/
theorem Delivery.ends_both (seedRun shootRun : RenderRun) (e : Option Err) {errs : List (Option Err)}
    (hx : x.2 = none ↔ e = none ∧ newAggregate errs = none)
    (herrs : newAggregate errs = none ↔ ¬(seedRun.Failed ∨ shootRun.Failed)) :
    Delivery.Ends cr
      ⟨.ok (), perCluster (some seedRun) (some shootRun),
        (cr.setResources seedRun.inventory shootRun.inventory).setStatusCondition
          { computeConditions seedRun.inventory shootRun.inventory with
            observedGeneration := cr.generation }, e⟩ x := by
  have hfailed : (∃ c run, perCluster (some seedRun) (some shootRun) c = some run ∧ run.Failed) ↔
      seedRun.Failed ∨ shootRun.Failed := by
    constructor
    · rintro ⟨_ | _, run, hrun, hf⟩
      · cases hrun
        exact Or.inl hf
      · cases hrun
        exact Or.inr hf
    · rintro (hf | hf)
      · exact ⟨.seed, seedRun, rfl, hf⟩
      · exact ⟨.shoot, shootRun, rfl, hf⟩
  constructor
  · have hthrough : ∀ c, perCluster (some seedRun) (some shootRun) c ≠ none := by
      rintro (_ | _) <;> exact Option.some_ne_none _
    rw [hx, herrs, Delivery.Failed, hfailed]
    simp only [Delivery.Through, hthrough, reduceCtorEq, false_or, ne_eq, not_false_eq_true,
      implies_true, true_and]
  · intro _
    exact find_computeConditions _ _ _ _

theorem deliverShootFirst_trace (ho : cr.shootFirst = true)
    (h : Trace (deliverShootFirst cr (r.ownedBy cr) (sortForApply seedMs) (sortForApply shootMs)) t x) :
    ∃ d : Delivery, d.Of r cr (perCluster seedMs shootMs) ∧ d.Ends cr x ∧
      ⟨.buildShoot cr, .ok ()⟩ :: t = d.events (r.ownedBy cr) cr := by
  obtain ⟨ta, t', a, rfl, ha, h'⟩ := trace_seq.mp h
  obtain ⟨as, has, rfl, rfl⟩ := applyAll_trace ha
  split_ifs at h' with hf
  · obtain ⟨fs, hrun, w, e, hk, hr, hseed, hshoot, rfl, hx⟩ := deliverDegraded_trace h'
    rw [has] at hrun
    have hthrough : ¬Delivery.Through ⟨.ok (), perCluster none (some ⟨as, fs⟩), w, e⟩ :=
      fun ht => ht .seed rfl
    refine ⟨⟨.ok (), perCluster none (some ⟨as, fs⟩), w, e⟩, ⟨?_, hk, ?_, ?_, ?_, fun _ => hr⟩,
      ⟨?_, fun ht => absurd ht hthrough⟩, ?_⟩
    · rintro (_ | _) R ⟨⟩
      exact hrun
    · rintro (_ | _)
      · exact hseed
      · exact hshoot
    · simp [perCluster]
    · simp only [perCluster, Delivery.Gated, ho, true_iff, true_and]
      exact Or.inr ⟨_, rfl, hf⟩
    · simp [hx, hthrough]
    · simp [Delivery.events, DualDeploymentOperator.applyClusters, ho, Delivery.applies,
        Delivery.prunes, perCluster]
  · obtain ⟨tb, t₁, b, rfl, hb, h₁⟩ := trace_seq.mp h'
    obtain ⟨bs, hbs, rfl, rfl⟩ := applyAll_trace hb
    obtain ⟨tp, t₂, p, rfl, hp, h₂⟩ := trace_seq.mp h₁
    obtain ⟨fs, hfs, hfit, rfl, rfl⟩ := prune_trace hp
    obtain ⟨tq, t₃, q, rfl, hq, h₃⟩ := trace_seq.mp h₂
    obtain ⟨gs, hgs, hgit, rfl, rfl⟩ := prune_trace hq
    obtain ⟨e, rfl, hx⟩ := finish_trace h₃
    refine ⟨_, Delivery.of_both ⟨bs, fs⟩ ⟨as, gs⟩ e ⟨hbs, hfs, hfit⟩ ⟨has, hgs, hgit⟩
      fun _ => (Bool.not_eq_true _).mp hf, Delivery.ends_both ⟨bs, fs⟩ ⟨as, gs⟩ e hx ?_, ?_⟩
    · rw [or_comm]
      exact RenderRun.collected_err ⟨as, gs⟩ ⟨bs, fs⟩
    simp only [Delivery.events, DualDeploymentOperator.applyClusters, ho, Delivery.applies,
      Delivery.prunes, perCluster, if_true, List.flatMap_cons, List.flatMap_nil, List.reverse_cons,
      List.reverse_nil, List.nil_append, List.cons_append, List.append_nil, List.append_assoc,
      Option.map_some, Option.getD_some]
    rfl

theorem deliverSeedFirst_trace (ho : cr.shootFirst = false)
    (h : Trace (deliverSeedFirst cr (r.ownedBy cr) (sortForApply seedMs) (sortForApply shootMs)) t x) :
    ∃ d : Delivery, d.Of r cr (perCluster seedMs shootMs) ∧ d.Ends cr x ∧
      ⟨.buildShoot cr, .ok ()⟩ :: t = d.events (r.ownedBy cr) cr := by
  obtain ⟨tb, t₀, b, rfl, hb, h₀⟩ := trace_seq.mp h
  obtain ⟨bs, hbs, rfl, rfl⟩ := applyAll_trace hb
  obtain ⟨ta, t₁, a, rfl, ha, h₁⟩ := trace_seq.mp h₀
  obtain ⟨as, has, rfl, rfl⟩ := applyAll_trace ha
  obtain ⟨tq, t₂, q, rfl, hq, h₂⟩ := trace_seq.mp h₁
  obtain ⟨gs, hgs, hgit, rfl, rfl⟩ := prune_trace hq
  obtain ⟨tp, t₃, p, rfl, hp, h₃⟩ := trace_seq.mp h₂
  obtain ⟨fs, hfs, hfit, rfl, rfl⟩ := prune_trace hp
  obtain ⟨e, rfl, hx⟩ := finish_trace h₃
  refine ⟨_, Delivery.of_both ⟨bs, fs⟩ ⟨as, gs⟩ e ⟨hbs, hfs, hfit⟩ ⟨has, hgs, hgit⟩
    (fun hs => absurd (ho.symm.trans hs) Bool.false_ne_true),
    Delivery.ends_both ⟨bs, fs⟩ ⟨as, gs⟩ e hx (RenderRun.collected_err ⟨bs, fs⟩ ⟨as, gs⟩), ?_⟩
  simp only [Delivery.events, DualDeploymentOperator.applyClusters, ho, Delivery.applies,
    Delivery.prunes, perCluster, Bool.false_eq_true, if_false, List.flatMap_cons, List.flatMap_nil,
    List.reverse_cons, List.reverse_nil, List.nil_append, List.cons_append, List.append_nil,
    List.append_assoc, Option.map_some, Option.getD_some]
  rfl

end

theorem deliver_trace {r : Reconciler} {cr : DualDeploymentOperator}
    {seedMs shootMs : List Manifest} {t : List CallEvent} {x : Outcome}
    (h : Trace (deliver r cr seedMs shootMs) t x) :
    ∃ d : Delivery, d.Of r cr (perCluster seedMs shootMs) ∧ d.Ends cr x ∧
      t = d.events (r.ownedBy cr) cr := by
  obtain ⟨b, t', rfl, h'⟩ := trace_request_seq.mp h
  cases b with
  | error shootErr =>
    obtain ⟨run, hrun, hnone, w, e, hk, hr, hseed, hshoot, rfl, hx⟩ := deliverWithoutShoot_trace h'
    have hthrough : ¬Delivery.Through ⟨.error shootErr, perCluster run none, w, e⟩ :=
      fun ht => ht .shoot rfl
    refine ⟨⟨.error shootErr, perCluster run none, w, e⟩, ⟨?_, hk, ?_, ?_, ?_, fun _ => hr⟩,
      ⟨by simp [hx, hthrough], fun ht => absurd ht hthrough⟩, ?_⟩
    · rintro (_ | _) R hR
      · exact hrun R hR
      · cases hR
    · rintro (_ | _)
      · exact hseed
      · exact hshoot
    · simp [perCluster]
    · simp [perCluster, Delivery.Gated, hnone]
    · cases hs : cr.shootFirst <;> cases run <;>
        simp_all [Delivery.events, DualDeploymentOperator.applyClusters, Delivery.applies,
          Delivery.prunes, perCluster]
  | ok _ =>
    simp only at h'
    split_ifs at h' with ho
    · exact deliverShootFirst_trace ho h'
    · exact deliverSeedFirst_trace ((Bool.not_eq_true _).mp ho) h'

end DDO.Impl
