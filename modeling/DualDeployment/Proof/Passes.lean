import DualDeployment.Proof.Traces

/-!
# What one pass of Reconcile can do

A pass over a CR that is not being deleted adds the finalizer, fails before
delivery, or delivers (`reconcileNormal_trace`); the renders it delivers are
those its own trace determines (`Renders`). What a pass that delivers does to
one cluster is read off its calls to that cluster (`Delivers.appliesTo_eq`,
`Delivers.lookupsTo_eq`).
-/

namespace DDO.Impl

open Prog

/-! ## Rendering -/

def IsRendering : Call → Prop
  | .op (.sourceFrom _ _) => True
  | .op (.render _ _ _) => True
  | _ => False

theorem IsRendering.op {e : Call} (h : IsRendering e) : ∃ o, e = .op o := by
  cases e with
  | op o => exact ⟨o, rfl⟩
  | _ => exact h.elim

/-- The pipeline only builds the source and renders it. -/
theorem pipeline_mem {r : Reconciler} {cr : DualDeploymentOperator} {t : List CallEvent}
    {x : Except (String × Err) (List Manifest × List Manifest)} (h : Trace (pipeline r cr) t x)
    {l : CallEvent} (hl : l ∈ t) : IsRendering l.1 := by
  obtain ⟨a, t₁, rfl, h₁⟩ := trace_request_seq.mp h
  rcases List.mem_cons.mp hl with rfl | hl₁
  · trivial
  cases a with
  | error e =>
    obtain ⟨rfl, -⟩ := trace_pure.mp h₁
    cases hl₁
  | ok src =>
    obtain ⟨b, t₂, rfl, h₂⟩ := trace_request_seq.mp h₁
    rcases List.mem_cons.mp hl₁ with rfl | hl₂
    · trivial
    cases b with
    | error e =>
      obtain ⟨rfl, -⟩ := trace_pure.mp h₂
      cases hl₂
    | ok seed =>
      obtain ⟨c, t₃, rfl, h₃⟩ := trace_request_seq.mp h₂
      rcases List.mem_cons.mp hl₂ with rfl | hl₃
      · trivial
      have ht : t₃ = [] := by
        cases c with
        | error e => exact (trace_pure.mp h₃).1
        | ok shoot =>
          simp only at h₃
          split at h₃
          · exact (trace_pure.mp h₃).1
          · exact (trace_pure.mp h₃).1
      rw [ht] at hl₃
      cases hl₃

/-- A pipeline that succeeds has rendered both modes and transformed them. -/
theorem pipeline_ok {r : Reconciler} {cr : DualDeploymentOperator} {t : List CallEvent}
    {seed shoot : List Manifest} (h : Trace (pipeline r cr) t (.ok (seed, shoot))) :
    ∃ src seed₀ shoot₀ ts, ⟨.op (.render src .seed cr.ns), .ok seed₀⟩ ∈ t ∧
      ⟨.op (.render src .shoot cr.spec.shootNamespace), .ok shoot₀⟩ ∈ t ∧
      r.build cr.spec.transformations = .ok ts ∧
      transformAll ts seed₀ shoot₀ = .ok (seed, shoot) := by
  obtain ⟨a, t₁, rfl, h₁⟩ := trace_request_seq.mp h
  cases a with
  | error e => cases (trace_pure.mp h₁).2
  | ok src =>
    obtain ⟨b, t₂, rfl, h₂⟩ := trace_request_seq.mp h₁
    cases b with
    | error e => cases (trace_pure.mp h₂).2
    | ok seed₀ =>
      obtain ⟨c, t₃, rfl, h₃⟩ := trace_request_seq.mp h₂
      cases c with
      | error e => cases (trace_pure.mp h₃).2
      | ok shoot₀ =>
        cases hb : r.build cr.spec.transformations with
        | error e =>
          simp only [hb] at h₃
          cases (trace_pure.mp h₃).2
        | ok ts =>
          simp only [hb] at h₃
          exact ⟨src, seed₀, shoot₀, ts, by simp, by simp, rfl, (trace_pure.mp h₃).2.symm⟩

/-- In this trace of `Reconcile` the CR that was read is `cr`, and its
transformed renders are `ms`. -/
def Renders (r : Reconciler) (t : List CallEvent) (cr : DualDeploymentOperator)
    (ms : Cluster → List Manifest) : Prop :=
  ∃ key tp rest seed shoot, t = ⟨.op (.getCR key), .ok cr⟩ :: (tp ++ rest) ∧
    Trace (pipeline r cr) tp (.ok (seed, shoot)) ∧ ms = perCluster seed shoot

/-! ## Passes -/

/-- The passes over a CR that is not being deleted. -/
inductive NormalPass (r : Reconciler) (cr : DualDeploymentOperator) : List CallEvent → Prop where
  | addFinalizer (e : Option Err) : FinalizerName ∉ cr.finalizers →
      NormalPass r cr
        [⟨.op (.updateCR { cr with finalizers := cr.finalizers ++ [FinalizerName] }), e⟩]
  | failed {tp : List CallEvent} {reason : String} {err : Err} (e : Option Err) :
      FinalizerName ∈ cr.finalizers → Trace (pipeline r cr) tp (.error (reason, err)) →
      NormalPass r cr (tp ++ [⟨.op (.updateStatus (cr.setCondition reason err.error)), e⟩])
  | delivered {tp : List CallEvent} {seed shoot : List Manifest} {d : Delivery} :
      FinalizerName ∈ cr.finalizers → Trace (pipeline r cr) tp (.ok (seed, shoot)) →
      d.Of r cr (perCluster seed shoot) → NormalPass r cr (tp ++ d.events (r.ownedBy cr) cr)

theorem reconcileNormal_trace {r : Reconciler} {cr : DualDeploymentOperator} {t : List CallEvent}
    {x : Outcome} (h : Trace (reconcileNormal r cr) t x) : NormalPass r cr t := by
  rw [reconcileNormal] at h
  split_ifs at h with hf
  · obtain ⟨tp, t', y, rfl, hp, h'⟩ := trace_seq.mp h
    rcases y with ⟨reason, err⟩ | ⟨seed, shoot⟩
    · obtain ⟨e, t'', rfl, h''⟩ := trace_request_seq.mp h'
      obtain ⟨rfl, -⟩ := trace_pure.mp h''
      exact .failed e hf hp
    · obtain ⟨d, hd, -, rfl⟩ := deliver_trace h'
      exact .delivered hf hp hd
  · obtain ⟨e, t', rfl, h'⟩ := trace_request_seq.mp h
    obtain ⟨rfl, -⟩ := trace_pure.mp h'
    exact .addFinalizer e hf

/-- A pass that gets past rendering goes on to deliver. -/
theorem reconcileNormal_delivers {r : Reconciler} {cr : DualDeploymentOperator}
    {tp rest : List CallEvent} {seed shoot : List Manifest} {x : Outcome}
    (h : Trace (reconcileNormal r cr) (tp ++ rest) x)
    (hp : Trace (pipeline r cr) tp (.ok (seed, shoot))) :
    ∃ d : Delivery, d.Of r cr (perCluster seed shoot) ∧ d.Ends cr x ∧
      rest = d.events (r.ownedBy cr) cr := by
  rw [reconcileNormal] at h
  split_ifs at h with hf
  · obtain ⟨tp', t', y, he, hp', h'⟩ := trace_seq.mp h
    obtain ⟨rfl, rfl⟩ := hp.unique hp' he
    obtain rfl := List.append_cancel_left he
    exact deliver_trace h'
  · -- a pass that adds the finalizer does not render
    obtain ⟨e, t', he, -⟩ := trace_request_seq.mp h
    obtain ⟨a, t₁, rfl, -⟩ := trace_request_seq.mp hp
    cases he

theorem reconcile_trace {r : Reconciler} {key : NamespacedName} {t : List CallEvent} {x : Outcome}
    (h : Trace (reconcile r key) t x) :
    (∃ e, t = [⟨.op (.getCR key), .error e⟩]) ∨
      ∃ cr t', t = ⟨.op (.getCR key), .ok cr⟩ :: t' ∧
        (cr.deletionTimestamp = true ∧ Trace (reconcileDelete r cr) t' x ∨
          cr.deletionTimestamp = false ∧ Trace (reconcileNormal r cr) t' x) := by
  obtain ⟨a, t', rfl, h'⟩ := trace_request_seq.mp h
  cases a with
  | error e =>
    obtain ⟨rfl, -⟩ := trace_pure.mp h'
    exact Or.inl ⟨e, rfl⟩
  | ok cr =>
    simp only at h'
    split_ifs at h' with hd
    · exact Or.inr ⟨cr, t', rfl, Or.inl ⟨hd, h'⟩⟩
    · exact Or.inr ⟨cr, t', rfl, Or.inr ⟨(Bool.not_eq_true _).mp hd, h'⟩⟩

theorem reconcile_normal {r : Reconciler} {key : NamespacedName} {cr : DualDeploymentOperator}
    {t : List CallEvent} {x : Outcome}
    (h : Trace (reconcile r key) (⟨.op (.getCR key), .ok cr⟩ :: t) x)
    (hd : cr.deletionTimestamp = false) : NormalPass r cr t := by
  rcases reconcile_trace h with ⟨e, he⟩ | ⟨cr', t', he, ⟨hdel, -⟩ | ⟨-, hn⟩⟩
  · cases he
  · cases he
    rw [hd] at hdel
    cases hdel
  · cases he
    exact reconcileNormal_trace hn

/-! ## Reading a trace -/

/-- The `Apply` calls to a cluster, with their answers. -/
def appliesTo (c : Cluster) (t : List CallEvent) : List (Manifest × ApplyAnswer) :=
  t.filterMap fun
    | ⟨.apply c' m _, a⟩ => if c' = c then some (m, a) else none
    | _ => none

/-- The call is a `Get` or `Delete` on the cluster. -/
def isLookup (c : Cluster) : CallEvent → Bool
  | ⟨.get c' _, _⟩ => c' = c
  | ⟨.delete c' _ _, _⟩ => c' = c
  | _ => false

/-- The `Get` and `Delete` calls to a cluster. -/
def lookupsTo (c : Cluster) (t : List CallEvent) : List CallEvent := t.filter (isLookup c)

section

variable {c c' : Cluster} {ownedBy : String}

theorem appliesTo_append (t₁ t₂ : List CallEvent) :
    appliesTo c (t₁ ++ t₂) = appliesTo c t₁ ++ appliesTo c t₂ :=
  List.filterMap_append

theorem lookupsTo_append (t₁ t₂ : List CallEvent) :
    lookupsTo c (t₁ ++ t₂) = lookupsTo c t₁ ++ lookupsTo c t₂ :=
  List.filter_append _ _

theorem mem_appliesTo {m : Manifest} {a : ApplyAnswer} {t : List CallEvent} :
    (m, a) ∈ appliesTo c t ↔ ∃ o, ⟨.apply c m o, a⟩ ∈ t := by
  rw [appliesTo, List.mem_filterMap]
  constructor
  · rintro ⟨l, hl, he⟩
    split at he
    · split_ifs at he with hc
      subst hc
      cases he
      exact ⟨_, hl⟩
    · cases he
  · rintro ⟨o, hl⟩
    exact ⟨_, hl, by simp⟩

theorem appliesTo_applyEvents (as : List (Manifest × ApplyAnswer)) :
    appliesTo c (applyEvents c' ownedBy as) = if c' = c then as else [] := by
  rw [appliesTo, applyEvents, List.filterMap_map]
  split_ifs with h
  · subst h
    simp
  · simp [h]

theorem lookupsTo_applyEvents (as : List (Manifest × ApplyAnswer)) :
    lookupsTo c (applyEvents c' ownedBy as) = [] := by
  rw [lookupsTo, List.filter_eq_nil_iff]
  intro l hl
  obtain ⟨p, -, rfl⟩ := mem_applyEvents.mp hl
  simp [isLookup]

theorem appliesTo_pruneEvents (fs : List (ResourceStatus × Fate)) :
    appliesTo c (pruneEvents c' ownedBy fs) = [] := by
  rw [appliesTo, List.filterMap_eq_nil_iff]
  intro l hl
  rcases mem_pruneEvents hl with ⟨p, -, ⟨a, rfl⟩ | ⟨a, rfl⟩⟩ <;> rfl

theorem lookupsTo_pruneEvents (fs : List (ResourceStatus × Fate)) :
    lookupsTo c (pruneEvents c' ownedBy fs) = if c' = c then pruneEvents c' ownedBy fs else [] := by
  rw [lookupsTo]
  split_ifs with h
  · rw [List.filter_eq_self]
    intro l hl
    rcases mem_pruneEvents hl with ⟨p, -, ⟨a, rfl⟩ | ⟨a, rfl⟩⟩ <;> simp [isLookup, h]
  · rw [List.filter_eq_nil_iff]
    intro l hl
    rcases mem_pruneEvents hl with ⟨p, -, ⟨a, rfl⟩ | ⟨a, rfl⟩⟩ <;> simp [isLookup, h]

theorem appliesTo_rendering {t : List CallEvent} (h : ∀ l ∈ t, IsRendering l.1) :
    appliesTo c t = [] := by
  rw [appliesTo, List.filterMap_eq_nil_iff]
  intro l hl
  obtain ⟨e, a⟩ := l
  cases e with
  | op _ => rfl
  | _ => exact (h _ hl).elim

theorem lookupsTo_rendering {t : List CallEvent} (h : ∀ l ∈ t, IsRendering l.1) :
    lookupsTo c t = [] := by
  rw [lookupsTo, List.filter_eq_nil_iff]
  intro l hl
  obtain ⟨e, a⟩ := l
  cases e with
  | op _ => simp [isLookup]
  | _ => exact (h _ hl).elim

end

/-! ## The calls of a delivery to one cluster -/

namespace Delivery

variable {d : Delivery} {ownedBy : String} {cr : DualDeploymentOperator} {c c' : Cluster}

/-- The answers to `Apply` for a cluster, none if its render was not applied. -/
def applied (d : Delivery) (c : Cluster) : List (Manifest × ApplyAnswer) :=
  ((d.run c).map RenderRun.applied).getD []

theorem appliesTo_applies :
    appliesTo c (d.applies ownedBy c') = if c' = c then d.applied c else [] := by
  rw [applies, applied]
  cases hr : d.run c' with
  | none =>
    split_ifs with h
    · rw [← h, hr]
      rfl
    · rfl
  | some run =>
    rw [Option.map_some, Option.getD_some, appliesTo_applyEvents]
    split_ifs with h
    · rw [← h, hr]
      rfl
    · rfl

theorem appliesTo_prunes : appliesTo c (d.prunes ownedBy c') = [] := by
  rw [prunes]
  cases d.run c' with
  | none => rfl
  | some run => exact appliesTo_pruneEvents _

theorem lookupsTo_applies : lookupsTo c (d.applies ownedBy c') = [] := by
  rw [applies]
  cases d.run c' with
  | none => rfl
  | some run => exact lookupsTo_applyEvents _

theorem lookupsTo_prunes :
    lookupsTo c (d.prunes ownedBy c') = if c' = c then d.prunes ownedBy c else [] := by
  rw [prunes]
  cases hr : d.run c' with
  | none =>
    split_ifs with h
    · rw [← h, prunes, hr]
      rfl
    · rfl
  | some run =>
    rw [Option.map_some, Option.getD_some, lookupsTo_pruneEvents]
    split_ifs with h
    · rw [← h, prunes, hr]
      rfl
    · rfl

theorem appliesTo_events : appliesTo c (d.events ownedBy cr) = d.applied c := by
  have hb : ∀ t, appliesTo c (⟨.buildShoot cr, d.build⟩ :: t) = appliesTo c t := fun _ => rfl
  have hw : appliesTo c [⟨.op (.updateStatus d.written), d.answer⟩] = [] := rfl
  rw [events, hb, DualDeploymentOperator.applyClusters]
  split_ifs <;> cases c <;>
    simp [appliesTo_append, appliesTo_applies, appliesTo_prunes, hw]

theorem lookupsTo_events : lookupsTo c (d.events ownedBy cr) = d.prunes ownedBy c := by
  have hb : ∀ t, lookupsTo c (⟨.buildShoot cr, d.build⟩ :: t) = lookupsTo c t := fun _ => rfl
  have hw : lookupsTo c [⟨.op (.updateStatus d.written), d.answer⟩] = [] := rfl
  rw [events, hb, DualDeploymentOperator.applyClusters]
  split_ifs <;> cases c <;>
    simp [lookupsTo_append, lookupsTo_applies, lookupsTo_prunes, hw]

end Delivery

/-! ## Passes that deliver -/

/-- The shoot applier was built. -/
def Built (t : List CallEvent) : Prop := ∃ cr, ⟨.buildShoot cr, .ok ()⟩ ∈ t

/-- The statuses that `Apply` returned for a cluster. -/
def statusesOf (c : Cluster) (t : List CallEvent) : List ResourceStatus :=
  (appliesTo c t).map (·.2.status)

/-- The pass `t` reads `cr` and delivers its renders `ms` in `d`. -/
structure Delivers (r : Reconciler) (cr : DualDeploymentOperator) (ms : Cluster → List Manifest)
    (d : Delivery) (t : List CallEvent) : Prop where
  delivery : d.Of r cr ms
  trace : ∃ key tp seed shoot, t = ⟨.op (.getCR key), .ok cr⟩ :: (tp ++ d.events (r.ownedBy cr) cr) ∧
    Trace (pipeline r cr) tp (.ok (seed, shoot)) ∧ ms = perCluster seed shoot

namespace Delivers

variable {r : Reconciler} {cr : DualDeploymentOperator} {ms : Cluster → List Manifest}
  {d : Delivery} {t : List CallEvent} {c : Cluster}

theorem renders (h : Delivers r cr ms d t) : Renders r t cr ms := by
  obtain ⟨key, tp, seed, shoot, rfl, hp, rfl⟩ := h.trace
  exact ⟨key, tp, _, seed, shoot, rfl, hp, rfl⟩

/-- Every call reads the CR, renders or belongs to the delivery. -/
theorem mem (h : Delivers r cr ms d t) {l : CallEvent} (hl : l ∈ t) :
    (∃ key, l = ⟨.op (.getCR key), .ok cr⟩) ∨ IsRendering l.1 ∨ l ∈ d.events (r.ownedBy cr) cr := by
  obtain ⟨key, tp, seed, shoot, rfl, hp, rfl⟩ := h.trace
  rcases List.mem_cons.mp hl with rfl | hl
  · exact Or.inl ⟨key, rfl⟩
  rcases List.mem_append.mp hl with hl | hl
  · exact Or.inr (Or.inl (pipeline_mem hp hl))
  · exact Or.inr (Or.inr hl)

theorem mem_events (h : Delivers r cr ms d t) {l : CallEvent} (hl : l ∈ d.events (r.ownedBy cr) cr) :
    l ∈ t := by
  obtain ⟨key, tp, seed, shoot, rfl, -, -⟩ := h.trace
  exact List.mem_cons_of_mem _ (List.mem_append_right _ hl)

theorem appliesTo_eq (h : Delivers r cr ms d t) : appliesTo c t = d.applied c := by
  obtain ⟨key, tp, seed, shoot, rfl, hp, -⟩ := h.trace
  have hc : ∀ t, appliesTo c (⟨.op (.getCR key), .ok cr⟩ :: t) = appliesTo c t := fun _ => rfl
  rw [hc, appliesTo_append, appliesTo_rendering fun l hl => pipeline_mem hp hl,
    Delivery.appliesTo_events, List.nil_append]

theorem lookupsTo_eq (h : Delivers r cr ms d t) : lookupsTo c t = d.prunes (r.ownedBy cr) c := by
  obtain ⟨key, tp, seed, shoot, rfl, hp, -⟩ := h.trace
  have hc : ∀ t, lookupsTo c (⟨.op (.getCR key), .ok cr⟩ :: t) = lookupsTo c t := fun _ => rfl
  rw [hc, lookupsTo_append, lookupsTo_rendering fun l hl => pipeline_mem hp hl,
    Delivery.lookupsTo_events, List.nil_append]

theorem build (h : Delivers r cr ms d t) {cr' : DualDeploymentOperator} {a : Except ShootErr Unit}
    (hb : ⟨.buildShoot cr', a⟩ ∈ t) : a = d.build := by
  rcases h.mem hb with ⟨key, hl⟩ | hl | hl
  · cases hl
  · exact hl.elim
  cases Delivery.makes_of_mem hl with
  | build => rfl

/-- Everything is applied with the CR's own value. -/
theorem apply_owner (h : Delivers r cr ms d t) {m : Manifest} {o : String} {a : ApplyAnswer}
    (hm : ⟨.apply c m o, a⟩ ∈ t) : o = r.ownedBy cr := by
  rcases h.mem hm with ⟨key, hl⟩ | hl | hl
  · cases hl
  · exact hl.elim
  cases Delivery.makes_of_mem hl with
  | apply hr hp => rfl

/-- There is one status write. -/
theorem written_eq (h : Delivers r cr ms d t) {w : DualDeploymentOperator} {a : Option Err}
    (hw : ⟨.op (.updateStatus w), a⟩ ∈ t) : w = d.written ∧ a = d.answer := by
  rcases h.mem hw with ⟨key, hl⟩ | hl | hl
  · cases hl
  · exact hl.elim
  cases Delivery.makes_of_mem hl with
  | write => exact ⟨rfl, rfl⟩

theorem mem_write (h : Delivers r cr ms d t) : ⟨.op (.updateStatus d.written), d.answer⟩ ∈ t :=
  h.mem_events (Delivery.mem_events.mpr (Or.inr (Or.inr (Or.inr rfl))))

theorem mem_build (h : Delivers r cr ms d t) : ⟨.buildShoot cr, d.build⟩ ∈ t :=
  h.mem_events (Delivery.mem_events.mpr (Or.inl rfl))

theorem built_iff (h : Delivers r cr ms d t) : Built t ↔ ¬∃ e, d.build = .error e := by
  have hmem := h.mem_build
  constructor
  · rintro ⟨cr', hb⟩ ⟨e, he⟩
    have := h.build hb
    rw [he] at this
    cases this
  · intro he
    cases hb : d.build with
    | error e => exact absurd ⟨e, hb⟩ he
    | ok a =>
      rw [hb] at hmem
      exact ⟨cr, hmem⟩

theorem gated_iff (h : Delivers r cr ms d t) :
    d.Gated ↔ ¬(Built t ∧ anyFailed (statusesOf .shoot t) = false) := by
  rw [h.built_iff, statusesOf, h.appliesTo_eq, Delivery.applied, Delivery.Gated,
    ← h.delivery.shoot]
  cases d.run .shoot with
  | none => simp
  | some run => simp [RenderRun.statuses]

/-- It ends in its one status write. -/
theorem write {key : NamespacedName} (h : Delivers r cr ms d (⟨.op (.getCR key), .ok cr⟩ :: t)) :
    ∃ t₀, t = t₀ ++ [⟨.op (.updateStatus d.written), d.answer⟩] ∧
      ∀ l ∈ t₀, ∀ w, l.1 ≠ .op (.updateStatus w) := by
  obtain ⟨key', tp, seed, shoot, he, hp, -⟩ := h.trace
  obtain ⟨-, rfl⟩ := List.cons.inj he
  refine ⟨tp ++ ⟨.buildShoot cr, d.build⟩ :: (cr.applyClusters.flatMap (d.applies (r.ownedBy cr)) ++
    cr.applyClusters.reverse.flatMap (d.prunes (r.ownedBy cr))), ?_, ?_⟩
  · simp [Delivery.events]
  · intro l hl w hw
    rcases List.mem_append.mp hl with hl | hl
    · have := pipeline_mem hp hl
      rw [hw] at this
      exact this
    rcases List.mem_cons.mp hl with rfl | hl
    · cases hw
    rcases List.mem_append.mp hl with hl | hl
    · obtain ⟨c, -, hl⟩ := List.mem_flatMap.mp hl
      obtain ⟨run, -, hl⟩ := Delivery.mem_applies.mp hl
      obtain ⟨p, -, rfl⟩ := mem_applyEvents.mp hl
      cases hw
    · obtain ⟨c, -, hl⟩ := List.mem_flatMap.mp hl
      obtain ⟨run, -, hl⟩ := Delivery.mem_prunes.mp hl
      rcases mem_pruneEvents hl with ⟨p, -, ⟨a, rfl⟩ | ⟨a, rfl⟩⟩ <;> cases hw

end Delivers

/-- A pass over a CR with the finalizer fails before delivery or delivers. -/
theorem reconcile_delivers {r : Reconciler} {key : NamespacedName} {cr : DualDeploymentOperator}
    {t : List CallEvent} {x : Outcome}
    (h : Trace (reconcile r key) (⟨.op (.getCR key), .ok cr⟩ :: t) x)
    (hd : cr.deletionTimestamp = false) (hf : FinalizerName ∈ cr.finalizers) :
    (∃ tp reason err e, Trace (pipeline r cr) tp (.error (reason, err)) ∧
      t = tp ++ [⟨.op (.updateStatus (cr.setCondition reason err.error)), e⟩]) ∨
      ∃ ms d, Delivers r cr ms d (⟨.op (.getCR key), .ok cr⟩ :: t) := by
  cases reconcile_normal h hd with
  | addFinalizer e hn => exact absurd hf hn
  | failed e _ hp => exact Or.inl ⟨_, _, _, e, hp, rfl⟩
  | delivered _ hp hdel => exact Or.inr ⟨_, _, hdel, key, _, _, _, rfl, hp, rfl⟩

/-- A pass that calls an applier delivers. -/
theorem reconcile_calls {r : Reconciler} {key : NamespacedName} {cr : DualDeploymentOperator}
    {t : List CallEvent} {x : Outcome}
    (h : Trace (reconcile r key) (⟨.op (.getCR key), .ok cr⟩ :: t) x)
    (hd : cr.deletionTimestamp = false) {l : CallEvent} (hl : l ∈ ⟨.op (.getCR key), .ok cr⟩ :: t)
    (ho : ∀ o, l.1 ≠ .op o) : FinalizerName ∈ cr.finalizers ∧
      ∃ ms d, Delivers r cr ms d (⟨.op (.getCR key), .ok cr⟩ :: t) := by
  have hl' : l ∈ t := (List.mem_cons.mp hl).resolve_left fun he => ho _ (congrArg Sigma.fst he)
  cases reconcile_normal h hd with
  | addFinalizer e _ => exact absurd (congrArg Sigma.fst (List.mem_singleton.mp hl')) (ho _)
  | failed e _ hp =>
    rcases List.mem_append.mp hl' with hl' | hl'
    · obtain ⟨o, he⟩ := (pipeline_mem hp hl').op
      exact absurd he (ho o)
    · exact absurd (congrArg Sigma.fst (List.mem_singleton.mp hl')) (ho _)
  | delivered hf hp hdel => exact ⟨hf, _, _, hdel, key, _, _, _, rfl, hp, rfl⟩

/-- A pass that gets past rendering delivers what it rendered, and ends as the
delivery does. -/
theorem renders_ends {r : Reconciler} {key : NamespacedName} {cr : DualDeploymentOperator}
    {ms : Cluster → List Manifest} {t : List CallEvent} {x : Outcome}
    (h : Trace (reconcile r key) t x) (hd : cr.deletionTimestamp = false)
    (hr : Renders r t cr ms) : ∃ d, Delivers r cr ms d t ∧ d.Ends cr x := by
  obtain ⟨key', tp, rest, seed, shoot, rfl, hp, rfl⟩ := hr
  rcases reconcile_trace h with ⟨e, he⟩ | ⟨cr', t', he, ⟨hdel, -⟩ | ⟨-, hn⟩⟩
  · cases he
  · cases he
    rw [hd] at hdel
    cases hdel
  · cases he
    obtain ⟨d, hof, hends, rfl⟩ := reconcileNormal_delivers hn hp
    exact ⟨d, ⟨hof, key, tp, seed, shoot, rfl, hp, rfl⟩, hends⟩

theorem renders_delivers {r : Reconciler} {key : NamespacedName} {cr : DualDeploymentOperator}
    {ms : Cluster → List Manifest} {t : List CallEvent} {x : Outcome}
    (h : Trace (reconcile r key) t x) (hd : cr.deletionTimestamp = false)
    (hr : Renders r t cr ms) : ∃ d, Delivers r cr ms d t :=
  (renders_ends h hd hr).imp fun _ hd => hd.1

end DDO.Impl
