import DualDeployment.Framework.Pool
import DualDeployment.Proof.Refinement
import DualDeployment.Spec.Server

/-!
# Several CRs and one cluster-scoped object

The calls of `Apply` and `Delete` that any number of CRs make for one
cluster-scoped object, from any number of operator instances, with their
requests interleaved. Each call reads the object before it writes it, and
goes on only if it does not carry another CR's owned-by value; the write
itself is unconditional. So a write is safe if no other CR has written the
object since that read (`fresh_writes_respect`), and takes the object from its
owner if one has (`cluster_object_seized`).
-/

namespace DDO.Spec

open Impl Prog

/-! ## Calls for one object -/

/-- A call made for a CR that delivers to these clusters. -/
structure CRCall where
  targets : Targets
  call : Call

namespace CRCall

def prog (x : CRCall) : Prog Req Resp (Answer x.call) := ssa x.call

/-- The owned-by value of the CR. -/
def owner (x : CRCall) : String :=
  match x.call with
  | .apply _ _ ownedBy => ownedBy
  | .delete _ _ ownedBy => ownedBy
  | _ => ""

/-- The call is an `Apply` or a `Delete` of the object. -/
def On (id : ClusterId) (r : ObjRef) (x : CRCall) : Prop :=
  match x.call with
  | .apply c m _ => x.targets.id c = id ∧ m.unstructured.ref = r
  | .delete c m _ => x.targets.id c = id ∧ m.unstructured.ref = r
  | _ => False

end CRCall

def IsWrite : Req → Prop
  | .patch _ _ => True
  | .delete _ _ => True
  | _ => False

/-- The object on the cluster. -/
def World.object (w : World) (id : ClusterId) (r : ObjRef) : Option Unstructured :=
  (w.clusters id).objects r

/-- The object is live and carries the owned-by value. -/
def World.Carries (w : World) (id : ClusterId) (r : ObjRef) (ownedBy : String) : Prop :=
  ∃ u, w.object id r = some u ∧ u.ownedBy = ownedBy

/-- The object carries no owned-by value but this one. -/
def World.Free (w : World) (id : ClusterId) (r : ObjRef) (ownedBy : String) : Prop :=
  ∀ o, o ≠ "" → w.Carries id r o → o = ownedBy

/-- The calls under way, and the API servers. -/
abbrev CRPool (ι : Type) := Pool ι CRCall.prog World

/-- The moves of CRs that call `Apply` and `Delete` for the object. -/
abbrev CRPool.Step {ι : Type} [DecidableEq ι] (id : ClusterId) (r : ObjRef) :
    CRPool ι → Move ι CRCall Resp → CRPool ι → Prop :=
  Pool.Step (CRCall.On id r) fun x => Spec.Step x.targets

/-- No other CR has written the object since the last request of the call. -/
def Fresh (x : Running CRCall.prog) : Prop :=
  ∀ p ∈ x.since, IsWrite p.2.1 → p.1.owner = x.call.owner

/-- A call that writes is fresh. -/
def WritesFresh {ι : Type} (s : CRPool ι) : Move ι CRCall Resp → Prop
  | .start _ _ => True
  | .request i l => ∀ x ∈ s.running i, IsWrite l.1 → Fresh x

/-- While the object carries another CR's value, the call neither writes nor
changes it. -/
def Respects {ι : Type} (id : ClusterId) (r : ObjRef) (s : CRPool ι) (m : Move ι CRCall Resp)
    (s' : CRPool ι) : Prop :=
  match m with
  | .start _ _ => True
  | .request i l => ∀ x ∈ s.running i, ∀ o, o ≠ "" → o ≠ x.call.owner → s.world.Carries id r o →
      ¬IsWrite l.1 ∧ s'.world.object id r = s.world.object id r

/-! ## One call -/

section

variable {id : ClusterId} {r : ObjRef} {x : CRCall} {w w' : World} {l : Event Resp}

instance (e : Req) : Nonempty (Resp e) := by
  cases e with
  | op o => cases o <;> exact ⟨by first | exact .error errInternal | exact none | exact ()⟩
  | getSecret _ => exact ⟨.error errInternal⟩
  | newClient _ => exact ⟨none⟩
  | get _ _ _ _ => exact ⟨.error errInternal⟩
  | patch _ _ => exact ⟨.error errInternal⟩
  | delete _ _ => exact ⟨none⟩

theorem isClusterScoped_getKind {u : Unstructured} (h : isClusterScoped u.ref.kind = true) :
    isClusterScoped u.getKind = true := by
  rw [Unstructured.ref, ObjRef.of, Unstructured.groupVersionKind] at h
  split at h
  · exact h
  · have hempty : isClusterScoped "" = true := h
    exact absurd hempty (by decide)

theorem CRCall.On.cluster (hon : x.On id r) : ∃ c, x.targets.id c = id := by
  obtain ⟨T, e⟩ := x
  cases e with
  | apply c m o => exact ⟨c, hon.1⟩
  | delete c m o => exact ⟨c, hon.1⟩
  | _ => exact hon.elim

/-- A request of a call for the object leaves it as it is, unless it is a write;
then it leaves the object absent or with the CR's value. -/
theorem CRCall.On.object (hon : x.On id r) {t : List (Event Resp)} {a : Answer x.call}
    (h : Trace x.prog t a) (hl : l ∈ t) (hs : Step x.targets w l w') :
    w'.object id r = w.object id r ∨ IsWrite l.1 ∧ w'.Free id r x.owner := by
  obtain ⟨c, rfl⟩ := hon.cluster
  rcases step_live hs c r with he | ⟨u, v, hu, hr, ha, hv⟩ | ⟨u, hu, -, hn⟩
  · exact Or.inl he
  · refine Or.inr ⟨hu ▸ trivial, ?_⟩
    rintro o - ⟨v', hv', rfl⟩
    cases hv.symm.trans hv'
    obtain ⟨T, e⟩ := x
    obtain ⟨m, o, rfl, rfl⟩ := ssa_mem_patch h hl hu
    -- A live object has a name, so what was submitted carries the label.
    have hst : Storable r := (w'.clusters _).wellFormed r v hv
    rw [← hr, (submitted_identity m o).ref] at hst
    rw [ha.ownedBy]
    exact submitted_ownedBy o hst.2.2
  · refine Or.inr ⟨hu ▸ trivial, ?_⟩
    rintro o - ⟨v', hv', -⟩
    cases hn.symm.trans hv'

/-- Before its write, a call for a cluster-scoped object has made one request: a
read that did not show another CR's value. -/
theorem CRCall.On.read (hon : x.On id r) (hk : isClusterScoped r.kind = true)
    {t s : List (Event Resp)} {a : Answer x.call} (h : Trace x.prog (t ++ l :: s) a)
    (hw : IsWrite l.1) :
    ∃ c u y, x.targets.id c = id ∧ u.ref = r ∧ t = [⟨getOf c u, y⟩] ∧
      (∀ e, y = .error e → e.isNotFound = true) ∧
      ∀ live, y = .ok live → live.ownedBy = "" ∨ live.ownedBy = x.owner := by
  have hl : l ∈ t ++ l :: s := List.mem_append_right _ List.mem_cons_self
  obtain ⟨T, e⟩ := x
  cases hreq : l.1 with
  | patch c u =>
    obtain ⟨m, o, rfl, rfl⟩ := ssa_mem_patch h hl hreq
    obtain ⟨hid, hm⟩ := hon
    have hr : (submitted m o).ref = r := (submitted_identity m o).ref.trans hm
    have hp := (apply_trace h).passed hreq
    cases hp with
    | namespaced hn => exact absurd (isClusterScoped_getKind (hr ▸ hk)) (by rw [hn]; decide)
    | absent _ he => exact ⟨c, _, _, hid, hr, rfl, by rintro _ ⟨⟩; exact he, by rintro _ ⟨⟩⟩
    | owned _ ho => exact ⟨c, _, _, hid, hr, rfl, by rintro _ ⟨⟩, by rintro _ ⟨⟩; exact ho⟩
  | delete c u =>
    obtain ⟨m, o, rfl, rfl⟩ := ssa_mem_delete h hl hreq
    obtain ⟨live, rfl, ho⟩ := (delete_trace h).checked hreq
    exact ⟨c, _, _, hon.1, hon.2, rfl, by rintro _ ⟨⟩, by rintro _ ⟨⟩; exact Or.inr ho⟩
  | _ => rw [hreq] at hw; exact hw.elim

/-- A read that does not show another CR's value finds the object free. -/
theorem get_free {T : Targets} {c : Cluster} {u : Unstructured} {y : Except Err Unstructured}
    {o : String} (hs : Step T w ⟨getOf c u, y⟩ w') (he : ∀ e, y = .error e → e.isNotFound = true)
    (ho : ∀ live, y = .ok live → live.ownedBy = "" ∨ live.ownedBy = o) :
    w'.Free (T.id c) u.ref o := by
  rintro o' hne ⟨v, hv, rfl⟩
  have hget := @get_owned T v.ownedBy w w' c u y hs
  cases y with
  | error e => exact absurd ⟨v, hv, rfl⟩ (hget.1 e rfl (Or.inl (he e rfl)))
  | ok live =>
    have hlive : live.ownedBy = v.ownedBy := by
      by_contra hne'
      exact hget.2 live rfl hne' ⟨v, hv, rfl⟩
    rcases ho live rfl with h | h
    · exact absurd (hlive.symm.trans h) hne
    · exact hlive.symm.trans h

theorem World.Free.congr {o : String} (h : w.Free id r o) (he : w'.object id r = w.object id r) :
    w'.Free id r o := by
  intro o' hne hc
  rw [World.Carries, he] at hc
  exact h o' hne hc

end

/-! ## All calls -/

section

variable {ι : Type} [DecidableEq ι] {id : ClusterId} {r : ObjRef}

/-- If the next request of the call is a write and the call is fresh, the object
carries no other CR's value. -/
structure ClearToWrite (id : ClusterId) (r : ObjRef) (x : Running CRCall.prog) (w : World) : Prop where
  on : x.call.On id r
  free : ∀ e k, x.rest = .call e k → IsWrite e → Fresh x → w.Free id r x.call.owner

theorem Fresh.of_saw {x : Running CRCall.prog} {y : CRCall} {l : Event Resp} (h : Fresh (x.saw y l)) :
    Fresh x ∧ (IsWrite l.1 → y.owner = x.call.owner) :=
  ⟨fun p hp => h p (List.mem_append_left _ hp),
    h (y, l) (List.mem_append_right _ (List.mem_singleton_self _))⟩

theorem clearToWrite_start (hk : isClusterScoped r.kind = true) (c : CRCall) (w : World)
    (hc : c.On id r) : ClearToWrite id r (.start CRCall.prog c) w := by
  refine ⟨hc, fun e k hr hw _ => ?_⟩
  obtain ⟨y⟩ := (inferInstance : Nonempty (Resp e))
  obtain ⟨s, a, ht⟩ := (Running.start CRCall.prog c).exists_trace hr y
  obtain ⟨_, _, _, -, -, h, -⟩ := hc.read hk ht hw
  cases h

theorem clearToWrite_own (hk : isClusterScoped r.kind = true) (x : Running CRCall.prog) {e : Req}
    {k : Resp e → Prog Req Resp (Answer x.call.call)} (h : x.rest = .call e k) (y : Resp e)
    {w w' : World} (hx : ClearToWrite id r x w) (hs : Step x.call.targets w ⟨e, y⟩ w') :
    ClearToWrite id r (x.answered h y) w' := by
  refine ⟨hx.on, fun e' k' hr hw _ => ?_⟩
  obtain ⟨y'⟩ := (inferInstance : Nonempty (Resp e'))
  obtain ⟨s, a, ht⟩ := (x.answered h y).exists_trace hr y'
  obtain ⟨c, u, z, rfl, rfl, hget, he, ho⟩ := hx.on.read hk ht hw
  obtain ⟨-, hlast⟩ := List.append_eq_singleton_iff.mp hget |>.resolve_right (by simp)
  obtain ⟨rfl⟩ := hlast
  exact get_free hs he ho

theorem clearToWrite_other (x y : Running CRCall.prog) {e : Req}
    {k : Resp e → Prog Req Resp (Answer y.call.call)} (h : y.rest = .call e k) (z : Resp e)
    {w w' : World} (hx : ClearToWrite id r x w) (hy : ClearToWrite id r y w)
    (hs : Step y.call.targets w ⟨e, z⟩ w') : ClearToWrite id r (x.saw y.call ⟨e, z⟩) w' := by
  refine ⟨hx.on, fun e' k' hr hw hf => ?_⟩
  obtain ⟨hfx, hsame⟩ := hf.of_saw
  obtain ⟨s, a, ht⟩ := y.exists_trace h z
  rcases hy.on.object ht (List.mem_append_right _ List.mem_cons_self) hs with he | ⟨hwr, hfree⟩
  · exact (hx.free e' k' hr hw hfx).congr he
  · show w'.Free id r x.call.owner
    rw [← hsame hwr]
    exact hfree

/-- **Fresh writes respect the other CRs.** Any number of CRs call `Apply` and
`Delete` for one cluster-scoped object, with their requests interleaved in any
order. In a run in which no other CR has written the object between a call's
read and its write, no request writes or changes the object while it carries
another CR's owned-by value. -/
theorem fresh_writes_respect (hk : isClusterScoped r.kind = true) {w : World}
    {ms : List (Move ι CRCall Resp)} {s : CRPool ι}
    (h : Steps (fun s m s' => CRPool.Step id r s m s' ∧ WritesFresh s m) (Pool.idle w) ms s) :
    Steps (fun s m s' => CRPool.Step id r s m s' ∧ Respects id r s m s') (Pool.idle w) ms s := by
  refine h.mono_inv (P := Pool.All (ClearToWrite id r)) ?_ (Pool.all_idle _ w)
  rintro s m s' hg ⟨hstep, hfresh⟩
  refine ⟨hstep.inv (clearToWrite_start hk) (clearToWrite_own hk) clearToWrite_other hg, hstep, ?_⟩
  cases hstep with
  | start _ => trivial
  | @request i x e k y w' hx hr hs =>
    intro x' hx' o hne ho hc
    cases Option.some.inj (hx.symm.trans hx')
    have hgx := hg i x hx
    have hw : ¬IsWrite e := fun hw => ho (hgx.free e k hr hw (hfresh x hx hw) o hne hc)
    refine ⟨hw, ?_⟩
    obtain ⟨t, a, ht⟩ := x.exists_trace hr y
    exact (hgx.on.object ht (List.mem_append_right _ List.mem_cons_self) hs).resolve_right fun h => hw h.1

end

/-! ## Two CRs -/

/-- A ClusterRole that two CRs render. -/
def sharedRole : Manifest := bare "rbac.authorization.k8s.io/v1" "ClusterRole" "" "metal-operator"

def sharedRef : ObjRef := sharedRole.unstructured.ref

/-- The owned-by value of a CR of the sample installation. -/
def sampleOwner (name : String) : String := ownedByValue sampleReconciler.sha256Hex "garden" name

def applyShared (name : String) : CRCall := ⟨sampleTargets, .apply .seed sharedRole (sampleOwner name)⟩

def deleteShared (name : String) : CRCall := ⟨sampleTargets, .delete .seed sharedRole (sampleOwner name)⟩

/-- The sample server, for the clusters of each CR. -/
def sharedServer (x : CRCall) : Server := { sampleServer [] [] with targets := x.targets }

def sharedPool : CRPool Nat :=
  .idle (sampleWorld (sampleCR .seedFirst .retain) (sampleCR_key .seedFirst .retain))

instance (id : ClusterId) (r : ObjRef) : DecidablePred (CRCall.On id r)
  | ⟨T, .apply c m _⟩ => inferInstanceAs (Decidable (T.id c = id ∧ m.unstructured.ref = r))
  | ⟨T, .delete c m _⟩ => inferInstanceAs (Decidable (T.id c = id ∧ m.unstructured.ref = r))
  | ⟨_, .op _⟩ => inferInstanceAs (Decidable False)
  | ⟨_, .buildShoot _⟩ => inferInstanceAs (Decidable False)
  | ⟨_, .get _ _⟩ => inferInstanceAs (Decidable False)

instance : DecidablePred IsWrite
  | .patch _ _ => .isTrue trivial
  | .delete _ _ => .isTrue trivial
  | .op _ => .isFalse id
  | .getSecret _ => .isFalse id
  | .newClient _ => .isFalse id
  | .get _ _ _ _ => .isFalse id

instance (x : Running CRCall.prog) : Decidable (Fresh x) :=
  inferInstanceAs (Decidable (∀ p ∈ x.since, IsWrite p.2.1 → p.1.owner = x.call.owner))

instance {ι : Type} (s : CRPool ι) : DecidablePred (WritesFresh s)
  | .start _ _ => .isTrue trivial
  | .request i l => inferInstanceAs (Decidable (∀ x ∈ s.running i, IsWrite l.1 → Fresh x))

/-- One CR applies the role; the other's `Apply` and `Delete` leave it alone, and
its `Apply` gets through once the first CR has deleted the role. -/
def inTurn : List (Pool.Turn Nat CRCall) :=
  [.start 0 (applyShared "metal"), .next 0, .next 0, .next 0,
    .start 1 (applyShared "ipam"), .next 1, .start 1 (deleteShared "ipam"), .next 1,
    .start 0 (deleteShared "metal"), .next 0, .next 0,
    .start 1 (applyShared "ipam"), .next 1, .next 1]

/-- What a schedule of the two CRs leads to. -/
def playShared (ts : List (Pool.Turn Nat CRCall)) : List (Move Nat CRCall Resp) × CRPool Nat :=
  sharedPool.play (fun x => (sharedServer x).answer) ts

theorem playShared_steps {ts : List (Pool.Turn Nat CRCall)}
    (ht : ∀ t ∈ ts, t.Starts (CRCall.On 0 sharedRef)) {q : CRPool Nat → Move Nat CRCall Resp → Bool}
    (hq : sharedPool.every (fun x => (sharedServer x).answer) q ts) :
    Steps (fun s m s' => CRPool.Step 0 sharedRef s m s' ∧ q s m) sharedPool (playShared ts).1
      (playShared ts).2 :=
  Pool.play_steps (fun x => (sharedServer x).step) ht hq

theorem fresh_writes_respect_inTurn :
    isClusterScoped sharedRef.kind = true ∧
      Steps (fun s m s' => CRPool.Step 0 sharedRef s m s' ∧ Respects 0 sharedRef s m s') sharedPool
        (playShared inTurn).1 (playShared inTurn).2 := by
  have hk : isClusterScoped sharedRef.kind = true := by decide +kernel
  have hsteps := @playShared_steps inTurn (by decide +kernel) (fun s m => decide (WritesFresh s m))
    (by decide +kernel)
  exact ⟨hk, fresh_writes_respect hk (hsteps.mono fun _ _ _ h => ⟨h.1, of_decide_eq_true h.2⟩)⟩

/-- Both CRs read that the role is absent, and then one applies it. -/
def contested : List (Pool.Turn Nat CRCall) :=
  [.start 0 (applyShared "metal"), .start 1 (applyShared "ipam"), .next 0, .next 1, .next 0]

theorem carries_of_label {w : World} {id : ClusterId} {r : ObjRef} {o : String}
    (h : (w.object id r).map (·.ownedBy) = some o) : w.Carries id r o :=
  Option.map_eq_some_iff.mp h

theorem contested_running : ((playShared contested).2.running 1).isSome := by decide +kernel

/-- The `patch` of the other CR then takes the role from its owner. -/
theorem cluster_object_seized :
    isClusterScoped sharedRef.kind = true ∧ sampleOwner "metal" ≠ "" ∧
      sampleOwner "metal" ≠ sampleOwner "ipam" ∧
      Steps (CRPool.Step 0 sharedRef) sharedPool (playShared contested).1 (playShared contested).2 ∧
      (playShared contested).2.world.Carries 0 sharedRef (sampleOwner "metal") ∧
      ∃ l s', CRPool.Step 0 sharedRef (playShared contested).2 (.request 1 l) s' ∧
        ((playShared contested).2.running 1).map (·.call.owner) = some (sampleOwner "ipam") ∧
        s'.world.Carries 0 sharedRef (sampleOwner "ipam") := by
  have hsteps := @playShared_steps contested (by decide +kernel) (fun _ _ => true) (by decide +kernel)
  refine ⟨by decide +kernel, by decide +kernel, by decide +kernel, hsteps.mono fun _ _ _ h => h.1,
    carries_of_label (by decide +kernel), _, _,
    .request (Option.some_get contested_running).symm rfl ((sharedServer (applyShared "ipam")).step _ _),
    by decide +kernel, carries_of_label (by decide +kernel)⟩

end DDO.Spec
