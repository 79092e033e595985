import DualDeployment.Proof.Passes
import DualDeployment.Proof.TeardownTraces
import DualDeployment.Spec.Server
import Mathlib.Data.List.Forall2

/-!
# Access to the shoot

The operator reaches the shoot with a client that it makes of a Secret next to
the CR. No request goes to the shoot before that client is made
(`shoot_requests_authorised`), and the token and the CA go nowhere else: other
ones in their place change nothing but the client (`credentials_confined`).
-/

namespace DDO.Prog

variable {E F : Type} {R : E → Type} {S : F → Type} {α : Type} {h : (e : E) → Prog F S (R e)}

/-- If every run of a handler can be replayed with related events and the same
answer, so can every expansion. -/
theorem Expand.replay {ρ : Event S → Event S → Prop}
    (hh : ∀ e u r, Trace (h e) u r → ∃ u', Trace (h e) u' r ∧ List.Forall₂ ρ u u')
    {t : List (Event R)} {us : List (Event S)} (hx : Expand h t us) :
    ∃ us', Expand h t us' ∧ List.Forall₂ ρ us us' := by
  induction hx with
  | nil => exact ⟨[], .nil, .nil⟩
  | cons hu _ ih =>
    obtain ⟨u', hu', hrel⟩ := hh _ _ _ hu
    obtain ⟨us', hx', hrel'⟩ := ih
    exact ⟨u' ++ us', .cons hu' hx', List.rel_append hrel hrel'⟩

end DDO.Prog

namespace DDO.Impl

open Prog

/-! ## Targets -/

/-- The cluster whose objects a request is about. -/
def Req.target : Req → Option Cluster
  | .get c _ _ _ => some c
  | .patch c _ => some c
  | .delete c _ => some c
  | _ => none

/-- The cluster of a call of an applier. -/
def Call.target : Call → Option Cluster
  | .apply c _ _ => some c
  | .get c _ => some c
  | .delete c _ _ => some c
  | _ => none

theorem patchAndRead_asks (c : Cluster) (u : Unstructured) :
    Asks (fun e => e.target = some c) (SSAApplier.patchAndRead c u) := by
  refine asks_seq (asks_request rfl) fun x => ?_
  cases x with
  | error e => exact asks_pure _
  | ok v =>
    refine asks_seq (asks_request rfl) fun y => ?_
    cases y <;> exact asks_pure _

theorem apply_asks (c : Cluster) (m : Manifest) (ownedBy : String) :
    Asks (fun e => e.target = some c) (SSAApplier.apply c m ownedBy) := by
  rw [SSAApplier.apply]
  dsimp only
  split_ifs
  · refine asks_seq ?_ fun x => ?_
    · refine asks_seq (asks_request rfl) fun y => ?_
      cases y <;> exact asks_pure _
    · rcases x with e | ⟨owner, _ | _⟩
      · exact asks_pure _
      · exact patchAndRead_asks c _
      · exact asks_pure _
  · exact patchAndRead_asks c _

theorem delete_asks (c : Cluster) (m : Manifest) (ownedBy : String) :
    Asks (fun e => e.target = some c) (SSAApplier.delete c m ownedBy) := by
  refine asks_seq (asks_request rfl) fun x => ?_
  cases x with
  | error e => exact asks_pure _
  | ok live =>
    dsimp only
    split_ifs
    · exact asks_pure _
    · refine asks_seq (asks_request rfl) fun y => ?_
      cases y <;> exact asks_pure _

theorem buildShootApplier_asks (cr : DualDeploymentOperator) :
    Asks (fun e => e.target = none) (buildShootApplier cr) := by
  refine asks_seq (asks_request rfl) fun x => ?_
  cases x with
  | error e => exact asks_pure _
  | ok secret =>
    dsimp only
    split
    · exact asks_pure _
    · refine asks_seq (asks_request rfl) fun y => ?_
      cases y <;> exact asks_pure _

/-- The requests of a call go to its cluster. -/
theorem ssa_target {e : Call} {u : List (Event Resp)} {a : Answer e} (h : Trace (ssa e) u a)
    {l : Event Resp} (hl : l ∈ u) : l.1.target = e.target := by
  cases e with
  | op o => exact asks_request (Q := fun e => e.target = none) rfl _ _ h l hl
  | buildShoot cr => exact buildShootApplier_asks cr _ _ h l hl
  | apply c m ownedBy => exact apply_asks c m ownedBy _ _ h l hl
  | get c m => exact asks_request (Q := fun e => e.target = some c) rfl _ _ h l hl
  | delete c m ownedBy => exact delete_asks c m ownedBy _ _ h l hl

end DDO.Impl

namespace DDO.Spec

open Impl Prog

/-! ## The credentials -/

/-- The requests of two runs that differ in the Secrets that were read, by `f`, and in
the clients made of them. -/
inductive Redacted (f : Secret → Secret) : Event Resp → Event Resp → Prop where
  | secret (k : NamespacedName) (s : Secret) :
      Redacted f ⟨.getSecret k, .ok s⟩ ⟨.getSecret k, .ok (f s)⟩
  | client {s : Secret} {tokenKey caKey server : String} {cfg cfg' : RESTConfig} (e : Option Err) :
      shootRESTConfig s tokenKey caKey server = some cfg →
      shootRESTConfig (f s) tokenKey caKey server = some cfg' →
      Redacted f ⟨.newClient cfg, e⟩ ⟨.newClient cfg', e⟩
  | other (l : Event Resp) : (∀ k s, l ≠ ⟨.getSecret k, .ok s⟩) → (∀ cfg, l.1 ≠ .newClient cfg) →
      Redacted f l l

section

variable {f : Secret → Secret}

/-- Requests that neither read a Secret nor make a client are not redacted. -/
theorem redacted_refl {u : List (Event Resp)} (hs : ∀ l ∈ u, ∀ k, l.1 ≠ .getSecret k)
    (hc : ∀ l ∈ u, ∀ cfg, l.1 ≠ .newClient cfg) : List.Forall₂ (Redacted f) u u :=
  List.forall₂_same.mpr fun l hl => .other l (fun k _ he => hs l hl k (he ▸ rfl)) (hc l hl)

theorem buildShootApplier_replay
    (hf : ∀ s tokenKey caKey server, (shootRESTConfig (f s) tokenKey caKey server).isSome =
      (shootRESTConfig s tokenKey caKey server).isSome)
    {cr : DualDeploymentOperator} {u : List (Event Resp)} {a : Except ShootErr Unit}
    (h : Trace (buildShootApplier cr) u a) :
    ∃ u', Trace (buildShootApplier cr) u' a ∧ List.Forall₂ (Redacted f) u u' := by
  obtain ⟨x, u₁, rfl, h₁⟩ := trace_request_seq.mp h
  cases x with
  | error e =>
    obtain ⟨rfl, rfl⟩ := trace_pure.mp h₁
    exact ⟨_, h, .cons (.other _ (fun _ _ he => by cases he) fun _ he => by cases he) .nil⟩
  | ok s =>
    have hsome := hf s cr.spec.shootAccess.tokenKey cr.spec.shootAccess.caKey cr.spec.shootAccess.server
    simp only at h₁
    cases hcfg : shootRESTConfig s cr.spec.shootAccess.tokenKey cr.spec.shootAccess.caKey
        cr.spec.shootAccess.server with
    | none =>
      rw [hcfg] at h₁ hsome
      obtain ⟨rfl, rfl⟩ := trace_pure.mp h₁
      refine ⟨[⟨.getSecret ⟨cr.ns, cr.spec.shootAccess.secretName⟩, .ok (f s)⟩],
        trace_request_seq.mpr ⟨_, [], rfl, ?_⟩, .cons (.secret _ s) .nil⟩
      simp only [Option.not_isSome_iff_eq_none.mp (by simp [hsome] :
        ¬(shootRESTConfig (f s) cr.spec.shootAccess.tokenKey cr.spec.shootAccess.caKey
          cr.spec.shootAccess.server).isSome = true)]
      exact trace_pure.mpr ⟨rfl, rfl⟩
    | some cfg =>
      rw [hcfg] at h₁ hsome
      obtain ⟨cfg', hcfg'⟩ := Option.isSome_iff_exists.mp hsome
      obtain ⟨e, u₂, rfl, h₂⟩ := trace_request_seq.mp h₁
      refine ⟨[⟨.getSecret ⟨cr.ns, cr.spec.shootAccess.secretName⟩, .ok (f s)⟩, ⟨.newClient cfg', e⟩],
        trace_request_seq.mpr ⟨_, _, rfl, ?_⟩, ?_⟩
      · simp only [hcfg']
        refine trace_request_seq.mpr ⟨e, [], rfl, ?_⟩
        cases e <;> exact trace_pure.mpr ⟨rfl, (trace_pure.mp h₂).2⟩
      · obtain rfl : u₂ = [] := by
          cases e <;> exact (trace_pure.mp h₂).1
        exact .cons (.secret _ s) (.cons (.client e hcfg hcfg') .nil)

theorem ssa_replay
    (hf : ∀ s tokenKey caKey server, (shootRESTConfig (f s) tokenKey caKey server).isSome =
      (shootRESTConfig s tokenKey caKey server).isSome)
    (e : Call) (u : List (Event Resp)) (a : Answer e) (h : Trace (ssa e) u a) :
    ∃ u', Trace (ssa e) u' a ∧ List.Forall₂ (Redacted f) u u' := by
  by_cases hb : ∃ cr, e = .buildShoot cr
  · obtain ⟨cr, rfl⟩ := hb
    exact buildShootApplier_replay hf h
  · have hno : ∀ l ∈ u, (∃ o, l.1 = .op o) ∨ ∃ c, l.1.target = some c := fun l hl => by
      have ht := ssa_target h hl
      cases e with
      | op o => exact Or.inl ⟨o, congrArg Sigma.fst (List.mem_singleton.mp (trace_request.mp h ▸ hl))⟩
      | buildShoot cr => exact absurd ⟨cr, rfl⟩ hb
      | apply c m o => exact Or.inr ⟨c, ht⟩
      | get c m => exact Or.inr ⟨c, ht⟩
      | delete c m o => exact Or.inr ⟨c, ht⟩
    refine ⟨u, h, redacted_refl (fun l hl k hk => ?_) (fun l hl cfg hk => ?_)⟩
    · rcases hno l hl with ⟨o, ho⟩ | ⟨c, hc⟩
      · cases hk.symm.trans ho
      · rw [hk] at hc
        cases hc
    · rcases hno l hl with ⟨o, ho⟩ | ⟨c, hc⟩
      · cases hk.symm.trans ho
      · rw [hk] at hc
        cases hc

end

/-- The token and the CA of the shoot go into the client and nowhere else: if the
Secrets that a pass reads held other ones, with something wherever there was
something, the pass could make the same requests, get the same answers and return
the same, but for the client's credentials. So neither a status, an event, an
object nor an error that it returns tells them. -/
theorem credentials_confined {r : Reconciler} {key : NamespacedName} {f : Secret → Secret}
    {u : List (Event Resp)} {x : Outcome} (h : Trace (Operator.reconcile r key) u x)
    (hf : ∀ s tokenKey caKey server, (shootRESTConfig (f s) tokenKey caKey server).isSome =
      (shootRESTConfig s tokenKey caKey server).isSome) :
    ∃ u', Trace (Operator.reconcile r key) u' x ∧ List.Forall₂ (Redacted f) u u' := by
  obtain ⟨t, ht, hx⟩ := trace_interp.mp h
  obtain ⟨u', hx', hrel⟩ := hx.replay (ssa_replay hf)
  exact ⟨u', trace_interp.mpr ⟨t, ht, hx'⟩, hrel⟩

/-- A Secret with other values. -/
def maskSecret (s : Secret) : Secret := ⟨s.data.map fun p => (p.1, if p.2 = "" then "" else "masked")⟩

theorem lookupString_mask (data : List (String × String)) (k : String) :
    lookupString (data.map fun p => (p.1, if p.2 = "" then "" else "masked")) k =
      if lookupString data k = "" then "" else "masked" := by
  induction data with
  | nil => simp [lookupString]
  | cons p data ih =>
    obtain ⟨k', v⟩ := p
    rw [lookupString, lookupString, List.map_cons, List.lookup_cons, List.lookup_cons]
    cases k == k' with
    | true => rfl
    | false => exact ih

theorem maskSecret_ready (s : Secret) (tokenKey caKey server : String) :
    (shootRESTConfig (maskSecret s) tokenKey caKey server).isSome =
      (shootRESTConfig s tokenKey caKey server).isSome := by
  simp only [shootRESTConfig, maskSecret, lookupString_mask]
  split_ifs <;> simp_all

/-- The requests of the first delivery of a ConfigMap and a ServiceAccount. -/
def deliveryRequests : List (Event Resp) × Outcome × World :=
  (Operator.reconcile sampleReconciler sampleKey).exec
    (sampleServer [bare "v1" "ConfigMap" "garden" "config"]
      [bare "v1" "ServiceAccount" "kube-system" "sa"]).answer
    (sampleWorld (sampleCR .unset .retain) (sampleCR_key .unset .retain))

def clientToken : Req → Option String
  | .newClient cfg => some cfg.bearerToken
  | _ => none

/-- They make a client with the token, and another token would do. -/
theorem credentials_confined_masked :
    (∃ l ∈ deliveryRequests.1, clientToken l.1 = some "t") ∧
      ∃ u', Trace (Operator.reconcile sampleReconciler sampleKey) u' deliveryRequests.2.1 ∧
        List.Forall₂ (Redacted maskSecret) deliveryRequests.1 u' :=
  ⟨by decide +kernel, credentials_confined (exec_trace _ _ _) maskSecret_ready⟩

/-! ## The client -/

section

variable {r : Reconciler} {key : NamespacedName} {cr : DualDeploymentOperator}
  {t t₁ t₂ : List CallEvent} {x : Outcome} {l : CallEvent}

theorem mem_before {L : Type} {t u v s : List L} {l b : L} (h : t ++ u = v ++ l :: s) (hl : l ∉ t)
    (hb : b ∈ t) : b ∈ v := by
  obtain ⟨t', rfl⟩ := append_of_not_mem h hl
  exact List.mem_append_left _ hb

/-- The requests of a build that succeeds. -/
theorem buildShootApplier_ok {u : List (Event Resp)} (h : Trace (buildShootApplier cr) u (.ok ())) :
    ∃ s cfg, ⟨.getSecret ⟨cr.ns, cr.spec.shootAccess.secretName⟩, .ok s⟩ ∈ u ∧ ⟨.newClient cfg, none⟩ ∈ u ∧
      shootRESTConfig s cr.spec.shootAccess.tokenKey cr.spec.shootAccess.caKey
        cr.spec.shootAccess.server = some cfg := by
  obtain ⟨y, u₁, rfl, h₁⟩ := trace_request_seq.mp h
  cases y with
  | error e => cases (trace_pure.mp h₁).2
  | ok s =>
    simp only at h₁
    split at h₁
    · cases (trace_pure.mp h₁).2
    · rename_i cfg hcfg
      obtain ⟨e, u₂, rfl, h₂⟩ := trace_request_seq.mp h₁
      cases e with
      | some e => cases (trace_pure.mp h₂).2
      | none => exact ⟨s, cfg, by simp, by simp, hcfg⟩

theorem isRendering_target {e : Call} (h : IsRendering e) : e.target = none := by
  obtain ⟨o, rfl⟩ := h.op
  rfl

/-- A delivery calls the shoot after it has built its applier. -/
theorem delivers_built {ms : Cluster → List Manifest} {d : Delivery}
    (h : Delivers r cr ms d (t₁ ++ l :: t₂)) (hl : l.1.target = some .shoot) :
    ⟨.buildShoot cr, .ok ()⟩ ∈ t₁ := by
  have hrun : d.run .shoot ≠ none := by
    intro hnone
    rcases h.mem (List.mem_append_right _ List.mem_cons_self) with ⟨k, rfl⟩ | hr | hev
    · cases hl
    · cases hl.symm.trans (isRendering_target hr)
    · cases Delivery.makes_of_mem hev with
      | build => cases hl
      | write => cases hl
      | apply hr _ | get hr _ | delete hr _ =>
        cases Option.some.inj hl
        cases hnone.symm.trans hr
  have hok : d.build = .ok () := by
    cases hb : d.build with
    | ok _ => rfl
    | error e => exact absurd (h.delivery.shoot.mpr ⟨e, hb⟩) hrun
  obtain ⟨k, tp, seed, shoot, he, hp, rfl⟩ := h.trace
  rw [Delivery.events, hok] at he
  obtain ⟨rest, hrest⟩ : ∃ rest, (⟨.op (.getCR k), .ok cr⟩ :: (tp ++ [⟨.buildShoot cr, .ok ()⟩])) ++ rest =
      t₁ ++ l :: t₂ := ⟨_, by rw [he, List.cons_append, List.append_assoc]; rfl⟩
  refine mem_before hrest (fun hmem => ?_) (by simp)
  rcases List.mem_cons.mp hmem with rfl | hmem
  · cases hl
  rcases List.mem_append.mp hmem with hmem | hmem
  · cases hl.symm.trans (isRendering_target (pipeline_mem hp hmem))
  · rw [List.mem_singleton.mp hmem] at hl
    cases hl

/-- So does a teardown. -/
theorem reconcileDelete_built (h : Trace (reconcileDelete r cr) (t₁ ++ l :: t₂) x)
    (hl : l.1.target = some .shoot) : ⟨.buildShoot (markDeleting cr), .ok ()⟩ ∈ t₁ := by
  obtain ⟨e, t', he, h'⟩ := reconcileDelete_trace h
  have hmem : l ∈ t' := by
    have hmem : l ∈ t₁ ++ l :: t₂ := List.mem_append_right _ List.mem_cons_self
    rw [he] at hmem
    refine (List.mem_cons.mp hmem).resolve_left fun h => ?_
    rw [h] at hl
    cases hl
  rcases h' with h' | ⟨rfl, -⟩
  · obtain ⟨d, tb, te, hof, hb, hend, rfl⟩ := teardown_trace h'
    have hbuild : d.build = some (.ok ()) := by
      by_contra hne
      rcases List.mem_append.mp hmem with hmem | hmem
      · rcases hb.mem hmem with ⟨_, -, rfl⟩ | ⟨_, rfl⟩ <;> cases hl
      rcases List.mem_append.mp hmem with hmem | hmem
      · obtain ⟨c, p, hp, rfl⟩ := TeardownRun.mem_deletes.mp hmem
        cases Option.some.inj hl
        rw [hof.noShoot hne] at hp
        cases hp
      · obtain ⟨o, ho⟩ := hend.mem hmem
        rw [ho] at hl
        cases hl
    rw [hbuild] at hb
    obtain ⟨evs, rfl, -⟩ := hb
    refine mem_before (t := [⟨.op (.updateStatus (markDeleting cr)), e⟩, ⟨.buildShoot (markDeleting cr), .ok ()⟩])
      he.symm (fun hmem => ?_) (by simp)
    rcases List.mem_cons.mp hmem with rfl | hmem
    · cases hl
    · rw [List.mem_singleton.mp hmem] at hl
      cases hl
  · cases hmem

/-- The shoot is called after the CR was read and its applier built. -/
theorem reconcile_built (h : Trace (reconcile r key) (t₁ ++ l :: t₂) x) (hl : l.1.target = some .shoot) :
    ∃ cr cr', ⟨.op (.getCR key), .ok cr⟩ ∈ t₁ ∧ ⟨.buildShoot cr', .ok ()⟩ ∈ t₁ ∧ cr'.ns = cr.ns ∧
      cr'.spec = cr.spec := by
  cases t₁ with
  | nil =>
    obtain ⟨a, t', he, -⟩ := trace_request_seq.mp h
    cases he
    cases hl
  | cons l₁ t₁ =>
    have hmem : l ∈ l₁ :: t₁ ++ l :: t₂ := List.mem_append_right _ List.mem_cons_self
    have hop : ∀ o, l.1 ≠ .op o := fun o ho => by
      rw [ho] at hl
      cases hl
    rcases reconcile_trace h with ⟨e, he⟩ | ⟨cr, t', he, ⟨-, hdel⟩ | ⟨hd, -⟩⟩
    · cases t₁ <;> cases he
    · cases he
      exact ⟨cr, _, List.mem_cons_self, List.mem_cons_of_mem _ (reconcileDelete_built hdel hl), rfl, rfl⟩
    · cases he
      obtain ⟨-, ms, d, hdel⟩ := reconcile_calls h hd hmem hop
      exact ⟨cr, cr, List.mem_cons_self, delivers_built hdel hl, rfl, rfl⟩

end

/-- The shoot is reached only with the access that the CR grants: before any request
to it, in a delivery or a teardown, the CR was read, the Secret that it names was
read from its own namespace with a token and a CA in it, and a client was made of
them for the server that the CR names. -/
theorem shoot_requests_authorised {r : Reconciler} {key : NamespacedName} {u₁ u₂ : List (Event Resp)}
    {l : Event Resp} {x : Outcome} (h : Trace (Operator.reconcile r key) (u₁ ++ l :: u₂) x)
    (hl : l.1.target = some .shoot) :
    ∃ cr s cfg, ⟨.op (.getCR key), .ok cr⟩ ∈ u₁ ∧
      ⟨.getSecret ⟨cr.ns, cr.spec.shootAccess.secretName⟩, .ok s⟩ ∈ u₁ ∧ ⟨.newClient cfg, none⟩ ∈ u₁ ∧
      shootRESTConfig s cr.spec.shootAccess.tokenKey cr.spec.shootAccess.caKey
        cr.spec.shootAccess.server = some cfg := by
  obtain ⟨t, ht, hx⟩ := trace_interp.mp h
  obtain ⟨t₁, l', t₂, v₁, p, q, v₂, rfl, hx₁, hcall, -, rfl, -⟩ := hx.split rfl
  have hshoot : l'.1.target = some .shoot :=
    (ssa_target hcall (List.mem_append_right _ List.mem_cons_self)).symm.trans hl
  obtain ⟨cr, cr', hread, hbuild, hns, hspec⟩ := reconcile_built ht hshoot
  obtain ⟨ur, hur, hsubr⟩ := hx₁.mem hread
  obtain ⟨ub, hub, hsubb⟩ := hx₁.mem hbuild
  obtain ⟨s, cfg, hs, hc, hcfg⟩ := buildShootApplier_ok hub
  rw [hns, hspec] at hs
  rw [hspec] at hcfg
  refine ⟨cr, s, cfg, List.mem_append_left _ (hsubr _ ?_), List.mem_append_left _ (hsubb _ hs),
    List.mem_append_left _ (hsubb _ hc), hcfg⟩
  rw [trace_request.mp hur]
  exact List.mem_cons_self

/-- A request to the shoot in the first delivery. -/
theorem shoot_requests_authorised_first :
    ∃ u₁ l u₂ cr s cfg, deliveryRequests.1 = u₁ ++ l :: u₂ ∧ l.1.target = some .shoot ∧
      ⟨.op (.getCR sampleKey), .ok cr⟩ ∈ u₁ ∧
      ⟨.getSecret ⟨cr.ns, cr.spec.shootAccess.secretName⟩, .ok s⟩ ∈ u₁ ∧ ⟨.newClient cfg, none⟩ ∈ u₁ := by
  have hshoot : ∃ l ∈ deliveryRequests.1, l.1.target = some .shoot := by decide +kernel
  obtain ⟨l, hl, htarget⟩ := hshoot
  obtain ⟨u₁, u₂, hu⟩ := List.append_of_mem hl
  have htrace : Trace (Operator.reconcile sampleReconciler sampleKey) deliveryRequests.1
      deliveryRequests.2.1 := exec_trace _ _ _
  rw [hu] at htrace
  obtain ⟨cr, s, cfg, hread, hsecret, hclient, -⟩ := shoot_requests_authorised htrace htarget
  exact ⟨u₁, l, u₂, cr, s, cfg, hu, htarget, hread, hsecret, hclient⟩

end DDO.Spec
