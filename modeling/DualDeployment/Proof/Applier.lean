import DualDeployment.Impl.Operator

/-!
# What one call of the applier can do

The traces of `Apply`, `Get` and `Delete`, in closed form. `Apply` sends its
one `patch` only if it has passed the guard for cluster-scoped kinds
(`apply_trace`), and `Delete` its one `delete` only after a `get` that showed
the caller's owned-by value (`delete_trace`).
-/

namespace DDO.Impl

open Prog

/-- The `get` of an object. -/
def getOf (c : Cluster) (u : Unstructured) : Req :=
  .get c u.groupVersionKind u.getNamespace u.getName

/-- The guard of `Apply` lets the write of `u` through. -/
inductive Passed (c : Cluster) (u : Unstructured) (ownedBy : String) : List (Event Resp) → Prop where
  | namespaced : isClusterScoped u.getKind = false → Passed c u ownedBy []
  | absent {e : Err} : isClusterScoped u.getKind = true → e.isNotFound = true →
      Passed c u ownedBy [⟨getOf c u, .error e⟩]
  | owned {live : Unstructured} : isClusterScoped u.getKind = true →
      live.ownedBy = "" ∨ live.ownedBy = ownedBy → Passed c u ownedBy [⟨getOf c u, .ok live⟩]

/-- The runs of `Apply` with the object `u` to submit. -/
inductive ApplyRun (c : Cluster) (u : Unstructured) (ownedBy : String) :
    List (Event Resp) → ApplyAnswer → Prop where
  | unchecked {e : Err} {msg : String} : isClusterScoped u.getKind = true → e.isNotFound = false →
      ApplyRun c u ownedBy [⟨getOf c u, .error e⟩] ⟨entryFor u .degraded msg, some e, u⟩
  | conflict {live : Unstructured} {e : Err} {msg : String} : isClusterScoped u.getKind = true →
      live.ownedBy ≠ "" ∧ live.ownedBy ≠ ownedBy →
      ApplyRun c u ownedBy [⟨getOf c u, .ok live⟩] ⟨entryFor u .degraded msg, some e, u⟩
  | failed {pre : List (Event Resp)} {e : Err} {msg : String} : Passed c u ownedBy pre →
      ApplyRun c u ownedBy (pre ++ [⟨.patch c u, .error e⟩]) ⟨entryFor u .degraded msg, some e, u⟩
  | applied {pre : List (Event Resp)} {v : Unstructured} {read : Except Err Unstructured}
      {health : HealthState} {msg : String} : Passed c u ownedBy pre →
      ApplyRun c u ownedBy (pre ++ [⟨.patch c u, .ok v⟩, ⟨getOf c v, read⟩])
        ⟨entryFor u health msg, none, v⟩

variable {c : Cluster} {ownedBy : String} {t : List (Event Resp)}

theorem foreignOwner_trace {u : Unstructured} {x : Except Err (String × Bool)}
    (h : Trace (SSAApplier.foreignOwner c u ownedBy) t x) :
    (∃ e, t = [⟨getOf c u, .error e⟩] ∧ x = if e.isNotFound then .ok ("", false) else .error e) ∨
      ∃ live, t = [⟨getOf c u, .ok live⟩] ∧
        x = .ok (live.ownedBy, decide (live.ownedBy ≠ "" ∧ live.ownedBy ≠ ownedBy)) := by
  obtain ⟨a, t', rfl, h'⟩ := trace_request_seq.mp h
  cases a with
  | error e =>
    obtain ⟨rfl, rfl⟩ := trace_pure.mp h'
    exact Or.inl ⟨e, rfl, rfl⟩
  | ok live =>
    obtain ⟨rfl, rfl⟩ := trace_pure.mp h'
    exact Or.inr ⟨live, rfl, rfl⟩

theorem patchAndRead_trace {u : Unstructured} {pre : List (Event Resp)} {a : ApplyAnswer}
    (hp : Passed c u ownedBy pre) (h : Trace (SSAApplier.patchAndRead c u) t a) :
    ApplyRun c u ownedBy (pre ++ t) a := by
  obtain ⟨x, t₁, rfl, h₁⟩ := trace_request_seq.mp h
  cases x with
  | error e =>
    obtain ⟨rfl, rfl⟩ := trace_pure.mp h₁
    exact .failed hp
  | ok v =>
    obtain ⟨y, t₂, rfl, h₂⟩ := trace_request_seq.mp h₁
    cases y with
    | error e =>
      obtain ⟨rfl, rfl⟩ := trace_pure.mp h₂
      exact .applied hp
    | ok live =>
      obtain ⟨rfl, rfl⟩ := trace_pure.mp h₂
      exact .applied hp

theorem apply_trace {m : Manifest} {a : ApplyAnswer} (h : Trace (SSAApplier.apply c m ownedBy) t a) :
    ApplyRun c (submitted m ownedBy) ownedBy t a := by
  rw [SSAApplier.apply] at h
  split_ifs at h with hk
  · obtain ⟨t₁, t₂, x, rfl, h₁, h₂⟩ := trace_seq.mp h
    rcases foreignOwner_trace h₁ with ⟨e, rfl, rfl⟩ | ⟨live, rfl, rfl⟩
    · cases he : e.isNotFound with
      | true =>
        rw [he, if_pos rfl] at h₂
        exact patchAndRead_trace (.absent hk he) h₂
      | false =>
        rw [he, if_neg Bool.false_ne_true] at h₂
        obtain ⟨rfl, rfl⟩ := trace_pure.mp h₂
        exact .unchecked hk he
    · by_cases ho : live.ownedBy ≠ "" ∧ live.ownedBy ≠ ownedBy
      · rw [decide_eq_true ho] at h₂
        obtain ⟨rfl, rfl⟩ := trace_pure.mp h₂
        exact .conflict hk ho
      · rw [decide_eq_false ho] at h₂
        rw [not_and_or, not_not, not_not] at ho
        exact patchAndRead_trace (.owned hk ho) h₂
  · exact patchAndRead_trace (.namespaced (by simpa using hk)) h

/-- The runs of `Delete`. -/
inductive DeleteRun (c : Cluster) (u : Unstructured) (ownedBy : String) :
    List (Event Resp) → Option Err → Prop where
  | gone {e : Err} : e.isNotFound = true → DeleteRun c u ownedBy [⟨getOf c u, .error e⟩] none
  | unread {e : Err} : e.isNotFound = false →
      DeleteRun c u ownedBy [⟨getOf c u, .error e⟩] (some e)
  | foreign {live : Unstructured} : live.ownedBy ≠ ownedBy →
      DeleteRun c u ownedBy [⟨getOf c u, .ok live⟩] none
  | deleted {live : Unstructured} {a : Option Err} : live.ownedBy = ownedBy →
      (∀ e, a = some e → e.isNotFound = true) →
      DeleteRun c u ownedBy [⟨getOf c u, .ok live⟩, ⟨.delete c u, a⟩] none
  | failed {live : Unstructured} {e : Err} : live.ownedBy = ownedBy → e.isNotFound = false →
      DeleteRun c u ownedBy [⟨getOf c u, .ok live⟩, ⟨.delete c u, some e⟩] (some e)

theorem delete_trace {m : Manifest} {x : Option Err}
    (h : Trace (SSAApplier.delete c m ownedBy) t x) :
    DeleteRun c m.unstructured ownedBy t x := by
  obtain ⟨a, t₁, rfl, h₁⟩ := trace_request_seq.mp h
  cases a with
  | error e =>
    obtain ⟨rfl, rfl⟩ := trace_pure.mp h₁
    cases he : e.isNotFound with
    | true => exact .gone he
    | false => exact .unread he
  | ok live =>
    simp only at h₁
    split_ifs at h₁ with ho
    · obtain ⟨rfl, rfl⟩ := trace_pure.mp h₁
      exact .foreign ho
    · obtain ⟨b, t₂, rfl, h₂⟩ := trace_request_seq.mp h₁
      cases b with
      | none =>
        obtain ⟨rfl, rfl⟩ := trace_pure.mp h₂
        exact .deleted (not_not.mp ho) (by simp)
      | some e =>
        obtain ⟨rfl, rfl⟩ := trace_pure.mp h₂
        cases he : e.isNotFound with
        | true => exact .deleted (not_not.mp ho) (by simpa using he)
        | false => exact .failed (not_not.mp ho) he

theorem Passed.mem {u : Unstructured} (h : Passed c u ownedBy t) {l : Event Resp} (hl : l ∈ t) :
    ∃ u', l.1 = getOf c u' := by
  cases h with
  | namespaced _ => cases hl
  | absent _ _ => rw [List.mem_singleton.mp hl]; exact ⟨u, rfl⟩
  | owned _ _ => rw [List.mem_singleton.mp hl]; exact ⟨u, rfl⟩

/-- `Apply` only reads and patches the submitted object. -/
theorem ApplyRun.mem {u : Unstructured} {a : ApplyAnswer} (h : ApplyRun c u ownedBy t a)
    {l : Event Resp} (hl : l ∈ t) : l.1 = .patch c u ∨ ∃ u', l.1 = getOf c u' := by
  cases h with
  | unchecked _ _ => rw [List.mem_singleton.mp hl]; exact Or.inr ⟨u, rfl⟩
  | conflict _ _ => rw [List.mem_singleton.mp hl]; exact Or.inr ⟨u, rfl⟩
  | failed hp =>
    rcases List.mem_append.mp hl with hl | hl
    · exact Or.inr (hp.mem hl)
    · rw [List.mem_singleton.mp hl]; exact Or.inl rfl
  | @applied _ v _ _ _ hp =>
    rcases List.mem_append.mp hl with hl | hl
    · exact Or.inr (hp.mem hl)
    · rcases List.mem_cons.mp hl with rfl | hl
      · exact Or.inl rfl
      · rw [List.mem_singleton.mp hl]; exact Or.inr ⟨v, rfl⟩

/-- What stands before the `patch` of a run of `Apply` has passed the guard. -/
theorem ApplyRun.passed {u v : Unstructured} {a : ApplyAnswer} {s : List (Event Resp)} {l : Event Resp}
    (h : ApplyRun c u ownedBy (t ++ l :: s) a) (hl : l.1 = .patch c v) : Passed c u ownedBy t := by
  have hne : ∀ {u'}, l.1 ≠ getOf c u' := fun he => by cases hl.symm.trans he
  have hpre : ∀ {pre rest}, Passed c u ownedBy pre → t ++ l :: s = pre ++ rest →
      ∃ v, t = pre ++ v ∧ rest = v ++ l :: s := by
    intro pre rest hp he
    rcases List.append_eq_append_iff.mp he with ⟨v, hv, hs⟩ | hv
    · cases v with
      | nil => exact ⟨[], by simpa using hv.symm, by simpa using hs.symm⟩
      | cons l' v =>
        obtain ⟨rfl, -⟩ := List.cons.inj hs
        obtain ⟨_, hg⟩ := hp.mem (hv ▸ List.mem_append_right _ List.mem_cons_self)
        exact absurd hg hne
    · exact hv
  generalize hr : t ++ l :: s = r at h
  have hm : l ∈ r := hr ▸ List.mem_append_right _ List.mem_cons_self
  cases h with
  | unchecked _ _ =>
    rw [List.mem_singleton.mp hm] at hne
    exact absurd rfl hne
  | conflict _ _ =>
    rw [List.mem_singleton.mp hm] at hne
    exact absurd rfl hne
  | failed hp =>
    obtain ⟨v, rfl, hv⟩ := hpre hp hr
    cases v with
    | nil => rwa [List.append_nil]
    | cons _ v => simp at hv
  | applied hp =>
    obtain ⟨v, rfl, hv⟩ := hpre hp hr
    match v with
    | [] => rwa [List.append_nil]
    | [_] =>
      simp only [List.cons_append, List.nil_append, List.cons.injEq] at hv
      rw [← hv.2.1] at hne
      exact absurd rfl hne
    | _ :: _ :: v => simp at hv

/-- The entry `Apply` returns is for the submitted object. -/
theorem ApplyRun.status {u : Unstructured} {a : ApplyAnswer} (h : ApplyRun c u ownedBy t a) :
    ∃ health msg, a.status = entryFor u health msg := by
  cases h <;> exact ⟨_, _, rfl⟩

/-- `Delete` only reads and deletes the object. -/
theorem DeleteRun.mem {u : Unstructured} {x : Option Err} (h : DeleteRun c u ownedBy t x)
    {l : Event Resp} (hl : l ∈ t) : l.1 = .delete c u ∨ l.1 = getOf c u := by
  cases h with
  | gone _ => rw [List.mem_singleton.mp hl]; exact Or.inr rfl
  | unread _ => rw [List.mem_singleton.mp hl]; exact Or.inr rfl
  | foreign _ => rw [List.mem_singleton.mp hl]; exact Or.inr rfl
  | deleted _ _ =>
    rcases List.mem_cons.mp hl with rfl | hl
    · exact Or.inr rfl
    · rw [List.mem_singleton.mp hl]; exact Or.inl rfl
  | failed _ _ =>
    rcases List.mem_cons.mp hl with rfl | hl
    · exact Or.inr rfl
    · rw [List.mem_singleton.mp hl]; exact Or.inl rfl

/-- What stands before the `delete` of a run of `Delete` is a `get` that shows the
caller's value. -/
theorem DeleteRun.checked {u v : Unstructured} {x : Option Err} {s : List (Event Resp)}
    {l : Event Resp} (h : DeleteRun c u ownedBy (t ++ l :: s) x) (hl : l.1 = .delete c v) :
    ∃ live, t = [⟨getOf c u, .ok live⟩] ∧ live.ownedBy = ownedBy := by
  have hne : ∀ {u'}, l.1 ≠ getOf c u' := fun he => by cases hl.symm.trans he
  have hpair : ∀ {g d}, g.1 = getOf c u → t ++ l :: s = [g, d] → t = [g] := by
    intro g d hg he
    match t with
    | [] => exact absurd ((List.cons.inj he).1 ▸ hg) hne
    | [_] => rw [(List.cons.inj he).1]
    | _ :: _ :: t => simp at he
  generalize hr : t ++ l :: s = r at h
  have hm : l ∈ r := hr ▸ List.mem_append_right _ List.mem_cons_self
  cases h with
  | gone _ =>
    rw [List.mem_singleton.mp hm] at hne
    exact absurd rfl hne
  | unread _ =>
    rw [List.mem_singleton.mp hm] at hne
    exact absurd rfl hne
  | foreign _ =>
    rw [List.mem_singleton.mp hm] at hne
    exact absurd rfl hne
  | deleted ho _ => exact ⟨_, hpair rfl hr, ho⟩
  | failed ho _ => exact ⟨_, hpair rfl hr, ho⟩

/-- Building the shoot applier only reads the Secret and makes a client. -/
theorem buildShootApplier_mem {cr : DualDeploymentOperator} {x : Except ShootErr Unit}
    (h : Trace (buildShootApplier cr) t x) {l : Event Resp} (hl : l ∈ t) :
    (∃ k, l.1 = .getSecret k) ∨ ∃ cfg, l.1 = .newClient cfg := by
  obtain ⟨a, t₁, rfl, h₁⟩ := trace_request_seq.mp h
  rcases List.mem_cons.mp hl with rfl | hm
  · exact Or.inl ⟨_, rfl⟩
  · cases a with
    | error e =>
      obtain ⟨rfl, -⟩ := trace_pure.mp h₁
      cases hm
    | ok secret =>
      simp only at h₁
      split at h₁
      · obtain ⟨rfl, -⟩ := trace_pure.mp h₁
        cases hm
      · obtain ⟨b, t₂, rfl, h₂⟩ := trace_request_seq.mp h₁
        have ht : t₂ = [] := by
          cases b with
          | none => exact (trace_pure.mp h₂).1
          | some e => exact (trace_pure.mp h₂).1
        rw [ht] at hm
        rw [List.mem_singleton.mp hm]
        exact Or.inr ⟨_, rfl⟩

theorem get_trace {m : Manifest} {x : Except Err Unstructured}
    (h : Trace (SSAApplier.get c m) t x) : t = [⟨getOf c m.unstructured, x⟩] :=
  trace_request.mp h

/-! ## The requests of a call -/

section

variable {e : Call} {a : Answer e}

/-- Reads, which only look. -/
def IsRead : Req → Prop
  | .getSecret _ => True
  | .newClient _ => True
  | .get _ _ _ _ => True
  | _ => False

/-- What a call may ask for: itself, a `patch` if it applies, a `delete` if it
deletes, and reads. -/
theorem ssa_mem (h : Trace (ssa e) t a) {l : Event Resp} (hl : l ∈ t) :
    (∃ o, e = .op o ∧ l.1 = .op o) ∨
      (∃ c m o, e = .apply c m o ∧ l.1 = .patch c (submitted m o)) ∨
      (∃ c m o, e = .delete c m o ∧ l.1 = .delete c m.unstructured) ∨ IsRead l.1 := by
  cases e with
  | op o =>
    rw [trace_request.mp h] at hl
    rw [List.mem_singleton.mp hl]
    exact Or.inl ⟨o, rfl, rfl⟩
  | buildShoot cr =>
    rcases buildShootApplier_mem h hl with ⟨_, hk⟩ | ⟨_, hk⟩
    · exact Or.inr (Or.inr (Or.inr (by rw [hk]; trivial)))
    · exact Or.inr (Or.inr (Or.inr (by rw [hk]; trivial)))
  | apply c m o =>
    rcases (apply_trace h).mem hl with hk | ⟨_, hk⟩
    · exact Or.inr (Or.inl ⟨c, m, o, rfl, hk⟩)
    · exact Or.inr (Or.inr (Or.inr (by rw [hk]; trivial)))
  | get c m =>
    rw [get_trace h] at hl
    rw [List.mem_singleton.mp hl]
    exact Or.inr (Or.inr (Or.inr trivial))
  | delete c m o =>
    rcases (delete_trace h).mem hl with hk | hk
    · exact Or.inr (Or.inr (Or.inl ⟨c, m, o, rfl, hk⟩))
    · exact Or.inr (Or.inr (Or.inr (by rw [hk]; trivial)))

theorem ssa_mem_op (h : Trace (ssa e) t a) {l : Event Resp} (hl : l ∈ t) {o : Op}
    (ho : l.1 = .op o) : e = .op o := by
  rcases ssa_mem h hl with ⟨o', he, hk⟩ | ⟨_, _, _, -, hk⟩ | ⟨_, _, _, -, hk⟩ | hk
  · cases hk.symm.trans ho
    exact he
  · cases hk.symm.trans ho
  · cases hk.symm.trans ho
  · rw [ho] at hk
    exact hk.elim

theorem ssa_mem_patch (h : Trace (ssa e) t a) {l : Event Resp} (hl : l ∈ t) {c : Cluster}
    {u : Unstructured} (hu : l.1 = .patch c u) : ∃ m o, e = .apply c m o ∧ u = submitted m o := by
  rcases ssa_mem h hl with ⟨_, -, hk⟩ | ⟨_, m, o, he, hk⟩ | ⟨_, _, _, -, hk⟩ | hk
  · cases hk.symm.trans hu
  · cases hk.symm.trans hu
    exact ⟨m, o, he, rfl⟩
  · cases hk.symm.trans hu
  · rw [hu] at hk
    exact hk.elim

theorem ssa_mem_delete (h : Trace (ssa e) t a) {l : Event Resp} (hl : l ∈ t) {c : Cluster}
    {u : Unstructured} (hu : l.1 = .delete c u) : ∃ m o, e = .delete c m o ∧ u = m.unstructured := by
  rcases ssa_mem h hl with ⟨_, -, hk⟩ | ⟨_, _, _, -, hk⟩ | ⟨_, m, o, he, hk⟩ | hk
  · cases hk.symm.trans hu
  · cases hk.symm.trans hu
  · cases hk.symm.trans hu
    exact ⟨m, o, he, rfl⟩
  · rw [hu] at hk
    exact hk.elim

end

end DDO.Impl
