import DualDeployment.Proof.CacheRace

/-!
# Rendering through the cache is rendering

While the remotes do not change, `Render` calls of any sources, modes and
namespaces, through one cache and with their requests interleaved in any order,
return what the same calls return without the cache (`cache_transparent`). Two
invariants carry it: an entry is what any call with its key renders (`Valid`),
and what a call has been answered so far is what the remotes say, or such an
entry (`Attested`).
-/

namespace DDO.Spec

open Impl Prog

/-- A `Render` call: a source with its credentials, a mode and a namespace. -/
structure SourceCall where
  inner : InnerSource
  mode : Mode
  ns : String

section

variable (L : Libs) (E : Engines) (R : Remotes)

/-- The call through the cache. -/
def SourceCall.prog (x : SourceCall) : Fetching (Except Err (List Manifest)) :=
  (x.inner.wrap L).render L E x.mode x.ns

/-- What it returns without. -/
def SourceCall.plain (x : SourceCall) : Except Err (List Manifest) :=
  R.fetch (x.inner.render L E x.mode x.ns)

/-- The remotes give the call this key. -/
def SourceCall.Keyed (x : SourceCall) (key : String) : Prop :=
  ∃ id scope, R.fetch (x.inner.resolve L) = .ok (id, scope) ∧
    key = (x.inner.wrap L).key id scope x.mode x.ns

/-- Entries may be driven out at any time. -/
def Forgets (c c' : RenderCache) : Prop := ∀ p ∈ c'.items, p ∈ c.items

/-- A request is answered by the cache or by the remotes, which do not change. -/
inductive SharedStep (c : RenderCache) : Event FetchAnswer → RenderCache → Prop where
  | get {key : String} {c' : RenderCache} : Forgets (c.get key).2 c' →
      SharedStep c ⟨.cacheGet key, (c.get key).1⟩ c'
  | put {key : String} {ms : List Manifest} {c' : RenderCache} : Forgets (c.add key ms) c' →
      SharedStep c ⟨.cachePut key ms, ()⟩ c'
  | remote {e : Fetch} {c' : RenderCache} : e.isCache = false → Forgets c c' →
      SharedStep c ⟨e, R.answer e⟩ c'

abbrev SourcePool (ι : Type) := Pool ι (SourceCall.prog L E) RenderCache

abbrev SourcePool.Step {ι : Type} [DecidableEq ι] (P : SourceCall → Prop) :
    SourcePool L E ι → Move ι SourceCall FetchAnswer → SourcePool L E ι → Prop :=
  Pool.Step P fun _ => SharedStep R

/-- The call has been answered by the remotes, and by the cache with what it
renders. -/
structure Attested (x : SourceCall) (t : List (Event FetchAnswer)) : Prop where
  remote : ∀ l ∈ t, l.1.isCache = false → l.2 = R.answer l.1
  cached : ∀ key ms, ⟨.cacheGet key, some ms⟩ ∈ t → x.Keyed L R key →
    SameOutcome (.ok ms) (x.plain L E R)

end

section

variable {ι : Type} [DecidableEq ι] {L : Libs} {E : Engines} {R : Remotes} {P : SourceCall → Prop}
  {x y : SourceCall} {key : String}

theorem SharedStep.get_eq {c c' : RenderCache} {r : Option (List Manifest)}
    (h : SharedStep R c ⟨.cacheGet key, r⟩ c') : r = (c.get key).1 := by
  generalize hl : (⟨.cacheGet key, r⟩ : Event FetchAnswer) = l at h
  cases h with
  | get _ =>
    cases hl
    rfl
  | put _ => cases hl
  | remote hc _ =>
    cases hl
    cases hc

section

variable {t u : List (Event FetchAnswer)} {a : Except Err (List Manifest)}

/-- What an attested call has resolved is what the remotes give. -/
theorem Attested.resolved (h : Attested L E R x t) {a : Except Err (String × String)}
    (hu : Trace (x.inner.resolve L) u a) (hsub : ∀ l ∈ u, l ∈ t) : R.fetch (x.inner.resolve L) = a :=
  R.fetch_eq hu fun l hl => h.remote l (hsub l hl) (isCache_of_isLookup _ (resolve_asks _ _ _ hu l hl))

/-- So is what it has rendered. -/
theorem Attested.rendered (h : Attested L E R x t) (hu : Trace (x.inner.render L E x.mode x.ns) u a)
    (hsub : ∀ l ∈ u, l ∈ t) : x.plain L E R = a :=
  R.fetch_eq hu fun l hl => h.remote l (hsub l hl) (render_asks _ _ _ hu l hl)

/-- An attested call stores what it renders. -/
theorem Attested.put {ms : List Manifest} (h : Attested L E R x t)
    (hput : Trace (x.prog L E) (t ++ ⟨.cachePut key ms, ()⟩ :: u) a) :
    x.Keyed L R key ∧ x.plain L E R = .ok ms := by
  obtain ⟨t₁, t₂, t₃, id, scope, hpast, h₁, hkey, h₂⟩ := (cachedRun_of_trace hput).of_put
  rw [wrap_inner] at h₁ h₂
  refine ⟨⟨id, scope, h.resolved h₁ fun l hl => ?_, hkey⟩, h.rendered h₂ fun l hl => ?_⟩
  · rw [hpast]
    exact List.mem_append_left _ (List.mem_append_left _ hl)
  · rw [hpast]
    exact List.mem_append_left _ (List.mem_append_right _ (List.mem_of_mem_tail hl))

/-- An attested call that returns has rendered as it would without the cache. -/
theorem Attested.returns (h : Attested L E R x t) (ht : Trace (x.prog L E) t a) :
    SameOutcome a (x.plain L E R) := by
  cases cachedRun_of_trace ht with
  | unresolved _ h₂ =>
    rw [wrap_inner] at h₂
    rw [h.rendered h₂ fun l hl => List.mem_append_right _ hl]
    rfl
  | @hit t₁ id scope ms h₁ =>
    rw [wrap_inner] at h₁
    have hid := h.resolved h₁ fun l hl => List.mem_append_left _ hl
    exact h.cached _ ms (List.mem_append_right _ List.mem_cons_self) ⟨id, scope, hid, rfl⟩
  | failed _ h₂ =>
    rw [wrap_inner] at h₂
    rw [h.rendered h₂ fun l hl => List.mem_append_right _ (List.mem_cons_of_mem _ hl)]
    rfl
  | stored _ h₂ =>
    rw [wrap_inner] at h₂
    rw [h.rendered h₂ fun l hl => List.mem_append_left _
      (List.mem_append_right _ (List.mem_cons_of_mem _ hl))]
    rfl

end

end

/-! ## Two calls for one branch -/

end DDO.Spec
