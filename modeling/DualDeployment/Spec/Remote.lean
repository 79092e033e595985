import DualDeployment.Impl.Source

/-!
# The remotes of sources

The outside of the sources: git remotes, as each clone URL and credential
shows them, and OCI registries (`Remotes`). `Remotes.fetch` runs a program of
the sources against remotes that do not change; it goes through the program
step by step (`fetch_bind`). What a source is a render of is its content: the
commit that the remotes give it, or the chart with the dependencies that are
fetched for it (`Remotes.content`).
-/

namespace DDO.Impl

/-- The inputs that go into the key as a hash. -/
def InnerSource.inputs (L : Libs) : InnerSource → JsonMap
  | .helm spec _ => helmInputs L spec
  | .kustomize spec _ => kustomizeInputs L spec

/-- The caching source that `source.From` makes of a source. -/
def InnerSource.wrap (L : Libs) : InnerSource → CachingSource
  | .helm spec loader => wrapHelm L spec loader
  | .kustomize spec resolver => wrapKustomize L spec resolver

/-- The scope of a source. -/
def InnerSource.scope (L : Libs) : InnerSource → Except Err String
  | .helm spec _ => HelmLoader.repoScope L.net spec.repo
  | .kustomize spec _ => GitResolver.repoScope L.net spec.url

end DDO.Impl

namespace DDO.Spec

open Impl Prog

/-- The name that a peeled entry `name^{}` of a list of references is for. -/
def peeledName (s : String) : Option String :=
  if "^\x7b\x7d".toList.isSuffixOf s.toList then
    some (String.ofList (s.toList.take (s.toList.length - 3)))
  else none

/-- A git repository, as it shows itself: the advertised references, those that
peel annotated tags included, and the commits and other objects that can be reached
from them. -/
structure GitRemote where
  refs : List (String × CommitHash)
  commits : List CommitHash
  objects : List (CommitHash × GitObject)
  peeled : ∀ p ∈ refs, ∀ name ∈ peeledName p.1,
    "refs/tags/".toList.isPrefixOf name.toList = true ∧ (byName refs name).isSome = true

namespace GitRemote

variable (g : GitRemote)

/-- The commit that a clone of a reference checks out; a peeled entry is no
reference that can be cloned. -/
def cloned (rn : String) : Option CommitHash :=
  if (peeledName rn).isSome then none
  else (byName g.refs rn).map fun hash => (byName g.refs (rn ++ "^\x7b\x7d")).getD hash

/-- The branches, and what they and the tags lead to. -/
def repo : GitRepo where
  heads := g.refs.filterMap fun p =>
    if "refs/heads/".toList.isPrefixOf p.1.toList then
      some (String.ofList (p.1.toList.drop 11), p.2)
    else none
  commits := g.commits
  objects := g.objects

/-- The commit that a ref stands for: for a hash, what is checked out for it, and else
the one of the tag or, if there is none, of the branch. -/
def designated (ref : String) : Option CommitHash :=
  if isSHA ref then (g.repo.checkout (.new ref)).toOption
  else (g.cloned ("refs/tags/" ++ ref)).or (g.cloned ("refs/heads/" ++ ref))

theorem peeledName_append (name : String) : peeledName (name ++ "^\x7b\x7d") = some name := by
  simp [peeledName, List.isSuffixOf_iff_suffix]

theorem peeledName_isSome (s : String) :
    (peeledName s).isSome = true ↔ "^\x7b\x7d".toList <:+ s.toList := by
  rw [peeledName, ← List.isSuffixOf_iff_suffix]
  split_ifs with h
  · exact iff_of_true rfl h
  · exact iff_of_false Bool.false_ne_true h

/-- The mark of a peeled entry is at the end of the ref, not before it. -/
theorem peeledName_qualified (pre ref : String) (hpre : '^' ∉ pre.toList) :
    (peeledName (pre ++ ref)).isSome = (peeledName ref).isSome := by
  rw [Bool.eq_iff_iff, peeledName_isSome, peeledName_isSome, String.toList_append]
  constructor
  · intro h
    rcases List.suffix_or_suffix_of_suffix h (List.suffix_append pre.toList ref.toList) with h' | ⟨x, hx⟩
    · exact h'
    · obtain ⟨y, hy⟩ := h
      rw [← hx, ← List.append_assoc] at hy
      -- the rest of the mark would be at the end of `pre`
      have hpre' : y ++ x = pre.toList := List.append_cancel_right hy
      cases x with
      | nil =>
        rw [← hx]
        exact List.suffix_rfl
      | cons c x =>
        have hc : c = '^' := (List.cons.inj hx).1
        exact absurd (by rw [← hpre', hc]; simp) hpre
  · exact fun h => h.trans (List.suffix_append _ _)

variable {g}

theorem peeled_listed {name : String} {hash : CommitHash}
    (h : byName g.refs (name ++ "^\x7b\x7d") = some hash) :
    "refs/tags/".toList.isPrefixOf name.toList = true ∧ (byName g.refs name).isSome = true := by
  obtain ⟨l₁, l₂, hl, -⟩ := List.lookup_eq_some_iff.mp h
  have hm : (name ++ "^\x7b\x7d", hash) ∈ g.refs := by
    rw [← List.mem_reverse, hl]
    simp
  exact g.peeled _ hm name (peeledName_append name)

/-- The id that is looked up for a ref is the commit that a clone of it checks
out, unless the ref is that of a peeled entry. -/
theorem candidate_eq {ref : String} (hs : isSHA ref = false) (hp : (peeledName ref).isSome = false) :
    GitResolver.candidate g.refs ref = g.designated ref := by
  have htag := (peeledName_qualified "refs/tags/" ref (by decide)).trans hp
  have hbranch := (peeledName_qualified "refs/heads/" ref (by decide)).trans hp
  have hhead : byName g.refs ("refs/heads/" ++ ref ++ "^\x7b\x7d") = none := by
    cases hp : byName g.refs ("refs/heads/" ++ ref ++ "^\x7b\x7d") with
    | none => rfl
    | some hash =>
      have ht := (peeled_listed hp).1
      simp [List.isPrefixOf] at ht
  have hheads : g.cloned ("refs/heads/" ++ ref) = byName g.refs ("refs/heads/" ++ ref) := by
    rw [cloned, hbranch, if_neg Bool.false_ne_true, hhead]
    simp
  rw [designated, hs, if_neg Bool.false_ne_true, hheads, cloned, htag, if_neg Bool.false_ne_true,
    GitResolver.candidate]
  cases hp : byName g.refs ("refs/tags/" ++ ref ++ "^\x7b\x7d") with
  | some hash =>
    obtain ⟨h, ht⟩ := Option.isSome_iff_exists.mp (peeled_listed hp).2
    simp [hp, ht]
  | none => cases ht : byName g.refs ("refs/tags/" ++ ref) <;> simp [hp, ht]

end GitRemote

/-- What each request to the outside is answered. A chart is pulled at the
digest that its reference has. -/
structure Remotes where
  secrets : NamespacedName → Except Err Secret
  git : String → Option BasicAuth → Except Err GitRemote
  registry : String → Creds → Except Err Digest

namespace Remotes

variable (R : Remotes)

/-- The answers; the cache is empty and keeps nothing. -/
def answer : (e : Fetch) → FetchAnswer e
  | .getSecret key => R.secrets key
  | .listRefs url auth => (R.git url auth).map (·.refs)
  | .clone url auth rn =>
    match R.git url auth with
    | .error e => .error e
    | .ok g =>
      match g.cloned rn with
      | some commit => .ok commit
      | none => .error (.text "reference not found")
  | .fetchRefs url auth => (R.git url auth).map (·.repo)
  | .resolve ref creds => R.registry ref creds
  | .pull ref version creds => R.registry (String.ofList (ref.toList.drop 6) ++ ":" ++ version) creds
  | .pullDependency ref version creds =>
    R.registry (String.ofList (ref.toList.drop 6) ++ ":" ++ version) creds
  | .cacheGet _ => none
  | .cachePut _ _ => ()

/-- What a program computes while the remotes do not change. -/
def fetch {α : Type} (p : Fetching α) : α := (p.exec (fun _ e => (R.answer e, ())) ()).2.1

@[simp] theorem fetch_request (e : Fetch) : R.fetch (request e) = R.answer e := rfl

@[simp] theorem fetch_bind {α β : Type} (p : Fetching α) (f : α → Fetching β) :
    R.fetch (p >>= f) = R.fetch (f (R.fetch p)) :=
  congrArg (·.2.1) (exec_bind (fun _ e => (R.answer e, ())) p f ())

theorem fetch_eq {α : Type} {p : Fetching α} {t : List (Event FetchAnswer)} {a : α}
    (h : Trace p t a) (ht : ∀ l ∈ t, l.2 = R.answer l.1) : R.fetch p = a := by
  induction h with
  | ret a => rfl
  | @call e k r t a _ ih =>
    have hr : r = R.answer e := ht _ List.mem_cons_self
    rw [← ih fun l hl => ht l (List.mem_cons_of_mem _ hl), hr]
    rfl

/-! ## Content -/

/-- The credentials a source is given. -/
def creds (c : Option SourceCredentials) : Except Err Creds := R.fetch (credFor c)

/-- The auth method of a resolver. -/
def auth (resolver : GitResolver) : Except Err (Option BasicAuth) :=
  (R.creds resolver.resolve).map fun c => if c.ok then some ⟨c.user, c.pass⟩ else none

/-- The commit that the remote shows this resolver for a URL. -/
def commit (net : NetURL) (url : String) (resolver : GitResolver) : Option CommitHash :=
  match splitRef net url, R.auth resolver with
  | .ok (base, _, ref), .ok auth => (R.git base auth).toOption.bind (·.designated ref)
  | _, _ => none

/-- What the registries show for these dependencies; one that lies in the chart has
to be in order. -/
def dependencies (chart : ExpandedChart) (c : Creds) : List LockedDependency → Option (List Digest)
  | [] => some []
  | d :: deps =>
    if isOCI d.repository then
      match R.answer (.pullDependency (d.repository ++ "/" ++ d.name) d.version c),
        dependencies chart c deps with
      | .ok digest, some digests => some (digest :: digests)
      | _, _ => none
    else if (chart.localError d).isSome then none
    else dependencies chart c deps

/-- The chart with this digest, with its dependencies as the registries show them. -/
def completed (charts : Charts) (c : Creds) (digest : Digest) : Option LoadedChart :=
  match charts digest with
  | .error _ => none
  | .ok chart =>
    match chart.dir.resolveDepsPlan, chart.locked with
    | .ok false, _ => some ⟨digest, []⟩
    | .ok true, .ok deps => (R.dependencies chart c deps).map (⟨digest, ·⟩)
    | _, _ => none

/-- The chart that the registry shows this loader. -/
def chartDigest (net : NetURL) (spec : HelmSource) (loader : HelmLoader) : Option (Creds × Digest) :=
  match rejectURLCredentials net spec.repo, isOCI spec.repo, R.creds loader.resolve with
  | none, true, .ok c =>
    (R.registry (ociBase spec.repo ++ "/" ++ spec.name ++ ":" ++ spec.version) c).toOption.map (c, ·)
  | _, _, _ => none

/-- The chart that this loader loads. -/
def chart (L : Libs) (spec : HelmSource) (loader : HelmLoader) : Option LoadedChart :=
  (R.chartDigest L.net spec loader).bind fun p => R.completed L.charts p.1 p.2

end Remotes

/-- A chart or a commit. -/
inductive Content where
  | chart (chart : LoadedChart)
  | commit (hash : CommitHash)
  deriving DecidableEq

/-- The id of a content. -/
def Content.id : Content → String
  | .chart c => c.digest.text
  | .commit hash => hash.text

/-- The render of a content as this source. -/
def renderContent (L : Libs) (E : Engines) (mode : Mode) (ns : String) :
    InnerSource → Content → Except Err (List Manifest)
  | .helm spec _, .chart chart =>
    match E.loadFails chart with
    | some e => .error e
    | none => renderChart L E spec mode ns chart
  | .kustomize spec _, .commit hash =>
    renderRoot E mode ns ⟨hash, rootSubPathOf L.net spec.url, spec.subPath mode⟩
  | _, _ => .error (.text "")

end DDO.Spec
