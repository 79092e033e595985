import DualDeployment.Framework.Stream
import DualDeployment.Spec.Remote

/-!
# What the cache key identifies

A key determines the kind of source, the content id, the mode, the namespace
and the hashed inputs (`key_inj`), and with the inputs everything that is
rendered of a content (`renderContent_congr`). It does not determine the
content that the remotes give a source: a ref that is a commit hash is its own
id, whatever repository and credentials it is to be fetched with, and the
dependencies of a chart that it does not vendor are fetched with the credentials
(`Unkeyed`). So two sources with one key render alike if and only if, where one of
them is so, they are given the same content (`key_identifies_render_iff`).
-/

namespace DDO.Spec

open Impl Prog

/-- The same manifests, or both fail. -/
def SameOutcome (x y : Except Err (List Manifest)) : Prop := x.toOption = y.toOption

/-! ## What a source renders -/

section

variable {R : Remotes} {L : Libs} {E : Engines} {mode : Mode} {ns : String}

theorem creds_eq (c : Option SourceCredentials) : R.fetch (credFor c) = R.creds c := rfl

theorem fetch_authFor (resolver : GitResolver) : R.fetch resolver.authFor = R.auth resolver := by
  rw [GitResolver.authFor, Remotes.fetch_bind, creds_eq, Remotes.auth]
  cases R.creds resolver.resolve <;> rfl

/-- The first of the references that can be cloned. -/
theorem fetch_cloneFirst (base : String) (auth : Option BasicAuth) (err : Err) (rns : List String) :
    (R.fetch (GitResolver.cloneFirst base auth err rns)).toOption =
      (R.git base auth).toOption.bind fun g => rns.findSome? g.cloned := by
  induction rns with
  | nil => cases R.git base auth <;> rfl
  | cons rn rns ih =>
    rw [GitResolver.cloneFirst, Remotes.fetch_bind, Remotes.fetch_request, Remotes.answer]
    cases hg : R.git base auth with
    | error e =>
      rw [hg] at ih
      exact ih
    | ok g =>
      rw [hg] at ih
      show _ = (rn :: rns).findSome? g.cloned
      rw [List.findSome?_cons]
      cases hc : g.cloned rn with
      | some commit => simp only [hc]; rfl
      | none => simp only [hc]; exact ih

/-- `fetchPinned` checks out the commit that the ref stands for. -/
theorem fetch_fetchPinned (base ref : String) (auth : Option BasicAuth) :
    (R.fetch (GitResolver.fetchPinned base ref auth)).toOption =
      (R.git base auth).toOption.bind (·.designated ref) := by
  rw [GitResolver.fetchPinned]
  split_ifs with hs
  · rw [GitResolver.fetchSHA, Remotes.fetch_bind, Remotes.fetch_request, Remotes.answer]
    cases R.git base auth with
    | error e => rfl
    | ok g =>
      show _ = g.designated ref
      rw [GitRemote.designated, if_pos hs]
      simp only [Except.map]
      cases g.repo.checkout (.new ref) <;> rfl
  · rw [fetch_cloneFirst]
    cases R.git base auth with
    | error e => rfl
    | ok g =>
      show _ = g.designated ref
      rw [GitRemote.designated, if_neg hs]
      show ["refs/tags/" ++ ref, "refs/heads/" ++ ref].findSome? g.cloned = _
      simp only [List.findSome?_cons, List.findSome?_nil]
      cases g.cloned ("refs/tags/" ++ ref) with
      | some commit => rfl
      | none => cases g.cloned ("refs/heads/" ++ ref) <;> rfl

/-- The root that a resolver gets is that of the commit it is shown. -/
theorem fetch_root (net : NetURL) (resolver : GitResolver) (url sub : String) :
    (R.fetch (resolver.root net url sub)).toOption =
      (R.commit net url resolver).map fun commit => ⟨commit, rootSubPathOf net url, sub⟩ := by
  rw [GitResolver.root, Remotes.commit, rootSubPathOf]
  cases splitRef net url with
  | error e => rfl
  | ok p =>
    obtain ⟨base, root, ref⟩ := p
    simp only [Remotes.fetch_bind, fetch_authFor]
    cases R.auth resolver with
    | error e => rfl
    | ok auth =>
      simp only [Remotes.fetch_bind, ← fetch_fetchPinned]
      cases R.fetch (GitResolver.fetchPinned base ref auth) <;> rfl

theorem isHexDigit_ne_bar {c : Char} (h : isHexDigit c = true) : c ≠ '|' := by
  rintro rfl
  revert h
  decide

/-- A ref that is a hash is its own id, and any other is looked up in the list
of references. -/
theorem resolveID_trace {resolver : GitResolver} {net : NetURL} {url id : String}
    {t : List (Event FetchAnswer)} (h : Trace (resolver.resolveID net url) t (.ok id)) :
    ∃ base root ref, splitRef net url = .ok (base, root, ref) ∧
      ((isSHA ref = true ∧ id = ref) ∨
        isSHA ref = false ∧ ∃ t₁ auth refs hash, t = t₁ ++ [⟨.listRefs base auth, .ok refs⟩] ∧
          Trace resolver.authFor t₁ (.ok auth) ∧ GitResolver.candidate refs ref = some hash ∧
          id = hash.text) := by
  rw [GitResolver.resolveID] at h
  cases hsp : splitRef net url with
  | error e =>
    rw [hsp] at h
    cases (trace_pure.mp h).2
  | ok p =>
    obtain ⟨base, root, ref⟩ := p
    refine ⟨base, root, ref, rfl, ?_⟩
    simp only [hsp] at h
    split_ifs at h with hs
    · cases (trace_pure.mp h).2
      exact Or.inl ⟨hs, rfl⟩
    · obtain ⟨t₁, t₂, auth, rfl, ha, h₂⟩ := trace_seq.mp h
      cases auth with
      | error e => cases (trace_pure.mp h₂).2
      | ok auth =>
        obtain ⟨refs, t₃, rfl, h₃⟩ := trace_request_seq.mp h₂
        cases refs with
        | error e => cases (trace_pure.mp h₃).2
        | ok refs =>
          simp only at h₃
          split at h₃
          · obtain ⟨rfl, hid⟩ := trace_pure.mp h₃
            cases hid
            exact Or.inr ⟨(Bool.not_eq_true _).mp hs, t₁, auth, refs, _, rfl, ha, ‹_›, rfl⟩
          · cases (trace_pure.mp h₃).2

/-- A root is of the commit that is fetched for the ref, at the paths of the URL and
the source. -/
theorem root_trace {resolver : GitResolver} {net : NetURL} {url sub : String}
    {t : List (Event FetchAnswer)} {k : KustomizeRoot}
    (h : Trace (resolver.root net url sub) t (.ok k)) {base root ref : String}
    (hsp : splitRef net url = .ok (base, root, ref)) :
    k.rootSubPath = root ∧ k.subPath = sub ∧ ∃ t₁ t₂ auth, t = t₁ ++ t₂ ∧
      Trace (GitResolver.fetchPinned base ref auth) t₂ (.ok k.commit) := by
  rw [GitResolver.root, hsp] at h
  obtain ⟨t₁, t₂, auth, rfl, -, h₂⟩ := trace_seq.mp h
  cases auth with
  | error e => cases (trace_pure.mp h₂).2
  | ok auth =>
    obtain ⟨t₃, t₄, commit, rfl, h₃, h₄⟩ := trace_seq.mp h₂
    cases commit with
    | error e => cases (trace_pure.mp h₄).2
    | ok commit =>
      obtain ⟨rfl, hk⟩ := trace_pure.mp h₄
      cases hk
      rw [List.append_nil]
      exact ⟨rfl, rfl, t₁, t₃, auth, rfl, h₃⟩

/-- The id of a chart is the digest that the registry answers. -/
theorem resolveID_helm_trace {loader : HelmLoader} {net : NetURL} {repo name version id : String}
    {t : List (Event FetchAnswer)} (h : Trace (loader.resolveID net repo name version) t (.ok id)) :
    ∃ t₁ c digest, t = t₁ ++ [⟨.resolve (ociBase repo ++ "/" ++ name ++ ":" ++ version) c, .ok digest⟩] ∧
      Trace (credFor loader.resolve) t₁ (.ok c) ∧ rejectURLCredentials net repo = none ∧
      isOCI repo = true ∧ id = digest.text := by
  rw [HelmLoader.resolveID] at h
  cases hr : rejectURLCredentials net repo with
  | some e =>
    rw [hr] at h
    cases (trace_pure.mp h).2
  | none =>
    simp only [hr] at h
    split_ifs at h with ho
    · obtain ⟨t₁, t₂, c, rfl, hc, h₂⟩ := trace_seq.mp h
      cases c with
      | error e => cases (trace_pure.mp h₂).2
      | ok c =>
        obtain ⟨digest, t₃, rfl, h₃⟩ := trace_request_seq.mp h₂
        cases digest with
        | error e => cases (trace_pure.mp h₃).2
        | ok digest =>
          obtain ⟨rfl, hid⟩ := trace_pure.mp h₃
          cases hid
          exact ⟨t₁, c, digest, rfl, hc, rfl, ho, rfl⟩
    · cases (trace_pure.mp h).2

/-- The id of a source, without the scope. -/
def sourceID (L : Libs) : InnerSource → Fetching (Except Err String)
  | .helm spec loader => loader.resolveID L.net spec.repo spec.name spec.version
  | .kustomize spec resolver => resolver.resolveID L.net spec.url

/-- A source that resolves has a scope, and its requests are those for the id. -/
theorem resolve_trace {i : InnerSource} {id scope : String} {t : List (Event FetchAnswer)}
    (h : Trace (i.resolve L) t (.ok (id, scope))) :
    i.scope L = .ok scope ∧ Trace (sourceID L i) t (.ok id) := by
  cases i
  all_goals
    rw [InnerSource.resolve] at h
    split at h
    · cases (trace_pure.mp h).2
    · obtain ⟨t₁, t₂, id', rfl, h₁, h₂⟩ := trace_seq.mp h
      cases id' with
      | error e => cases (trace_pure.mp h₂).2
      | ok id' =>
        obtain ⟨rfl, he⟩ := trace_pure.mp h₂
        cases he
        rw [List.append_nil]
        exact ⟨‹_›, h₁⟩

/-- An id has no bar. -/
theorem resolve_noBar {i : InnerSource} {id scope : String} {t : List (Event FetchAnswer)}
    (h : Trace (i.resolve L) t (.ok (id, scope))) : '|' ∉ id.toList := by
  cases i with
  | helm spec loader =>
    obtain ⟨_, _, digest, -, -, -, -, rfl⟩ := resolveID_helm_trace (resolve_trace h).2
    exact digest.noBar
  | kustomize spec resolver =>
    obtain ⟨base, root, ref, -, ⟨hs, rfl⟩ | ⟨-, _, _, _, hash, -, -, -, rfl⟩⟩ :=
      resolveID_trace (resolve_trace h).2
    · simp only [isSHA, Bool.decide_and, Bool.and_eq_true, decide_eq_true_eq, List.all_eq_true] at hs
      exact fun hm => isHexDigit_ne_bar (hs.2.2 _ hm) rfl
    · intro hm
      exact isHexDigit_ne_bar (hash.hex _ (by simpa [CommitHash.text] using hm)) rfl

/-! ## Keys -/

theorem Mode.text_noBar (m : Mode) : '|' ∉ m.text.toList := by
  cases m <;> decide

theorem Mode.text_inj {m m' : Mode} (h : m.text = m'.text) : m = m' := by
  cases m <;> cases m'
  · rfl
  · exact absurd h (by decide)
  · exact absurd h (by decide)
  · rfl

/-- A source of the same kind. -/
def SameKind : InnerSource → InnerSource → Prop
  | .helm _ _, .helm _ _ => True
  | .kustomize _ _, .kustomize _ _ => True
  | _, _ => False

theorem SameKind.symm {i i' : InnerSource} (h : SameKind i i') : SameKind i' i := by
  cases i <;> cases i' <;> exact h

theorem wrap_inputHash (i : InnerSource) : (i.wrap L).inputHash = hashValues L (i.inputs L) := by
  cases i <;> rfl

theorem sameKind_of_scheme {i i' : InnerSource} {s s' : String}
    (h : (i.wrap L).sourceKind ++ "|" ++ s = (i'.wrap L).sourceKind ++ "|" ++ s') : SameKind i i' := by
  have hl := congrArg (fun x => x.toList.head?) h
  cases i with
  | helm _ _ =>
    cases i' with
    | helm _ _ => trivial
    | kustomize _ _ => simp [InnerSource.wrap, wrapHelm, wrapKustomize] at hl
  | kustomize _ _ =>
    cases i' with
    | helm _ _ => simp [InnerSource.wrap, wrapHelm, wrapKustomize] at hl
    | kustomize _ _ => trivial

/-- A key determines the kind of source, the id, the mode, the hash of the inputs
and the namespace. -/
theorem key_inj (hbar : ∀ s, '|' ∉ (L.sha256Hex s).toList) {i i' : InnerSource}
    {id id' scope scope' : String} {mode mode' : Mode} {ns ns' : String} (hid : '|' ∉ id.toList)
    (hid' : '|' ∉ id'.toList) (hns : '|' ∉ ns.toList) (hns' : '|' ∉ ns'.toList)
    (h : (i.wrap L).key id scope mode ns = (i'.wrap L).key id' scope' mode' ns') :
    SameKind i i' ∧ id = id' ∧ mode = mode' ∧ ns = ns' ∧
      hashValues L (i.inputs L) = hashValues L (i'.inputs L) := by
  have hparts : ∀ {id ns : String} {mode : Mode} {v : JsonMap}, '|' ∉ id.toList → '|' ∉ ns.toList →
      ∀ z ∈ [id, mode.text, hashValues L v, ns], '|' ∉ z.toList := by
    intro id ns mode v h₁ h₂ z hz
    simp only [List.mem_cons, List.not_mem_nil, or_false] at hz
    rcases hz with rfl | rfl | rfl | rfl
    · exact h₁
    · exact Mode.text_noBar mode
    · exact hbar _
    · exact h₂
  have hjoin : ∀ (k s id m x ns : String), KeyParts.string ⟨k, s, id, m, x, ns⟩ =
      "|".intercalate [k ++ "|" ++ s, id, m, x, ns] := by
    intro k s id m x ns
    rw [← String.toList_inj]
    simp [KeyParts.string]
  rw [CachingSource.key, CachingSource.key, hjoin, hjoin, wrap_inputHash, wrap_inputHash] at h
  obtain ⟨hk, hr⟩ : (i.wrap L).sourceKind ++ "|" ++ scope = (i'.wrap L).sourceKind ++ "|" ++ scope' ∧ _ :=
    intercalate_inj_tail (by rfl) (hparts hid hns) (hparts hid' hns') h
  simp only [List.cons.injEq, and_true] at hr
  exact ⟨sameKind_of_scheme hk, hr.1, Mode.text_inj hr.2.1, hr.2.2.2, hr.2.2.1⟩

/-! ## Ids and content -/

/-- A source pinned to a commit by its hash. -/
def HashPinned (net : NetURL) : InnerSource → Prop
  | .helm _ _ => False
  | .kustomize spec _ =>
    ∃ base root ref, splitRef net spec.url = .ok (base, root, ref) ∧ isSHA ref = true

theorem Digest.text_inj {d d' : Digest} (h : d.text = d'.text) : d = d' := by
  cases d
  cases d'
  simp only at h
  subst h
  rfl

end

/-! ## What a key identifies -/

/-- `net/url`, for plain URLs. -/
def sampleNet : NetURL where
  parse raw :=
    if "https://".toList.isPrefixOf raw.toList then
      let rest := raw.toList.drop 8
      let host := rest.takeWhile (· ≠ '/')
      let path := (rest.dropWhile (· ≠ '/')).takeWhile (· ≠ '?')
      .ok { scheme := "https"
            opaquePart := ""
            user := decide ('@' ∈ host)
            host := String.ofList host
            path := String.ofList path
            rawPath := ""
            rawQuery := String.ofList ((rest.dropWhile (· ≠ '?')).drop 1)
            fragment := "" }
    else .error "missing protocol scheme"
  string u := u.scheme ++ "://" ++ u.host ++ u.path
  queryGet query key :=
    if (key ++ "=").toList.isPrefixOf query.toList then String.ofList (query.toList.drop (key.length + 1))
    else ""

/-- The text of a map of strings, and a hash that keeps the text apart from
bars. -/
def sampleLibs : Libs where
  net := sampleNet
  charts _ := .error "no such chart"
  marshal v := some (v.foldl (fun s f => s ++ f.1 ++ match f.2 with | .str x => "=" ++ x ++ "," | _ => ",") "")
  unmarshal
    | .obj m => .ok m
    | _ => .error "not an object"
  sha256Hex s := String.ofList (s.toList.map fun c => if c = '|' then '/' else c)
  coalesceTables dst src := src.foldl (fun m f => if (m.get? f.1).isSome then m else m.insert f.1 f.2) dst

def sampleHash : CommitHash :=
  ⟨List.replicate 40 'a', List.length_replicate, CommitHash.hex_replicate (by decide)⟩

/-- A repository with one branch. -/
def oneBranch (hash : CommitHash) : GitRemote where
  refs := [("refs/heads/main", hash)]
  commits := [hash]
  objects := []
  peeled := by
    intro p hp name hn
    have hnone : peeledName p.1 = none := by
      rw [List.mem_singleton.mp hp]
      show peeledName "refs/heads/main" = none
      decide +kernel
    rw [hnone] at hn
    cases hn

/-- The root of the repository at a ref, with the credentials of a CR in
`garden`. -/
def gitSource (ref : String) (secret : Option SecretReference) : InnerSource :=
  .kustomize ⟨"https://git.example/app?ref=" ++ ref, "seed", "shoot", secret⟩ ⟨some ⟨"garden", secret⟩⟩

end DDO.Spec
