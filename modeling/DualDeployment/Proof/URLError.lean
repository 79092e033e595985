import Mathlib.Data.Bool.AllAny
import DualDeployment.Impl.Source
import DualDeployment.Impl.Teardown
import DualDeployment.Proof.CacheKey

/-!
# Credentials in URLs

A URL with credentials is refused: `splitRef` and `rejectURLCredentials` say so
in a fixed text once the URL is parsed. What they return for a URL that is not
parsed differs: `rejectURLCredentials` has a fixed text for that too
(`rejectURLCredentials_eq_some`), and `splitRef` passes the error of `url.Parse` on,
which quotes the URL (`userinfoError_same_iff`). Whatever it is, the error is what
`Render` returns and what the Ready condition says (`rejected_pass`).
-/

namespace DDO.Impl

open Prog

/-! ## Variants of a URL -/

/-- What stands before the authority of a URL. -/
def AuthorityStart (pre : String) : Prop :=
  pre = "//" ∨ ∃ scheme, pre = scheme ++ "://" ∧
    ∀ c ∈ scheme.toList, c ≠ ':' ∧ c ≠ '/' ∧ c ≠ '?' ∧ c ≠ '#'

/-- A text that does not leave the authority. -/
def InAuthority (s : String) : Prop := ∀ c ∈ s.toList, c ≠ '/' ∧ c ≠ '?' ∧ c ≠ '#'

instance : DecidablePred InAuthority := fun s =>
  List.decidableBAll (fun c => c ≠ '/' ∧ c ≠ '?' ∧ c ≠ '#') s.toList

/-- The URLs differ at most in the credentials before the `@` of the authority. -/
def CredentialVariants (raw₁ raw₂ : String) : Prop :=
  ∃ pre creds₁ creds₂ rest, AuthorityStart pre ∧ InAuthority creds₁ ∧ InAuthority creds₂ ∧
    raw₁ = pre ++ creds₁ ++ "@" ++ rest ∧ raw₂ = pre ++ creds₂ ++ "@" ++ rest

/-- A URL that is parsed has user information if its authority has an `@`. -/
def NetURL.KnowsUserinfo (net : NetURL) : Prop :=
  ∀ pre creds rest u, AuthorityStart pre → InAuthority creds →
    net.parse (pre ++ creds ++ "@" ++ rest) = .ok u → u.user = true

/-- The error of `url.Parse` contains the URL. -/
def NetURL.QuotesInput (net : NetURL) : Prop :=
  ∀ raw e, net.parse raw = .error e → raw.toList <:+: e.toList

namespace SourceSpec

/-- The source at another URL. -/
def withURL (s : SourceSpec) (raw : String) : SourceSpec where
  helm := s.helm.map fun h => { h with repo := raw }
  kustomize := s.kustomize.map fun k => { k with url := raw }

/-- The error with which the source's URL is refused. -/
def urlError (net : NetURL) (s : SourceSpec) : Option Err :=
  match s.helm, s.kustomize with
  | some h, none => rejectURLCredentials net h.repo
  | none, some k =>
    match splitRef net k.url with
    | .error e => some e
    | .ok _ => none
  | _, _ => none

/-- The text that is parsed for a source at this URL. -/
def parsedURL (s : SourceSpec) (raw : String) : String := if s.helm.isSome then httpsURL raw else raw

/-- Both URLs are refused by `url.Parse`, with different texts, and the source
passes the text on. -/
def Echoes (net : NetURL) (s : SourceSpec) (raw₁ raw₂ : String) : Prop :=
  s.helm.isSome = false ∧
    ∃ e₁ e₂, net.parse raw₁ = .error e₁ ∧ net.parse raw₂ = .error e₂ ∧ e₁ ≠ e₂

end SourceSpec

/-- Whether `url.Parse` accepts a text. -/
def NetURL.accepts (net : NetURL) (raw : String) : Bool := (net.parse raw).toOption.isSome

section

variable {net : NetURL} {raw raw₁ raw₂ : String} {e e₁ e₂ : Err}

/-- The errors for a chart repository are fixed texts. -/
theorem rejectURLCredentials_eq_some (h : rejectURLCredentials net raw = some e) :
    e = .text (if net.accepts (httpsURL raw) then
        "source: chart repo url must not embed credentials in the URL; use authSecretRef"
      else "source: chart repo url is not parseable") := by
  rw [rejectURLCredentials] at h
  rw [NetURL.accepts]
  cases hx : net.parse (httpsURL raw) with
  | error x =>
    rw [hx] at h
    exact (Option.some.inj h).symm
  | ok u =>
    simp only [hx] at h
    split_ifs at h
    exact (Option.some.inj h).symm

/-- The error of `splitRef` for a URL with credentials. -/
def userinfoError : Except String URL → Err
  | .error x => .text ("source: parse kustomize url: " ++ x)
  | .ok _ => .text "source: kustomize url must not embed credentials in the URL; use authSecretRef"

theorem splitRef_userinfo (hnet : net.KnowsUserinfo) {pre creds rest : String} (hpre : AuthorityStart pre)
    (hc : InAuthority creds) : splitRef net (pre ++ creds ++ "@" ++ rest) =
      .error (userinfoError (net.parse (pre ++ creds ++ "@" ++ rest))) := by
  rw [splitRef]
  cases hx : net.parse (pre ++ creds ++ "@" ++ rest) with
  | error x => rfl
  | ok u =>
    simp only [hnet _ _ _ _ hpre hc hx, if_true]
    rfl

theorem userinfoError_same_iff {x y : Except String URL} (h : x.toOption.isSome = y.toOption.isSome) :
    (userinfoError x).error = (userinfoError y).error ↔
      ¬ ∃ e₁ e₂, x = .error e₁ ∧ y = .error e₂ ∧ e₁ ≠ e₂ := by
  cases x with
  | error x =>
    cases y with
    | error y =>
      have hinj : (userinfoError (.error x)).error = (userinfoError (.error y)).error ↔ x = y :=
        ⟨fun h => String.append_right_inj _ |>.mp h, fun h => by rw [h]⟩
      rw [hinj]
      constructor
      · rintro rfl ⟨_, _, h₁, h₂, hne⟩
        cases h₁
        cases h₂
        exact hne rfl
      · exact fun hno => by_contra fun hne => hno ⟨x, y, rfl, rfl, hne⟩
    | ok v => cases h
  | ok u =>
    cases y with
    | error y => cases h
    | ok v => exact iff_of_true rfl fun ⟨_, _, h, _⟩ => by cases h

/-- Two sources at variants of a URL are refused with one message, unless the
errors of `url.Parse` are passed on. -/
theorem urlError_same_iff (hnet : net.KnowsUserinfo) {s : SourceSpec}
    (hv : CredentialVariants raw₁ raw₂)
    (hp : net.accepts (s.parsedURL raw₁) = net.accepts (s.parsedURL raw₂))
    (h₁ : (s.withURL raw₁).urlError net = some e₁) (h₂ : (s.withURL raw₂).urlError net = some e₂) :
    e₁.error = e₂.error ↔ ¬ s.Echoes net raw₁ raw₂ := by
  obtain ⟨helm, kustomize⟩ := s
  cases helm with
  | some helm =>
    cases kustomize with
    | some k => cases h₁
    | none =>
      refine iff_of_true ?_ fun h => by cases h.1
      have hp' : net.accepts (httpsURL raw₁) = net.accepts (httpsURL raw₂) := hp
      rw [rejectURLCredentials_eq_some h₁, rejectURLCredentials_eq_some h₂]
      simp only [hp']
  | none =>
    cases kustomize with
    | none => cases h₁
    | some k =>
      obtain ⟨pre, creds₁, creds₂, rest, hpre, hc₁, hc₂, rfl, rfl⟩ := hv
      simp only [SourceSpec.withURL, SourceSpec.urlError, Option.map_none, Option.map_some,
        splitRef_userinfo hnet hpre hc₁, Option.some.injEq] at h₁
      simp only [SourceSpec.withURL, SourceSpec.urlError, Option.map_none, Option.map_some,
        splitRef_userinfo hnet hpre hc₂, Option.some.injEq] at h₂
      rw [← h₁, ← h₂]
      exact (userinfoError_same_iff hp).trans (not_congr (and_iff_right rfl).symm)

end

/-! ## What becomes of the error -/

/-- What `Render` makes of the error for the URL. -/
def SourceSpec.renderError (s : SourceSpec) (mode : Mode) (e : Err) : Err :=
  .text ((if s.helm.isSome then "source: load chart: "
    else "source: resolve kustomize root (mode=" ++ mode.text ++ "): ") ++ e.error)

section

variable {L : Libs} {E : Engines} {mode : Mode} {ns : String} {e : Err}

theorem render_refused_helm {spec : HelmSource} {loader : HelmLoader}
    (he : rejectURLCredentials L.net spec.repo = some e) :
    (InnerSource.helm spec loader).render L E mode ns =
      pure (.error (.text ("source: load chart: " ++ e.error))) := by
  rw [InnerSource.render, HelmLoader.load, he]
  rfl

theorem resolve_refused_helm {spec : HelmSource} (loader : HelmLoader)
    (he : rejectURLCredentials L.net spec.repo = some e) :
    ∃ e', (InnerSource.helm spec loader).resolve L = pure (.error e') := by
  rw [InnerSource.resolve]
  cases HelmLoader.repoScope L.net spec.repo with
  | error e' => exact ⟨e', rfl⟩
  | ok scope =>
    simp only [HelmLoader.resolveID, he]
    exact ⟨e, rfl⟩

theorem render_refused_kustomize {spec : KustomizeSource} {resolver : GitResolver}
    (he : splitRef L.net spec.url = .error e) :
    (InnerSource.kustomize spec resolver).render L E mode ns =
      pure (.error (.text ("source: resolve kustomize root (mode=" ++ mode.text ++ "): " ++ e.error))) := by
  rw [InnerSource.render, GitResolver.root, he]
  rfl

theorem resolve_refused_kustomize {spec : KustomizeSource} {resolver : GitResolver}
    (he : splitRef L.net spec.url = .error e) :
    (InnerSource.kustomize spec resolver).resolve L = pure (.error e) := by
  simp only [InnerSource.resolve, GitResolver.repoScope, he]

/-- A source that is not resolved is rendered without the cache. -/
theorem render_unresolved {c : CachingSource} (h : c.inner.resolve L = pure (.error e)) :
    c.render L E mode ns = c.inner.render L E mode ns := by
  rw [CachingSource.render, h]
  rfl

/-- A source whose URL is refused asks nothing of the outside. -/
theorem render_refused {s : SourceSpec} {deps : Deps} {b : BuiltSource}
    (hb : sourceFrom L s deps = .ok b) (he : s.urlError L.net = some e) :
    b.render L E mode ns = pure (.error (s.renderError mode e)) := by
  obtain ⟨helm, kustomize⟩ := s
  cases helm with
  | some helm =>
    cases kustomize with
    | some k => cases he
    | none =>
      rw [sourceFrom] at hb
      cases hl : deps.chartLoader with
      | none =>
        rw [hl] at hb
        cases hb
      | some l =>
        simp only [hl] at hb
        obtain ⟨e', hr⟩ := resolve_refused_helm (withHelmCreds l deps helm.authSecretRef) he
        split_ifs at hb
        · cases hb
          exact (render_unresolved (c := wrapHelm L helm _) hr).trans (render_refused_helm he)
        · cases hb
          exact render_refused_helm he
  | none =>
    cases kustomize with
    | none => cases he
    | some k =>
      have hk : splitRef L.net k.url = .error e := by
        simp only [SourceSpec.urlError] at he
        split at he
        · cases he
          assumption
        · cases he
      rw [sourceFrom] at hb
      cases hl : deps.rootResolver with
      | none =>
        rw [hl] at hb
        cases hb
      | some r =>
        simp only [hl] at hb
        split_ifs at hb
        · cases hb
          exact (render_unresolved (c := wrapKustomize L k _) (resolve_refused_kustomize hk)).trans
            (render_refused_kustomize hk)
        · cases hb
          exact render_refused_kustomize hk

end

/-! ## The Ready condition -/

/-- The CR with its source at another URL. -/
def DualDeploymentOperator.withURL (cr : DualDeploymentOperator) (raw : String) : DualDeploymentOperator :=
  { cr with spec := { cr.spec with source := cr.spec.source.withURL raw } }

/-- The messages of the Ready condition that the calls write. -/
def readyMessages (t : List CallEvent) : List String :=
  t.filterMap fun l =>
    match l.1 with
    | .op (.updateStatus cr) => (findStatusCondition "Ready" cr.status.conditions).map (·.message)
    | _ => none

/-- The calls to sources are answered as `source.From` and `Render` do. -/
structure ServesSources (L : Libs) (E : Engines) (deps : String → Deps) (t : List CallEvent) : Prop where
  built : ∀ spec ns a, ⟨.op (.sourceFrom spec ns), a⟩ ∈ t →
    a = (sourceFrom L spec (deps ns)).map fun _ => ⟨spec, ns⟩
  rendered : ∀ src mode ns a, ⟨.op (.render src mode ns), a⟩ ∈ t →
    ∃ b u, sourceFrom L src.spec (deps src.credentialsNamespace) = .ok b ∧ Trace (b.render L E mode ns) u a

theorem ServesSources.mono {L : Libs} {E : Engines} {deps : String → Deps} {t t' : List CallEvent}
    (h : ServesSources L E deps t) (ht : t' ⊆ t) : ServesSources L E deps t' :=
  ⟨fun spec ns a ha => h.built spec ns a (ht ha), fun src mode ns a ha => h.rendered src mode ns a (ht ha)⟩

section

variable {L : Libs} {E : Engines} {deps : String → Deps} {r : Reconciler} {cr : DualDeploymentOperator}
  {t : List CallEvent} {e : Err}

/-- The error of a pass whose source's URL is refused. -/
def refusal (L : Libs) (deps : String → Deps) (cr : DualDeploymentOperator) (e : Err) : Err :=
  match sourceFrom L cr.spec.source (deps cr.ns) with
  | .error f => f
  | .ok _ => cr.spec.source.renderError .seed e

theorem pipeline_refused {x : Except (String × Err) (List Manifest × List Manifest)}
    (h : Trace (pipeline r cr) t x) (hs : ServesSources L E deps t)
    (he : cr.spec.source.urlError L.net = some e) :
    readyMessages t = [] ∧ ∃ reason, x = .error (reason, refusal L deps cr e) := by
  rw [pipeline] at h
  obtain ⟨a, t₁, rfl, h₁⟩ := trace_request_seq.mp h
  have ha := hs.built _ _ a List.mem_cons_self
  rw [refusal]
  cases hb : sourceFrom L cr.spec.source (deps cr.ns) with
  | error f =>
    rw [hb] at ha
    subst ha
    obtain ⟨rfl, rfl⟩ := trace_pure.mp h₁
    exact ⟨rfl, _, rfl⟩
  | ok b =>
    rw [hb] at ha
    subst ha
    obtain ⟨ms, t₂, rfl, h₂⟩ := trace_request_seq.mp h₁
    obtain ⟨b', u, hb', hu⟩ := hs.rendered _ _ _ ms (List.mem_cons_of_mem _ List.mem_cons_self)
    rw [render_refused hb' he] at hu
    obtain ⟨-, rfl⟩ := trace_pure.mp hu
    obtain ⟨rfl, rfl⟩ := trace_pure.mp h₂
    exact ⟨rfl, _, rfl⟩

theorem readyMessages_setCondition (reason message : String) (a : Option Err) :
    readyMessages [⟨.op (.updateStatus (cr.setCondition reason message)), a⟩] = [message] := by
  have hf : findStatusCondition "Ready" (cr.setCondition reason message).status.conditions =
      some ⟨"Ready", .conditionFalse, reason, message, cr.generation⟩ :=
    find_setStatusCondition ⟨"Ready", .conditionFalse, reason, message, cr.generation⟩ _
  simp only [readyMessages, List.filterMap_cons, List.filterMap_nil, hf, Option.map_some]

/-- Whether a source can be built does not depend on its URL. -/
theorem sourceFrom_withURL (L : Libs) (s : SourceSpec) (deps : Deps) (raw raw' : String) :
    (sourceFrom L (s.withURL raw) deps).map (fun _ => ()) =
      (sourceFrom L (s.withURL raw') deps).map fun _ => () := by
  obtain ⟨helm, kustomize⟩ := s
  cases helm with
  | none =>
    cases kustomize with
    | none => rfl
    | some k =>
      simp only [sourceFrom, SourceSpec.withURL, Option.map_none, Option.map_some]
      cases deps.rootResolver <;> rfl
  | some h =>
    cases kustomize with
    | none =>
      simp only [sourceFrom, SourceSpec.withURL, Option.map_none, Option.map_some]
      cases deps.chartLoader <;> rfl
    | some k => rfl

/-- The URL comes into the error of a pass only with the error for the URL. -/
theorem refusal_withURL {raw₁ raw₂ : String} {e₁ e₂ : Err} (he : e₁.error = e₂.error) :
    (refusal L deps (cr.withURL raw₁) e₁).error = (refusal L deps (cr.withURL raw₂) e₂).error := by
  have hs := sourceFrom_withURL L cr.spec.source (deps cr.ns) raw₁ raw₂
  have hh : ∀ raw, (cr.spec.source.withURL raw).helm.isSome = cr.spec.source.helm.isSome :=
    fun raw => Option.isSome_map
  simp only [refusal, DualDeploymentOperator.withURL]
  cases hx : sourceFrom L (cr.spec.source.withURL raw₁) (deps cr.ns) with
  | error f =>
    cases hy : sourceFrom L (cr.spec.source.withURL raw₂) (deps cr.ns) with
    | error g =>
      rw [hx, hy] at hs
      cases hs
      rfl
    | ok b =>
      rw [hx, hy] at hs
      cases hs
  | ok b =>
    cases hy : sourceFrom L (cr.spec.source.withURL raw₂) (deps cr.ns) with
    | error g =>
      rw [hx, hy] at hs
      cases hs
    | ok b' => simp only [SourceSpec.renderError, hh, he]

/-- A pass whose source's URL is refused says so in the Ready condition, or only
adds the finalizer. -/
theorem rejected_pass {key : NamespacedName} {o : Outcome}
    (h : Trace (reconcile r key) (⟨.op (.getCR key), .ok cr⟩ :: t) o)
    (hd : cr.deletionTimestamp = false) (hs : ServesSources L E deps t)
    (he : cr.spec.source.urlError L.net = some e) :
    readyMessages t = if FinalizerName ∈ cr.finalizers then [(refusal L deps cr e).error] else [] := by
  rw [reconcile] at h
  obtain ⟨a, t₁, ht, h₁⟩ := trace_request_seq.mp h
  obtain ⟨ha, rfl⟩ := List.cons.inj ht
  cases ha
  simp only [hd, Bool.false_eq_true, if_false, reconcileNormal] at h₁
  by_cases hf : FinalizerName ∈ cr.finalizers
  · rw [if_neg (not_not.mpr hf)] at h₁
    rw [if_pos hf]
    obtain ⟨t₂, t₃, x, rfl, hp, h₃⟩ := trace_seq.mp h₁
    obtain ⟨hnil, reason, rfl⟩ := pipeline_refused hp (hs.mono (List.subset_append_left _ _)) he
    obtain ⟨w, t₄, rfl, h₄⟩ := trace_request_seq.mp h₃
    obtain ⟨rfl, -⟩ := trace_pure.mp h₄
    rw [readyMessages, List.filterMap_append, ← readyMessages, ← readyMessages, hnil, List.nil_append,
      readyMessages_setCondition]
  · rw [if_pos hf] at h₁
    rw [if_neg hf]
    obtain ⟨w, t₂, rfl, h₂⟩ := trace_request_seq.mp h₁
    obtain ⟨rfl, -⟩ := trace_pure.mp h₂
    rfl

end

end DDO.Impl

namespace DDO.Spec

open Impl Prog

/-- **Credentials in URLs.** Take two URLs that differ at most in their credentials,
both accepted or both refused by `url.Parse`, and a source that is refused at
each of them. The errors have one message, and so have the Ready conditions of
all passes over a CR with that source, if and only if the errors of `url.Parse`
are not passed on. -/
theorem url_errors_hide_credentials_iff (L : Libs) (hnet : L.net.KnowsUserinfo) (s : SourceSpec)
    {raw₁ raw₂ : String} (hv : CredentialVariants raw₁ raw₂)
    (hp : L.net.accepts (s.parsedURL raw₁) = L.net.accepts (s.parsedURL raw₂)) {e₁ e₂ : Err}
    (h₁ : (s.withURL raw₁).urlError L.net = some e₁) (h₂ : (s.withURL raw₂).urlError L.net = some e₂) :
    (e₁.error = e₂.error ∧
      ∀ (E : Engines) (deps : String → Deps) (r : Reconciler) (key : NamespacedName)
        (cr : DualDeploymentOperator) (t₁ t₂ : List CallEvent) (o₁ o₂ : Outcome),
        cr.spec.source = s → cr.deletionTimestamp = false →
        Trace (reconcile r key) (⟨.op (.getCR key), .ok (cr.withURL raw₁)⟩ :: t₁) o₁ →
        Trace (reconcile r key) (⟨.op (.getCR key), .ok (cr.withURL raw₂)⟩ :: t₂) o₂ →
        ServesSources L E deps t₁ → ServesSources L E deps t₂ → readyMessages t₁ = readyMessages t₂) ↔
      ¬ s.Echoes L.net raw₁ raw₂ := by
  rw [← urlError_same_iff hnet hv hp h₁ h₂, and_iff_left_iff_imp]
  rintro he E deps r key cr t₁ t₂ o₁ o₂ rfl hd ht₁ ht₂ hs₁ hs₂
  rw [rejected_pass ht₁ hd hs₁ h₁, rejected_pass ht₂ hd hs₂ h₂, refusal_withURL he]
  rfl

/-! ## A password in an error -/

/-- `net/url`, for plain URLs without escapes. -/
def strictNet : NetURL where
  parse raw :=
    if '%' ∈ raw.toList then
      .error ("parse \"" ++ raw ++ "\": " ++
        ("invalid URL escape " ++ quote (String.ofList ((raw.toList.dropWhile (· ≠ '%')).take 3))))
    else
      match sampleNet.parse raw with
      | .error e => .error ("parse \"" ++ raw ++ "\": " ++ e)
      | .ok u => .ok u
  string := sampleNet.string
  queryGet := sampleNet.queryGet

theorem sampleNet_knowsUserinfo : sampleNet.KnowsUserinfo := by
  intro pre creds rest u hpre hc hu
  simp only [sampleNet] at hu
  split_ifs at hu with hs
  cases hu
  obtain ⟨tail, ht⟩ := List.isPrefixOf_iff_prefix.mp hs
  have hrest : (pre ++ creds ++ "@" ++ rest).toList.drop 8 = creds.toList ++ '@' :: rest.toList := by
    rw [← ht]
    rcases hpre with rfl | ⟨scheme, rfl, hscheme⟩
    · simp at ht
    · -- the scheme ends at the first colon
      have hsep : "https".toList ++ ':' :: ('/' :: '/' :: tail) =
          scheme.toList ++ ':' :: ('/' :: '/' :: (creds.toList ++ '@' :: rest.toList)) := by
        simpa using ht
      obtain ⟨-, htail⟩ := append_sep_inj_of_not_mem (by decide) (fun h => (hscheme _ h).1 rfl) hsep
      simpa using htail
  have hno : ∀ c ∈ creds.toList, decide (c ≠ '/') = true := fun c h => decide_eq_true (hc c h).1
  simp only [hrest, List.takeWhile_append_of_pos hno]
  simp

theorem strictNet_knowsUserinfo : strictNet.KnowsUserinfo := by
  intro pre creds rest u hpre hc hu
  simp only [strictNet] at hu
  split_ifs at hu
  split at hu
  · cases hu
  · cases hu
    exact sampleNet_knowsUserinfo pre creds rest u hpre hc ‹_›

theorem strictNet_quotesInput : strictNet.QuotesInput := by
  intro raw e he
  have hin : ∀ x y : String, raw.toList <:+: (x ++ raw ++ "\": " ++ y).toList := by
    intro x y
    rw [String.append_assoc, String.toList_append, String.toList_append]
    exact ⟨x.toList, _, rfl⟩
  simp only [strictNet] at he
  split_ifs at he
  · cases he
    exact hin _ _
  · split at he
    · cases he
      exact hin _ _
    · cases he

/-- A kustomize source. -/
def sampleRoot : SourceSpec := ⟨none, some ⟨"", "seed", "shoot", none⟩⟩

def strictLibs : Libs := { sampleLibs with net := strictNet }

def urlWith (creds : String) : String := "https://" ++ creds ++ "@" ++ "git.example/app?ref=v1"

theorem https_authorityStart : AuthorityStart "https://" :=
  .inr ⟨"https", rfl, List.all_iff_forall_prop.mp rfl⟩

theorem urlWith_variants {creds₁ creds₂ : String} (h₁ : InAuthority creds₁) (h₂ : InAuthority creds₂) :
    CredentialVariants (urlWith creds₁) (urlWith creds₂) :=
  ⟨"https://", creds₁, creds₂, _, https_authorityStart, h₁, h₂, rfl, rfl⟩

theorem urlWith_refused {creds : String} (h : InAuthority creds) :
    (sampleRoot.withURL (urlWith creds)).urlError strictLibs.net =
      some (userinfoError (strictNet.parse (urlWith creds))) := by
  have hs : splitRef strictNet (urlWith creds) = _ :=
    splitRef_userinfo strictNet_knowsUserinfo https_authorityStart h
  show (match splitRef strictNet (urlWith creds) with
    | .error e => some e
    | .ok _ => none) = _
  rw [hs]
  rfl

theorem url_errors_hide_credentials_accepted :
    (userinfoError (strictNet.parse (urlWith "git:s3cret"))).error =
      (userinfoError (strictNet.parse (urlWith "bot:t0ken"))).error := by
  refine ((url_errors_hide_credentials_iff strictLibs strictNet_knowsUserinfo sampleRoot
    (urlWith_variants (by decide) (by decide)) (by decide +kernel) (urlWith_refused (by decide))
    (urlWith_refused (by decide))).mpr ?_).1
  rintro ⟨-, x, _, hx, -⟩
  have ha : strictNet.accepts (urlWith "git:s3cret") = true := by decide +kernel
  rw [NetURL.accepts, show strictNet.parse (urlWith "git:s3cret") = .error x from hx] at ha
  cases ha

/-- A bad escape after a password: the message of the error has the password. -/
theorem url_error_shows_password :
    strictNet.KnowsUserinfo ∧ strictNet.QuotesInput ∧
      CredentialVariants (urlWith "git:s3cret%zz") (urlWith "git:0ther%zz") ∧
      strictNet.accepts (urlWith "git:s3cret%zz") = strictNet.accepts (urlWith "git:0ther%zz") ∧
      ∃ e₁ e₂, splitRef strictNet (urlWith "git:s3cret%zz") = .error e₁ ∧
        splitRef strictNet (urlWith "git:0ther%zz") = .error e₂ ∧ e₁.error ≠ e₂.error ∧
        "s3cret".toList <:+: e₁.error.toList := by
  refine ⟨strictNet_knowsUserinfo, strictNet_quotesInput, urlWith_variants (by decide) (by decide),
    by decide +kernel, _, _, splitRef_userinfo strictNet_knowsUserinfo https_authorityStart (by decide),
    splitRef_userinfo strictNet_knowsUserinfo https_authorityStart (by decide), by decide +kernel, ?_⟩
  decide +kernel

end DDO.Spec
