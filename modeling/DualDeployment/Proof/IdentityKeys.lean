import DualDeployment.Impl.Source
import DualDeployment.Proof.Applier
import DualDeployment.Spec.Server

/-!
# The two identity keys

`prune` keys the render by `ManifestIdentityKey` and the previous inventory by
`StatusIdentityKey`. Both fall back to an empty group when the apiVersion
cannot be parsed, but the first then loses the kind as well, so the key of a
manifest is that of the entry `Apply` records for it if and only if the
apiVersion has at most one slash (`identity_keys_iff`).
-/

namespace DDO.Impl

open Prog

/-! ## Parsed manifests -/

/-- A manifest that was parsed has an apiVersion and a kind. -/
theorem parseDocuments_mem {fallback : Origin} {idx : Nat} {docs : List (Except Err JsonMap)}
    {ms : List Manifest} (h : parseDocuments fallback idx docs = .ok ms) {m : Manifest} (hm : m ∈ ms) :
    m.unstructured.getAPIVersion ≠ "" ∧ m.unstructured.getKind ≠ "" := by
  induction docs generalizing idx ms with
  | nil =>
    cases h
    cases hm
  | cons doc docs ih =>
    cases doc with
    | error e => cases h
    | ok obj =>
      simp only [parseDocuments] at h
      split_ifs at h with he ha hk
      · exact ih h hm
      · cases hr : parseDocuments fallback (idx + 1) docs with
        | error e =>
          rw [hr] at h
          cases h
        | ok rest =>
          rw [hr] at h
          cases h
          rcases List.mem_cons.mp hm with rfl | hm
          · exact ⟨ha, hk⟩
          · exact ih hr hm

theorem parseGroupVersion_isSome {s : String} :
    (parseGroupVersion s).isSome ↔ s.toList.count '/' ≤ 1 := by
  rw [parseGroupVersion]
  split_ifs with h
  · rcases h with rfl | rfl <;> decide
  · generalize s.toList.count '/' = n
    rcases n with _ | _ | n
    · simp
    · simp
    · simp

theorem parseGroupVersion_group {s : String} {gv : GroupVersion} (h : parseGroupVersion s = some gv) :
    '/' ∉ gv.group.toList := by
  rw [parseGroupVersion] at h
  split_ifs at h
  · cases h
    decide
  · split at h
    · cases h
      exact List.not_mem_nil
    · cases h
      rw [String.toList_ofList]
      exact fun hm => by simpa using List.all_eq_true.mp List.all_takeWhile '/' hm
    · cases h

/-! ## Keys -/

/-- The group of a manifest, empty if the apiVersion cannot be parsed. -/
def Manifest.group (m : Manifest) : String :=
  ((parseGroupVersion m.unstructured.getAPIVersion).getD ⟨"", ""⟩).group

/-- The object that an entry for the manifest records. -/
def Manifest.recorded (m : Manifest) : ObjRef :=
  ⟨m.group, m.unstructured.getKind,
    identityNamespace m.unstructured.getKind m.unstructured.getNamespace, m.unstructured.getName⟩

section

variable {m m' : Manifest}

/-- Every entry `Apply` returns for the manifest records it. -/
theorem apply_recorded {c : Cluster} {ownedBy : String} {s : List (Event Resp)} {a : ApplyAnswer}
    (h : Trace (SSAApplier.apply c m ownedBy) s a) : a.status.ref = m.recorded := by
  obtain ⟨health, msg, he⟩ := (apply_trace h).status
  rw [he, (submitted_identity m ownedBy).entryFor]
  rfl

theorem recorded_of_parsed (h : (parseGroupVersion m.unstructured.getAPIVersion).isSome) :
    m.unstructured.ref = m.recorded :=
  (entryFor_ref h .healthy "").symm

theorem ref_of_unparsed (h : parseGroupVersion m.unstructured.getAPIVersion = none) :
    m.unstructured.ref = ⟨"", "", m.unstructured.getNamespace, m.unstructured.getName⟩ := by
  have hns : identityNamespace "" m.unstructured.getNamespace = m.unstructured.getNamespace :=
    if_neg (by decide)
  rw [Unstructured.ref, Unstructured.groupVersionKind, h, ObjRef.of, hns]

/-- No cluster-scoped kind starts with a slash. -/
theorem clusterScoped_head {kind : String} (h : isClusterScoped kind = true) :
    ∃ c cs, kind.toList = c :: cs ∧ c ≠ '/' := by
  have hall : ∀ k ∈ clusterScopedKinds, k.toList.head?.any (· ≠ '/') = true := by decide
  have hk := hall kind (by simpa [isClusterScoped] using h)
  cases hl : kind.toList with
  | nil =>
    rw [hl] at hk
    cases hk
  | cons c cs =>
    rw [hl] at hk
    exact ⟨c, cs, rfl, by simpa using hk⟩

/-- Without a kind, the key is that of no entry. -/
theorem key_of_unparsed (h : parseGroupVersion m.unstructured.getAPIVersion = none)
    (hk : m.unstructured.getKind ≠ "") : m.recorded.key ≠ m.unstructured.ref.key := by
  rw [ref_of_unparsed h, Manifest.recorded, Manifest.group, h]
  intro he
  have hl : m.unstructured.getKind.toList ++ '/' ::
      ((identityNamespace m.unstructured.getKind m.unstructured.getNamespace).toList ++
        '/' :: m.unstructured.getName.toList) =
      '/' :: (m.unstructured.getNamespace.toList ++ '/' :: m.unstructured.getName.toList) := by
    simpa [ObjRef.key] using congrArg String.toList he
  by_cases hc : isClusterScoped m.unstructured.getKind = true
  · obtain ⟨c, cs, hkind, hne⟩ := clusterScoped_head hc
    rw [hkind] at hl
    exact hne (List.cons.inj hl).1
  · -- the namespace is in both keys, so the kind has to be empty
    rw [identityNamespace, if_neg hc] at hl
    have hlen := congrArg List.length hl
    simp only [List.length_append, List.length_cons] at hlen
    exact hk (String.toList_eq_nil_iff.mp (List.eq_nil_of_length_eq_zero (by omega)))

/-- The key of the entry is the key of the manifest if the apiVersion can be
parsed. -/
theorem recorded_key_iff (hk : m.unstructured.getKind ≠ "") :
    m.recorded.key = manifestIdentityKey m ↔ m.unstructured.getAPIVersion.toList.count '/' ≤ 1 := by
  rw [← parseGroupVersion_isSome, manifestIdentityKey_eq]
  cases h : parseGroupVersion m.unstructured.getAPIVersion with
  | none => exact iff_of_false (key_of_unparsed h hk) (by simp)
  | some gv =>
    rw [recorded_of_parsed (by rw [h]; rfl)]
    exact iff_of_true rfl rfl

end

end DDO.Impl

namespace DDO.Spec

open Impl Prog

/-- Kind, namespace and name have no slash. -/
structure SlashFreeNames (m : Manifest) : Prop where
  kind : '/' ∉ m.unstructured.getKind.toList
  ns : '/' ∉ m.unstructured.getNamespace.toList
  name : '/' ∉ m.unstructured.getName.toList

/-- The manifests are of one object, whatever their versions. -/
structure SameObject (m m' : Manifest) : Prop where
  group : m.group = m'.group
  kind : m.unstructured.getKind = m'.unstructured.getKind
  name : m.unstructured.getName = m'.unstructured.getName
  ns : isClusterScoped m.unstructured.getKind = false →
    m.unstructured.getNamespace = m'.unstructured.getNamespace

/-- The key of the manifest is that of every entry `Apply` records for it, and
that of the manifest rebuilt from the entry. -/
structure KeysAgree (m : Manifest) : Prop where
  status : ∀ c ownedBy s a, Trace (SSAApplier.apply c m ownedBy) s a →
    manifestIdentityKey m = statusIdentityKey a.status
  rebuilt : ∀ c ownedBy s a, Trace (SSAApplier.apply c m ownedBy) s a →
    manifestIdentityKey m = manifestIdentityKey (manifestFromStatus a.status)

section

variable {m m' : Manifest}

theorem recorded_slashFree (h : SlashFreeNames m) : m.recorded.SlashFree := by
  have hg : '/' ∉ m.group.toList := by
    rw [Manifest.group]
    cases hp : parseGroupVersion m.unstructured.getAPIVersion with
    | none => exact List.not_mem_nil
    | some gv => exact parseGroupVersion_group hp
  have hns : '/' ∉ (identityNamespace m.unstructured.getKind m.unstructured.getNamespace).toList := by
    rw [identityNamespace]
    split_ifs
    · exact List.not_mem_nil
    · exact h.ns
  intro s hs
  simp only [Manifest.recorded, List.mem_cons, List.not_mem_nil, or_false] at hs
  rcases hs with rfl | rfl | rfl | rfl
  · exact hg
  · exact h.kind
  · exact hns
  · exact h.name

theorem recorded_eq_iff : m.recorded = m'.recorded ↔ SameObject m m' := by
  rw [Manifest.recorded, Manifest.recorded, ObjRef.mk.injEq]
  constructor
  · rintro ⟨hg, hk, hns, hn⟩
    refine ⟨hg, hk, hn, fun hc => ?_⟩
    rwa [← hk, identityNamespace, identityNamespace, hc] at hns
  · rintro ⟨hg, hk, hn, hns⟩
    refine ⟨hg, hk, ?_, hn⟩
    rw [← hk, identityNamespace, identityNamespace]
    split_ifs with hc
    · rfl
    · exact hns (by simpa using hc)

/-- The keys agree if the apiVersion has at most one slash. -/
theorem keysAgree_iff (hk : m.unstructured.getKind ≠ "") :
    KeysAgree m ↔ m.unstructured.getAPIVersion.toList.count '/' ≤ 1 := by
  rw [← recorded_key_iff hk]
  constructor
  · intro h
    -- any run will do
    have ht := exec_trace (sampleServer [] []).answer (SSAApplier.apply .seed m "")
      (sampleWorld (sampleCR .unset .retain) (sampleCR_key .unset .retain))
    rw [h.status _ _ _ _ ht, statusIdentityKey_eq, apply_recorded ht]
  · intro h
    refine ⟨fun c ownedBy s a ht => ?_, fun c ownedBy s a ht => ?_⟩
    · rw [← h, statusIdentityKey_eq, apply_recorded ht]
    · rw [← h, manifestIdentityKey_eq, manifestFromStatus_ref, apply_recorded ht]

/-- For every two manifests that were parsed: the key of each is that of the
entries `Apply` records for it and of the manifests rebuilt from them, and,
unless there are slashes in the names, the two keys are equal exactly for
manifests of one object, if and only if both apiVersions have at most one
slash. -/
theorem identity_keys_iff {docs docs' : List (Except Err JsonMap)} {fallback fallback' : Origin}
    {ms ms' : List Manifest} (h : parse docs fallback = .ok ms) (hm : m ∈ ms)
    (h' : parse docs' fallback' = .ok ms') (hm' : m' ∈ ms') :
    (KeysAgree m ∧ KeysAgree m' ∧ (SlashFreeNames m → SlashFreeNames m' →
      (manifestIdentityKey m = manifestIdentityKey m' ↔ SameObject m m'))) ↔
    m.unstructured.getAPIVersion.toList.count '/' ≤ 1 ∧
      m'.unstructured.getAPIVersion.toList.count '/' ≤ 1 := by
  have hk := (parseDocuments_mem h hm).2
  have hk' := (parseDocuments_mem h' hm').2
  constructor
  · rintro ⟨ha, ha', -⟩
    exact ⟨(keysAgree_iff hk).mp ha, (keysAgree_iff hk').mp ha'⟩
  · rintro ⟨hc, hc'⟩
    refine ⟨(keysAgree_iff hk).mpr hc, (keysAgree_iff hk').mpr hc', fun _ hf' => ?_⟩
    rw [← (recorded_key_iff hk).mpr hc, ← (recorded_key_iff hk').mpr hc', ← recorded_eq_iff]
    exact ⟨ObjRef.key_inj (recorded_slashFree hf'), congrArg ObjRef.key⟩

end

/-- A Deployment `garden/web` of this apiVersion. -/
def deployment (apiVersion : String) : JsonMap :=
  [("apiVersion", .str apiVersion), ("kind", .str "Deployment"),
    ("metadata", .obj [("name", .str "web"), ("namespace", .str "garden")])]

/-- Two versions of it have one key. -/
theorem identity_keys_versions :
    let m : Manifest := ⟨⟨deployment "apps/v1beta1"⟩, .upstream⟩
    let m' : Manifest := ⟨⟨deployment "apps/v1"⟩, .upstream⟩
    KeysAgree m ∧ KeysAgree m' ∧ (SlashFreeNames m → SlashFreeNames m' →
      (manifestIdentityKey m = manifestIdentityKey m' ↔ SameObject m m')) := by
  intro m m'
  have h : parse [.ok (deployment "apps/v1beta1"), .ok (deployment "apps/v1")] .upstream = .ok [m, m'] := rfl
  exact (identity_keys_iff h List.mem_cons_self h (by simp)).mpr ⟨by decide, by decide⟩

/-- An apiVersion with two slashes is parsed, and the key loses its kind, which
the entry keeps. -/
theorem identity_keys_differ :
    let m : Manifest := ⟨⟨deployment "apps/v1/beta1"⟩, .upstream⟩
    let run := (SSAApplier.apply .seed m "").exec (sampleServer [] []).answer
      (sampleWorld (sampleCR .unset .retain) (sampleCR_key .unset .retain))
    parse [.ok (deployment "apps/v1/beta1")] .upstream = .ok [m] ∧
      Trace (SSAApplier.apply .seed m "") run.1 run.2.1 ∧
      manifestIdentityKey m = "//garden/web" ∧ statusIdentityKey run.2.1.status = "/Deployment/garden/web" ∧
      manifestIdentityKey (manifestFromStatus run.2.1.status) = "/Deployment/garden/web" := by
  dsimp only
  exact ⟨rfl, exec_trace _ _ _, by decide +kernel, by decide +kernel, by decide +kernel⟩

end DDO.Spec
