import DualDeployment.Impl.Capture
import DualDeployment.Impl.Transform
import DualDeployment.Spec.Server

/-!
# The transformation pipeline is pointwise

Each transformation that `Build` returns works manifest by manifest and keeps
the origin (`buildOne_pointwise`), and so does any list of them, applied in
order (`transformEach_elementwise`): no list of transformations can reorder,
duplicate, invent or re-classify manifests (`transformations_pointwise`).
-/

namespace DDO.Impl

/-- The manifests have the same origin. -/
def SameOrigin (m m' : Manifest) : Prop := m'.origin = m.origin

theorem SameOrigin.refl (m : Manifest) : SameOrigin m m := rfl

theorem SameOrigin.trans (m₁ m₂ m₃ : Manifest) (h₁ : SameOrigin m₁ m₂) (h₂ : SameOrigin m₂ m₃) :
    SameOrigin m₁ m₃ :=
  Eq.trans h₂ h₁

/-- It works manifest by manifest. -/
def Transformation.Pointwise (t : Transformation) : Prop :=
  Elementwise SameOrigin fun ms => (t.apply ms).toOption

theorem patchManifest_origin {libs : TransformLibs} {spec : PatchSpec} {m m' : Manifest}
    (h : spec.patchManifest libs m = .ok m') : SameOrigin m m' := by
  rw [PatchSpec.patchManifest] at h
  split_ifs at h
  · split at h
    · cases h
    · cases h
      rfl
  · cases h
    rfl

theorem rewriteManifest_origin {spec : RewriteWebhookURLSpec} {m m' : Manifest}
    (h : spec.rewriteManifest m = .ok m') : SameOrigin m m' := by
  rw [RewriteWebhookURLSpec.rewriteManifest] at h
  split at h
  · cases h
  · cases h
    rfl

theorem patch_pointwise (libs : TransformLibs) (spec : PatchSpec) : (patch libs spec).Pointwise := by
  by_cases hs : spec.strategicMerge.isSome = !spec.jsonPatch.isEmpty
  · -- a patch with none or both of the two forms fails on every stream
    simp only [Transformation.Pointwise, patch, hs, if_true]
    exact .never
  · simp only [Transformation.Pointwise, patch, hs, if_false]
    exact .mapEach fun _ _ h => patchManifest_origin h

theorem rewriteWebhookURL_pointwise (spec : RewriteWebhookURLSpec) : (rewriteWebhookURL spec).Pointwise :=
  .mapEach fun _ _ h => rewriteManifest_origin h

theorem filterKinds_pointwise (spec : FilterKindsSpec) : (filterKinds spec).Pointwise :=
  .filter SameOrigin.refl _

theorem buildOne_pointwise {libs : TransformLibs} {s : TransformationSpec} {t : Transformation}
    (h : buildOne libs s = .ok t) : t.Pointwise := by
  rw [buildOne] at h
  split at h
  · cases h
    exact patch_pointwise libs _
  · cases h
    exact rewriteWebhookURL_pointwise _
  · cases h
    exact filterKinds_pointwise _
  · cases h

theorem build_pointwise {libs : TransformLibs} {specs : List TransformationSpec}
    {ts : List Transformation} (h : build libs specs = .ok ts) : ∀ t ∈ ts, t.Pointwise := by
  have hall := mapEach_eq_ok.mp h
  induction hall with
  | nil => simp
  | @cons s t specs ts hs hall ih =>
    intro t' ht
    rcases List.mem_cons.mp ht with rfl | ht
    · exact buildOne_pointwise hs
    · exact ih (mapEach_eq_ok.mpr hall) t' ht

/-- Transformations that work manifest by manifest do so one after another. -/
theorem transformEach_elementwise {ts : List Transformation} (h : ∀ t ∈ ts, t.Pointwise) :
    Elementwise SameOrigin fun ms => (transformEach ts ms).toOption := by
  induction ts with
  | nil => exact .id SameOrigin.refl
  | cons t ts ih =>
    obtain ⟨ht, hts⟩ := List.forall_mem_cons.mp h
    have hcons : (fun ms => (transformEach (t :: ts) ms).toOption) =
        fun ms => ((t.apply ms).toOption).bind fun ms => (transformEach ts ms).toOption := by
      funext ms
      rw [transformEach]
      cases t.apply ms <;> rfl
    rw [hcons]
    exact .comp SameOrigin.trans ht (ih hts)

end DDO.Impl

namespace DDO.Spec

open Impl

/-- **The pipeline is pointwise.** For every list of specs that `Build` accepts and
whatever the patch libraries and `path.Match` do: the transformations succeed on
a stream if and only if they do on its parts, and make of it what they make of
the parts; and of one manifest they make nothing or one with its origin. -/
theorem transformations_pointwise (libs : TransformLibs) (specs : List TransformationSpec)
    {ts : List Transformation} (h : build libs specs = .ok ts) :
    (∀ xs ys, (∃ zs, transformEach ts (xs ++ ys) = .ok zs) ↔
      (∃ xs', transformEach ts xs = .ok xs') ∧ ∃ ys', transformEach ts ys = .ok ys') ∧
    (∀ xs ys xs' ys', transformEach ts xs = .ok xs' → transformEach ts ys = .ok ys' →
      transformEach ts (xs ++ ys) = .ok (xs' ++ ys')) ∧
    ∀ m zs, transformEach ts [m] = .ok zs → zs = [] ∨ ∃ m', zs = [m'] ∧ m'.origin = m.origin := by
  have he := transformEach_elementwise (build_pointwise h)
  have happ : ∀ xs ys xs' ys', transformEach ts xs = .ok xs' → transformEach ts ys = .ok ys' →
      transformEach ts (xs ++ ys) = .ok (xs' ++ ys') := by
    intro xs ys xs' ys' hx hy
    have ha := he.append xs ys
    simp only [hx, hy] at ha
    exact toOption_eq_some.mp ha
  refine ⟨fun xs ys => ⟨?_, ?_⟩, happ, fun m zs hz => he.single m zs (toOption_eq_some.mpr hz)⟩
  · rintro ⟨zs, hz⟩
    have ha := (he.append xs ys).symm.trans (toOption_eq_some.mpr hz)
    obtain ⟨xs', hx, hm⟩ := Option.bind_eq_some_iff.mp ha
    obtain ⟨ys', hy, -⟩ := Option.map_eq_some_iff.mp hm
    exact ⟨⟨xs', toOption_eq_some.mp hx⟩, ys', toOption_eq_some.mp hy⟩
  · rintro ⟨⟨xs', hx⟩, ys', hy⟩
    exact ⟨_, happ xs ys xs' ys' hx hy⟩

/-- Names match literally, and a merge patch is put under `data`. -/
def dataLibs : TransformLibs where
  pathMatch pattern name := .ok (pattern = name)
  typedStructFor _ := false
  strategicMergePatch _ _ _ := .error (.text "no such type")
  mergePatch m patch := .ok (.obj (m.insert "data" patch))
  jsonPatch _ _ := .error (.text "no operation")
  unmarshalJSON
    | .obj m => .ok m
    | _ => .error (.text "not an object")

/-- A patch of the config maps, a rewrite of webhooks and a filter of Secrets. -/
def sampleTransformations : List TransformationSpec :=
  [⟨some ⟨⟨"ConfigMap", "", ""⟩, some (.obj [("debug", .str "on")]), []⟩, none, none⟩,
    ⟨none, some ⟨"https://webhooks"⟩, none⟩, ⟨none, none, some ⟨["Secret"], ""⟩⟩]

def sampleTransforms : List Transformation :=
  [patch dataLibs ⟨⟨"ConfigMap", "", ""⟩, some (.obj [("debug", .str "on")]), []⟩,
    rewriteWebhookURL ⟨"https://webhooks"⟩, filterKinds ⟨["Secret"], ""⟩]

theorem transformations_pointwise_sample :
    transformEach sampleTransforms ([bare "v1" "Secret" "garden" "access"] ++
        [bare "v1" "ConfigMap" "garden" "config"]) =
      .ok ([] ++ [⟨⟨(bare "v1" "ConfigMap" "garden" "config").unstructured.object.insert "data"
        (.obj [("debug", .str "on")])⟩, .unset⟩]) :=
  (transformations_pointwise dataLibs sampleTransformations rfl).2.1 _ _ _ _ (by rfl) (by rfl)

end DDO.Spec
