import DualDeployment.Impl.Applier
import DualDeployment.Proof.WebhookURL

/-!
# CA bundles

`prepareForApply` removes `caBundle` from the client configs of webhooks and of
conversions, and touches nothing else (`prepareForApply_edited`). The removal
commutes with the rewriting of a client config (`rewriteClientConfig_erase`), and
so with `rewriteWebhookURL` on lists of webhooks (`ListRewritten.strip`), on
conversions (`ConversionRewritten.strip`) and on whole streams.
-/

namespace DDO.Impl

/-- What becomes of a client config. -/
def stripConfig : Json → Json := JsonMap.mapObj (JsonMap.erase "caBundle")

theorem stripConfig_below (v : Json) (q : JsonPath) : (stripConfig v).look (.key "caBundle" :: q) = none := by
  cases v with
  | obj cc => exact JsonMap.look_erase_below "caBundle" cc ⟨q, rfl⟩
  | _ => rfl

theorem stripConfig_off (v : Json) {q : JsonPath} (hq : ¬ [JsonStep.key "caBundle"] <+: q) :
    (stripConfig v).look q = v.look q := by
  cases v with
  | obj cc => exact JsonMap.look_erase_off cc hq
  | _ => rfl

/-! ## Webhooks -/

theorem stripCABundleFromWebhook_obj (wh : JsonMap) :
    stripCABundleFromWebhook (.obj wh) =
      .obj (wh.modifyNested (JsonMap.erase "caBundle") ["clientConfig"]) :=
  congrArg Json.obj (JsonMap.removeNested_append ["clientConfig"] "caBundle" wh)

theorem stripCABundleFromWebhook_edited (wh : Json) :
    EditedAt (· = keys ["clientConfig"]) stripConfig wh (stripCABundleFromWebhook wh) := by
  cases wh with
  | obj wh =>
    rw [stripCABundleFromWebhook_obj]
    exact .modifyNested _ _ wh
  | _ =>
    refine .same ?_
    rintro loc rfl v hv
    cases hv

theorem stripCABundleFromWebhook_idem (wh : Json) :
    stripCABundleFromWebhook (stripCABundleFromWebhook wh) = stripCABundleFromWebhook wh := by
  cases wh with
  | obj wh =>
    rw [stripCABundleFromWebhook_obj, stripCABundleFromWebhook_obj, JsonMap.modifyNested_modifyNested]
    exact congrArg Json.obj (JsonMap.modifyNested_congr fun cc _ => JsonMap.erase_erase "caBundle" cc)
  | _ => rfl

section

variable {u : Unstructured}

theorem stripCABundleFromWebhooks_list {whs : List Json}
    (hg : u.object.get? "webhooks" = some (.arr whs)) :
    stripCABundleFromWebhooks u =
      ⟨u.object.insert "webhooks" (.arr (whs.map stripCABundleFromWebhook))⟩ := by
  rw [stripCABundleFromWebhooks, JsonMap.nestedSlice_singleton, hg]
  rfl

theorem stripCABundleFromWebhooks_other (hg : ∀ whs, u.object.get? "webhooks" ≠ some (.arr whs)) :
    stripCABundleFromWebhooks u = u := by
  rw [stripCABundleFromWebhooks, JsonMap.nestedSlice_singleton]
  cases h : u.object.get? "webhooks" with
  | none => rfl
  | some v =>
    cases v with
    | arr whs => exact absurd h (hg whs)
    | _ => rfl

theorem stripCABundleFromCRDConversion_eq (u : Unstructured) :
    stripCABundleFromCRDConversion u =
      ⟨u.object.modifyNested (JsonMap.erase "caBundle") conversionConfig⟩ :=
  congrArg Unstructured.mk (JsonMap.removeNested_append conversionConfig "caBundle" u.object)

/-! ## Objects -/

theorem stripCABundleFromWebhooks_edited (hk : WebhookConfiguration u.getKind) :
    EditedAt (ConfigPlace u.getKind) stripConfig (.obj u.object)
      (.obj (stripCABundleFromWebhooks u).object) := by
  refine .of_iff ?_ (configPlace_webhooks hk)
  by_cases hg : ∃ whs, u.object.get? "webhooks" = some (.arr whs)
  · obtain ⟨whs, hg⟩ := hg
    rw [stripCABundleFromWebhooks_list hg]
    exact .elements hg stripCABundleFromWebhook_edited
  · rw [stripCABundleFromWebhooks_other fun whs h => hg ⟨whs, h⟩]
    refine .same ?_
    rintro loc ⟨i, _, rfl, rfl⟩ v hv
    rw [Json.at?_key] at hv
    obtain ⟨w, hw, hv⟩ := Option.bind_eq_some_iff.mp hv
    cases w with
    | arr whs => exact absurd ⟨whs, hw⟩ hg
    | _ => cases hv

/-- `caBundle` is removed from the client configs, and nothing else is touched. -/
theorem prepareForApply_edited (u : Unstructured) :
    EditedAt (ConfigPlace u.getKind) stripConfig (.obj u.object) (.obj (prepareForApply u).object) := by
  rw [prepareForApply]
  split_ifs with hw hc
  · exact stripCABundleFromWebhooks_edited hw
  · rw [stripCABundleFromCRDConversion_eq]
    exact .of_iff (.modifyNested _ conversionConfig u.object) fun loc =>
      (configPlace_conversion hw loc).trans (and_iff_right hc)
  · exact .same fun loc hl => absurd ((configPlace_conversion hw loc).mp hl).1 hc

theorem stripCABundleFromWebhooks_idem (u : Unstructured) :
    stripCABundleFromWebhooks (stripCABundleFromWebhooks u) = stripCABundleFromWebhooks u := by
  by_cases hg : ∃ whs, u.object.get? "webhooks" = some (.arr whs)
  · obtain ⟨whs, hg⟩ := hg
    have hidem : stripCABundleFromWebhook ∘ stripCABundleFromWebhook = stripCABundleFromWebhook :=
      funext stripCABundleFromWebhook_idem
    rw [stripCABundleFromWebhooks_list hg,
      stripCABundleFromWebhooks_list (JsonMap.get?_insert_self _ _ _), JsonMap.insert_insert,
      List.map_map, hidem]
  · have hs := stripCABundleFromWebhooks_other fun whs h => hg ⟨whs, h⟩
    rw [hs, hs]

theorem stripCABundleFromCRDConversion_idem (u : Unstructured) :
    stripCABundleFromCRDConversion (stripCABundleFromCRDConversion u) =
      stripCABundleFromCRDConversion u := by
  rw [stripCABundleFromCRDConversion_eq, stripCABundleFromCRDConversion_eq,
    JsonMap.modifyNested_modifyNested]
  exact congrArg Unstructured.mk
    (JsonMap.modifyNested_congr fun cc _ => JsonMap.erase_erase "caBundle" cc)

theorem prepareForApply_idem (u : Unstructured) :
    prepareForApply (prepareForApply u) = prepareForApply u := by
  have hk := (prepareForApply_identity u).kind
  rw [prepareForApply, hk]
  split_ifs with hw hc
  · rw [prepareForApply, if_pos hw, stripCABundleFromWebhooks_idem]
  · rw [prepareForApply, if_neg hw, if_pos hc, stripCABundleFromCRDConversion_idem]
  · rfl

end

/-! ## Together with the rewriting -/

namespace RewriteWebhookURLSpec

variable {spec : RewriteWebhookURLSpec} {u v : Unstructured}

theorem rewriteClientConfig_erase (cc : JsonMap) :
    spec.rewriteClientConfig (cc.erase "caBundle") =
      (spec.rewriteClientConfig cc).map (JsonMap.erase "caBundle") := by
  have hu : (cc.erase "caBundle").get? "url" = cc.get? "url" := JsonMap.get?_erase_of_ne (by decide) _
  have hs : (cc.erase "caBundle").get? "service" = cc.get? "service" :=
    JsonMap.get?_erase_of_ne (by decide) _
  cases h : spec.rewriteClientConfig cc with
  | none =>
    refine rewriteClientConfig_eq_none.mpr fun svc hsvc => ?_
    exact rewriteClientConfig_eq_none.mp h svc ⟨hs ▸ hsvc.1, hu ▸ hsvc.2⟩
  | some cc' =>
    obtain ⟨svc, hsvc, rfl⟩ := rewriteClientConfig_eq_some.mp h
    refine rewriteClientConfig_eq_some.mpr ⟨svc, ⟨hs.trans hsvc.1, hu.trans hsvc.2⟩, ?_⟩
    rw [serviceless, JsonMap.erase_comm, JsonMap.erase_insert (by decide), ← serviceless]

theorem rewriteWebhook_strip (wh : Json) :
    spec.rewriteWebhook (stripCABundleFromWebhook wh) =
      (spec.rewriteWebhook wh).map stripCABundleFromWebhook := by
  cases wh with
  | obj wh =>
    rw [stripCABundleFromWebhook_obj, JsonMap.modifyNested]
    cases hc : JsonMap.get? wh "clientConfig" with
    | none => simp only [rewriteWebhook, hc, Option.map_none]
    | some v =>
      cases v with
      | obj cc =>
        simp only [JsonMap.modifyNested, rewriteWebhook, JsonMap.get?_insert_self, hc,
          rewriteClientConfig_erase, Option.map_map]
        refine congrArg (Option.map · _) (funext fun cc' => ?_)
        simp only [Function.comp_apply, JsonMap.insert_insert, stripCABundleFromWebhook_obj,
          JsonMap.modifyNested, JsonMap.get?_insert_self]
      | _ => simp only [rewriteWebhook, hc, Option.map_none]
  | _ => rfl

theorem ListRewritten.strip (h : ListRewritten spec u v) :
    ListRewritten spec (stripCABundleFromWebhooks u) (stripCABundleFromWebhooks v) := by
  cases h with
  | absent hg =>
    rw [stripCABundleFromWebhooks_other fun whs h => by cases hg.symm.trans h]
    exact .absent hg
  | kept whs hg hw =>
    rw [stripCABundleFromWebhooks_list hg]
    refine .kept _ (JsonMap.get?_insert_self _ _ _) fun wh hwh => ?_
    obtain ⟨wh₁, h₁, rfl⟩ := List.mem_map.mp hwh
    rw [rewriteWebhook_strip, hw wh₁ h₁, Option.map_none]
  | edited whs hg hw =>
    obtain ⟨wh, hwh, hs⟩ := hw
    have hany : ∃ wh ∈ whs.map stripCABundleFromWebhook, (spec.rewriteWebhook wh).isSome :=
      ⟨_, List.mem_map_of_mem hwh, by rw [rewriteWebhook_strip, Option.isSome_map, hs]⟩
    have hcomm : stripCABundleFromWebhook ∘ (fun wh => (spec.rewriteWebhook wh).getD wh) =
        (fun wh => (spec.rewriteWebhook wh).getD wh) ∘ stripCABundleFromWebhook := by
      funext wh
      rw [Function.comp_apply, Function.comp_apply, rewriteWebhook_strip, Option.getD_map]
    have hstrip := stripCABundleFromWebhooks_list hg
    have hnew := ListRewritten.edited (u := stripCABundleFromWebhooks u) _
      (by rw [hstrip, JsonMap.get?_insert_self]) hany
    rw [hstrip, JsonMap.insert_insert, List.map_map, ← hcomm] at hnew
    rwa [hstrip, stripCABundleFromWebhooks_list (JsonMap.get?_insert_self _ _ _),
      JsonMap.insert_insert, List.map_map]

theorem ConversionRewritten.strip (h : ConversionRewritten spec u v) :
    ConversionRewritten spec (stripCABundleFromCRDConversion u) (stripCABundleFromCRDConversion v) := by
  have hstrategy : (stripCABundleFromCRDConversion u).object.nestedString webhookStrategy =
      u.object.nestedString webhookStrategy := JsonMap.nestedString_removeNested (by decide) _
  have hfound : ∀ {cc}, u.object.nestedMap conversionConfig = .found cc →
      (stripCABundleFromCRDConversion u).object.nestedMap conversionConfig =
        .found (cc.erase "caBundle") := by
    intro cc hc
    rw [stripCABundleFromCRDConversion_eq]
    exact JsonMap.nestedMap_modifyNested_found hc _
  cases h with
  | absent hs => exact .absent (hstrategy.trans hs)
  | other s hs hw => exact .other s (hstrategy.trans hs) hw
  | missing hs hc =>
    refine .missing (hstrategy.trans hs) ?_
    rw [stripCABundleFromCRDConversion_eq]
    exact JsonMap.nestedMap_eq_missing.mpr
      (JsonMap.nested_modifyNested_missing (JsonMap.nestedMap_eq_missing.mp hc) _)
  | kept cc hs hc hcc =>
    refine .kept _ (hstrategy.trans hs) (hfound hc) ?_
    rw [rewriteClientConfig_erase, hcc, Option.map_none]
  | edited cc cc' hs hc hcc =>
    have hcc' : spec.rewriteClientConfig (cc.erase "caBundle") = some (cc'.erase "caBundle") := by
      rw [rewriteClientConfig_erase, hcc, Option.map_some]
    have hnew := ConversionRewritten.edited _ _ (hstrategy.trans hs) (hfound hc) hcc'
    rw [stripCABundleFromCRDConversion_eq u, JsonMap.modifyNested_modifyNested] at hnew
    rw [stripCABundleFromCRDConversion_eq u, stripCABundleFromCRDConversion_eq,
      JsonMap.modifyNested_modifyNested]
    exact hnew

theorem rewrite_prepareForApply (h : spec.rewrite u = .ok v) :
    spec.rewrite (prepareForApply u) = .ok (prepareForApply v) := by
  have hk := rewrite_kind h
  have hk' := (prepareForApply_identity u).kind
  rw [rewrite] at h
  rw [rewrite, hk', prepareForApply, prepareForApply, hk]
  split_ifs at h ⊢
  · exact rewriteWebhookList_eq_ok.mpr (rewriteWebhookList_eq_ok.mp h).strip
  · exact rewriteConversion_eq_ok.mpr (rewriteConversion_eq_ok.mp h).strip
  · exact h

end RewriteWebhookURLSpec

/-- The manifest with its object prepared. -/
def Manifest.prepared (m : Manifest) : Manifest := ⟨prepareForApply m.unstructured, m.origin⟩

end DDO.Impl

namespace DDO.Spec

open Impl RewriteWebhookURLSpec

/-- **Only CA bundles are removed.** For every object, `prepareForApply` removes the
`caBundle` of each client config and leaves every other path as it was; a second
time it changes nothing; and it can be done before or after the rewriting of any
stream that is rewritten. -/
theorem prepareForApply_exact (u : Unstructured) :
    (∀ loc q, ConfigPlace u.getKind loc →
      (prepareForApply u).look (loc ++ .key "caBundle" :: q) = none) ∧
    (∀ q, (∀ loc, ConfigPlace u.getKind loc → ¬ loc ++ [.key "caBundle"] <+: q) →
      (prepareForApply u).look q = u.look q) ∧
    prepareForApply (prepareForApply u) = prepareForApply u ∧
    ∀ spec ms ms', (rewriteWebhookURL spec).apply ms = .ok ms' →
      (rewriteWebhookURL spec).apply (ms.map Manifest.prepared) = .ok (ms'.map Manifest.prepared) := by
  have he := prepareForApply_edited u
  refine ⟨fun loc q hl => ?_, fun q hq => ?_, prepareForApply_idem u, fun spec ms ms' h => ?_⟩
  · rw [Unstructured.look, he.below hl]
    cases (Json.obj u.object).at? loc with
    | none => rfl
    | some v => exact stripConfig_below v q
  · by_cases hp : ∃ loc, ConfigPlace u.getKind loc ∧ loc <+: q
    · obtain ⟨loc, hl, r, rfl⟩ := hp
      rw [Unstructured.look, he.below hl, Unstructured.look, Json.look_append]
      refine congrArg (Option.bind _) (funext fun v => stripConfig_off v fun hr => ?_)
      exact hq loc hl ((List.prefix_append_right_inj loc).mpr hr)
    · exact he.off q fun loc hl hpre => hp ⟨loc, hl, hpre⟩
  · refine mapEach_eq_ok.mpr ?_
    have hall := mapEach_eq_ok.mp h
    rw [List.forall₂_map_left_iff, List.forall₂_map_right_iff]
    refine hall.imp fun m m' hm => ?_
    obtain ⟨ho, hr⟩ := rewriteManifest_eq_ok.mp hm
    exact rewriteManifest_eq_ok.mpr ⟨ho, rewrite_prepareForApply hr⟩

end DDO.Spec
