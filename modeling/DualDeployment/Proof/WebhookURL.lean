import DualDeployment.Framework.JsonPath
import DualDeployment.Impl.Transform

/-!
# Webhook URLs

`rewriteWebhookURL` edits the client configs of the webhooks it knows of
(`ClientConfigAt`) and nothing else (`rewrite_edited`). A config that refers to
a service (`ServiceConfig`) gets the URL in its place, and any other one stays
(`rewriteClientConfig_eq_some`); so a rewritten object has nothing left to
rewrite (`rewrite_rewrite`), whatever the prefix (`rewriteWebhookURL_exact`).
-/

namespace DDO.Impl

/-- The object's tree at a path. -/
def Unstructured.at? (u : Unstructured) (p : JsonPath) : Option Json := (Json.obj u.object).at? p

/-- What stands at a path of the object. -/
def Unstructured.look (u : Unstructured) (p : JsonPath) : Option JsonNode := (Json.obj u.object).look p

/-- Objects of this kind register admission webhooks. -/
def WebhookConfiguration (kind : String) : Prop :=
  kind = "ValidatingWebhookConfiguration" ∨ kind = "MutatingWebhookConfiguration"

instance : DecidablePred WebhookConfiguration := fun _ => inferInstanceAs (Decidable (_ ∨ _))

abbrev webhookStrategy : List String := ["spec", "conversion", "strategy"]

abbrev conversionConfig : List String := ["spec", "conversion", "webhook", "clientConfig"]

/-- Where objects of a kind have client configs. -/
inductive ConfigPlace (kind : String) : JsonPath → Prop where
  | webhook (i : Nat) (h : WebhookConfiguration kind) :
    ConfigPlace kind [.key "webhooks", .idx i, .key "clientConfig"]
  | conversion (h : kind = "CustomResourceDefinition") : ConfigPlace kind (keys conversionConfig)

/-- The object has a client config there that is rewritten. -/
def ClientConfigAt (u : Unstructured) (loc : JsonPath) : Prop :=
  ConfigPlace u.getKind loc ∧ (u.getKind = "CustomResourceDefinition" →
    u.at? (keys webhookStrategy) = some (.str "Webhook"))

/-- The client config refers to a service and has no URL. -/
def ServiceConfig (cc svc : JsonMap) : Prop :=
  cc.get? "service" = some (.obj svc) ∧ cc.get? "url" = none

/-- The service's path; nothing if it is absent or not a string. -/
def servicePath (svc : JsonMap) : String :=
  match svc.get? "path" with
  | some (.str s) => s
  | _ => ""

/-- The object has a client config there that refers to a service. -/
def ServiceAt (u : Unstructured) (loc : JsonPath) (svc : JsonMap) : Prop :=
  ClientConfigAt u loc ∧ ∃ cc, u.at? loc = some (.obj cc) ∧ ServiceConfig cc svc

/-- `v` is `u` with each reference to a service replaced by a URL with the prefix. -/
structure Rewritten (urlPrefix : String) (u v : Unstructured) : Prop where
  url : ∀ loc svc, ServiceAt u loc svc →
    v.at? (loc ++ [.key "url"]) = some (.str (urlPrefix ++ servicePath svc))
  service : ∀ loc svc, ServiceAt u loc svc → v.at? (loc ++ [.key "service"]) = none
  others : ∀ q, (∀ loc svc, ServiceAt u loc svc →
    ¬ loc ++ [.key "url"] <+: q ∧ ¬ loc ++ [.key "service"] <+: q) → v.look q = u.look q

theorem configPlace_webhooks {kind : String} (hk : WebhookConfiguration kind) (loc : JsonPath) :
    ConfigPlace kind loc ↔
      ∃ i loc', loc = .key "webhooks" :: .idx i :: loc' ∧ loc' = keys ["clientConfig"] := by
  constructor
  · intro h
    cases h with
    | webhook i _ => exact ⟨i, _, rfl, rfl⟩
    | conversion h =>
      rw [h] at hk
      exact absurd hk (by decide)
  · rintro ⟨i, _, rfl, rfl⟩
    exact .webhook i hk

theorem configPlace_conversion {kind : String} (hk : ¬ WebhookConfiguration kind) (loc : JsonPath) :
    ConfigPlace kind loc ↔ kind = "CustomResourceDefinition" ∧ loc = keys conversionConfig := by
  constructor
  · intro h
    cases h with
    | webhook i h => exact absurd h hk
    | conversion h => exact ⟨h, rfl⟩
  · rintro ⟨h, rfl⟩
    exact .conversion h

namespace RewriteWebhookURLSpec

variable {spec spec' : RewriteWebhookURLSpec} {u v : Unstructured}

/-! ## Client configs -/

/-- The config with the URL instead of the service. -/
def serviceless (spec : RewriteWebhookURLSpec) (cc svc : JsonMap) : JsonMap :=
  (cc.insert "url" (.str (spec.urlPrefix ++ servicePath svc))).erase "service"

/-- Exactly the configs that refer to a service are rewritten. -/
theorem rewriteClientConfig_eq_some {cc cc' : JsonMap} :
    spec.rewriteClientConfig cc = some cc' ↔
      ∃ svc, ServiceConfig cc svc ∧ cc' = spec.serviceless cc svc := by
  rw [rewriteClientConfig]
  cases hu : cc.get? "url" with
  | some v => exact iff_of_false (fun h => by cases h) (fun ⟨_, h, _⟩ => by cases hu.symm.trans h.2)
  | none =>
    cases hs : cc.get? "service" with
    | none => exact iff_of_false (fun h => by cases h) (fun ⟨_, h, _⟩ => by cases hs.symm.trans h.1)
    | some v =>
      cases v with
      | obj svc =>
        constructor
        · intro h
          exact ⟨svc, ⟨hs, hu⟩, (Option.some.inj h).symm⟩
        · rintro ⟨svc', h, rfl⟩
          cases hs.symm.trans h.1
          rfl
      | _ => exact iff_of_false (fun h => by cases h) (fun ⟨_, h, _⟩ => by cases hs.symm.trans h.1)

theorem rewriteClientConfig_eq_none {cc : JsonMap} :
    spec.rewriteClientConfig cc = none ↔ ∀ svc, ¬ ServiceConfig cc svc := by
  rw [Option.eq_none_iff_forall_ne_some]
  constructor
  · exact fun h svc hs => h _ (rewriteClientConfig_eq_some.mpr ⟨svc, hs, rfl⟩)
  · intro h cc' hcc
    obtain ⟨svc, hs, -⟩ := rewriteClientConfig_eq_some.mp hcc
    exact h svc hs

theorem serviceless_url (cc svc : JsonMap) :
    (spec.serviceless cc svc).get? "url" = some (.str (spec.urlPrefix ++ servicePath svc)) := by
  rw [serviceless, JsonMap.get?_erase_of_ne (by decide), JsonMap.get?_insert_self]

theorem serviceless_service (cc svc : JsonMap) : (spec.serviceless cc svc).get? "service" = none :=
  JsonMap.get?_erase_self _ _

theorem serviceless_off (cc svc : JsonMap) {q : JsonPath} (hu : ¬ [JsonStep.key "url"] <+: q)
    (hs : ¬ [JsonStep.key "service"] <+: q) :
    (Json.obj (spec.serviceless cc svc)).look q = (Json.obj cc).look q := by
  rw [serviceless, JsonMap.look_erase_off _ hs, JsonMap.look_insert_off _ _ hu]

/-- A rewritten config is not rewritten again. -/
theorem rewriteClientConfig_serviceless (cc svc : JsonMap) :
    spec'.rewriteClientConfig (spec.serviceless cc svc) = none := by
  rw [rewriteClientConfig_eq_none]
  rintro svc' ⟨hs, -⟩
  cases (serviceless_service cc svc).symm.trans hs

/-- What becomes of a config. -/
def editConfig (spec : RewriteWebhookURLSpec) (cc : JsonMap) : JsonMap :=
  (spec.rewriteClientConfig cc).getD cc

def edit (spec : RewriteWebhookURLSpec) : Json → Json := JsonMap.mapObj spec.editConfig

theorem editConfig_of_service {cc svc : JsonMap} (h : ServiceConfig cc svc) :
    spec.editConfig cc = spec.serviceless cc svc := by
  rw [editConfig, rewriteClientConfig_eq_some.mpr ⟨svc, h, rfl⟩, Option.getD_some]

theorem edit_of_service {cc svc : JsonMap} (h : ServiceConfig cc svc) :
    spec.edit (.obj cc) = .obj (spec.serviceless cc svc) := by
  rw [edit, JsonMap.mapObj, editConfig_of_service h]

theorem edit_of_not_service {v : Json} (h : ∀ cc svc, v = .obj cc → ¬ ServiceConfig cc svc) :
    spec.edit v = v := by
  cases v with
  | obj cc =>
    rw [edit, JsonMap.mapObj, editConfig, rewriteClientConfig_eq_none.mpr fun svc => h cc svc rfl,
      Option.getD_none]
  | _ => rfl

/-! ## Webhooks -/

theorem rewriteWebhook_eq_some {wh wh' : Json} :
    spec.rewriteWebhook wh = some wh' ↔
      ∃ m cc cc' : JsonMap, wh = .obj m ∧ m.get? "clientConfig" = some (.obj cc) ∧
        spec.rewriteClientConfig cc = some cc' ∧ wh' = .obj (m.insert "clientConfig" (.obj cc')) := by
  constructor
  · intro h
    rw [rewriteWebhook.eq_def] at h
    split at h
    · rename_i m
      split at h
      · rename_i cc hc
        obtain ⟨cc', hcc, rfl⟩ := Option.map_eq_some_iff.mp h
        exact ⟨m, cc, cc', rfl, hc, hcc, rfl⟩
      · cases h
    · cases h
  · rintro ⟨m, cc, cc', rfl, hc, hcc, rfl⟩
    rw [rewriteWebhook]
    simp only [hc, hcc, Option.map_some]

theorem rewriteWebhook_edited (spec : RewriteWebhookURLSpec) (wh : Json) :
    EditedAt (· = keys ["clientConfig"]) spec.edit wh ((spec.rewriteWebhook wh).getD wh) := by
  cases h : spec.rewriteWebhook wh with
  | none =>
    refine .same ?_
    rintro loc rfl v hv
    refine edit_of_not_service ?_
    rintro cc svc rfl hs
    -- a config that refers to a service would have been rewritten
    cases wh with
    | obj m =>
      obtain ⟨w, hc, hw⟩ := Option.bind_eq_some_iff.mp hv
      cases (Json.at?_nil w).symm.trans hw
      cases h.symm.trans (rewriteWebhook_eq_some.mpr
        ⟨m, cc, _, rfl, hc, rewriteClientConfig_eq_some.mpr ⟨svc, hs, rfl⟩, rfl⟩)
    | _ => cases hv
  | some wh' =>
    obtain ⟨m, cc, cc', rfl, hc, hcc, rfl⟩ := rewriteWebhook_eq_some.mp h
    have hm : m.insert "clientConfig" (.obj cc') = m.modifyNested spec.editConfig ["clientConfig"] := by
      simp only [JsonMap.modifyNested, editConfig, hc, hcc, Option.getD_some]
    rw [Option.getD_some, hm]
    exact .modifyNested _ _ m

/-- A rewritten webhook is not rewritten again, and no other one would be. -/
theorem rewriteWebhook_getD (spec spec' : RewriteWebhookURLSpec) (wh : Json) :
    spec'.rewriteWebhook ((spec.rewriteWebhook wh).getD wh) = none := by
  rw [Option.eq_none_iff_forall_ne_some]
  intro wh' h'
  cases h : spec.rewriteWebhook wh with
  | none =>
    rw [h, Option.getD_none] at h'
    obtain ⟨m, cc, cc', rfl, hc, hcc, -⟩ := rewriteWebhook_eq_some.mp h'
    obtain ⟨svc, hs, -⟩ := rewriteClientConfig_eq_some.mp hcc
    cases h.symm.trans (rewriteWebhook_eq_some.mpr
      ⟨m, cc, _, rfl, hc, rewriteClientConfig_eq_some.mpr ⟨svc, hs, rfl⟩, rfl⟩)
  | some wh₁ =>
    obtain ⟨m, cc, cc₁, rfl, hc, hcc, rfl⟩ := rewriteWebhook_eq_some.mp h
    obtain ⟨svc, hs, rfl⟩ := rewriteClientConfig_eq_some.mp hcc
    rw [h, Option.getD_some] at h'
    obtain ⟨m', cc', cc'', hm, hc', hcc', -⟩ := rewriteWebhook_eq_some.mp h'
    cases hm
    rw [JsonMap.get?_insert_self] at hc'
    cases hc'
    cases (rewriteClientConfig_serviceless cc svc).symm.trans hcc'

/-! ## Objects -/

/-- What `rewriteWebhookList` makes of an object. -/
inductive ListRewritten (spec : RewriteWebhookURLSpec) (u : Unstructured) : Unstructured → Prop where
  | absent (hg : u.object.get? "webhooks" = none) : ListRewritten spec u u
  | kept (whs : List Json) (hg : u.object.get? "webhooks" = some (.arr whs))
      (hw : ∀ wh ∈ whs, spec.rewriteWebhook wh = none) : ListRewritten spec u u
  | edited (whs : List Json) (hg : u.object.get? "webhooks" = some (.arr whs))
      (hw : ∃ wh ∈ whs, (spec.rewriteWebhook wh).isSome) :
    ListRewritten spec u
      ⟨u.object.insert "webhooks" (.arr (whs.map fun wh => (spec.rewriteWebhook wh).getD wh))⟩

/-- What `rewriteConversion` makes of an object. -/
inductive ConversionRewritten (spec : RewriteWebhookURLSpec) (u : Unstructured) : Unstructured → Prop where
  | absent (hs : u.object.nestedString webhookStrategy = .missing) : ConversionRewritten spec u u
  | other (s : String) (hs : u.object.nestedString webhookStrategy = .found s) (hw : s ≠ "Webhook") :
    ConversionRewritten spec u u
  | missing (hs : u.object.nestedString webhookStrategy = .found "Webhook")
      (hc : u.object.nestedMap conversionConfig = .missing) : ConversionRewritten spec u u
  | kept (cc : JsonMap) (hs : u.object.nestedString webhookStrategy = .found "Webhook")
      (hc : u.object.nestedMap conversionConfig = .found cc)
      (hcc : spec.rewriteClientConfig cc = none) : ConversionRewritten spec u u
  | edited (cc cc' : JsonMap) (hs : u.object.nestedString webhookStrategy = .found "Webhook")
      (hc : u.object.nestedMap conversionConfig = .found cc)
      (hcc : spec.rewriteClientConfig cc = some cc') :
    ConversionRewritten spec u ⟨u.object.modifyNested (fun _ => cc') conversionConfig⟩

theorem rewriteWebhookList_eq_ok : spec.rewriteWebhookList u = .ok v ↔ ListRewritten spec u v := by
  rw [rewriteWebhookList, JsonMap.nestedSlice_singleton]
  constructor
  · intro h
    cases hg : u.object.get? "webhooks" with
    | none =>
      rw [hg] at h
      cases h
      exact .absent hg
    | some w =>
      rw [hg] at h
      cases w with
      | arr whs =>
        simp only at h
        split_ifs at h with hany
        · cases h
          obtain ⟨wh, hwh, hs⟩ := List.any_eq_true.mp hany
          exact .edited whs hg ⟨wh, hwh, hs⟩
        · cases h
          refine .kept whs hg fun wh hwh => ?_
          rw [← Option.not_isSome_iff_eq_none]
          exact fun hs => hany (List.any_eq_true.mpr ⟨wh, hwh, hs⟩)
      | _ => cases h
  · intro h
    cases h with
    | absent hg => rw [hg]
    | kept whs hg hw =>
      have hany : ¬ (whs.any fun wh => (spec.rewriteWebhook wh).isSome) = true := by
        rw [List.any_eq_true]
        rintro ⟨wh, hwh, hs⟩
        rw [hw wh hwh] at hs
        cases hs
      simp only [hg, if_neg hany]
    | edited whs hg hw =>
      have hany : (whs.any fun wh => (spec.rewriteWebhook wh).isSome) = true := List.any_eq_true.mpr hw
      simp only [hg, if_pos hany]
      rfl

theorem setNestedField_config {cc : JsonMap} (hc : u.object.nestedMap conversionConfig = .found cc)
    (cc' : JsonMap) : u.setNestedField (.obj cc') conversionConfig =
      ⟨u.object.modifyNested (fun _ => cc') conversionConfig⟩ := by
  rw [Unstructured.setNestedField,
    JsonMap.setNested_eq_modifyNested (by simp) (JsonMap.nestedMap_eq_found.mp hc), Option.getD_some]

theorem rewriteConversion_eq_ok : spec.rewriteConversion u = .ok v ↔ ConversionRewritten spec u v := by
  constructor
  · intro h
    simp only [rewriteConversion] at h
    cases hs : u.object.nestedString webhookStrategy with
    | mistyped =>
      rw [hs] at h
      cases h
    | missing =>
      rw [hs] at h
      cases h
      exact .absent hs
    | found s =>
      simp only [hs] at h
      split_ifs at h with hw
      · cases h
        exact .other s hs hw
      · obtain rfl := not_not.mp hw
        cases hc : u.object.nestedMap conversionConfig with
        | mistyped =>
          rw [hc] at h
          cases h
        | missing =>
          rw [hc] at h
          cases h
          exact .missing hs hc
        | found cc =>
          simp only [hc] at h
          cases hcc : spec.rewriteClientConfig cc with
          | none =>
            rw [hcc] at h
            cases h
            exact .kept cc hs hc hcc
          | some cc' =>
            simp only [hcc, setNestedField_config hc] at h
            cases h
            exact .edited cc cc' hs hc hcc
  · intro h
    rw [rewriteConversion]
    cases h with
    | absent hs => simp only [hs]
    | other s hs hw => simp only [hs, ne_eq, hw, not_false_eq_true, if_true]
    | missing hs hc => simp only [hs, hc, ne_eq, not_true_eq_false, if_false]
    | kept cc hs hc hcc => simp only [hs, hc, hcc, ne_eq, not_true_eq_false, if_false]
    | edited cc cc' hs hc hcc =>
      simp only [hs, hc, hcc, ne_eq, not_true_eq_false, if_false, setNestedField_config hc]

theorem clientConfigAt_webhooks (hk : WebhookConfiguration u.getKind) (loc : JsonPath) :
    ClientConfigAt u loc ↔
      ∃ i loc', loc = .key "webhooks" :: .idx i :: loc' ∧ loc' = keys ["clientConfig"] := by
  refine Iff.trans (and_iff_left fun hc => ?_) (configPlace_webhooks hk loc)
  rw [hc] at hk
  exact absurd hk (by decide)

theorem clientConfigAt_conversion (hk : u.getKind = "CustomResourceDefinition") (loc : JsonPath) :
    ClientConfigAt u loc ↔
      u.at? (keys webhookStrategy) = some (.str "Webhook") ∧ loc = keys conversionConfig := by
  rw [ClientConfigAt, configPlace_conversion (by rw [hk]; decide), and_comm]
  exact and_congr (forall_prop_of_true hk) (and_iff_right hk)

theorem ListRewritten.editedAt (h : ListRewritten spec u v) (hk : WebhookConfiguration u.getKind) :
    EditedAt (ClientConfigAt u) spec.edit (.obj u.object) (.obj v.object) := by
  refine .of_iff ?_ (clientConfigAt_webhooks hk)
  cases h with
  | absent hg =>
    refine .same ?_
    rintro loc ⟨i, _, rfl, rfl⟩ w hw
    rw [Json.at?_key, hg] at hw
    cases hw
  | kept whs hg hnone =>
    refine .same ?_
    rintro loc ⟨i, _, rfl, rfl⟩ w hw
    rw [Json.at?_key, hg, Option.bind_some, Json.at?_idx] at hw
    obtain ⟨wh, hi, hw⟩ := Option.bind_eq_some_iff.mp hw
    have he := rewriteWebhook_edited spec wh
    rw [hnone wh (List.mem_of_getElem? hi), Option.getD_none] at he
    exact he.fixed rfl hw
  | edited whs hg _ => exact .elements hg (rewriteWebhook_edited spec)

theorem ConversionRewritten.editedAt (h : ConversionRewritten spec u v)
    (hk : u.getKind = "CustomResourceDefinition") :
    EditedAt (ClientConfigAt u) spec.edit (.obj u.object) (.obj v.object) := by
  have hplace := clientConfigAt_conversion hk
  have hstrategy : ∀ {loc}, ClientConfigAt u loc →
      u.object.nestedString webhookStrategy = .found "Webhook" :=
    fun hl => JsonMap.nestedString_eq_found.mpr ((hplace _).mp hl).1
  cases h with
  | absent hs => exact .same fun loc hl => by cases hs.symm.trans (hstrategy hl)
  | other s hs hw =>
    exact .same fun loc hl => absurd (Lookup.found.inj (hs.symm.trans (hstrategy hl))) hw
  | missing hs hc =>
    refine .same fun loc hl w hw => edit_of_not_service ?_
    rintro cc svc rfl
    obtain ⟨-, rfl⟩ := (hplace loc).mp hl
    cases hc.symm.trans (JsonMap.nestedMap_eq_found.mpr hw)
  | kept cc hs hc hcc =>
    refine .same fun loc hl w hw => edit_of_not_service ?_
    rintro cc' svc rfl
    obtain ⟨-, rfl⟩ := (hplace loc).mp hl
    cases hc.symm.trans (JsonMap.nestedMap_eq_found.mpr hw)
    exact rewriteClientConfig_eq_none.mp hcc svc
  | edited cc cc' hs hc hcc =>
    have hm : u.object.modifyNested (fun _ => cc') conversionConfig =
        u.object.modifyNested spec.editConfig conversionConfig := by
      refine JsonMap.modifyNested_congr fun cc₁ h₁ => ?_
      cases hc.symm.trans (JsonMap.nestedMap_eq_found.mpr h₁)
      rw [editConfig, hcc, Option.getD_some]
    rw [hm]
    exact .of_iff (.modifyNested spec.editConfig conversionConfig u.object) fun loc =>
      (hplace loc).trans (and_iff_right (JsonMap.nestedString_eq_found.mp hs))

/-- The client configs are edited, and nothing else. -/
theorem rewrite_edited (h : spec.rewrite u = .ok v) :
    EditedAt (ClientConfigAt u) spec.edit (.obj u.object) (.obj v.object) := by
  rw [rewrite] at h
  split_ifs at h with hw hc
  · exact (rewriteWebhookList_eq_ok.mp h).editedAt hw
  · exact (rewriteConversion_eq_ok.mp h).editedAt hc
  · obtain rfl := Except.ok.inj h
    refine .same fun loc hl w hw' => ?_
    exact absurd ((configPlace_conversion hw loc).mp hl.1).1 hc

/-- What the edit means for the object. -/
theorem rewritten_of_edited (h : EditedAt (ClientConfigAt u) spec.edit (.obj u.object) (.obj v.object)) :
    Rewritten spec.urlPrefix u v where
  url := by
    rintro loc svc ⟨hl, cc, hat, hs⟩
    rw [Unstructured.at?, Json.at?_append, h.place loc hl, ← Unstructured.at?, hat, Option.map_some,
      edit_of_service hs, Option.bind_some, Json.at?_key, serviceless_url]
    rfl
  service := by
    rintro loc svc ⟨hl, cc, hat, hs⟩
    rw [Unstructured.at?, Json.at?_append, h.place loc hl, ← Unstructured.at?, hat, Option.map_some,
      edit_of_service hs, Option.bind_some, Json.at?_key, serviceless_service]
    rfl
  others q hq := by
    by_cases hp : ∃ loc, ClientConfigAt u loc ∧ loc <+: q
    · obtain ⟨loc, hl, r, rfl⟩ := hp
      rw [Unstructured.look, h.below hl, Unstructured.look, Json.look_append]
      cases hat : (Json.obj u.object).at? loc with
      | none => rfl
      | some w =>
        rw [Option.bind_some, Option.bind_some]
        by_cases hsvc : ∃ cc svc, w = .obj cc ∧ ServiceConfig cc svc
        · obtain ⟨cc, svc, rfl, hs⟩ := hsvc
          obtain ⟨hu, hsv⟩ := hq loc svc ⟨hl, cc, hat, hs⟩
          rw [edit_of_service hs]
          exact serviceless_off cc svc (fun hp => hu ((List.prefix_append_right_inj loc).mpr hp))
            fun hp => hsv ((List.prefix_append_right_inj loc).mpr hp)
        · rw [edit_of_not_service fun cc svc hw hs => hsvc ⟨cc, svc, hw, hs⟩]
    · exact h.off q fun loc hl hpre => hp ⟨loc, hl, hpre⟩

/-! ## A second pass -/

theorem ListRewritten.again (h : ListRewritten spec u v) : ListRewritten spec' v v := by
  cases h with
  | absent hg => exact .absent hg
  | kept whs hg hw =>
    refine .kept whs hg fun wh hwh => ?_
    have h := rewriteWebhook_getD spec spec' wh
    rwa [hw wh hwh, Option.getD_none] at h
  | edited whs hg _ =>
    refine .kept _ (JsonMap.get?_insert_self _ _ _) fun wh hwh => ?_
    obtain ⟨wh, -, rfl⟩ := List.mem_map.mp hwh
    exact rewriteWebhook_getD spec spec' wh

theorem ConversionRewritten.again (h : ConversionRewritten spec u v) : ConversionRewritten spec' v v := by
  cases h with
  | absent hs => exact .absent hs
  | other s hs hw => exact .other s hs hw
  | missing hs hc => exact .missing hs hc
  | kept cc hs hc hcc =>
    exact .kept cc hs hc (rewriteClientConfig_eq_none.mpr (rewriteClientConfig_eq_none.mp hcc))
  | edited cc cc' hs hc hcc =>
    obtain ⟨svc, -, rfl⟩ := rewriteClientConfig_eq_some.mp hcc
    exact .kept _ ((JsonMap.nestedString_modifyNested (by decide) _ _).trans hs)
      (JsonMap.nestedMap_modifyNested_found hc _) (rewriteClientConfig_serviceless cc svc)

theorem rewrite_kind (h : spec.rewrite u = .ok v) : v.getKind = u.getKind := by
  rw [rewrite] at h
  split_ifs at h
  · cases rewriteWebhookList_eq_ok.mp h with
    | absent _ => rfl
    | kept _ _ _ => rfl
    | edited whs _ _ =>
      exact (SameIdentity.setNestedField (p := ["webhooks"]) u _ (by decide) (by decide) (by decide)
        (by decide)).kind
  · cases rewriteConversion_eq_ok.mp h with
    | edited cc cc' _ _ _ =>
      rw [Unstructured.getKind, Unstructured.getNestedString, JsonMap.nestedString_modifyNested (by decide)]
      rfl
    | _ => rfl
  · cases h
    rfl

/-- Nothing is left to rewrite, whatever the prefix. -/
theorem rewrite_rewrite (h : spec.rewrite u = .ok v) : spec'.rewrite v = .ok v := by
  have hk := rewrite_kind h
  rw [rewrite] at h ⊢
  rw [hk]
  split_ifs at h ⊢
  · exact rewriteWebhookList_eq_ok.mpr (rewriteWebhookList_eq_ok.mp h).again
  · exact rewriteConversion_eq_ok.mpr (rewriteConversion_eq_ok.mp h).again
  · rfl

theorem rewriteManifest_eq_ok {m m' : Manifest} :
    spec.rewriteManifest m = .ok m' ↔
      m'.origin = m.origin ∧ spec.rewrite m.unstructured = .ok m'.unstructured := by
  rw [rewriteManifest]
  cases spec.rewrite m.unstructured with
  | error e => exact iff_of_false (fun h => by cases h) (fun h => by cases h.2)
  | ok u =>
    constructor
    · intro h
      cases h
      exact ⟨rfl, rfl⟩
    · rintro ⟨ho, hu⟩
      cases hu
      rw [← ho]

end RewriteWebhookURLSpec

end DDO.Impl

namespace DDO.Spec

open Impl RewriteWebhookURLSpec

/-- **Rewriting is exact and idempotent.** In every stream that is rewritten, each
client config that refers to a service has the URL with the prefix instead, and
every other path of every object is unchanged; rewriting again, with any prefix,
changes nothing. -/
theorem rewriteWebhookURL_exact {p : String} {ms ms' : List Manifest}
    (h : (rewriteWebhookURL ⟨p⟩).apply ms = .ok ms') :
    List.Forall₂ (fun m m' => m'.origin = m.origin ∧ Rewritten p m.unstructured m'.unstructured) ms ms' ∧
      ∀ q, (rewriteWebhookURL ⟨q⟩).apply ms' = .ok ms' := by
  have hall := mapEach_eq_ok.mp h
  constructor
  · refine hall.imp fun m m' hm => ?_
    obtain ⟨ho, hr⟩ := rewriteManifest_eq_ok.mp hm
    exact ⟨ho, rewritten_of_edited (rewrite_edited hr)⟩
  · intro q
    refine mapEach_eq_ok.mpr ?_
    clear h
    induction hall with
    | nil => exact .nil
    | @cons m m' ms ms' hm _ ih =>
      refine .cons (rewriteManifest_eq_ok.mpr ⟨rfl, ?_⟩) ih
      exact rewrite_rewrite (rewriteManifest_eq_ok.mp hm).2

/-- A webhook configuration with one webhook. -/
def sampleWebhooks (clientConfig : JsonMap) : Manifest :=
  ⟨⟨[("kind", .str "ValidatingWebhookConfiguration"),
    ("webhooks", .arr [.obj [("clientConfig", .obj clientConfig), ("name", .str "validate")]])]⟩, .unset⟩

theorem rewriteWebhookURL_exact_sample :
    (rewriteWebhookURL ⟨"https://seed"⟩).apply [sampleWebhooks
        [("caBundle", .str "Cg=="), ("service", .obj [("path", .str "/validate")])]] =
      .ok [sampleWebhooks [("caBundle", .str "Cg=="), ("url", .str "https://seed/validate")]] ∧
    (rewriteWebhookURL ⟨"https://shoot"⟩).apply [sampleWebhooks
        [("caBundle", .str "Cg=="), ("url", .str "https://seed/validate")]] =
      .ok [sampleWebhooks [("caBundle", .str "Cg=="), ("url", .str "https://seed/validate")]] := by
  have h : (rewriteWebhookURL ⟨"https://seed"⟩).apply [sampleWebhooks
        [("caBundle", .str "Cg=="), ("service", .obj [("path", .str "/validate")])]] =
      .ok [sampleWebhooks [("caBundle", .str "Cg=="), ("url", .str "https://seed/validate")]] := by
    rfl
  exact ⟨h, (rewriteWebhookURL_exact h).2 _⟩

end DDO.Spec
