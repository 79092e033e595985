import DualDeployment.Impl.Applier
import DualDeployment.Impl.Source

/-!
# What stamping does to the metadata

`Apply` strips the origin annotation and sets the owned-by label of what it
submits. Both go through typed accessors that read a map of strings and write
it back whole, so the rest of the metadata survives only if the maps can be
read that way (`stamped_iff`). A label that is not a string costs all the
others (`stamping_loses_label`).
-/

namespace DDO.Impl

open JsonMap

/-- The value is neither a string nor null. -/
def Unreadable (j : Json) : Prop := ¬(j = .null ∨ ∃ s, j = .str s)

namespace Unstructured

/-- The value at a path. -/
def field (u : Unstructured) (fields : List String) : Lookup Json := (Json.obj u.object).nested fields

/-- The entries of the map at a path, none if there is no map. -/
def entries (u : Unstructured) (fields : List String) : JsonMap :=
  match u.object.nestedMap fields with
  | .found m => m
  | _ => []

def annotationEntries (u : Unstructured) : JsonMap := u.entries ["metadata", "annotations"]

def labelEntries (u : Unstructured) : JsonMap := u.entries ["metadata", "labels"]

/-- The metadata are absent or a map. -/
def HasMetadata (u : Unstructured) : Prop :=
  u.object.get? "metadata" = none ∨ ∃ m, u.object.get? "metadata" = some (.obj m)

variable {u v : Unstructured} {fields : List String}

theorem nestedMap_eq_found {m : JsonMap} :
    u.object.nestedMap fields = .found m ↔ u.field fields = .found (.obj m) := by
  rw [nestedMap, field]
  split <;> simp_all

theorem entries_of_field {m : JsonMap} (h : u.field fields = .found (.obj m)) : u.entries fields = m := by
  rw [entries, nestedMap_eq_found.mpr h]

theorem entries_congr (h : v.field fields = u.field fields) : v.entries fields = u.entries fields := by
  rw [entries, entries, nestedMap, nestedMap]
  rw [field, field] at h
  rw [h]

theorem field_setNestedField {p q : List String} (hd : Diverge p q) (u : Unstructured) (val : Json) :
    (u.setNestedField val p).field q = u.field q := by
  rw [setNestedField, field, field]
  cases hs : u.object.setNested val p with
  | none => rfl
  | some m => exact nested_setNested hs hd

theorem field_setNestedField_self {f g : String} {val : Json}
    (h : u.object.get? f = none ∨ ∃ m, u.object.get? f = some (.obj m)) :
    (u.setNestedField val [f, g]).field [f, g] = .found val := by
  obtain ⟨m, hm⟩ := Option.isSome_iff_exists.mp (setNested_pair.mpr h)
  rw [setNestedField, field, hm]
  exact nested_setNested_self hm

/-- Setting a field of the metadata leaves them a map, if they were. -/
theorem hasMetadata_setNestedField {g : String} {val : Json} :
    (u.setNestedField val ["metadata", g]).HasMetadata ↔ u.HasMetadata := by
  rw [setNestedField]
  cases hs : u.object.setNested val ["metadata", g] with
  | none => rfl
  | some m =>
    have hu : u.HasMetadata := setNested_pair.mp (by rw [hs]; rfl)
    refine iff_of_true (Or.inr ?_) hu
    have hf : (Json.obj m).nested ["metadata", g] = .found val := nested_setNested_self hs
    rw [Option.getD_some]
    cases hm : m.get? "metadata" with
    | none =>
      simp only [Json.nested, hm] at hf
      cases hf
    | some w =>
      cases w with
      | obj m₁ => exact ⟨m₁, rfl⟩
      | _ =>
        simp only [Json.nested, hm] at hf
        cases hf

/-- There is a field of the metadata, so they are a map. -/
theorem metadata_of_field {g : String} {w : Json} (h : u.field ["metadata", g] = .found w) :
    ∃ m, u.object.get? "metadata" = some (.obj m) := by
  simp only [field, Json.nested] at h
  cases hm : u.object.get? "metadata" with
  | none =>
    rw [hm] at h
    cases h
  | some x =>
    rw [hm] at h
    cases x with
    | obj m => exact ⟨m, rfl⟩
    | _ => cases h

/-! ## Maps of strings -/

/-- A map of strings can be read if every value is a string or null. -/
theorem stringMap_isSome {m : JsonMap} :
    (stringMap m).isSome ↔ ∀ p ∈ m, p.2 = .null ∨ ∃ s, p.2 = .str s := by
  induction m with
  | nil => simp [stringMap]
  | cons f m ih =>
    obtain ⟨k, j⟩ := f
    rw [List.forall_mem_cons, ← ih]
    cases j <;> simp [stringMap]

theorem mem_stringMap {m : JsonMap} {l : List (String × String)} (h : stringMap m = some l)
    {k s : String} : (k, s) ∈ l ↔ (k, .str s) ∈ m ∨ (s = "" ∧ (k, .null) ∈ m) := by
  induction m generalizing l with
  | nil =>
    cases h
    simp
  | cons f m ih =>
    obtain ⟨k', j⟩ := f
    cases j with
    | str s' =>
      obtain ⟨l', hl', rfl⟩ := Option.map_eq_some_iff.mp h
      rw [List.mem_cons, ih hl']
      simp [or_assoc]
    | null =>
      obtain ⟨l', hl', rfl⟩ := Option.map_eq_some_iff.mp h
      rw [List.mem_cons, ih hl']
      simp
      tauto
    | _ => cases h

theorem getStringMap_eq_some {l : List (String × String)} (h : u.getStringMap fields = some l) :
    u.field fields = .found (.obj (u.entries fields)) ∧ stringMap (u.entries fields) = some l := by
  rw [getStringMap] at h
  split at h
  · rename_i m hm
    rw [nestedMap_eq_found] at hm
    rw [entries_of_field hm]
    exact ⟨hm, h⟩
  · cases h

theorem getStringMap_of_untyped (h : ∀ m, u.field fields ≠ .found (.obj m)) :
    u.getStringMap fields = none := by
  cases hg : u.getStringMap fields with
  | none => rfl
  | some l => exact absurd (getStringMap_eq_some hg).1 (h _)

/-- A map that is not read as one of strings has a value that cannot be read. -/
theorem getStringMap_eq_none (h : u.getStringMap fields = none) :
    u.entries fields = [] ∨ ∃ p ∈ u.entries fields, Unreadable p.2 := by
  rw [getStringMap] at h
  split at h
  · rename_i m hm
    rw [entries, hm]
    refine Or.inr (by_contra fun hall => ?_)
    have hread := stringMap_isSome.mpr fun p hp => not_not.mp fun hu => hall ⟨p, hp, hu⟩
    rw [h] at hread
    cases hread
  · rename_i hn
    rw [entries]
    split
    · rename_i m hm
      exact absurd hm (hn m)
    · exact Or.inl rfl

/-- What is read under a key whose values are strings is what is there. -/
theorem mem_read {m : JsonMap} {l : List (String × String)} (h : stringMap m = some l) {k : String}
    (hk : ∀ j, (k, j) ∈ m → ∃ s, j = .str s) {j : Json} :
    (∃ s, j = .str s ∧ (k, s) ∈ l) ↔ (k, j) ∈ m := by
  constructor
  · rintro ⟨s, rfl, hm⟩
    refine ((mem_stringMap h).mp hm).resolve_right ?_
    rintro ⟨-, hn⟩
    obtain ⟨s', he⟩ := hk _ hn
    cases he
  · intro hm
    obtain ⟨s, rfl⟩ := hk _ hm
    exact ⟨s, rfl, (mem_stringMap h).mpr (Or.inl hm)⟩

theorem mem_map_str {l : List (String × String)} {k : String} {j : Json} :
    (k, j) ∈ l.map (fun f => (f.1, Json.str f.2)) ↔ ∃ s, j = .str s ∧ (k, s) ∈ l := by
  rw [List.mem_map]
  constructor
  · rintro ⟨⟨k', s⟩, hm, he⟩
    cases he
    exact ⟨s, rfl, hm⟩
  · rintro ⟨s, rfl, hm⟩
    exact ⟨(k, s), hm, rfl⟩

end Unstructured

theorem mem_insertString {key val k s : String} {m : List (String × String)} (h : k ≠ key) :
    (k, s) ∈ insertString key val m ↔ (k, s) ∈ m := by
  induction m with
  | nil => simp [insertString, h]
  | cons f m ih =>
    obtain ⟨k', s'⟩ := f
    rw [insertString]
    split_ifs with h₁ h₂
    · subst h₁
      simp [h]
    · simp [h]
    · rw [List.mem_cons, List.mem_cons, ih]

theorem get?_insertString (key val : String) (m : List (String × String)) :
    get? ((insertString key val m).map fun f => (f.1, Json.str f.2)) key = some (.str val) := by
  induction m with
  | nil => simp [insertString, get?]
  | cons f m ih =>
    obtain ⟨k', s'⟩ := f
    rw [insertString]
    split_ifs with h₁ h₂
    · simp [get?]
    · simp [get?]
    · rw [List.map_cons, get?, if_neg h₁, ih]

theorem mem_deleteString {key k s : String} {m : List (String × String)} :
    (k, s) ∈ deleteString key m ↔ (k, s) ∈ m ∧ k ≠ key := by
  simp [deleteString]

/-! ## Stripping the origin annotation -/

section

variable {m : Manifest}

theorem strip_field {q : List String} (hd : Diverge ["metadata", "annotations"] q) (m : Manifest) :
    m.stripInternalAnnotations.unstructured.field q = m.unstructured.field q := by
  rw [Manifest.stripInternalAnnotations]
  split
  · rfl
  · split
    · exact nested_removeNested hd _
    · exact Unstructured.field_setNestedField hd _ _

theorem strip_of_none (h : m.unstructured.getAnnotations = none) : m.stripInternalAnnotations = m := by
  rw [Manifest.stripInternalAnnotations, h]

theorem strip_of_nil {anns : List (String × String)} (h : m.unstructured.getAnnotations = some anns)
    (hd : deleteString OriginAnnotation anns = []) :
    m.stripInternalAnnotations = { m with unstructured := m.unstructured.setAnnotations none } := by
  rw [Manifest.stripInternalAnnotations, h]
  simp only [hd]

theorem strip_of_cons {anns : List (String × String)} (h : m.unstructured.getAnnotations = some anns)
    (hd : deleteString OriginAnnotation anns ≠ []) :
    m.stripInternalAnnotations = { m with
      unstructured := m.unstructured.setAnnotations (some (deleteString OriginAnnotation anns)) } := by
  rw [Manifest.stripInternalAnnotations, h]
  simp only

theorem strip_of_some {anns : List (String × String)} (h : m.unstructured.getAnnotations = some anns) :
    m.stripInternalAnnotations.unstructured.annotationEntries =
        (deleteString OriginAnnotation anns).map (fun f => (f.1, Json.str f.2)) ∧
      (deleteString OriginAnnotation anns = [] →
        m.stripInternalAnnotations.unstructured.field ["metadata", "annotations"] = .missing) := by
  obtain ⟨hf, -⟩ := Unstructured.getStringMap_eq_some h
  obtain ⟨md, hmd⟩ := Unstructured.metadata_of_field hf
  by_cases hd : deleteString OriginAnnotation anns = []
  · have hgone : (m.unstructured.setAnnotations none).field ["metadata", "annotations"] = .missing :=
      nested_removeNested_pair hmd
    rw [strip_of_nil h hd, hd]
    refine ⟨?_, fun _ => hgone⟩
    rw [Unstructured.field] at hgone
    simp only [Unstructured.annotationEntries, Unstructured.entries, nestedMap, hgone, List.map_nil]
  · rw [strip_of_cons h hd]
    refine ⟨Unstructured.entries_of_field ?_, fun hn => absurd hn hd⟩
    exact Unstructured.field_setNestedField_self (Or.inr ⟨md, hmd⟩)

theorem strip_hasMetadata : m.stripInternalAnnotations.unstructured.HasMetadata ↔
    m.unstructured.HasMetadata := by
  rw [Manifest.stripInternalAnnotations]
  split
  · rfl
  · rename_i anns h
    split
    · obtain ⟨hf, -⟩ := Unstructured.getStringMap_eq_some h
      obtain ⟨md, hmd⟩ := Unstructured.metadata_of_field hf
      refine iff_of_true (Or.inr ⟨JsonMap.erase "annotations" md, ?_⟩) (Or.inr ⟨md, hmd⟩)
      simp only [Unstructured.setAnnotations, Unstructured.removeNestedField, removeNested, hmd,
        get?_insert_self]
    · exact Unstructured.hasMetadata_setNestedField

/-- Annotations that stripping leaves alone but for the origin: all are
strings, where the origin may be null, or one cannot be read and there is no
origin to strip. -/
def AnnotationsKept (anns : JsonMap) : Prop :=
  (∀ p ∈ anns, (∃ s, p.2 = .str s) ∨ p.1 = OriginAnnotation ∧ p.2 = .null) ∨
    (∃ p ∈ anns, Unreadable p.2) ∧ ∀ p ∈ anns, p.1 ≠ OriginAnnotation

theorem strip_annotations_iff :
    (∀ k j, (k, j) ∈ m.stripInternalAnnotations.unstructured.annotationEntries ↔
      (k, j) ∈ m.unstructured.annotationEntries ∧ k ≠ OriginAnnotation) ↔
    AnnotationsKept m.unstructured.annotationEntries := by
  cases h : m.unstructured.getAnnotations with
  | none =>
    -- nothing is written
    rw [strip_of_none h]
    have hno : (∀ k j, (k, j) ∈ m.unstructured.annotationEntries ↔
        (k, j) ∈ m.unstructured.annotationEntries ∧ k ≠ OriginAnnotation) ↔
        ∀ p ∈ m.unstructured.annotationEntries, p.1 ≠ OriginAnnotation :=
      ⟨fun hk p hp => ((hk p.1 p.2).mp hp).2, fun hk k j => ⟨fun hp => ⟨hp, hk _ hp⟩, And.left⟩⟩
    rw [hno]
    rcases Unstructured.getStringMap_eq_none h with he | hbad
    · rw [Unstructured.annotationEntries, he]
      simp [AnnotationsKept]
    · refine ⟨fun hk => Or.inr ⟨hbad, hk⟩, ?_⟩
      rintro (hall | ⟨-, hk⟩)
      · obtain ⟨p, hp, hu⟩ := hbad
        rcases hall p hp with hs | ⟨-, hnull⟩
        · exact absurd (Or.inr hs) hu
        · exact absurd (Or.inl hnull) hu
      · exact hk
  | some anns =>
    obtain ⟨-, hs⟩ := Unstructured.getStringMap_eq_some h
    have hread := Unstructured.stringMap_isSome.mp (by rw [hs]; rfl)
    rw [(strip_of_some h).1]
    constructor
    · intro hk
      refine Or.inl fun p hp => ?_
      by_cases ho : p.1 = OriginAnnotation
      · exact (hread p hp).elim (fun hn => Or.inr ⟨ho, hn⟩) Or.inl
      · obtain ⟨s, he, -⟩ := Unstructured.mem_map_str.mp ((hk p.1 p.2).mpr ⟨hp, ho⟩)
        exact Or.inl ⟨s, he⟩
    · rintro (hall | ⟨⟨p, hp, hu⟩, -⟩) k j
      · simp only [Unstructured.mem_map_str, mem_deleteString, ← and_assoc, exists_and_right]
        refine and_congr_left fun ho => Unstructured.mem_read hs fun j hj => ?_
        exact (hall _ hj).resolve_right fun hn => ho hn.1
      · exact absurd (hread p hp) hu

/-- Annotations that hold the origin only are removed. -/
theorem strip_emptied {anns : JsonMap} (hk : AnnotationsKept m.unstructured.annotationEntries)
    (hf : m.unstructured.field ["metadata", "annotations"] = .found (.obj anns))
    (hall : ∀ p ∈ anns, p.1 = OriginAnnotation) :
    m.stripInternalAnnotations.unstructured.field ["metadata", "annotations"] = .missing := by
  have he : m.unstructured.entries ["metadata", "annotations"] = anns := Unstructured.entries_of_field hf
  rw [Unstructured.annotationEntries, he] at hk
  have hread : (Unstructured.stringMap anns).isSome := by
    refine Unstructured.stringMap_isSome.mpr fun p hp => ?_
    rcases hk with hk | ⟨⟨p', hp', -⟩, hk⟩
    · exact (hk p hp).symm.imp And.right id
    · exact absurd (hall p' hp') (hk p' hp')
  obtain ⟨l, hl⟩ := Option.isSome_iff_exists.mp hread
  have hg : m.unstructured.getAnnotations = some l := by
    rw [Unstructured.getAnnotations, Unstructured.getStringMap, Unstructured.nestedMap_eq_found.mpr hf]
    exact hl
  refine (strip_of_some hg).2 (List.eq_nil_iff_forall_not_mem.mpr ?_)
  rintro ⟨k, s⟩ hm
  obtain ⟨hm, ho⟩ := mem_deleteString.mp hm
  rcases (Unstructured.mem_stringMap hl).mp hm with hm | ⟨-, hm⟩
  · exact ho (hall _ hm)
  · exact ho (hall _ hm)

/-! ## Setting the owned-by label -/

theorem setOwnedByLabel_field {q : List String} (hd : Diverge ["metadata", "labels"] q) (m : Manifest)
    (ownedBy : String) : (m.setOwnedByLabel ownedBy).unstructured.field q = m.unstructured.field q :=
  Unstructured.field_setNestedField hd _ _

theorem setOwnedByLabel_labels (h : m.unstructured.HasMetadata) (ownedBy : String) :
    (m.setOwnedByLabel ownedBy).unstructured.field ["metadata", "labels"] =
      .found (.obj ((insertString OwnedByLabel ownedBy (m.unstructured.getLabels.getD [])).map
        fun f => (f.1, .str f.2))) :=
  Unstructured.field_setNestedField_self h

/-- The label can be read where it was set, and it was only set in metadata. -/
theorem setOwnedByLabel_owned {ownedBy : String} :
    (m.setOwnedByLabel ownedBy).unstructured.field ["metadata", "labels", OwnedByLabel] =
      .found (.str ownedBy) ↔ m.unstructured.HasMetadata := by
  constructor
  · intro h
    have hmd : (m.setOwnedByLabel ownedBy).unstructured.HasMetadata := by
      rw [Unstructured.HasMetadata]
      simp only [Unstructured.field, Json.nested] at h
      cases hm : (m.setOwnedByLabel ownedBy).unstructured.object.get? "metadata" with
      | none => exact Or.inl rfl
      | some w =>
        rw [hm] at h
        cases w with
        | obj md => exact Or.inr ⟨md, rfl⟩
        | _ => cases h
    exact Unstructured.hasMetadata_setNestedField.mp hmd
  · intro h
    have hl := setOwnedByLabel_labels h ownedBy
    rw [Unstructured.field] at hl
    show (Json.obj _).nested (["metadata", "labels"] ++ [OwnedByLabel]) = _
    rw [Json.nested_append hl]
    simp only [Json.nested, get?_insertString]

/-- Labels that stamping leaves alone: those beside the owned-by label are
strings, and if one cannot be read there are none beside it. -/
def LabelsKept (labels : JsonMap) : Prop :=
  (∀ p ∈ labels, p.1 ≠ OwnedByLabel → ∃ s, p.2 = .str s) ∧
    ((∃ p ∈ labels, Unreadable p.2) → ∀ p ∈ labels, p.1 = OwnedByLabel)

theorem setOwnedByLabel_labels_iff (hmd : m.unstructured.HasMetadata) (ownedBy : String) :
    (∀ k j, k ≠ OwnedByLabel → ((k, j) ∈ (m.setOwnedByLabel ownedBy).unstructured.labelEntries ↔
      (k, j) ∈ m.unstructured.labelEntries)) ↔ LabelsKept m.unstructured.labelEntries := by
  have hmem : ∀ k j, k ≠ OwnedByLabel → ((k, j) ∈ (m.setOwnedByLabel ownedBy).unstructured.labelEntries ↔
      ∃ s, j = .str s ∧ (k, s) ∈ m.unstructured.getLabels.getD []) := by
    intro k j hk
    rw [Unstructured.labelEntries, Unstructured.entries_of_field (setOwnedByLabel_labels hmd ownedBy),
      Unstructured.mem_map_str]
    simp only [mem_insertString hk]
  cases h : m.unstructured.getLabels with
  | none =>
    -- the labels are taken to be absent, and replaced
    have hnone : (∀ k j, k ≠ OwnedByLabel → ((k, j) ∈ (m.setOwnedByLabel ownedBy).unstructured.labelEntries ↔
        (k, j) ∈ m.unstructured.labelEntries)) ↔
        ∀ p ∈ m.unstructured.labelEntries, p.1 = OwnedByLabel := by
      simp only [h, Option.getD_none, List.not_mem_nil, and_false, exists_false] at hmem
      constructor
      · intro hk p hp
        by_contra ho
        exact (hmem p.1 p.2 ho).mp ((hk p.1 p.2 ho).mpr hp)
      · intro hk k j ho
        exact iff_of_false (hmem k j ho).mp fun hp => ho (hk _ hp)
    rw [hnone]
    rcases Unstructured.getStringMap_eq_none h with he | hbad
    · rw [Unstructured.labelEntries, he]
      simp [LabelsKept]
    · exact ⟨fun hk => ⟨fun p hp ho => absurd (hk p hp) ho, fun _ => hk⟩, fun hk => hk.2 hbad⟩
  | some labels =>
    obtain ⟨-, hs⟩ := Unstructured.getStringMap_eq_some h
    have hread := Unstructured.stringMap_isSome.mp (by rw [hs]; rfl)
    simp only [h, Option.getD_some] at hmem
    constructor
    · intro hk
      refine ⟨fun p hp ho => ?_, fun ⟨p, hp, hu⟩ => absurd (hread p hp) hu⟩
      obtain ⟨s, he, -⟩ := (hmem p.1 p.2 ho).mp ((hk p.1 p.2 ho).mpr hp)
      exact ⟨s, he⟩
    · rintro ⟨hk, -⟩ k j ho
      rw [hmem k j ho]
      exact Unstructured.mem_read hs fun j hj => hk _ hj ho

end

end DDO.Impl

namespace DDO.Spec

open Impl

/-- `u'` is `u` without the origin annotation, and without annotations if none
is left, and with the owned-by label; all other metadata, and what is not
metadata, are as they were. -/
structure Stamped (u u' : Unstructured) (ownedBy : String) : Prop where
  others : ∀ q, JsonMap.Diverge ["metadata", "annotations"] q → JsonMap.Diverge ["metadata", "labels"] q →
    u'.field q = u.field q
  annotations : ∀ k j, (k, j) ∈ u'.annotationEntries ↔ (k, j) ∈ u.annotationEntries ∧ k ≠ OriginAnnotation
  emptied : ∀ anns, u.field ["metadata", "annotations"] = .found (.obj anns) →
    (∀ p ∈ anns, p.1 = OriginAnnotation) → u'.field ["metadata", "annotations"] = .missing
  untyped : (∀ anns, u.field ["metadata", "annotations"] ≠ .found (.obj anns)) →
    u'.field ["metadata", "annotations"] = u.field ["metadata", "annotations"]
  labels : ∀ k j, k ≠ OwnedByLabel → ((k, j) ∈ u'.labelEntries ↔ (k, j) ∈ u.labelEntries)
  owned : u'.field ["metadata", "labels", OwnedByLabel] = .found (.str ownedBy)

/-- The metadata are absent or a map, and both maps of strings in them survive
being read and written back. -/
structure Stampable (u : Unstructured) : Prop where
  metadata : u.HasMetadata
  annotations : AnnotationsKept u.annotationEntries
  labels : LabelsKept u.labelEntries

/-- For every manifest: what `Apply` prepares by stripping the origin
annotation and setting the owned-by label differs from the manifest in nothing
else, if and only if the manifest is `Stampable`. -/
theorem stamped_iff (m : Manifest) (ownedBy : String) :
    Stamped m.unstructured (m.stripInternalAnnotations.setOwnedByLabel ownedBy).unstructured ownedBy ↔
      Stampable m.unstructured := by
  -- the label is set off the annotations, and the annotations are stripped off the labels
  have hann : (m.stripInternalAnnotations.setOwnedByLabel ownedBy).unstructured.field
      ["metadata", "annotations"] = m.stripInternalAnnotations.unstructured.field ["metadata", "annotations"] :=
    setOwnedByLabel_field (by decide) _ _
  have hlab : m.stripInternalAnnotations.unstructured.labelEntries = m.unstructured.labelEntries :=
    Unstructured.entries_congr (strip_field (by decide) m)
  have hentries : (m.stripInternalAnnotations.setOwnedByLabel ownedBy).unstructured.annotationEntries =
      m.stripInternalAnnotations.unstructured.annotationEntries := Unstructured.entries_congr hann
  constructor
  · intro h
    have hmd := setOwnedByLabel_owned.mp h.owned
    refine ⟨strip_hasMetadata.mp hmd, ?_, ?_⟩
    · rw [← strip_annotations_iff, ← hentries]
      exact h.annotations
    · rw [← hlab, ← setOwnedByLabel_labels_iff hmd ownedBy, hlab]
      exact h.labels
  · intro h
    have hmd := strip_hasMetadata.mpr h.metadata
    have hkept := strip_annotations_iff.mpr h.annotations
    refine ⟨fun q ha hl => (setOwnedByLabel_field hl _ _).trans (strip_field ha m), ?_, ?_, ?_, ?_,
      setOwnedByLabel_owned.mpr hmd⟩
    · rw [hentries]
      exact hkept
    · intro anns hf hall
      rw [hann]
      exact strip_emptied h.annotations hf hall
    · intro hn
      rw [hann, strip_of_none]
      exact Unstructured.getStringMap_of_untyped hn
    · have hlabels := setOwnedByLabel_labels_iff hmd ownedBy
      rw [hlab] at hlabels
      exact hlabels.mpr h.labels

/-- A ConfigMap with two labels, one of them an unquoted number. -/
def numberedLabels : JsonMap :=
  [("apiVersion", .str "v1"), ("kind", .str "ConfigMap"),
    ("metadata", .obj [("labels", .obj [("app", .str "web"), ("tier", .int 3)]), ("name", .str "config")])]

/-- It is parsed, and stamping it loses the label that is a string as well. -/
theorem stamping_loses_label :
    let m : Manifest := ⟨⟨numberedLabels⟩, .upstream⟩
    let u' := (m.stripInternalAnnotations.setOwnedByLabel "0123456789abcdef").unstructured
    parse [.ok numberedLabels] .upstream = .ok [m] ∧
      m.unstructured.field ["metadata", "labels", "app"] = .found (.str "web") ∧
      u'.field ["metadata", "labels", "app"] = .missing ∧
      ¬Stamped m.unstructured u' "0123456789abcdef" := by
  intro m u'
  refine ⟨rfl, rfl, rfl, fun h => ?_⟩
  have hm := (h.labels "app" (.str "web") (by decide)).mpr List.mem_cons_self
  exact absurd (congrArg Prod.fst (List.mem_singleton.mp hm)) (by decide)

end DDO.Spec
