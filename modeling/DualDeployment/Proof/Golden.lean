import Mathlib.Data.List.Forall2
import DualDeployment.Impl.Golden

/-!
# What unwrapping the golden render loses

`UnwrapManagedResources` looks a Secret up by its name alone, so of the Secrets of one
name it reads the last (`lookup_secretsByName`), whatever its namespace, and it drops
all of them (`unwrap_eq_ok`). It unwraps what the ManagedResources refer to, and passes
everything else through, if and only if the name is enough to tell the Secret of the
ManagedResource's own namespace (`unwrapping_loses_nothing_iff`), as it is if all the
Secrets with the name are there (`nameSuffices_of_namespaces`). Otherwise a Secret that
nothing refers to may be dropped without an error (`other_namespace_is_dropped`).
-/

namespace DDO.Impl

/-! ## What is read -/

/-- The text that a Secret carries, if it is not empty. -/
def payload (sec : Unstructured) : Option String :=
  match sec.object.nestedString ["data", "objects.yaml"] with
  | .found enc => if enc = "" then none else some enc
  | _ => none

/-- The text is decoded to these objects: base64, YAML without an error in any
document, and the documents that are not empty. -/
def Decodes (libs : GoldenLibs) (text : String) (objs : List Unstructured) : Prop :=
  ∃ (raw : String) (ms : List JsonMap), libs.decodeString text = .ok raw ∧ libs.documents raw = ms.map .ok ∧
    objs = (ms.filter fun m => !m.isEmpty).map Unstructured.mk

/-- The name in an entry of `secretRefs`; an entry that is not a map has none. -/
def entryName : Json → Option String
  | .obj m => some (refName m)
  | _ => none

/-- The entries of `secretRefs` of a ManagedResource. -/
def secretRefs (d : Unstructured) : List Json :=
  match d.object.nestedSlice ["spec", "secretRefs"] with
  | .found refs => refs
  | _ => []

/-- The references of the ManagedResources, in document and reference order. -/
def references (docs : List Unstructured) : List (Unstructured × Json) :=
  (docs.filter isManagedResource).flatMap fun d => (secretRefs d).map fun r => (d, r)

/-- A reference that has a name, with its name. -/
def namedRef (ref : Unstructured × Json) : Option (Unstructured × String) := (entryName ref.2).map fun n => (ref.1, n)

/-- Of the Secrets of one name the last counts. -/
theorem lookup_secretsByName (docs : List Unstructured) (name : String) :
    (secretsByName docs).lookup name = lastWith Unstructured.getName (secrets docs) name := by
  rw [secretsByName, lookup_keyedBy, AList.lookup_empty, Option.or_none]

theorem splitYAMLDocs_eq_ok {ds : List (Except Err JsonMap)} {objs : List Unstructured} :
    splitYAMLDocs ds = .ok objs ↔
      ∃ ms : List JsonMap, ds = ms.map .ok ∧ objs = (ms.filter fun m => !m.isEmpty).map Unstructured.mk := by
  induction ds generalizing objs with
  | nil =>
    rw [splitYAMLDocs, Except.ok.injEq]
    constructor
    · rintro rfl
      exact ⟨[], rfl, rfl⟩
    · rintro ⟨ms, hms, rfl⟩
      rw [List.map_eq_nil_iff.mp hms.symm]
      rfl
  | cons d ds ih =>
    cases d with
    | error e =>
      refine iff_of_false (fun h => by cases h) ?_
      rintro ⟨ms, hms, -⟩
      cases ms with
      | nil => cases hms
      | cons m ms => cases hms
    | ok m =>
      have hcons : (∃ ms : List JsonMap, Except.ok m :: ds = ms.map .ok ∧
            objs = (ms.filter fun m => !m.isEmpty).map Unstructured.mk) ↔
          ∃ objs', splitYAMLDocs ds = .ok objs' ∧ objs = if m.isEmpty then objs' else ⟨m⟩ :: objs' := by
        constructor
        · rintro ⟨ms, hms, rfl⟩
          cases ms with
          | nil => cases hms
          | cons m' ms =>
            rw [List.map_cons, List.cons.injEq, Except.ok.injEq] at hms
            obtain ⟨rfl, hds⟩ := hms
            refine ⟨_, ih.mpr ⟨ms, hds, rfl⟩, ?_⟩
            cases hm : m.isEmpty <;> simp [hm]
        · rintro ⟨objs', hs, rfl⟩
          obtain ⟨ms, hds, rfl⟩ := ih.mp hs
          refine ⟨m :: ms, by rw [hds, List.map_cons], ?_⟩
          cases hm : m.isEmpty <;> simp [hm]
      rw [hcons, splitYAMLDocs]
      cases m.isEmpty with
      | true => simp
      | false =>
        cases splitYAMLDocs ds with
        | error e => simp
        | ok out => simp [eq_comm]

theorem decodes_iff {libs : GoldenLibs} {text : String} {objs : List Unstructured} :
    Decodes libs text objs ↔
      ∃ raw, libs.decodeString text = .ok raw ∧ splitYAMLDocs (libs.documents raw) = .ok objs := by
  constructor
  · rintro ⟨raw, ms, hd, hms, ho⟩
    exact ⟨raw, hd, splitYAMLDocs_eq_ok.mpr ⟨ms, hms, ho⟩⟩
  · rintro ⟨raw, hd, hs⟩
    obtain ⟨ms, hms, ho⟩ := splitYAMLDocs_eq_ok.mp hs
    exact ⟨raw, ms, hd, hms, ho⟩

section

variable {libs : GoldenLibs} {byName : AList fun _ : String => Unstructured} {mr : Unstructured}

theorem unwrapSecret_eq_ok {name : String} {objs : List Unstructured} :
    unwrapSecret libs byName mr name = .ok objs ↔
      ∃ text, (byName.lookup name).bind payload = some text ∧ Decodes libs text objs := by
  rw [unwrapSecret]
  cases byName.lookup name with
  | none => simp
  | some sec =>
    dsimp only
    rw [Option.bind_some, payload]
    cases sec.object.nestedString ["data", "objects.yaml"] with
    | missing => simp
    | mistyped => simp
    | found enc =>
      dsimp only
      split_ifs with he
      · simp
      · simp only [Option.some.injEq, exists_eq_left', decodes_iff]
        cases libs.decodeString enc with
        | error e => simp
        | ok raw =>
          simp only [Except.ok.injEq, exists_eq_left']
          cases splitYAMLDocs (libs.documents raw) <;> simp

variable (libs byName mr) in
theorem toOption_unwrapRefs (refs : List Json) (fromMR : List Unstructured) (referenced : List String) :
    (unwrapRefs libs byName mr refs fromMR referenced).toOption =
      (mapEach (unwrapSecret libs byName mr) (refs.filterMap entryName)).toOption.map fun decoded =>
        (fromMR ++ decoded.flatten, (refs.filterMap entryName).reverse ++ referenced) := by
  induction refs generalizing fromMR referenced with
  | nil => simp [unwrapRefs, mapEach, Except.toOption]
  | cons r refs ih =>
    cases r with
    | obj m =>
      rw [unwrapRefs, List.filterMap_cons_some (rfl : entryName (.obj m) = some (refName m)), toOption_mapEach_cons]
      cases unwrapSecret libs byName mr (refName m) with
      | error e => rfl
      | ok objs =>
        dsimp only
        rw [ih]
        cases (mapEach (unwrapSecret libs byName mr) (refs.filterMap entryName)).toOption with
        | none => rfl
        | some decoded => simp [Except.toOption]
    | _ => exact ih fromMR referenced

end

/-- The references that have a name, with their names. -/
def namedRefs (docs : List Unstructured) : List (Unstructured × String) := (references docs).filterMap namedRef

theorem namedRefs_cons (d : Unstructured) (docs : List Unstructured) :
    namedRefs (d :: docs) =
      (if isManagedResource d then ((secretRefs d).filterMap entryName).map fun n => (d, n) else []) ++
        namedRefs docs := by
  rw [namedRefs, references, List.filter_cons]
  split_ifs
  · rw [List.flatMap_cons, List.filterMap_append, List.filterMap_map, List.map_filterMap]
    rfl
  · rfl

/-- The references are absent or a list. -/
def RefsReadable (d : Unstructured) : Prop := d.object.nestedSlice ["spec", "secretRefs"] ≠ .mistyped

theorem toOption_unwrapEach {libs : GoldenLibs} {byName : AList fun _ : String => Unstructured}
    {docs fromMR : List Unstructured} {referenced : List String} {out : List Unstructured × List String} :
    (unwrapEach libs byName docs fromMR referenced).toOption = some out ↔
      (∀ d ∈ docs, isManagedResource d = true → RefsReadable d) ∧
        (mapEach (fun ref => unwrapSecret libs byName ref.1 ref.2) (namedRefs docs)).toOption.map (fun decoded =>
          (fromMR ++ decoded.flatten, ((namedRefs docs).map (·.2)).reverse ++ referenced)) = some out := by
  induction docs generalizing fromMR referenced with
  | nil => simp [unwrapEach, namedRefs, references, mapEach, Except.toOption]
  | cons d docs ih =>
    rw [unwrapEach, List.forall_mem_cons, namedRefs_cons]
    cases hmr : isManagedResource d with
    | false => simpa using ih
    | true =>
      rw [secretRefs, RefsReadable]
      cases d.object.nestedSlice ["spec", "secretRefs"] with
      | mistyped => simp [Except.toOption]
      | missing => simpa using ih
      | found refs =>
        have href := toOption_unwrapRefs libs byName d refs fromMR referenced
        simp only [Bool.not_true, Bool.false_eq_true, if_false, if_true, toOption_mapEach_append, mapEach_map]
        cases hdec : (mapEach (unwrapSecret libs byName d) (refs.filterMap entryName)).toOption with
        | none =>
          rw [hdec] at href
          cases hu : unwrapRefs libs byName d refs fromMR referenced with
          | error e => simp [Except.toOption]
          | ok out' =>
            rw [hu] at href
            cases href
        | some decoded =>
          rw [hdec, Option.map_some, toOption_eq_some] at href
          rw [href]
          dsimp only
          rw [ih]
          simp [List.append_assoc, Function.comp_def]

/-- The document is a Secret with a name that some ManagedResource refers to. -/
def nameReferenced (docs : List Unstructured) (d : Unstructured) : Bool :=
  d.getKind == "Secret" && ((namedRefs docs).map (·.2)).contains d.getName

/-- What a run that succeeds returns. -/
theorem unwrap_eq_ok {libs : GoldenLibs} {docs fromMR passthrough : List Unstructured} :
    unwrapManagedResources libs docs = .ok (fromMR, passthrough) ↔
      (∀ d ∈ docs, isManagedResource d = true → RefsReadable d) ∧
      (∃ decoded, List.Forall₂ (fun ref objs => ∃ text,
            ((secretsByName docs).lookup ref.2).bind payload = some text ∧ Decodes libs text objs)
          (namedRefs docs) decoded ∧ fromMR = decoded.flatten) ∧
      passthrough = docs.filter fun d => !isManagedResource d && !nameReferenced docs d := by
  have hrun : ∀ out, unwrapEach libs (secretsByName docs) docs [] [] = .ok out ↔ _ :=
    fun out => toOption_eq_some.symm.trans toOption_unwrapEach
  simp only [Option.map_eq_some_iff, toOption_eq_some, mapEach_eq_ok, unwrapSecret_eq_ok, List.nil_append,
    List.append_nil] at hrun
  rw [unwrapManagedResources]
  constructor
  · intro h
    cases hu : unwrapEach libs (secretsByName docs) docs [] [] with
    | error e =>
      rw [hu] at h
      cases h
    | ok out =>
      obtain ⟨hread, decoded, hdec, rfl⟩ := (hrun out).mp hu
      rw [hu] at h
      cases h
      refine ⟨hread, ⟨decoded, hdec, rfl⟩, ?_⟩
      simp only [nameReferenced, List.contains_reverse]
  · rintro ⟨hread, ⟨decoded, hdec, rfl⟩, rfl⟩
    rw [(hrun _).mpr ⟨hread, decoded, hdec, rfl⟩]
    simp only [nameReferenced, List.contains_reverse]

end DDO.Impl

namespace DDO.Spec

open Impl

/-! ## What unwrapping is for -/

/-- The Secret of this name in this namespace; of several documents the last. -/
def ownSecret (docs : List Unstructured) (ns name : String) : Option Unstructured :=
  lastWith (fun u => (u.getNamespace, u.getName)) (secrets docs) (ns, name)

/-- The reference leads to a Secret of its ManagedResource's namespace, with a payload
that is decoded to these objects. -/
def RefDelivers (libs : GoldenLibs) (docs : List Unstructured) (ref : Unstructured × Json)
    (objs : List Unstructured) : Prop :=
  ∃ name text, entryName ref.2 = some name ∧
    (ownSecret docs ref.1.getNamespace name).bind payload = some text ∧ Decodes libs text objs

/-- The document is a Secret that a ManagedResource of its namespace refers to. -/
def isReferenced (docs : List Unstructured) (d : Unstructured) : Bool :=
  d.getKind == "Secret" &&
    (references docs).any fun ref => ref.1.getNamespace == d.getNamespace && entryName ref.2 == some d.getName

/-- Whatever is unwrapped is what the references deliver, in order; whatever is neither
a wrapper nor referenced is passed through; and there is an error if a reference
delivers nothing. -/
structure LosesNothing (libs : GoldenLibs) (docs : List Unstructured) : Prop where
  fromMR : ∀ fromMR passthrough, unwrapManagedResources libs docs = .ok (fromMR, passthrough) →
    ∃ decoded, List.Forall₂ (RefDelivers libs docs) (references docs) decoded ∧ fromMR = decoded.flatten
  passthrough : ∀ fromMR passthrough, unwrapManagedResources libs docs = .ok (fromMR, passthrough) →
    passthrough = docs.filter fun d => !isManagedResource d && !isReferenced docs d
  failsClosed : (∃ ref ∈ references docs, ∀ objs, ¬ RefDelivers libs docs ref objs) →
    ∃ e, unwrapManagedResources libs docs = .error e

/-! ## When it does -/

/-- The payload that is read for a name: that of the last Secret with it. -/
def readPayload (docs : List Unstructured) (name : String) : Option String :=
  ((secretsByName docs).lookup name).bind payload

/-- Nothing but the decoders can fail. -/
structure Readable (docs : List Unstructured) : Prop where
  refs : ∀ d ∈ docs, isManagedResource d = true → RefsReadable d
  payloads : ∀ ref ∈ namedRefs docs, readPayload docs ref.2 ≠ none

/-- Each reference has a name, under which the payload is read that the Secret of its
ManagedResource's namespace has, and a Secret whose name is referenced is referenced
in its namespace. -/
structure NameSuffices (docs : List Unstructured) : Prop where
  payloads : ∀ ref ∈ references docs, ∃ name, entryName ref.2 = some name ∧
    (ownSecret docs ref.1.getNamespace name).bind payload = readPayload docs name
  secrets : ∀ d ∈ docs, nameReferenced docs d = true → isReferenced docs d = true

variable {libs : GoldenLibs} {docs : List Unstructured}

theorem readable_of_ok {fromMR passthrough : List Unstructured}
    (h : unwrapManagedResources libs docs = .ok (fromMR, passthrough)) : Readable docs := by
  obtain ⟨hrefs, ⟨decoded, hdec, -⟩, -⟩ := unwrap_eq_ok.mp h
  refine ⟨hrefs, fun ref hr => ?_⟩
  obtain ⟨objs, text, ht, -⟩ := exists_of_forall₂ hdec hr
  rw [readPayload, ht]
  exact Option.some_ne_none text

/-- A Secret that is referenced in its namespace has a name that is referenced. -/
theorem nameReferenced_of_isReferenced {d : Unstructured} (h : isReferenced docs d = true) :
    nameReferenced docs d = true := by
  rw [isReferenced, Bool.and_eq_true, List.any_eq_true] at h
  obtain ⟨hk, ref, hr, he⟩ := h
  rw [Bool.and_eq_true, beq_iff_eq, beq_iff_eq] at he
  rw [nameReferenced, Bool.and_eq_true, List.contains_iff_mem, List.mem_map]
  refine ⟨hk, (ref.1, d.getName), List.mem_filterMap.mpr ⟨ref, hr, ?_⟩, rfl⟩
  rw [namedRef, he.2, Option.map_some]

/-- What is read for the references with a name is delivered by all of them. -/
theorem forall₂_refDelivers {refs : List (Unstructured × Json)} {decoded : List (List Unstructured)}
    (hf : ∀ ref ∈ refs, ∃ name, entryName ref.2 = some name ∧
      (ownSecret docs ref.1.getNamespace name).bind payload = readPayload docs name)
    (h : List.Forall₂ (fun ref objs => ∃ text, readPayload docs ref.2 = some text ∧ Decodes libs text objs)
      (refs.filterMap namedRef) decoded) :
    List.Forall₂ (RefDelivers libs docs) refs decoded := by
  induction refs generalizing decoded with
  | nil =>
    cases h
    exact .nil
  | cons ref refs ih =>
    rw [List.forall_mem_cons] at hf
    obtain ⟨⟨name, hn, hown⟩, hrest⟩ := hf
    rw [List.filterMap_cons_some (show namedRef ref = some (ref.1, name) by rw [namedRef, hn, Option.map_some])] at h
    cases h with
    | cons hd hds =>
      obtain ⟨text, ht, hobjs⟩ := hd
      exact .cons ⟨name, text, hn, hown.trans ht, hobjs⟩ (ih hrest hds)

theorem losesNothing_of_nameSuffices (h : Readable docs → NameSuffices docs) : LosesNothing libs docs := by
  have hfrom : ∀ fromMR passthrough, unwrapManagedResources libs docs = .ok (fromMR, passthrough) →
      ∃ decoded, List.Forall₂ (RefDelivers libs docs) (references docs) decoded ∧ fromMR = decoded.flatten := by
    intro fromMR passthrough hok
    obtain ⟨-, ⟨decoded, hdec, hflat⟩, -⟩ := unwrap_eq_ok.mp hok
    exact ⟨decoded, forall₂_refDelivers (h (readable_of_ok hok)).payloads hdec, hflat⟩
  refine ⟨hfrom, fun fromMR passthrough hok => ?_, ?_⟩
  · obtain ⟨-, -, rfl⟩ := unwrap_eq_ok.mp hok
    have hf := h (readable_of_ok hok)
    refine List.filter_congr fun d hd => ?_
    rw [Bool.eq_iff_iff.mpr ⟨hf.secrets d hd, nameReferenced_of_isReferenced⟩]
  · rintro ⟨ref, hr, hnone⟩
    cases hu : unwrapManagedResources libs docs with
    | error e => exact ⟨e, rfl⟩
    | ok out =>
      obtain ⟨decoded, hdec, -⟩ := hfrom out.1 out.2 hu
      obtain ⟨objs, hobjs⟩ := exists_of_forall₂ hdec hr
      exact absurd hobjs (hnone objs)

/-! ## When it does not -/

/-- The document that shows a text. -/
def textDoc (text : String) : Unstructured := ⟨[("text", .str text)]⟩

/-- Decoders of which nothing is lost: the payload is the text of one document. -/
def textLibs : GoldenLibs := ⟨.ok, fun raw => [.ok (textDoc raw).object]⟩

theorem decodes_textLibs {text : String} {objs : List Unstructured} :
    Decodes textLibs text objs ↔ objs = [textDoc text] := by
  rw [decodes_iff]
  constructor
  · rintro ⟨raw, hr, hs⟩
    cases hr
    cases hs
    rfl
  · rintro rfl
    exact ⟨text, rfl, rfl⟩

/-- If nothing else fails, the run with these decoders succeeds. -/
theorem unwrap_textLibs (h : Readable docs) :
    unwrapManagedResources textLibs docs =
      .ok (((namedRefs docs).map fun ref => [textDoc ((readPayload docs ref.2).getD "")]).flatten,
        docs.filter fun d => !isManagedResource d && !nameReferenced docs d) := by
  refine unwrap_eq_ok.mpr ⟨h.refs, ⟨_, ?_, rfl⟩, rfl⟩
  rw [List.forall₂_map_right_iff, List.forall₂_same]
  intro ref hr
  obtain ⟨text, ht⟩ := Option.ne_none_iff_exists'.mp (h.payloads ref hr)
  exact ⟨text, ht, decodes_textLibs.mpr (by rw [ht, Option.getD_some])⟩

/-- From the documents, the payloads that were read are known. -/
theorem payloads_of_refDelivers {refs : List (Unstructured × Json)} {decoded : List (List Unstructured)}
    (hp : ∀ ref ∈ refs.filterMap namedRef, readPayload docs ref.2 ≠ none)
    (h : List.Forall₂ (RefDelivers textLibs docs) refs decoded)
    (he : ((refs.filterMap namedRef).map fun ref => [textDoc ((readPayload docs ref.2).getD "")]).flatten =
      decoded.flatten) :
    ∀ ref ∈ refs, ∃ name, entryName ref.2 = some name ∧
      (ownSecret docs ref.1.getNamespace name).bind payload = readPayload docs name := by
  induction h with
  | nil => exact fun _ h => absurd h List.not_mem_nil
  | @cons ref objs refs decoded hd _ ih =>
    obtain ⟨name, text, hn, ht, hobjs⟩ := hd
    rw [decodes_textLibs] at hobjs
    subst hobjs
    rw [List.filterMap_cons_some (show namedRef ref = some (ref.1, name) by rw [namedRef, hn, Option.map_some])] at hp he
    rw [List.forall_mem_cons] at hp
    obtain ⟨text', ht'⟩ := Option.ne_none_iff_exists'.mp hp.1
    rw [List.map_cons, List.flatten_cons, List.flatten_cons, ht', Option.getD_some, List.singleton_append,
      List.singleton_append, List.cons.injEq] at he
    have htext : text' = text := by
      have ho := congrArg Unstructured.object he.1
      simpa [textDoc] using ho
    refine List.forall_mem_cons.mpr ⟨⟨name, hn, ?_⟩, ih hp.2 he.2⟩
    rw [ht, ht', htext]

theorem nameSuffices_of_losesNothing (h : LosesNothing textLibs docs) (hr : Readable docs) : NameSuffices docs := by
  have hok := unwrap_textLibs hr
  constructor
  · obtain ⟨decoded, hdec, hflat⟩ := h.fromMR _ _ hok
    exact payloads_of_refDelivers hr.payloads hdec hflat
  · intro d hd hname
    by_contra hn
    have hk : d.getKind = "Secret" := by
      rw [nameReferenced, Bool.and_eq_true, beq_iff_eq] at hname
      exact hname.1
    have hmr : isManagedResource d = false := by
      rw [isManagedResource, hk]
      rfl
    -- it should be passed through, and is not
    have hpass : d ∈ docs.filter fun d => !isManagedResource d && !isReferenced docs d :=
      List.mem_filter.mpr ⟨hd, by simp [hmr, hn]⟩
    rw [← h.passthrough _ _ hok, List.mem_filter, hname] at hpass
    simp at hpass

/-- **When unwrapping loses nothing.** Whatever the decoders are, what is unwrapped is
what the references deliver from the Secrets of their namespaces, what is neither a
wrapper nor referenced is passed through, and a reference that delivers nothing is an
error, if and only if, unless an accessor or a lookup fails, each reference has a name
under which the payload of its own namespace is read, and no Secret with a referenced
name is in a namespace where it is not referenced. -/
theorem unwrapping_loses_nothing_iff (docs : List Unstructured) :
    (∀ libs, LosesNothing libs docs) ↔ (Readable docs → NameSuffices docs) :=
  ⟨fun h => nameSuffices_of_losesNothing (h textLibs), fun h _ => losesNothing_of_nameSuffices h⟩

/-- It is enough that the Secrets with a referenced name are all in the namespace of
the ManagedResources that refer to it. -/
theorem nameSuffices_of_namespaces (hm : ∀ ref ∈ references docs, entryName ref.2 ≠ none)
    (hns : ∀ ref ∈ namedRefs docs, ∀ sec ∈ secrets docs,
      sec.getName = ref.2 → sec.getNamespace = ref.1.getNamespace) : NameSuffices docs := by
  constructor
  · intro ref hr
    obtain ⟨name, hn⟩ := Option.ne_none_iff_exists'.mp (hm ref hr)
    have hmem : (ref.1, name) ∈ namedRefs docs :=
      List.mem_filterMap.mpr ⟨ref, hr, by rw [namedRef, hn, Option.map_some]⟩
    refine ⟨name, hn, ?_⟩
    rw [readPayload, lookup_secretsByName, ownSecret]
    congr 1
    refine lastWith_congr fun sec hs => ?_
    rw [Prod.mk.injEq]
    exact ⟨fun h => h.2, fun h => ⟨hns _ hmem sec hs h, h⟩⟩
  · intro d hd hname
    rw [nameReferenced, Bool.and_eq_true, List.contains_iff_mem, List.mem_map] at hname
    obtain ⟨hk, ref, hr, he⟩ := hname
    obtain ⟨ref', hr', hnamed⟩ := List.mem_filterMap.mp hr
    obtain ⟨name, hn, rfl⟩ := Option.map_eq_some_iff.mp hnamed
    have hsec : d ∈ secrets docs := List.mem_filter.mpr ⟨hd, hk⟩
    rw [isReferenced, hk, Bool.true_and, List.any_eq_true]
    refine ⟨ref', hr', ?_⟩
    rw [Bool.and_eq_true, beq_iff_eq, beq_iff_eq, hn, ← he]
    exact ⟨(hns _ hr d hsec he.symm).symm, rfl⟩

/-- A ManagedResource of this namespace that refers to the Secret `payload`. -/
def wrapper (ns : String) : Unstructured :=
  ⟨[("apiVersion", .str "resources.gardener.cloud/v1alpha1"), ("kind", .str "ManagedResource"),
    ("metadata", .obj [("name", .str "mr"), ("namespace", .str ns)]),
    ("spec", .obj [("secretRefs", .arr [.obj [("name", .str "payload")]])])]⟩

/-- The Secret `payload` of this namespace, with this payload. -/
def payloadSecret (ns text : String) : Unstructured :=
  ⟨[("apiVersion", .str "v1"), ("data", .obj [("objects.yaml", .str text)]), ("kind", .str "Secret"),
    ("metadata", .obj [("name", .str "payload"), ("namespace", .str ns)])]⟩

/-- A ManagedResource and its Secret. -/
def wrapped : List Unstructured := [wrapper "garden", payloadSecret "garden" "a"]

theorem references_wrapped : references wrapped = [(wrapper "garden", .obj [("name", .str "payload")])] := rfl

theorem unwrapping_loses_nothing_wrapped :
    Readable wrapped ∧ NameSuffices wrapped ∧ ∀ libs, LosesNothing libs wrapped := by
  have hrun : unwrapManagedResources textLibs wrapped = .ok ([textDoc "a"], []) := rfl
  have hf : NameSuffices wrapped := by
    refine nameSuffices_of_namespaces ?_ fun ref hr sec hs _ => ?_
    · rw [references_wrapped]
      exact List.forall_mem_singleton.mpr (Option.some_ne_none _)
    · rw [namedRefs, references_wrapped] at hr
      rw [List.mem_singleton.mp hr, List.mem_singleton.mp hs]
      rfl
  exact ⟨readable_of_ok hrun, hf, (unwrapping_loses_nothing_iff wrapped).mpr fun _ => hf⟩

/-- A ManagedResource, its Secret, and a Secret of the same name in another
namespace. -/
def wrappedTwice : List Unstructured :=
  [wrapper "garden", payloadSecret "garden" "a", payloadSecret "other" "b"]

/-- The payload is read from the other namespace, and the Secret there, which nothing
refers to, is dropped without an error. -/
theorem other_namespace_is_dropped :
    unwrapManagedResources textLibs wrappedTwice = .ok ([textDoc "b"], []) ∧
      ownSecret wrappedTwice "garden" "payload" = some (payloadSecret "garden" "a") ∧
      isReferenced wrappedTwice (payloadSecret "other" "b") = false ∧ ¬ LosesNothing textLibs wrappedTwice := by
  have hrun : unwrapManagedResources textLibs wrappedTwice = .ok ([textDoc "b"], []) := rfl
  have hno : isReferenced wrappedTwice (payloadSecret "other" "b") = false := by decide +kernel
  refine ⟨hrun, rfl, hno, fun h => ?_⟩
  have hf := nameSuffices_of_losesNothing h (readable_of_ok hrun)
  have hyes := hf.secrets (payloadSecret "other" "b") (by simp [wrappedTwice]) (by decide +kernel)
  rw [hno] at hyes
  cases hyes

end DDO.Spec
