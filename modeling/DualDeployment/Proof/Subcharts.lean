import DualDeployment.Impl.Subcharts

/-!
# Missing subcharts

`resolveDepsPlan` skips the build if every dependency passes its test for vendored
subcharts (`plan_eq_false_iff`), and asks for it only if the build can resolve all
of them (`plan_eq_true`). The test is a glob on file names: `redis-*.tgz` is also
the name of an archive of the chart `redis-cluster` (`vendored_plain_iff`), so a
chart may be rendered without a subchart it declares (`subcharts_present_iff`).
-/

namespace DDO.Impl.ChartDir

/-- The declared dependencies. -/
def dependencies (c : ChartDir) : List Dependency :=
  match c.chartfile with
  | .error _ => []
  | .ok m => m.dependencies

/-- The subchart is there: as a directory, or as an archive of that chart. -/
def Present (c : ChartDir) (name : String) : Prop :=
  c.unpackedSubchartExists name = true ∨ ∃ version, .archive name version ∈ c.entries

/-- The subchart is not there and passes the test for vendored ones. -/
def Mistaken (c : ChartDir) (name : String) : Prop :=
  ¬ c.Present name ∧ c.vendoredSubchartExists name = true

/-- A dependency that `Build` can resolve. -/
def Buildable (c : ChartDir) (d : Dependency) : Prop :=
  isOCI d.repository = true ∨ isFile d.repository = true ∨
    d.repository = "" ∧ c.unpackedSubchartExists d.name = true

variable {c : ChartDir}

theorem buildError_eq_none {chart : String} {d : Dependency} (h : c.buildError chart d = none) :
    c.Buildable d := by
  rw [buildError] at h
  split_ifs at h with hr hu hs
  · exact .inr (.inr ⟨hr, hu⟩)
  · rcases Bool.or_eq_true _ _ |>.mp hs with hf | ho
    · exact .inr (.inl hf)
    · exact .inl ho

/-- The build is skipped if every dependency passes the test. -/
theorem plan_eq_false_iff {m : Chartfile} (hm : c.chartfile = .ok m) :
    c.resolveDepsPlan = .ok false ↔ ∀ d ∈ m.dependencies, c.vendoredSubchartExists d.name = true := by
  have hall : (!(m.dependencies.any fun d => !c.vendoredSubchartExists d.name)) = true ↔
      ∀ d ∈ m.dependencies, c.vendoredSubchartExists d.name = true := by
    simp
  rw [resolveDepsPlan, hm, ← hall]
  simp only
  split_ifs with hempty h
  · refine iff_of_true rfl ?_
    rw [List.isEmpty_iff.mp hempty]
    rfl
  · exact iff_of_true rfl h
  · refine iff_of_false (fun hp => ?_) h
    split at hp
    · cases hp
    · split at hp <;> cases hp

/-- The build is done with a lock file, and of dependencies that can be resolved. -/
theorem plan_eq_true {m : Chartfile} (hm : c.chartfile = .ok m) (h : c.resolveDepsPlan = .ok true) :
    c.lock = .present ∧ ∀ d ∈ m.dependencies, c.Buildable d := by
  rw [resolveDepsPlan, hm] at h
  simp only at h
  split_ifs at h
  · cases h
  · cases h
  · split at h
    · cases h
    · rename_i hnone
      split at h
      · rename_i hl
        exact ⟨hl, fun d hd => buildError_eq_none (List.findSome?_eq_none_iff.mp hnone d hd)⟩
      · cases h
      · cases h

/-- For a plain name, any entry whose name begins with it and a dash will do. -/
theorem vendored_plain_iff {name : String} (hp : ∀ d ∈ name.toList, Glob.plain d = true)
    (hs : '/' ∉ name.toList) : c.vendoredSubchartExists name = true ↔
      c.unpackedSubchartExists name = true ∨
        ∃ e ∈ c.entries, ∃ x, '/' ∉ x.toList ∧ e.name = name ++ "-" ++ x ++ ".tgz" := by
  have hdash : ∀ d ∈ (name ++ "-").toList, Glob.plain d = true := by
    intro d hd
    rw [String.toList_append, List.mem_append] at hd
    rcases hd with hd | hd
    · exact hp d hd
    · rw [List.mem_singleton.mp hd]
      decide
  have hpat : name ++ "-*.tgz" = name ++ "-" ++ "*" ++ ".tgz" := by
    rw [← String.toList_inj]
    simp
  have htgz : ∀ d ∈ ".tgz".toList, Glob.plain d = true := List.all_eq_true.mp rfl
  rw [vendoredSubchartExists, Bool.or_eq_true, if_neg hs, List.any_eq_true, hpat]
  simp only [decide_eq_true_eq, Glob.globMatch_star hdash htgz]

end DDO.Impl.ChartDir

namespace DDO.Spec

open Impl

/-- **Subcharts.** For every chart directory: a chart whose build is skipped has
every subchart it declares, and one that is built has a lock file and only
dependencies that `Build` can resolve, if and only if some dependency fails the
test for vendored subcharts or none is mistaken for one. -/
theorem subcharts_present_iff (c : ChartDir) :
    ((c.resolveDepsPlan = .ok false → ∀ d ∈ c.dependencies, c.Present d.name) ∧
      (c.resolveDepsPlan = .ok true → c.lock = .present ∧ ∀ d ∈ c.dependencies, c.Buildable d)) ↔
      ((∃ d ∈ c.dependencies, c.vendoredSubchartExists d.name = false) ∨
        ∀ d ∈ c.dependencies, ¬ c.Mistaken d.name) := by
  rw [ChartDir.dependencies]
  cases hm : c.chartfile with
  | error e =>
    have herr : ∀ b, c.resolveDepsPlan ≠ .ok b := by
      intro b h
      rw [ChartDir.resolveDepsPlan, hm] at h
      cases h
    exact iff_of_true ⟨fun h => absurd h (herr _), fun h => absurd h (herr _)⟩
      (.inr fun d hd => by cases hd)
  | ok m =>
    rw [and_iff_left fun h => ChartDir.plan_eq_true hm h, ChartDir.plan_eq_false_iff hm]
    constructor
    · intro h
      by_cases hall : ∀ d ∈ m.dependencies, c.vendoredSubchartExists d.name = true
      · exact .inr fun d hd hmis => hmis.1 (h hall d hd)
      · obtain ⟨d, hd⟩ := not_forall.mp hall
        obtain ⟨hd, hv⟩ := Classical.not_imp.mp hd
        exact .inl ⟨d, hd, (Bool.not_eq_true _).mp hv⟩
    · rintro (⟨d, hd, hv⟩ | hmis) hall
      · exact absurd (hall d hd) (by rw [hv]; decide)
      · exact fun d hd => by_contra fun hno => hmis d hd ⟨hno, hall d hd⟩

/-- A chart with one dependency on the chart `redis`, and these entries under
`charts/`. -/
def redisUser (charts : List ChartsEntry) : ChartDir where
  chartfile := .ok ⟨"app", [⟨"redis", "https://charts.example"⟩]⟩
  charts := some charts
  lock := .absent
  otherDir _ := false
  otherGlob _ := false

theorem redisUser_vendored {charts : List ChartsEntry} {e : ChartsEntry} (he : e ∈ charts) {x : String}
    (hx : '/' ∉ x.toList) (hn : e.name = "redis" ++ "-" ++ x ++ ".tgz") :
    (redisUser charts).vendoredSubchartExists "redis" = true :=
  (ChartDir.vendored_plain_iff (List.all_eq_true.mp rfl) (by decide)).mpr (.inr ⟨e, he, x, hx, hn⟩)

theorem subcharts_present_archive :
    (redisUser [.archive "redis" "1.2.3"]).resolveDepsPlan = .ok false ∧
      ∀ d ∈ (redisUser [.archive "redis" "1.2.3"]).dependencies,
        (redisUser [.archive "redis" "1.2.3"]).Present d.name := by
  have hplan : (redisUser [.archive "redis" "1.2.3"]).resolveDepsPlan = .ok false := by
    refine (ChartDir.plan_eq_false_iff rfl).mpr fun d hd => ?_
    rw [List.mem_singleton.mp hd]
    exact redisUser_vendored (List.mem_singleton_self _) (by decide) rfl
  refine ⟨hplan, ((subcharts_present_iff _).mpr (.inr fun d hd hmis => ?_)).1 hplan⟩
  rw [List.mem_singleton.mp hd] at hmis
  exact hmis.1 (.inr ⟨"1.2.3", List.mem_singleton_self _⟩)

/-- An archive of `redis-cluster` passes for one of `redis`. -/
theorem redis_cluster_mistaken :
    (redisUser [.archive "redis-cluster" "1.2.3"]).resolveDepsPlan = .ok false ∧
      ¬ (redisUser [.archive "redis-cluster" "1.2.3"]).Present "redis" := by
  refine ⟨(ChartDir.plan_eq_false_iff rfl).mpr fun d hd => ?_, fun h => ?_⟩
  · rw [List.mem_singleton.mp hd]
    exact redisUser_vendored (List.mem_singleton_self _) (x := "cluster-1.2.3") (by decide) rfl
  · rcases h with h | ⟨version, h⟩
    · exact absurd h (by decide)
    · exact absurd (ChartsEntry.archive.inj (List.mem_singleton.mp h)).1 (by decide)

end DDO.Spec
