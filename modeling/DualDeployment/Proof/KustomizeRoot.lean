import DualDeployment.Framework.Stream
import DualDeployment.Proof.CacheKey

/-!
# The kustomize root

`Resolve` returns the checkout directory joined with two paths, the one after the
double slash of the URL and the mode's, and the join is lexical. It is within the
checkout, whatever directory that is, exactly if the two paths together do not
climb (`join_within_iff`, `kustomize_root_inside_iff`).
-/

namespace DDO.Spec

open Impl Prog DDO.Path

/-- The name of a checkout. -/
def checkoutName (n : Nat) : String := "ddo-kustomize-" ++ toString n

/-- A directory that `os.MkdirTemp` makes for a checkout. -/
def CheckoutDir (dir : String) : Prop :=
  ∃ parent n, n < 2 ^ 64 ∧ dir = parent ++ "/" ++ checkoutName n

theorem dir_ne_empty (parent name : String) : parent ++ "/" ++ name ≠ "" := by
  intro he
  have hl := congrArg String.toList he
  simp at hl

/-- Of two checkouts side by side, paths that climb lead into one at most. -/
theorem not_within_both {a b : String} (h : climbs 0 (elements a ++ elements b) = true) {n₀ n₁ : Name}
    (hne : n₀ ≠ n₁)
    (h₀ : IsWithin ("/tmp" ++ "/" ++ String.ofList n₀.1.1)
      (join ["/tmp" ++ "/" ++ String.ofList n₀.1.1, a, b]))
    (h₁ : IsWithin ("/tmp" ++ "/" ++ String.ofList n₁.1.1)
      (join ["/tmp" ++ "/" ++ String.ofList n₁.1.1, a, b])) : False := by
  obtain ⟨es, hes⟩ := walk_climbs h
  let q := walk (start true) (elements "/tmp")
  -- where the paths lead does not depend on the checkout's name
  have hwithin : ∀ n : Name, IsWithin ("/tmp" ++ "/" ++ String.ofList n.1.1)
      (join ["/tmp" ++ "/" ++ String.ofList n.1.1, a, b]) → q.names ++ [n] <+: (walk q es).names := by
    rintro n ⟨-, -, hn⟩
    have hroot : isRooted ("/tmp" ++ "/" ++ String.ofList n.1.1) = true := by
      simp [isRooted]
    have hclean := clean_name "/tmp" n
    rw [hroot] at hclean
    rw [clean_join (dir_ne_empty _ _), hclean] at hn
    rw [hes (step q (.name n)) q.names [] n rfl (by rw [List.append_nil]; rfl)] at hn
    exact hn
  have hpre := List.prefix_of_prefix_length_le (hwithin n₀ h₀) (hwithin n₁ h₁) (by simp)
  rw [List.prefix_append_right_inj] at hpre
  obtain ⟨t, ht⟩ := hpre
  exact hne (List.cons.inj ht).1

/-- The join is within every checkout exactly if the paths do not climb. -/
theorem join_within_iff (a b : String) :
    (∀ dir, CheckoutDir dir → IsWithin dir (join [dir, a, b])) ↔
      climbs 0 (elements a ++ elements b) = false := by
  constructor
  · intro h
    refine (Bool.not_eq_true _).mp fun hc => ?_
    have hwithin : ∀ n < 2 ^ 64, IsWithin ("/tmp" ++ "/" ++ String.ofList (checkoutName n).toList)
        (join ["/tmp" ++ "/" ++ String.ofList (checkoutName n).toList, a, b]) := by
      intro n hn
      exact h _ ⟨"/tmp", n, hn, by rw [String.ofList_toList]⟩
    let zero : Name := ⟨⟨(checkoutName 0).toList, by decide⟩, by decide⟩
    let one : Name := ⟨⟨(checkoutName 1).toList, by decide⟩, by decide⟩
    exact not_within_both hc (show zero ≠ one by decide) (hwithin 0 (by decide)) (hwithin 1 (by decide))
  · rintro h dir ⟨parent, n, -, rfl⟩
    obtain ⟨ns, hw⟩ := walk_stays (List.append_nil _).symm h
    rw [IsWithin, clean_join (dir_ne_empty _ _), hw]
    exact ⟨rfl, rfl, List.prefix_append _ _⟩

/-- **The kustomize root.** For every URL that `splitRef` accepts and every path of a
mode: the path that `Resolve` returns on success is the checkout directory or below
it, whatever directory that is, if and only if the root path of the URL and the
mode's path do not climb above it. -/
theorem kustomize_root_inside_iff {resolver : GitResolver} {net : NetURL} {url sub base root ref : String}
    {t : List (Event FetchAnswer)} {k : KustomizeRoot} (hsp : splitRef net url = .ok (base, root, ref))
    (h : Trace (resolver.root net url sub) t (.ok k)) :
    (∀ dir, CheckoutDir dir → IsWithin dir (k.fsPath dir)) ↔
      climbs 0 (elements root ++ elements sub) = false := by
  obtain ⟨hr, hs, -⟩ := root_trace h hsp
  rw [← join_within_iff, ← hr, ← hs]
  rfl

/-- A run of `Resolve` on a URL with this root path, in a public repository. -/
def rootURL (root : String) : String := "https://git.example/app//" ++ root ++ "?ref=main"

theorem rootRun {root : String}
    (hsp : splitRef sampleNet (rootURL root) = .ok ("https://git.example/app", root, "main")) (sub : String) :
    Trace (GitResolver.root ⟨none⟩ sampleNet (rootURL root) sub)
      [⟨.clone "https://git.example/app" none "refs/tags/main", .ok sampleHash⟩]
      (.ok ⟨sampleHash, root, sub⟩) := by
  rw [GitResolver.root, hsp]
  exact .call (.ret _)

theorem overlay_splitRef : splitRef sampleNet (rootURL "deploy/../app") =
    .ok ("https://git.example/app", "deploy/../app", "main") :=
  toOption_eq_some.mp (by decide +kernel)

theorem kustomize_root_inside_overlay :
    IsWithin "/tmp/ddo-kustomize-7" (KustomizeRoot.fsPath ⟨sampleHash, "deploy/../app", "seed"⟩
      "/tmp/ddo-kustomize-7") :=
  (kustomize_root_inside_iff overlay_splitRef (rootRun overlay_splitRef "seed")).mpr (by decide +kernel) _
    ⟨"/tmp", 7, by decide, by decide⟩

/-- A root path that climbs: `Resolve` returns a path outside the checkout. -/
theorem root_climbs_out :
    Trace (GitResolver.root ⟨none⟩ sampleNet (rootURL "../../etc") "seed")
        [⟨.clone "https://git.example/app" none "refs/tags/main", .ok sampleHash⟩]
        (.ok ⟨sampleHash, "../../etc", "seed"⟩) ∧
      KustomizeRoot.fsPath ⟨sampleHash, "../../etc", "seed"⟩ "/tmp/ddo-kustomize-7" = "/etc/seed" ∧
      ¬ IsWithin "/tmp/ddo-kustomize-7" "/etc/seed" := by
  refine ⟨rootRun (toOption_eq_some.mp (by decide +kernel)) "seed", by decide +kernel, ?_⟩
  rintro ⟨-, -, h⟩
  revert h
  decide +kernel

end DDO.Spec
