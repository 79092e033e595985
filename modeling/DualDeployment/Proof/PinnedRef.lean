import DualDeployment.Framework.Stream
import DualDeployment.Proof.CacheKey

/-!
# Pinned refs

What a ref stands for in a repository (`Designates`) against what `Resolve`
checks out and what `ResolveID` answers. For a ref that is no hash the two agree
on the tag or branch of that name (`fetch_resolveID_named`). A ref that looks
like a hash is padded with zeros and checked out: unless it is the whole hash of a
commit, that is some other commit, the one that an annotated tag is for, or the
branch `master` (`pinned_checkout_iff`), and the tag or branch of that name is never
looked at (`advertised_resolves_iff`).
-/

namespace DDO.Impl.CommitHash

/-- A whole hash is its own text. -/
theorem new_text {s : String} (h : isSHA s = true) (hl : s.toList.length = 40) : (new s).text = s := by
  simp only [isSHA, Bool.decide_and, Bool.and_eq_true, decide_eq_true_eq, List.all_eq_true] at h
  have hhex : (s.toList.takeWhile fun c => isHexDigit c) = s.toList := by
    have happ : (s.toList ++ []).takeWhile (fun c => isHexDigit c) = _ := List.takeWhile_append_of_pos h.2.2
    rwa [List.takeWhile_nil, List.append_nil] at happ
  have htake : s.toList.take 40 = s.toList := List.take_of_length_le (le_of_eq hl)
  simp [text, new, hhex, htake, hl]

theorem text_length (h : CommitHash) : h.text.toList.length = 40 := by
  rw [text, String.toList_ofList, h.length]

end DDO.Impl.CommitHash

namespace DDO.Spec

open Impl Prog

namespace GitRemote

variable (g : GitRemote)

/-- The commit of a tag. -/
def tag (name : String) : Option CommitHash := g.cloned ("refs/tags/" ++ name)

/-- The head of a branch. -/
def branch (name : String) : Option CommitHash := g.cloned ("refs/heads/" ++ name)

/-- A commit of the repository. -/
def Has (c : CommitHash) : Prop := c ∈ g.commits ∨ ∃ rn, g.cloned rn = some c

/-- The commit with this hash, or else that of the tag of this name, or else, if
there is no such tag, the head of the branch of this name. -/
inductive Designates (ref : String) (c : CommitHash) : Prop where
  | hash (h : c.text = ref)
  | tag (h : ∀ c, g.Has c → c.text ≠ ref) (ht : g.tag ref = some c)
  | branch (h : ∀ c, g.Has c → c.text ≠ ref) (ht : g.tag ref = none) (hb : g.branch ref = some c)

/-- The ref is taken for a hash and is not a whole one of a commit, and still
something is checked out: the branch `master` for zeros, and else a commit whose
hash has only zeros after the ref's digits, or the commit that an annotated tag is
for whose object has such a hash. -/
def Misread (ref : String) : Prop :=
  isSHA ref = true ∧
    ((CommitHash.new ref = .zero ∧ ∃ c, g.repo.heads.lookup "master" = some c ∧ c.text ≠ ref) ∨
      (CommitHash.new ref ≠ .zero ∧ ref.toList.length < 40 ∧ CommitHash.new ref ∈ g.commits) ∨
      (CommitHash.new ref ≠ .zero ∧ CommitHash.new ref ∉ g.commits ∧
        ∃ c, g.objects.lookup (CommitHash.new ref) = some (.tag c) ∧ c.text ≠ ref))

variable {g} {ref : String}

theorem isSHA_text (c : CommitHash) : isSHA c.text = true := by
  have hall : (c.text.toList.all fun d => isHexDigit d) = true := by
    rw [CommitHash.text, String.toList_ofList]
    exact List.all_eq_true.mpr c.hex
  rw [isSHA, c.text_length, hall]
  decide

theorem isSHA_length (hs : isSHA ref = true) : ref.toList.length ≤ 40 := by
  simp only [isSHA, Bool.decide_and, Bool.and_eq_true, decide_eq_true_eq] at hs
  exact hs.2.1

theorem cloned_unpeeled {rn : String} {c : CommitHash} (h : g.cloned rn = some c) :
    (peeledName rn).isSome = false := by
  rw [cloned] at h
  split_ifs at h with hp
  exact (Bool.not_eq_true _).mp hp

theorem named_unpeeled (h : (g.tag ref).isSome = true ∨ (g.branch ref).isSome = true) :
    (peeledName ref).isSome = false := by
  rcases h with h | h
  · obtain ⟨c, hc⟩ := Option.isSome_iff_exists.mp h
    exact (peeledName_qualified "refs/tags/" ref (by decide)).symm.trans (cloned_unpeeled hc)
  · obtain ⟨c, hc⟩ := Option.isSome_iff_exists.mp h
    exact (peeledName_qualified "refs/heads/" ref (by decide)).symm.trans (cloned_unpeeled hc)

theorem designated_named (hs : isSHA ref = false) :
    g.designated ref = (g.tag ref).or (g.branch ref) := by
  rw [designated, hs, if_neg Bool.false_ne_true]
  rfl

/-- A misread ref is one that another commit is checked out for. -/
theorem misread_iff (hs : isSHA ref = true) :
    g.Misread ref ↔ ∃ c, g.designated ref = some c ∧ c.text ≠ ref := by
  rw [Misread, and_iff_right hs, designated, if_pos hs, GitRepo.checkout]
  by_cases hz : CommitHash.new ref = .zero
  · rw [if_pos hz]
    simp only [hz, true_and, ne_eq, not_true_eq_false, false_and, or_false]
    cases g.repo.heads.lookup "master" with
    | none =>
      constructor
      · rintro ⟨_, h, -⟩
        cases h
      · rintro ⟨_, h, -⟩
        cases h
    | some c => rfl
  · rw [if_neg hz]
    simp only [hz, false_and, false_or, ne_eq, not_false_eq_true, true_and]
    by_cases hm : CommitHash.new ref ∈ g.commits
    · have hm' : CommitHash.new ref ∈ g.repo.commits := hm
      simp only [hm, and_true, not_true_eq_false, false_and, or_false, if_pos hm']
      constructor
      · intro hl
        refine ⟨_, rfl, fun ht => ?_⟩
        have hlen := (CommitHash.new ref).text_length
        rw [ht] at hlen
        omega
      · rintro ⟨c, hc, ht⟩
        cases hc
        exact lt_of_le_of_ne (isSHA_length hs) fun hl => ht (CommitHash.new_text hs hl)
    · have hm' : CommitHash.new ref ∉ g.repo.commits := hm
      simp only [hm, and_false, not_false_eq_true, true_and, false_or, if_neg hm']
      have hobjects : g.repo.objects = g.objects := rfl
      rw [hobjects]
      cases g.objects.lookup (CommitHash.new ref) with
      | none => simp [Except.toOption]
      | some o => cases o <;> simp [Except.toOption]

end GitRemote

variable {R : Remotes} {net : NetURL} {resolver : GitResolver} {url sub base root ref : String}
  {auth : Option BasicAuth} {g : GitRemote}

/-- `Resolve` gives the root in the commit that is checked out for the ref. -/
theorem fetch_root_eq_ok (hsp : splitRef net url = .ok (base, root, ref)) (ha : R.auth resolver = .ok auth)
    (hg : R.git base auth = .ok g) {k : KustomizeRoot} :
    R.fetch (resolver.root net url sub) = .ok k ↔
      g.designated ref = some k.commit ∧ k = ⟨k.commit, root, sub⟩ := by
  have hf := @fetch_root R net resolver url sub
  have hcommit : R.commit net url resolver = g.designated ref := by
    simp only [Remotes.commit, hsp, ha, hg]
    rfl
  have hroot : rootSubPathOf net url = root := by
    simp only [rootSubPathOf, hsp]
  rw [hcommit, hroot] at hf
  rw [← toOption_eq_some, hf, Option.map_eq_some_iff]
  constructor
  · rintro ⟨c, hc, rfl⟩
    exact ⟨hc, rfl⟩
  · rintro ⟨hc, hk⟩
    exact ⟨k.commit, hc, hk.symm⟩

/-- A ref that looks like a hash is its own id. -/
theorem fetch_resolveID_hash (hsp : splitRef net url = .ok (base, root, ref)) (hs : isSHA ref = true) :
    R.fetch (resolver.resolveID net url) = .ok ref := by
  simp only [GitResolver.resolveID, hsp, hs, if_true]
  rfl

/-- The id of any other ref is the commit that is checked out for it. -/
theorem fetch_resolveID_named (hsp : splitRef net url = .ok (base, root, ref))
    (ha : R.auth resolver = .ok auth) (hg : R.git base auth = .ok g) (hs : isSHA ref = false)
    (hp : (peeledName ref).isSome = false) {c : CommitHash} (hc : g.designated ref = some c) :
    R.fetch (resolver.resolveID net url) = .ok c.text := by
  rw [← GitRemote.candidate_eq hs hp] at hc
  have hlist : R.answer (.listRefs base auth) = .ok g.refs := by
    rw [Remotes.answer, hg]
    rfl
  simp only [GitResolver.resolveID, hsp, hs, Bool.false_eq_true, if_false, Remotes.fetch_bind, fetch_authFor, ha]
  rw [Remotes.fetch_request, hlist]
  simp only [hc]
  rfl

/-- **Pinned checkouts.** For a repository that stays as it is and answers every
request: `Resolve`, if it succeeds, checks out the commit that the ref designates
and `ResolveID` answers its hash, if and only if the ref is not misread. -/
theorem pinned_checkout_iff (sub : String) (hsp : splitRef net url = .ok (base, root, ref))
    (ha : R.auth resolver = .ok auth) (hg : R.git base auth = .ok g) :
    (∀ k, R.fetch (resolver.root net url sub) = .ok k →
        g.Designates ref k.commit ∧ R.fetch (resolver.resolveID net url) = .ok k.commit.text) ↔
      ¬ g.Misread ref := by
  cases hs : isSHA ref with
  | true =>
    rw [GitRemote.misread_iff hs, fetch_resolveID_hash hsp hs]
    constructor
    · rintro h ⟨c, hc, ht⟩
      obtain ⟨-, hid⟩ := h ⟨c, root, sub⟩ ((fetch_root_eq_ok hsp ha hg).mpr ⟨hc, rfl⟩)
      exact ht (Except.ok.inj hid).symm
    · intro h k hk
      have hc := ((fetch_root_eq_ok hsp ha hg).mp hk).1
      have ht : k.commit.text = ref := by_contra fun ht => h ⟨_, hc, ht⟩
      exact ⟨.hash ht, by rw [ht]⟩
  | false =>
    refine iff_of_true (fun k hk => ?_) fun hm => Bool.false_ne_true (hs.symm.trans hm.1)
    have hc := ((fetch_root_eq_ok hsp ha hg).mp hk).1
    have hcases := hc
    rw [GitRemote.designated_named hs, Option.or_eq_some_iff] at hcases
    -- no hash is the text of a ref that is none
    have hno : ∀ c, g.Has c → c.text ≠ ref := by
      rintro c - rfl
      exact Bool.false_ne_true (hs.symm.trans (GitRemote.isSHA_text c))
    rcases hcases with ht | ⟨ht, hb⟩
    · have hp := GitRemote.named_unpeeled (.inl (Option.isSome_of_eq_some ht))
      exact ⟨.tag hno ht, fetch_resolveID_named hsp ha hg hs hp hc⟩
    · have hp := GitRemote.named_unpeeled (.inr (Option.isSome_of_eq_some hb))
      exact ⟨.branch hno ht hb, fetch_resolveID_named hsp ha hg hs hp hc⟩

/-- A repository with one reference. -/
def oneRef (rn : String) (hrn : peeledName rn = none) (hash : CommitHash) : GitRemote where
  refs := [(rn, hash)]
  commits := [hash]
  objects := []
  peeled := by
    intro p hp name hn
    rw [List.mem_singleton.mp hp, hrn] at hn
    cases hn

/-- A repository that everybody is shown. -/
def openRemotes (g : GitRemote) : Remotes where
  secrets _ := .error (.text "not found")
  git _ _ := .ok g
  registry _ _ := .error (.text "no registry")

def masterOnly : GitRemote := oneRef "refs/heads/master" (by decide +kernel) sampleHash

theorem master_splitRef : splitRef sampleNet "https://git.example/app?ref=master" =
    .ok ("https://git.example/app", "", "master") :=
  toOption_eq_some.mp (by decide +kernel)

theorem zeros_splitRef : splitRef sampleNet "https://git.example/app?ref=0000000" =
    .ok ("https://git.example/app", "", "0000000") :=
  toOption_eq_some.mp (by decide +kernel)

theorem pinned_checkout_master :
    masterOnly.Designates "master" sampleHash ∧
      (openRemotes masterOnly).fetch (GitResolver.resolveID ⟨none⟩ sampleNet
        "https://git.example/app?ref=master") = .ok sampleHash.text := by
  have hroot : (openRemotes masterOnly).fetch (GitResolver.root ⟨none⟩ sampleNet
      "https://git.example/app?ref=master" "seed") = .ok ⟨sampleHash, "", "seed"⟩ :=
    (fetch_root_eq_ok master_splitRef rfl rfl).mpr ⟨by decide +kernel, rfl⟩
  refine (pinned_checkout_iff "seed" master_splitRef rfl rfl).mpr ?_ _ hroot
  exact fun h => absurd h.1 (by decide)

/-- Zeros that look like a hash: `Resolve` checks out `master`, which the ref does
not designate, and `ResolveID` answers the zeros. -/
theorem zeros_check_out_master :
    (openRemotes masterOnly).fetch (GitResolver.root ⟨none⟩ sampleNet
        "https://git.example/app?ref=0000000" "seed") = .ok ⟨sampleHash, "", "seed"⟩ ∧
      ¬ masterOnly.Designates "0000000" sampleHash ∧
      (openRemotes masterOnly).fetch (GitResolver.resolveID ⟨none⟩ sampleNet
        "https://git.example/app?ref=0000000") = .ok "0000000" := by
  refine ⟨(fetch_root_eq_ok zeros_splitRef rfl rfl).mpr ⟨by decide +kernel, rfl⟩, fun h => ?_,
    fetch_resolveID_hash zeros_splitRef (by decide)⟩
  cases h with
  | hash h => exact absurd h (by decide)
  | tag _ ht => exact absurd ht (by decide +kernel)
  | branch _ _ hb => exact absurd hb (by decide +kernel)

/-- **Advertised names.** For a repository that stays as it is and answers every
request, and a ref that is the name of a tag or branch and not the hash of a
commit: `ResolveID` answers the hash of that commit and `Resolve` checks it out,
if and only if the name does not look like a hash. -/
theorem advertised_resolves_iff (sub : String) (hsp : splitRef net url = .ok (base, root, ref))
    (ha : R.auth resolver = .ok auth) (hg : R.git base auth = .ok g)
    (hname : (g.tag ref).isSome = true ∨ (g.branch ref).isSome = true)
    (hno : ∀ c, g.Has c → c.text ≠ ref) :
    (∃ c, (g.tag ref).or (g.branch ref) = some c ∧
        R.fetch (resolver.resolveID net url) = .ok c.text ∧
        R.fetch (resolver.root net url sub) = .ok ⟨c, root, sub⟩) ↔ isSHA ref = false := by
  constructor
  · rintro ⟨c, hc, hid, -⟩
    refine (Bool.not_eq_true _).mp fun hs => ?_
    rw [fetch_resolveID_hash hsp hs] at hid
    have hhas : g.Has c := by
      rcases Option.or_eq_some_iff.mp hc with ht | ⟨-, hb⟩
      · exact .inr ⟨_, ht⟩
      · exact .inr ⟨_, hb⟩
    exact hno c hhas (Except.ok.inj hid).symm
  · intro hs
    have hsome : ((g.tag ref).or (g.branch ref)).isSome = true := by
      rw [Option.isSome_or, Bool.or_eq_true]
      exact hname
    obtain ⟨c, hc⟩ := Option.isSome_iff_exists.mp hsome
    have hd : g.designated ref = some c := (GitRemote.designated_named hs).trans hc
    exact ⟨c, hc, fetch_resolveID_named hsp ha hg hs (GitRemote.named_unpeeled hname) hd,
      (fetch_root_eq_ok hsp ha hg).mpr ⟨hd, rfl⟩⟩

def datedTag : GitRemote := oneRef "refs/tags/20240101" (by decide +kernel) sampleHash

theorem dated_splitRef : splitRef sampleNet "https://git.example/app?ref=20240101" =
    .ok ("https://git.example/app", "", "20240101") :=
  toOption_eq_some.mp (by decide +kernel)

theorem oneRef_has {rn : String} {hrn : peeledName rn = none} {hash c : CommitHash}
    (h : (oneRef rn hrn hash).Has c) : c = hash := by
  have hone : ∀ {name h}, byName [(rn, hash)] name = some h → h = hash := by
    intro name h hb
    obtain ⟨l₁, l₂, hl, -⟩ := List.lookup_eq_some_iff.mp hb
    have hm : (name, h) ∈ [(rn, hash)] := by
      rw [← List.mem_reverse, hl]
      simp
    exact (Prod.mk.inj (List.mem_singleton.mp hm)).2
  rcases h with h | ⟨name, h⟩
  · exact List.mem_singleton.mp h
  · rw [GitRemote.cloned] at h
    split_ifs at h
    obtain ⟨h₁, hb, hc⟩ := Option.map_eq_some_iff.mp h
    cases hp : byName (oneRef rn hrn hash).refs (name ++ "^\x7b\x7d") with
    | none =>
      rw [hp, Option.getD_none] at hc
      exact hc.symm.trans (hone hb)
    | some h₂ =>
      rw [hp, Option.getD_some] at hc
      exact hc.symm.trans (hone hp)

theorem advertised_resolves_master :
    ∃ c, (masterOnly.tag "master").or (masterOnly.branch "master") = some c ∧
      (openRemotes masterOnly).fetch (GitResolver.resolveID ⟨none⟩ sampleNet
        "https://git.example/app?ref=master") = .ok c.text ∧
      (openRemotes masterOnly).fetch (GitResolver.root ⟨none⟩ sampleNet
        "https://git.example/app?ref=master" "seed") = .ok ⟨c, "", "seed"⟩ := by
  refine (advertised_resolves_iff "seed" master_splitRef rfl rfl (.inr (by decide +kernel)) ?_).mpr (by decide)
  intro c hc
  rw [oneRef_has hc]
  decide

/-- A tag of digits that is no commit's hash: `ResolveID` answers the name, and
`Resolve` fails. -/
theorem dated_tag_fails :
    datedTag.tag "20240101" = some sampleHash ∧ (∀ c, datedTag.Has c → c.text ≠ "20240101") ∧
      (openRemotes datedTag).fetch (GitResolver.resolveID ⟨none⟩ sampleNet
        "https://git.example/app?ref=20240101") = .ok "20240101" ∧
      ∀ k, (openRemotes datedTag).fetch (GitResolver.root ⟨none⟩ sampleNet
        "https://git.example/app?ref=20240101" "seed") ≠ .ok k := by
  refine ⟨by decide +kernel, fun c hc => ?_, fetch_resolveID_hash dated_splitRef (by decide), fun k hk => ?_⟩
  · rw [oneRef_has hc]
    decide
  · have hd := ((fetch_root_eq_ok dated_splitRef rfl rfl).mp hk).1
    have hnone : datedTag.designated "20240101" = none := by decide +kernel
    cases hnone.symm.trans hd

end DDO.Spec
