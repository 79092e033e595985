import Mathlib.Data.List.Basic

/-!
# Glob patterns

The patterns of `path/filepath`. A pattern is read as a list of terms (`parse`),
and a name matches it if it is a text of each term, one after another
(`accepts`). A text without special characters stands for itself (`parse_plain`),
so a pattern with one star accepts the names that begin and end as it does
(`globMatch_star`).
-/

namespace DDO.Glob

/-- A term of a pattern. -/
inductive Term where
  | star
  | any
  | cls (negated : Bool) (ranges : List (Char × Char))
  | lit (c : Char)

/-! ## Reading -/

/-- A character of a class, which may be escaped; something must come after it. -/
def getEsc : List Char → Option (Char × List Char)
  | '-' :: _ => none
  | ']' :: _ => none
  | '\\' :: c :: d :: s => some (c, d :: s)
  | '\\' :: _ => none
  | c :: d :: s => some (c, d :: s)
  | _ => none

theorem getEsc_length {s s' : List Char} {c : Char} (h : getEsc s = some (c, s')) :
    s'.length < s.length := by
  rw [getEsc.eq_def] at h
  split at h <;> grind

/-- A range of a class. -/
def parseRange (s : List Char) : Option ((Char × Char) × List Char) :=
  match getEsc s with
  | none => none
  | some (lo, '-' :: s) => (getEsc s).map fun p => ((lo, p.1), p.2)
  | some (lo, s) => some ((lo, lo), s)

theorem parseRange_length {s s' : List Char} {r : Char × Char} (h : parseRange s = some (r, s')) :
    s'.length < s.length := by
  rw [parseRange] at h
  split at h
  · cases h
  · rename_i lo s₁ hs
    obtain ⟨⟨hi, s₂⟩, hs₂, he⟩ := Option.map_eq_some_iff.mp h
    obtain ⟨-, rfl⟩ := Prod.mk.inj he
    have h₁ := getEsc_length hs
    have h₂ := getEsc_length hs₂
    rw [List.length_cons] at h₁
    exact Nat.lt_trans h₂ (Nat.lt_of_succ_lt h₁)
  · rename_i lo s₁ _ hs
    cases h
    exact getEsc_length hs

/-- The ranges of a class, up to its end. -/
def parseRanges (s : List Char) : Option (List (Char × Char) × List Char) :=
  match h : parseRange s with
  | none => none
  | some (r, ']' :: s') => some ([r], s')
  | some (r, s') =>
    have : s'.length < s.length := parseRange_length h
    (parseRanges s').map fun p => (r :: p.1, p.2)
termination_by s.length

theorem parseRanges_length {s s' : List Char} {rs : List (Char × Char)}
    (h : parseRanges s = some (rs, s')) : s'.length < s.length := by
  fun_induction parseRanges s generalizing rs with
  | case1 => cases h
  | case2 s r s₁ hr =>
    cases h
    have := parseRange_length hr
    rw [List.length_cons] at this
    omega
  | case3 s r s₁ _ hr hlt ih =>
    obtain ⟨⟨rs₁, s₂⟩, h₂, he⟩ := Option.map_eq_some_iff.mp h
    obtain ⟨-, rfl⟩ := Prod.mk.inj he
    exact Nat.lt_trans (ih h₂) hlt

/-- The terms of a pattern; `none` if it is malformed. -/
def parse (s : List Char) : Option (List Term) :=
  match s with
  | [] => some []
  | '*' :: s => (parse s).map (.star :: ·)
  | '?' :: s => (parse s).map (.any :: ·)
  | '\\' :: c :: s => (parse s).map (.lit c :: ·)
  | ['\\'] => none
  | '[' :: s =>
    let negated := s.head? = some '^'
    match h : parseRanges (if negated then s.tail else s) with
    | none => none
    | some (ranges, s') =>
      have : s'.length < s.length + 1 := by
        have := parseRanges_length h
        split_ifs at this
        · rw [List.length_tail] at this
          omega
        · omega
      (parse s').map (.cls negated ranges :: ·)
  | c :: s => (parse s).map (.lit c :: ·)
termination_by s.length

/-! ## Matching -/

/-- What may be left of a text after a star. -/
def starTails : List Char → List (List Char)
  | [] => [[]]
  | c :: s => (c :: s) :: if c = '/' then [] else starTails s

/-- The text matches the terms. -/
def accepts : List Term → List Char → Bool
  | [], s => s.isEmpty
  | .star :: ts, s => (starTails s).any fun s' => accepts ts s'
  | .any :: ts, c :: s => c ≠ '/' && accepts ts s
  | .cls negated ranges :: ts, c :: s =>
    (ranges.any fun r => r.1 ≤ c && c ≤ r.2) != negated && accepts ts s
  | .lit l :: ts, c :: s => l = c && accepts ts s
  | _ :: _, [] => false

/-- `filepath.Match`; `none` if the pattern is malformed. -/
def globMatch (pattern name : String) : Option Bool :=
  (parse pattern.toList).map fun ts => accepts ts name.toList

/-! ## Plain texts -/

/-- The character stands for itself. -/
def plain (c : Char) : Bool := c ≠ '*' && c ≠ '?' && c ≠ '[' && c ≠ '\\'

theorem parse_plain {p : List Char} (hp : ∀ c ∈ p, plain c = true) (s : List Char) :
    parse (p ++ s) = (parse s).map fun ts => p.map .lit ++ ts := by
  induction p with
  | nil =>
    rw [List.nil_append, List.map_nil]
    cases parse s <;> rfl
  | cons c p ih =>
    obtain ⟨hc, hp⟩ := List.forall_mem_cons.mp hp
    have hcons : parse (c :: (p ++ s)) = (parse (p ++ s)).map (.lit c :: ·) := by
      rw [parse.eq_def]
      split <;> simp_all [plain]
    rw [List.cons_append, hcons, ih hp]
    cases parse s <;> rfl

theorem accepts_lits {p : List Char} {ts : List Term} {s : List Char} :
    accepts (p.map .lit ++ ts) s = true ↔ ∃ s', s = p ++ s' ∧ accepts ts s' = true := by
  induction p generalizing s with
  | nil => simp
  | cons c p ih =>
    cases s with
    | nil => simp [accepts]
    | cons d s =>
      rw [List.map_cons, List.cons_append, accepts, Bool.and_eq_true, decide_eq_true_eq, ih]
      constructor
      · rintro ⟨rfl, s', rfl, h⟩
        exact ⟨s', rfl, h⟩
      · rintro ⟨s', hs, h⟩
        obtain ⟨rfl, rfl⟩ := List.cons.inj hs
        exact ⟨rfl, s', rfl, h⟩

theorem mem_starTails {s s' : List Char} : s' ∈ starTails s ↔ ∃ x, '/' ∉ x ∧ s = x ++ s' := by
  induction s with
  | nil => simp [starTails]
  | cons c s ih =>
    rw [starTails, List.mem_cons]
    constructor
    · rintro (rfl | h)
      · exact ⟨[], List.not_mem_nil, rfl⟩
      · split_ifs at h with hc
        · cases h
        · obtain ⟨x, hx, rfl⟩ := ih.mp h
          exact ⟨c :: x, by simpa [eq_comm, hc] using hx, rfl⟩
    · rintro ⟨x, hx, hs⟩
      cases x with
      | nil => exact .inl hs.symm
      | cons d x =>
        obtain ⟨rfl, rfl⟩ := List.cons.inj hs
        rw [List.mem_cons, not_or] at hx
        rw [if_neg (Ne.symm hx.1)]
        exact .inr (ih.mpr ⟨x, hx.2, rfl⟩)

/-- A pattern with one star accepts what begins and ends as it does. -/
theorem globMatch_star {p q name : String} (hp : ∀ c ∈ p.toList, plain c = true)
    (hq : ∀ c ∈ q.toList, plain c = true) :
    globMatch (p ++ "*" ++ q) name = some true ↔ ∃ x, '/' ∉ x.toList ∧ name = p ++ x ++ q := by
  have hstar : parse ('*' :: q.toList) = some (.star :: (q.toList.map .lit ++ [])) := by
    have hq' := parse_plain hq []
    rw [List.append_nil] at hq'
    rw [parse, hq', parse]
    rfl
  have hparse : parse (p ++ "*" ++ q).toList =
      some (p.toList.map .lit ++ .star :: (q.toList.map .lit ++ [])) := by
    rw [String.toList_append, String.toList_append, List.append_assoc, parse_plain hp]
    exact congrArg (Option.map _) hstar
  rw [globMatch, hparse, Option.map_some, Option.some.injEq, accepts_lits]
  simp only [accepts, List.any_eq_true, mem_starTails, accepts_lits, List.isEmpty_iff]
  constructor
  · rintro ⟨_, hs, _, ⟨x, hx, rfl⟩, _, rfl, rfl⟩
    refine ⟨String.ofList x, by simpa using hx, ?_⟩
    rw [← String.toList_inj, hs]
    simp
  · rintro ⟨x, hx, rfl⟩
    exact ⟨x.toList ++ q.toList, by simp, q.toList, ⟨x.toList, hx, rfl⟩, [], (List.append_nil _).symm, rfl⟩

end DDO.Glob
