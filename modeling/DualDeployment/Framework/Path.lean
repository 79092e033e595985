import Mathlib.Data.List.Induction

/-!
# Lexical paths

`filepath.Clean` and `filepath.Join`. The elements of a path are walked one by one
(`walk`), and what is left is a clean path: some steps up, unless it is rooted, and
then names (`CleanPath`). Its text is read as the path itself (`clean_text`).
Elements that never climb above their start stay below it (`walk_stays`), and once
they do, where they lead has nothing to do with the name they left
(`walk_climbs`).
-/

namespace DDO.Path

/-! ## Elements -/

/-- A text between slashes. -/
abbrev Part := { e : List Char // '/' ∉ e }

def Part.nil : Part := ⟨[], List.not_mem_nil⟩

/-- The texts between the slashes. -/
def split : List Char → List Part
  | [] => [.nil]
  | c :: s =>
    if h : c = '/' then .nil :: split s
    else
      have hc : '/' ∉ [c] := fun hm => h (List.mem_singleton.mp hm).symm
      match split s with
      | [] => [⟨[c], hc⟩]
      | e :: es => ⟨[c] ++ e.1, List.not_mem_append hc e.2⟩ :: es

/-- A part that leads down. -/
abbrev Name := { e : Part // e.1 ≠ [] ∧ e.1 ≠ ['.'] ∧ e.1 ≠ ['.', '.'] }

/-- An element of a path. -/
inductive Elem where
  | here
  | up
  | name (n : Name)

def Elem.of (e : Part) : Elem :=
  if h : e.1 = [] ∨ e.1 = ['.'] then .here
  else if h' : e.1 = ['.', '.'] then .up
  else .name ⟨e, fun h₁ => h (.inl h₁), fun h₁ => h (.inr h₁), h'⟩

def elements (s : String) : List Elem := (split s.toList).map .of

/-! ## Clean paths -/

/-- A path that leads up some levels, unless it is rooted, and then down. -/
structure CleanPath where
  rooted : Bool
  ups : Nat
  names : List Name
  rooted_ups : rooted = true → ups = 0

def step (p : CleanPath) : Elem → CleanPath
  | .here => p
  | .up =>
    if p.names = [] then
      if h : p.rooted then p else { p with ups := p.ups + 1, rooted_ups := fun hr => absurd hr h }
    else { p with names := p.names.dropLast }
  | .name n => { p with names := p.names ++ [n] }

def walk (p : CleanPath) (es : List Elem) : CleanPath := es.foldl step p

/-- Where a path starts. -/
def start (rooted : Bool) : CleanPath := ⟨rooted, 0, [], fun _ => rfl⟩

def isRooted (s : String) : Bool := s.toList.head? = some '/'

/-- `filepath.Clean`. -/
def clean (s : String) : CleanPath := walk (start (isRooted s)) (elements s)

/-- The parts of a clean path. -/
def CleanPath.parts (p : CleanPath) : List Part :=
  List.replicate p.ups ⟨['.', '.'], by decide⟩ ++ p.names.map (·.1)

/-- The path as `filepath.Clean` writes it. -/
def CleanPath.text (p : CleanPath) : String :=
  let body := ['/'].intercalate (p.parts.map (·.1))
  String.ofList (if p.rooted then '/' :: body else if p.parts = [] then ['.'] else body)

/-- `filepath.Join`. -/
def join (paths : List String) : String :=
  match paths.dropWhile (· = "") with
  | [] => ""
  | paths => (clean ("/".intercalate paths)).text

/-! ## Splitting -/

theorem split_ne_nil (s : List Char) : split s ≠ [] := by
  cases s with
  | nil => simp [split]
  | cons c s =>
    rw [split]
    split_ifs
    · simp
    · split <;> simp

theorem split_slash (s t : List Char) : split (s ++ '/' :: t) = split s ++ split t := by
  induction s with
  | nil => simp [split]
  | cons c s ih =>
    rw [List.cons_append, split, split, ih]
    split_ifs with h
    · rfl
    · cases hs : split s with
      | nil => exact absurd hs (split_ne_nil s)
      | cons e es => rfl

theorem split_part (e : Part) : split e.1 = [e] := by
  obtain ⟨e, he⟩ := e
  induction e with
  | nil => rfl
  | cons c e ih =>
    rw [List.mem_cons, not_or] at he
    rw [split, dif_neg (Ne.symm he.1), ih he.2]
    rfl

theorem split_intercalate {es : List Part} (h : es ≠ []) :
    split (['/'].intercalate (es.map (·.1))) = es := by
  induction es with
  | nil => exact absurd rfl h
  | cons e es ih =>
    cases es with
    | nil => simpa using split_part e
    | cons e' es =>
      have hcons : ['/'].intercalate ((e :: e' :: es).map (·.1)) =
          e.1 ++ '/' :: ['/'].intercalate ((e' :: es).map (·.1)) := by
        simp [List.intercalate]
      rw [hcons, split_slash, split_part, ih (by simp)]
      rfl

theorem elements_slash (s t : String) : elements (s ++ "/" ++ t) = elements s ++ elements t := by
  rw [elements, elements, elements, ← List.map_append, ← split_slash]
  simp

/-! ## Walking -/

variable {p : CleanPath}

theorem walk_append (p : CleanPath) (es es' : List Elem) : walk p (es ++ es') = walk (walk p es) es' :=
  List.foldl_append

theorem walk_names (p : CleanPath) (ns : List Name) :
    walk p (ns.map .name) = { p with names := p.names ++ ns } := by
  induction ns generalizing p with
  | nil => simp [walk]
  | cons n ns ih =>
    have hcons : walk p ((n :: ns).map .name) = walk { p with names := p.names ++ [n] } (ns.map .name) := rfl
    rw [hcons, ih]
    simp

theorem walk_ups (k : Nat) :
    walk (start false) (List.replicate k .up) = ⟨false, k, [], fun h => by cases h⟩ := by
  induction k with
  | zero => rfl
  | succ k ih =>
    rw [List.replicate_succ', walk_append, ih]
    rfl

theorem of_name (n : Name) : Elem.of n.1 = .name n := by
  have h : ¬ (n.1.1 = [] ∨ n.1.1 = ['.']) := fun h => h.elim n.2.1 n.2.2.1
  rw [Elem.of, dif_neg h, dif_neg n.2.2.2]

theorem walk_parts (p : CleanPath) : walk (start p.rooted) (p.parts.map .of) = p := by
  obtain ⟨rooted, ups, names, hr⟩ := p
  have hnames : (names.map (·.1)).map Elem.of = names.map .name := by
    rw [List.map_map]
    exact List.map_congr_left fun n _ => of_name n
  rw [CleanPath.parts, List.map_append, walk_append, List.map_replicate, hnames]
  cases rooted with
  | true =>
    obtain rfl : ups = 0 := hr rfl
    rw [List.replicate_zero]
    exact walk_names _ _
  | false =>
    have hup : Elem.of ⟨['.', '.'], by decide⟩ = .up := rfl
    rw [hup, walk_ups, walk_names]
    rfl

theorem parts_ne_nil {e : Part} (h : e ∈ p.parts) : e.1 ≠ [] := by
  rcases List.mem_append.mp h with h | h
  · rw [List.eq_of_mem_replicate h]
    decide
  · obtain ⟨n, -, rfl⟩ := List.mem_map.mp h
    exact n.2.1

/-- The text of a path that is not rooted does not begin with a slash. -/
theorem head_body {es : List Part} (h : ∀ e ∈ es, e.1 ≠ []) :
    (['/'].intercalate (es.map (·.1))).head? ≠ some '/' := by
  cases es with
  | nil => simp [List.intercalate]
  | cons e es =>
    have hne := h e List.mem_cons_self
    obtain ⟨e, he⟩ := e
    cases e with
    | nil => exact absurd rfl hne
    | cons c e =>
      have hc : c ≠ '/' := fun hc => he (hc ▸ List.mem_cons_self)
      cases es <;> simpa [List.intercalate] using hc

theorem walk_body (q : CleanPath) (es : List Part) :
    walk q ((split (['/'].intercalate (es.map (·.1)))).map .of) = walk q (es.map .of) := by
  cases es with
  | nil => rfl
  | cons e es => rw [split_intercalate (List.cons_ne_nil e es)]

/-- The text of a clean path is read as that path. -/
theorem clean_text (p : CleanPath) : clean p.text = p := by
  have hread : ∀ s : List Char, clean (String.ofList s) =
      walk (start (s.head? = some '/')) ((split s).map .of) := by
    intro s
    rw [clean, elements, isRooted, String.toList_ofList]
  rw [CleanPath.text, hread]
  cases hr : p.rooted with
  | true =>
    have hp := walk_parts p
    rw [hr] at hp
    exact (walk_body (start true) p.parts).trans hp
  | false =>
    have hp := walk_parts p
    rw [hr] at hp
    simp only [Bool.false_eq_true, if_false]
    split_ifs with hnil
    · rw [hnil] at hp
      exact hp
    · have hhead : (['/'].intercalate (p.parts.map (·.1))).head? ≠ some '/' :=
        head_body fun e => parts_ne_nil
      rw [decide_eq_false hhead, walk_body, hp]

/-- A name below a path. -/
theorem clean_name (s : String) (n : Name) :
    clean (s ++ "/" ++ String.ofList n.1.1) =
      step (walk (start (isRooted (s ++ "/" ++ String.ofList n.1.1))) (elements s)) (.name n) := by
  have hn : elements (String.ofList n.1.1) = [.name n] := by
    rw [elements, String.toList_ofList, split_part, List.map_singleton, of_name]
  rw [clean, elements_slash, hn, walk_append]
  rfl

/-- Two paths below one that is not empty. -/
theorem clean_join {dir a b : String} (hd : dir ≠ "") :
    clean (join [dir, a, b]) = walk (clean dir) (elements a ++ elements b) := by
  have hjoin : join [dir, a, b] = (clean (dir ++ "/" ++ a ++ "/" ++ b)).text := by
    have hi : "/".intercalate [dir, a, b] = dir ++ "/" ++ a ++ "/" ++ b := by
      rw [← String.toList_inj]
      simp
    rw [join, List.dropWhile_cons_of_neg (by simpa using hd)]
    exact congrArg (fun s => (clean s).text) hi
  have hroot : isRooted (dir ++ "/" ++ a ++ "/" ++ b) = isRooted dir := by
    have hl : dir.toList ≠ [] := fun h => hd (String.toList_inj.mp (h.trans String.toList_empty.symm))
    cases hdir : dir.toList with
    | nil => exact absurd hdir hl
    | cons c s => simp [isRooted, hdir]
  rw [hjoin, clean_text, clean, hroot, elements_slash, elements_slash, List.append_assoc, walk_append]
  rfl

/-! ## Climbing -/

/-- From `depth` levels below their start, the elements climb above it. -/
def climbs : Nat → List Elem → Bool
  | _, [] => false
  | depth, .here :: es => climbs depth es
  | 0, .up :: _ => true
  | depth + 1, .up :: es => climbs depth es
  | depth, .name _ :: es => climbs (depth + 1) es

theorem step_up {names : List Name} {n : Name} (h : p.names = names ++ [n]) :
    step p .up = { p with names := names } := by
  rw [step, if_neg (by simp [h]), h, List.dropLast_concat]

/-- Elements that do not climb stay below. -/
theorem walk_stays {base ns : List Name} {es : List Elem} (hp : p.names = base ++ ns)
    (h : climbs ns.length es = false) :
    ∃ ns', walk p es = { p with names := base ++ ns' } := by
  induction es generalizing p ns with
  | nil => exact ⟨ns, by rw [← hp]; rfl⟩
  | cons e es ih =>
    cases e with
    | here => exact ih hp h
    | up =>
      cases ns using List.reverseRecOn with
      | nil => cases h
      | append_singleton ns n =>
        rw [List.length_append, List.length_singleton] at h
        rw [← List.append_assoc] at hp
        obtain ⟨ns', hw⟩ := ih (p := { p with names := base ++ ns }) rfl h
        refine ⟨ns', ?_⟩
        rw [show walk p (.up :: es) = walk (step p .up) es from rfl, step_up hp, hw]
    | name n =>
      have hp' : ({ p with names := p.names ++ [n] } : CleanPath).names = base ++ (ns ++ [n]) := by
        rw [hp, List.append_assoc]
      have hlen : (ns ++ [n]).length = ns.length + 1 := by simp
      obtain ⟨ns', hw⟩ := ih hp' (by rw [hlen]; exact h)
      exact ⟨ns', hw⟩

/-- Elements that climb lead to a place that does not depend on the name they leave. -/
theorem walk_climbs {depth : Nat} {es : List Elem} (h : climbs depth es = true) :
    ∃ es', ∀ (p : CleanPath) (base ns : List Name) (n : Name), ns.length = depth →
      p.names = base ++ [n] ++ ns → walk p es = walk { p with names := base } es' := by
  induction es generalizing depth with
  | nil => cases h
  | cons e es ih =>
    cases e with
    | here =>
      exact ih h
    | up =>
      cases depth with
      | zero =>
        refine ⟨es, fun p base ns n hl hp => ?_⟩
        rw [List.length_eq_zero_iff.mp hl, List.append_nil] at hp
        rw [show walk p (.up :: es) = walk (step p .up) es from rfl, step_up hp]
      | succ depth =>
        obtain ⟨es', hw⟩ := ih h
        refine ⟨es', fun p base ns n hl hp => ?_⟩
        cases ns using List.reverseRecOn with
        | nil => cases hl
        | append_singleton ns m =>
          rw [List.length_append, List.length_singleton, Nat.add_right_cancel_iff] at hl
          rw [← List.append_assoc] at hp
          rw [show walk p (.up :: es) = walk (step p .up) es from rfl, step_up hp]
          exact hw { p with names := base ++ [n] ++ ns } base ns n hl rfl
    | name m =>
      obtain ⟨es', hw⟩ := ih h
      refine ⟨es', fun p base ns n hl hp => ?_⟩
      exact hw { p with names := p.names ++ [m] } base (ns ++ [m]) n (by simp [hl])
        (by rw [hp, List.append_assoc])

/-- The path is the directory, or below it. -/
def IsWithin (dir path : String) : Prop :=
  (clean path).rooted = (clean dir).rooted ∧ (clean path).ups = (clean dir).ups ∧
    (clean dir).names <+: (clean path).names

end DDO.Path
