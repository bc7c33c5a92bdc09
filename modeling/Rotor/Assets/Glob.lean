import Mathlib.Data.List.Infix
import Mathlib.Data.Prod.Lex
import Mathlib.Order.WellFounded

/-!
Glob patterns of `internal/assets/glob.go`, of which `internal/bundle/glob.go` has a copy.

A text is the list of its runes.  The matcher of one segment walks pattern and name side by side
and remembers the last star it passed; what it passed since then has matched rune by rune, which a
cursor keeps as a field.  The patterns' meaning is stated apart from the walk, and the two are
compared.
-/

namespace Rotor.Glob

/-! ### The matcher -/

/-- Pattern and name have advanced side by side, each rune of the pattern matching the one of the
name that it faced. -/
inductive Together : List Char → List Char → List Char → List Char → Prop
  | here {pattern name : List Char} : Together pattern name pattern name
  | next {behind mark pattern name : List Char} {c d : Char} (matched : c = '?' ∨ c = d)
      (before : Together behind mark (c :: pattern) (d :: name)) :
      Together behind mark pattern name

/-- The position of the last star: the pattern behind it, and the name from the mark on. -/
structure Restart where
  pattern : List Char
  name : List Char

/-- The loop's variables, as what is left of the pattern and of the name. -/
structure Cursor where
  pattern : List Char
  name : List Char
  restart : Option Restart
  reached : ∀ back, restart = some back → Together back.pattern back.name pattern name

def Restart.cursor (back : Restart) : Cursor where
  pattern := back.pattern
  name := back.name
  restart := some back
  reached := by
    rintro _ ⟨⟩
    exact .here

def Cursor.backtrack (cursor : Cursor) : Option Cursor :=
  cursor.restart.map fun back => Restart.cursor ⟨back.pattern, back.name.tail⟩

/-- One turn of the loop, with the name's next rune at hand.  No next cursor means that the
matcher returns false. -/
def Cursor.step : (cursor : Cursor) → Option Cursor
  | ⟨c :: pattern, d :: name, restart, reached⟩ =>
    if matched : c = '?' ∨ c = d then
      some ⟨pattern, name, restart, fun back found => .next matched (reached back found)⟩
    else if c = '*' then some (Restart.cursor ⟨pattern, d :: name⟩)
    else Cursor.backtrack ⟨c :: pattern, d :: name, restart, reached⟩
  | cursor => cursor.backtrack

lemma Together.length_le {behind mark pattern name : List Char}
    (together : Together behind mark pattern name) :
    pattern.length ≤ behind.length ∧ name.length ≤ mark.length := by
  induction together with
  | here => exact ⟨le_rfl, le_rfl⟩
  | next _ _ ih =>
    simp only [List.length_cons] at ih
    omega

/-- A new star is behind the last one, a restart takes a rune off the mark, and any other turn
takes one off the pattern. -/
def Cursor.rank (cursor : Cursor) : Nat ×ₗ Nat ×ₗ Nat :=
  match cursor.restart with
  | none => toLex (cursor.pattern.length, toLex (0, 0))
  | some back =>
    toLex (back.pattern.length, toLex (back.name.length, cursor.pattern.length))

lemma Cursor.backtrack_rank {cursor next : Cursor} (more : cursor.name ≠ [])
    (found : cursor.backtrack = some next) : next.rank < cursor.rank := by
  obtain ⟨back, remembered, rfl⟩ := Option.map_eq_some_iff.mp found
  have long := (cursor.reached back remembered).length_le.2
  have some' := List.length_pos_iff.mpr more
  rw [rank, rank, remembered, Restart.cursor]
  refine Prod.Lex.right _ (Prod.Lex.left _ _ ?_)
  rw [List.length_tail]
  omega

lemma Cursor.step_rank {cursor next : Cursor} (more : cursor.name ≠ [])
    (found : cursor.step = some next) : next.rank < cursor.rank := by
  match cursor, more, found with
  | ⟨[], _, _, _⟩, more, found => exact backtrack_rank more found
  | ⟨c :: pattern, d :: name, restart, reached⟩, more, found =>
    rw [step] at found
    split at found
    · cases found
      cases restart with
      | none => exact Prod.Lex.left _ _ (Nat.lt_succ_self _)
      | some back =>
        exact Prod.Lex.right _ (Prod.Lex.right _ (Nat.lt_succ_self _))
    · split at found
      · cases found
        cases restart with
        | none => exact Prod.Lex.left _ _ (Nat.lt_succ_self _)
        | some back => exact Prod.Lex.left _ _ (reached back rfl).length_le.1
      · exact backtrack_rank more found

/-- The loop, and the stars that are left of the pattern at the end of the name. -/
def matchLoop (cursor : Cursor) : Bool :=
  if _more : cursor.name ≠ [] then
    match _found : cursor.step with
    | none => false
    | some next => matchLoop next
  else (cursor.pattern.dropWhile (· == '*')).isEmpty
termination_by cursor.rank
decreasing_by exact Cursor.step_rank _more _found

def matchSegment (pattern name : List Char) : Bool :=
  matchLoop ⟨pattern, name, none, fun _ found => nomatch found⟩

def matchSegments : List (List Char) → List (List Char) → Bool
  | [], name => name.isEmpty
  | segment :: pattern, name =>
    if segment = ['*', '*'] then name.tails.any (matchSegments pattern)
    else match name with
      | [] => false
      | first :: name => matchSegment segment first && matchSegments pattern name

def splitClean (path : List Char) : List (List Char) :=
  (path.splitOn '/').filter fun segment => segment != [] && segment != ['.']

/-- `strings.ReplaceAll(path, "\\", "/")`. -/
def forwardSlashes (path : List Char) : List Char := path.map fun c => if c = '\\' then '/' else c

/-- The segments that are compared; `lower` is `unicode.ToLower`. -/
def segments (lower : Char → Char) (path : List Char) : List (List Char) :=
  splitClean ((forwardSlashes path).map lower)

end Rotor.Glob

def Rotor.Assets.Match (lower : Char → Char) (pattern name : List Char) : Bool :=
  Rotor.Glob.matchSegments (Rotor.Glob.segments lower pattern) (Rotor.Glob.segments lower name)

def Rotor.Bundle.matchGlob (lower : Char → Char) (pattern name : List Char) : Bool :=
  Rotor.Glob.matchSegments (Rotor.Glob.segments lower pattern) (Rotor.Glob.segments lower name)

namespace Rotor.Glob

open List

/-! ### What patterns describe -/

/-- The names that a pattern of one segment describes.  What a star stands for may depend on the
run of runes and on the name behind it. -/
inductive DescribesWith (stands : List Char → List Char → Prop) : List Char → List Char → Prop
  | nil : DescribesWith stands [] []
  | literal {c : Char} {pattern name : List Char} (notOne : c ≠ '?') (notStar : c ≠ '*')
      (others : DescribesWith stands pattern name) :
      DescribesWith stands (c :: pattern) (c :: name)
  | one {c : Char} {pattern name : List Char} (others : DescribesWith stands pattern name) :
      DescribesWith stands ('?' :: pattern) (c :: name)
  | star {run pattern name : List Char} (allowed : stands run name)
      (others : DescribesWith stands pattern name) :
      DescribesWith stands ('*' :: pattern) (run ++ name)

/-- The same for whole paths: two stars stand for any number of segments. -/
inductive PathWith (stands : List Char → List Char → Prop) :
    List (List Char) → List (List Char) → Prop
  | nil : PathWith stands [] []
  | segment {first segment : List Char} {pattern name : List (List Char)}
      (single : segment ≠ ['*', '*']) (described : DescribesWith stands segment first)
      (others : PathWith stands pattern name) :
      PathWith stands (segment :: pattern) (first :: name)
  | stars {skipped pattern name : List (List Char)} (others : PathWith stands pattern name) :
      PathWith stands (['*', '*'] :: pattern) (skipped ++ name)

def AnyRun (_run _name : List Char) : Prop := True

def FacedStar (run name : List Char) : Prop := (run ++ name).head? = some '*' → run = ['*']

variable {name pattern : List Char} {c d : Char} {cursor : Cursor}

lemma DescribesWith.weaken {stands : List Char → List Char → Prop}
    (described : DescribesWith stands pattern name) : DescribesWith AnyRun pattern name := by
  induction described with
  | nil => exact .nil
  | literal notOne notStar _ ih =>
    exact .literal notOne notStar ih
  | one _ ih => exact .one ih
  | star _ _ ih => exact .star trivial ih

lemma PathWith.weaken {stands : List Char → List Char → Prop} {pattern name : List (List Char)}
    (described : PathWith stands pattern name) : PathWith AnyRun pattern name := by
  induction described with
  | nil => exact .nil
  | segment single first _ ih =>
    exact .segment single first.weaken ih
  | stars _ ih => exact .stars ih

lemma describesWith_of_noStar (described : DescribesWith AnyRun pattern name)
    (noStar : '*' ∉ name) : DescribesWith FacedStar pattern name := by
  induction described with
  | nil => exact .nil
  | literal notOne notStar _ ih =>
    exact .literal notOne notStar (ih (mt (mem_cons_of_mem _) noStar))
  | one _ ih =>
    exact .one (ih (mt (mem_cons_of_mem _) noStar))
  | star _ _ ih =>
    refine .star (fun begins => ?_) (ih (mt (mem_append_right _) noStar))
    exact absurd (mem_of_mem_head? begins) noStar

lemma pathWith_of_noStar {pattern name : List (List Char)}
    (described : PathWith AnyRun pattern name) (noStar : ∀ segment ∈ name, '*' ∉ segment) :
    PathWith FacedStar pattern name := by
  induction described with
  | nil => exact .nil
  | segment single described _ ih =>
    have others := ih fun segment mem =>
      noStar segment (mem_cons_of_mem _ mem)
    exact .segment single (describesWith_of_noStar described (noStar _ mem_cons_self)) others
  | stars _ ih =>
    exact .stars (ih fun segment mem =>
      noStar segment (mem_append_right _ mem))

/-! ### What the loop finds -/

abbrev Faced (pattern name : List Char) : Prop := DescribesWith FacedStar pattern name

lemma Faced.behind (faced : Faced (c :: pattern) name) :
    ∃ count, Faced pattern (name.drop count) := by
  cases faced with
  | literal _ _ others => exact ⟨1, others⟩
  | one others => exact ⟨1, others⟩
  | star allowed others =>
    rename_i run rest
    exact ⟨run.length, by rwa [drop_left]⟩

lemma faced_matched (matched : c = '?' ∨ c = d) :
    Faced (c :: pattern) (d :: name) ↔ Faced pattern name := by
  constructor
  · intro faced
    generalize whole : d :: name = text at faced
    cases faced with
    | literal _ _ others =>
      cases whole
      exact others
    | one others =>
      cases whole
      exact others
    | star allowed others =>
      obtain rfl : d = '*' := (matched.resolve_left (by decide)).symm
      have run := allowed (by rw [← whole]; rfl)
      subst run
      cases whole
      exact others
  · intro faced
    by_cases one : c = '?'
    · subst one
      exact .one faced
    · obtain rfl := matched.resolve_left one
      by_cases star : c = '*'
      · subst star
        exact @DescribesWith.star _ ['*'] _ _ (fun _ => rfl) faced
      · exact .literal one star faced

lemma faced_star (differs : '*' ≠ d) :
    Faced ('*' :: pattern) (d :: name) ↔ ∃ count, Faced pattern ((d :: name).drop count) := by
  constructor
  · exact Faced.behind
  · rintro ⟨count, faced⟩
    have whole := @DescribesWith.star FacedStar ((d :: name).take count) pattern
      ((d :: name).drop count) (fun begins => ?_) faced
    · rwa [take_append_drop] at whole
    · rw [take_append_drop] at begins
      exact absurd (Option.some.inj begins).symm differs

lemma not_faced_mismatch (differs : ¬ (c = '?' ∨ c = d)) (notStar : c ≠ '*') :
    ¬ Faced (c :: pattern) (d :: name) := by
  intro faced
  generalize whole : d :: name = text at faced
  cases faced with
  | literal _ _ _ => exact differs (.inr (List.cons.inj whole).1.symm)
  | one _ => exact differs (.inl rfl)
  | star _ _ => exact notStar rfl

lemma not_faced_nil : ¬ Faced [] (d :: name) := nofun

lemma faced_end : Faced pattern [] ↔ (pattern.dropWhile (· == '*')).isEmpty := by
  induction pattern with
  | nil => exact iff_of_true .nil rfl
  | cons c pattern ih =>
    by_cases star : c = '*'
    · subst star
      rw [dropWhile_cons_of_pos (by rfl), ← ih]
      constructor
      · intro faced
        obtain ⟨count, others⟩ := faced.behind
        rwa [drop_nil] at others
      · intro faced
        exact @DescribesWith.star _ [] _ _ (fun begins => nomatch begins) faced
    · rw [dropWhile_cons_of_neg (by simpa using star)]
      refine iff_of_false (fun faced => ?_) (by simp)
      generalize whole : ([] : List Char) = text at faced
      cases faced with
      | literal _ _ _ => nomatch whole
      | one _ => nomatch whole
      | star _ _ => exact star rfl

/-- A match from a later mark on reaches the pattern's rest no earlier than the walk from the first
mark did: the walk took each star that it passed for one rune, and a star that stands for no rune
does not face a star. -/
theorem Together.later {behind mark : List Char} (together : Together behind mark pattern name)
    {count : Nat} (faced : Faced behind (mark.drop count)) :
    ∃ count, Faced pattern (name.drop count) := by
  induction together with
  | here => exact ⟨count, faced⟩
  | next matched _ ih =>
    obtain ⟨passed, others⟩ := ih
    cases passed with
    | zero => exact ⟨0, (faced_matched matched).mp others⟩
    | succ passed =>
      rw [drop_succ_cons] at others
      obtain ⟨more, rest⟩ := others.behind
      exact ⟨passed + more, by rwa [drop_drop] at rest⟩

def Cursor.Found (cursor : Cursor) : Prop :=
  Faced cursor.pattern cursor.name ∨
    ∃ back, cursor.restart = some back ∧ ∃ count, Faced back.pattern (back.name.tail.drop count)

lemma Restart.found_cursor (back : Restart) :
    back.cursor.Found ↔ ∃ count, Faced back.pattern (back.name.drop count) := by
  constructor
  · rintro (faced | ⟨_, ⟨⟩, count, faced⟩)
    · exact ⟨0, faced⟩
    · rw [← drop_one, drop_drop] at faced
      exact ⟨_, faced⟩
  · rintro ⟨count, faced⟩
    cases count with
    | zero => exact .inl faced
    | succ count => exact .inr ⟨back, rfl, count, by rwa [← drop_one, drop_drop, Nat.add_comm]⟩

lemma Cursor.found_backtrack (failed : ¬ Faced cursor.pattern cursor.name) :
    cursor.Found ↔ ∃ next, cursor.backtrack = some next ∧ next.Found := by
  rw [Found, or_iff_right failed]
  constructor
  · rintro ⟨back, remembered, found⟩
    exact ⟨_, by rw [backtrack, remembered]; rfl, (Restart.found_cursor _).mpr found⟩
  · rintro ⟨_, next, found⟩
    obtain ⟨back, remembered, rfl⟩ := Option.map_eq_some_iff.mp next
    exact ⟨back, remembered, (Restart.found_cursor _).mp found⟩

lemma Cursor.found_step (more : cursor.name ≠ []) :
    cursor.Found ↔ ∃ next, cursor.step = some next ∧ next.Found := by
  match cursor, more with
  | ⟨[], d :: name, restart, reached⟩, _ => exact found_backtrack not_faced_nil
  | ⟨c :: pattern, d :: name, restart, reached⟩, _ =>
    rw [step]
    split
    · rename_i matched
      have same : Faced (c :: pattern) (d :: name) ↔ Faced pattern name := faced_matched matched
      simp only [Option.some.injEq, exists_eq_left']
      exact or_congr_left same
    · rename_i differs
      split
      · rename_i star
        subst star
        simp only [Option.some.injEq, exists_eq_left', Restart.found_cursor]
        rw [← faced_star fun same => differs (.inr same)]
        refine or_iff_left_of_imp ?_
        rintro ⟨back, remembered, count, faced⟩
        -- what the last star finds later is also found from this star on
        rw [← drop_one, drop_drop] at faced
        obtain ⟨passed, others⟩ := (reached back remembered).later faced
        obtain ⟨behind, rest⟩ := others.behind
        rw [faced_star fun same => differs (.inr same)]
        exact ⟨passed + behind, by rwa [drop_drop] at rest⟩
      · rename_i notStar
        exact found_backtrack (not_faced_mismatch differs notStar)

lemma Cursor.found_end (done : cursor.name = []) :
    cursor.Found ↔ (cursor.pattern.dropWhile (· == '*')).isEmpty := by
  rw [← faced_end, Found, done, or_iff_left_of_imp]
  rintro ⟨back, remembered, count, faced⟩
  rw [← drop_one, drop_drop] at faced
  obtain ⟨passed, others⟩ := (cursor.reached back remembered).later faced
  rwa [done, drop_nil] at others

lemma matchLoop_iff (cursor : Cursor) : matchLoop cursor ↔ cursor.Found := by
  fun_induction matchLoop cursor with
  | case1 cursor more stopped =>
    rw [Cursor.found_step more, stopped]
    simp
  | case2 cursor more next found ih =>
    rw [Cursor.found_step more, found, ih]
    simp
  | case3 cursor done => exact (Cursor.found_end (not_not.mp done)).symm

lemma matchSegment_iff (pattern name : List Char) :
    matchSegment pattern name ↔ Faced pattern name := by
  rw [matchSegment, matchLoop_iff]
  exact or_iff_left (fun ⟨_, remembered, _⟩ => nomatch remembered)

lemma matchSegments_iff (pattern name : List (List Char)) :
    matchSegments pattern name ↔ PathWith FacedStar pattern name := by
  induction pattern generalizing name with
  | nil =>
    rw [matchSegments, List.isEmpty_iff]
    constructor
    · rintro rfl
      exact .nil
    · rintro ⟨⟩
      rfl
  | cons segment pattern ih =>
    by_cases stars : segment = ['*', '*']
    · subst stars
      rw [matchSegments.eq_def]
      simp only [if_true, any_eq_true, mem_tails, ih]
      constructor
      · rintro ⟨rest, ⟨skipped, rfl⟩, others⟩
        exact .stars others
      · intro described
        generalize whole : ['*', '*'] = first at described
        cases described with
        | segment single _ _ => exact absurd whole.symm single
        | stars others => exact ⟨_, suffix_append _ _, others⟩
    · rw [matchSegments.eq_def]
      simp only [if_neg stars]
      cases name with
      | nil =>
        refine iff_of_false (by simp) fun described => ?_
        generalize whole : ([] : List (List Char)) = none' at described
        cases described with
        | segment _ _ _ => nomatch whole
        | stars _ => exact stars rfl
      | cons first name =>
        simp only [Bool.and_eq_true, matchSegment_iff, ih]
        constructor
        · rintro ⟨described, others⟩
          exact .segment stars described others
        · intro described
          generalize whole : first :: name = path at described
          cases described with
          | segment _ described others =>
            cases whole
            exact ⟨described, others⟩
          | stars _ => exact absurd rfl stars

/-! ### Both matchers -/

def Described (lower : Char → Char) (pattern name : List Char) : Prop :=
  PathWith AnyRun (segments lower pattern) (segments lower name)

/-- The path is described with each star that faces a star of the path standing for that one. -/
def DescribedFacing (lower : Char → Char) (pattern name : List Char) : Prop :=
  PathWith FacedStar (segments lower pattern) (segments lower name)

/-- Both matchers agree with the patterns' meaning exactly when a described path can also be read
with each star that faces a star of the path standing for that one. -/
theorem match_described_iff (lower : Char → Char) (pattern name : List Char) :
    (Assets.Match lower pattern name = Bundle.matchGlob lower pattern name ∧
      (Assets.Match lower pattern name = true ↔ Described lower pattern name)) ↔
        (Described lower pattern name → DescribedFacing lower pattern name) := by
  have found : Assets.Match lower pattern name = true ↔ DescribedFacing lower pattern name :=
    matchSegments_iff _ _
  constructor
  · rintro ⟨_, agrees⟩ described
    exact found.mp (agrees.mpr described)
  · intro readable
    refine ⟨rfl, ?_⟩
    rw [found]
    exact ⟨PathWith.weaken, readable⟩

/-- The star of `*` is compared with the star of `*x` before it is taken for a wildcard. -/
theorem match_star_fails : Assets.Match Char.toLower ['*'] ['*', 'x'] = false ∧
      Bundle.matchGlob Char.toLower ['*'] ['*', 'x'] = false ∧
      Described Char.toLower ['*'] ['*', 'x'] := by
  have path : segments Char.toLower ['*', 'x'] = [['*', 'x']] := by decide
  have stars : segments Char.toLower ['*'] = [['*']] := by decide
  have fails : matchSegments [['*']] [['*', 'x']] = false := by
    simp [matchSegments, matchSegment, matchLoop, Cursor.step, Cursor.backtrack]
  rw [Assets.Match, Bundle.matchGlob, Described, path, stars]
  refine ⟨fails, fails, ?_⟩
  exact .segment (by decide) (@DescribesWith.star _ ['*', 'x'] [] [] trivial .nil) .nil

/-- On paths without stars the matchers agree with the patterns' meaning. -/
theorem match_of_noStar {lower : Char → Char}
    (noStar : ∀ segment ∈ segments lower name, '*' ∉ segment) :
    Assets.Match lower pattern name ↔ Described lower pattern name := by
  rw [Assets.Match, matchSegments_iff]
  exact ⟨PathWith.weaken, fun described => pathWith_of_noStar described noStar⟩

end Rotor.Glob
