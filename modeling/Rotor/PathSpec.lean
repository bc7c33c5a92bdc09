import Rotor.Path

/-!
Paths after `Clean`.

Such a path is a list of names, of which none is empty or a dot and none has a slash in it. Cleaning
it again changes nothing. Two dots are left in front of a relative path only, so that an absolute
path names what its list of plain names names.
-/

namespace Rotor.Path

open List

/-- A name that `Clean` keeps as it is. -/
structure Plain (name : Bytes) : Prop where
  ne_nil : name ≠ []
  ne_dot : name ≠ str "."
  ne_up : name ≠ str ".."
  no_slash : (47 : UInt8) ∉ name

instance (name : Bytes) : Decidable (Plain name) :=
  decidable_of_iff (name ≠ [] ∧ name ≠ str "." ∧ name ≠ str ".." ∧ (47 : UInt8) ∉ name)
    ⟨fun ⟨notEmpty, notDot, notUp, noSlash⟩ => ⟨notEmpty, notDot, notUp, noSlash⟩,
      fun plain => ⟨plain.ne_nil, plain.ne_dot, plain.ne_up, plain.no_slash⟩⟩

lemma not_mem_splitOn (separator : UInt8) (text : Bytes) :
    ∀ part ∈ text.splitOn separator, separator ∉ part := by
  rw [List.splitOn]
  induction text with
  | nil => simp
  | cons byte text ih =>
    rw [splitOnP_cons_eq_if_modifyHead]
    split
    · intro part mem
      rcases mem_cons.mp mem with rfl | mem
      · simp
      · exact ih part mem
    · rename_i other
      cases split : List.splitOnP (· == separator) text with
      | nil => simp
      | cons first rest =>
        rw [split] at ih
        intro part mem
        rcases mem_cons.mp mem with rfl | mem
        · have kept := ih first (by simp)
          simp only [mem_cons, not_or]
          exact ⟨fun same => other (by simp [← same]), kept⟩
        · exact ih part (by simp [mem])

lemma slash_not_mem_elements (path : Bytes) : ∀ elem ∈ elements path, (47 : UInt8) ∉ elem :=
  not_mem_splitOn 47 path

lemma elements_append (first rest : Bytes) :
    elements (first ++ 47 :: rest) = elements first ++ elements rest :=
  splitOn_append_cons_self first rest

variable {absolute : Bool} {kept names below : List Bytes} {name path : Bytes}

/-! ### Cleaned names -/

/-- Names that `Clean` leaves as they are. -/
structure Settled (absolute : Bool) (names : List Bytes) : Prop where
  kept : names.foldl (cleanStep absolute) [] = names.reverse
  texts : ∀ name ∈ names, name ≠ [] ∧ name ≠ str "." ∧ (47 : UInt8) ∉ name

lemma Settled.push {elem : Bytes} (settled : Settled absolute kept.reverse)
    (text : elem ≠ [] ∧ elem ≠ str "." ∧ (47 : UInt8) ∉ elem)
    (pushes : cleanStep absolute kept elem = elem :: kept) :
    Settled absolute (elem :: kept).reverse where
  kept := by
    rw [reverse_reverse, reverse_cons, foldl_append, settled.kept, reverse_reverse]
    exact pushes
  texts := by
    rw [reverse_cons]
    intro name mem
    rcases mem_append.mp mem with mem | mem
    · exact settled.texts name mem
    · rwa [mem_singleton.mp mem]

lemma Settled.pop {last : Bytes} (settled : Settled absolute (last :: kept).reverse)
    (down : last ≠ str "..") : Settled absolute kept.reverse where
  kept := by
    have text := settled.texts last (by simp)
    have pushed := settled.kept
    rw [reverse_reverse, reverse_cons, foldl_append, foldl_cons, foldl_nil, cleanStep.eq_def,
      if_neg (by simp [text.1, text.2.1]), if_neg down] at pushed
    rw [reverse_reverse, (List.cons.inj pushed).2]
  texts name mem := settled.texts name (by rw [reverse_cons]; exact mem_append_left _ mem)

lemma cleanStep_settled {elem : Bytes} (settled : Settled absolute kept.reverse)
    (noSlash : (47 : UInt8) ∉ elem) : Settled absolute (cleanStep absolute kept elem).reverse := by
  by_cases skipped : elem = [] ∨ elem = str "."
  · rwa [cleanStep.eq_def, if_pos skipped]
  · have text : elem ≠ [] ∧ elem ≠ str "." ∧ (47 : UInt8) ∉ elem :=
      ⟨(not_or.mp skipped).1, (not_or.mp skipped).2, noSlash⟩
    by_cases up : elem = str ".."
    · rw [cleanStep.eq_def, if_neg skipped, if_pos up]
      cases kept with
      | nil =>
        cases absolute
        · exact settled.push text (by rw [up]; rfl)
        · exact settled
      | cons last before =>
        dsimp only
        split
        · next isUp => exact settled.push text (by simp [cleanStep, up, isUp, str])
        · next down => exact settled.pop down
    · have pushes : cleanStep absolute kept elem = elem :: kept := by
        rw [cleanStep.eq_def, if_neg skipped, if_neg up]
      rw [pushes]
      exact settled.push text pushes

lemma foldl_cleanStep_settled (settled : Settled absolute kept.reverse)
    (noSlash : ∀ name ∈ names, (47 : UInt8) ∉ name) :
    Settled absolute (names.foldl (cleanStep absolute) kept).reverse := by
  induction names generalizing kept with
  | nil => exact settled
  | cons first names ih =>
    exact ih (cleanStep_settled settled (noSlash first (by simp)))
      (fun name mem => noSlash name (by simp [mem]))

lemma foldl_cleanStep_of_plain (plain : ∀ name ∈ names, Plain name) :
    names.foldl (cleanStep absolute) kept = names.reverse ++ kept := by
  induction names generalizing kept with
  | nil => rfl
  | cons first names ih =>
    have first' := plain first (by simp)
    rw [foldl_cons, cleanStep.eq_def, if_neg (by simp [first'.ne_nil, first'.ne_dot]),
      if_neg first'.ne_up, ih (fun name mem => plain name (by simp [mem]))]
    simp

lemma Settled.append (settled : Settled absolute names) (plain : ∀ name ∈ below, Plain name) :
    Settled absolute (names ++ below) where
  kept := by rw [foldl_append, settled.kept, foldl_cleanStep_of_plain plain, reverse_append]
  texts name mem := (mem_append.mp mem).elim (settled.texts name) fun mem =>
    ⟨(plain name mem).ne_nil, (plain name mem).ne_dot, (plain name mem).no_slash⟩

lemma Settled.nil : Settled absolute [] := ⟨rfl, forall_mem_nil _⟩

lemma Settled.of_plain (absolute : Bool) (plain : ∀ name ∈ names, Plain name) :
    Settled absolute names :=
  Settled.nil.append plain

lemma up_not_mem_cleanStep (down : str ".." ∉ kept) (elem : Bytes) :
    str ".." ∉ cleanStep true kept elem := by
  rw [cleanStep.eq_def]
  split
  · exact down
  · split
    · cases kept with
      | nil => simp
      | cons last before =>
        dsimp only
        rw [if_neg fun isUp => down (by simp [isUp])]
        exact fun mem => down (.tail _ mem)
    · next isUp =>
      rw [mem_cons, not_or]
      exact ⟨fun same => isUp same.symm, down⟩

lemma up_not_mem_foldl (down : str ".." ∉ kept) (names : List Bytes) :
    str ".." ∉ names.foldl (cleanStep true) kept := by
  induction names generalizing kept with
  | nil => exact down
  | cons name names ih => exact ih (up_not_mem_cleanStep down name)

lemma Settled.plain (settled : Settled true names) : ∀ name ∈ names, Plain name := by
  intro name mem
  have text := settled.texts name mem
  refine ⟨text.1, text.2.1, ?_, text.2.2⟩
  rintro rfl
  have absent := up_not_mem_foldl (not_mem_nil) names
  rw [settled.kept] at absent
  exact absent (List.mem_reverse.mpr mem)

/-! ### Paths of cleaned names -/

def located (absolute : Bool) (names : List Bytes) : Bytes :=
  if absolute then 47 :: joinSlash names
  else if names = [] then str "."
  else joinSlash names

def rooted (names : List Bytes) : Bytes := located true names

section Settled

variable (settled : Settled absolute names)
include settled

lemma elements_joinSlash (some : names ≠ []) : elements (joinSlash names) = names :=
  splitOn_intercalate 47 (fun name mem => (settled.texts name mem).2.2) some

lemma isAbs_joinSlash : isAbs (joinSlash names) = false := by
  cases names with
  | nil => rfl
  | cons name names =>
    have text := settled.texts name (by simp)
    cases name with
    | nil => exact absurd rfl text.1
    | cons byte bytes =>
      have other : byte ≠ 47 := fun slash => text.2.2 (by simp [slash])
      cases names <;> simpa [joinSlash, isAbs] using other

lemma isAbs_located : isAbs (located absolute names) = absolute := by
  cases absolute with
  | true => rfl
  | false =>
    by_cases none : names = []
    · subst none
      rfl
    · rw [located, if_neg (by simp), if_neg none, isAbs_joinSlash settled]

lemma foldl_joinSlash :
    (elements (joinSlash names)).foldl (cleanStep absolute) [] = names.reverse := by
  by_cases none : names = []
  · subst none
    rfl
  · rw [elements_joinSlash settled none, settled.kept]

lemma clean_located : clean (located absolute names) = located absolute names := by
  have kept : (elements (located absolute names)).foldl (cleanStep absolute) [] =
      names.reverse := by
    cases absolute with
    | true =>
      rw [located, if_pos rfl, ← nil_append (47 :: _), elements_append, foldl_append]
      exact foldl_joinSlash settled
    | false =>
      by_cases none : names = []
      · subst none
        rfl
      · rw [located, if_neg (by simp), if_neg none, foldl_joinSlash settled]
  rw [clean, isAbs_located settled, kept, reverse_reverse]
  rfl

lemma located_ne_nil : located absolute names ≠ [] := by
  intro empty
  have cleaned := clean_located settled
  rw [empty] at cleaned
  exact absurd cleaned (by decide)

lemma names_located : Path.names (located absolute names) = names := by
  have whole : names.filter (· != []) = names :=
    filter_eq_self.mpr fun name mem => by simpa using (settled.texts name mem).1
  by_cases none : names = []
  · subst none
    cases absolute <;> rfl
  · cases absolute with
    | true =>
      have notDot : located true names ≠ str "." := fun same =>
        absurd (congrArg isAbs same) (by rw [isAbs_located settled]; decide)
      rw [Path.names, if_neg notDot, located, if_pos rfl, ← nil_append (47 :: _), elements_append,
        elements_joinSlash settled none, filter_append, whole]
      rfl
    | false =>
      have elems := elements_joinSlash settled none
      have notDot : joinSlash names ≠ str "." := by
        intro same
        rw [same] at elems
        exact (settled.texts (str ".") (elems ▸ by decide)).2.1 rfl
      rw [located, if_neg (by simp), if_neg none, Path.names, if_neg notDot, elems, whole]

lemma located_append (some : names ≠ []) (plain : Plain name) :
    located absolute (names ++ [name]) = located absolute names ++ 47 :: name := by
  have joined : joinSlash (names ++ [name]) = joinSlash names ++ 47 :: name := by
    have whole := settled.append (forall_mem_singleton.mpr plain)
    have alone : elements name = [name] := by
      simpa [joinSlash] using elements_joinSlash
        (Settled.of_plain true (forall_mem_singleton.mpr plain)) (by simp)
    calc joinSlash (names ++ [name])
        = [47].intercalate (elements (joinSlash (names ++ [name]))) :=
          (intercalate_splitOn 47).symm
      _ = [47].intercalate (elements (joinSlash names ++ 47 :: name)) := by
          rw [elements_append, elements_joinSlash settled some, alone,
            elements_joinSlash whole (by simp)]
      _ = joinSlash names ++ 47 :: name := intercalate_splitOn 47
  cases absolute <;> simp [located, joined, some]

end Settled

lemma settled_clean (path : Bytes) :
    Settled (isAbs path) ((elements path).foldl (cleanStep (isAbs path)) []).reverse :=
  foldl_cleanStep_settled Settled.nil (slash_not_mem_elements path)

lemma names_clean (path : Bytes) :
    Path.names (clean path) = ((elements path).foldl (cleanStep (isAbs path)) []).reverse :=
  names_located (settled_clean path)

lemma isAbs_clean_eq (dir : Bytes) : isAbs (clean dir) = isAbs dir :=
  isAbs_located (settled_clean dir)

/-- The path of names below a directory. -/
def under (dir : Bytes) (names : List Bytes) : Bytes :=
  located (isAbs dir) (Path.names (clean dir) ++ names)

lemma settled_under (dir : Bytes) (plain : ∀ name ∈ below, Plain name) :
    Settled (isAbs dir) (Path.names (clean dir) ++ below) := by
  rw [names_clean]
  exact (settled_clean dir).append plain

lemma under_nil (dir : Bytes) : under dir [] = clean dir := by
  rw [under, append_nil, names_clean]
  rfl

lemma clean_append {dir : Bytes} (some : dir ≠ []) (plain : ∀ name ∈ below, Plain name) :
    clean (dir ++ 47 :: joinSlash below) = under dir below := by
  have same : isAbs (dir ++ 47 :: joinSlash below) = isAbs dir := by
    cases dir with
    | nil => exact absurd rfl some
    | cons byte bytes => rfl
  have elems : (elements (joinSlash below)).foldl (cleanStep (isAbs dir))
      ((elements dir).foldl (cleanStep (isAbs dir)) []) =
        below.reverse ++ (elements dir).foldl (cleanStep (isAbs dir)) [] := by
    by_cases none : below = []
    · subst none
      rfl
    · rw [elements_joinSlash (Settled.of_plain true plain) none,
        foldl_cleanStep_of_plain plain]
  rw [clean, same, elements_append, foldl_append, elems, reverse_append, reverse_reverse,
    ← names_clean]
  rfl

lemma join_under (dir : Bytes) (some : below ≠ []) (plain : ∀ name ∈ below, Plain name) :
    join [dir, joinSlash below] = under dir below := by
  have text : joinSlash below ≠ [] := fun none => by
    have elems := elements_joinSlash (Settled.of_plain true plain) some
    rw [none] at elems
    exact (plain [] (elems ▸ by decide)).ne_nil rfl
  cases dir with
  | nil =>
    have given : [[], joinSlash below].dropWhile (· == []) = [joinSlash below] := by simp [text]
    have settled := Settled.of_plain false plain
    have cleaned := clean_located settled
    rw [located, if_neg (by simp), if_neg some] at cleaned
    have alone : join [[], joinSlash below] = clean (joinSlash below) := by
      rw [join, given]
      simp [joinSlash]
    have target : under [] below = located false below := rfl
    rw [alone, cleaned, target, located, if_neg (by simp), if_neg some]
  | cons byte bytes =>
    rw [← clean_append (by simp) plain]
    simp [join, joinSlash, str]

lemma join_name (plain : ∀ name ∈ below, Plain name) (dir : Bytes) (plain' : Plain name) :
    join [under dir below, name] = under dir (below ++ [name]) := by
  have settled := settled_under dir plain
  have joined := join_under (under dir below) (by simp) (forall_mem_singleton.mpr plain')
  rw [joinSlash, intercalate_singleton] at joined
  rw [joined, under, under, isAbs_located settled, clean_located settled, names_located settled,
    append_assoc]
  rfl

lemma dir_under (dir : Bytes) (plain : ∀ name ∈ below, Plain name) (plain' : Plain name) :
    Path.dir (under dir (below ++ [name])) = under dir below := by
  have settled := settled_under dir plain
  have last : ∀ front : Bytes, ((front ++ 47 :: name).reverse.dropWhile (· != 47)).reverse =
      front ++ [47] := by
    intro front
    rw [reverse_append, reverse_cons, append_assoc, dropWhile_append_of_pos]
    · simp
    · intro byte mem
      have other : byte ≠ 47 := fun slash => plain'.no_slash (slash ▸ List.mem_reverse.mp mem)
      simpa using other
  rw [under, under, ← append_assoc]
  by_cases none : Path.names (clean dir) ++ below = []
  · rw [none]
    cases isAbs dir with
    | true =>
      have top : located true ([] ++ [name]) = [] ++ 47 :: name := by simp [located, joinSlash]
      rw [top, Path.dir, last]
      rfl
    | false =>
      have bare : (name.reverse.dropWhile (· != 47)).reverse = [] := by
        rw [dropWhile_eq_nil_iff.mpr]
        · rfl
        · intro byte mem
          have other : byte ≠ 47 := fun slash => plain'.no_slash (slash ▸ List.mem_reverse.mp mem)
          simpa using other
      have alone : located false ([] ++ [name]) = name := by simp [located, joinSlash]
      rw [alone, Path.dir, bare]
      rfl
  · have cleaned := clean_append (located_ne_nil settled) (forall_mem_nil _)
    rw [under_nil, clean_located settled] at cleaned
    rw [located_append settled none plain', Path.dir, last]
    simpa [joinSlash] using cleaned

lemma dropCommon_append (names below : List Bytes) :
    dropCommon names (names ++ below) = ([], below) := by
  induction names with
  | nil => cases below <;> rfl
  | cons name names ih => simpa [dropCommon] using ih

lemma dropCommon_eq_nil {names' down : List Bytes}
    (inside : dropCommon names names' = ([], down)) : names' = names ++ down := by
  fun_induction dropCommon names names' with
  | case1 first rest rest' ih => rw [ih inside, cons_append]
  | case2 => nomatch congrArg Prod.fst inside
  | case3 rest rest' apart =>
    obtain ⟨rfl, rfl⟩ := Prod.mk.inj inside
    rfl

lemma rel_under (dir : Bytes) (some : below ≠ []) (plain : ∀ name ∈ below, Plain name) :
    rel dir (under dir below) = .some (joinSlash below) := by
  have settled := settled_under dir plain
  have different : under dir below ≠ clean dir := by
    intro same
    have names' := congrArg Path.names same
    rw [under, names_located settled] at names'
    exact some (by simpa using names')
  have cleaned : clean (under dir below) = under dir below := clean_located settled
  rw [rel, cleaned]
  simp only [if_neg different, isAbs_clean_eq]
  rw [under, isAbs_located settled, names_located settled, dropCommon_append]
  simp

lemma dropCommon_snd (names names' : List Bytes) : (dropCommon names names').2 <:+ names' := by
  fun_induction dropCommon names names' with
  | case1 first rest rest' ih => exact ih.trans (suffix_cons _ _)
  | case2 | case3 => exact suffix_rfl

lemma eq_under_of_rel {dir : Bytes} (cleaned : clean path = path) (some : below ≠ [])
    (plain : ∀ name ∈ below, Plain name) (found : rel dir path = .some (joinSlash below)) :
    path = under dir below := by
  have settled := settled_under path (forall_mem_nil _)
  have whole := under_nil path
  rw [append_nil, cleaned] at settled
  rw [under, append_nil, cleaned] at whole
  have elems := elements_joinSlash (Settled.of_plain true plain) some
  simp only [rel, cleaned, isAbs_clean_eq] at found
  split at found
  · have dot : str "." ∈ below := by
      rw [← elems, ← Option.some.inj found]
      decide
    exact absurd rfl (plain _ dot).ne_dot
  split at found
  · nomatch found
  next sameKind =>
  have tail := dropCommon_snd (Path.names (clean dir)) (Path.names path)
  rcases dropped : dropCommon (Path.names (clean dir)) (Path.names path) with ⟨up, down⟩
  rw [dropped] at found tail
  split at found
  · nomatch found
  have same : replicate up.length (str "..") ++ down = below := by
    rw [← elems, ← Option.some.inj found, elements, joinSlash]
    refine (splitOn_intercalate 47 ?_ ?_).symm
    · intro name mem
      rcases mem_append.mp mem with mem | mem
      · rw [eq_of_mem_replicate mem]
        decide
      · exact (settled.texts name (tail.subset mem)).2.2
    · rintro none
      rw [none] at found
      have empty : [] ∈ below := by
        rw [← elems, ← Option.some.inj found]
        decide
      exact (plain [] empty).ne_nil rfl
  have noUp : up = [] := by
    cases up with
    | nil => rfl
    | cons first up => exact absurd rfl (plain (str "..") (same ▸ by simp [replicate_succ])).ne_up
  subst noUp
  rw [length_nil, replicate_zero, nil_append] at same
  rw [← whole, dropCommon_eq_nil dropped, same, under]
  simp_all

lemma plain_append (plain : ∀ name ∈ names, Plain name) (plain' : Plain name) :
    ∀ other ∈ names ++ [name], Plain other := by
  intro other mem
  rcases mem_append.mp mem with mem | mem
  · exact plain other mem
  · rwa [mem_singleton.mp mem]

/-! ### Absolute paths -/

lemma clean_of_isAbs {path : Bytes} (absolute : isAbs path) :
    ∃ names, (∀ name ∈ names, Plain name) ∧ clean path = rooted names := by
  have settled := settled_clean path
  rw [absolute] at settled
  refine ⟨_, settled.plain, ?_⟩
  rw [clean, absolute]
  rfl

lemma isAbs_rooted (names : List Bytes) : isAbs (rooted names) := rfl

section Rooted

variable (plain : ∀ name ∈ names, Plain name)
include plain

lemma elements_rooted (some : names ≠ []) : elements (rooted names) = [] :: names := by
  rw [rooted, located, if_pos rfl, ← nil_append (47 :: _), elements_append,
    elements_joinSlash (Settled.of_plain true plain) some]
  rfl

lemma clean_rooted : clean (rooted names) = rooted names := clean_located (.of_plain true plain)

lemma names_rooted : Path.names (rooted names) = names := names_located (.of_plain true plain)

lemma under_rooted (below : List Bytes) :
    under (rooted names) below = rooted (names ++ below) := by
  rw [under, clean_rooted plain, names_rooted plain]
  rfl

lemma join_rooted (plain' : Plain name) :
    join [rooted names, name] = rooted (names ++ [name]) := by
  have joined := join_under (rooted names) (by simp) (forall_mem_singleton.mpr plain')
  rwa [joinSlash, intercalate_singleton, under_rooted plain] at joined

omit plain in
lemma base_rooted {front : List Bytes} (plain : ∀ other ∈ front ++ [name], Plain other) :
    base (rooted (front ++ [name])) = name := by
  have plain' := plain name (by simp)
  obtain ⟨before, whole⟩ : ∃ before, rooted (front ++ [name]) = before ++ 47 :: name := by
    by_cases none : front = []
    · exact ⟨[], by simp [none, rooted, located, joinSlash]⟩
    · exact ⟨_, located_append (.of_plain true fun other mem => plain other (by simp [mem])) none
        plain'⟩
  have noSlash : ∀ byte ∈ name.reverse, (byte != 47) = true := fun byte mem => by
    have other : byte ≠ 47 := fun slash => plain'.no_slash (slash ▸ List.mem_reverse.mp mem)
    simpa using other
  obtain ⟨last, rest, reversed⟩ := exists_cons_of_ne_nil (show name.reverse ≠ [] by
    simpa using plain'.ne_nil)
  have trimmed : (((before ++ 47 :: name).reverse).dropWhile (· == 47)).reverse =
      before ++ 47 :: name := by
    have other : (last == 47) = false := by
      simpa [bne] using noSlash last (by rw [reversed]; exact .head _)
    rw [reverse_append, reverse_cons, reversed, append_assoc, cons_append,
      dropWhile_cons_of_neg (by simp [other]), ← cons_append, ← reversed]
    simp
  rw [whole, base, if_neg (by simp), trimmed]
  dsimp only
  rw [if_neg (by simp), lastElement, reverse_append, reverse_cons, append_assoc,
    takeWhile_append_of_pos noSlash]
  simp

end Rooted

lemma isAbs_clean {path : Bytes} (absolute : isAbs path) : isAbs (clean path) := by
  rwa [isAbs_clean_eq]

lemma clean_clean {path : Bytes} (absolute : isAbs path) : clean (clean path) = clean path := by
  obtain ⟨names, plain, same⟩ := clean_of_isAbs absolute
  rw [same]
  exact clean_rooted plain

/-- An absolute path that `Clean` leaves as it is. -/
structure Canonical (path : Bytes) : Prop where
  absolute : isAbs path
  cleaned : clean path = path

lemma canonical_clean (absolute : isAbs path) : Canonical (clean path) :=
  ⟨isAbs_clean absolute, clean_clean absolute⟩

lemma canonical_join {first : Bytes} (absolute : isAbs first) (rest : List Bytes) :
    Canonical (join (first :: rest)) := by
  obtain ⟨byte, bytes, rfl⟩ : ∃ byte bytes, first = byte :: bytes := by
    cases first with
    | nil => nomatch absolute
    | cons byte bytes => exact ⟨byte, bytes, rfl⟩
  have joined : isAbs (joinSlash ((byte :: bytes) :: rest)) := by
    cases rest with
    | nil => simpa [joinSlash, isAbs] using absolute
    | cons second rest => simpa [joinSlash, isAbs] using absolute
  exact canonical_clean joined

lemma canonical_dir (absolute : isAbs path) : Canonical (dir path) := by
  obtain ⟨bytes, rfl⟩ : ∃ bytes, path = 47 :: bytes := by
    cases path with
    | nil => nomatch absolute
    | cons byte bytes =>
      have slash : byte = 47 := by simpa [isAbs] using absolute
      exact ⟨bytes, by rw [slash]⟩
  apply canonical_clean
  have kept : ∃ front, ((47 :: bytes).reverse.dropWhile (· != 47)).reverse = 47 :: front := by
    rw [reverse_cons]
    induction bytes.reverse with
    | nil => exact ⟨[], by simp⟩
    | cons last before ih =>
      by_cases slash : last = 47
      · exact ⟨before.reverse ++ [47], by simp [slash]⟩
      · obtain ⟨front, same⟩ := ih
        exact ⟨front, by rw [cons_append, dropWhile_cons_of_pos (by simp [slash]), same]⟩
  obtain ⟨front, same⟩ := kept
  rw [same]
  rfl

lemma canonical_abs {workingDirectory : Bytes} (rooted : isAbs workingDirectory) (path : Bytes) :
    Canonical (abs workingDirectory path) := by
  rw [abs]
  split
  · rename_i absolute
    exact canonical_clean absolute
  · exact canonical_join rooted [path]

lemma Canonical.abs_eq (canonical : Canonical path) (workingDirectory : Bytes) :
    abs workingDirectory path = path := by
  rw [abs, if_pos canonical.absolute, canonical.cleaned]

lemma abs_dot {dir : Bytes} (absolute : isAbs dir) : abs dir (str ".") = clean dir := by
  obtain ⟨byte, bytes, rfl⟩ := exists_cons_of_ne_nil (show dir ≠ [] by rintro rfl; nomatch absolute)
  have joined : abs (byte :: bytes) (str ".") = clean ((byte :: bytes) ++ 47 :: str ".") := by
    simp [abs, isAbs, join, joinSlash, str]
  have rest : isAbs ((byte :: bytes) ++ 47 :: str ".") = isAbs (byte :: bytes) := rfl
  rw [joined, clean, clean, rest, elements_append, foldl_append]
  rfl

end Rotor.Path
