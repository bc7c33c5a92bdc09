import Mathlib.Data.List.Infix
import Rotor.Luau.Cst.StringValue
import Rotor.Luau.Render.Render

/-!
What a rendered string literal stands for.

The renderer writes the bytes of a string as they are, between quotes that the string does not
have or else in long brackets that it does not close. Between quotes every byte has to stand for
itself. In long brackets a line break is dropped behind the opening bracket and is a line feed
elsewhere.
-/

namespace Rotor.Luau.Render

open List Luau.Lex Cst

variable {value text : Bytes} {level : Nat}

def hasReturnFeed : Bytes → Bool
  | 13 :: 10 :: _ => true
  | _ :: rest => hasReturnFeed rest
  | [] => false

/-- The strings that a literal without escapes stands for, in the form chosen for it. -/
def rendersFaithfully (value : Bytes) : Bool :=
  !value.contains 0 &&
    if !value.contains 10 && (!value.contains 34 || !value.contains 39) then
      !value.contains 92 && !value.contains 13
    else value.head? != some 10 && !hasReturnFeed value

/-! ### Quotes -/

lemma shortValue_raw {quote : UInt8} (raw : ∀ c ∈ value, c ≠ quote ∧ c ≠ 92 ∧ isBroken c = false)
    {fuel : Nat} (enough : value.length < fuel) :
    shortValue quote fuel (value ++ [quote]) = some (value, []) := by
  induction value generalizing fuel with
  | nil =>
    obtain ⟨fuel, rfl⟩ := Nat.exists_eq_succ_of_ne_zero (Nat.pos_iff_ne_zero.1 enough)
    simp [shortValue]
  | cons c value ih =>
    obtain ⟨fuel, rfl⟩ := Nat.exists_eq_succ_of_ne_zero (Nat.ne_of_gt (Nat.zero_lt_of_lt enough))
    obtain ⟨notQuote, notEscape, notBroken⟩ := raw c mem_cons_self
    have read := ih (fun d mem => raw d (mem_cons_of_mem c mem)) (Nat.lt_of_succ_lt_succ enough)
    rw [cons_append, shortValue, if_neg notQuote, if_neg notEscape, notBroken, read]
    rfl

lemma unescapeShort_length (body : Bytes) : (unescapeShort body).length ≤ body.length := by
  fun_induction unescapeShort body with
  | case1 => exact le_rfl
  | case2 c => exact le_rfl
  | case3 e rest ih => simp only [length_cons]; omega
  | case4 c e rest _ ih => simpa using ih

lemma unescapeShort_eq_self {body : Bytes} (kept : body.length ≤ (unescapeShort body).length) :
    unescapeShort body = body := by
  fun_induction unescapeShort body with
  | case1 => rfl
  | case2 c => rfl
  | case3 e rest _ =>
    have shorter := unescapeShort_length rest
    simp only [length_cons] at kept
    omega
  | case4 c e rest _ ih => rw [ih (by simpa using kept)]

lemma raw_of_plainText {body : Bytes} (same : unescapeShort body = body)
    (plain : plainText body) : ∀ c ∈ body, c ≠ 92 ∧ isBroken c = false := by
  fun_induction plainText body with
  | case1 => simp
  | case2 c => simpa using plain
  | case3 e rest _ =>
    have shorter := unescapeShort_length rest
    have length := congrArg List.length same
    simp only [unescapeShort_escape, length_cons] at length
    omega
  | case4 c e rest notEscape ih =>
    rw [unescapeShort_cons notEscape, List.cons.injEq] at same
    simp only [Bool.and_eq_true, Bool.not_eq_true'] at plain
    intro d mem
    rcases mem_cons.1 mem with rfl | later
    · exact ⟨notEscape, plain.1⟩
    · exact ih same.2 plain.2 d later

lemma literalValue_quoted_iff {quote : UInt8} (quoted : quote = 34 ∨ quote = 39)
    (absent : quote ∉ value) :
    literalValue (quote :: (value ++ [quote])) = some value ↔
      ∀ c ∈ value, c ≠ 92 ∧ isBroken c = false := by
  have literal : readLiteral (quote :: (value ++ [quote])) =
      shortValue quote (value ++ [quote]).length (value ++ [quote]) := by
    rw [readLiteral, if_pos (by simpa using quoted)]
  rw [literalValue_of_head (List.head?_cons ..) (isSpace_quote quoted), literal]
  constructor
  · intro same
    obtain ⟨⟨read, after⟩, found, kept⟩ := Option.bind_eq_some_iff.1 same
    dsimp only at kept
    split at kept
    · rename_i spaces
      obtain ⟨body, split, length, plain⟩ := shortValue_spec _ found
      obtain rfl := after_eq_nil quoted (by simp) split spaces
      obtain rfl := append_cancel_right split
      obtain rfl := Option.some.inj kept
      have unchanged := unescapeShort_eq_self length
      exact raw_of_plainText unchanged (plain unchanged.symm)
    · cases kept
  · intro raw
    have bytes : ∀ c ∈ value, c ≠ quote ∧ c ≠ 92 ∧ isBroken c = false := fun c mem =>
      ⟨fun same => absent (same ▸ mem), raw c mem⟩
    rw [shortValue_raw bytes (by simp)]
    rfl

/-! ### Long brackets -/

/-- The text does not close the brackets of a level, and does not run into the closing one. -/
structure Unclosed (level : Nat) (text : Bytes) : Prop where
  inside : ¬closingBracket level <:+: text
  atEnd : ¬(93 :: repeatByte 61 level) <:+ text

lemma Unclosed.of_cons {c : UInt8} (unclosed : Unclosed level (c :: text)) :
    Unclosed level text where
  inside infix' := unclosed.inside (infix'.trans (suffix_cons c text).isInfix)
  atEnd suffix := unclosed.atEnd (suffix.trans (suffix_cons c text))

lemma containsBytes_iff {sub : Bytes} : containsBytes text sub ↔ sub <:+: text := by
  simp only [containsBytes, any_eq_true, mem_tails, isPrefixOf_iff_prefix, infix_iff_prefix_suffix]
  exact exists_congr fun _ => and_comm

lemma unclosed_of_length (short : text.length ≤ level) : Unclosed level text where
  inside infix' := by
    have fits := infix'.length_le
    simp only [closingBracket, repeatByte, length_cons, length_append, length_replicate] at fits
    omega
  atEnd suffix := by
    have fits := suffix.length_le
    simp only [repeatByte, length_cons, length_replicate] at fits
    omega

lemma unclosed_safeLevel (fuel level : Nat) (enough : text.length ≤ level + fuel) :
    Unclosed (safeLevel text fuel level) text := by
  induction fuel generalizing level with
  | zero => exact unclosed_of_length enough
  | succ fuel ih =>
    rw [safeLevel]
    split
    · exact ih (level + 1) (by omega)
    · rename_i free
      simp only [Bool.or_eq_true, not_or, containsBytes_iff, isSuffixOf_iff_suffix] at free
      exact ⟨free.1, free.2⟩

lemma prefix_closingBracket (some' : text ≠ [])
    (shorter : text.length < (closingBracket level).length)
    (front : text <+: closingBracket level) :
    ∃ equals ≤ level, text = 93 :: repeatByte 61 equals := by
  have bracket : closingBracket level = (93 :: repeatByte 61 level) ++ [93] := rfl
  rw [bracket] at front shorter
  rcases prefix_concat_iff.1 front with rfl | begins
  · exact absurd shorter (lt_irrefl _)
  · obtain ⟨c, rest, rfl⟩ := exists_cons_of_ne_nil some'
    obtain ⟨rfl, equals⟩ := cons_prefix_cons.1 begins
    obtain ⟨few, all⟩ := prefix_replicate_iff.1 equals
    exact ⟨rest.length, few, congrArg _ all⟩

lemma Unclosed.not_prefix (unclosed : Unclosed level text) (some' : text ≠ []) (after : Bytes) :
    ¬closingBracket level <+: text ++ (closingBracket level ++ after) := by
  intro begins
  rcases Nat.lt_or_ge text.length (closingBracket level).length with shorter | longer
  · -- then the text is the front of the bracket, and what is behind it begins with its first byte
    have front : text <+: closingBracket level :=
      prefix_of_prefix_length_le (prefix_append ..) begins shorter.le
    obtain ⟨equals, few, rfl⟩ := prefix_closingBracket some' shorter front
    obtain ⟨more, rfl⟩ := Nat.exists_eq_add_of_le few
    have split : closingBracket (equals + more) =
        (93 :: repeatByte 61 equals) ++ (repeatByte 61 more ++ [93]) := by
      rw [closingBracket, repeatByte, replicate_add, append_assoc]
      rfl
    nth_rewrite 1 [split] at begins
    have behind := (prefix_append_right_inj _).1 begins
    cases more with
    | zero => exact unclosed.atEnd suffix_rfl
    | succ more =>
      have heads := (cons_prefix_cons.1 behind).1
      exact absurd heads (by decide)
  · exact unclosed.inside (prefix_of_prefix_length_le begins (prefix_append ..) longer).isInfix

lemma longText_unclosed (unclosed : Unclosed level text) (after : Bytes) :
    longText (closingBracket level) (text ++ (closingBracket level ++ after)) =
      if text.contains 0 then none else some (text, after) := by
  induction text with
  | nil => simp [closingBracket, longText]
  | cons c text ih =>
    have unseen := unclosed.not_prefix (cons_ne_nil c text) after
    rw [← isPrefixOf_iff_prefix] at unseen
    rw [cons_append] at unseen ⊢
    rw [longText, if_neg unseen, ih unclosed.of_cons]
    by_cases zero : c = 0
    · simp [zero]
    · rw [if_neg zero, contains_cons, beq_eq_false_iff_ne.2 (Ne.symm zero), Bool.false_or]
      cases text.contains 0 with
      | true => rfl
      | false => rfl

lemma literalValue_spaced {spacing : Bytes} (spaces : ∀ c ∈ spacing, isSpace c)
    (text : Bytes) : literalValue (spacing ++ text) = literalValue text := by
  rw [literalValue, dropWhile_append_of_pos spaces]
  rfl

lemma literalValue_unclosed {spacing : Bytes} (unclosed : Unclosed level value)
    (spaces : ∀ c ∈ spacing, isSpace c) :
    literalValue (spacing ++
        (openingBracket level ++ (value ++ (closingBracket level ++ spacing)))) =
      if value.contains 0 then none else some (dropLineBreak value) := by
  have level' : longBracketLevel (openingBracket level ++
      (value ++ (closingBracket level ++ spacing))) = some level :=
    longBracketLevel_eq_some.2 ⟨_, rfl⟩
  have solid : (openingBracket level ++ (value ++ (closingBracket level ++ spacing))).head? =
      some 91 := rfl
  rw [literalValue_spaced spaces, literalValue_of_head solid rfl, readLiteral_of_level level',
    ← openingBracket_length level, drop_left, longText_unclosed unclosed]
  cases value.contains 0 with
  | true => rfl
  | false => simpa using spaces

/-! ### All forms -/

lemma renderStringLiteral_double (slot : Slot)
    (double : (!value.contains 10 && !value.contains 34)) :
    renderStringLiteral slot value = 34 :: (value ++ [34]) := if_pos double

lemma renderStringLiteral_single (slot : Slot)
    (notDouble : ¬(!value.contains 10 && !value.contains 34))
    (single : (!value.contains 10 && !value.contains 39)) :
    renderStringLiteral slot value = 39 :: (value ++ [39]) :=
  (if_neg notDouble).trans (if_pos single)

lemma renderStringLiteral_long (slot : Slot)
    (notDouble : ¬(!value.contains 10 && !value.contains 34))
    (notSingle : ¬(!value.contains 10 && !value.contains 39)) :
    ∃ spacing, (∀ c ∈ spacing, isSpace c) ∧ ∃ level, Unclosed level value ∧
      renderStringLiteral slot value = spacing ++
        (openingBracket level ++ (value ++ (closingBracket level ++ spacing))) := by
  have unclosed : Unclosed (safeLevel value (value.length + 1) 0) value :=
    unclosed_safeLevel (value.length + 1) 0 (by omega)
  cases slot with
  | bracket =>
    refine ⟨[32], by simp [isSpace], _, unclosed, (if_neg notDouble).trans ?_⟩
    rw [if_neg notSingle]
    simp only [openingBracket, closingBracket, getSafeBracketEquals, append_assoc,
      cons_append, nil_append]
    rfl
  | _ =>
    refine ⟨[], by simp, _, unclosed, (if_neg notDouble).trans ?_⟩
    rw [if_neg notSingle]
    simp only [openingBracket, closingBracket, getSafeBracketEquals, append_assoc,
      cons_append, nil_append]
    rfl

lemma rendersFaithfully_quoted (oneLine : value.contains 10 = false)
    (quoted : value.contains 34 = false ∨ value.contains 39 = false) :
    rendersFaithfully value ↔ ∀ c ∈ value, c ≠ 92 ∧ isBroken c = false := by
  have form : (!value.contains 10 && (!value.contains 34 || !value.contains 39)) := by
    rcases quoted with free | free
    · simp_all
    · simp_all
  rw [rendersFaithfully, if_pos form]
  simp only [contains_eq_mem, decide_eq_false_iff_not, Bool.and_eq_true, Bool.not_eq_true',
    isBroken, Bool.or_eq_false_iff, beq_eq_false_iff_ne] at oneLine ⊢
  constructor
  · rintro ⟨noZero, noEscape, noReturn⟩ c mem
    refine ⟨?_, ⟨?_, ?_⟩, ?_⟩
    all_goals
      rintro rfl
      contradiction
  · intro raw
    exact ⟨fun zero => (raw 0 zero).2.2 rfl, fun escape => (raw 92 escape).1 rfl,
      fun return' => (raw 13 return').2.1.2 rfl⟩

lemma unifyLineBreaks_length (value : Bytes) :
    (unifyLineBreaks value).length ≤ value.length := by
  fun_induction unifyLineBreaks value with
  | case1 rest ih => simp only [length_cons]; omega
  | case2 c rest _ ih => simpa using ih
  | case3 => exact le_rfl

lemma unifyLineBreaks_eq_iff : unifyLineBreaks value = value ↔ hasReturnFeed value = false := by
  fun_induction unifyLineBreaks value with
  | case1 rest ih =>
    have short := unifyLineBreaks_length rest
    refine iff_of_false (fun same => ?_) (by simp [hasReturnFeed])
    have lengths := congrArg length same
    simp only [length_cons] at lengths
    omega
  | case2 c rest other ih =>
    rw [cons_inj_right, ih, hasReturnFeed.eq_2 c rest other]
  | case3 => exact iff_of_true rfl rfl

lemma dropLineBreak_cases (value : Bytes) : dropLineBreak value = value ∨
    (dropLineBreak value).length < value.length := by
  rw [dropLineBreak.eq_def]
  split
  · exact .inr (by simp only [length_cons]; omega)
  · exact .inr (by simp)
  · exact .inl rfl

lemma dropLineBreak_eq_of_unified (same : unifyLineBreaks (dropLineBreak value) = value) :
    dropLineBreak value = value := by
  have short := unifyLineBreaks_length (dropLineBreak value)
  rw [same] at short
  exact (dropLineBreak_cases value).resolve_right (by omega)

lemma long_kept_iff : unifyLineBreaks (dropLineBreak value) = value ↔
    (value.head? != some 10 && !hasReturnFeed value) = true := by
  rw [Bool.and_eq_true, bne_iff_ne, Bool.not_eq_true']
  constructor
  · intro same
    have whole := dropLineBreak_eq_of_unified same
    rw [whole, unifyLineBreaks_eq_iff] at same
    refine ⟨fun first => ?_, same⟩
    obtain ⟨rest, rfl⟩ := head?_eq_some_iff.1 first
    simpa [dropLineBreak] using congrArg length whole
  · rintro ⟨first, free⟩
    have whole : dropLineBreak value = value := by
      rw [dropLineBreak.eq_def]
      split
      · simp [hasReturnFeed] at free
      · exact absurd rfl first
      · rfl
    rw [whole, unifyLineBreaks_eq_iff.2 free]

lemma evaluateLiteral_quoted {quote : UInt8} (quoted : quote = 34 ∨ quote = 39) (text : Bytes) :
    evaluateLiteral (quote :: text) = literalValue (quote :: text) := by
  rw [evaluateLiteral, dropWhile_cons_of_neg (by simp [isSpace_quote quoted]), if_neg]
  rcases quoted with rfl | rfl <;> simp

lemma evaluateLiteral_unclosed {spacing : Bytes} (unclosed : Unclosed level value)
    (spaces : ∀ c ∈ spacing, isSpace c) :
    evaluateLiteral (spacing ++
        (openingBracket level ++ (value ++ (closingBracket level ++ spacing)))) =
      if value.contains 0 then none else some (unifyLineBreaks (dropLineBreak value)) := by
  have long : ((spacing ++ (openingBracket level ++ (value ++
      (closingBracket level ++ spacing)))).dropWhile isSpace).head? = some 91 := by
    rw [dropWhile_append_of_pos spaces]
    rfl
  rw [evaluateLiteral, if_pos long, literalValue_unclosed unclosed spaces]
  cases value.contains 0 with
  | true => rfl
  | false => rfl

lemma evaluateLiteral_renderStringLiteral_iff (slot : Slot) (value : Bytes) :
    evaluateLiteral (renderStringLiteral slot value) = some value ↔
      rendersFaithfully value := by
  by_cases double : (!value.contains 10 && !value.contains 34)
  · have free := double
    simp only [Bool.and_eq_true, Bool.not_eq_true'] at free
    rw [renderStringLiteral_double slot double, evaluateLiteral_quoted (.inl rfl),
      literalValue_quoted_iff (.inl rfl) (by simpa using free.2),
      rendersFaithfully_quoted free.1 (.inl free.2)]
  · by_cases single : (!value.contains 10 && !value.contains 39)
    · have free := single
      simp only [Bool.and_eq_true, Bool.not_eq_true'] at free
      rw [renderStringLiteral_single slot double single, evaluateLiteral_quoted (.inr rfl),
        literalValue_quoted_iff (.inr rfl) (by simpa using free.2),
        rendersFaithfully_quoted free.1 (.inr free.2)]
    · obtain ⟨spacing, spaces, level, unclosed, rendered⟩ :=
        renderStringLiteral_long slot double single
      have form : ¬(!value.contains 10 && (!value.contains 34 || !value.contains 39)) := by
        rw [Bool.and_or_distrib_left, Bool.or_eq_true]
        exact not_or.2 ⟨double, single⟩
      rw [rendered, evaluateLiteral_unclosed unclosed spaces, rendersFaithfully, if_neg form,
        Bool.and_eq_true, ← long_kept_iff]
      simp

end Rotor.Luau.Render
