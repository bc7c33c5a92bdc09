import Rotor.Luau.Render.Literals

/-!
Rendered comments.

A comment of the source goes into the output verbatim, behind two dashes if it is one line and in
long brackets otherwise.  This module reads the rendered lines back with the lexer, in front of any
further text.
-/

namespace Rotor.Luau.Render

open List Luau.Lex Cst

/-! ### Trivia in front of a text -/

/-- The lexer reads only whitespace and comments up to a rest, and reads that rest as it would on
its own. -/
def TriviaBefore (interp : List Nat) (src rest : Bytes) : Prop :=
  ∃ front : List Lexeme, (∀ lexeme ∈ front, lexeme.kind.isTrivia = true) ∧
    (front.map Lexeme.text).flatten ++ rest = src ∧
    ∀ lexemes, Lexes interp rest lexemes → Lexes interp src (front ++ lexemes)

lemma TriviaBefore.refl (interp : List Nat) (src : Bytes) : TriviaBefore interp src src :=
  ⟨[], (fun _ mem => nomatch mem), rfl, fun _ read => read⟩

variable {interp : List Nat} {rest src text sub : Bytes} {level indent : Nat}

lemma TriviaBefore.trans {middle : Bytes} (first : TriviaBefore interp src middle)
    (second : TriviaBefore interp middle rest) : TriviaBefore interp src rest := by
  obtain ⟨front, trivia, text, reads⟩ := first
  obtain ⟨front', trivia', text', reads'⟩ := second
  refine ⟨front ++ front', ?_, ?_, ?_⟩
  · intro lexeme mem
    rcases mem_append.mp mem with before | behind
    · exact trivia lexeme before
    · exact trivia' lexeme behind
  · rw [map_append, List.flatten_append, append_assoc, text', text]
  · intro lexemes read
    rw [append_assoc]
    exact reads _ (reads' _ read)

lemma TriviaBefore.step (more : src ≠ []) (trivia : (scanLexeme interp src).kind.isTrivia)
    (same : (scanLexeme interp src).interp = interp) :
    TriviaBefore interp src (scanLexeme interp src).rest := by
  refine ⟨[scanLexeme interp src], ?_, ?_, ?_⟩
  · intro lexeme mem
    rwa [mem_singleton.mp mem]
  · simp only [map_cons, map_nil, List.flatten_cons, List.flatten_nil, append_nil]
    exact scanLexeme_splits interp src
  · intro lexemes read
    exact .next more (by rwa [same])

lemma TriviaBefore.spaces (interp : List Nat) (src : Bytes) :
    TriviaBefore interp src (src.dropWhile isSpace) := by
  cases src with
  | nil => exact .refl interp []
  | cons c src =>
    cases space : isSpace c with
    | false =>
      rw [dropWhile_cons_of_neg (by simp [space])]
      exact .refl interp _
    | true =>
      have read := @scanLexeme_space c interp src space
      have step := @TriviaBefore.step interp (c :: src) (cons_ne_nil _ _)
        (by rw [read]; rfl) (by rw [read])
      rwa [read] at step

lemma TriviaBefore.comment (interp : List Nat) (src : Bytes) :
    TriviaBefore interp (45 :: 45 :: src) (scanComment (45 :: 45 :: src)).rest := by
  have read := @scanLexeme_comment 45 interp (45 :: src) rfl rfl
  have step := @TriviaBefore.step interp (45 :: 45 :: src) (cons_ne_nil _ _)
    (by rw [read]; rfl) (by rw [read]; rfl)
  rwa [read] at step

/-! ### Comments of one line -/

/-- Whether what follows two dashes on a line is a comment up to the line's end, and no further:
it opens no long bracket, or one that it closes with nothing but space or such a comment behind
it.  Every turn takes the brackets off the text. -/
def staysComment : Nat → Bytes → Bool
  | 0, _ => false
  | fuel + 1, text =>
    match longBracketLevel text with
    | none => true
    | some level =>
      let scanned := consumeLongBody level text
      scanned.closed && match scanned.rest.dropWhile isSpace with
        | [] => true
        | 45 :: 45 :: more => staysComment fuel more
        | _ => false

lemma openingBracket_no_lineBreak (level : Nat) : 10 ∉ openingBracket level := by
  simp [openingBracket, repeatByte]

lemma closingBracket_no_lineBreak (level : Nat) : 10 ∉ closingBracket level := by
  simp [closingBracket, repeatByte]

lemma prefix_of_prefix_line {front : Bytes} (absent : 10 ∉ front)
    (begins : front <+: text ++ 10 :: rest) : front <+: text := by
  rcases Nat.lt_or_ge text.length front.length with longer | fits
  · have inside : text ++ [10] <+: front := by
      refine prefix_of_prefix_length_le ⟨rest, by simp⟩ begins ?_
      simp only [length_append, length_singleton]
      omega
    exact absurd (inside.subset (by simp)) absent
  · exact prefix_of_prefix_length_le begins (prefix_append _ _) fits

lemma longBracketLevel_line (text rest : Bytes) :
    longBracketLevel (text ++ 10 :: rest) = longBracketLevel text := by
  refine Option.ext fun level => ?_
  rw [longBracketLevel_eq_some, longBracketLevel_eq_some]
  constructor
  · rintro ⟨more, same⟩
    have begins : openingBracket level <+: text ++ 10 :: rest := ⟨more, same.symm⟩
    obtain ⟨behind, split'⟩ := prefix_of_prefix_line (openingBracket_no_lineBreak level) begins
    exact ⟨behind, split'.symm⟩
  · rintro ⟨more, rfl⟩
    exact ⟨more ++ 10 :: rest, by simp⟩

lemma consumeLongBody_line (long : longBracketLevel text = some level)
    (closed : (consumeLongBody level text).closed) (rest : Bytes) :
    (consumeLongBody level (text ++ 10 :: rest)).rest =
      (consumeLongBody level text).rest ++ 10 :: rest := by
  obtain ⟨body, rfl⟩ := longBracketLevel_eq_some.mp long
  rw [consumeLongBody_openingBracket] at closed ⊢
  rw [append_assoc, consumeLongBody_openingBracket]
  have splits : (longBodyTail (closingBracket level) body).text ++
      (longBodyTail (closingBracket level) body).rest = body :=
    longBodyTail_splits (closingBracket level) body
  have again := longBodyTail_closed (closingBracket level) body closed (cons_ne_nil _ _)
    ((longBodyTail (closingBracket level) body).rest ++ 10 :: rest)
  rw [← append_assoc, splits] at again
  simp only [Scanned.cons, again]

lemma scanComment_line (oneLine : 10 ∉ text) (short : longBracketLevel text = none)
    (rest : Bytes) : (scanComment (45 :: 45 :: (text ++ 10 :: rest))).rest = 10 :: rest := by
  have consumed : consumeWhile (fun c => c != 10) (text ++ 10 :: rest) = (text, 10 :: rest) := by
    refine consumeWhile_eq_iff.mpr ⟨fun c mem => ?_, fun c head => ?_⟩
    · rw [bne_iff_ne]
      rintro rfl
      exact oneLine mem
    · obtain rfl : 10 = c := by simpa using head
      rfl
  have level : longBracketLevel ((45 :: 45 :: (text ++ 10 :: rest)).drop 2) = none :=
    (longBracketLevel_line text rest).trans short
  rw [scanComment, level]
  exact congrArg Prod.snd consumed

lemma scanComment_long (long : longBracketLevel text = some level) (rest : Bytes) :
    scanComment (45 :: 45 :: (text ++ 10 :: rest)) =
      (consumeLongBody level (text ++ 10 :: rest)).cons [45, 45] := by
  have level' : longBracketLevel ((45 :: 45 :: (text ++ 10 :: rest)).drop 2) = some level :=
    (longBracketLevel_line text rest).trans long
  rw [scanComment, level']
  rfl

lemma rest_suffix (level : Nat) (text : Bytes) : (consumeLongBody level text).rest <:+ text := by
  have splits : (consumeLongBody level text).text ++ (consumeLongBody level text).rest = text :=
    consumeLongBody_splits level text
  exact ⟨_, splits⟩

lemma triviaBefore_of_stays {fuel : Nat} (oneLine : 10 ∉ text)
    (stays : staysComment fuel text) (rest : Bytes) :
    TriviaBefore interp (45 :: 45 :: (text ++ 10 :: rest)) (rest.dropWhile isSpace) := by
  induction fuel generalizing text with
  | zero => cases stays
  | succ fuel ih =>
    have first := TriviaBefore.comment interp (text ++ 10 :: rest)
    rw [staysComment] at stays
    cases long : longBracketLevel text with
    | none =>
      rw [scanComment_line oneLine long] at first
      exact first.trans (.spaces interp (10 :: rest))
    | some level =>
      rw [long] at stays
      obtain ⟨closed, behind⟩ := Bool.and_eq_true_iff.mp stays
      rw [scanComment_long long] at first
      simp only [Scanned.cons, consumeLongBody_line long closed] at first
      have suffix := rest_suffix level text
      generalize (consumeLongBody level text).rest = after at first behind suffix
      have second := first.trans (.spaces interp (after ++ 10 :: rest))
      rw [dropWhile_append] at second
      split at behind
      · rename_i empty
        rw [empty] at second
        exact second
      · rename_i more dashes
        rw [dashes] at second
        have inside : 10 ∉ more := fun mem =>
          oneLine (suffix.subset ((dropWhile_suffix isSpace).subset
            (dashes ▸ mem_cons_of_mem _ (mem_cons_of_mem _ mem))))
        exact second.trans (ih inside behind)
      · cases behind

/-! ### What the lexer makes of other lines -/

lemma TriviaBefore.first (before : TriviaBefore interp src rest) (differs : src ≠ rest) :
    (scanLexeme interp src).kind.isTrivia ∧ ((scanLexeme interp src).interp = interp →
        TriviaBefore interp (scanLexeme interp src).rest rest) := by
  obtain ⟨front, trivia, text, reads⟩ := before
  cases front with
  | nil => exact absurd text.symm differs
  | cons lexeme front =>
    obtain ⟨lexemes, read⟩ := lexes_exists interp rest
    have whole := reads lexemes read
    have isFirst : lexeme = scanLexeme interp src := by
      cases whole with
      | next more tail => rfl
    subst isFirst
    refine ⟨trivia _ mem_cons_self, fun same => ⟨front, ?_, ?_, ?_⟩⟩
    · exact fun other mem => trivia other (mem_cons_of_mem _ mem)
    · have splits : (scanLexeme interp src).text ++ (scanLexeme interp src).rest = src :=
        scanLexeme_splits interp src
      rw [map_cons, List.flatten_cons, append_assoc] at text
      exact append_cancel_left (text.trans splits.symm)
    · intro others readOthers
      have again := reads others readOthers
      cases again with
      | next more tail => rwa [same] at tail

lemma TriviaBefore.behindSpaces (before : TriviaBefore interp src rest)
    (solid : rest.dropWhile isSpace = rest) : TriviaBefore interp (src.dropWhile isSpace) rest := by
  cases src with
  | nil => exact before
  | cons c src =>
    cases space : isSpace c with
    | false => rwa [dropWhile_cons_of_neg (by simp [space])]
    | true =>
      have read := @scanLexeme_space c interp src space
      have differs : c :: src ≠ rest := by
        rintro rfl
        have shorter := congrArg List.length solid
        rw [dropWhile_cons_of_pos space, length_cons] at shorter
        have := (dropWhile_suffix (l := src) isSpace).length_le
        omega
      have next := (before.first differs).2 (by rw [read])
      rwa [read] at next

lemma TriviaBefore.behindComment (before : TriviaBefore interp (45 :: 45 :: src) rest)
    (differs : 45 :: 45 :: src ≠ rest) :
    TriviaBefore interp (scanComment (45 :: 45 :: src)).rest rest := by
  have read := @scanLexeme_comment 45 interp (45 :: src) rfl rfl
  have next := (before.first differs).2 (by rw [read]; rfl)
  rwa [read] at next

lemma scanLexeme_trivia {c : UInt8} (trivia : (scanLexeme interp (c :: src)).kind.isTrivia) :
    isSpace c ∨ (c = 45 ∧ peekAt src 0 = 45) := by
  by_contra neither
  rw [not_or, not_and] at neither
  obtain ⟨solid, noDashes⟩ := neither
  have sym : ∀ rest, (scanSymbol interp rest).kind.isTrivia = false := by
    intro rest
    rw [scanSymbol]
    split <;> rfl
  have start : ∀ rest, (scanInterpStart interp rest).kind.isTrivia = false := by
    intro rest
    rw [scanInterpStart]
    split <;> rfl
  have resume : ∀ rest, (scanInterpResume interp rest).kind.isTrivia = false := by
    intro rest
    rw [scanInterpResume]
    split <;> rfl
  have first : peekAt (c :: src) 0 = c := rfl
  have second : peekAt (c :: src) 1 = peekAt src 0 := rfl
  have noComment : ¬(decide (c = 45) && decide (peekAt src 0 = 45)) := by
    simpa using noDashes
  rw [scanLexeme, first, second] at trivia
  simp only [if_neg solid, if_neg noComment] at trivia
  split_ifs at trivia
  · cases trivia
  · cases trivia
  · cases trivia
  · split at trivia
    · cases trivia
    · rw [sym] at trivia
      cases trivia
  · rw [start] at trivia
    cases trivia
  · rw [resume] at trivia
    cases trivia
  · rw [sym] at trivia
    cases trivia

lemma longBodyTail_open {closing : Bytes} (absent : 10 ∉ closing)
    (open' : (longBodyTail closing text).closed = false)
    (none' : (longBodyTail closing [10, 120]).rest = []) :
    (longBodyTail closing (text ++ [10, 120])).rest = [] := by
  induction text with
  | nil => exact none'
  | cons c text ih =>
    rw [longBodyTail] at open'
    split at open'
    · cases open'
    · rename_i unseen
      have still : ¬ closing.isPrefixOf (c :: (text ++ [10, 120])) := by
        intro seen
        have begins := isPrefixOf_iff_prefix.mp seen
        exact unseen (List.isPrefixOf_iff_prefix.mpr (prefix_of_prefix_line absent begins))
      rw [cons_append, longBodyTail, if_neg still]
      exact ih open'

lemma consumeLongBody_open (long : longBracketLevel text = some level)
    (open' : (consumeLongBody level text).closed = false) :
    (consumeLongBody level (text ++ [10, 120])).rest = [] := by
  obtain ⟨body, rfl⟩ := longBracketLevel_eq_some.mp long
  rw [consumeLongBody_openingBracket] at open'
  rw [append_assoc, consumeLongBody_openingBracket]
  refine longBodyTail_open (closingBracket_no_lineBreak level) open' ?_
  have first : (closingBracket level).isPrefixOf [10, 120] = false := by
    simp [closingBracket, List.isPrefixOf]
  have second : (closingBracket level).isPrefixOf [120] = false := by
    simp [closingBracket, List.isPrefixOf]
  simp [longBodyTail, first, second, Scanned.cons]

/-- A line that leaves the name behind it alone is a comment up to its end. -/
theorem stays_of_triviaBefore {fuel : Nat} (enough : text.length < fuel)
    (before : TriviaBefore interp (45 :: 45 :: (text ++ [10, 120])) [120]) :
    staysComment fuel text := by
  induction fuel generalizing text with
  | zero => exact absurd enough (Nat.not_lt_zero _)
  | succ fuel ih =>
    rw [staysComment]
    cases long : longBracketLevel text with
    | none => rfl
    | some level =>
      have behind := before.behindComment (fun same => nomatch (List.cons.inj same).2)
      rw [scanComment_long long] at behind
      cases closed : (consumeLongBody level text).closed with
      | false =>
        simp only [Scanned.cons, consumeLongBody_open long closed] at behind
        obtain ⟨front, -, whole, -⟩ := behind
        exact absurd (append_eq_nil_iff.mp whole).2 (cons_ne_nil _ _)
      | true =>
        simp only [Scanned.cons, consumeLongBody_line long closed] at behind
        have shorter := (rest_suffix level text).length_le
        dsimp only
        generalize (consumeLongBody level text).rest = after at behind shorter ⊢
        have next := behind.behindSpaces rfl
        rw [dropWhile_append] at next
        rw [closed, Bool.true_and]
        have shorter' := (dropWhile_suffix (l := after) isSpace).length_le
        have head := List.head?_dropWhile_not isSpace after
        generalize after.dropWhile isSpace = solid at next shorter' head ⊢
        split
        · rfl
        · rename_i more
          simp only [length_cons] at shorter'
          exact ih (by omega) next
        · rename_i empty noDashes
          exfalso
          cases solid with
          | nil => exact empty rfl
          | cons c more =>
            have differs : c :: (more ++ [10, 120]) ≠ [120] := by
              intro same
              simpa using congrArg List.length same
            rcases scanLexeme_trivia (next.first differs).1 with space | ⟨rfl, dash⟩
            · simp [space] at head
            · cases more with
              | nil => exact absurd dash (by decide)
              | cons d more =>
                obtain rfl : d = 45 := dash
                exact noDashes more rfl

/-! ### Comments of several lines -/

lemma length_splitLines (text : Bytes) : (splitLines text).length = text.count 10 + 1 := by
  induction text with
  | nil => rfl
  | cons c text ih =>
    rw [splitLines, count_cons]
    split
    · next lineBreak => simp [lineBreak, ih]
    · next other =>
      cases lines : splitLines text with
      | nil => simp [lines] at ih
      | cons first more => simp [other, ← ih, lines]

def tabbed (inner : Nat) (text : Bytes) : Bytes :=
  text.flatMap fun c => if c = 10 then 10 :: repeatByte 9 inner else [c]

lemma flatten_lines (inner : Nat) (text : Bytes) : ((splitLines text).map (line inner)).flatten =
      repeatByte 9 inner ++ (tabbed inner text ++ [10]) := by
  induction text with
  | nil => simp [splitLines, line, indented, tabbed, str]
  | cons c text ih =>
    rw [splitLines]
    split
    · next lineBreak => simp [lineBreak, tabbed, line, indented, str, ih]
    · next other =>
      cases lines : splitLines text with
      | nil => simpa [lines] using length_splitLines text
      | cons first more =>
        rw [lines] at ih
        simp only [map_cons, List.flatten_cons, line, indented, append_assoc,
          append_cancel_left_eq] at ih
        simp [tabbed, line, indented, other, ih]

lemma infix_of_infix_behind {front : Bytes} (some' : sub ≠ []) (apart : ∀ c ∈ front, c ∉ sub)
    (inside : sub <:+: front ++ text) : sub <:+: text := by
  induction front with
  | nil => exact inside
  | cons c front ih =>
    rw [forall_mem_cons] at apart
    rcases infix_cons_iff.mp inside with begins | later
    · obtain ⟨d, sub, rfl⟩ := exists_cons_of_ne_nil some'
      obtain rfl := (cons_prefix_cons.mp begins).1
      exact absurd mem_cons_self apart.1
    · exact ih apart.2 later

lemma infix_of_infix_before {back : Bytes} (some' : sub ≠ []) (apart : ∀ c ∈ back, c ∉ sub)
    (inside : sub <:+: text ++ back) : sub <:+: text := by
  rw [← reverse_infix, reverse_append] at inside
  refine reverse_infix.mp (infix_of_infix_behind (by simpa using some') ?_ inside)
  simpa using apart

lemma prefix_of_prefix_tabbed {inner : Nat} (noLineBreak : 10 ∉ sub)
    (begins : sub <+: tabbed inner text) : sub <+: text := by
  induction text generalizing sub with
  | nil => exact begins
  | cons c text ih =>
    cases sub with
    | nil => exact nil_prefix
    | cons d sub =>
      rw [mem_cons, not_or] at noLineBreak
      rw [tabbed, flatMap_cons] at begins
      split at begins
      · exact absurd (cons_prefix_cons.mp begins).1.symm noLineBreak.1
      · obtain ⟨rfl, later⟩ := cons_prefix_cons.mp begins
        exact cons_prefix_cons.mpr ⟨rfl, ih noLineBreak.2 later⟩

lemma infix_of_infix_tabbed {inner : Nat} (some' : sub ≠ [])
    (apart : ∀ c ∈ 10 :: repeatByte 9 inner, c ∉ sub) (inside : sub <:+: tabbed inner text) :
    sub <:+: text := by
  induction text with
  | nil => exact inside
  | cons c text ih =>
    have within : text <:+: c :: text := (suffix_cons c text).isInfix
    have begins := @prefix_of_prefix_tabbed (c :: text) sub inner (apart 10 mem_cons_self)
    rw [tabbed, flatMap_cons] at inside begins
    split at inside
    · exact (ih (infix_of_infix_behind some' apart inside)).trans within
    · next other =>
      rw [if_neg other] at begins
      rcases infix_cons_iff.mp inside with first | later
      · exact (begins first).isInfix
      · exact (ih later).trans within

def blockBody (indent : Nat) (lines : List Bytes) : Bytes :=
  10 :: ((lines.map (line (indent + 1))).flatten ++ repeatByte 9 indent)

lemma unclosed_blockBody (unclosed : Unclosed level text) (indent : Nat) :
    Unclosed level (blockBody indent (splitLines text)) where
  inside inside := by
    have apart (count : Nat) : ∀ c ∈ 10 :: repeatByte 9 count, c ∉ closingBracket level := by
      simp [closingBracket, repeatByte]
    have some' : closingBracket level ≠ [] := cons_ne_nil _ _
    rw [blockBody, flatten_lines, append_assoc, ← cons_append, append_assoc] at inside
    exact unclosed.inside (infix_of_infix_tabbed some' (apart _)
      (infix_of_infix_before some' (apart indent) (infix_of_infix_behind some' (apart _) inside)))
  atEnd suffix := by
    obtain ⟨front, whole⟩ := suffix
    -- the last character is a line break or a tab
    have last : (blockBody indent (splitLines text)).getLast? =
        (10 :: repeatByte 9 indent).getLast? := by
      rw [blockBody, flatten_lines, append_assoc, append_assoc, singleton_append,
        ← cons_append, ← append_assoc,
        List.getLast?_append_of_ne_nil _ (cons_ne_nil _ _)]
    rw [← whole, List.getLast?_append_of_ne_nil _ (cons_ne_nil _ _)] at last
    obtain ⟨c, isLast⟩ := Option.isSome_iff_exists.mp
      (List.getLast?_isSome.mpr (cons_ne_nil (10 : UInt8) (repeatByte 9 indent)))
    have inBack := mem_of_getLast? isLast
    have inBracket := mem_of_getLast? (last.trans isLast)
    simp only [mem_cons, repeatByte, mem_replicate] at inBack inBracket
    rcases inBack with rfl | ⟨-, rfl⟩ <;> simp at inBracket

lemma longBodyTail_unclosed (unclosed : Unclosed level text) (after : Bytes) :
    (longBodyTail (closingBracket level) (text ++ (closingBracket level ++ after))).rest =
      after := by
  induction text with
  | nil => simp [closingBracket, longBodyTail]
  | cons c text ih =>
    have unseen := unclosed.not_prefix (cons_ne_nil c text) after
    rw [← isPrefixOf_iff_prefix, cons_append] at unseen
    rw [cons_append, longBodyTail, if_neg unseen]
    exact ih unclosed.of_cons

/-! ### All comments -/

/-- The comments that stay comments: those of several lines, and those whose line does. -/
def commentStays (source : Bytes) : Bool :=
  let text := normalizeNewlines source
  text.contains 10 || staysComment (text.length + 1) text

/-- The rendered lines are whitespace and comments, and what follows them is read as it would be
on its own; its leading space is read together with the last line break. -/
def LeavesAlone (emitted following : Bytes) : Prop :=
  ∀ interp, TriviaBefore interp (emitted ++ following) (following.dropWhile isSpace)

lemma dropWhile_tabs : (repeatByte 9 indent ++ 45 :: text).dropWhile isSpace = 45 :: text := by
  have spaces : ∀ c ∈ repeatByte 9 indent, isSpace c := by
    intro c mem
    rw [(mem_replicate.mp mem).2]
    rfl
  rw [dropWhile_append_of_pos spaces]
  rfl

lemma leavesAlone_block (unclosed : Unclosed level text) (indent : Nat) (following : Bytes) :
    LeavesAlone (repeatByte 9 indent ++ (45 :: 45 :: (openingBracket level ++
      (blockBody indent (splitLines text) ++ (closingBracket level ++ [10]))))) following := by
  intro interp
  have tabs := TriviaBefore.spaces interp (repeatByte 9 indent ++ (45 :: 45 ::
    (openingBracket level ++ (blockBody indent (splitLines text) ++
      (closingBracket level ++ 10 :: following)))))
  rw [dropWhile_tabs] at tabs
  have comment := TriviaBefore.comment interp (openingBracket level ++
    (blockBody indent (splitLines text) ++ (closingBracket level ++ 10 :: following)))
  have opens : longBracketLevel (openingBracket level ++ (blockBody indent (splitLines text) ++
      (closingBracket level ++ 10 :: following))) = some level :=
    longBracketLevel_eq_some.mpr ⟨_, rfl⟩
  rw [scanComment, drop_succ_cons, drop_succ_cons, drop_zero, opens] at comment
  simp only [consumeLongBody_openingBracket, Scanned.cons,
    longBodyTail_unclosed (unclosed_blockBody unclosed indent)] at comment
  have whole := (tabs.trans comment).trans (.spaces interp (10 :: following))
  rw [dropWhile_cons_of_pos (show isSpace 10 from rfl)] at whole
  simpa [append_assoc] using whole

lemma several_lines_iff (text : Bytes) : 1 < (splitLines text).length ↔ text.contains 10 := by
  rw [length_splitLines, contains_iff_mem, ← count_pos_iff]
  omega

lemma renderComment_block {source : Bytes}
    (several : (normalizeNewlines source).contains 10) (indent : Nat) :
    ∃ level, Unclosed level (normalizeNewlines source) ∧
      renderComment indent source = repeatByte 9 indent ++ (45 :: 45 :: (openingBracket level ++
        (blockBody indent (splitLines (normalizeNewlines source)) ++
          (closingBracket level ++ [10])))) := by
  refine ⟨_, unclosed_safeLevel ((normalizeNewlines source).length + 1) 0 (by omega), ?_⟩
  rw [renderComment, if_pos ((several_lines_iff _).mpr several)]
  simp [line, indented, blockBody, openingBracket, closingBracket, getSafeBracketEquals, str,
    append_assoc]

lemma renderComment_line {source : Bytes}
    (oneLine : ¬ (normalizeNewlines source).contains 10) (indent : Nat) :
    renderComment indent source =
      repeatByte 9 indent ++ 45 :: 45 :: (normalizeNewlines source ++ [10]) := by
  rw [renderComment, if_neg (mt (several_lines_iff _).mp oneLine)]
  simp [line, indented, str]

/-- Comments stay comments, wherever they are rendered and whatever follows them, exactly when
they have several lines or their line stays one. -/
theorem renderComment_leavesAlone_iff (source : Bytes) :
    (∀ indent following, LeavesAlone (renderComment indent source) following) ↔
      commentStays source = true := by
  rw [commentStays, Bool.or_eq_true]
  by_cases several : (normalizeNewlines source).contains 10 = true
  · refine iff_of_true (fun indent following => ?_) (.inl several)
    obtain ⟨level, unclosed, rendered⟩ := renderComment_block several indent
    rw [rendered]
    exact leavesAlone_block unclosed indent following
  · rw [or_iff_right several]
    have oneLine : 10 ∉ normalizeNewlines source := mt contains_iff_mem.mpr several
    constructor
    · intro alone
      -- a name directly behind the line is not read again as a part of it
      have before := alone 0 [120] []
      rw [renderComment_line several] at before
      refine @stays_of_triviaBefore [] _ _ (Nat.lt_succ_self _) ?_
      simpa [repeatByte, isSpace] using before
    · intro stays indent following interp
      have tabs := TriviaBefore.spaces interp (repeatByte 9 indent ++
        45 :: 45 :: (normalizeNewlines source ++ 10 :: following))
      rw [dropWhile_tabs] at tabs
      have whole := tabs.trans (triviaBefore_of_stays oneLine stays following)
      rw [renderComment_line several]
      simpa [append_assoc] using whole

/-- A text that opens a long bracket takes the next statement into the comment. -/
theorem renderComment_swallows :
    renderComment 0 (str "[[x") ++ str "f()" = str "--[[x\nf()" ∧
      (scanLexeme [] (str "--[[x\nf()")).kind = .comment ∧
      (scanLexeme [] (str "--[[x\nf()")).rest = [] ∧
      ¬ LeavesAlone (renderComment 0 (str "[[x")) (str "f()") := by
  have emitted : renderComment 0 (str "[[x") ++ str "f()" = str "--[[x\nf()" := by decide
  refine ⟨emitted, by decide, by decide, fun alone => ?_⟩
  have before := alone []
  rw [emitted] at before
  obtain ⟨front, _, text, _⟩ := (before.first (by decide)).2 (by decide)
  exact absurd (append_eq_nil_iff.mp text).2 (by decide)

end Rotor.Luau.Render
