import Rotor.Luau.Cst.ParserSpec

/-!
The routines of `cst/expr.go` and the function bodies they share with statements.
-/

namespace Rotor.Luau.Cst

open Luau.Lex Lib Cursor

section Expressions

variable {rule : Rule → Parser Node} {depth : Nat} {c : Cursor}

/-! ### References ahead -/

lemma next_returns {α : Type} {f : TokenRef → Parser α} {post : α → Cursor → Prop}
    (rest : Returns (f c.peek) c.advance post) : Returns (next >>= f) c post := rest

lemma atInterp_ahead (found : atInterp c) : c.toks ≠ [] := by
  rcases Bool.or_eq_true_iff.mp found with simple | start
  · exact atKind_ahead simple (by decide)
  · exact atKind_ahead start (by decide)

lemma callStart_ahead
    (found : (c.atSymbol "(" || c.atSymbol "\x7b" || atCallString c)) : c.toks ≠ [] := by
  simp only [atCallString, Bool.or_eq_true] at found
  rcases found with (paren | brace) | string | interp
  · exact atSymbol_ahead paren
  · exact atSymbol_ahead brace
  · exact atKind_ahead string (by decide)
  · exact atInterp_ahead interp

lemma isUnaryOp_ahead (found : isUnaryOp c) : c.toks ≠ [] := by
  simp only [isUnaryOp, Bool.or_eq_true] at found
  rcases found with (minus | length) | negation
  · exact atSymbol_ahead minus
  · exact atSymbol_ahead length
  · exact atKeyword_ahead negation

lemma operatorAhead_ahead {minPrec nextMin : Nat}
    (found : operatorAhead minPrec c = some nextMin) : c.toks ≠ [] := by
  by_cases name : c.peek.token.kind = .name
  · exact toks_ne_nil_of_kind name (by decide)
  · by_cases sym : c.peek.token.kind = .symbol
    · exact toks_ne_nil_of_kind sym (by decide)
    · simp [operatorAhead, binPrec, name, sym] at found

/-! ### Functions, holes and fields -/

lemma parseTypeClause_yields (sound : Sound rule depth) (short : c.toks.length ≤ depth) :
    Yielding (parseTypeClause rule) Node.events.optEvents c :=
  optClause_yields fun s below => sound .type s (Nat.lt_of_lt_of_le below short)

lemma parseParam_yields (sound : Sound rule depth) (short : c.toks.length ≤ depth) :
    Yielding (parseParam rule) Node.events c := by
  apply Returns.get
  split
  · rename_i found
    refine (next_advances (atSymbol_ahead found)).bind fun vararg c1 atVararg => ?_
    have shorter := atVararg.short
    refine ((parseTypeClause_yields sound (by omega)).after atVararg).bind ?_
    intro type c2 atType
    apply Returns.pure
    simpa [Node.events] using atType.yields
  · refine expectName_yields.bind fun name c1 atName => ?_
    have within := atName.length_le
    refine ((parseTypeClause_yields sound (by omega)).after atName.reached).bind ?_
    intro type c2 atType
    apply Returns.pure
    simpa [Node.events] using atType.yields

section Inside

variable (sound : Sound rule depth) (short : c.toks.length < depth)

include sound short

lemma parseFuncBody_yields : Yielding (parseFuncBody rule) Node.events c := by
  have small := Nat.le_of_lt short
  refine (optNode_yields fun found =>
    (parseGenericParams_advances sound found small).yielding).bind ?_
  intro generics c1 atGenerics
  refine ((expectSymbol_yields "(").after atGenerics.reached).bind fun lParen c2 atOpen => ?_
  have opened := atOpen.short
  refine ((optItems_yields fun s within =>
    parseParam_yields sound (by omega)).after atOpen).bind fun list c3 atList => ?_
  generalize list.getD ([], []) = parts at atList ⊢
  obtain ⟨params, paramSeps⟩ := parts
  refine ((expectSymbol_yields ")").after atList).bind fun rParen c4 atClose => ?_
  have closed := atClose.short
  refine ((parseTypeClause_yields sound (by omega)).after atClose).bind ?_
  intro retType c5 atType
  refine (sound.after .block atType (Nat.succ_le_of_lt short)).bind fun body c6 atBody => ?_
  refine ((expectKeyword_yields "end").after atBody).bind fun endTok c7 atEnd => ?_
  apply Returns.pure
  simpa [Node.events, listEvents_eq_map, listEvents] using atEnd.yields

/-- The loop over the holes.  It ends behind the first chunk that opens no further
hole, or at the end of the file. -/
theorem parseHoles_yields : Yielding (parseHoles rule) listEvents c := by
  refine loop_returns (fun list s => Yields c (listEvents list) s ∧
    list.1.length = list.2.length) _ ?_ ⟨Yields.refl c, rfl⟩
  rintro ⟨exprs, mids⟩ s ⟨kept, same⟩
  apply Returns.get
  split
  · exact Returns.pure kept
  · have below := Nat.lt_of_le_of_lt kept.length_le short
    refine (sound .expr s below).bind fun expr s1 atExpr => ?_
    apply next_returns
    have whole : listEvents (exprs ++ [expr], mids ++ [s1.peek]) =
        listEvents (exprs, mids) ++ expr.events ++ [.ref s1.peek] := by
      have sizes : ((exprs ++ [expr]).map Node.events).length = mids.length + 1 := by simp [same]
      rw [listEvents, interleave_concat_sep sizes]
      simp [listEvents, interleave_concat_item (show (exprs.map Node.events).length = mids.length by
        simpa using same)]
    have taken := (kept.append atExpr).append (advance_yields s1)
    rw [← whole] at taken
    split
    · rename_i middle
      have ahead : s1.toks ≠ [] := toks_ne_nil_of_kind middle (by decide)
      apply Returns.pure
      exact ⟨⟨taken, by simp [same]⟩, Nat.lt_of_lt_of_le (advance_length ahead) atExpr.length_le⟩
    · exact Returns.pure taken

lemma parseTableField_yields : Yielding (parseTableField rule) Node.events c := by
  have small := Nat.le_of_lt short
  apply Returns.get
  split
  · rename_i found
    refine (next_advances (atSymbol_ahead found)).bind fun lBracket c1 atOpen => ?_
    refine (sound.after .expr atOpen small).bind fun key c2 atKey => ?_
    refine ((expectSymbol_yields "]").after atKey).bind fun rBracket c3 atClose => ?_
    refine ((expectSymbol_yields "=").after atClose).bind fun eq c4 atEq => ?_
    refine (sound.after .expr atEq small).bind fun val c5 atValue => ?_
    apply Returns.pure
    simpa [Node.events] using atValue.yields
  · split
    · rename_i found
      refine named_part found fun name eq c1 atEq => ?_
      refine (sound.after .expr atEq small).bind fun val c2 atValue => ?_
      apply Returns.pure
      simpa [Node.events] using atValue.yields
    · exact sound .expr c short

lemma optExprList_yields {test : Cursor → Bool} {stop : String} :
    Yielding (onlyIf test (parseExprList rule stop))
      (fun list => (list.getD (.exprList [] [])).events) c := by
  apply Returns.onlyIf
  · exact fun _ => parseExprList_yields sound stop short
  · intro _
    simpa [Node.events, Node.events.listEvents, interleave] using Yields.refl c

end Inside

/-! ### Prefix expressions -/

variable (sound : Sound rule depth) (short : c.toks.length ≤ depth)

include sound short

lemma parseInterpString_advances (ahead : c.toks ≠ []) :
    Advancing (parseInterpString rule) Node.events c := by
  apply Returns.get
  split
  · exact leaf_advances ahead fun _ => by simp [Node.events]
  · refine (next_advances ahead).bind fun start c1 atStart => ?_
    have shorter := atStart.short
    refine ((parseHoles_yields sound (by omega)).after atStart).bind ?_
    rintro ⟨exprs, mids⟩ c2 atHoles
    apply Returns.pure
    exact atHoles.node (by simp [Node.events, listEvents_eq_map, listEvents])

lemma parseTable_advances (found : c.atSymbol "\x7b" = true) :
    Advancing (parseTable rule) Node.events c :=
  enclosed_advances (expectSymbol_advances found)
    (fun s _ => parseFields_yields fun s within => parseTableField_yields sound (by omega))
    fun atClose => atClose.node (by simp [Node.events, listEvents_eq_map])

lemma parseParen_advances (found : c.atSymbol "(" = true) :
    Advancing (parseParen rule) Node.events c :=
  enclosed_advances (expectSymbol_advances found) (fun s within => sound .expr s (by omega))
    fun atClose => atClose.node (by simp [Node.events])

lemma parseParenArgs_advances (found : c.atSymbol "(" = true) :
    Advancing (parseParenArgs rule) Node.events c :=
  enclosed_advances (expectSymbol_advances found)
    (fun s within => optExprList_yields sound (by omega))
    fun atClose => atClose.node (by simp [Node.events])

lemma parseCallArgs_yields : Yielding (parseCallArgs rule) Node.events c := by
  apply Returns.get
  split_ifs with paren brace string interp
  · exact (parseParenArgs_advances sound short paren).yielding
  · exact (parseTable_advances sound short brace).yielding
  · exact (leaf_advances (atKind_ahead string (by decide))
      fun _ => by simp [Node.events]).yielding
  · exact (parseInterpString_advances sound short (atInterp_ahead interp)).yielding
  -- The closing reference is the zero value, of kind `eof`, behind a diagnostic.
  · have taken := report_advance_yields c (str "expected call arguments")
    refine ⟨.parenArgs c.peek (.exprList [] []) .zero, _, rfl, taken.eof, ?_, taken.diags⟩
    have zeroEof : TokenRef.zero.isEof := rfl
    rw [taken.toks]
    simp [Node.events, Node.events.listEvents, interleave, zeroEof, List.filter_cons]

lemma parsePrefixAtom_returns :
    Returns (parsePrefixAtom rule) c fun node c' => Yields c node.events c' ∧
      (c.toks ≠ [] → c'.toks.length < c.toks.length) := by
  apply Returns.get
  split
  · rename_i found
    exact Returns.mono (parseParen_advances sound short found) fun _ _ reached =>
      ⟨reached.yields, fun _ => reached.short⟩
  · exact ⟨.name c.peek, c.advance, rfl, (advance_yields c).node (by simp [Node.events]),
      advance_length⟩

lemma parseCallArgs_advances (found : (c.atSymbol "(" || c.atSymbol "\x7b" || atCallString c)) :
    Advancing (parseCallArgs rule) Node.events c := by
  have ahead := callStart_ahead found
  apply Returns.get
  split_ifs with paren brace string interp
  · exact parseParenArgs_advances sound short paren
  · exact parseTable_advances sound short brace
  · exact leaf_advances ahead fun _ => by simp [Node.events]
  · exact parseInterpString_advances sound short ahead
  · simp only [atCallString, Bool.or_eq_true] at found
    simp_all

omit short in
lemma parseSuffix_returns {s : Cursor} {base : Node}
    (kept : Yields c base.events s) (short : s.toks.length ≤ depth) :
    Returns (parseSuffix rule base) s fun res s' =>
      match res with
      | .inl node => Yields c node.events s' ∧ s'.toks.length < s.toks.length
      | .inr node => Yields c node.events s' ∧ s'.toks.length ≤ s.toks.length := by
  apply Returns.get
  split_ifs with dot bracket arguments colon
  · refine (next_after (atSymbol_ahead dot) kept (Nat.le_refl _)).bind fun tok s1 atDot => ?_
    refine (expectName_yields.after atDot).bind fun name s2 atName => ?_
    apply Returns.pure
    exact ⟨atName.yields.node (by simp [Node.events]), atName.short⟩
  · refine (next_after (atSymbol_ahead bracket) kept (Nat.le_refl _)).bind ?_
    intro openTok s1 atOpen
    refine (sound.after .expr atOpen short).bind fun key s2 atKey => ?_
    refine ((expectSymbol_yields "]").after atKey).bind fun closeTok s3 atClose => ?_
    apply Returns.pure
    exact ⟨atClose.yields.node (by simp [Node.events]), atClose.short⟩
  · refine (parseCallArgs_advances sound short arguments).bind fun args s1 atArgs => ?_
    apply Returns.pure
    exact ⟨(kept.append atArgs.yields).node (by simp [Node.events]), atArgs.short⟩
  · refine (next_after (atSymbol_ahead colon) kept (Nat.le_refl _)).bind ?_
    intro tok s1 atColon
    refine (expectName_yields.after atColon).bind fun name s2 atName => ?_
    have shorter := atName.short
    refine ((parseCallArgs_yields sound (by omega)).after atName).bind fun args s3 atArgs => ?_
    apply Returns.pure
    exact ⟨atArgs.yields.node (by simp [Node.events]), atArgs.short⟩
  · exact Returns.pure ⟨kept, Nat.le_refl _⟩

lemma parsePrefixExpr_returns :
    Returns (parsePrefixExpr rule) c fun node c' => Yields c node.events c' ∧
      (c.toks ≠ [] → c'.toks.length < c.toks.length) := by
  refine (parsePrefixAtom_returns sound short).bind ?_
  rintro atom c1 ⟨atAtom, consumed⟩
  refine loop_returns (fun base s => Yields c (Node.events base) s ∧
    s.toks.length ≤ c1.toks.length) _ ?_ ⟨atAtom, Nat.le_refl _⟩
  rintro base s ⟨kept, within⟩
  have small := Nat.le_trans kept.length_le short
  refine Returns.mono (parseSuffix_returns sound kept small) fun res s' ended => ?_
  cases res with
  | inl node => exact ⟨⟨ended.1, by omega⟩, ended.2⟩
  | inr node =>
    refine ⟨ended.1, fun ahead => ?_⟩
    have shorter := consumed ahead
    have last := ended.2
    omega

lemma parsePrefixExpr_yields : Yielding (parsePrefixExpr rule) Node.events c :=
  Returns.mono (parsePrefixExpr_returns sound short) fun _ _ ended => ended.1

/-! ### Operators -/

lemma parseValue_yields : Yielding (parseValue rule) Node.events c := by
  have leaf : ∀ {node : TokenRef → Node}, c.toks ≠ [] →
      (∀ ref, (node ref).events = [.enter (node ref), .ref ref]) →
      Yielding (node <$> next) Node.events c :=
    fun ahead events => (leaf_advances ahead events).yielding
  apply Returns.get
  split_ifs with nil yes no function vararg brace number string interp atom
  · exact leaf (atKeyword_ahead nil) fun _ => by simp [Node.events]
  · exact leaf (atKeyword_ahead yes) fun _ => by simp [Node.events]
  · exact leaf (atKeyword_ahead no) fun _ => by simp [Node.events]
  · refine (next_advances (atKeyword_ahead function)).bind fun func c1 atFunc => ?_
    have shorter := atFunc.short
    refine ((parseFuncBody_yields sound (by omega)).after atFunc).map fun body c2 atBody => ?_
    exact atBody.yields.node (by simp [Node.events])
  · exact leaf (atSymbol_ahead vararg) fun _ => by simp [Node.events]
  · exact (parseTable_advances sound short brace).yielding
  · exact leaf (atKind_ahead number (by decide)) fun _ => by simp [Node.events]
  · exact leaf (atKind_ahead string (by decide)) fun _ => by simp [Node.events]
  · exact (parseInterpString_advances sound short (atInterp_ahead interp)).yielding
  · exact parsePrefixExpr_yields sound short
  · exact error_leaf_yields _ fun _ => by simp [Node.events]

lemma parseAsExp_yields : Yielding (parseAsExp rule) Node.events c := by
  refine (parseValue_yields sound short).bind fun val c1 atValue => ?_
  refine loopWhile_returns (fun expr s => Yields c (Node.events expr) s) ?_ atValue
  intro expr s kept found
  have small := Nat.le_trans kept.length_le short
  refine (next_after (atSymbol_ahead found) kept (Nat.le_refl _)).bind fun op s1 atOp => ?_
  refine (sound.after .type atOp small).map fun type s2 atType => ?_
  exact ⟨atType.yields.node (by simp [Node.events]), atType.short⟩

lemma parseUnary_yields : Yielding (parseUnary rule) Node.events c := by
  apply Returns.get
  split
  · rename_i found
    refine (next_advances (isUnaryOp_ahead found)).bind fun op c1 atOp => ?_
    refine (sound.after (.binary unaryPrec) atOp short).map fun operand c2 atOperand => ?_
    exact atOperand.yields.node (by simp [Node.events])
  · exact parseAsExp_yields sound short

lemma parseBinary_yields (minPrec : Nat) : Yielding (parseBinary rule minPrec) Node.events c := by
  refine (parseUnary_yields sound short).bind fun first c1 atFirst => ?_
  refine loop_returns (fun left s => Yields c (Node.events left) s) _ ?_ atFirst
  intro left s kept
  have small := Nat.le_trans kept.length_le short
  apply Returns.get
  cases found : operatorAhead minPrec s with
  | some nextMin =>
    refine (next_after (operatorAhead_ahead found) kept (Nat.le_refl _)).bind ?_
    intro op s1 atOp
    refine (sound.after (.binary nextMin) atOp small).bind fun right s2 atRight => ?_
    apply Returns.pure
    exact ⟨atRight.yields.node (by simp [Node.events]), atRight.short⟩
  | none => exact Returns.pure kept

lemma parseIfExpr_advances (ahead : c.toks ≠ []) :
    Advancing (parseIfExpr rule) Node.events c := by
  refine (next_advances ahead).bind fun ifTok c1 atIf => ?_
  refine (sound.after .expr atIf short).bind fun cond c2 atCond => ?_
  refine ((expectKeyword_yields "then").after atCond).bind fun thenTok c3 atThen => ?_
  refine (sound.after .expr atThen short).bind fun thenExpr c4 atValue => ?_
  have shorter := atValue.short
  refine ((parseElseifs_yields sound (by omega) .expr fun _ _ _ _ => by
    simp [Node.events]).after atValue).bind fun elseifs c5 atElseifs => ?_
  refine ((expectKeyword_yields "else").after atElseifs).bind fun elseTok c6 atElse => ?_
  refine (sound.after .expr atElse short).bind fun elseExpr c7 atEnd => ?_
  apply Returns.pure
  exact atEnd.node (by simp [Node.events, listEvents_eq_map])

lemma parseExpr_yields : Yielding (parseExpr rule) Node.events c := by
  apply Returns.get
  split
  · rename_i found
    exact (parseIfExpr_advances sound short (atKeyword_ahead found)).yielding
  · exact parseBinary_yields sound short 1

end Expressions

end Rotor.Luau.Cst
