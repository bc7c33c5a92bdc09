import Rotor.Luau.Cst.ExprSpec

/-!
The routines of `cst/parse.go`, and the recursion closed: with as much depth as
there are references, every rule returns and holds what it consumed.
-/

namespace Rotor.Luau.Cst

open Luau.Lex Lib Cursor

section Statements

variable {rule : Rule → Parser Node} {depth : Nat} {c : Cursor}

lemma parseBinding_yields (sound : Sound rule depth) (allowAttrib : Bool)
    (short : c.toks.length ≤ depth) :
    Yielding (parseBinding rule allowAttrib) Node.events c := by
  refine expectName_yields.bind fun name c1 atName => ?_
  have attrib : Yielding (onlyIf (fun c => allowAttrib && c.atSymbol "<") do
      let lt ← next
      let attrName ← expectName
      return (⟨lt, attrName, ← expectSymbol ">"⟩ : Attrib)) attribEvents c1 := by
    apply Returns.onlyIf
    · intro found
      have ahead := atSymbol_ahead (Bool.and_eq_true_iff.mp found).2
      refine (next_advances ahead).bind fun lt c2 atLt => ?_
      refine (expectName_yields.after atLt).bind fun attrName c3 atAttr => ?_
      refine ((expectSymbol_yields ">").after atAttr).bind fun gt c4 atGt => ?_
      apply Returns.pure
      simpa [attribEvents] using atGt.yields
    · intro _
      exact Yields.refl c1
  refine (attrib.after atName.reached).bind fun attr c2 atAttr => ?_
  have within := atAttr.yields.length_le
  refine ((parseTypeClause_yields sound (by omega)).after atAttr).bind fun type c3 atType => ?_
  apply Returns.pure
  simpa [Node.events] using atType.yields

lemma parseNumericFor_after (sound : Sound rule depth) {s : Cursor} {bound : Nat}
    {forTok : TokenRef} {var : Node} (found : s.atSymbol "=" = true)
    (reached : Reached bound c (.ref forTok :: var.events) s) (small : bound ≤ depth) :
    Returns (parseNumericFor rule forTok var) s fun node s' => Reached bound c node.events s' := by
  refine (next_after (atSymbol_ahead found) reached.yields
    (Nat.le_of_lt reached.short)).bind fun eq s1 atEq => ?_
  refine (sound.after .expr atEq small).bind fun start s2 atStart => ?_
  refine ((expectSymbol_yields ",").after atStart).bind fun comma1 s3 atComma => ?_
  refine (sound.after .expr atComma small).bind fun limit s4 atLimit => ?_
  have below := atLimit.short
  refine ((optClause_yields fun s within => sound .expr s (by omega)).after atLimit).bind ?_
  intro step s5 atStep
  refine ((expectKeyword_yields "do").after atStep).bind fun doTok s6 atDo => ?_
  refine (sound.after .block atDo small).bind fun body s7 atBody => ?_
  refine ((expectKeyword_yields "end").after atBody).bind fun endTok s8 atEnd => ?_
  apply Returns.pure
  exact atEnd.node (by simp [Node.events])

lemma parseGenericFor_after (sound : Sound rule depth) {s : Cursor} {bound : Nat}
    {forTok : TokenRef} {first : Node}
    (reached : Reached bound c ([.ref forTok] ++ first.events) s) (small : bound ≤ depth) :
    Returns (parseGenericFor rule forTok first) s fun node s' =>
      Reached bound c node.events s' := by
  have entered := reached.short
  refine (parseItems_yields reached fun s within =>
    parseBinding_yields sound false (by omega)).bind ?_
  rintro ⟨names, nameSeps⟩ s1 atNames
  refine ((expectKeyword_yields "in").after atNames).bind fun inTok s2 atIn => ?_
  have below := atIn.short
  refine ((parseExprList_yields sound "" (by omega)).after atIn).bind fun exprs s3 atExprs => ?_
  refine ((expectKeyword_yields "do").after atExprs).bind fun doTok s4 atDo => ?_
  refine (sound.after .block atDo small).bind fun body s5 atBody => ?_
  refine ((expectKeyword_yields "end").after atBody).bind fun endTok s6 atEnd => ?_
  apply Returns.pure
  exact atEnd.node (by simp [Node.events, listEvents_eq_map, listEvents])

lemma parseBreak_advances (ahead : c.toks ≠ []) : Advancing parseBreak Node.events c := by
  refine (next_advances ahead).bind fun breakTok c1 atBreak => ?_
  refine (optRef_yields.after atBreak).bind fun semi c2 atSemi => ?_
  apply Returns.pure
  exact atSemi.node (by simp [Node.events])

lemma parseContinue_advances (ahead : c.toks ≠ []) : Advancing parseContinue Node.events c := by
  refine (next_advances ahead).bind fun continueTok c1 atContinue => ?_
  refine (optRef_yields.after atContinue).bind fun semi c2 atSemi => ?_
  apply Returns.pure
  exact atSemi.node (by simp [Node.events])

section Advances

variable (sound : Sound rule depth) (ahead : c.toks ≠ []) (short : c.toks.length ≤ depth)

include sound ahead short

/-- An expression statement.  The operator behind several targets is not tested, so
it can be the end of the file. -/
theorem parseExprStatement_advances : Advancing (parseExprStatement rule) Node.events c := by
  refine (parsePrefixExpr_returns sound short).bind ?_
  rintro first c1 ⟨atFirst, consumed⟩
  have shorter := consumed ahead
  have reached : Reached c.toks.length c ([] ++ first.events) c1 := ⟨atFirst, shorter⟩
  apply Returns.get
  split
  · refine (parseItems_yields reached fun s below =>
      parsePrefixExpr_yields sound (by omega)).bind ?_
    rintro ⟨items, seps⟩ c2 atTargets
    have atOp : Reached c.toks.length c _ c2.advance :=
      ⟨atTargets.yields.append (advance_yields c2),
        Nat.lt_of_le_of_lt (advance_yields c2).length_le atTargets.short⟩
    have below := atOp.short
    apply next_returns
    refine ((parseExprList_yields sound "" (by omega)).after atOp).bind fun values c3 atValues => ?_
    apply Returns.pure
    exact atValues.node (by simp [Node.events, listEvents_eq_map, listEvents])
  · apply Returns.pure
    exact reached.node (by simp [Node.events])

lemma parseLocal_advances : Advancing (parseLocal rule) Node.events c := by
  refine (next_advances ahead).bind fun localTok c1 atLocal => ?_
  have shorter := atLocal.short
  apply Returns.get
  split
  · rename_i found
    refine (next_after (atKeyword_ahead found) atLocal.yields (Nat.le_of_lt shorter)).bind ?_
    intro func c2 atFunc
    refine (expectName_yields.after atFunc).bind fun name c3 atName => ?_
    have below := atName.short
    refine ((parseFuncBody_yields sound (by omega)).after atName).bind fun body c4 atBody => ?_
    apply Returns.pure
    exact atBody.node (by simp [Node.events])
  · refine ((parseBinding_yields sound true (by omega)).after atLocal).bind ?_
    intro first c2 atFirst
    have below := atFirst.short
    refine (parseItems_yields atFirst fun s within =>
      parseBinding_yields sound true (by omega)).bind ?_
    rintro ⟨names, nameSeps⟩ c3 atNames
    have last := atNames.short
    refine ((optClause_yields fun s within =>
      parseExprList_yields sound "" (by omega)).after atNames).bind fun values c4 atValues => ?_
    apply Returns.pure
    exact atValues.node (by simp [Node.events, listEvents_eq_map, listEvents])

lemma parseDo_advances : Advancing (parseDo rule) Node.events c := by
  refine (next_advances ahead).bind fun doTok c1 atDo => ?_
  refine (sound.after .block atDo short).bind fun body c2 atBody => ?_
  refine ((expectKeyword_yields "end").after atBody).bind fun endTok c3 atEnd => ?_
  apply Returns.pure
  exact atEnd.node (by simp [Node.events])

lemma parseWhile_advances : Advancing (parseWhile rule) Node.events c := by
  refine (next_advances ahead).bind fun whileTok c1 atWhile => ?_
  refine (sound.after .expr atWhile short).bind fun cond c2 atCond => ?_
  refine ((expectKeyword_yields "do").after atCond).bind fun doTok c3 atDo => ?_
  refine (sound.after .block atDo short).bind fun body c4 atBody => ?_
  refine ((expectKeyword_yields "end").after atBody).bind fun endTok c5 atEnd => ?_
  apply Returns.pure
  exact atEnd.node (by simp [Node.events])

lemma parseRepeat_advances : Advancing (parseRepeat rule) Node.events c := by
  refine (next_advances ahead).bind fun repeatTok c1 atRepeat => ?_
  refine (sound.after .block atRepeat short).bind fun body c2 atBody => ?_
  refine ((expectKeyword_yields "until").after atBody).bind fun untilTok c3 atUntil => ?_
  refine (sound.after .expr atUntil short).bind fun cond c4 atCond => ?_
  apply Returns.pure
  exact atCond.node (by simp [Node.events])

lemma parseFor_advances : Advancing (parseFor rule) Node.events c := by
  refine (next_advances ahead).bind fun forTok c1 atFor => ?_
  have shorter := atFor.short
  refine ((parseBinding_yields sound false (by omega)).after atFor).bind ?_
  intro first c2 atFirst
  apply Returns.get
  split
  · rename_i found
    exact parseNumericFor_after sound found atFirst short
  · exact parseGenericFor_after sound atFirst short

lemma parseIfStmt_advances : Advancing (parseIfStmt rule) Node.events c := by
  refine (next_advances ahead).bind fun ifTok c1 atIf => ?_
  refine (sound.after .expr atIf short).bind fun cond c2 atCond => ?_
  refine ((expectKeyword_yields "then").after atCond).bind fun thenTok c3 atThen => ?_
  refine (sound.after .block atThen short).bind fun body c4 atBody => ?_
  have shorter := atBody.short
  refine ((parseElseifs_yields sound (by omega) .block fun _ _ _ _ => by
    simp [Node.events]).after atBody).bind fun elseifs c5 atElseifs => ?_
  have below := atElseifs.short
  have orElse : Yielding (onlyIf (atKeyword "else") (parseClause (rule .block)))
      Node.events.optEvents c5 := by
    apply Returns.onlyIf
    · intro found
      exact (parseClause_advances (atKeyword_ahead found) fun s within =>
        sound .block s (by omega)).yielding
    · exact fun _ => Yields.refl c5
  refine (orElse.after atElseifs).bind fun elseBody c6 atElse => ?_
  refine ((expectKeyword_yields "end").after atElse).bind fun endTok c7 atEnd => ?_
  apply Returns.pure
  exact atEnd.node (by simp [Node.events, listEvents_eq_map])

lemma parseFuncStmt_advances : Advancing (parseFuncStmt rule) Node.events c := by
  refine (next_advances ahead).bind fun func c1 atFunc => ?_
  refine (expectName_yields.after atFunc).bind fun base c2 atBase => ?_
  refine (parseDots_yields.after atBase).bind fun dots c3 atDots => ?_
  have method : Yielding (onlyIf (atSymbol ":") do
      let colon ← next
      return (⟨colon, ← expectName⟩ : DotName))
      (fun method => dotEvents method.toList) c3 := by
    apply Returns.onlyIf
    · intro found
      refine (next_advances (atSymbol_ahead found)).bind fun colon c4 atColon => ?_
      refine (expectName_yields.after atColon).bind fun name c5 atName => ?_
      apply Returns.pure
      simpa [dotEvents] using atName.yields
    · exact fun _ => Yields.refl c3
  refine (method.after atDots).bind fun method c4 atMethod => ?_
  have below := atMethod.short
  refine ((parseFuncBody_yields sound (by omega)).after atMethod).bind fun body c5 atBody => ?_
  apply Returns.pure
  exact atBody.node (by simp [Node.events])

lemma parseReturn_advances : Advancing (parseReturn rule) Node.events c := by
  refine (next_advances ahead).bind fun returnTok c1 atReturn => ?_
  have shorter := atReturn.short
  refine ((optExprList_yields sound (by omega)).after atReturn).bind fun values c2 atValues => ?_
  refine (optRef_yields.after atValues).bind fun semi c3 atSemi => ?_
  apply Returns.pure
  exact atSemi.node (by simp [Node.events])

/-- Both tests for an alias look at a name behind the current reference, so `type` is
there even behind `export`. -/
theorem parseTypeAlias_advances (second : c.peek2.token.kind = .name) :
    Advancing (parseTypeAlias rule) Node.events c := by
  have export? : Returns (onlyIf (atKeyword "export") next) c fun exportTok c1 =>
      Yields c (optRef exportTok) c1 ∧ c1.toks ≠ [] := by
    apply Returns.onlyIf
    · intro _
      exact ⟨c.peek, c.advance, rfl, advance_yields c, advance_ahead second (by decide)⟩
    · exact fun _ => ⟨Yields.refl c, ahead⟩
  refine export?.bind ?_
  rintro exportTok c1 ⟨atExport, typeAhead⟩
  refine (next_after typeAhead atExport atExport.length_le).bind fun type c2 atType => ?_
  refine (expectName_yields.after atType).bind fun name c3 atName => ?_
  have below := atName.short
  refine ((optNode_yields fun found => (parseGenericParams_advances sound found
    (by omega)).yielding).after atName).bind fun generics c4 atGenerics => ?_
  refine ((expectSymbol_yields "=").after atGenerics).bind fun eq c5 atEq => ?_
  refine (sound.after .type atEq short).bind fun val c6 atValue => ?_
  apply Returns.pure
  exact atValue.node (by simp [Node.events])

lemma parseStatement_advances : Advancing (parseStatement rule) (fun res => res.1.events) c := by
  have paired : ∀ {p : Parser Node} {isLast : Bool}, Advancing p Node.events c →
      Advancing (do return (← p, isLast)) (fun res => res.1.events) c :=
    fun advances => Returns.bind advances fun _ _ reached => Returns.pure reached
  apply Returns.get
  refine Returns.ite (fun _ => paired (parseLocal_advances sound ahead short)) fun _ => ?_
  refine Returns.ite (fun _ => paired (parseDo_advances sound ahead short)) fun _ => ?_
  refine Returns.ite (fun _ => paired (parseWhile_advances sound ahead short)) fun _ => ?_
  refine Returns.ite (fun _ => paired (parseRepeat_advances sound ahead short)) fun _ => ?_
  refine Returns.ite (fun _ => paired (parseFor_advances sound ahead short)) fun _ => ?_
  refine Returns.ite (fun _ => paired (parseIfStmt_advances sound ahead short)) fun _ => ?_
  refine Returns.ite (fun _ => paired (parseFuncStmt_advances sound ahead short)) fun _ => ?_
  refine Returns.ite (fun _ => paired (parseReturn_advances sound ahead short)) fun _ => ?_
  refine Returns.ite (fun _ => paired (parseBreak_advances ahead)) fun _ => ?_
  refine Returns.ite (fun _ => paired (parseContinue_advances ahead)) fun _ => ?_
  refine Returns.ite (fun exported => ?_) fun _ => ?_
  · have second := isKeyword_kind (Bool.and_eq_true_iff.mp exported).2
    exact paired (parseTypeAlias_advances sound ahead short second)
  refine Returns.ite (fun plain => ?_) fun _ => ?_
  · have second := eq_of_beq (Bool.and_eq_true_iff.mp plain).2
    exact paired (parseTypeAlias_advances sound ahead short second)
  · exact paired (parseExprStatement_advances sound ahead short)

end Advances

lemma errHere_next {α : Type} {message : Bytes} {f : TokenRef → Parser α}
    {post : α → Cursor → Prop} (rest : Returns (f c.peek) (c.report message).advance post) :
    Returns (do errHere message; let tok ← next; f tok) c post := rest

def stmtsEvents (stmts : List Node) : List Event := (stmts.map Node.events).flatten

lemma parseStmts_yields (sound : Sound rule depth) (short : c.toks.length ≤ depth) :
    Yielding (parseStmts rule) stmtsEvents c := by
  refine loop_returns (fun stmts s => Yields c (stmtsEvents stmts) s) _ ?_ (Yields.refl c)
  intro stmts s kept
  have small := Nat.le_trans kept.length_le short
  apply Returns.get
  split
  · rename_i inside
    have ahead : s.toks ≠ [] := by
      apply ahead_of_not_atEnd
      simpa using (Bool.and_eq_true_iff.mp inside).1
    split
    · refine (next_after ahead kept (Nat.le_refl _)).bind fun semi s1 atSemi => ?_
      apply Returns.pure
      exact ⟨atSemi.yields.congr (by simp [stmtsEvents, Node.events]), atSemi.short⟩
    · refine (parseStatement_advances sound ahead small).bind ?_
      rintro ⟨stmt, isLast⟩ s1 atStmt
      have whole : Yields c (stmtsEvents (stmts ++ [stmt])) s1 := by
        simpa [stmtsEvents] using kept.append atStmt.yields
      cases isLast with
      | true => exact Returns.pure whole
      | false => exact Returns.pure ⟨whole, atStmt.short⟩
  · exact Returns.pure kept

lemma block_filterMap {α : Type} {f : Event → Option α} (skips : ∀ node, f (.stmt node) = none)
    (stmts : List Node) :
    (Node.block stmts).events.filterMap f =
      (f (.enter (.block stmts))).toList ++ (stmtsEvents stmts).filterMap f := by
  have rest : (statements (stmts.map fun node => (node, node.events))).filterMap f =
      (stmtsEvents stmts).filterMap f := by
    cases stmts <;>
      simp [statements, stmtsEvents, Function.comp_def, skips, List.filterMap_flatten]
  rw [Node.events, stmtEvents_eq_map, List.filterMap_cons, rest]
  cases f (.enter (.block stmts)) <;> rfl

lemma block_refs (stmts : List Node) :
    eventRefs (Node.block stmts).events = eventRefs (stmtsEvents stmts) :=
  block_filterMap (fun _ => rfl) stmts

lemma Yields.block {c' : Cursor} {stmts : List Node}
    (yields : Yields c (stmtsEvents stmts) c') : Yields c (Node.block stmts).events c' :=
  yields.congr (block_refs stmts)

lemma parseBlock_yields (sound : Sound rule depth) (short : c.toks.length ≤ depth) :
    Yielding (parseBlock rule) Node.events c :=
  Returns.map (parseStmts_yields sound short) fun _ _ yields => yields.block

end Statements

/-- Depth as large as the number of references ahead is enough for every rule. -/
theorem parseRule_sound : ∀ depth, Sound (parseRule depth) depth := by
  intro depth
  induction depth with
  | zero =>
    intro r c short
    exact absurd short (Nat.not_lt_zero _)
  | succ depth ih =>
    intro r c short
    have small := Nat.le_of_lt_succ short
    cases r with
    | expr => exact parseExpr_yields ih small
    | binary minPrec => exact parseBinary_yields ih small minPrec
    | type => exact parseType_yields ih small
    | block => exact parseBlock_yields ih small

/-- The whole file: everything is consumed, and the last reference is put behind the
statements. -/
theorem parseFile_returns {rule : Rule → Parser Node} {depth : Nat} {c : Cursor}
    (sound : Sound rule depth) (short : c.toks.length ≤ depth) :
    Returns (parseFile rule) c fun file c' => ∃ stmts, file = .file (.block stmts) c.eof ∧
      Yields c (stmtsEvents stmts) c' ∧ c'.toks = [] := by
  refine (parseStmts_yields sound short).bind fun stmts c1 atStmts => ?_
  refine (loopWhile_exits (fun stmts s => Yields c (stmtsEvents stmts) s) ?_ atStmts).bind ?_
  · intro stmts s kept inside
    have ahead : s.toks ≠ [] := ahead_of_not_atEnd (by simpa using inside)
    apply Returns.get
    apply errHere_next
    have below := Nat.le_trans kept.length_le short
    have consumed : (s.report (str "unexpected '" ++ s.peek.token.text ++
        str "'")).advance.toks.length < s.toks.length := advance_length ahead
    refine (parseStmts_yields sound (by omega)).bind fun rest s1 atRest => ?_
    apply Returns.pure
    have stray := report_advance_yields s (str "unexpected '" ++ s.peek.token.text ++ str "'")
    refine ⟨((kept.append stray).append atRest).congr ?_,
      Nat.lt_of_le_of_lt atRest.length_le consumed⟩
    simp [stmtsEvents, Node.events]
  · rintro stmts c2 ⟨kept, ended⟩
    have empty : c2.toks = [] := atEnd_iff.mp (by simpa using ended)
    apply next_at_eof empty
    apply Returns.pure
    have last : c2.peek = c.eof := by
      rw [← kept.eof]
      simp [peek, empty]
    exact ⟨stmts, by rw [last], kept, empty⟩

end Rotor.Luau.Cst
