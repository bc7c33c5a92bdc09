import Rotor.Transformer.Switch

/-!
The emitted chain of a switch runs what the switch runs.

A clause is reached in one of two ways: no case expression has matched yet, and then the flag is
false wherever it is looked at; or the body before it was left at its end, and then the flag is
true.  What can go wrong is outside the chain's meaning: a body that ends in a comment behind its
final statement takes the assignment of the flag for one that can be reached, and such a list of
statements is not rendered.
-/

namespace Rotor.Transformer.Switch

open List Lib

variable {S W V : Type}

/-! ### Bodies -/

lemma runAll_comments (texts : List Bytes) :
    runAll ((texts.map (.comment : Bytes → Statement S W)).map Statement.run) =
      pure ⟨⟩ := by
  induction texts with
  | nil => rfl
  | cons text texts ih =>
    rw [map_cons, map_cons, runAll, ih]
    rfl

lemma runStatements_comments (strip : Bool) (texts : List Bytes) :
    runStatements (if strip then [] else
      texts.map (.comment : Bytes → Statement S W)) = pure ⟨⟩ := by
  cases strip with
  | true => rfl
  | false => exact runAll_comments texts

lemma runStatements_append (first others : List (Statement S W)) :
    runStatements (first ++ others) = runStatements first >>= fun _ => runStatements others := by
  rw [runStatements, map_append, runAll_append]
  rfl

lemma runStatements_plain (runs : List (EStateM S W PUnit)) :
    runStatements (runs.map .plain) = runAll runs := by
  rw [runStatements, map_map]
  exact congrArg runAll (map_id runs)

lemma run_emitted (strip : Bool) (stmt : Transformed S W) :
    runStatements (stmt.emitted strip) = stmt.run := by
  rw [Transformed.emitted, runStatements_append, runStatements_append, runStatements_append,
    runStatements_comments, runStatements_plain, runStatements_plain, pure_bind, bind_assoc,
    Transformed.run]
  cases stmt.final with
  | none => rfl
  | some run => exact congrArg _ (funext fun _ => congrArg _ (funext fun _ => bind_pure_unit))

lemma run_final_bind {stmt : Transformed S W} (final : stmt.final.isSome) (p : EStateM S W PUnit) :
    (stmt.run >>= fun _ => p) = stmt.run := by
  obtain ⟨run, found⟩ := Option.isSome_iff_exists.mp final
  have stops : ((Statement.final run).run >>= fun _ => p) = (Statement.final run).run := rfl
  rw [Transformed.run, found]
  simp only [bind_assoc, stops]

lemma run_transformStatementList (strip : Bool) (lastComments : List Bytes)
    (stmts : List (Transformed S W)) :
    runStatements (transformStatementList strip lastComments stmts) =
      runAll (stmts.map Transformed.run) := by
  induction stmts with
  | nil => exact runStatements_comments strip lastComments
  | cons stmt others ih =>
    rw [transformStatementList, runStatements_append, run_emitted, map_cons, runAll]
    split
    · rename_i final
      rw [runStatements_comments, run_final_bind final, run_final_bind final]
    · rw [ih]

lemma run_transform (strip : Bool) (stmt : SourceStatement S W) :
    (stmt.transform strip).run = stmt.run := by
  cases stmt with
  | empty leadingComments => rfl
  | block leadingComments stmts closingComments =>
    simp only [SourceStatement.transform, Transformed.run, SourceStatement.run, runAll,
      run_transformStatementList, pure_bind, bind_pure_unit]
  | other stmt => rfl

lemma run_transformStatements (strip : Bool) (body : ClauseBody S W) :
    runStatements (body.transformStatements strip) = body.run := by
  rw [ClauseBody.transformStatements, run_transformStatementList, map_map, ClauseBody.run]
  congr 1
  exact map_congr_left fun stmt _ => run_transform strip stmt

lemma runAll_nonEmpty (stmts : List (SourceStatement S W)) :
    runAll ((stmts.filter fun stmt => !stmt.isEmpty).map SourceStatement.run) =
      runAll (stmts.map SourceStatement.run) := by
  induction stmts with
  | nil => rfl
  | cons stmt stmts ih =>
    cases stmt with
    | empty leadingComments => exact ih
    | block leadingComments inner closingComments =>
      exact congrArg (fun rest => _ >>= fun _ => rest) ih
    | other stmt =>
      exact congrArg (fun rest => _ >>= fun _ => rest) ih

lemma run_body (strip : Bool) (body : ClauseBody S W) :
    runStatements (body.transform strip) = body.run := by
  rw [ClauseBody.transform]
  split
  · rename_i leadingComments stmts closingComments single
    rw [run_transformStatementList, ClauseBody.run, ← runAll_nonEmpty, single]
    exact bind_pure_unit.symm
  · exact run_transformStatements strip body

lemma canFallThroughFrom_of_ok {stmts : List (Statement S W)} {world next : W}
    (left : runStatements stmts world = .ok ⟨⟩ next) :
    canFallThroughFrom stmts := by
  rcases eq_nil_or_concat stmts with rfl | ⟨front, last, rfl⟩
  · rfl
  · rw [concat_eq_append] at left ⊢
    rw [canFallThroughFrom, List.getLast?_concat]
    cases last with
    | plain run => rfl
    | comment text => rfl
    | final run =>
      rw [runStatements_append] at left
      change EStateM.bind (runStatements front) _ world = _ at left
      rw [EStateM.bind] at left
      cases done : runStatements front world with
      | ok val between =>
        rw [done] at left
        nomatch left
      | error signal between =>
        rw [done] at left
        nomatch left

/-! ### Clauses -/

variable (equals : V → V → Bool) (subject : W → V)

lemma execute_body (stmts : List (Statement S W)) :
    runAll ((stmts.map Simple.body).map (Simple.execute equals subject)) =
      onFirst (runStatements stmts) := by
  rw [runStatements, ← runAll_onFirst, map_map, map_map]
  rfl

lemma forget_clauseBody {stmts : List (Statement S W)}
    {rest : EStateM S (W × Bool) PUnit} {bodies : EStateM S W PUnit}
    {world : W} {flag update : Bool}
    (hides : canFallThroughFrom stmts →
      ∀ next, forget (rest (next, update || flag)) = bodies next) :
    forget ((runAll ((stmts.map Simple.body ++
        if canFallThroughFrom stmts && update then [Simple.assignFlag .always] else []).map
          (Simple.execute equals subject)) >>= fun _ => rest) (world, flag)) =
      (runStatements stmts >>= fun _ => bodies) world := by
  rw [map_append, runAll_append, execute_body, bind_assoc]
  refine forget_bind (Hides.onFirst (runStatements stmts) (world, flag)) ?_
  rintro ⟨⟩ ⟨next, kept⟩ left
  obtain ⟨ran, same⟩ := onFirst_ok left
  have falls := canFallThroughFrom_of_ok ran
  dsimp only at same
  rw [falls, Bool.true_and, same]
  cases update with
  | true => exact hides falls next
  | false => exact hides falls next

lemma executeChain_append (first others : List (Chained S W V)) :
    executeChain equals subject (first ++ others) =
      executeChain equals subject first >>= fun _ => executeChain equals subject others := by
  rw [executeChain, map_append, runAll_append]
  rfl

variable (strip : Bool) (defaultClause : Option (ClauseBody S W))

lemma forget_default (reach : Bool) (state : W × Bool) : forget (executeChain equals subject
      (transformClauses strip defaultClause reach []).1 state) =
        runDefault defaultClause state.1 := by
  cases defaultClause with
  | none => rfl
  | some body =>
    have chain : executeChain equals subject (transformClauses strip (some body) reach []).1 =
          onFirst (runStatements (body.transformStatements strip)) := by
      rw [transformClauses, executeChain, map_map, runStatements, ← runAll_onFirst, map_map]
      rfl
    rw [chain, run_transformStatements]
    exact Hides.onFirst body.run state

/-- The `if` of a clause whose condition has been tested, in front of the code of the others. -/
def takeClause (clause : CaseClause S W V) (update : Bool)
    (rest : EStateM S (W × Bool) PUnit) (taken : Bool) :
    EStateM S (W × Bool) PUnit :=
  (if taken then
    runAll (((clause.body.transform strip).map Simple.body ++
      if canFallThroughFrom (clause.body.transform strip) && update then
        [Simple.assignFlag .always] else []).map (Simple.execute equals subject))
    else pure ⟨⟩) >>= fun _ => rest

lemma executeChain_clause (clause : CaseClause S W V)
    (clauses : List (CaseClause S W V)) (reach : Bool) :
    executeChain equals subject (transformClauses strip defaultClause reach (clause :: clauses)).1 =
      executeChain equals subject (transformCaseClauseExpression clause reach).2 >>=
        fun _ => (transformCaseClauseExpression clause reach).1.test equals subject >>=
          takeClause equals subject strip clause (!clauses.isEmpty)
            (executeChain equals subject (transformClauses strip defaultClause
              (canFallThroughFrom (clause.body.transform strip)) clauses).1) := by
  rw [transformClauses, executeChain_append, executeChain_append, bind_assoc]
  have single : ∀ stmt : Chained S W V,
      executeChain equals subject [stmt] = stmt.execute equals subject :=
    fun _ => bind_pure_unit
  simp only [transformCaseClause, single, Chained.execute, bind_assoc]
  rfl

variable {clause : CaseClause S W V}

lemma forget_taken {clauses : List (CaseClause S W V)}
    (falling : ∀ world, forget (executeChain equals subject
      (transformClauses strip defaultClause true clauses).1 (world, true)) =
        runBodies defaultClause clauses world) (state : W × Bool) :
    forget (takeClause equals subject strip clause (!clauses.isEmpty)
      (executeChain equals subject (transformClauses strip defaultClause
        (canFallThroughFrom (clause.body.transform strip)) clauses).1) true state) =
      runBodies defaultClause (clause :: clauses) state.1 := by
  rw [takeClause, if_pos rfl, runBodies, ← run_body strip]
  refine forget_clauseBody equals subject fun falls next => ?_
  cases clauses with
  | nil => exact forget_default equals subject strip defaultClause _ _
  | cons other clauses =>
    rw [falls]
    exact falling next

lemma forget_falling (clauses : List (CaseClause S W V)) (world : W) :
    forget (executeChain equals subject
      (transformClauses strip defaultClause true clauses).1 (world, true)) =
        runBodies defaultClause clauses world := by
  induction clauses generalizing world with
  | nil => exact forget_default equals subject strip defaultClause true (world, true)
  | cons clause clauses ih =>
    have taken := @forget_taken _ _ _ equals subject strip defaultClause clause clauses
      ih (world, true)
    rw [executeChain_clause, ← taken]
    cases prereqs : clause.prereqs with
    | nil => rw [transformCaseClauseExpression, prereqs]; rfl
    | cons run runs => rw [transformCaseClauseExpression, prereqs]; rfl

def matchClause (clause : CaseClause S W V) : EStateM S W Bool := do
  runAll clause.prereqs
  let left ← inspect subject
  let right ← clause.expression
  return equals left right

lemma test_equals (expr : EStateM S W V) : (Condition.equals expr).test equals subject =
      onFirst (inspect subject >>= fun left => expr >>= fun right =>
        pure (equals left right)) := by
  simp only [onFirst_bind]
  rfl

lemma test_searching {reach flag : Bool} (unset : reach → flag = false)
    (taken : Bool → EStateM S (W × Bool) PUnit) (world : W) :
    ∃ settle : Bool → EStateM S (W × Bool) PUnit, ((∀ matched, settle matched = pure ⟨⟩) ∨
        reach ∧ ∀ matched, settle matched = assignFlag matched) ∧
      (executeChain equals subject (transformCaseClauseExpression clause reach).2 >>=
        fun _ => (transformCaseClauseExpression clause reach).1.test equals subject >>=
          taken) (world, flag) =
        (onFirst (matchClause equals subject clause) >>= fun matched =>
          settle matched >>= fun _ => taken matched) (world, flag) := by
  have plain : ∀ runs : List (EStateM S W PUnit),
      runAll ((runs.map fun run => Simple.body (.plain run)).map
        (Simple.execute equals subject)) = onFirst (runAll runs) := by
    intro runs
    rw [map_map, ← runAll_onFirst]
    rfl
  rw [matchClause, onFirst_bind, ← test_equals]
  cases reach with
  | false =>
    refine ⟨fun _ => pure ⟨⟩, .inl fun _ => rfl, ?_⟩
    have prereqs : executeChain equals subject (transformCaseClauseExpression clause false).2 =
        onFirst (runAll clause.prereqs) := by
      rw [← plain]
      change runAll (((clause.prereqs.map _).map Chained.simple).map _) = _
      rw [map_map (g := Chained.execute equals subject)]
      rfl
    rw [prereqs]
    simp only [bind_assoc, pure_bind]
    rfl
  | true =>
    obtain rfl := unset rfl
    cases prereqs : clause.prereqs with
    | nil =>
      refine ⟨fun _ => pure ⟨⟩, .inl fun _ => rfl, ?_⟩
      rw [transformCaseClauseExpression, prereqs]
      rfl
    | cons run runs =>
      refine ⟨assignFlag, .inr ⟨rfl, fun _ => rfl⟩, ?_⟩
      have flagged : ∀ matched, (assignFlag matched >>= fun _ =>
          inspect (fun state => state.2) >>= taken) =
            assignFlag matched >>= fun _ => taken matched := fun _ => rfl
      have code : transformCaseClauseExpression clause true =
          (.flag, [.ifThen .notFlag ((clause.prereqs.map fun run => Simple.body (.plain run)) ++
            [.assignFlag (.equals clause.expression)])]) := by
        rw [transformCaseClauseExpression, prereqs]
        rfl
      have entered : ∀ stmts : List (Simple S W V),
          executeChain equals subject [.ifThen .notFlag stmts] (world, false) =
            runAll (stmts.map (Simple.execute equals subject)) (world, false) := by
        intro stmts
        rw [executeChain, map_singleton, runAll, runAll, bind_pure_unit]
        rfl
      rw [code, ← prereqs, ← plain]
      change EStateM.bind _ _ _ = _
      rw [EStateM.bind, entered, map_append, runAll_append]
      change ((_ >>= fun _ => _) >>= fun _ => inspect (fun state => state.2) >>= taken) _ = _
      simp only [bind_assoc, map_singleton, runAll, Simple.execute, pure_bind, flagged]

lemma keeps_matchClause (prereqs : ∀ run ∈ clause.prereqs, Keeps subject run)
    (expr : Keeps subject clause.expression) :
    Keeps subject (matchClause equals subject clause) := by
  refine (Keeps.runAll prereqs).bind fun _ => Keeps.bind ?_ fun left =>
    expr.bind fun right => Keeps.pure _ _
  rintro world _ _ ⟨⟩
  rfl

lemma forget_searching (clauses : List (CaseClause S W V)) (keeps : ∀ clause ∈ clauses,
      (∀ run ∈ clause.prereqs, Keeps subject run) ∧ Keeps subject clause.expression)
    {reach flag : Bool} (world : W)
    (unset : (reach || (transformClauses strip defaultClause reach clauses).2) → flag = false) :
    forget (executeChain equals subject
      (transformClauses strip defaultClause reach clauses).1 (world, flag)) =
        runClauses equals defaultClause (subject world) clauses world := by
  induction clauses generalizing reach flag world with
  | nil => exact forget_default equals subject strip defaultClause _ (world, flag)
  | cons clause clauses ih =>
    obtain ⟨keepPrereqs, keepExpression⟩ := keeps clause mem_cons_self
    rw [transformClauses] at unset
    rw [executeChain_clause]
    obtain ⟨settle, settled, code⟩ := @test_searching _ _ _ equals subject clause
      reach flag (fun falls => unset (by simp [falls]))
      (takeClause equals subject strip clause (!clauses.isEmpty) _) world
    have compared : runClauses equals defaultClause (subject world) (clause :: clauses) world =
        (matchClause equals subject clause >>= fun matched =>
          if matched then runBodies defaultClause (clause :: clauses)
          else runClauses equals defaultClause (subject world) clauses) world := by
      rw [matchClause, bind_assoc]
      simp only [bind_assoc, bind_inspect_comm (Keeps.runAll keepPrereqs), pure_bind]
      rfl
    rw [code, compared]
    refine forget_bind (Hides.onFirst _ (world, flag)) ?_
    rintro matched ⟨next, after⟩ left
    obtain ⟨ran, same⟩ := onFirst_ok left
    have kept := keeps_matchClause equals subject keepPrereqs keepExpression _ _ _ ran
    subst same
    cases matched with
    | true =>
      have taken := @forget_taken _ _ _ equals subject strip defaultClause clause clauses
        (forget_falling equals subject strip defaultClause clauses)
      rcases settled with none | ⟨_, assigned⟩
      · rw [none]
        exact taken (next, after)
      · rw [assigned]
        exact taken (next, true)
    | false =>
      have others := fun after => @ih (fun other mem => keeps other (mem_cons_of_mem _ mem))
        (canFallThroughFrom (clause.body.transform strip)) after next
      rw [kept] at others
      rcases settled with none | ⟨_, assigned⟩
      · rw [none]
        exact others after fun needed => unset (by simp_all [transformCaseClause])
      · rw [assigned]
        exact others false fun _ => rfl

lemma hides_chain {node : SwitchStatement S W V} (keeps : ∀ clause ∈ node.clauses,
      (∀ run ∈ clause.prereqs, Keeps subject run) ∧ Keeps subject clause.expression) :
    Hides (executeChain equals subject (transformSwitchStatement strip node).chain)
      (inspect subject >>= fun val => runClauses equals node.defaultClause val node.clauses) := by
  rintro ⟨world, flag⟩
  rw [transformSwitchStatement]
  dsimp only
  split
  · exact forget_searching equals subject strip node.defaultClause node.clauses keeps world
      fun _ => rfl
  · rename_i needless
    exact forget_searching equals subject strip node.defaultClause node.clauses keeps world
      fun needed => absurd needed needless

lemma hides_switch {node : SwitchStatement S W V} (keeps : node.KeepsSubject) :
    Hides ((transformSwitchStatement strip node).execute equals) (node.run equals) := by
  rw [SwitchStatement.KeepsSubject] at keeps
  have same : (transformSwitchStatement strip node).subject = node.subject := rfl
  rw [Emitted.execute, SwitchStatement.run, same]
  cases subject : node.subject with
  | simple read =>
    rw [subject] at keeps
    exact hides_chain equals read strip keeps
  | complex evaluate =>
    refine (Hides.onFirst evaluate).bind fun val => ?_
    refine hides_chain equals (fun _ => val) strip fun clause _ => ⟨?_, ?_⟩
    · exact fun _ _ _ _ _ _ => rfl
    · exact fun _ _ _ _ => rfl

/-! ### Rendered lists -/

lemma transformStatementList_shape (lastComments : List Bytes) (stmts : List (Transformed S W)) :
    ∃ (front : List (Statement S W)) (final : Option (W → S × W)),
      (∀ stmt ∈ front, stmt.isFinalStatement = false) ∧
      final.isSome = (stmts.any fun stmt => stmt.final.isSome) ∧
      transformStatementList strip lastComments stmts = front ++ (final.map .final).toList ++
          (if strip then [] else lastComments.map .comment) := by
  induction stmts with
  | nil => exact ⟨[], none, (fun _ mem => nomatch mem), rfl, rfl⟩
  | cons stmt others ih =>
    have plain : ∀ other ∈ (if strip then [] else
        stmt.leadingComments.map Statement.comment) ++ stmt.prereqs.map .plain ++
          stmt.statements.map .plain, other.isFinalStatement = false := by
      intro other mem
      simp only [mem_append, or_assoc] at mem
      rcases mem with comment | prereq | own
      · cases strip with
        | true => nomatch comment
        | false =>
          obtain ⟨_, _, rfl⟩ := mem_map.mp comment
          rfl
      · obtain ⟨_, _, rfl⟩ := mem_map.mp prereq
        rfl
      · obtain ⟨_, _, rfl⟩ := mem_map.mp own
        rfl
    rw [transformStatementList, Transformed.emitted]
    generalize (if strip then [] else
      stmt.leadingComments.map Statement.comment) ++ stmt.prereqs.map .plain ++
        stmt.statements.map .plain = own at plain ⊢
    cases found : stmt.final with
    | some run => exact ⟨own, some run, plain, by simp [found], rfl⟩
    | none =>
      obtain ⟨front, final, notFinal, isSome, whole⟩ := ih
      refine ⟨own ++ front, final, ?_, by simpa [found] using isSome, ?_⟩
      · intro other mem
        rcases mem_append.mp mem with own | behind
        · exact plain other own
        · exact notFinal other behind
      · simp [whole, append_assoc]

lemma renders_append {first others : List (Simple S W V)}
    (notFinal : ∀ stmt ∈ first, stmt.isFinalStatement = false) :
    renders (first ++ others) = renders others := by
  induction first with
  | nil => rfl
  | cons stmt first ih =>
    rw [cons_append, renders, notFinal stmt mem_cons_self,
      ih fun other mem => notFinal other (mem_cons_of_mem _ mem)]
    rfl

lemma comments_all (lastComments : List Bytes) : ∀ stmt ∈ ((if strip then [] else
        lastComments.map (Statement.comment : Bytes → Statement S W)).map
          (Simple.body : _ → Simple S W V)),
      stmt.isComment ∧ stmt.isFinalStatement = false := by
  intro stmt mem
  obtain ⟨inner, found, rfl⟩ := mem_map.mp mem
  cases strip with
  | true => nomatch found
  | false =>
    obtain ⟨text, _, rfl⟩ := mem_map.mp found
    exact ⟨rfl, rfl⟩

lemma renders_transformStatementList (lastComments : List Bytes)
    (stmts : List (Transformed S W)) (update : List (Simple S W V))
    (updates : ∀ stmt ∈ update, stmt.isFinalStatement = false ∧ stmt.isComment = false) :
    renders ((transformStatementList strip lastComments stmts).map Simple.body ++ update) ↔
      update = [] ∨ (stmts.any fun stmt => stmt.final.isSome) = false := by
  obtain ⟨front, final, notFinal, isSome, whole⟩ :=
    transformStatementList_shape strip lastComments stmts
  have comments := @comments_all S W V strip lastComments
  have last : renders update := by
    rw [← append_nil update, renders_append fun stmt mem => (updates _ mem).1]
    rfl
  rw [whole, map_append, map_append, append_assoc, append_assoc, renders_append ?notFinal, ← isSome]
  case notFinal =>
    intro stmt mem
    obtain ⟨inner, found, rfl⟩ := mem_map.mp mem
    exact notFinal inner found
  cases final with
  | none =>
    refine iff_of_true ?_ (.inr rfl)
    change renders (_ ++ update)
    rwa [renders_append fun stmt mem => (comments stmt mem).2]
  | some run =>
    rw [Option.isSome_some, or_iff_left (by decide)]
    change ((_ ++ update).all Simple.isComment && renders (_ ++ update)) ↔ _
    rw [renders_append fun stmt mem => (comments stmt mem).2, last,
      Bool.and_true, all_append, Bool.and_eq_true,
      and_iff_right (all_eq_true.mpr fun stmt mem => (comments stmt mem).1)]
    cases update with
    | nil => exact iff_of_true rfl rfl
    | cons stmt update =>
      refine iff_of_false ?_ (cons_ne_nil _ _)
      rw [all_cons, (updates stmt mem_cons_self).2]
      exact Bool.false_ne_true

lemma canFallThroughFrom_concat (front : List (Statement S W)) (last : Statement S W) :
    canFallThroughFrom (front ++ [last]) = !last.isFinalStatement := by
  rw [canFallThroughFrom, List.getLast?_concat]

lemma canFallThroughFrom_iff {lastComments : List Bytes} {stmts : List (Transformed S W)}
    (final : (stmts.any fun stmt => stmt.final.isSome) = true) :
    canFallThroughFrom (transformStatementList strip lastComments stmts) ↔
      strip = false ∧ lastComments ≠ [] := by
  obtain ⟨front, last, _, isSome, whole⟩ := transformStatementList_shape strip lastComments stmts
  rw [final] at isSome
  obtain ⟨run, rfl⟩ := Option.isSome_iff_exists.mp isSome
  have inFinal : canFallThroughFrom (front ++ [Statement.final run] ++ []) = false := by
    rw [append_nil, canFallThroughFrom_concat]
    rfl
  rw [whole]
  cases strip with
  | true => exact iff_of_false (ne_true_of_eq_false inFinal) (by simp)
  | false =>
    rcases eq_nil_or_concat lastComments with rfl | ⟨others, text, rfl⟩
    · exact iff_of_false (ne_true_of_eq_false inFinal) (by simp)
    · refine iff_of_true ?_ ⟨rfl, by simp⟩
      rw [if_neg (by decide), concat_eq_append, map_append, map_singleton,
        ← append_assoc, canFallThroughFrom_concat]
      rfl

lemma renders_updated (lastComments : List Bytes) (stmts : List (Transformed S W))
    (update : Bool) :
    renders ((transformStatementList strip lastComments stmts).map Simple.body ++
      if canFallThroughFrom (transformStatementList strip lastComments stmts) &&
          update then [Simple.assignFlag (Condition.always : Condition S W V)]
      else []) ↔
      ¬ (update = true ∧ (!strip && (stmts.any fun stmt =>
        stmt.final.isSome) && !lastComments.isEmpty)) := by
  rw [renders_transformStatementList]
  · cases final : stmts.any fun stmt => stmt.final.isSome with
    | false => simp
    | true =>
      have falls := @canFallThroughFrom_iff _ _ strip lastComments stmts final
      rw [or_iff_left (by decide), ite_eq_right_iff]
      simp only [cons_ne_nil, imp_false, Bool.and_eq_true, falls, Bool.not_eq_true',
        isEmpty_eq_false_iff, and_true]
      exact not_congr and_comm
  · intro stmt mem
    split at mem
    · rw [mem_singleton.mp mem]
      exact ⟨rfl, rfl⟩
    · nomatch mem

lemma renders_clause (clause : CaseClause S W V) (update : Bool) :
    renders ((clause.body.transform strip).map Simple.body ++
      if canFallThroughFrom (clause.body.transform strip) && update then
        [Simple.assignFlag (Condition.always : Condition S W V)] else []) ↔
      ¬ (update ∧ clause.body.endsInComment strip) := by
  rw [ClauseBody.transform, ClauseBody.endsInComment]
  split
  · exact renders_updated strip _ _ update
  · rw [ClauseBody.transformStatements, renders_updated]
    refine iff_of_true (fun both => ?_) (fun both => Bool.false_ne_true both.2)
    -- without statements there is no final one, and otherwise there are no comments
    cases none : clause.body.statements.isEmpty with
    | true =>
      rw [none, List.isEmpty_iff.mp none] at both
      simp at both
    | false =>
      rw [none] at both
      simp at both

lemma chainRenders_append {first others : List (Chained S W V)}
    (notFinal : ∀ stmt ∈ first, stmt.isFinalStatement = false) :
    chainRenders (first ++ others) = (first.all Chained.renders && chainRenders others) := by
  induction first with
  | nil => rfl
  | cons stmt first ih =>
    rw [cons_append, chainRenders, notFinal stmt mem_cons_self,
      ih fun other mem => notFinal other (mem_cons_of_mem _ mem),
      all_cons, Bool.and_assoc, Bool.and_assoc]
    rfl

lemma chainRenders_simple (stmts : List (Simple S W V)) :
    chainRenders (stmts.map Chained.simple) = renders stmts := by
  induction stmts with
  | nil => rfl
  | cons stmt stmts ih =>
    have rendered : (Chained.simple stmt).renders := rfl
    rw [map_cons, chainRenders, renders, ih, all_map, rendered, Bool.and_true]
    rfl

lemma prereqs_render (clause : CaseClause S W V) (reach : Bool) :
    ∀ stmt ∈ (transformCaseClauseExpression clause reach).2,
      stmt.isFinalStatement = false ∧ stmt.renders := by
  intro stmt mem
  rw [transformCaseClauseExpression] at mem
  cases reach with
  | false =>
    obtain ⟨simple, found, rfl⟩ := mem_map.mp mem
    obtain ⟨run, _, rfl⟩ := mem_map.mp found
    exact ⟨rfl, rfl⟩
  | true =>
    rw [if_pos rfl] at mem
    split at mem
    · nomatch mem
    · rw [mem_singleton.mp mem]
      refine ⟨rfl, ?_⟩
      rw [Chained.renders, renders_append]
      · rfl
      · intro simple found
        obtain ⟨run, _, rfl⟩ := mem_map.mp found
        rfl

lemma chainRenders_clauses (reach : Bool) (clauses : List (CaseClause S W V)) :
    chainRenders (transformClauses strip defaultClause reach clauses).1 ↔
      ∀ clause ∈ clauses.dropLast, clause.body.endsInComment strip = false := by
  induction clauses generalizing reach with
  | nil =>
    refine iff_of_true ?_ (fun _ mem => nomatch mem)
    cases defaultClause with
    | none => rfl
    | some body =>
      have simple : (@transformClauses S W V strip (some body)
          reach []).1 = ((body.transformStatements strip).map
            Simple.body ++ []).map Chained.simple := by
        rw [append_nil, map_map]
        rfl
      rw [simple, chainRenders_simple, ClauseBody.transformStatements]
      exact (renders_transformStatementList strip _ _ []
        fun _ mem => nomatch mem).mpr (.inl rfl)
  | cons clause clauses ih =>
    have prereqs := prereqs_render clause reach
    have chain : (transformClauses strip defaultClause reach
        (clause :: clauses)).1 = (transformCaseClauseExpression clause reach).2 ++
          (.ifThen (transformCaseClauseExpression clause reach).1
            ((clause.body.transform strip).map Simple.body ++
              if canFallThroughFrom (clause.body.transform strip) &&
                !clauses.isEmpty then [Simple.assignFlag .always] else []) ::
            (transformClauses strip defaultClause
              (canFallThroughFrom (clause.body.transform strip)) clauses).1) := by
      rw [transformClauses, append_assoc]
      rfl
    rw [chain, chainRenders_append fun stmt mem => (prereqs stmt mem).1,
      all_eq_true.mpr fun stmt mem => (prereqs stmt mem).2, Bool.true_and,
      chainRenders, Bool.and_eq_true, ih]
    change renders _ = true ∧ _ ↔ _
    rw [renders_clause]
    cases clauses with
    | nil => simp
    | cons other clauses => simp [dropLast_cons_of_ne_nil]

/-! ### Switch statements -/

/-- `switch (0) { case 0: { break; // done … } case 1: }`, with or without the comment. -/
def breakInBlock (closingComments : List Bytes) : SwitchStatement Unit Unit Nat where
  subject := .simple fun _ => 0
  clauses :=
    [⟨[], pure 0, ⟨[.block [] [⟨[], [], [], some fun world => ((), world)⟩] closingComments], []⟩⟩,
      ⟨[], pure 1, ⟨[], []⟩⟩]
  defaultClause := none

end Rotor.Transformer.Switch
