import Rotor.Luau.Cst.Yields

/-!
Every parsing routine returns, and what it returns holds exactly what it consumed.

A rule may be called with fewer references ahead than its depth.  A routine calls a
rule only behind a reference it has consumed, and there is one lemma for each
routine: `_yields` when it may consume nothing, `_advances` when it starts with a
reference that is there.
-/

namespace Rotor.Luau.Cst

open Luau.Lex Lib Cursor

def Yielding {α : Type} (p : Parser α) (events : α → List Event) (c : Cursor) : Prop :=
  Returns p c fun value c' => Yields c (events value) c'

/-- The cursor has come from `c` by `events` and has fewer than `bound` references
ahead. -/
structure Reached (bound : Nat) (c : Cursor) (events : List Event) (c' : Cursor) : Prop where
  yields : Yields c events c'
  short : c'.toks.length < bound

def Advancing {α : Type} (p : Parser α) (events : α → List Event) (c : Cursor) : Prop :=
  Returns p c fun value c' => Reached c.toks.length c (events value) c'

def Sound (rule : Rule → Parser Node) (depth : Nat) : Prop :=
  ∀ r c, c.toks.length < depth → Yielding (rule r) Node.events c

variable {test : Cursor → Bool} {text : String}

section Composition

variable {α β : Type} {p : Parser α} {events : α → List Event} {bound : Nat}
  {c c' : Cursor} {before whole : List Event}

lemma Advancing.yielding (advances : Advancing p events c) : Yielding p events c :=
  Returns.mono advances fun _ _ reached => reached.yields

lemma Yielding.after (yielding : Yielding p events c') (reached : Reached bound c before c') :
    Returns p c' fun val c'' => Reached bound c (before ++ events val) c'' := by
  refine Returns.mono yielding fun val c'' yields => ⟨reached.yields.append yields, ?_⟩
  exact Nat.lt_of_le_of_lt yields.length_le reached.short

lemma Reached.node {node : Node} (reached : Reached bound c before c')
    (whole : node.events = .enter node :: before) : Reached bound c node.events c' :=
  ⟨reached.yields.node whole, reached.short⟩

lemma Yields.reached (yields : Yields c before c') : Reached (c.toks.length + 1) c before c' :=
  ⟨yields, Nat.lt_succ_of_le yields.length_le⟩

variable {start : α}

lemma loop_returns (inv : α → Cursor → Prop) (post : β → Cursor → Prop) {turn : α → Parser (α ⊕ β)}
    (step : ∀ acc s, inv acc s → Returns (turn acc) s fun res s' =>
      match res with
      | .inl acc => inv acc s' ∧ s'.toks.length < s.toks.length
      | .inr res => post res s') (holds : inv start c) : Returns (loop turn start) c post :=
  Returns.iterate (fun s => s.toks.length) step (c.toks.length + 1) start c holds
    (Nat.lt_succ_self _)

lemma loopWhile_exits (inv : α → Cursor → Prop) {turn : α → Parser α}
    (step : ∀ acc s, inv acc s → test s = true → Returns (turn acc) s fun acc s' =>
      inv acc s' ∧ s'.toks.length < s.toks.length) (holds : inv start c) :
    Returns (loopWhile test turn start) c fun acc s => inv acc s ∧ test s = false := by
  refine loop_returns inv _ ?_ holds
  intro acc s kept
  apply Returns.get
  cases tested : test s with
  | true => exact (step acc s kept tested).map fun _ _ holds => holds
  | false => exact Returns.pure ⟨kept, tested⟩

lemma loopWhile_returns (inv : α → Cursor → Prop) {turn : α → Parser α}
    (step : ∀ acc s, inv acc s → test s = true → Returns (turn acc) s fun acc s' =>
      inv acc s' ∧ s'.toks.length < s.toks.length) (holds : inv start c) :
    Returns (loopWhile test turn start) c inv :=
  Returns.mono (loopWhile_exits inv step holds) fun _ _ ended => ended.1

end Composition

/-! ### Single references -/

section References

variable {bound : Nat} {c c' : Cursor} {before : List Event}

lemma advance_length {c : Cursor} (ahead : c.toks ≠ []) :
    c.advance.toks.length < c.toks.length := by
  have positive := List.length_pos_iff.mpr ahead
  simp only [advance, List.length_tail]
  omega

lemma next_advances (ahead : c.toks ≠ []) : Advancing next (fun ref => [.ref ref]) c :=
  ⟨c.peek, c.advance, rfl, advance_yields c, advance_length ahead⟩

lemma next_after (ahead : c'.toks ≠ []) (yields : Yields c before c')
    (enough : c'.toks.length ≤ bound) :
    Returns next c' fun ref c'' => Reached bound c (before ++ [.ref ref]) c'' :=
  Returns.mono (next_advances ahead) fun _ _ reached =>
    ⟨yields.append reached.yields, Nat.lt_of_lt_of_le reached.short enough⟩

lemma errHere_next_yields (message : Bytes) :
    Yielding (do errHere message; next) (fun ref => [.ref ref]) c :=
  ⟨c.peek, (c.report message).advance, rfl, report_advance_yields c message⟩

lemma expect_yields (message : Bytes) :
    Yielding (expect test message) (fun ref => [.ref ref]) c := by
  apply Returns.get
  cases test c with
  | true => exact ⟨c.peek, c.advance, rfl, advance_yields c⟩
  | false => exact errHere_next_yields message

lemma expectSymbol_yields (text : String) :
    Yielding (expectSymbol text) (fun ref => [.ref ref]) c := expect_yields _

lemma expectKeyword_yields (text : String) :
    Yielding (expectKeyword text) (fun ref => [.ref ref]) c := expect_yields _

lemma expectName_yields : Yielding expectName (fun ref => [.ref ref]) c := expect_yields _

lemma expectSymbol_advances (found : c.atSymbol text) :
    Advancing (expectSymbol text) (fun ref => [.ref ref]) c := by
  apply Returns.get
  rw [if_pos found]
  exact next_advances (atSymbol_ahead found)

lemma onlyIf_yields {α : Type} {p : Parser α} {events : α → List Event}
    (taken : test c → Yielding p events c) :
    Yielding (onlyIf test p) (fun val => (val.map events).getD []) c :=
  Returns.onlyIf taken fun _ => Yields.refl c

lemma optRef_yields : Yielding (onlyIf (atSymbol text) next) optRef c := by
  refine Returns.mono (onlyIf_yields fun found => (next_advances (atSymbol_ahead found)).yielding)
    fun val c' yields => ?_
  cases val with
  | none => exact yields
  | some ref => exact yields

end References

/-! ### Lists -/

def listEvents (list : List Node × List TokenRef) : List Event :=
  interleave (list.1.map Node.events) list.2

section Lists

variable {c : Cursor} {item : Parser Node}

lemma parseItems_yields {c' : Cursor} {first : Node} {before : List Event} {bound : Nat}
    (reached : Reached bound c (before ++ first.events) c')
    (items : ∀ s, s.toks.length < c'.toks.length → Yielding item Node.events s) :
    Returns (parseItems item first) c' fun list c'' =>
      Reached bound c (before ++ listEvents list) c'' := by
  refine Returns.mono (loopWhile_returns (fun list s =>
    Reached bound c (before ++ listEvents list) s ∧ s.toks.length ≤ c'.toks.length ∧
      list.1.length = list.2.length + 1) ?_ ?_) fun _ _ ended => ended.1
  · rintro ⟨nodes, seps⟩ s ⟨kept, within, sizes⟩ found
    have lengths : (nodes.map Node.events).length = seps.length + 1 := by
      simpa using sizes
    refine (next_after (atSymbol_ahead found) kept.yields (Nat.le_refl _)).bind ?_
    intro sep s1 atSep
    have below := Nat.lt_of_lt_of_le atSep.short within
    refine ((items s1 below).after atSep).bind fun node s2 atItem => ?_
    apply Returns.pure
    refine ⟨⟨⟨?_, ?_⟩, ?_, ?_⟩, atItem.short⟩
    · simpa [listEvents, interleave_concat lengths] using atItem.yields
    · exact Nat.lt_trans atItem.short kept.short
    · exact Nat.le_of_lt (Nat.lt_of_lt_of_le atItem.short within)
    · simpa using sizes
  · refine ⟨?_, Nat.le_refl _, rfl⟩
    simpa [listEvents, interleave] using reached

lemma parseUntil_yields (close : String)
    (items : ∀ s, s.toks.length ≤ c.toks.length → Yielding item Node.events s) :
    Yielding (parseUntil close item) listEvents c := by
  refine loop_returns (fun list s =>
    Yields c (listEvents list) s ∧ list.1.length = list.2.length) _ ?_ ⟨Yields.refl c, rfl⟩
  rintro ⟨nodes, seps⟩ s ⟨kept, sizes⟩
  have lengths : (nodes.map Node.events).length = seps.length := by simpa using sizes
  apply Returns.get
  split
  · refine ((items s kept.length_le).after ⟨kept, Nat.lt_succ_self _⟩).bind ?_
    intro node s1 atItem
    have whole : Yields c (listEvents (nodes ++ [node], seps)) s1 := by
      simpa [listEvents, interleave_concat_item lengths] using atItem.yields
    apply Returns.get
    split
    · rename_i found
      refine (next_after (atSymbol_ahead found) whole
        (Nat.le_of_lt_succ atItem.short)).bind fun sep s2 atSep => ?_
      apply Returns.pure
      refine ⟨⟨?_, by simp [sizes]⟩, atSep.short⟩
      have more : ((nodes ++ [node]).map Node.events).length = seps.length + 1 := by
        simp [sizes]
      rw [listEvents, interleave_concat_sep more]
      exact atSep.yields
    · exact Returns.pure whole
  · exact Returns.pure kept

lemma parseFields_yields
    (contents : ∀ s, s.toks.length ≤ c.toks.length → Yielding item Node.events s) :
    Yielding (parseFields item) (fun fields => (fields.map Node.events).flatten) c := by
  refine loop_returns (fun fields s => Yields c (fields.map Node.events).flatten s) _ ?_
    (Yields.refl c)
  intro fields s kept
  apply Returns.get
  split
  · refine ((contents s kept.length_le).after ⟨kept, Nat.lt_succ_self _⟩).bind ?_
    intro content s1 atContent
    have separator : Returns (onlyIf (fun c => c.atSymbol "," || c.atSymbol ";") next) s1
        fun sep s2 => Yields c ((fields.map Node.events).flatten ++
          content.events ++ optRef sep) s2 ∧ (sep ≠ none → s2.toks.length < s.toks.length) := by
      apply Returns.onlyIf
      · intro found
        have ahead : s1.toks ≠ [] := by
          rcases Bool.or_eq_true_iff.mp found with comma | semicolon
          · exact atSymbol_ahead comma
          · exact atSymbol_ahead semicolon
        refine Returns.mono (next_after ahead atContent.yields
          (Nat.le_of_lt_succ atContent.short)) fun ref s2 atSep => ⟨atSep.yields, ?_⟩
        exact fun _ => atSep.short
      · intro _
        exact ⟨by simpa [optRef] using atContent.yields, fun some => absurd rfl some⟩
    refine separator.bind fun sep s2 ended => ?_
    cases sep with
    | some sep =>
      apply Returns.pure
      refine ⟨?_, ended.2 (by simp)⟩
      simpa [Node.events] using ended.1
    | none =>
      apply Returns.pure
      simpa [Node.events] using ended.1
  · exact Returns.pure kept

lemma parseDots_yields : Yielding parseDots dotEvents c := by
  refine loopWhile_returns (fun dots s => Yields c (dotEvents dots) s) ?_ (Yields.refl c)
  intro dots s kept found
  refine (next_after (atSymbol_ahead found) kept (Nat.le_refl _)).bind fun dot s1 atDot => ?_
  refine (expectName_yields.after atDot).bind fun name s2 atName => ?_
  apply Returns.pure
  exact ⟨by simpa [dotEvents] using atName.yields, atName.short⟩

end Lists

section Routines

variable {rule : Rule → Parser Node} {depth bound : Nat} {c c' : Cursor} {before : List Event}
  {p : Parser Node}

lemma parseClause_advances (ahead : c.toks ≠ [])
    (parses : ∀ s, s.toks.length < c.toks.length → Yielding p Node.events s) :
    Advancing (parseClause p) Node.events c := by
  refine (next_advances ahead).bind fun tok c1 atTok => ?_
  refine ((parses c1 atTok.short).after atTok).bind fun node c2 atNode => ?_
  apply Returns.pure
  simpa [Node.events] using atNode

lemma optClause_yields (parses : ∀ s, s.toks.length < c.toks.length → Yielding p Node.events s) :
    Yielding (onlyIf (atSymbol text) (parseClause p)) Node.events.optEvents c := by
  refine Returns.mono (onlyIf_yields fun found =>
    (parseClause_advances (atSymbol_ahead found) parses).yielding) fun node c1 yields => ?_
  rw [optEvents_eq_getD]
  exact yields

lemma enclosed_advances {α : Type} {first : Parser TokenRef} {inner : Parser α}
    {events : α → List Event} {close : String} {node : TokenRef → α → TokenRef → Node}
    (opens : Advancing first (fun ref => [.ref ref]) c)
    (inside : ∀ s, s.toks.length < c.toks.length → Yielding inner events s)
    (whole : ∀ {l a r s}, Reached c.toks.length c (.ref l :: events a ++ [.ref r]) s →
      Reached c.toks.length c (node l a r).events s) :
    Advancing (do
      let l ← first
      let a ← inner
      return node l a (← expectSymbol close)) Node.events c := by
  refine opens.bind fun l c1 atOpen => ?_
  refine ((inside c1 atOpen.short).after atOpen).bind fun a c2 atInner => ?_
  refine ((expectSymbol_yields close).after atInner).bind fun r c3 atClose => ?_
  exact Returns.pure (whole atClose)

lemma optNode_yields (parses : c.atSymbol text → Yielding p Node.events c) :
    Yielding (onlyIf (atSymbol text) p) Node.events.optEvents c := by
  refine Returns.mono (onlyIf_yields parses) fun node c1 yields => ?_
  rw [optEvents_eq_getD]
  exact yields

lemma advance_ahead {kind : Kind} (found : c.peek2.token.kind = kind)
    (sig : kind ≠ .eof) : c.advance.toks ≠ [] := by
  intro empty
  have last : c.peek2 = c.eof := by
    have tail : c.toks.tail = [] := empty
    simp [peek2, tail]
  exact sig (found.symm.trans (last ▸ c.eofKind))

lemma named_part {α : Type} {p : TokenRef → TokenRef → Parser α} {Q : α → Cursor → Prop}
    (found : (c.atKind .name && peek2IsSymbol c text))
    (rest : ∀ name sep c', Reached c.toks.length c [.ref name, .ref sep] c' →
      Returns (p name sep) c' Q) :
    Returns (do p (← next) (← next)) c Q := by
  obtain ⟨name, second⟩ := Bool.and_eq_true_iff.mp found
  have ahead := atKind_ahead name (by decide)
  have further := advance_ahead (isSymbol_kind second) (by decide)
  exact rest _ _ _ ⟨(advance_yields c).append (advance_yields c.advance),
    (advance_length further).trans (advance_length ahead)⟩

lemma optItems_yields {item : Parser Node}
    (items : ∀ s, s.toks.length ≤ c.toks.length → Yielding item Node.events s) :
    Yielding (onlyIf test do parseItems item (← item))
      (fun list => listEvents (list.getD ([], []))) c := by
  apply Returns.onlyIf
  · intro _
    refine (items c (Nat.le_refl _)).bind fun first c1 atFirst => ?_
    have reached : Reached (c.toks.length + 1) c ([] ++ first.events) c1 := atFirst.reached
    refine Returns.mono (parseItems_yields reached fun s below => items s ?_)
      fun list c2 ended => ended.yields
    exact Nat.le_of_lt (Nat.lt_of_lt_of_le below atFirst.length_le)
  · intro _
    exact Yields.refl c

lemma next_at_eof {α : Type} {f : TokenRef → Parser α} {post : α → Cursor → Prop}
    (empty : c.toks = []) (rest : Returns (f c.peek) c post) : Returns (next >>= f) c post := by
  have stays : c.advance = c := by
    obtain ⟨toks, _, _, _, _⟩ := c
    subst empty
    rfl
  change Returns (f c.peek) c.advance post
  rw [stays]
  exact rest

lemma peek_yields_at_eof (empty : c.toks = []) : Yields c [.ref c.peek] c :=
  ⟨rfl, by simp [peek, empty, TokenRef.isEof, c.eofKind], List.prefix_refl _⟩

lemma leaf_advances {node : TokenRef → Node} (ahead : c.toks ≠ [])
    (events : ∀ ref, (node ref).events = [.enter (node ref), .ref ref]) :
    Advancing (node <$> next) Node.events c :=
  (next_advances ahead).map fun ref _ atRef => atRef.node (events ref)

lemma error_leaf_yields {node : TokenRef → Node} (message : Bytes)
    (refs : ∀ ref, eventRefs (node ref).events = [ref]) :
    Yielding (do errHere message; node <$> next) Node.events c := by
  exact ⟨node c.peek, (c.report message).advance, rfl,
    (report_advance_yields c message).congr (refs c.peek)⟩

lemma atTypeOperator_ahead (found : atTypeOperator c) : c.toks ≠ [] := by
  rcases Bool.or_eq_true_iff.mp found with bar | ampersand
  · exact atSymbol_ahead bar
  · exact atSymbol_ahead ampersand

variable (sound : Sound rule depth)
include sound

lemma Sound.after (r : Rule) (reached : Reached bound c before c')
    (small : bound ≤ depth) : Returns (rule r) c' fun node c'' =>
      Reached bound c (before ++ node.events) c'' :=
  (sound r c' (Nat.lt_of_lt_of_le reached.short small)).after reached

lemma parseExprList_yields (stop : String)
    (short : c.toks.length < depth) : Yielding (parseExprList rule stop) Node.events c := by
  refine (sound .expr c short).bind fun first c1 atFirst => ?_
  refine (loop_returns (fun list s => Yields c (listEvents list) s ∧
    list.1.length = list.2.length + 1)
    (fun list s => Yields c (listEvents list) s) ?_ ?_).bind ?_
  · rintro ⟨items, seps⟩ s ⟨kept, sizes⟩
    have lengths : (items.map Node.events).length = seps.length + 1 := by simpa using sizes
    apply Returns.get
    split
    · rename_i found
      refine (next_after (atSymbol_ahead found) kept (Nat.le_refl _)).bind ?_
      intro sep s1 atSep
      apply Returns.get
      split
      · apply Returns.pure
        simpa [listEvents, interleave_concat_sep lengths] using atSep.yields
      · have small : s.toks.length ≤ depth := Nat.le_of_lt (Nat.lt_of_le_of_lt kept.length_le short)
        refine (sound.after .expr atSep small).bind fun node s2 atNode => ?_
        apply Returns.pure
        refine ⟨⟨?_, by simpa using sizes⟩, atNode.short⟩
        simpa [listEvents, interleave_concat lengths] using atNode.yields
    · exact Returns.pure kept
  · exact ⟨by simpa [listEvents, interleave] using atFirst, rfl⟩
  · rintro ⟨items, seps⟩ c2 ended
    apply Returns.pure
    simpa [Node.events, listEvents_eq_map, listEvents] using ended

lemma parseElseifs_yields (short : c.toks.length ≤ depth)
    {clause : TokenRef → Node → TokenRef → Node → Node} (val : Rule)
    (events : ∀ elseifTok cond thenTok node, (clause elseifTok cond thenTok node).events =
      .ref elseifTok :: cond.events ++ .ref thenTok :: node.events) :
    Yielding (parseElseifs rule clause val)
      (fun clauses => (clauses.map Node.events).flatten) c := by
  refine loopWhile_returns (fun clauses s =>
    Yields c (List.map Node.events clauses).flatten s) ?_ (Yields.refl c)
  intro clauses s kept found
  have small := Nat.le_trans kept.length_le short
  refine (next_after (atKeyword_ahead found) kept (Nat.le_refl _)).bind ?_
  intro elseifTok s1 atElseif
  refine (sound.after .expr atElseif small).bind fun cond s2 atCond => ?_
  refine ((expectKeyword_yields "then").after atCond).bind fun thenTok s3 atThen => ?_
  refine (sound.after val atThen small).bind fun node s4 atNode => ?_
  apply Returns.pure
  exact ⟨by simpa [events] using atNode.yields, atNode.short⟩

/-! ### Types -/

lemma parseGenericParam_yields (short : c.toks.length ≤ depth) :
    Yielding (parseGenericParam rule) Node.events c := by
  refine expectName_yields.bind fun name c1 atName => ?_
  refine (optRef_yields.after atName.reached).bind fun pack c2 atPack => ?_
  have within := atPack.yields.length_le
  refine ((optClause_yields fun s below => sound .type s (by omega)).after atPack).bind ?_
  intro dflt c3 atDefault
  apply Returns.pure
  simpa [Node.events] using atDefault.yields

lemma parseGenericParams_advances (found : c.atSymbol "<" = true)
    (short : c.toks.length ≤ depth) :
    Advancing (parseGenericParams rule) Node.events c :=
  enclosed_advances (expectSymbol_advances found) (fun s _ => parseUntil_yields ">" fun s within =>
      parseGenericParam_yields sound (by omega))
    fun atGt => by simpa [Node.events, listEvents_eq_map, listEvents] using atGt

lemma parseTypeArgs_advances (ahead : c.toks ≠ [])
    (short : c.toks.length ≤ depth) : Advancing (parseTypeArgs rule) Node.events c :=
  enclosed_advances (next_advances ahead)
    (fun s _ => parseUntil_yields ">" fun s within => sound .type s (by omega))
    fun atGt => by simpa [Node.events, listEvents_eq_map, listEvents] using atGt

lemma parseTypeName_advances (ahead : c.toks ≠ [])
    (short : c.toks.length ≤ depth) : Advancing (parseTypeName rule) Node.events c := by
  refine (next_advances ahead).bind fun base c1 atBase => ?_
  refine (parseDots_yields.after atBase).bind fun dots c2 atDots => ?_
  have shorter := atDots.short
  refine ((optNode_yields fun found => (parseTypeArgs_advances sound
    (atSymbol_ahead found) (by omega)).yielding).after atDots).bind fun args c3 atArgs => ?_
  refine (optRef_yields.after atArgs).bind fun pack c4 atPack => ?_
  apply Returns.pure
  exact atPack.node (by simp [Node.events])

lemma parseTypeParam_yields (short : c.toks.length < depth) :
    Yielding (parseTypeParam rule) Node.events c := by
  apply Returns.get
  split
  · rename_i found
    refine (next_advances (atSymbol_ahead found)).bind fun dots c1 atDots => ?_
    have shorter := atDots.short
    refine ((onlyIf_yields fun _ => sound .type c1 (by omega)).after atDots).bind ?_
    intro type c2 atType
    apply Returns.pure
    simpa [Node.events, optEvents_eq_getD] using atType.yields
  · split
    · rename_i found
      refine named_part found fun name colon c1 atColon => ?_
      refine (sound.after .type atColon (Nat.le_of_lt short)).bind fun type c2 atType => ?_
      apply Returns.pure
      simpa [Node.events] using atType.yields
    · exact sound .type c short

/-- The opening reference is not tested: behind generics it can be the end of the
file. -/
theorem parseParenType_after {generics : Option Node}
    (yields : Yields c (before ++ Node.events.optEvents generics) c')
    (short : c'.toks.length ≤ depth) : Returns (parseParenType rule generics) c'
      fun node c'' => Yields c (before ++ node.events) c'' := by
  by_cases empty : c'.toks = []
  · have ended : c'.atEnd := atEnd_iff.mpr empty
    refine next_at_eof empty ?_
    refine Returns.onlyIf_skip (by simp [ended]) ?_
    refine (expectSymbol_yields ")").bind fun rParen c1 atClose => ?_
    have nothing : c1.toks.length ≤ 0 := by simpa [empty] using atClose.length_le
    refine (optClause_yields fun s below => absurd below (by omega)).bind fun ret c2 atRet => ?_
    apply Returns.pure
    have whole := ((yields.append (peek_yields_at_eof empty)).append atClose).append atRet
    exact whole.congr (by simp [Node.events, Node.events.listEvents, interleave])
  · refine (next_after empty yields (Nat.le_refl _)).bind fun lParen c1 atOpen => ?_
    have shorter := atOpen.short
    refine ((optItems_yields fun s within =>
      parseTypeParam_yields sound (by omega)).after atOpen).bind fun list c2 atList => ?_
    generalize list.getD ([], []) = parts at atList ⊢
    obtain ⟨params, paramSeps⟩ := parts
    refine ((expectSymbol_yields ")").after atList).bind fun rParen c3 atClose => ?_
    have closed := atClose.short
    refine ((optClause_yields fun s below => sound .type s (by omega)).after atClose).bind ?_
    intro ret c4 atRet
    apply Returns.pure
    exact atRet.yields.congr (by simp [Node.events, listEvents_eq_map, listEvents])

lemma parseTableTypeField_yields (short : c.toks.length < depth) :
    Yielding (parseTableTypeField rule) Node.events c := by
  have small := Nat.le_of_lt short
  apply Returns.get
  split
  · rename_i found
    refine (next_advances (atSymbol_ahead found)).bind fun lBracket c1 atOpen => ?_
    refine (sound.after .type atOpen small).bind fun key c2 atKey => ?_
    refine ((expectSymbol_yields "]").after atKey).bind fun rBracket c3 atClose => ?_
    refine ((expectSymbol_yields ":").after atClose).bind fun colon c4 atColon => ?_
    refine (sound.after .type atColon small).bind fun val c5 atValue => ?_
    apply Returns.pure
    simpa [Node.events] using atValue.yields
  · split
    · rename_i found
      refine named_part found fun name colon c1 atColon => ?_
      refine (sound.after .type atColon small).bind fun val c2 atValue => ?_
      apply Returns.pure
      simpa [Node.events] using atValue.yields
    · exact sound .type c short

lemma parseTableType_advances (found : c.atSymbol "\x7b" = true) (short : c.toks.length ≤ depth) :
    Advancing (parseTableType rule) Node.events c :=
  enclosed_advances (expectSymbol_advances found)
    (fun s _ => parseFields_yields fun s within => parseTableTypeField_yields sound (by omega))
    fun atClose => atClose.node (by simp [Node.events, listEvents_eq_map])

lemma parseTypeof_advances (ahead : c.toks ≠ [])
    (short : c.toks.length ≤ depth) : Advancing (parseTypeof rule) Node.events c := by
  refine (next_advances ahead).bind fun typeofTok c1 atTypeof => ?_
  refine ((expectSymbol_yields "(").after atTypeof).bind fun lParen c2 atOpen => ?_
  refine (sound.after .expr atOpen short).bind fun expr c3 atExpr => ?_
  refine ((expectSymbol_yields ")").after atExpr).bind fun rParen c4 atClose => ?_
  apply Returns.pure
  exact atClose.node (by simp [Node.events])

lemma parseTypePrimary_yields (short : c.toks.length ≤ depth) :
    Yielding (parseTypePrimary rule) Node.events c := by
  have start : Yields c ([] ++ Node.events.optEvents none) c := Yields.refl c
  have singleton : c.toks ≠ [] → Yielding (Node.singletonType <$> next) Node.events c :=
    fun ahead => (leaf_advances ahead fun _ => by simp [Node.events]).yielding
  apply Returns.get
  split_ifs with paren generic brace dots typeof literal string name
  · exact parseParenType_after sound start short
  · refine (parseGenericParams_advances sound generic short).bind fun generics c1 atGt => ?_
    have yields : Yields c ([] ++ Node.events.optEvents (some generics)) c1 := atGt.yields
    exact parseParenType_after sound yields (by have := atGt.short; omega)
  · exact (parseTableType_advances sound brace short).yielding
  · refine (next_advances (atSymbol_ahead dots)).bind fun tok c1 atDots => ?_
    have shorter := atDots.short
    refine ((onlyIf_yields fun _ => sound .type c1 (by omega)).after atDots).bind ?_
    intro type c2 atType
    apply Returns.pure
    exact atType.yields.node (by simp [Node.events, optEvents_eq_getD])
  · have ahead := atKeyword_ahead (Bool.and_eq_true_iff.mp typeof).1
    exact (parseTypeof_advances sound ahead short).yielding
  · simp only [Bool.or_eq_true] at literal
    rcases literal with (found | found) | found
    all_goals exact singleton (atKeyword_ahead found)
  · exact singleton (atKind_ahead string (by decide))
  · exact (parseTypeName_advances sound (atKind_ahead name (by decide)) short).yielding
  · exact error_leaf_yields _ fun _ => by simp [Node.events]

lemma parseTypePostfix_yields (short : c.toks.length ≤ depth) :
    Yielding (parseTypePostfix rule) Node.events c := by
  refine (parseTypePrimary_yields sound short).bind fun first c1 atFirst => ?_
  refine loopWhile_returns (fun type s => Yields c (Node.events type) s) ?_ atFirst
  intro type s kept found
  refine (next_after (atSymbol_ahead found) kept (Nat.le_refl _)).map ?_
  intro question s1 atQuestion
  exact ⟨atQuestion.yields.node (by simp [Node.events]), atQuestion.short⟩

lemma parseTypeLead_yields (short : c.toks.length ≤ depth) :
    Yielding (parseTypeLead rule) Node.events c := by
  apply Returns.get
  split
  · rename_i found
    refine (next_advances (atTypeOperator_ahead found)).bind fun op c1 atOp => ?_
    have shorter := atOp.short
    refine ((parseTypePostfix_yields sound (by omega)).after atOp).map fun type c2 atType => ?_
    exact atType.yields.node (by simp [Node.events])
  · exact parseTypePostfix_yields sound short

lemma parseType_yields (short : c.toks.length ≤ depth) :
    Yielding (parseType rule) Node.events c := by
  refine (parseTypeLead_yields sound short).bind fun first c1 atFirst => ?_
  refine loopWhile_returns (fun type s => Yields c (Node.events type) s) ?_ atFirst
  intro type s kept found
  refine (next_after (atTypeOperator_ahead found) kept (Nat.le_refl _)).bind ?_
  intro op s1 atOp
  have within := kept.length_le
  have shorter := atOp.short
  refine ((parseTypePostfix_yields sound (by omega)).after atOp).map fun right s2 atRight => ?_
  exact ⟨atRight.yields.node (by simp [Node.events]), atRight.short⟩

end Routines

end Rotor.Luau.Cst
