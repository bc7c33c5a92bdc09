import Rotor.Transformer.SourceLinesSpec

/-!
Statement lists whose recorded lines are right.

The walk takes a nested list to begin one line below its header, or below the place where the text
of a function argument is found first.  All recorded lines are right exactly when every nested list
that it goes into does begin there.
-/

namespace Rotor.Transformer.SourceLines

open List Luau Luau.Render

/-- A text occurs in another, for the first time behind so many lines. -/
def FirstOccursBehind (lines : Nat) (part whole : Bytes) : Prop :=
  ∃ before behind, whole = before ++ part ++ behind ∧ breaksOf before = lines ∧
    ∀ before' behind', whole = before' ++ part ++ behind' → before.length ≤ before'.length

section Keeps

variable (renderer : Renderer)

mutual

/-- Every nested list that the walk goes into begins where it takes it to begin. -/
def KeepsLines : List Node → Prop
  | [] => True
  | stmt :: stmts => InnerKeepsLines stmt ∧ KeepsLines stmts

def InnerKeepsLines (stmt : Node) : Prop :=
  match stmt with
  | .doStatement stmts | .whileStatement _ stmts | .repeatStatement _ stmts
  | .numericForStatement _ _ _ _ stmts | .forStatement _ _ stmts
  | .functionDeclaration _ _ _ _ stmts | .methodDeclaration _ _ _ _ stmts =>
    (stmts = [] ∨ headerBreaks renderer.env.anonymous stmt = 0) ∧ KeepsLines stmts
  | .ifStatement condition stmts elseBody =>
    ((stmts = [] ∨ lineBreaks renderer.env.anonymous condition = 0) ∧ KeepsLines stmts) ∧
      ElseKeepsLines (lineBreaks renderer.env.anonymous condition) elseBody
  | .callStatement expression =>
    CallKeepsLines (renderer.renderSourceMapStatement stmt) expression
  | _ => True

/-- The branches behind a condition with so many line breaks. -/
def ElseKeepsLines (above : Nat) (elseBody : Node) : Prop :=
  match elseBody with
  | .elseList stmts => (stmts = [] ∨ above = 0) ∧ KeepsLines stmts
  | .ifStatement condition stmts elseBody => above = 0 ∧
    ((stmts = [] ∨ lineBreaks renderer.env.anonymous condition = 0) ∧ KeepsLines stmts) ∧
      ElseKeepsLines (lineBreaks renderer.env.anonymous condition) elseBody
  | _ => True

def CallKeepsLines (whole : Option Bytes) (expression : Node) : Prop :=
  match expression with
  | .callExpression callee args => ArgumentsKeepLines whole
    (argumentBreaks renderer.env.anonymous callee args) 0 args
  | _ => True

def ArgumentsKeepLines (whole : Option Bytes) (lines : Nat → Nat) (branch : Nat) :
    List Node → Prop
  | [] => True
  | argument :: args => ArgumentKeepsLines whole (lines branch) argument ∧
    ArgumentsKeepLines whole lines (branch + 1) args

/-- The text of a function argument, where it occurs in the text of its call at all, does so first
on the line on which it stands. -/
def ArgumentKeepsLines (whole : Option Bytes) (lines : Nat) (argument : Node) : Prop :=
  match argument with
  | .functionExpression _ _ stmts => ∀ part ∈ renderer.renderFunction argument, ∀ text ∈ whole,
    part <:+: text → (stmts = [] ∨ FirstOccursBehind lines part text) ∧ KeepsLines stmts
  | _ => True

end

end Keeps

/-! ### Where a text is found -/

variable {part whole before : Bytes}

lemma cutBefore_spec (found : cutBefore part whole = some before) :
    (∃ behind, whole = before ++ part ++ behind) ∧
      ∀ before' behind', whole = before' ++ part ++ behind' → before.length ≤ before'.length := by
  induction whole generalizing before with
  | nil =>
    rw [cutBefore, Option.ite_none_right_eq_some] at found
    obtain ⟨empty, ⟨⟩⟩ := found
    exact ⟨⟨[], by simp [List.isEmpty_iff.mp empty]⟩, fun _ _ _ => Nat.zero_le _⟩
  | cons c rest ih =>
    rw [cutBefore] at found
    split at found
    next here =>
      cases found
      obtain ⟨behind, same⟩ := isPrefixOf_iff_prefix.mp here
      exact ⟨⟨behind, same.symm⟩, fun _ _ _ => Nat.zero_le _⟩
    next notHere =>
      obtain ⟨before, foundLater, rfl⟩ := Option.map_eq_some_iff.mp found
      obtain ⟨⟨behind, rfl⟩, first⟩ := ih foundLater
      have notHere := mt isPrefixOf_iff_prefix.mpr notHere
      refine ⟨⟨behind, rfl⟩, fun before' behind' same => ?_⟩
      cases before' with
      | nil => exact absurd ⟨behind', same.symm⟩ notHere
      | cons c' before' =>
        exact Nat.succ_le_succ (first before' behind' (cons.inj same).2)

lemma not_infix_of_cutBefore (missing : cutBefore part whole = none) : ¬ part <:+: whole := by
  induction whole with
  | nil =>
    intro occurs
    rw [eq_nil_of_infix_nil occurs] at missing
    cases missing
  | cons c rest ih =>
    rw [cutBefore] at missing
    split at missing
    · cases missing
    next notHere =>
      rw [infix_cons_iff, not_or]
      exact ⟨mt isPrefixOf_iff_prefix.mpr notHere, ih (Option.map_eq_none_iff.mp missing)⟩

lemma firstOccursBehind_iff (found : cutBefore part whole = some before) {lines : Nat} :
    FirstOccursBehind lines part whole ↔ breaksOf before = lines := by
  obtain ⟨⟨behind, rfl⟩, first⟩ := cutBefore_spec found
  constructor
  · rintro ⟨before', behind', same, rfl, first'⟩
    have sizes : before.length = before'.length :=
      Nat.le_antisymm (first _ _ same) (first' _ _ rfl)
    rw [append_assoc, append_assoc] at same
    rw [(append_inj same sizes).1]
  · rintro rfl
    exact ⟨before, behind, rfl, rfl, first⟩

/-! ### The walk -/

section Walk

variable {renderer : Renderer} {positions : Positions} {stmt elseBody argument : Node}
variable {stmts args : List Node} {path : Path} {line branch : Nat} {maps : List Mapping}
variable {extra : Int}

/-- A path along a branch that begins so many lines too low, without displacement. -/
def Straight (renderer : Renderer) (branch : Nat) (extra : Int) (stmts : List Node) (path : Path)
    (_ : Int) : Prop :=
  ∃ tail, path = branch :: tail ∧ extra + displacement renderer stmts tail = 0

def StraightFrom (renderer : Renderer) (index : Nat) (stmts : List Node) (path : Path)
    (_ : Int) : Prop :=
  ∃ offset tail, path = (index + offset) :: tail ∧
    displacement renderer stmts (offset :: tail) = 0

def StraightInside (renderer : Renderer) (stmt : Node) (path : Path) (_ : Int) : Prop :=
  ∃ branch tail, path = branch :: tail ∧
    extraLines renderer branch stmt + displacement renderer (branchStatements branch stmt) tail = 0

/-- The starts among the mappings of a branch that begins so many lines too low are not
displaced. -/
def AllStraight (renderer : Renderer) (path : Path) (branch : Nat) (extra : Int)
    (stmts : List Node) (maps : List Mapping) : Prop :=
  ∀ mapping ∈ maps, mapping.isEnd = false → ∀ tail, mapping.path = path ++ branch :: tail →
    extra + displacement renderer stmts tail = 0

/-- For a list that keeps its lines no start is displaced, and if all statements are recorded then
for no other. -/
structure ListExact (renderer : Renderer) (positions : Positions) (stmts : List Node) : Prop where
  kept : ∀ {index line : Nat} {path : Path} {maps : List Mapping},
    addStatementListMappings renderer positions path index line stmts = some maps →
    KeepsLines renderer stmts → Records path line (StraightFrom renderer index stmts) maps
  keeps : (∀ path, (positions.start path).isSome) →
    ∀ {index line : Nat} {path : Path} {maps : List Mapping},
    addStatementListMappings renderer positions path index line stmts = some maps →
    (∀ mapping ∈ maps, mapping.isEnd = false → ∀ offset tail,
      mapping.path = path ++ (index + offset) :: tail →
        displacement renderer stmts (offset :: tail) = 0) → KeepsLines renderer stmts

structure InnerExact (renderer : Renderer) (positions : Positions) (stmt : Node) : Prop where
  kept : ∀ {line : Nat} {path : Path} {maps : List Mapping},
    addInnerMappings renderer positions path line stmt = some maps →
    InnerKeepsLines renderer stmt → Records path line (StraightInside renderer stmt) maps
  keeps : (∀ path, (positions.start path).isSome) →
    ∀ {line : Nat} {path : Path} {maps : List Mapping},
    addInnerMappings renderer positions path line stmt = some maps →
    (∀ branch, AllStraight renderer path branch (extraLines renderer branch stmt)
      (branchStatements branch stmt) maps) → InnerKeepsLines renderer stmt

lemma mem_addStartMapping (recorded : (positions.start path).isSome) :
    ∃ mapping ∈ addStartMapping positions path line, mapping.isEnd = false ∧
      mapping.path = path := by
  obtain ⟨source, found⟩ := Option.isSome_iff_exists.mp recorded
  exact ⟨⟨path, false, line, source⟩, by simp [addStartMapping, found], rfl, rfl⟩

section Branch

variable (list : ListExact renderer positions stmts) {line' : Nat}
  (walked : addStatementListMappings renderer positions (path ++ [branch]) 0 line' stmts =
    some maps)
include list walked

lemma ListExact.branch_kept (below : stmts = [] ∨ extra = 0) (keeps : KeepsLines renderer stmts) :
    Records path line (Straight renderer branch extra stmts) maps := by
  obtain rfl | rfl := below
  · cases walked
    exact records_nil
  refine (list.kept walked keeps).mono ?_
  rintro _ _ ⟨offset, tail, rfl, straight⟩
  rw [Nat.zero_add]
  exact ⟨branch :: offset :: tail, append_assoc .., _, rfl, by rw [straight, Int.add_zero]⟩

lemma ListExact.branch_keeps (everywhere : ∀ path, (positions.start path).isSome)
    (straight : AllStraight renderer path branch extra stmts maps) :
    (stmts = [] ∨ extra = 0) ∧ KeepsLines renderer stmts := by
  have below : stmts = [] ∨ extra = 0 := by
    cases stmts with
    | nil => exact .inl rfl
    | cons stmt stmts =>
      simp only [addStatementListMappings, bind_eq_some] at walked
      obtain ⟨_, _, inner, _, rest, _, same⟩ := walked
      cases same
      obtain ⟨mapping, mem, isStart, there⟩ := @mem_addStartMapping positions
        (path ++ [branch] ++ [0]) line' (everywhere _)
      have first := straight mapping (mem_append_left _ (mem_append_left _ mem)) isStart [0]
        (by rw [there, append_assoc]; rfl)
      exact .inr (by simpa [displacement] using first)
  refine ⟨below, list.keeps everywhere walked fun mapping mem isStart offset tail there => ?_⟩
  obtain rfl | rfl := below
  · cases walked
    cases mem
  have along := straight mapping mem isStart (offset :: tail)
    (by rw [there, append_assoc, Nat.zero_add]; rfl)
  rwa [Int.zero_add] at along

end Branch

lemma listExact_cons (inner : InnerExact renderer positions stmt)
    (others : ListExact renderer positions stmts) :
    ListExact renderer positions (stmt :: stmts) where
  kept := by
    intro index line path maps recorded keeps
    rw [KeepsLines] at keeps
    simp only [addStatementListMappings, bind_eq_some] at recorded
    obtain ⟨alone, counted, innerMappings, walked, otherMappings, behind, recorded⟩ := recorded
    cases recorded
    refine ((records_start ⟨0, [], rfl, rfl⟩).append ((inner.kept walked keeps.1).mono ?_)).append
      ((others.kept behind keeps.2).mono ?_)
    · rintro _ _ ⟨branch, tail, rfl, straight⟩
      exact ⟨index :: branch :: tail, append_assoc .., 0, branch :: tail, rfl, straight⟩
    · rintro _ _ ⟨offset, tail, rfl, straight⟩
      refine ⟨_, rfl, offset + 1, tail, by congr 1; omega, ?_⟩
      rw [← straight]
      cases tail <;> rfl
  keeps := by
    intro everywhere index line path maps recorded straight
    simp only [addStatementListMappings, bind_eq_some] at recorded
    obtain ⟨alone, counted, innerMappings, walked, otherMappings, behind, recorded⟩ := recorded
    cases recorded
    rw [KeepsLines]
    refine ⟨inner.keeps everywhere walked fun branch mapping mem isStart tail there => ?_,
      others.keeps everywhere behind fun mapping mem isStart offset tail there => ?_⟩
    · exact straight mapping (mem_append_left _ (mem_append_right _ mem)) isStart 0
        (branch :: tail) (by rw [there, append_assoc]; rfl)
    · have along := straight mapping (mem_append_right _ mem) isStart (offset + 1) tail
        (by rw [there]; congr 2; omega)
      rw [← along]
      cases tail <;> rfl

lemma Records.inside (records : Records path line (Straight renderer branch
      (extraLines renderer branch stmt) (branchStatements branch stmt)) maps) :
    Records path line (StraightInside renderer stmt) maps := by
  intro mapping mem isStart
  obtain ⟨rest, atPath, tail, along, straight⟩ := records mapping mem isStart
  exact ⟨rest, atPath, branch, tail, along, straight⟩

lemma AllStraight.mono {inner : List Mapping}
    (straight : AllStraight renderer path branch extra stmts maps)
    (within : ∀ mapping ∈ inner, mapping ∈ maps) :
    AllStraight renderer path branch extra stmts inner :=
  fun mapping mem => straight mapping (within mapping mem)

lemma block_lines (block : blockOf stmt = some stmts) (branch : Nat) :
    extraLines renderer branch stmt = headerBreaks renderer.env.anonymous stmt ∧
      branchStatements branch stmt = stmts ∧ (InnerKeepsLines renderer stmt ↔
        (stmts = [] ∨ headerBreaks renderer.env.anonymous stmt = 0) ∧
          KeepsLines renderer stmts) := by
  cases stmt <;> simp_all [blockOf, extraLines, branchStatements, InnerKeepsLines]

lemma innerExact_block (block : blockOf stmt = some stmts)
    (list : ListExact renderer positions stmts) : InnerExact renderer positions stmt := by
  obtain ⟨extra, branches, keepsIff⟩ := @block_lines renderer _ _ block 0
  constructor
  · intro line path maps recorded keeps
    obtain ⟨below, keeps⟩ := keepsIff.mp keeps
    obtain ⟨inner, last, walked, rfl, ends⟩ := addInnerMappings_block block recorded
    refine Records.append (@Records.inside _ _ _ _ 0 _ ?_) ends
    rw [extra, branches]
    exact list.branch_kept walked (below.imp_right fun none => by rw [none]; rfl) keeps
  · intro everywhere line path maps recorded straight
    obtain ⟨inner, last, walked, rfl, -⟩ : ∃ inner last, _ ∧ _ ∧
      Records path line (StraightInside renderer stmt) last := addInnerMappings_block block recorded
    have along := (straight 0).mono fun mapping mem => mem_append_left last mem
    rw [extra, branches] at along
    obtain ⟨below, keeps⟩ := list.branch_keeps walked everywhere along
    exact keepsIff.mpr ⟨below.imp_right Int.ofNat_eq_zero.mp, keeps⟩

def elseStatements : Node → List Node
  | .elseList stmts => stmts
  | elseBody => [elseBody]

lemma branchStatements_else (cond : Node) (stmts : List Node) (elseBody : Node) :
    branchStatements 1 (.ifStatement cond stmts elseBody) = elseStatements elseBody := by
  cases elseBody <;> rfl

structure ElseExact (renderer : Renderer) (positions : Positions) (elseBody : Node) : Prop where
  kept : ∀ {above line : Nat} {path : Path} {maps : List Mapping},
    addElseMappings renderer positions path line elseBody = some maps →
    ElseKeepsLines renderer above elseBody →
      Records path line (Straight renderer 1 above (elseStatements elseBody)) maps
  keeps : (∀ path, (positions.start path).isSome) →
    ∀ {above line : Nat} {path : Path} {maps : List Mapping},
    addElseMappings renderer positions path line elseBody = some maps →
    AllStraight renderer path 1 above (elseStatements elseBody) maps →
      ElseKeepsLines renderer above elseBody

section If

variable {cond : Node} {block branches : List Mapping} {line' line'' : Nat}
  (list : ListExact renderer positions stmts) (others : ElseExact renderer positions elseBody)
  (walked : addStatementListMappings renderer positions (path ++ [0]) 0 line' stmts = some block)
  (walkedElse : addElseMappings renderer positions path line'' elseBody = some branches)
include list others walked walkedElse

lemma if_kept (keeps : ((stmts = [] ∨ lineBreaks renderer.env.anonymous cond = 0) ∧
      KeepsLines renderer stmts) ∧
      ElseKeepsLines renderer (lineBreaks renderer.env.anonymous cond) elseBody) :
    Records path line (StraightInside renderer (.ifStatement cond stmts elseBody))
      (block ++ branches) := by
  obtain ⟨⟨below, keeps⟩, keepsElse⟩ := keeps
  refine Records.append (@Records.inside _ _ _ _ 0 _ ?_) (@Records.inside _ _ _ _ 1 _ ?_)
  · exact list.branch_kept walked (below.imp_right Int.ofNat_eq_zero.mpr) keeps
  · rw [branchStatements_else]
    intro mapping mem isStart
    exact others.kept walkedElse keepsElse mapping mem isStart

lemma if_keeps (everywhere : ∀ path, (positions.start path).isSome)
    (straight : ∀ branch, AllStraight renderer path branch
      (extraLines renderer branch (.ifStatement cond stmts elseBody))
      (branchStatements branch (.ifStatement cond stmts elseBody)) (block ++ branches)) :
    ((stmts = [] ∨ lineBreaks renderer.env.anonymous cond = 0) ∧ KeepsLines renderer stmts) ∧
      ElseKeepsLines renderer (lineBreaks renderer.env.anonymous cond) elseBody := by
  obtain ⟨below, keeps⟩ := list.branch_keeps walked everywhere
    ((straight 0).mono fun mapping mem => mem_append_left _ mem)
  have behind := (straight 1).mono fun mapping mem => mem_append_right block mem
  rw [branchStatements_else] at behind
  exact ⟨⟨below.imp_right Int.ofNat_eq_zero.mp, keeps⟩, others.keeps everywhere walkedElse behind⟩

end If

lemma innerExact_if {cond : Node} (list : ListExact renderer positions stmts)
    (others : ElseExact renderer positions elseBody) :
    InnerExact renderer positions (.ifStatement cond stmts elseBody) := by
  constructor
  · intro line path maps recorded keeps
    simp only [addInnerMappings, bind_eq_some] at recorded
    obtain ⟨inner, walked, _, _, branches, walkedElse, last, ended, recorded⟩ := recorded
    cases recorded
    rw [InnerKeepsLines] at keeps
    exact (if_kept list others walked walkedElse keeps).append (records_blockEnd ended)
  · intro everywhere line path maps recorded straight
    simp only [addInnerMappings, bind_eq_some] at recorded
    obtain ⟨inner, walked, _, _, branches, walkedElse, last, ended, recorded⟩ := recorded
    cases recorded
    rw [InnerKeepsLines]
    exact if_keeps list others walked walkedElse everywhere fun branch =>
      (straight branch).mono fun mapping mem => mem_append_left _ mem

lemma elseExact_list (list : ListExact renderer positions stmts) :
    ElseExact renderer positions (.elseList stmts) := by
  constructor
  · intro above line path maps recorded keeps
    rw [ElseKeepsLines] at keeps
    rw [addElseMappings] at recorded
    split at recorded
    · cases recorded
      exact records_nil
    · exact list.branch_kept recorded (keeps.1.imp_right Int.ofNat_eq_zero.mpr) keeps.2
  · intro everywhere above line path maps recorded straight
    rw [ElseKeepsLines]
    rw [addElseMappings] at recorded
    split at recorded
    next empty =>
      rw [List.isEmpty_iff.mp empty]
      exact ⟨.inl rfl, trivial⟩
    · obtain ⟨below, keeps⟩ := list.branch_keeps recorded everywhere straight
      exact ⟨below.imp_right Int.ofNat_eq_zero.mp, keeps⟩

lemma elseExact_if {cond : Node} (list : ListExact renderer positions stmts)
    (others : ElseExact renderer positions elseBody) :
    ElseExact renderer positions (.ifStatement cond stmts elseBody) := by
  constructor
  · intro above line path maps recorded keeps
    rw [ElseKeepsLines] at keeps
    obtain ⟨rfl, keeps⟩ := keeps
    simp only [addElseMappings, bind_eq_some] at recorded
    obtain ⟨inner, walked, _, _, branches, walkedElse, recorded⟩ := recorded
    cases recorded
    rw [append_assoc]
    refine (records_start ⟨[0], rfl, rfl⟩).append
      ((@if_kept _ _ _ _ _ line _ _ _ _ _ list others walked walkedElse keeps).mono ?_)
    rintro _ _ ⟨branch, tail, rfl, straight⟩
    refine ⟨1 :: 0 :: branch :: tail, append_assoc .., _, rfl, ?_⟩
    rw [Int.natCast_zero, Int.zero_add]
    exact straight
  · intro everywhere above line path maps recorded straight
    simp only [addElseMappings, bind_eq_some] at recorded
    obtain ⟨inner, walked, _, _, branches, walkedElse, recorded⟩ := recorded
    cases recorded
    obtain ⟨mapping, mem, isStart, there⟩ := @mem_addStartMapping positions (path ++ [1, 0])
      (line + 1) (everywhere _)
    have first := straight mapping (mem_append_left _ (mem_append_left _ mem)) isStart [0] there
    obtain rfl : above = 0 := by simpa [displacement] using first
    rw [ElseKeepsLines]
    refine ⟨rfl, if_keeps list others walked walkedElse everywhere
      fun branch mapping mem isStart tail there => ?_⟩
    have along := straight mapping (by rw [append_assoc]; exact mem_append_right _ mem) isStart
      (0 :: branch :: tail) (by rw [there, append_assoc]; rfl)
    rw [Int.natCast_zero, Int.zero_add] at along
    exact along

section Call

variable {expression : Node} {params : List Node} {hasDotDotDot : Bool} {lines : Nat → Nat}
variable {text : Option Bytes} {fullRendered : Bytes}

lemma argumentsKeepLines_iff : ArgumentsKeepLines renderer text lines branch args ↔
    ∀ offset argument, args[offset]? = some argument →
      ArgumentKeepsLines renderer text (lines (branch + offset)) argument := by
  induction args generalizing branch with
  | nil => simp [ArgumentsKeepLines]
  | cons first args ih =>
    rw [ArgumentsKeepLines, ih]
    constructor
    · rintro ⟨own, others⟩ offset argument there
      cases offset with
      | zero =>
        cases there
        exact own
      | succ offset =>
        have behind := others offset argument there
        rwa [Nat.add_right_comm] at behind
    · intro each
      refine ⟨each 0 first rfl, fun offset argument there => ?_⟩
      rw [Nat.add_right_comm]
      exact each (offset + 1) argument there

lemma addArgumentMappings_mem {offset : Nat} (there : args[offset]? = some argument)
    (recorded : addArgumentMappings renderer positions path line fullRendered branch args =
      some maps) :
    ∃ inner, addFunctionMappings renderer positions path line fullRendered (branch + offset)
      argument = some inner ∧ ∀ mapping ∈ inner, mapping ∈ maps := by
  induction args generalizing branch maps offset with
  | nil => cases there
  | cons first args ih =>
    simp only [addArgumentMappings, bind_eq_some] at recorded
    obtain ⟨own, walked, rest, others, recorded⟩ := recorded
    cases recorded
    cases offset with
    | zero =>
      cases there
      exact ⟨own, walked, fun mapping => mem_append_left rest⟩
    | succ offset =>
      obtain ⟨inner, walked, within⟩ := ih there others
      rw [Nat.add_right_comm] at walked
      exact ⟨inner, walked, fun mapping mem => mem_append_right own (within mapping mem)⟩

lemma addFunctionMappings_function (recorded : addFunctionMappings renderer positions path line
      fullRendered branch (.functionExpression params hasDotDotDot stmts) = some maps) :
    ∃ part, renderer.renderFunction (.functionExpression params hasDotDotDot stmts) = some part ∧
      (cutBefore part fullRendered = none ∧ maps = [] ∨
        ∃ before line' inner last, cutBefore part fullRendered = some before ∧
          addStatementListMappings renderer positions (path ++ [branch]) 0 line' stmts =
            some inner ∧ maps = inner ++ last ∧ ∀ mapping ∈ last, mapping.isEnd = true) := by
  simp only [addFunctionMappings, bind_eq_some] at recorded
  obtain ⟨part, rendered, recorded⟩ := recorded
  refine ⟨part, rendered, ?_⟩
  split at recorded
  next missing =>
    cases recorded
    exact .inl ⟨missing, rfl⟩
  next before found =>
    simp only [bind_eq_some] at recorded
    obtain ⟨inner, walked, recorded⟩ := recorded
    cases recorded
    refine .inr ⟨before, _, inner, _, found, walked, rfl, fun mapping mem => ?_⟩
    split at mem
    · obtain ⟨source, _, rfl⟩ := mem_map.mp mem
      rfl
    · cases mem

/-- What the call of an argument adds to its branch is the difference of two counts of lines. -/
lemma call_lines {part before : Bytes}
    (there : args[branch]? = some (.functionExpression params hasDotDotDot stmts))
    (full : renderer.renderSourceMapStatement (.callStatement (.callExpression expression args)) =
      some fullRendered)
    (rendered : renderer.renderFunction (.functionExpression params hasDotDotDot stmts) = some part)
    (found : cutBefore part fullRendered = some before) :
    branchStatements branch (.callStatement (.callExpression expression args)) = stmts ∧
      (extraLines renderer branch (.callStatement (.callExpression expression args)) = 0 ↔
        FirstOccursBehind (argumentBreaks renderer.env.anonymous expression args branch) part
          fullRendered) := by
  refine ⟨by simp [branchStatements, there], ?_⟩
  rw [firstOccursBehind_iff found]
  simp only [extraLines, foundBreaks, there, full, rendered, found, Option.map_some,
    Option.getD_some]
  omega

section Argument

variable (list : ListExact renderer positions stmts)
  (there : args[branch]? = some (.functionExpression params hasDotDotDot stmts))
  (full : renderer.renderSourceMapStatement (.callStatement (.callExpression expression args)) =
    some fullRendered)
  (recorded : addFunctionMappings renderer positions path line fullRendered branch
    (.functionExpression params hasDotDotDot stmts) = some maps)
include list there full recorded

lemma argument_kept (keeps : ArgumentKeepsLines renderer (some fullRendered)
      (argumentBreaks renderer.env.anonymous expression args branch)
      (.functionExpression params hasDotDotDot stmts)) :
    Records path line (StraightInside renderer (.callStatement (.callExpression expression args)))
      maps := by
  obtain ⟨part, rendered, ⟨_, rfl⟩ | ⟨before, _, inner, last, found, walked, rfl, ends⟩⟩ :=
    addFunctionMappings_function recorded
  · exact records_nil
  obtain ⟨branches, straight⟩ := call_lines there full rendered found
  obtain ⟨⟨behind, rfl⟩, _⟩ := cutBefore_spec found
  rw [ArgumentKeepsLines] at keeps
  obtain ⟨below, keeps⟩ := keeps part rendered _ rfl ⟨before, behind, rfl⟩
  refine Records.append (@Records.inside _ _ _ _ branch _ ?_) fun mapping mem isStart =>
    absurd (ends mapping mem) (by rw [isStart]; decide)
  rw [branches]
  exact list.branch_kept walked (below.imp_right straight.mpr) keeps

lemma argument_keeps (everywhere : ∀ path, (positions.start path).isSome)
    (straight : AllStraight renderer path branch
      (extraLines renderer branch (.callStatement (.callExpression expression args)))
      (branchStatements branch (.callStatement (.callExpression expression args))) maps) :
    ArgumentKeepsLines renderer (some fullRendered)
      (argumentBreaks renderer.env.anonymous expression args branch)
      (.functionExpression params hasDotDotDot stmts) := by
  rw [ArgumentKeepsLines]
  intro part rendered text isFull occurs
  cases isFull
  obtain ⟨_, rendered', ⟨missing, _⟩ | ⟨before, _, inner, last, found, walked, rfl, _⟩⟩ :=
    addFunctionMappings_function recorded <;> cases rendered.symm.trans rendered'
  · exact absurd occurs (not_infix_of_cutBefore missing)
  obtain ⟨branches, straightIff⟩ := call_lines there full rendered found
  have along := straight.mono fun mapping => mem_append_left last
  rw [branches] at along
  exact (list.branch_keeps walked everywhere along).imp_left (Or.imp_right straightIff.mp)

end Argument

lemma innerExact_call (functions : ∀ params hasDotDotDot stmts,
      .functionExpression params hasDotDotDot stmts ∈ args → ListExact renderer positions stmts) :
    InnerExact renderer positions (.callStatement (.callExpression expression args)) := by
  constructor
  · intro line path maps recorded keeps
    simp only [addInnerMappings, addCallMappings, bind_eq_some] at recorded
    obtain ⟨fullRendered, full, recorded⟩ := recorded
    rw [InnerKeepsLines, CallKeepsLines, argumentsKeepLines_iff, full] at keeps
    refine records_arguments (fun branch argument maps there recorded => ?_) recorded
    have keeps := keeps branch argument there
    rw [Nat.zero_add] at recorded keeps
    cases argument with
    | functionExpression params hasDotDotDot stmts =>
      have list := functions _ _ _ (mem_of_getElem? there)
      exact argument_kept list there full recorded keeps
    | _ =>
      cases recorded
      exact records_nil
  · intro everywhere line path maps recorded straight
    simp only [addInnerMappings, addCallMappings, bind_eq_some] at recorded
    obtain ⟨fullRendered, full, recorded⟩ := recorded
    rw [InnerKeepsLines, CallKeepsLines, argumentsKeepLines_iff, full]
    intro branch argument there
    obtain ⟨_, recorded, within⟩ := addArgumentMappings_mem there recorded
    rw [Nat.zero_add] at recorded ⊢
    cases argument with
    | functionExpression params hasDotDotDot stmts =>
      have list := functions _ _ _ (mem_of_getElem? there)
      exact argument_keeps list there full recorded everywhere ((straight branch).mono within)
    | _ => trivial

end Call

mutual

theorem listExact (stmts : List Node) : ListExact renderer positions stmts :=
  match stmts with
  | [] => {
      kept := fun recorded _ => by
        cases recorded
        exact records_nil
      keeps := fun _ _ _ _ _ _ _ => trivial }
  | stmt :: stmts => listExact_cons (innerExact stmt) (listExact stmts)

theorem innerExact (stmt : Node) : InnerExact renderer positions stmt := by
  cases stmt with
  | doStatement stmts | whileStatement _ stmts | repeatStatement _ stmts
  | numericForStatement _ _ _ _ stmts | forStatement _ _ stmts
  | functionDeclaration _ _ _ _ stmts | methodDeclaration _ _ _ _ stmts =>
    exact innerExact_block rfl (listExact stmts)
  | ifStatement _ stmts elseBody =>
    exact innerExact_if (listExact stmts) (elseExact elseBody)
  | callStatement expression =>
    cases expression with
    | callExpression _ args => exact innerExact_call (functionsExact args)
    | _ =>
      refine ⟨fun recorded _ => ?_, fun _ _ _ _ _ _ => trivial⟩
      cases recorded
      exact records_nil
  | _ =>
    refine ⟨fun recorded _ => ?_, fun _ _ _ _ _ _ => trivial⟩
    cases recorded
    exact records_nil

theorem elseExact (elseBody : Node) : ElseExact renderer positions elseBody := by
  cases elseBody with
  | elseList stmts => exact elseExact_list (listExact stmts)
  | ifStatement _ stmts elseBody => exact elseExact_if (listExact stmts) (elseExact elseBody)
  | _ =>
    refine ⟨fun recorded _ => ?_, fun _ _ _ _ _ _ _ => trivial⟩
    cases recorded
    exact records_nil

theorem functionsExact (args : List Node) (params : List Node) (hasDotDotDot : Bool)
    (stmts : List Node) (mem : .functionExpression params hasDotDotDot stmts ∈ args) :
    ListExact renderer positions stmts :=
  match args with
  | [] => by cases mem
  | argument :: args => by
    obtain same | mem := mem_cons.mp mem
    · exact functionExact argument params hasDotDotDot stmts same.symm
    · exact functionsExact args params hasDotDotDot stmts mem

theorem functionExact (argument : Node) (params : List Node) (hasDotDotDot : Bool)
    (stmts : List Node) (function : argument = .functionExpression params hasDotDotDot stmts) :
    ListExact renderer positions stmts := by
  cases argument with
  | functionExpression _ _ inner =>
    have exact' : ListExact renderer positions inner := listExact inner
    cases function
    exact exact'
  | _ => cases function

end

end Walk

/-- The recorded lines are the lines of their statements if every nested list begins where the
walk takes it to begin, and where all statements are recorded, only then. -/
theorem renderSourceMap_beginsOn_iff {renderer : Renderer} {positions : Positions}
    {stmts : List Node} {text : Bytes} {maps : List Mapping}
    (rendered : renderer.renderAST stmts = some text)
    (recorded : renderSourceMap renderer positions stmts = some maps) :
    (KeepsLines renderer stmts → ∀ mapping ∈ maps, mapping.isEnd = false →
      BeginsOn renderer stmts mapping.path mapping.generatedLine) ∧
    ((∀ path, (positions.start path).isSome) → (∀ mapping ∈ maps, mapping.isEnd = false →
      BeginsOn renderer stmts mapping.path mapping.generatedLine) → KeepsLines renderer stmts) := by
  constructor
  · intro keeps mapping mem isStart
    rw [beginsOn_iff_displacement rendered recorded mem isStart]
    obtain ⟨_, there, offset, tail, rfl, straight⟩ :=
      (listExact stmts).kept recorded keeps mapping mem isStart
    rwa [there, nil_append, Nat.zero_add]
  · intro everywhere begins
    apply (listExact stmts).keeps everywhere recorded
    intro mapping mem isStart offset tail there
    have straight := (beginsOn_iff_displacement rendered recorded mem isStart).mp
      (begins mapping mem isStart)
    rwa [there, nil_append, Nat.zero_add] at straight

def plain : Renderer := ⟨⟨fun _ => [], id, fun _ => false⟩, fun _ _ => [], fun _ _ => []⟩

def everywhere : Positions := ⟨fun _ => some ⟨1, 1⟩, fun _ => none⟩

def callF : Node := .callStatement (.callExpression (.identifier (str "f")) [])

def doBlock : List Node := [.doStatement [callF]]

lemma doBlock_recorded : renderSourceMap plain everywhere doBlock =
    some [⟨[0], false, 0, ⟨1, 1⟩⟩, ⟨[0, 0, 0], false, 1, ⟨1, 1⟩⟩, ⟨[0], true, 2, ⟨1, 1⟩⟩] := by
  rfl

theorem doBlock_beginsOn : BeginsOn plain doBlock [0, 0, 0] 1 := by
  have rendered : plain.renderAST doBlock = some (str "do\n\tf()\nend\n") := by decide
  have keeps : KeepsLines plain doBlock :=
    ⟨⟨.inr rfl, ⟨trivial, trivial⟩⟩, trivial⟩
  exact (renderSourceMap_beginsOn_iff rendered doBlock_recorded).1 keeps _ (.tail _ (.head _)) rfl

def wideLoop : List Node := [.whileStatement (.stringLiteral (str "a\nb")) [callF]]

/-- The call in the loop is recorded a line above its text. -/
theorem wideLoop_displaced : ∃ maps, renderSourceMap plain everywhere wideLoop = some maps ∧
      ∃ mapping ∈ maps, mapping.isEnd = false ∧
        ¬BeginsOn plain wideLoop mapping.path mapping.generatedLine := by
  have recorded : renderSourceMap plain everywhere wideLoop =
      some [⟨[0], false, 0, ⟨1, 1⟩⟩, ⟨[0, 0, 0], false, 1, ⟨1, 1⟩⟩, ⟨[0], true, 3, ⟨1, 1⟩⟩] := by
    rfl
  refine ⟨_, recorded, _, .tail _ (.head _), rfl, ?_⟩
  rintro ⟨_, before, own, _, _, found, _, line⟩
  have found' : locate (plain.solved wideLoop) 0 false wideLoop [0, 0, 0] =
      some (str "while [[a\nb]] do\n", str "\tf()\n") := by decide
  rw [found'] at found
  cases found
  exact absurd line (by decide)

end Rotor.Transformer.SourceLines
