import Mathlib.Data.List.Basic

/-!
Chains of `&&`, `||` and `??`.

Neighbouring operands without statements are joined by `and` or `or` where Luau decides on them as
TypeScript does. Otherwise a temporary holds the value so far, and what follows goes into the `if`
of its test.
-/

namespace Rotor.Transformer.Logical

/-- The kinds of values that tests tell apart; `nil` is `undefined` and `null`. -/
inductive Kind where
  | nil
  | false_
  | zero
  | nan
  | emptyString
  | other
  deriving DecidableEq

structure Value (X : Type) where
  kind : Kind
  content : X

/-- What `IsPossiblyType` says of a static type. -/
structure StaticType where
  zero : Bool
  nan : Bool
  emptyString : Bool

/-- A value of the type can be of the kind; a type with `0` need not tell of `NaN`. -/
def StaticType.admits (type : StaticType) : Kind → Bool
  | .zero => type.zero
  | .nan => type.zero || type.nan
  | .emptyString => type.emptyString
  | _ => true

def StaticType.willCreateTruthinessChecks (type : StaticType) : Bool :=
  type.zero || type.nan || type.emptyString

inductive Operator where
  | and
  | or
  | coalesce
  deriving DecidableEq

def Operator.continues : Operator → Kind → Bool
  | and, kind => kind = .other
  | or, kind => kind ≠ .other
  | coalesce, kind => kind = .nil

inductive BinaryOperator where
  | and
  | or

def isTruthy (kind : Kind) : Bool := kind ≠ .nil && kind ≠ .false_

def BinaryOperator.continues : BinaryOperator → Kind → Bool
  | and, kind => isTruthy kind
  | or, kind => !isTruthy kind

/-- The checks on a temporary, joined by `and`. -/
def createTruthinessChecks (type : StaticType) (kind : Kind) : Bool :=
  (!type.zero || kind ≠ .zero) && (!(type.zero || type.nan) || kind ≠ .nan) &&
    (!type.emptyString || kind ≠ .emptyString) && isTruthy kind

def Operator.luaBinaryOperator : Operator → BinaryOperator
  | and => .and
  | or | coalesce => .or

def Operator.buildCondition (operator : Operator) (type : StaticType) (kind : Kind) : Bool :=
  match operator with
  | and => createTruthinessChecks type kind
  | or => !createTruthinessChecks type kind
  | coalesce => kind = .nil

section Chains

variable {W X : Type}

inductive LuauExpression (W X : Type) where
  | operand (run : W → Value X × W)
  | binary (left : LuauExpression W X) (operator : BinaryOperator) (right : LuauExpression W X)

def LuauExpression.run : LuauExpression W X → W → Value X × W
  | operand run, world => run world
  | binary left operator right, world =>
    let result := left.run world
    if operator.continues result.1.kind then right.run result.2 else result

/-- An expression and the statements captured before it: none, those of an operand, or the
assignments to `_condition` with the `if` behind all but the last. -/
inductive Captured (W X : Type) where
  | expression (expression : LuauExpression W X)
  | prereqs (statements : W → W) (expression : W → Value X × W)
  | assign (value : Captured W X)
  | ifThen (value : Captured W X) (condition : Kind → Bool) (inner : Captured W X)

def Captured.run : Captured W X → W → Value X × W
  | expression result, world => result.run world
  | prereqs statements result, world => result (statements world)
  | assign value, world => value.run world
  | ifThen value condition inner, world =>
    let result := value.run world
    if condition result.1.kind then inner.run result.2 else result

structure ChainItem (W X : Type) where
  type : StaticType
  captured : Captured W X
  inline : Bool

/-- An operand, or an operator with what the type says of `false`. -/
inductive Node (W X : Type) where
  | operand (type : StaticType) (captured : Captured W X)
  | parenthesized (node : Node W X)
  | binary (type : StaticType) (possiblyFalse : Bool) (left : Node W X) (operator : Operator)
      (right : Node W X)

def buildLogicalChainPrereqs (operator : Operator) (item : ChainItem W X) :
    List (ChainItem W X) → Captured W X
  | [] => .assign item.captured
  | next :: chain => .ifThen item.captured (operator.buildCondition item.type)
      (buildLogicalChainPrereqs operator next chain)

/-- An inline item takes in the inline items behind it. -/
def mergeInlineExpressions (operator : BinaryOperator) :
    ChainItem W X → List (ChainItem W X) → ChainItem W X × List (ChainItem W X)
  | ⟨type, .expression left, true⟩, ⟨_, .expression right, true⟩ :: chain =>
    mergeInlineExpressions operator ⟨type, .expression (.binary left operator right), true⟩ chain
  | item, next :: chain =>
    let (next, chain) := mergeInlineExpressions operator next chain
    (item, next :: chain)
  | item, [] => (item, [])

/-- With inlining, an item without statements may stand in an expression. -/
def ChainItem.mark (item : ChainItem W X) (enableInlining isLast : Bool) : ChainItem W X :=
  let willWrap := !isLast && item.type.willCreateTruthinessChecks
  { item with inline := enableInlining && (item.captured matches .expression _ && !willWrap) }

def markAll (enableInlining : Bool) : List (ChainItem W X) → List (ChainItem W X)
  | [] => []
  | item :: chain => item.mark enableInlining chain.isEmpty :: markAll enableInlining chain

variable (operator : Operator) (item : ChainItem W X) (chain : List (ChainItem W X))

def buildInlineConditionExpression : Captured W X :=
  let (item, chain) := mergeInlineExpressions operator.luaBinaryOperator
    (item.mark true chain.isEmpty) (markAll true chain)
  if chain.isEmpty && item.inline then item.captured
  else buildLogicalChainPrereqs operator item chain

def transformLogical (possiblyFalse : Bool) : Captured W X :=
  match operator, possiblyFalse with
  | .coalesce, true => buildLogicalChainPrereqs .coalesce (item.mark false chain.isEmpty)
      (markAll false chain)
  | _, _ => buildInlineConditionExpression operator item chain

/-- The chain of the operator that the node is; another node is a single item. -/
def getLogicalChain (operator : Option Operator) : Node W X → ChainItem W X × List (ChainItem W X)
  | .operand type captured => (⟨type, captured, false⟩, [])
  | .parenthesized node => ((getLogicalChain none node).1, [])
  | .binary type possiblyFalse left own right =>
    let (item, others) := getLogicalChain (some own) left
    let chain := others ++ [(getLogicalChain none right).1]
    if operator = some own then (item, chain)
    else (⟨type, transformLogical own item chain possiblyFalse, false⟩, [])

def transformExpression (node : Node W X) : Captured W X := (getLogicalChain none node).1.captured

def Node.evaluate : Node W X → W → Value X × W
  | operand _ captured, world => captured.run world
  | parenthesized node, world => node.evaluate world
  | binary _ _ left operator right, world =>
    let result := left.evaluate world
    if operator.continues result.1.kind then right.evaluate result.2 else result

/-- The types tell what the values of the operands that are reached can be. -/
def Node.Sound : Node W X → W → Prop
  | operand type captured, world => type.admits (captured.run world).1.kind
  | parenthesized node, world => node.Sound world
  | binary type possiblyFalse left operator right, world =>
    let result := left.evaluate world
    let kind := (evaluate (binary type possiblyFalse left operator right) world).1.kind
    left.Sound world ∧ (operator.continues result.1.kind → right.Sound result.2) ∧
      type.admits kind ∧ (possiblyFalse = false → kind ≠ .false_)

/-! ### Conditions and operators agree -/

variable {operator item chain} {type : StaticType} {kind : Kind} {world : W}

lemma buildCondition_eq (admitted : type.admits kind) :
    operator.buildCondition type kind = operator.continues kind := by
  cases operator <;> cases kind <;> cases zero : type.zero <;>
    simp_all [Operator.buildCondition, Operator.continues, createTruthinessChecks, isTruthy,
      StaticType.admits]

lemma luaBinaryOperator_continues (plain : type.willCreateTruthinessChecks = false)
    (admitted : type.admits kind) (safe : operator = .coalesce → kind ≠ .false_) :
    operator.luaBinaryOperator.continues kind = operator.continues kind := by
  cases operator <;> cases kind <;>
    simp_all [Operator.luaBinaryOperator, Operator.continues, BinaryOperator.continues, isTruthy,
      StaticType.admits, StaticType.willCreateTruthinessChecks]

lemma admits_of_plain {other : StaticType} (plain : other.willCreateTruthinessChecks = false)
    (admitted : other.admits kind) : type.admits kind := by
  cases kind <;> simp_all [StaticType.admits, StaticType.willCreateTruthinessChecks]

/-! ### A chain, item by item -/

def reach (operator : Operator) (result : Value X × W) (next : ChainItem W X) : Value X × W :=
  if operator.continues result.1.kind then next.captured.run result.2 else result

lemma foldl_reach_stop {result : Value X × W} (stops : ¬operator.continues result.1.kind) :
    chain.foldl (reach operator) result = result := by
  induction chain with
  | nil => rfl
  | cons next chain ih => rwa [List.foldl_cons, reach, if_neg stops]

def ChainItem.Sound (item : ChainItem W X) (world : W) : Prop :=
  item.type.admits (item.captured.run world).1.kind

/-- The items that are reached are sound. -/
def Sounds (operator : Operator) (item : ChainItem W X) : List (ChainItem W X) → W → Prop
  | [], world => item.Sound world
  | next :: chain, world =>
    let result := item.captured.run world
    item.Sound world ∧ (operator.continues result.1.kind → Sounds operator next chain result.2)

/-- The tests between the items that are reached decide as TypeScript does. -/
def Ready (operator : Operator) (item : ChainItem W X) : List (ChainItem W X) → W → Prop
  | [], _ => True
  | next :: chain, world =>
    let result := item.captured.run world
    item.Sound world ∧ (item.inline → item.type.willCreateTruthinessChecks = false) ∧
      (operator.continues result.1.kind → Ready operator next chain result.2)

lemma sounds_append {last : ChainItem W X} (sounds : Sounds operator item chain world)
    (reached : let result := chain.foldl (reach operator) (item.captured.run world)
      operator.continues result.1.kind → last.Sound result.2) :
    Sounds operator item (chain ++ [last]) world := by
  induction chain generalizing item world with
  | nil => exact ⟨sounds, reached⟩
  | cons next chain ih =>
    refine ⟨sounds.1, fun continues => ih (sounds.2 continues) ?_⟩
    rwa [List.foldl_cons, reach, if_pos continues] at reached

lemma buildLogicalChainPrereqs_run (ready : Ready operator item chain world) :
    (buildLogicalChainPrereqs operator item chain).run world =
      chain.foldl (reach operator) (item.captured.run world) := by
  induction chain generalizing item world with
  | nil => rfl
  | cons next chain ih =>
    rw [buildLogicalChainPrereqs, Captured.run, buildCondition_eq ready.1, List.foldl_cons, reach]
    split
    · next continues => exact ih (ready.2.2 continues)
    · next stops => rw [foldl_reach_stop stops]

lemma mergeInlineExpressions_run (operator : Operator) (item : ChainItem W X)
    (chain : List (ChainItem W X)) :
    ∀ world, Ready operator item chain world → (operator = .coalesce →
      (chain.foldl (reach operator) (item.captured.run world)).1.kind ≠ .false_) →
      let merged := mergeInlineExpressions operator.luaBinaryOperator item chain
      Ready operator merged.1 merged.2 world ∧
        merged.2.foldl (reach operator) (merged.1.captured.run world) =
          chain.foldl (reach operator) (item.captured.run world) := by
  fun_induction mergeInlineExpressions with
  | case1 type left other right chain ih =>
    rintro world ⟨sound, plain, ready⟩ safe
    -- A `false` would be the value of the whole chain.
    have falsy : operator = .coalesce → (left.run world).1.kind ≠ .false_ := by
      intro coalesce isFalse
      refine safe coalesce ?_
      rwa [foldl_reach_stop (by simp [coalesce, Captured.run, isFalse, Operator.continues])]
    have same : Captured.run (.expression (.binary left operator.luaBinaryOperator right)) world =
        reach operator (left.run world) ⟨other, .expression right, true⟩ := by
      rw [Captured.run, LuauExpression.run, show _ = operator.continues (left.run world).1.kind from
        luaBinaryOperator_continues (plain rfl) sound falsy]
      rfl
    have joined : Ready operator
        ⟨type, .expression (.binary left operator.luaBinaryOperator right), true⟩ chain world := by
      cases chain with
      | nil => trivial
      | cons =>
        rw [Ready, ChainItem.Sound, same, reach]
        split
        · next continues =>
          obtain ⟨sound, plain', ready⟩ := ready continues
          exact ⟨admits_of_plain (plain' rfl) sound, plain, ready⟩
        · next stops => exact ⟨sound, plain, fun continues => absurd continues stops⟩
    obtain ⟨ready, run⟩ := ih world joined (by rwa [same])
    exact ⟨ready, by rw [run, same]; rfl⟩
  | case2 item next chain _ next' chain' merged ih =>
    rintro world ⟨sound, plain, ready⟩ safe
    rw [merged] at ih
    rw [List.foldl_cons, reach] at safe
    dsimp only
    rw [Ready, List.foldl_cons, List.foldl_cons, reach, reach]
    split
    · next continues =>
      rw [if_pos continues] at safe
      obtain ⟨ready', run⟩ := ih _ (ready continues) safe
      exact ⟨⟨sound, plain, fun _ => ready'⟩, run⟩
    · next stops =>
      refine ⟨⟨sound, plain, fun continues => absurd continues stops⟩, ?_⟩
      rw [foldl_reach_stop stops, foldl_reach_stop stops]
  | case3 item => exact fun _ _ _ => ⟨trivial, rfl⟩

lemma mark_ready (enableInlining : Bool) (sounds : Sounds operator item chain world) :
    Ready operator (item.mark enableInlining chain.isEmpty) (markAll enableInlining chain)
      world := by
  induction chain generalizing item world with
  | nil => trivial
  | cons next chain ih =>
    refine ⟨sounds.1, ?_, fun continues => ih (sounds.2 continues)⟩
    simp +contextual [ChainItem.mark]

lemma markAll_foldl (enableInlining : Bool) (result : Value X × W) :
    (markAll enableInlining chain).foldl (reach operator) result =
      chain.foldl (reach operator) result := by
  induction chain generalizing result with
  | nil => rfl
  | cons next chain ih => exact ih _

lemma transformLogical_run {possiblyFalse : Bool} (sounds : Sounds operator item chain world)
    (safe : possiblyFalse = false →
      (chain.foldl (reach operator) (item.captured.run world)).1.kind ≠ .false_) :
    (transformLogical operator item chain possiblyFalse).run world =
      chain.foldl (reach operator) (item.captured.run world) := by
  unfold transformLogical
  split
  · rw [buildLogicalChainPrereqs_run (mark_ready false sounds), markAll_foldl]
    rfl
  · next notBoth =>
    obtain ⟨ready, same⟩ := mergeInlineExpressions_run operator _ _ world (mark_ready true sounds)
      (by
        rw [markAll_foldl]
        exact fun coalesce => safe (by simpa [coalesce] using notBoth))
    rw [markAll_foldl] at same
    rw [← show _ = chain.foldl (reach operator) (item.captured.run world) from same]
    unfold buildInlineConditionExpression
    dsimp only
    split
    · next single => simp_all
    · exact buildLogicalChainPrereqs_run ready

lemma getLogicalChain_none (node : Node W X) : (getLogicalChain none node).2 = [] := by
  cases node <;> simp [getLogicalChain]

lemma getLogicalChain_run {node : Node W X} (sound : node.Sound world) (own : Option Operator) :
    let chain := getLogicalChain own node
    Sounds (own.getD .and) chain.1 chain.2 world ∧
      chain.2.foldl (reach (own.getD .and)) (chain.1.captured.run world) = node.evaluate world := by
  induction node generalizing own world with
  | operand type captured => exact ⟨sound, rfl⟩
  | parenthesized node ih =>
    obtain ⟨sounds, run⟩ := ih sound none
    rw [getLogicalChain_none] at sounds run
    exact ⟨sounds, run⟩
  | binary type possiblyFalse left operator right ihLeft ihRight =>
    obtain ⟨soundLeft, soundRight, admitted, certain⟩ := sound
    obtain ⟨lefts, leftRun⟩ := ihLeft soundLeft (some operator)
    have rights (continues : operator.continues (left.evaluate world).1.kind) :=
      ihRight (soundRight continues) none
    simp only [getLogicalChain_none] at rights
    rw [getLogicalChain]
    generalize getLogicalChain (some operator) left = chain at lefts leftRun ⊢
    generalize (getLogicalChain none right).1 = last at rights ⊢
    rw [Option.getD_some] at lefts leftRun
    have sounds : Sounds operator chain.1 (chain.2 ++ [last]) world :=
      sounds_append lefts (by rw [leftRun]; exact fun continues => (rights continues).1)
    have run : (chain.2 ++ [last]).foldl (reach operator) (chain.1.captured.run world) =
        (Node.binary type possiblyFalse left operator right).evaluate world := by
      rw [List.foldl_append, leftRun, List.foldl_cons, reach, Node.evaluate]
      split
      · next continues => exact (rights continues).2
      · rfl
    dsimp only
    split
    · next same =>
      subst same
      exact ⟨sounds, run⟩
    · have single := transformLogical_run sounds (by rwa [run])
      rw [run] at single
      exact ⟨by rwa [Sounds, ChainItem.Sound, single], single⟩

/-- A chain of chains is evaluated as in TypeScript: the same operands in the same order, and the
same value. -/
theorem transformExpression_run {node : Node W X} {world : W} (sound : node.Sound world) :
    (transformExpression node).run world = node.evaluate world := by
  have run := (getLogicalChain_run sound none).2
  rwa [getLogicalChain_none] at run

/-- `n !== 0 && n` for an `n` of type `0 | 1`; the second operand is of type `1`, which is wrong
where it is not reached. -/
def nonzero : Node Kind Unit :=
  .binary ⟨false, false, false⟩ true
    (.operand ⟨false, false, false⟩ (.expression (.operand fun n =>
      (⟨if n = .zero then .false_ else .other, ()⟩, n)))) .and
    (.operand ⟨false, false, false⟩ (.expression (.operand fun n => (⟨n, ()⟩, n))))

theorem nonzero_run : nonzero.Sound .zero ∧
    (transformExpression nonzero).run .zero = nonzero.evaluate .zero :=
  have sound : nonzero.Sound .zero :=
    ⟨rfl, fun reached => absurd reached (by decide), rfl, fun certain => absurd certain (by decide)⟩
  ⟨sound, transformExpression_run sound⟩

end Chains

end Rotor.Transformer.Logical
