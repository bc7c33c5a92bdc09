import Mathlib.Tactic.Common

/-!
Operator expressions read by precedence.

A grammar gives each binary operator the strength with which it takes the operand on
its left and the limit under which the operand on its right is read.  An operator is
taken into an operand that is open on the right when it is stronger than the limit
there.  `Grammatical` is the resulting unambiguous grammar of trees, and `read` is a
reader for it that consumes one token in each step.
-/

namespace Rotor.Lib.Precedence

open List

/-- The tokens of expressions over atoms `A` and operators `O`. -/
inductive Tok (A O : Type) where
  | atom (atom : A)
  | op (op : O)
  | lparen
  | rparen
  | ifTok
  | thenTok
  | elseTok
  deriving DecidableEq

inductive Tree (A O : Type) where
  | atom (atom : A)
  | paren (inner : Tree A O)
  | binary (left : Tree A O) (op : O) (right : Tree A O)
  | unary (op : O) (operand : Tree A O)
  | ifElse (cond value alt : Tree A O)
  deriving DecidableEq

structure Grammar (O : Type) where
  isBinary : O → Bool
  isUnary : O → Bool
  /-- The strength with which a binary operator takes its left operand. -/
  left : O → Nat
  /-- The limit under which its right operand is read. -/
  right : O → Nat
  /-- The limit under which the operand of a unary operator is read. -/
  unary : O → Nat
  left_pos : ∀ op, isBinary op = true → 0 < left op

variable {A O : Type}

variable {tree : Tree A O} {strength : Nat} {g : Grammar O} {tok : Tok A O} {toks : List (Tok A O)}

namespace Tree

def flatten : Tree A O → List (Tok A O)
  | .atom a => [.atom a]
  | .paren inner => .lparen :: inner.flatten ++ [.rparen]
  | .binary left op right => left.flatten ++ .op op :: right.flatten
  | .unary op operand => .op op :: operand.flatten
  | .ifElse cond value alt =>
    .ifTok :: cond.flatten ++ .thenTok :: value.flatten ++ .elseTok :: alt.flatten

def strip : Tree A O → Tree A O
  | .atom a => .atom a
  | .paren inner => inner.strip
  | .binary left op right => .binary left.strip op right.strip
  | .unary op operand => .unary op operand.strip
  | .ifElse cond value alt => .ifElse cond.strip value.strip alt.strip

def atoms : Tree A O → List A
  | .atom a => [a]
  | .paren inner => inner.atoms
  | .binary left _ right => left.atoms ++ right.atoms
  | .unary _ operand => operand.atoms
  | .ifElse cond value alt => cond.atoms ++ value.atoms ++ alt.atoms

lemma atoms_strip (tree : Tree A O) : tree.strip.atoms = tree.atoms := by
  induction tree with
  | atom => rfl
  | paren _ inner => exact inner
  | binary _ _ _ first second => rw [strip, atoms, atoms, first, second]
  | unary _ _ operand => exact operand
  | ifElse _ _ _ first second third => rw [strip, atoms, atoms, first, second, third]

lemma mem_flatten_of_mem_atoms {a : A} (mem : a ∈ tree.atoms) : .atom a ∈ tree.flatten := by
  induction tree with
  | atom b => simpa [flatten, atoms] using mem
  | paren _ inner => simp [flatten, inner mem]
  | binary _ _ _ first second =>
    rcases mem_append.mp mem with left | right
    · simp [flatten, first left]
    · simp [flatten, second right]
  | unary _ _ operand => simp [flatten, operand mem]
  | ifElse _ _ _ first second third =>
    rcases mem_append.mp mem with front | alt
    · rcases mem_append.mp front with cond | val
      · simp [flatten, first cond]
      · simp [flatten, second val]
    · simp [flatten, third alt]

def Closes (g : Grammar O) (strength : Nat) : Tree A O → Prop
  | .atom _ => True
  | .paren _ => True
  | .binary _ op right => strength ≤ g.right op ∧ right.Closes g strength
  | .unary op operand => strength ≤ g.unary op ∧ operand.Closes g strength
  | .ifElse _ _ alt => strength = 0 ∧ alt.Closes g strength

/-- The trees that are read under a limit. -/
def Grammatical (g : Grammar O) (limit : Nat) : Tree A O → Prop
  | .atom _ => True
  | .paren inner => inner.Grammatical g 0
  | .binary left op right =>
    g.isBinary op = true ∧ limit < g.left op ∧ left.Grammatical g limit ∧
      left.Closes g (g.left op) ∧ right.Grammatical g (g.right op)
  | .unary op operand => g.isUnary op = true ∧ operand.Grammatical g (g.unary op)
  | .ifElse cond value alt =>
    cond.Grammatical g 0 ∧ value.Grammatical g 0 ∧ alt.Grammatical g 0

lemma closes_zero (g : Grammar O) (tree : Tree A O) : tree.Closes g 0 := by
  induction tree with
  | atom | paren => trivial
  | binary _ op _ _ right => exact ⟨Nat.zero_le _, right⟩
  | unary op _ operand => exact ⟨Nat.zero_le _, operand⟩
  | ifElse _ _ _ _ _ alt => exact ⟨rfl, alt⟩

end Tree

/-! ### The reader -/

inductive Frame (A O : Type) where
  | paren
  | binary (left : Tree A O) (op : O)
  | unary (op : O)
  | cond
  | value (cond : Tree A O)
  | alt (cond value : Tree A O)

namespace Frame

/-- Whether the frame is complete before an operator of this strength. -/
def yields (g : Grammar O) (strength : Nat) : Frame A O → Bool
  | .binary _ op => strength ≤ g.right op
  | .unary op => strength ≤ g.unary op
  | .alt _ _ => strength = 0
  | .paren | .cond | .value _ => false

def plug (tree : Tree A O) : Frame A O → Tree A O
  | .binary left op => .binary left op tree
  | .unary op => .unary op tree
  | .alt test first => .ifElse test first tree
  | .paren | .cond | .value _ => tree

def limit (g : Grammar O) : Frame A O → Nat
  | .binary _ op => g.right op
  | .unary op => g.unary op
  | .paren | .cond | .value _ | .alt _ _ => 0

end Frame

/-- Complete the frames that end before an operator of this strength. -/
def reduce (g : Grammar O) (strength : Nat) (tree : Tree A O) :
    List (Frame A O) → Tree A O × List (Frame A O)
  | [] => (tree, [])
  | frame :: stack =>
    if frame.yields g strength then reduce g strength (frame.plug tree) stack
    else (tree, frame :: stack)

/-- The open frames, and the operand that was read last, if none is expected next. -/
abbrev State (A O : Type) := List (Frame A O) × Option (Tree A O)

def stepOperand (g : Grammar O) (stack : List (Frame A O)) : Tok A O → Option (State A O)
  | .atom a => some (stack, some (.atom a))
  | .op op => if g.isUnary op then some (.unary op :: stack, none) else none
  | .lparen => some (.paren :: stack, none)
  | .ifTok => some (.cond :: stack, none)
  | .rparen | .thenTok | .elseTok => none

def stepOperator (g : Grammar O) (stack : List (Frame A O)) (tree : Tree A O) :
    Tok A O → Option (State A O)
  | .op op =>
    if g.isBinary op then
      let (left, stack) := reduce g (g.left op) tree stack
      some (.binary left op :: stack, none)
    else none
  | .rparen =>
    match reduce g 0 tree stack with
    | (inner, .paren :: stack) => some (stack, some (.paren inner))
    | _ => none
  | .thenTok =>
    match reduce g 0 tree stack with
    | (cond, .cond :: stack) => some (.value cond :: stack, none)
    | _ => none
  | .elseTok =>
    match reduce g 0 tree stack with
    | (value, .value cond :: stack) => some (.alt cond value :: stack, none)
    | _ => none
  | .atom _ | .lparen | .ifTok => none

def step (g : Grammar O) : State A O → Tok A O → Option (State A O)
  | (stack, none), tok => stepOperand g stack tok
  | (stack, some tree), tok => stepOperator g stack tree tok

def run (g : Grammar O) (s : State A O) : List (Tok A O) → Option (State A O)
  | [] => some s
  | tok :: toks => (step g s tok).bind fun s => run g s toks

def read (g : Grammar O) (toks : List (Tok A O)) : Option (Tree A O) :=
  match run g ([], none) toks with
  | some (stack, some tree) =>
    match reduce g 0 tree stack with
    | (tree, []) => some tree
    | _ => none
  | _ => none

/-! ### Completeness -/

def openFrames : Tree A O → List (Frame A O)
  | .atom _ | .paren _ => []
  | .binary left op right => openFrames right ++ [.binary left op]
  | .unary op operand => openFrames operand ++ [.unary op]
  | .ifElse cond value alt => openFrames alt ++ [.alt cond value]

def lastOperand : Tree A O → Tree A O
  | .atom a => .atom a
  | .paren inner => .paren inner
  | .binary _ _ right => lastOperand right
  | .unary _ operand => lastOperand operand
  | .ifElse _ _ alt => lastOperand alt

lemma reduce_openFrames (g : Grammar O) (closes : tree.Closes g strength)
    (stack : List (Frame A O)) :
    reduce g strength (lastOperand tree) (openFrames tree ++ stack) =
      reduce g strength tree stack := by
  induction tree generalizing stack with
  | atom | paren => rfl
  | binary left op right _ ih =>
    have yields : (Frame.binary left op).yields g strength := by
      simpa [Frame.yields] using closes.1
    rw [openFrames, lastOperand, append_assoc, ih closes.2,
      singleton_append, reduce, if_pos yields, Frame.plug]
  | unary op operand ih =>
    have yields : (Frame.unary op : Frame A O).yields g strength := by
      simpa [Frame.yields] using closes.1
    rw [openFrames, lastOperand, append_assoc, ih closes.2,
      singleton_append, reduce, if_pos yields, Frame.plug]
  | ifElse cond val alt _ _ ih =>
    have yields : (Frame.alt cond val).yields g strength := by
      simpa [Frame.yields] using closes.1
    rw [openFrames, lastOperand, append_assoc, ih closes.2,
      singleton_append, reduce, if_pos yields, Frame.plug]

/-- The innermost frame, if any, is not completed by an operator above the limit. -/
def Blocks (g : Grammar O) (limit : Nat) (stack : List (Frame A O)) : Prop :=
  ∀ frame ∈ stack.head?, ∀ strength, limit < strength → frame.yields g strength = false

variable {stack : List (Frame A O)}

lemma reduce_blocked {limit : Nat} (blocks : Blocks g limit stack) (above : limit < strength)
    (tree : Tree A O) : reduce g strength tree stack = (tree, stack) := by
  cases stack with
  | nil => rfl
  | cons frame stack => simp [reduce, blocks frame rfl strength above]

lemma run_append (g : Grammar O) (s : State A O) (front back : List (Tok A O)) :
    run g s (front ++ back) = (run g s front).bind fun s => run g s back := by
  induction front generalizing s with
  | nil => rfl
  | cons tok toks ih =>
    simp only [cons_append, run, Option.bind_assoc]
    cases step g s tok with
    | none => rfl
    | some s => exact ih s

lemma run_flatten : ∀ {limit : Nat}
    (stack : List (Frame A O)), tree.Grammatical g limit → Blocks g limit stack →
    run g (stack, none) tree.flatten =
      some (openFrames tree ++ stack, some (lastOperand tree)) := by
  induction tree with
  | atom a => exact fun _ _ _ => rfl
  | paren inner ih =>
    intro limit stack grammatical _
    have read := ih (.paren :: stack) grammatical (by simp [Blocks, Frame.yields])
    have closed := reduce_openFrames g (Tree.closes_zero g inner) (.paren :: stack)
    simp [Tree.flatten, run, step, stepOperand, run_append, read, stepOperator, closed,
      reduce, Frame.yields, openFrames, lastOperand]
  | binary left op right readLeft readRight =>
    intro limit stack ⟨isBinary, above, grammaticalLeft, closes, grammaticalRight⟩ blocks
    have first := readLeft stack grammaticalLeft blocks
    have second := readRight (.binary left op :: stack) grammaticalRight
      (by simp [Blocks, Frame.yields])
    have closed := (reduce_openFrames g closes stack).trans (reduce_blocked blocks above left)
    simp [Tree.flatten, run, step, run_append, first, stepOperator, isBinary, closed, second,
      openFrames, lastOperand]
  | unary op operand ih =>
    intro limit stack ⟨isUnary, grammatical⟩ _
    have read := ih (.unary op :: stack) grammatical (by simp [Blocks, Frame.yields])
    simp [Tree.flatten, run, step, stepOperand, isUnary, read, openFrames, lastOperand]
  | ifElse cond val alt readCond readValue readAlt =>
    intro limit stack ⟨grammaticalCond, grammaticalValue, grammaticalAlt⟩ _
    have first := readCond (.cond :: stack) grammaticalCond (by simp [Blocks, Frame.yields])
    have second := readValue (.value cond :: stack) grammaticalValue
      (by simp [Blocks, Frame.yields])
    have third := readAlt (.alt cond val :: stack) grammaticalAlt
      (by simp [Blocks, Frame.yields]; omega)
    have closedCond := reduce_openFrames g (Tree.closes_zero g cond) (.cond :: stack)
    have closedValue := reduce_openFrames g (Tree.closes_zero g val) (.value cond :: stack)
    simp [Tree.flatten, run, step, stepOperand, run_append, first, stepOperator, closedCond,
      second, closedValue, third, reduce, Frame.yields, openFrames, lastOperand]

lemma read_flatten (grammatical : tree.Grammatical g 0) : read g tree.flatten = some tree := by
  have ran := run_flatten [] grammatical (by simp [Blocks])
  have closed := reduce_openFrames g (Tree.closes_zero g tree) []
  simp only [append_nil] at ran closed
  simp [read, ran, closed, reduce]

/-! ### Soundness -/

section Soundness

variable {g : Grammar O}

namespace Frame

def flatten : Frame A O → List (Tok A O)
  | .paren => [.lparen]
  | .binary left op => left.flatten ++ [.op op]
  | .unary op => [.op op]
  | .cond => [.ifTok]
  | .value test => .ifTok :: test.flatten ++ [.thenTok]
  | .alt test first => .ifTok :: test.flatten ++ .thenTok :: first.flatten ++ [.elseTok]

end Frame

def stackLimit (g : Grammar O) (stack : List (Frame A O)) : Nat :=
  (stack.head?.map (Frame.limit g)).getD 0

def flattenStack (stack : List (Frame A O)) : List (Tok A O) :=
  (stack.reverse.map Frame.flatten).flatten

lemma flattenStack_cons (frame : Frame A O) (stack : List (Frame A O)) :
    flattenStack (frame :: stack) = flattenStack stack ++ frame.flatten := by
  simp [flattenStack]

def Sound (g : Grammar O) : List (Frame A O) → Prop
  | [] => True
  | .paren :: stack => Sound g stack
  | .cond :: stack => Sound g stack
  | .unary op :: stack => g.isUnary op = true ∧ Sound g stack
  | .binary left op :: stack => g.isBinary op = true ∧ stackLimit g stack < g.left op ∧
      left.Grammatical g (stackLimit g stack) ∧ left.Closes g (g.left op) ∧ Sound g stack
  | .value test :: stack => test.Grammatical g 0 ∧ Sound g stack
  | .alt test first :: stack => test.Grammatical g 0 ∧ first.Grammatical g 0 ∧ Sound g stack

lemma Sound.tail {frame : Frame A O} (sound : Sound g (frame :: stack)) : Sound g stack := by
  cases frame with
  | paren | cond => exact sound
  | unary => exact sound.2
  | binary => exact sound.2.2.2.2
  | value => exact sound.2
  | alt => exact sound.2.2

lemma Sound.plug {frame : Frame A O} (sound : Sound g (frame :: stack))
    (yields : frame.yields g strength) (grammatical : tree.Grammatical g (frame.limit g))
    (closes : tree.Closes g strength) :
    (frame.plug tree).Grammatical g (stackLimit g stack) ∧ (frame.plug tree).Closes g strength ∧
      (frame.plug tree).flatten = frame.flatten ++ tree.flatten := by
  cases frame with
  | paren | cond => simp [Frame.yields] at yields
  | value => simp [Frame.yields] at yields
  | unary op =>
    have within : strength ≤ g.unary op := by simpa [Frame.yields] using yields
    exact ⟨⟨sound.1, grammatical⟩, ⟨within, closes⟩, rfl⟩
  | binary left op =>
    have within : strength ≤ g.right op := by simpa [Frame.yields] using yields
    obtain ⟨isBinary, above, grammaticalLeft, closesLeft, -⟩ := sound
    exact ⟨⟨isBinary, above, grammaticalLeft, closesLeft, grammatical⟩, ⟨within, closes⟩,
      by simp [Frame.plug, Frame.flatten, Tree.flatten]⟩
  | alt test first =>
    have within : strength = 0 := by simpa [Frame.yields] using yields
    exact ⟨⟨sound.1, sound.2.1, grammatical⟩, ⟨within, closes⟩,
      by simp [Frame.plug, Frame.flatten, Tree.flatten]⟩

/-- What `reduce` returns: a grammatical tree over the remaining frames, which the
operator does not complete, and the same tokens. -/
theorem reduce_sound : ∀ {tree : Tree A O},
    Sound g stack → tree.Grammatical g (stackLimit g stack) → tree.Closes g strength →
    ∃ whole rest, reduce g strength tree stack = (whole, rest) ∧ Sound g rest ∧
      whole.Grammatical g (stackLimit g rest) ∧ whole.Closes g strength ∧
      (0 < strength → stackLimit g rest < strength) ∧
      flattenStack rest ++ whole.flatten = flattenStack stack ++ tree.flatten := by
  induction stack with
  | nil =>
    intro tree sound grammatical closes
    exact ⟨tree, [], rfl, sound, grammatical, closes, id, rfl⟩
  | cons frame stack ih =>
    intro tree sound grammatical closes
    by_cases yields : frame.yields g strength
    · obtain ⟨grammatical', closes', flatten⟩ := sound.plug yields grammatical closes
      obtain ⟨whole, rest, reduced, facts⟩ := ih sound.tail grammatical' closes'
      refine ⟨whole, rest, ?_, ?_⟩
      · rw [reduce, if_pos yields, reduced]
      · rw [flattenStack_cons, append_assoc, ← flatten]
        exact facts
    · refine ⟨tree, frame :: stack, ?_, sound, grammatical, closes, ?_, rfl⟩
      · rw [reduce, if_neg yields]
      · intro positive
        cases frame with
        | paren | cond => exact positive
        | value | alt => exact positive
        | unary op => simpa [Frame.yields, stackLimit, Frame.limit] using yields
        | binary left op => simpa [Frame.yields, stackLimit, Frame.limit] using yields

def State.flatten : State A O → List (Tok A O)
  | (stack, none) => flattenStack stack
  | (stack, some tree) => flattenStack stack ++ tree.flatten

def State.Sound (g : Grammar O) (s : State A O) : Prop :=
  Precedence.Sound g s.1 ∧
    ∀ tree ∈ s.2, (∀ limit, tree.Grammatical g limit) ∧ ∀ strength, tree.Closes g strength

lemma stepOperand_sound {s : State A O} (sound : Sound g stack)
    (stepped : stepOperand g stack tok = some s) :
    State.Sound g s ∧ s.flatten = flattenStack stack ++ [tok] := by
  cases tok with
  | atom a =>
    obtain rfl : (stack, some (.atom a)) = s := by simpa [stepOperand] using stepped
    exact ⟨⟨sound, by simp [Tree.Grammatical, Tree.Closes]⟩, rfl⟩
  | op op =>
    obtain ⟨isUnary, rfl⟩ : g.isUnary op ∧ (.unary op :: stack, none) = s := by
      simpa [stepOperand] using stepped
    exact ⟨⟨⟨isUnary, sound⟩, by simp⟩, flattenStack_cons _ _⟩
  | lparen =>
    obtain rfl : (.paren :: stack, none) = s := by simpa [stepOperand] using stepped
    exact ⟨⟨sound, by simp⟩, flattenStack_cons _ _⟩
  | ifTok =>
    obtain rfl : (.cond :: stack, none) = s := by simpa [stepOperand] using stepped
    exact ⟨⟨sound, by simp⟩, flattenStack_cons _ _⟩
  | rparen | thenTok | elseTok => simp [stepOperand] at stepped

lemma stepOperator_sound {s : State A O} (sound : Sound g stack)
    (grammatical : ∀ limit, tree.Grammatical g limit) (closes : ∀ strength, tree.Closes g strength)
    (stepped : stepOperator g stack tree tok = some s) :
    State.Sound g s ∧ s.flatten = flattenStack stack ++ tree.flatten ++ [tok] := by
  have reduced (strength : Nat) := reduce_sound sound (grammatical _) (closes strength)
  cases tok with
  | op op =>
    obtain ⟨left, rest, eq, soundRest, grammaticalLeft, closesLeft, above, flatten⟩ :=
      reduced (g.left op)
    simp only [stepOperator, eq, Option.ite_none_right_eq_some, Option.some.injEq] at stepped
    obtain ⟨isBinary, rfl⟩ := stepped
    refine ⟨⟨⟨isBinary, above (g.left_pos op isBinary), grammaticalLeft, closesLeft,
      soundRest⟩, by simp⟩, ?_⟩
    rw [← flatten]
    simp [State.flatten, flattenStack_cons, Frame.flatten]
  | rparen =>
    obtain ⟨inner, rest, eq, soundRest, grammaticalInner, -, -, flatten⟩ := reduced 0
    rw [stepOperator, eq] at stepped
    split at stepped
    next _ stack' same =>
      obtain ⟨rfl, rfl⟩ := Prod.mk.inj same
      obtain rfl := Option.some.inj stepped
      refine ⟨⟨soundRest, ?_⟩, ?_⟩
      · have grammatical' : inner.Grammatical g 0 := grammaticalInner
        simpa [Tree.Grammatical, Tree.Closes] using grammatical'
      · rw [← flatten]
        simp [State.flatten, flattenStack_cons, Frame.flatten, Tree.flatten]
    next => simp at stepped
  | thenTok =>
    obtain ⟨test, rest, eq, soundRest, grammaticalTest, -, -, flatten⟩ := reduced 0
    rw [stepOperator, eq] at stepped
    split at stepped
    next _ stack' same =>
      obtain ⟨rfl, rfl⟩ := Prod.mk.inj same
      obtain rfl := Option.some.inj stepped
      refine ⟨⟨⟨grammaticalTest, soundRest⟩, by simp⟩, ?_⟩
      rw [← flatten]
      simp [State.flatten, flattenStack_cons, Frame.flatten]
    next => simp at stepped
  | elseTok =>
    obtain ⟨first, rest, eq, soundRest, grammaticalFirst, -, -, flatten⟩ := reduced 0
    rw [stepOperator, eq] at stepped
    split at stepped
    next _ test stack' same =>
      obtain ⟨rfl, rfl⟩ := Prod.mk.inj same
      obtain rfl := Option.some.inj stepped
      refine ⟨⟨⟨soundRest.1, grammaticalFirst, soundRest.2⟩, by simp⟩, ?_⟩
      rw [← flatten]
      simp [State.flatten, flattenStack_cons, Frame.flatten]
    next => simp at stepped
  | atom | lparen | ifTok => simp [stepOperator] at stepped

lemma run_sound : ∀ {s s' : State A O}, State.Sound g s →
    run g s toks = some s' → State.Sound g s' ∧ s'.flatten = s.flatten ++ toks := by
  induction toks with
  | nil =>
    intro s s' sound ran
    obtain rfl := Option.some.inj ran
    exact ⟨sound, (append_nil _).symm⟩
  | cons tok toks ih =>
    intro s s' sound ran
    obtain ⟨middle, stepped, ran⟩ := Option.bind_eq_some_iff.mp ran
    have one : State.Sound g middle ∧ middle.flatten = s.flatten ++ [tok] := by
      obtain ⟨stack, _ | tree⟩ := s
      · exact stepOperand_sound sound.1 stepped
      · obtain ⟨grammatical, closes⟩ := sound.2 tree rfl
        exact stepOperator_sound sound.1 grammatical closes stepped
    obtain ⟨sound', flatten⟩ := ih one.1 ran
    refine ⟨sound', ?_⟩
    rw [flatten, one.2, append_assoc, singleton_append]

lemma read_sound (res : read g toks = some tree) :
    tree.flatten = toks ∧ tree.Grammatical g 0 := by
  rw [read] at res
  split at res
  next stack last ran =>
    obtain ⟨sound, flatten⟩ := run_sound (show State.Sound g ([], none) from ⟨trivial, by simp⟩) ran
    obtain ⟨grammatical, closes⟩ := sound.2 last rfl
    obtain ⟨whole, rest, eq, -, grammaticalWhole, -, -, same⟩ :=
      reduce_sound sound.1 (grammatical _) (closes 0)
    rw [eq] at res
    split at res
    next _ empty =>
      obtain ⟨rfl, rfl⟩ := Prod.mk.inj empty
      obtain rfl := Option.some.inj res
      exact ⟨same.trans flatten, grammaticalWhole⟩
    next => simp at res
  next => simp at res

end Soundness

/-! ### Trees with the same tokens -/

def Tok.isParen : Tok A O → Bool
  | .lparen | .rparen => true
  | _ => false

def weight (toks : List (Tok A O)) : Nat := toks.countP fun tok => !tok.isParen

lemma weight_append (front back : List (Tok A O)) :
    weight (front ++ back) = weight front + weight back := countP_append

lemma weight_cons (tok : Tok A O) (toks : List (Tok A O)) :
    weight (tok :: toks) = (if tok.isParen then 0 else 1) + weight toks := by
  cases paren : tok.isParen with
  | true => simp [weight, paren]
  | false => simp [weight, paren, Nat.add_comm]

@[simp] lemma weight_nil : weight ([] : List (Tok A O)) = 0 := rfl

lemma weight_flatten (tree : Tree A O) : weight tree.flatten = weight tree.strip.flatten := by
  induction tree with
  | atom => rfl
  | paren inner ih =>
    simp [Tree.flatten, Tree.strip, weight_append, weight_cons, Tok.isParen, ih]
  | binary left op right first second =>
    simp [Tree.flatten, Tree.strip, weight_append, weight_cons, first, second]
  | unary op operand ih =>
    simp [Tree.flatten, Tree.strip, weight_cons, ih]
  | ifElse cond val alt first second third =>
    simp [Tree.flatten, Tree.strip, weight_append, weight_cons, first, second, third]

lemma weight_eq_of_strip {other : Tree A O} (same : tree.strip = other.strip) :
    weight tree.flatten = weight other.flatten := by
  rw [weight_flatten, same, ← weight_flatten]

/-- Two texts that are cut at a token behind equally many tokens are cut at the same
place. -/
theorem split_unique {front front' back back' : List (Tok A O)} {tok' : Tok A O}
    (same : front ++ tok :: back = front' ++ tok' :: back') (weights : weight front = weight front')
    (plain : tok.isParen = false) (plain' : tok'.isParen = false) :
    front = front' ∧ tok = tok' ∧ back = back' := by
  induction front generalizing front' with
  | nil =>
    cases front' with
    | nil => exact ⟨rfl, List.cons.inj same⟩
    | cons first front' =>
      obtain ⟨rfl, -⟩ := List.cons.inj same
      simp only [weight_nil, weight_cons, plain, Bool.false_eq_true, if_false] at weights
      omega
  | cons first front ih =>
    cases front' with
    | nil =>
      obtain ⟨rfl, -⟩ := List.cons.inj same
      simp [weight_cons, plain'] at weights
    | cons first' front' =>
      obtain ⟨rfl, tails⟩ := List.cons.inj same
      rw [weight_cons, weight_cons, Nat.add_left_cancel_iff] at weights
      obtain ⟨rfl, cut⟩ := ih tails weights
      exact ⟨rfl, cut⟩

/-- What stands behind the parenthesis that closes the last of so many open ones. -/
def behindClosing : Nat → List (Tok A O) → Option (List (Tok A O))
  | _, [] => none
  | depth, .lparen :: toks => behindClosing (depth + 1) toks
  | depth, .rparen :: toks => if depth ≤ 1 then some toks else behindClosing (depth - 1) toks
  | depth, _ :: toks => behindClosing depth toks

lemma behindClosing_flatten (tree : Tree A O) : ∀ (depth : Nat) (rest : List (Tok A O)),
    behindClosing (depth + 1) (tree.flatten ++ rest) = behindClosing (depth + 1) rest := by
  induction tree with
  | atom => exact fun _ _ => rfl
  | paren inner ih =>
    intro depth rest
    simp [Tree.flatten, behindClosing, ih]
  | binary left op right first second =>
    intro depth rest
    simp [Tree.flatten, behindClosing, first, second]
  | unary op operand ih =>
    intro depth rest
    simp [Tree.flatten, behindClosing, ih]
  | ifElse cond val alt first second third =>
    intro depth rest
    simp [Tree.flatten, behindClosing, first, second, third]

lemma behindClosing_head (starts : tree.flatten = .lparen :: toks) :
    ∃ between, ∀ rest, behindClosing 1 (toks ++ rest) = some (between ++ rest) := by
  induction tree generalizing toks with
  | atom | unary => simp [Tree.flatten] at starts
  | ifElse => simp [Tree.flatten] at starts
  | paren inner =>
    obtain rfl : inner.flatten ++ [.rparen] = toks := by simpa [Tree.flatten] using starts
    exact ⟨[], fun rest => by simp [behindClosing_flatten, behindClosing]⟩
  | binary left op right ih =>
    cases first : left.flatten with
    | nil => simp [Tree.flatten, first] at starts
    | cons tok more =>
      obtain ⟨rfl, rfl⟩ : tok = .lparen ∧ more ++ .op op :: right.flatten = toks := by
        simpa [Tree.flatten, first] using starts
      obtain ⟨between, closes⟩ := ih first
      refine ⟨between ++ .op op :: right.flatten, fun rest => ?_⟩
      rw [append_assoc, closes, append_assoc]

lemma binary_ne_paren (left : Tree A O) (op : O) (right inner : Tree A O) :
    (Tree.binary left op right).flatten ≠ (Tree.paren inner).flatten := by
  intro same
  have starts : (Tree.binary left op right).flatten = .lparen :: (inner.flatten ++ [.rparen]) :=
    same
  cases first : left.flatten with
  | nil => simp [Tree.flatten, first] at starts
  | cons tok more =>
    obtain ⟨rfl, rest⟩ : tok = .lparen ∧
        more ++ .op op :: right.flatten = inner.flatten ++ [.rparen] := by
      simpa [Tree.flatten, first] using starts
    obtain ⟨between, closes⟩ := behindClosing_head first
    have early := closes (.op op :: right.flatten)
    rw [rest, behindClosing_flatten] at early
    simp [behindClosing] at early

/-- A tree is determined by its tokens and by what it is without parentheses. -/
theorem eq_of_flatten_strip : ∀ {other : Tree A O},
    tree.flatten = other.flatten → tree.strip = other.strip → tree = other := by
  induction tree with
  | atom a =>
    intro other tokens same
    cases other with
    | atom b => simpa [Tree.strip] using same
    | paren => simp [Tree.flatten] at tokens
    | binary | unary | ifElse => simp [Tree.strip] at same
  | paren inner ih =>
    intro other tokens same
    cases other with
    | paren inner' =>
      have tokens' : inner.flatten = inner'.flatten := by
        simpa [Tree.flatten] using tokens
      rw [ih tokens' same]
    | binary left op right => exact absurd tokens.symm (binary_ne_paren _ _ _ _)
    | atom | unary | ifElse => simp [Tree.flatten] at tokens
  | binary left op right first second =>
    intro other tokens same
    cases other with
    | paren inner => exact absurd tokens (binary_ne_paren _ _ _ _)
    | binary left' op' right' =>
      obtain ⟨sameLeft, -, sameRight⟩ := Tree.binary.inj same
      obtain ⟨cutLeft, cutOp, cutRight⟩ := split_unique tokens (weight_eq_of_strip sameLeft) rfl rfl
      rw [first cutLeft sameLeft, Tok.op.inj cutOp, second cutRight sameRight]
    | atom | unary | ifElse => simp [Tree.strip] at same
  | unary op operand ih =>
    intro other tokens same
    cases other with
    | paren => simp [Tree.flatten] at tokens
    | unary op' operand' =>
      obtain ⟨rfl, sameOperand⟩ := Tree.unary.inj same
      rw [ih (List.cons.inj tokens).2 sameOperand]
    | atom | binary | ifElse => simp [Tree.strip] at same
  | ifElse cond val alt first second third =>
    intro other tokens same
    cases other with
    | paren => simp [Tree.flatten] at tokens
    | ifElse cond' val' alt' =>
      obtain ⟨sameCond, sameValue, sameAlt⟩ := Tree.ifElse.inj same
      have inner : cond.flatten ++ .thenTok :: (val.flatten ++ .elseTok :: alt.flatten) =
          cond'.flatten ++ .thenTok :: (val'.flatten ++ .elseTok :: alt'.flatten) := by
        simpa [Tree.flatten] using tokens
      obtain ⟨cutCond, -, behind⟩ := split_unique inner (weight_eq_of_strip sameCond) rfl rfl
      obtain ⟨cutValue, -, cutAlt⟩ := split_unique behind (weight_eq_of_strip sameValue) rfl rfl
      rw [first cutCond sameCond, second cutValue sameValue, third cutAlt sameAlt]
    | atom | binary | unary => simp [Tree.strip] at same

/-- The tokens of a tree are read as this tree up to parentheses exactly when it is
grammatical. -/
theorem read_strip_iff (tree : Tree A O) :
    (read g tree.flatten).map Tree.strip = some tree.strip ↔ tree.Grammatical g 0 := by
  constructor
  · intro res
    obtain ⟨other, readOther, same⟩ := Option.map_eq_some_iff.mp res
    obtain ⟨tokens, grammatical⟩ := read_sound readOther
    rwa [← eq_of_flatten_strip tokens same]
  · intro grammatical
    rw [read_flatten grammatical, Option.map_some]

end Rotor.Lib.Precedence
