import Rotor.Lib.StateOption
import Rotor.Luau.Cst.Nodes

/-!
The parser's cursor over the trivia-attached stream (`cst/cursor.go`).

The stream is never empty and its last reference is the only one of kind `eof`.
The model keeps the references that are still ahead and that last one apart, with
both facts as fields, in place of a slice and an index clamped at its end.
-/

namespace Rotor.Luau.Cst

open Luau.Lex Lib

/-- A parser or lexer diagnostic.  Its text can quote a token, so it is a byte
string. -/
structure Diagnostic where
  pos : Pos
  message : Bytes
  deriving DecidableEq

structure Cursor where
  toks : List TokenRef
  eof : TokenRef
  diags : List Diagnostic
  tokKinds : ∀ tok ∈ toks, tok.token.kind ≠ .eof
  eofKind : eof.token.kind = .eof

namespace Cursor

def peek (c : Cursor) : TokenRef := c.toks.headD c.eof

def peek2 (c : Cursor) : TokenRef := c.toks.tail.headD c.eof

def advance (c : Cursor) : Cursor :=
  { c with
    toks := c.toks.tail
    tokKinds := fun tok member => c.tokKinds tok (List.mem_of_mem_tail member) }

def report (c : Cursor) (message : Bytes) : Cursor :=
  { c with diags := c.diags ++ [⟨c.peek.token.start, message⟩] }

def atKind (kind : Kind) (c : Cursor) : Bool := c.peek.token.kind == kind

def atEnd (c : Cursor) : Bool := c.atKind .eof

def isSymbol (tok : Token) (text : String) : Bool := tok.kind == .symbol && tok.text == str text

def isKeyword (tok : Token) (text : String) : Bool := tok.kind == .name && tok.text == str text

def atSymbol (text : String) (c : Cursor) : Bool := isSymbol c.peek.token text

def atKeyword (text : String) (c : Cursor) : Bool := isKeyword c.peek.token text

end Cursor

/-- A parsing routine: it moves the cursor, and it fails only when the bound of a
recursion or of a loop is used up. -/
abbrev Parser (α : Type) : Type := StateT Cursor Option α

def next : Parser TokenRef := fun c => some (c.peek, c.advance)

def errHere (message : Bytes) : Parser Unit := fun c => some ((), c.report message)

/-- Consume the current reference; when it is not the expected one, record a
diagnostic first. -/
def expect (test : Cursor → Bool) (message : Bytes) : Parser TokenRef := do
  if test (← get) then next
  else do
    errHere message
    next

def expectSymbol (text : String) : Parser TokenRef :=
  expect (Cursor.atSymbol text) (str "expected '" ++ str text ++ str "'")

def expectKeyword (text : String) : Parser TokenRef :=
  expect (Cursor.atKeyword text) (str "expected '" ++ str text ++ str "'")

def expectName : Parser TokenRef := expect (Cursor.atKind .name) (str "expected a name")

/-- A loop of the source.  Every turn that goes on consumes a reference, so one
turn more than there are references ahead is enough. -/
def loop {α β : Type} (turn : α → Parser (α ⊕ β)) (start : α) : Parser β := do
  iterate turn ((← get).toks.length + 1) start

/-- `for test { ... }`, with the accumulator its turns build up. -/
def loopWhile {α : Type} (test : Cursor → Bool) (turn : α → Parser α) (start : α) : Parser α :=
  loop (fun acc => do
    if test (← get) then Sum.inl <$> turn acc else return .inr acc) start

end Rotor.Luau.Cst
