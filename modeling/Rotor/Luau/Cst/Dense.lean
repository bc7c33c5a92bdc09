import Rotor.Luau.Cst.Yields
import Rotor.Luau.Lex.Significant

/-!
The dense serializer (`cst/dense.go`), with the options of `Dense`: every significant
token, a space where two neighbours would merge, and a semicolon before a statement
that begins with a parenthesis.
-/

namespace Rotor.Luau.Cst

open Luau.Lex Lib Cursor

def isInterpKind (kind : Kind) : Bool :=
  kind == .interpSimple || kind == .interpStart || kind == .interpMid || kind == .interpEnd

def numberGluesToNext (text : Bytes) : Bool :=
  text.head?.any fun c => c == 95 || c == 46 || isDigit c || (65 ≤ c && c ≤ 90) ||
    (97 ≤ c && c ≤ 122)

/-- Whether the concatenation of two texts is not read as these two tokens. -/
def needsSeparator (a b : Bytes) : Bool :=
  match (tokenize (a ++ b)).1.filter fun tok => isSignificant tok.kind with
  | [first, second] => !(first.text == a && second.text == b)
  | _ => true

structure DenseWriter where
  out : Bytes
  prev : Bytes
  prevKind : Kind
  started : Bool

namespace DenseWriter

def needsSpace (w : DenseWriter) (tok : Token) : Bool :=
  w.started && !isInterpKind w.prevKind && !isInterpKind tok.kind &&
    (needsSeparator w.prev tok.text || (w.prevKind == .number && numberGluesToNext tok.text))

def tok (w : DenseWriter) (tok : Token) : DenseWriter :=
  if tok.kind = .eof then w
  else ⟨w.out ++ (if w.needsSpace tok then [32] else []) ++ tok.text, tok.text, tok.kind, true⟩

def forced (w : DenseWriter) (text : Bytes) : DenseWriter := ⟨w.out ++ text, text, .symbol, true⟩

end DenseWriter

def firstToken (events : List Event) : Option Token :=
  ((eventRefs events).find? fun ref => !ref.isEof).map TokenRef.token

def startsWithParen (node : Node) : Bool := (firstToken node.events).any fun tok => isSymbol tok "("

def DenseWriter.event (w : DenseWriter) : Event → DenseWriter
  | .enter _ => w
  | .ref ref => w.tok ref.token
  | .stmt node => if startsWithParen node then w.forced (str ";") else w

/-- `Dense`.  Of a file only the body is written. -/
def dense (node : Node) : Bytes :=
  let events := match node with
    | .file body _ => body.events
    | node => node.events
  (events.foldl DenseWriter.event ⟨[], [], .eof, false⟩).out

/-! ### What is written, as a list -/

inductive Item where
  | tok (lexical : Lexical)
  | semi

def Item.ofEvent : Event → Option Item
  | .ref ref => if ref.isEof then none else some (.tok ref.token.lexical)
  | .stmt node => if startsWithParen node then some .semi else none
  | .enter _ => none

def itemsOf (events : List Event) : List Item := events.filterMap Item.ofEvent

lemma itemsOf_enter (node : Node) (events : List Event) :
    itemsOf (.enter node :: events) = itemsOf events := rfl

def itemToks (items : List Item) : List Lexical :=
  items.filterMap fun
    | .tok lexical => some lexical
    | .semi => none

def semicolon : Lexical := (.symbol, str ";")

def spaced (prev : Option Lexical) (lexical : Lexical) : Bool :=
  prev.any fun before => !isInterpKind before.1 && !isInterpKind lexical.1 &&
    (needsSeparator before.2 lexical.2 || (before.1 == .number && numberGluesToNext lexical.2))

def denseText : Option Lexical → List Item → Bytes
  | _, [] => []
  | prev, .tok lexical :: items =>
    (if spaced prev lexical then [32] else []) ++ lexical.2 ++ denseText (some lexical) items
  | _, .semi :: items => semicolon.2 ++ denseText (some semicolon) items

def DenseWriter.last (w : DenseWriter) : Option Lexical :=
  if w.started then some (w.prevKind, w.prev) else none

lemma DenseWriter.needsSpace_eq (w : DenseWriter) (tok : Token) :
    w.needsSpace tok = spaced w.last tok.lexical := by
  cases started : w.started with
  | true => simp [needsSpace, spaced, last, started, Token.lexical]
  | false => simp [needsSpace, spaced, last, started]

lemma DenseWriter.foldl_out (events : List Event) : ∀ w : DenseWriter,
    (events.foldl DenseWriter.event w).out = w.out ++ denseText w.last (itemsOf events) := by
  induction events with
  | nil => simp [itemsOf, denseText]
  | cons event events ih =>
    intro w
    rw [List.foldl_cons, ih]
    cases event with
    | enter node => simp [DenseWriter.event, itemsOf_enter]
    | ref ref =>
      cases eof : ref.isEof with
      | true =>
        have kind : ref.token.kind = .eof := by simpa [TokenRef.isEof] using eof
        simp [DenseWriter.event, DenseWriter.tok, kind, itemsOf, Item.ofEvent, eof]
      | false =>
        have kind : ref.token.kind ≠ .eof := by simpa [TokenRef.isEof] using eof
        simp [DenseWriter.event, DenseWriter.tok, kind, itemsOf, Item.ofEvent, eof,
          denseText, DenseWriter.needsSpace_eq, DenseWriter.last, Token.lexical]
    | stmt node =>
      cases paren : startsWithParen node with
      | true =>
        simp [DenseWriter.event, DenseWriter.forced, itemsOf, Item.ofEvent, paren,
          denseText, DenseWriter.last, semicolon]
      | false => simp [DenseWriter.event, itemsOf, Item.ofEvent, paren]

lemma itemToks_itemsOf (events : List Event) : itemToks (itemsOf events) =
    ((eventRefs events).filter fun ref => !ref.isEof).map fun ref => ref.token.lexical := by
  induction events with
  | nil => rfl
  | cons event events ih =>
    cases event with
    | enter node => simpa [itemsOf_enter] using ih
    | ref ref =>
      cases eof : ref.isEof <;>
        simpa [itemsOf, itemToks, Item.ofEvent, eof] using ih
    | stmt node =>
      cases paren : startsWithParen node <;>
        simpa [itemsOf, itemToks, Item.ofEvent, paren] using ih

end Rotor.Luau.Cst
