import Rotor.Bytes

/-!
Tokens, positions and diagnostics of the Luau scanner (`lex/token.go`).
-/

namespace Rotor.Luau.Lex

inductive Kind where
  | eof
  | whitespace
  | comment
  | name
  | number
  | string
  | interpSimple
  | interpStart
  | interpMid
  | interpEnd
  | symbol
  | invalid
  deriving DecidableEq

/-- A source position: a 0-based byte offset, a 1-based line and column. -/
structure Pos where
  offset : Nat
  line : Nat
  col : Nat
  deriving DecidableEq

/-- The position after one byte (`scanner.advance`). -/
def Pos.advance (pos : Pos) (byte : UInt8) : Pos :=
  if byte = 10 then ⟨pos.offset + 1, pos.line + 1, 1⟩
  else ⟨pos.offset + 1, pos.line, pos.col + 1⟩

def Pos.advanceAll (pos : Pos) (text : Bytes) : Pos := text.foldl Pos.advance pos

structure Token where
  kind : Kind
  text : Bytes
  start : Pos
  stop : Pos
  deriving DecidableEq

structure Diagnostic where
  pos : Pos
  message : String
  deriving DecidableEq

def Kind.isTrivia (kind : Kind) : Bool := kind == .whitespace || kind == .comment

end Rotor.Luau.Lex
