import Rotor.Luau.Lex.Token

/-!
The Luau scanner (`lex/lex.go`, `lex/string.go`, `lex/number.go`,
`lex/interp.go`).

A scanning routine reads the bytes from the current offset on and returns the
text it consumed with the bytes that remain; `run` turns the text into a token.
The stack `interp` holds the brace depth of every open interpolation, the
innermost first.
-/

namespace Rotor.Luau.Lex

/-- `scanner.peekAt`: the byte at a distance, zero past the end. -/
def peekAt (rest : Bytes) (distance : Nat) : UInt8 := rest.getD distance 0

def isSpace (c : UInt8) : Bool := c == 32 || c == 9 || c == 10 || c == 13 || c == 11 || c == 12

def isDigit (c : UInt8) : Bool := 48 ≤ c && c ≤ 57

def isHex (c : UInt8) : Bool := isDigit c || (97 ≤ c && c ≤ 102) || (65 ≤ c && c ≤ 70)

def isNameStart (c : UInt8) : Bool := c == 95 || (97 ≤ c && c ≤ 122) || (65 ≤ c && c ≤ 90)

def isNameCont (c : UInt8) : Bool := isNameStart c || isDigit c

/-- `scanner.consumeWhile`: the consumed text and what remains. -/
def consumeWhile (pred : UInt8 → Bool) (rest : Bytes) : Bytes × Bytes :=
  (rest.takeWhile pred, rest.dropWhile pred)

/-! ## Symbols -/

def symbols3 : List Bytes := [str "...", str "//=", str "..="]

def symbols2 : List Bytes :=
  [str "==", str "~=", str "<=", str ">=", str "..", str "::", str "->",
    str "+=", str "-=", str "*=", str "/=", str "%=", str "^=", str "//"]

def singleSymbols : Bytes := str "+-*/%^#<>=()\x7b\x7d[];:,.&|?@"

def isSingleSymbol (c : UInt8) : Bool := singleSymbols.contains c

/-- The result of `scanSymbol`: the length of the symbol, or no symbol. -/
def symbolLength (rest : Bytes) : Option Nat :=
  if 3 ≤ rest.length && symbols3.contains (rest.take 3) then some 3
  else if 2 ≤ rest.length && symbols2.contains (rest.take 2) then some 2
  else if isSingleSymbol (peekAt rest 0) then some 1
  else none

/-- `trackBrace`: a brace inside a hole changes the depth of the top frame. -/
def trackBrace (c : UInt8) : List Nat → List Nat
  | [] => []
  | depth :: frames =>
    if c = 123 then (depth + 1) :: frames
    else if c = 125 then (depth - 1) :: frames
    else depth :: frames

/-! ## Numbers -/

/-- The optional exponent of `consumeFractionAndExponent`. -/
def consumeExponent (e1 e2 : UInt8) (rest : Bytes) : Bytes × Bytes :=
  match rest with
  | [] => ([], [])
  | c :: more =>
    if c = e1 || c = e2 then
      match more with
      | sign :: digits =>
        if sign = 43 || sign = 45 then
          let consumed := consumeWhile (fun c => isDigit c || c == 95) digits
          (c :: sign :: consumed.1, consumed.2)
        else
          let consumed := consumeWhile (fun c => isDigit c || c == 95) more
          (c :: consumed.1, consumed.2)
      | [] => ([c], [])
    else ([], rest)

/-- The optional fraction; a `..` is never swallowed. -/
def consumeFraction (digit : UInt8 → Bool) (rest : Bytes) : Bytes × Bytes :=
  match rest with
  | [] => ([], [])
  | c :: more =>
    if c = 46 && peekAt more 0 ≠ 46 then
      let consumed := consumeWhile (fun c => digit c || c == 95) more
      (c :: consumed.1, consumed.2)
    else ([], rest)

def consumeFractionAndExponent (digit : UInt8 → Bool) (e1 e2 : UInt8)
    (rest : Bytes) : Bytes × Bytes :=
  let fraction := consumeFraction digit rest
  let exponent := consumeExponent e1 e2 fraction.2
  (fraction.1 ++ exponent.1, exponent.2)

def scanNumber (rest : Bytes) : Bytes × Bytes :=
  if peekAt rest 0 = 48 && (peekAt rest 1 = 120 || peekAt rest 1 = 88) then
    let digits := consumeWhile (fun c => isHex c || c == 95) (rest.drop 2)
    let tail := consumeFractionAndExponent isHex 112 80 digits.2
    (rest.take 2 ++ digits.1 ++ tail.1, tail.2)
  else if peekAt rest 0 = 48 && (peekAt rest 1 = 98 || peekAt rest 1 = 66) then
    let digits := consumeWhile (fun c => c == 48 || c == 49 || c == 95) (rest.drop 2)
    (rest.take 2 ++ digits.1, digits.2)
  else
    let digits := consumeWhile (fun c => isDigit c || c == 95) rest
    let tail := consumeFractionAndExponent isDigit 101 69 digits.2
    (digits.1 ++ tail.1, tail.2)

/-! ## Strings and comments -/

/-- What a routine with an error path consumed: text, remaining bytes, and
whether the closing delimiter was found. -/
structure Scanned where
  text : Bytes
  rest : Bytes
  closed : Bool
  deriving DecidableEq

def Scanned.cons (text : Bytes) (scanned : Scanned) : Scanned :=
  ⟨text ++ scanned.text, scanned.rest, scanned.closed⟩

/-- The loop of `scanShortString` after the opening quote.  The flag `skip` is
set while `\z` skips the whitespace that follows it. -/
def shortStringBody (quote : UInt8) : Bool → Bytes → Scanned
  | _, [] => ⟨[], [], false⟩
  | skip, c :: more =>
    if skip && isSpace c then (shortStringBody quote true more).cons [c]
    else if c = 92 then
      match more with
      | [] => ⟨[c], [], false⟩
      | e :: after => (shortStringBody quote (e == 122) after).cons [c, e]
    else if c = quote then ⟨[c], more, true⟩
    else if c = 10 then ⟨[], c :: more, false⟩
    else (shortStringBody quote false more).cons [c]

def scanShortString (rest : Bytes) : Scanned :=
  (shortStringBody (peekAt rest 0) false (rest.drop 1)).cons (rest.take 1)

/-- `longBracketLevel`: the number of `=` between the two opening brackets. -/
def longBracketLevel (rest : Bytes) : Option Nat :=
  match rest with
  | [] => none
  | c :: more =>
    if c ≠ 91 then none
    else
      let equals := more.takeWhile (· == 61)
      if (more.dropWhile (· == 61)).head? = some 91 then some equals.length else none

def closingBracket (level : Nat) : Bytes := 93 :: (repeatByte 61 level ++ [93])

/-- Consume up to and including the closing bracket, or to the end. -/
def longBodyTail (closing : Bytes) : Bytes → Scanned
  | [] => ⟨[], [], false⟩
  | c :: more =>
    if closing.isPrefixOf (c :: more) then
      ⟨closing, (c :: more).drop closing.length, true⟩
    else (longBodyTail closing more).cons [c]

/-- `consumeLongBody`: the opening bracket of the level, then the body. -/
def consumeLongBody (level : Nat) (rest : Bytes) : Scanned :=
  (longBodyTail (closingBracket level) (rest.drop (level + 2))).cons (rest.take (level + 2))

/-- `scanComment`, on bytes that begin with two dashes. -/
def scanComment (rest : Bytes) : Scanned :=
  match longBracketLevel (rest.drop 2) with
  | some level => (consumeLongBody level (rest.drop 2)).cons (rest.take 2)
  | none =>
    let line := consumeWhile (fun c => c != 10) (rest.drop 2)
    ⟨rest.take 2 ++ line.1, line.2, true⟩

/-! ## Interpolated strings -/

inductive InterpEnding where
  | brace
  | backtick
  | unterminated
  deriving DecidableEq

/-- `scanInterpBody`: the consumed chunk, what remains and how it ended. -/
def scanInterpBody : Bytes → Bytes × Bytes × InterpEnding
  | [] => ([], [], .unterminated)
  | c :: more =>
    if c = 92 then
      match more with
      | [] => ([c], [], .unterminated)
      | e :: after =>
        let scanned := scanInterpBody after
        (c :: e :: scanned.1, scanned.2)
    else if c = 96 then ([c], more, .backtick)
    else if c = 123 then ([c], more, .brace)
    else if c = 10 then ([], c :: more, .unterminated)
    else
      let scanned := scanInterpBody more
      (c :: scanned.1, scanned.2)

/-! ## The main loop -/

/-- One token of `run`: its kind and text, the remaining bytes, the new stack
of interpolation frames, and the message of an error with the part of the text
before the position it is reported at. -/
structure Lexeme where
  kind : Kind
  text : Bytes
  rest : Bytes
  interp : List Nat
  error : Option (Bytes × String) := none
  deriving DecidableEq

def scanSymbol (interp : List Nat) (rest : Bytes) : Lexeme :=
  match symbolLength rest with
  | some 1 => ⟨.symbol, rest.take 1, rest.drop 1, trackBrace (peekAt rest 0) interp, none⟩
  | some length => ⟨.symbol, rest.take length, rest.drop length, interp, none⟩
  | none => ⟨.invalid, rest.take 1, rest.drop 1, interp, some ([], "unexpected character")⟩

/-- A string or comment token, with its error when it is not closed. -/
def closedLexeme (kind : Kind) (interp : List Nat) (message : String)
    (scanned : Scanned) : Lexeme :=
  ⟨kind, scanned.text, scanned.rest, interp,
    if scanned.closed then none else some ([], message)⟩

def scanInterpStart (interp : List Nat) (rest : Bytes) : Lexeme :=
  match scanInterpBody (rest.drop 1) with
  | (text, after, .brace) => ⟨.interpStart, rest.take 1 ++ text, after, 0 :: interp, none⟩
  | (text, after, .backtick) => ⟨.interpSimple, rest.take 1 ++ text, after, interp, none⟩
  | (text, after, .unterminated) =>
    ⟨.interpSimple, rest.take 1 ++ text, after, interp,
      some (rest.take 1 ++ text, "unterminated interpolated string")⟩

def scanInterpResume (interp : List Nat) (rest : Bytes) : Lexeme :=
  match scanInterpBody (rest.drop 1) with
  | (text, after, .brace) => ⟨.interpMid, rest.take 1 ++ text, after, interp, none⟩
  | (text, after, .backtick) => ⟨.interpEnd, rest.take 1 ++ text, after, interp.tail, none⟩
  | (text, after, .unterminated) =>
    ⟨.interpEnd, rest.take 1 ++ text, after, interp.tail,
      some (rest.take 1 ++ text, "unterminated interpolated string")⟩

/-- The dispatch of `run` at a byte that is there. -/
def scanLexeme (interp : List Nat) (rest : Bytes) : Lexeme :=
  let c := peekAt rest 0
  if isSpace c then
    let consumed := consumeWhile isSpace rest
    ⟨.whitespace, consumed.1, consumed.2, interp, none⟩
  else if c = 45 && peekAt rest 1 = 45 then
    closedLexeme .comment interp "unterminated long comment" (scanComment rest)
  else if isNameStart c then
    let consumed := consumeWhile isNameCont rest
    ⟨.name, consumed.1, consumed.2, interp, none⟩
  else if isDigit c || (c = 46 && isDigit (peekAt rest 1)) then
    let scanned := scanNumber rest
    ⟨.number, scanned.1, scanned.2, interp, none⟩
  else if c = 34 || c = 39 then
    closedLexeme .string interp "unterminated string" (scanShortString rest)
  else if c = 91 then
    match longBracketLevel rest with
    | some level =>
      closedLexeme .string interp "unterminated long string" (consumeLongBody level rest)
    | none => scanSymbol interp rest
  else if c = 96 then scanInterpStart interp rest
  else if c = 125 && interp.head? = some 0 then scanInterpResume interp rest
  else scanSymbol interp rest

structure Scanner where
  rest : Bytes
  pos : Pos
  interp : List Nat
  toks : List Token
  diags : List Diagnostic
  deriving DecidableEq

/-- Emit one token and move past its text. -/
def Scanner.emit (s : Scanner) (lexeme : Lexeme) : Scanner where
  rest := lexeme.rest
  pos := s.pos.advanceAll lexeme.text
  interp := lexeme.interp
  toks := s.toks ++ [⟨lexeme.kind, lexeme.text, s.pos, s.pos.advanceAll lexeme.text⟩]
  diags := s.diags ++ (lexeme.error.map fun (before, message) =>
    (⟨s.pos.advanceAll before, message⟩ : Diagnostic)).toList

/-- The loop of `run`.  Every turn consumes at least one byte, so as many turns
as there are bytes are enough. -/
def Scanner.run : Nat → Scanner → Scanner
  | 0, s => s
  | fuel + 1, s =>
    if s.rest = [] then s else Scanner.run fuel (s.emit (scanLexeme s.interp s.rest))

def Scanner.init (src : Bytes) : Scanner := ⟨src, ⟨0, 1, 1⟩, [], [], []⟩

/-- `Tokenize`: the tokens, trivia included and ended by one `eof`, with the
diagnostics. -/
def tokenize (src : Bytes) : List Token × List Diagnostic :=
  let s := Scanner.run src.length (Scanner.init src)
  (s.toks ++ [⟨.eof, [], s.pos, s.pos⟩], s.diags)

end Rotor.Luau.Lex
