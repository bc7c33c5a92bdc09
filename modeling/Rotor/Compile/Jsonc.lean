import Rotor.Bytes

/-!
Comments and trailing commas in configuration files (`stripJSONC` in `sanitize.go`).

A text with comments is a list of pieces: the tokens of a JSON document, and between them spaces,
comments, and commas in front of a closing bracket. The tokens determine the value.
-/

namespace Rotor.Compile.Jsonc

open List

def isSpace (c : UInt8) : Bool := c == 32 || c == 9 || c == 13 || c == 10

def isCloser (c : UInt8) : Bool := c == 125 || c == 93

/-- The scan behind a comma, over whitespace only. -/
def closesNext (rest : Bytes) : Bool := (rest.dropWhile isSpace).head?.any isCloser

/-- Where the loop is: outside of strings, in a string, or in the loop over a comment. -/
inductive Mode where
  | outside
  | string
  | line
  | block

@[grind =] def strip : Mode → Bytes → Bytes
  | _, [] => []
  | .string, 92 :: c :: rest => 92 :: c :: strip .string rest
  | .string, c :: rest => c :: strip (if c = 34 then .outside else .string) rest
  | .line, c :: rest => if c = 10 then 10 :: strip .outside rest else strip .line rest
  | .block, 42 :: 47 :: rest => strip .outside rest
  | .block, _ :: rest => strip .block rest
  | .outside, 47 :: 47 :: rest => strip .line rest
  | .outside, 47 :: 42 :: rest => strip .block rest
  | .outside, c :: rest =>
    if c = 34 then 34 :: strip .string rest
    else if c = 44 ∧ closesNext rest then strip .outside rest
    else c :: strip .outside rest

def stripJSONC (src : Bytes) : Bytes := strip .outside src

/-! ### Texts with comments -/

def isMark (c : UInt8) : Bool := [123, 125, 91, 93, 58, 44].contains c

/-- The bytes of numbers and of `true`, `false` and `null`. -/
def isWordByte (c : UInt8) : Bool := !(isSpace c || isMark c || c == 34 || c == 47)

inductive Token where
  | string (body : Bytes)
  | word (text : Bytes)
  | mark (c : UInt8)
  deriving DecidableEq

namespace Token

def text : Token → Bytes
  | .string body => 34 :: body ++ [34]
  | .word text => text
  | .mark c => [c]

/-- Every quote in a string is escaped, and no escape is cut off. -/
def closed : Bytes → Bool
  | [] => true
  | 92 :: _ :: body => closed body
  | c :: body => c != 34 && c != 92 && closed body

def Ok : Token → Prop
  | .string body => closed body = true
  | .word text => text ≠ [] ∧ ∀ c ∈ text, isWordByte c = true
  | .mark c => isMark c = true

def isWord : Token → Bool
  | .word _ => true
  | _ => false

def closes : Token → Bool
  | .mark c => isCloser c
  | _ => false

/-- No document has a comma in front of a closing bracket, or two words in a row. -/
def allows (token next : Token) : Bool :=
  !(token = .mark 44 && next.closes || token.isWord && next.isWord)

end Token

/-- Tokens, and what may stand between them. -/
inductive Piece where
  | token (token : Token)
  | space (c : UInt8)
  | line (text : Bytes)
  | block (text : Bytes)
  | trailing

namespace Piece

def text : Piece → Bytes
  | .token tok => tok.text
  | .space c => [c]
  | .line text => 47 :: 47 :: text ++ [10]
  | .block text => 47 :: 42 :: text ++ [42, 47]
  | .trailing => [44]

def token? : Piece → Option Token
  | .token tok => some tok
  | _ => none

def isPlain : Piece → Bool
  | .token _ | .space _ => true
  | _ => false

def plain : Piece → Bytes
  | .token tok => tok.text
  | .space c => [c]
  | .line _ => [10]
  | _ => []

end Piece

def tokens (pieces : List Piece) : List Token := pieces.filterMap Piece.token?

def uninterrupted : Bytes → Bool
  | 42 :: 47 :: _ => false
  | _ :: text => uninterrupted text
  | [] => true

def Valid : List Piece → Prop
  | [] => True
  | .token token :: pieces =>
    token.Ok ∧ (∀ next ∈ (tokens pieces).head?, token.allows next = true) ∧ Valid pieces
  | .space c :: pieces => isSpace c = true ∧ Valid pieces
  | .line text :: pieces => 10 ∉ text ∧ Valid pieces
  | .block text :: pieces => uninterrupted text = true ∧ Valid pieces
  | .trailing :: pieces => (tokens pieces).head?.any Token.closes = true ∧ Valid pieces

/-- A document with comments; the last one may end with the text. -/
structure Document where
  pieces : List Piece
  valid : Valid pieces
  last : Option Bytes
  ends : ∀ text ∈ last, 10 ∉ text

def Document.text (document : Document) : Bytes :=
  document.pieces.flatMap Piece.text ++ (document.last.map fun text => 47 :: 47 :: text).getD []

inductive Reads : Bytes → List Token → Prop where
  | nil : Reads [] []
  | space {c rest tokens} (space : isSpace c = true) (reads : Reads rest tokens) :
      Reads (c :: rest) tokens
  | token {token rest tokens} (ok : Token.Ok token)
      (ends : token.isWord = true → ∀ c ∈ rest.head?, isWordByte c = false)
      (reads : Reads rest tokens) : Reads (token.text ++ rest) (token :: tokens)

def closesAtOnce : List Piece → Bool
  | .space _ :: pieces => closesAtOnce pieces
  | .token token :: _ => token.closes
  | _ => false

def Near : List Piece → Prop
  | [] => True
  | .trailing :: pieces => closesAtOnce pieces = true ∧ Near pieces
  | _ :: pieces => Near pieces

/-! ### What the scanner leaves -/

variable {rest : Bytes} {text : Bytes} {c : UInt8} {pieces : List Piece} {token : Token}

lemma strip_string (closed : Token.closed text) :
    strip .string (text ++ 34 :: rest) = text ++ 34 :: strip .outside rest := by
  fun_induction Token.closed text with
  | case1 => simp [strip]
  | case2 c body ih => simp [strip, ih closed]
  | case3 c body other ih =>
    simp only [Bool.and_eq_true, bne_iff_ne] at closed
    rw [cons_append, strip, if_neg closed.1.1, ih closed.2]
    · rfl
    · simp [closed.1.2]

lemma strip_line (rest : Bytes) (inside : 10 ∉ text) :
    strip .line (text ++ rest) = strip .line rest := by
  induction text with
  | nil => rfl
  | cons c text ih => grind

lemma strip_block (inside : uninterrupted text) :
    strip .block (text ++ 42 :: 47 :: rest) = strip .outside rest := by
  fun_induction uninterrupted text with
  | case1 => nomatch inside
  | case2 c text other ih =>
    rw [cons_append, strip, ih inside]
    rintro behind star same
    cases text with
    | nil => simp at same
    | cons d text => exact other text star (by rw [(List.cons.inj same).1])
  | case3 => simp [strip]

lemma strip_byte (quote : c ≠ 34) (slash : c ≠ 47) (comma : c = 44 → closesNext rest = false) :
    strip .outside (c :: rest) = c :: strip .outside rest := by
  rw [strip, if_neg quote, if_neg fun both => by simp [comma both.1] at both]
  · simp [slash]
  · simp [slash]

lemma strip_word (all : ∀ c ∈ text, isWordByte c) :
    strip .outside (text ++ rest) = text ++ strip .outside rest := by
  induction text with
  | nil => rfl
  | cons c text ih =>
    have word := all c (.head _)
    rw [cons_append, strip_byte, ih fun d mem => all d (.tail _ mem)]
    · rfl
    all_goals rintro rfl; nomatch word

lemma strip_token (ok : token.Ok) (comma : token = .mark 44 → closesNext rest = false) :
    strip .outside (token.text ++ rest) = token.text ++ strip .outside rest := by
  cases token with
  | string body =>
    have opened : ∀ behind, strip .outside (34 :: behind) = 34 :: strip .string behind :=
      fun behind => by simp [strip]
    simp only [Token.text, cons_append, append_assoc, nil_append, opened, strip_string ok]
  | mark c =>
    have mark : isMark c := ok
    exact strip_byte (by rintro rfl; nomatch mark) (by rintro rfl; nomatch mark)
      fun same => comma (by rw [same])
  | word text => exact strip_word ok.2

lemma Token.Ok.exists_cons (ok : token.Ok) : ∃ c more, token.text = c :: more ∧
    isSpace c = false ∧ isCloser c = token.closes ∧
      (token.isWord = false → isWordByte c = false) := by
  cases token with
  | string body => exact ⟨34, body ++ [34], rfl, rfl, rfl, fun _ => rfl⟩
  | mark c =>
    have mark : isMark c := ok
    refine ⟨c, [], rfl, ?_⟩
    simp only [isMark, contains_iff_mem, mem_cons, not_mem_nil, or_false] at mark
    rcases mark with rfl | rfl | rfl | rfl | rfl | rfl <;> decide
  | word text =>
    obtain ⟨nonempty, all⟩ := ok
    obtain ⟨c, more, rfl⟩ := exists_cons_of_ne_nil nonempty
    have word := all c (.head _)
    refine ⟨c, more, rfl, ?_, ?_, nofun⟩
    · cases space : isSpace c <;> simp_all [isWordByte]
    · cases closer : isCloser c with
      | false => rfl
      | true =>
        simp only [isCloser, Bool.or_eq_true, beq_iff_eq] at closer
        rcases closer with rfl | rfl <;> simp [isWordByte, isMark] at word

lemma closesNext_text (valid : Valid pieces) (last : closesNext rest = false) :
    closesNext (pieces.flatMap Piece.text ++ rest) = closesAtOnce pieces := by
  induction pieces with
  | nil => exact last
  | cons piece pieces ih =>
    cases piece with
    | space c =>
      have here : closesNext (c :: (pieces.flatMap Piece.text ++ rest)) =
          closesNext (pieces.flatMap Piece.text ++ rest) := by
        rw [closesNext, dropWhile_cons_of_pos valid.1]
        rfl
      exact here.trans (ih valid.2)
    | token token =>
      obtain ⟨c, more, text, space, closer, -⟩ := valid.1.exists_cons
      rw [flatMap_cons, Piece.text, text, append_assoc, cons_append, closesNext,
        dropWhile_cons_of_neg (by simp [space])]
      exact closer
    | _ => rfl

lemma head_plain (valid : Valid pieces)
    (next : ∀ token ∈ (tokens pieces).head?, token.isWord = false) :
    ∀ c ∈ (pieces.flatMap Piece.plain).head?, isWordByte c = false := by
  induction pieces with
  | nil => nofun
  | cons piece pieces ih =>
    cases piece with
    | space c =>
      rintro _ ⟨⟩
      simp [isWordByte, show isSpace c from valid.1]
    | token token =>
      obtain ⟨c, more, text, -, -, other⟩ := valid.1.exists_cons
      rw [flatMap_cons, Piece.plain, text]
      rintro _ ⟨⟩
      exact other (next token rfl)
    | line text =>
      rintro _ ⟨⟩
      decide
    | block text => exact ih valid.2 next
    | trailing => exact ih valid.2 next

lemma reads_plain (valid : Valid pieces) :
    Reads (pieces.flatMap Piece.plain) (tokens pieces) := by
  induction pieces with
  | nil => exact .nil
  | cons piece pieces ih =>
    cases piece with
    | space c => exact .space valid.1 (ih valid.2)
    | token token =>
      refine .token valid.1 (fun word => head_plain valid.2.2 fun next mem => ?_) (ih valid.2.2)
      have allowed := valid.2.1 next mem
      simp only [Token.allows, word, Bool.true_and, Bool.not_eq_true', Bool.or_eq_false_iff]
        at allowed
      exact allowed.2
    | line text => exact .space rfl (ih valid.2)
    | block text => exact ih valid.2
    | trailing => exact ih valid.2

lemma exists_closes (closes : closesAtOnce pieces) :
    ∃ next ∈ (tokens pieces).head?, next.closes := by
  induction pieces with
  | nil => nomatch closes
  | cons piece pieces ih =>
    cases piece with
    | space c => exact ih closes
    | token token => exact ⟨token, rfl, closes⟩
    | _ => nomatch closes

lemma strip_text (valid : Valid pieces) (near : Near pieces) (last : closesNext rest = false) :
    strip .outside (pieces.flatMap Piece.text ++ rest) =
      pieces.flatMap Piece.plain ++ strip .outside rest := by
  induction pieces with
  | nil => rfl
  | cons piece pieces ih =>
    rw [flatMap_cons, flatMap_cons, append_assoc, append_assoc]
    cases piece with
    | space c =>
      rw [← ih valid.2 near]
      have space : isSpace c := valid.1
      apply strip_byte
      all_goals rintro rfl; nomatch space
    | token token =>
      rw [Piece.text, strip_token valid.1, ih valid.2.2 near]
      · rfl
      · rintro rfl
        rw [closesNext_text valid.2.2 last]
        refine Bool.eq_false_iff.mpr fun closes => ?_
        obtain ⟨next, mem, closer⟩ := exists_closes closes
        have allowed := valid.2.1 next mem
        simp [Token.allows, closer] at allowed
    | line text =>
      rw [← ih valid.2 near]
      simp [Piece.text, Piece.plain, strip, strip_line _ valid.1]
    | block text =>
      rw [← ih valid.2 near]
      simpa [Piece.text, Piece.plain, strip] using strip_block valid.1
    | trailing =>
      rw [← ih valid.2 near.2]
      have dropped := closesNext_text valid.2 last
      rw [near.1] at dropped
      simp [Piece.text, strip, dropped, Piece.plain]

/-- Where no comment stands between a trailing comma and its bracket, the stripped text is plain and
has the tokens of the document; a plain text stays as it is. -/
theorem stripJSONC_reads (document : Document) (near : Near document.pieces) :
    Reads (stripJSONC document.text) (tokens document.pieces) ∧
      (document.pieces.all Piece.isPlain = true → document.last = none →
        stripJSONC document.text = document.text) := by
  obtain ⟨pieces, valid, last, ends⟩ := document
  have stripped : stripJSONC (Document.text ⟨pieces, valid, last, ends⟩) =
      pieces.flatMap Piece.plain := by
    cases last with
    | none =>
      rw [stripJSONC, Document.text, strip_text valid near rfl]
      simp [strip]
    | some text =>
      have skipped := strip_line [] (ends text rfl)
      rw [stripJSONC, Document.text, strip_text valid near rfl]
      simpa [strip] using skipped
  rw [stripped]
  refine ⟨reads_plain valid, ?_⟩
  rintro plain rfl
  rw [Document.text, Option.map_none, Option.getD_none, append_nil]
  refine congrArg List.flatten (map_congr_left fun piece mem => ?_)
  have kept := all_eq_true.mp plain piece mem
  cases piece <;> first | rfl | nomatch kept

/-- `[1,` in front of these pieces. -/
def behindComma (pieces : List Piece) : List Piece :=
  [.token (.mark 91), .token (.word [49]), .trailing] ++ pieces

def commentBehind : Document where
  pieces := behindComma [.token (.mark 93), .block []]
  valid := by simp [behindComma, Valid, Token.Ok, tokens, Piece.token?]; decide
  last := none
  ends := nofun

theorem stripJSONC_reads_behind :
    Reads (stripJSONC (str "[1,]/**/")) [.mark 91, .word [49], .mark 93] :=
  (stripJSONC_reads commentBehind ⟨rfl, trivial⟩).1

lemma Reads.exists_rest {tokens : List Token} (reads : Reads text (token :: tokens))
    (first : ∀ c ∈ text.head?, isSpace c = false) :
    ∃ rest, text = token.text ++ rest ∧ Reads rest tokens := by
  cases reads with
  | space space => nomatch space.symm.trans (first _ rfl)
  | token _ _ reads => exact ⟨_, rfl, reads⟩

def commentInside : Document where
  pieces := behindComma [.block [], .token (.mark 93)]
  valid := by simp [behindComma, Valid, Token.Ok, tokens, Piece.token?]; decide
  last := none
  ends := nofun

/-- The comma of `[1,/**/]` is kept. -/
theorem stripJSONC_keeps_comma :
    ¬ Reads (stripJSONC commentInside.text) (tokens commentInside.pieces) := by
  have kept : stripJSONC commentInside.text = [91, 49, 44, 93] := by decide
  rw [kept]
  intro reads
  obtain ⟨rest, same, reads⟩ := reads.exists_rest (by rintro _ ⟨⟩; rfl)
  obtain rfl := (List.cons.inj same).2
  obtain ⟨rest, same, reads⟩ := reads.exists_rest (by rintro _ ⟨⟩; rfl)
  obtain rfl := (List.cons.inj same).2
  obtain ⟨rest, same, reads⟩ := reads.exists_rest (by rintro _ ⟨⟩; rfl)
  simp [Token.text] at same

end Rotor.Compile.Jsonc
