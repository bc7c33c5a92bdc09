import Rotor.Luau.Lex.Lossless

/-!
The positions of tokens (`lex/lex.go`): each token begins where the one before it ends, and
lines and columns count what stands before an offset.
-/

namespace Rotor.Luau.Lex

open List

def Pos.behind (text : Bytes) : Pos :=
  ⟨text.length, 1 + text.count 10, 1 + (text.reverse.takeWhile (· ≠ 10)).length⟩

lemma advance_behind (text : Bytes) (byte : UInt8) :
    (Pos.behind text).advance byte = .behind (text ++ [byte]) := by
  by_cases newline : byte = 10 <;> simp [Pos.advance, Pos.behind, newline] <;> omega

lemma advanceAll_behind (text more : Bytes) :
    (Pos.behind text).advanceAll more = .behind (text ++ more) := by
  induction more generalizing text with
  | nil => exact congrArg _ (append_nil text).symm
  | cons byte more ih =>
    rw [Pos.advanceAll, foldl_cons, advance_behind, ← Pos.advanceAll, ih, append_assoc]
    rfl

def Pos.Counts (src : Bytes) (pos : Pos) : Prop := pos = .behind (src.take pos.offset)

lemma behind_counts (front rest : Bytes) : (Pos.behind front).Counts (front ++ rest) :=
  congrArg _ take_left.symm

/-- The tokens stand one behind the other, the first one behind a text. -/
def Positioned (front : Bytes) : List Token → Prop
  | [] => True
  | tok :: toks =>
    tok.start = .behind front ∧ tok.stop = .behind (front ++ tok.text) ∧
      Positioned (front ++ tok.text) toks

lemma positioned_append {front : Bytes} {toks more : List Token} :
    Positioned front (toks ++ more) ↔
      Positioned front toks ∧ Positioned (front ++ (toks.map Token.text).flatten) more := by
  induction toks generalizing front with
  | nil => simp [Positioned]
  | cons tok toks ih => simp [Positioned, ih, and_assoc]

lemma Positioned.isChain {front : Bytes} {toks : List Token} (positioned : Positioned front toks) :
    toks.IsChain fun tok next => tok.stop = next.start := by
  induction toks generalizing front with
  | nil => exact .nil
  | cons tok toks ih =>
    cases toks with
    | nil => exact .singleton _
    | cons next toks =>
      exact .cons_cons (positioned.2.1.trans positioned.2.2.1.symm) (ih positioned.2.2)

lemma Positioned.counts {toks : List Token} (positioned : Positioned [] toks) :
    ∀ tok ∈ toks, tok.start.Counts (toks.map Token.text).flatten ∧
      tok.stop.Counts (toks.map Token.text).flatten := by
  intro tok mem
  obtain ⟨front, more, rfl⟩ := append_of_mem mem
  obtain ⟨-, start, stop, -⟩ := positioned_append.mp positioned
  rw [start, stop, map_append, flatten_append, map_cons, flatten_cons]
  exact ⟨behind_counts _ _, append_assoc _ tok.text _ ▸ behind_counts _ _⟩

/-- The tokens of a scanner stand one behind the other, and the scanner behind them. -/
def Scanner.Positioned (s : Scanner) : Prop :=
  Lex.Positioned [] s.toks ∧ s.pos = .behind (s.toks.map Token.text).flatten

lemma Scanner.Positioned.emit {s : Scanner} (positioned : s.Positioned) (lexeme : Lexeme) :
    (s.emit lexeme).Positioned := by
  have stop := advanceAll_behind (s.toks.map Token.text).flatten lexeme.text
  rw [← positioned.2] at stop
  exact ⟨positioned_append.mpr ⟨positioned.1, positioned.2, stop, trivial⟩,
    by simpa [Scanner.emit] using stop⟩

lemma Scanner.Positioned.run {s : Scanner} (positioned : s.Positioned) (fuel : Nat) :
    (s.run fuel).Positioned := by
  induction fuel generalizing s with
  | zero => exact positioned
  | succ fuel ih =>
    rw [Scanner.run]
    split
    · exact positioned
    · exact ih (positioned.emit _)

lemma positioned_tokenize (src : Bytes) : Positioned [] (tokenize src).1 := by
  have initial : (Scanner.init src).Positioned := ⟨trivial, rfl⟩
  have positioned := initial.run src.length
  have stop := positioned.2.trans (congrArg Pos.behind (append_nil _).symm)
  exact positioned_append.mpr ⟨positioned.1, positioned.2, stop, trivial⟩

/-- Scanning loses nothing and ends in its one `eof`; tokens share their boundaries, and every
position has the line and the column of its offset. -/
theorem tokenize_positioned (src : Bytes) : ∃ toks eof, (tokenize src).1 = toks ++ [eof] ∧
    eof.kind = .eof ∧ (∀ tok ∈ toks, tok.kind ≠ .eof) ∧
    ((tokenize src).1.map Token.text).flatten = src ∧
    ((tokenize src).1.IsChain fun tok next => tok.stop = next.start) ∧
    ∀ tok ∈ (tokenize src).1, tok.start.Counts src ∧ tok.stop.Counts src := by
  obtain ⟨toks, eof, tokens, isEof, noText, kinds, texts⟩ := tokenize_tokens src
  have whole : ((tokenize src).1.map Token.text).flatten = src := by simp [tokens, texts, noText]
  have positioned := positioned_tokenize src
  have counts := whole ▸ positioned.counts
  exact ⟨toks, eof, tokens, isEof, kinds, whole, positioned.isChain, counts⟩

end Rotor.Luau.Lex
