import Rotor.Luau.Cst.Parse
import Rotor.Luau.Lex.Positions

/-!
The offsets of tokens.

Every token of a text begins where the tokens before it end, so the offsets that a reference
carries are the numbers of bytes before its token and before the end of it.
-/

namespace Rotor.Luau.Cst

open List Luau.Lex

def tokensLength (toks : List Token) : Nat := (toks.map Token.text).flatten.length

def TokensFrom (offset : Nat) : List Token → Prop
  | [] => True
  | token :: toks =>
    token.start.offset = offset ∧ token.stop.offset = offset + token.text.length ∧
      TokensFrom (offset + token.text.length) toks

lemma tokensFrom_append {offset : Nat} {front back : List Token} :
    TokensFrom offset (front ++ back) ↔
      TokensFrom offset front ∧ TokensFrom (offset + tokensLength front) back := by
  induction front generalizing offset with
  | nil => simp [TokensFrom, tokensLength]
  | cons token front ih =>
    simp only [cons_append, TokensFrom, ih, tokensLength, map_cons,
      List.flatten_cons, length_append, ← Nat.add_assoc]
    tauto

lemma tokensFrom_of_positioned {front : Bytes} {toks : List Token}
    (positioned : Positioned front toks) : TokensFrom front.length toks := by
  induction toks generalizing front with
  | nil => trivial
  | cons token toks ih =>
    obtain ⟨start, stop, next⟩ := positioned
    rw [TokensFrom, start, stop, ← length_append]
    exact ⟨rfl, rfl, ih next⟩

lemma tokensFrom_tokenize (src : Bytes) : TokensFrom 0 (tokenize src).1 :=
  tokensFrom_of_positioned (positioned_tokenize src)

/-! ### References -/

/-- The references stand one behind the other from an offset on, each token behind its leading
trivia. -/
def Placed (offset : Nat) : List TokenRef → Prop
  | [] => True
  | ref :: refs =>
    ref.token.start.offset = offset + (triviaText ref.leading).length ∧
      ref.token.stop.offset = ref.token.start.offset + ref.token.text.length ∧
      Placed (offset + ref.text.length) refs

lemma placed_append {offset : Nat} {front back : List TokenRef} : Placed offset (front ++ back) ↔
      Placed offset front ∧ Placed (offset + (flatten front).length) back := by
  induction front generalizing offset with
  | nil => simp [Placed]
  | cons ref front ih =>
    simp only [cons_append, Placed, ih, flatten_cons, length_append, ← Nat.add_assoc]
    tauto

lemma triviaText_length (toks : List Token) :
    (triviaText (toks.map triviaOf)).length = tokensLength toks := by
  rw [triviaText_map, tokensLength]

lemma placed_attachTriviaLoop (fuel : Nat) {offset : Nat} {toks : List Token}
    (from' : TokensFrom offset toks) : Placed offset (attachTriviaLoop fuel toks) := by
  induction fuel generalizing offset toks with
  | zero => trivial
  | succ fuel ih =>
    rw [← takeWhile_append_dropWhile (p := fun token : Token => token.kind.isTrivia)
      (l := toks), tokensFrom_append] at from'
    rw [attachTriviaLoop]
    split
    · trivial
    · rename_i sig after rest
      rw [rest] at from'
      obtain ⟨-, start, stop, behind⟩ := from'
      rw [← takeWhile_append_dropWhile (p := isTrailing) (l := after), tokensFrom_append] at behind
      split
      · exact ⟨by rw [triviaText_length, start], by rw [stop, start], trivial⟩
      · refine ⟨by rw [triviaText_length, start], by rw [stop, start], ?_⟩
        have next := ih behind.2
        rw [TokenRef.text, length_append, length_append, triviaText_length, triviaText_length]
        simpa only [Nat.add_assoc] using next

lemma placed_stream (src : Bytes) : Placed 0 (stream src) :=
  placed_attachTriviaLoop _ (tokensFrom_tokenize src)

end Rotor.Luau.Cst
