import Rotor.Luau.Cst.Parser

/-!
`Parse`: from a text to its tree and diagnostics.
-/

namespace Rotor.Luau.Cst

open Luau.Lex Lib

def stream (src : Bytes) : List TokenRef := attachTrivia (tokenize src).1

/-- The stream ends with its only `eof` reference, which has no trailing trivia, and
its texts make up the source. -/
theorem stream_spec (src : Bytes) : ∃ refs last, stream src = refs ++ [last] ∧
    (∀ ref ∈ refs, ref.token.kind ≠ .eof) ∧ last.token.kind = .eof ∧
    last.text = triviaText last.leading ∧ flatten refs ++ last.text = src := by
  obtain ⟨toks, eof, tokens, eofKind, eofText, kinds, texts⟩ := tokenize_tokens src
  obtain ⟨refs, last, attached, spec⟩ := attachTrivia_spec eofKind toks kinds
  refine ⟨refs, last, ?_, ?_, ?_, ?_, ?_⟩
  · rw [stream, tokens, attached]
  · intro ref mem
    have inside : ref.token ∈ significant toks := spec.tokens ▸ List.mem_map_of_mem mem
    exact kinds ref.token (List.mem_filter.mp inside).1
  · rw [spec.eofToken, eofKind]
  · simp [TokenRef.text, spec.eofToken, eofText, spec.noTrailing, triviaText]
  · rw [spec.text, texts, eofText, List.append_nil]

lemma stream_dropLast_kind (src : Bytes) :
    ∀ ref ∈ (stream src).dropLast, ref.token.kind ≠ .eof := by
  obtain ⟨refs, last, split, kinds, -⟩ := stream_spec src
  rw [split, List.dropLast_concat]
  exact kinds

lemma stream_getLastD_kind (src : Bytes) : ((stream src).getLastD .zero).token.kind = .eof := by
  obtain ⟨refs, last, split, -, kind, -⟩ := stream_spec src
  rw [split, List.getLastD_concat]
  exact kind

def newCursor (src : Bytes) : Cursor where
  toks := (stream src).dropLast
  eof := (stream src).getLastD .zero
  diags := (tokenize src).2.map fun diag => ⟨diag.pos, str diag.message⟩
  tokKinds := stream_dropLast_kind src
  eofKind := stream_getLastD_kind src

/-- `Parse` with the cursor it ends in.  A rule is entered again only behind a
consumed reference, so the depth never exceeds the length of the stream. -/
def parseRun (src : Bytes) : Option (Node × Cursor) :=
  parseFile (parseRule (stream src).length) (newCursor src)

def parse (src : Bytes) : Option (Node × List Diagnostic) :=
  (parseRun src).map fun (file, c) => (file, c.diags)

end Rotor.Luau.Cst
