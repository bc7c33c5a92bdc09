import Rotor.Luau.Cst.Parse
import Rotor.Luau.Cst.StmtSpec

/-!
`Parse` returns on every text, with a file whose statements were read off the stream.
-/

namespace Rotor.Luau.Cst

open List Luau.Lex Lib Cursor

def trailingText (src : Bytes) : Bytes := ((stream src).getLastD .zero).text

lemma newCursor_stream (src : Bytes) :
    stream src = (newCursor src).toks ++ [(newCursor src).eof] := by
  obtain ⟨refs, last, split, -⟩ := stream_spec src
  simp [newCursor, split]

lemma newCursor_text (src : Bytes) :
    flatten (newCursor src).toks ++ (newCursor src).eof.text = src := by
  obtain ⟨refs, last, split, -, -, -, text⟩ := stream_spec src
  simpa [newCursor, split] using text

lemma parseRun_returns (src : Bytes) : ∃ stmts c,
    parseRun src = some (.file (.block stmts) (newCursor src).eof, c) ∧
      Yields (newCursor src) (stmtsEvents stmts) c ∧ c.toks = [] := by
  have enough : (newCursor src).toks.length ≤ (stream src).length := by
    simp [newCursor]
  obtain ⟨file, c, ran, stmts, rfl, yields, empty⟩ :=
    parseFile_returns (parseRule_sound (stream src).length) enough
  exact ⟨stmts, c, ran, yields, empty⟩

end Rotor.Luau.Cst
