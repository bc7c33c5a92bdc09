import Rotor.Luau.Cst.Parser

/-!
What a parsing routine does to the cursor, as one relation.

`Yields c events c'`: from `c` to `c'` the cursor has consumed exactly the
references of `events`, in order, and kept its diagnostics.  An `eof` reference may
stand among the events any number of times, since the cursor stays in front of it.
-/

namespace Rotor.Luau.Cst

open List Luau.Lex Lib Cursor

def TokenRef.isEof (ref : TokenRef) : Bool := ref.token.kind == .eof

structure Yields (c : Cursor) (events : List Event) (c' : Cursor) : Prop where
  eof : c'.eof = c.eof
  toks : c.toks = (eventRefs events).filter (fun ref => !ref.isEof) ++ c'.toks
  diags : c.diags <+: c'.diags

@[simp]
lemma eventRefs_append (first second : List Event) :
    eventRefs (first ++ second) = eventRefs first ++ eventRefs second := by
  simp [eventRefs]

@[simp]
lemma eventNodes_append (first second : List Event) :
    eventNodes (first ++ second) = eventNodes first ++ eventNodes second := by
  simp [eventNodes]

@[simp] lemma eventRefs_nil : eventRefs [] = [] := rfl

@[simp] lemma eventNodes_nil : eventNodes [] = [] := rfl

@[simp]
lemma eventRefs_ref (ref : TokenRef) (events : List Event) :
    eventRefs (.ref ref :: events) = ref :: eventRefs events := rfl

@[simp]
lemma eventRefs_enter (node : Node) (events : List Event) :
    eventRefs (.enter node :: events) = eventRefs events := rfl

@[simp]
lemma eventRefs_stmt (node : Node) (events : List Event) :
    eventRefs (.stmt node :: events) = eventRefs events := rfl

@[simp]
lemma eventNodes_ref (ref : TokenRef) (events : List Event) :
    eventNodes (.ref ref :: events) = eventNodes events := rfl

@[simp]
lemma eventNodes_enter (node : Node) (events : List Event) :
    eventNodes (.enter node :: events) = node :: eventNodes events := rfl

@[simp]
lemma eventNodes_stmt (node : Node) (events : List Event) :
    eventNodes (.stmt node :: events) = eventNodes events := rfl

namespace Yields

variable {c c' c'' : Cursor} {first second : List Event}

lemma refl (c : Cursor) : Yields c [] c := ⟨rfl, rfl, List.prefix_refl _⟩

lemma append (before : Yields c first c') (after : Yields c' second c'') :
    Yields c (first ++ second) c'' := by
  refine ⟨after.eof.trans before.eof, ?_, before.diags.trans after.diags⟩
  rw [before.toks, after.toks]
  simp

variable (yields : Yields c first c')
include yields

/-- Only the references matter, not where nodes are entered. -/
theorem congr (refs : eventRefs second = eventRefs first) : Yields c second c' := by
  refine ⟨yields.eof, ?_, yields.diags⟩
  rw [refs]
  exact yields.toks

lemma length_le : c'.toks.length ≤ c.toks.length := by
  rw [yields.toks, length_append]
  omega

lemma node {node : Node} (whole : node.events = .enter node :: first) : Yields c node.events c' :=
  yields.congr (by rw [whole, eventRefs_enter])

end Yields

/-! ### Tests of the reference ahead -/

variable {c : Cursor} {text : String}

lemma toks_ne_nil_of_kind {kind : Kind} (found : c.peek.token.kind = kind) (sig : kind ≠ .eof) :
    c.toks ≠ [] := by
  intro empty
  have last : c.peek = c.eof := by simp [peek, empty]
  exact sig (found.symm.trans (last ▸ c.eofKind))

lemma atKind_ahead {kind : Kind} (found : c.atKind kind) (sig : kind ≠ .eof) : c.toks ≠ [] :=
  toks_ne_nil_of_kind (of_decide_eq_true found) sig

lemma isSymbol_kind {tok : Token} (found : isSymbol tok text) : tok.kind = .symbol := by
  simp only [isSymbol, Bool.and_eq_true, beq_iff_eq] at found
  exact found.1

lemma isKeyword_kind {tok : Token} (found : isKeyword tok text) : tok.kind = .name := by
  simp only [isKeyword, Bool.and_eq_true, beq_iff_eq] at found
  exact found.1

lemma atSymbol_ahead (found : c.atSymbol text) : c.toks ≠ [] :=
  toks_ne_nil_of_kind (isSymbol_kind found) (by decide)

lemma atKeyword_ahead (found : c.atKeyword text) : c.toks ≠ [] :=
  toks_ne_nil_of_kind (isKeyword_kind found) (by decide)

lemma atEnd_iff : c.atEnd ↔ c.toks = [] := by
  constructor
  · intro found
    cases toks : c.toks with
    | nil => rfl
    | cons tok rest =>
      have kind : c.peek.token.kind = .eof := of_decide_eq_true found
      have ahead : c.peek = tok := by simp [peek, toks]
      exact absurd (ahead ▸ kind) (c.tokKinds tok (by simp [toks]))
  · intro empty
    have last : c.peek = c.eof := by simp [peek, empty]
    exact decide_eq_true (last ▸ c.eofKind)

lemma ahead_of_not_atEnd (inside : c.atEnd = false) : c.toks ≠ [] := by
  intro empty
  exact Bool.false_ne_true (inside.symm.trans (atEnd_iff.mpr empty))

/-! ### Single references -/

lemma advance_yields (c : Cursor) : Yields c [.ref c.peek] c.advance := by
  refine ⟨rfl, ?_, List.prefix_refl _⟩
  cases toks : c.toks with
  | nil => simp [peek, toks, advance, TokenRef.isEof, c.eofKind]
  | cons tok rest =>
    have kind : tok.token.kind ≠ .eof := c.tokKinds tok (by simp [toks])
    simp [peek, toks, advance, TokenRef.isEof, kind]

lemma report_yields (c : Cursor) (message : Bytes) : Yields c [] (c.report message) :=
  ⟨rfl, rfl, List.prefix_append _ _⟩

lemma report_advance_yields (c : Cursor) (message : Bytes) :
    Yields c [.ref c.peek] (c.report message).advance :=
  (report_yields c message).append (advance_yields (c.report message))

end Rotor.Luau.Cst
