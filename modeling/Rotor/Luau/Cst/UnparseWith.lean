import Rotor.Lib.Splice
import Rotor.Luau.Cst.CleanParse
import Rotor.Luau.Cst.Placed
import Mathlib.Data.List.Basic

/-!
Unparsing with replacements (`cst/transform.go`).

A node is named by its place in the order of `EachNode`, so that a map from nodes to texts is a
function of places: the node at a place and the nodes beneath it take the places from there on. The
walk emits the references outside of the replaced nodes and one piece for each of these. In the
place of a node with a token it puts the text between the trivia of its first and last token; that
of a node without one is put where the walk is.
-/

namespace Rotor.Luau.Cst

open List Luau.Lex Lib

def tokensOf (refs : List TokenRef) : List TokenRef := refs.filter fun ref => !ref.isEof

/-- `firstRef`: the first reference beneath the node that is not the end of the file. -/
def firstRef (node : Node) : Option TokenRef := (tokensOf node.refs).head?

def lastRef (node : Node) : Option TokenRef := (tokensOf node.refs).getLast?

/-- What the walk emits: a reference, or a text for a node. -/
inductive Piece where
  | kept (ref : TokenRef)
  | replaced (node : Node) (rep : Bytes)

/-- The pieces of a walk that has come to the node at a place, with a number of events to pass over
that belong to a replaced node. -/
def pieces (replace : Nat → Option Bytes) : List Event → Nat → Nat → List Piece
  | [], _, _ => []
  | .enter _ :: events, place, skipped + 1 => pieces replace events (place + 1) skipped
  | _ :: events, place, skipped + 1 => pieces replace events place skipped
  | .ref ref :: events, place, 0 => .kept ref :: pieces replace events place 0
  | .stmt _ :: events, place, 0 => pieces replace events place 0
  | .enter node :: events, place, 0 =>
    match replace place with
    | some rep =>
      .replaced node rep :: pieces replace events (place + 1) (node.events.length - 1)
    | none => pieces replace events (place + 1) 0

def Piece.text : Piece → Bytes
  | .kept ref => ref.text
  | .replaced node rep =>
    (((firstRef node).map fun ref => triviaText ref.leading).getD []) ++ rep ++
      ((lastRef node).map fun ref => triviaText ref.trailing).getD []

def unparseWith (node : Node) (replace : Nat → Option Bytes) : Bytes :=
  ((pieces replace node.events 0 0).map Piece.text).flatten

/-! ### The edited source -/

/-- No mapped node above the place reaches as far as it. -/
def isOutermost (replace : Nat → Option Bytes) (nodes : List Node) (place : Nat) : Bool :=
  (range place).all fun above =>
    (replace above).isNone || above + (nodes[above]?.elim 0 fun node => node.nodes.length) ≤ place

/-- The mapped nodes that are in no other mapped node, with their texts. -/
def outermost (replace : Nat → Option Bytes) (nodes : List Node) : List (Node × Bytes) :=
  (range nodes.length).filterMap fun place =>
    if isOutermost replace nodes place then
      nodes[place]?.bind fun node => (replace place).map fun rep => (node, rep)
    else none

/-- The span of a node, from the beginning of its first token to the end of its last. -/
def edit (node : Node) (rep : Bytes) : Option (Edit UInt8) :=
  (firstRef node).bind fun first => (lastRef node).map fun last =>
    ⟨first.token.start.offset, last.token.stop.offset, rep⟩

/-- The source with the spans of the outermost mapped nodes replaced. -/
def edited (src : Bytes) (node : Node) (replace : Nat → Option Bytes) : Bytes :=
  splice src 0 ((outermost replace node.nodes).filterMap fun mapped => edit mapped.1 mapped.2)

/-- The text of the references to the end of the file. -/
def eofText (refs : List TokenRef) : Bytes := flatten (refs.filter TokenRef.isEof)

/-- The replacement of a node without a token is empty and the end of the file is not taken, with
trivia before it, by a node that stays; a replaced file has no trivia before its end. -/
def editsCleanly (src : Bytes) (replace : Nat → Option Bytes) : Node → Bool
  | .file body eof =>
    match replace 0 with
    | some rep =>
      if (tokensOf body.refs).isEmpty then rep == src else (trailingText src).isEmpty
    | none =>
      let outermost := outermost replace (Node.file body eof).nodes
      outermost.all (fun mapped => !(tokensOf mapped.1.refs).isEmpty || mapped.2.isEmpty) &&
        (eofText body.refs).length ==
          (outermost.flatMap fun mapped => eofText mapped.1.refs).length
  | _ => true

/-! ### Walks are nested -/

inductive Nested : List Event → Prop where
  | nil : Nested []
  | ref {ref : TokenRef} {rest : List Event} : Nested rest → Nested (.ref ref :: rest)
  | stmt {node : Node} {rest : List Event} : Nested rest → Nested (.stmt node :: rest)
  | enter {node : Node} {inner rest : List Event} : node.events = .enter node :: inner →
      Nested inner → Nested rest → Nested (.enter node :: (inner ++ rest))

lemma Nested.append {front back : List Event} (nestedFront : Nested front)
    (nestedBack : Nested back) : Nested (front ++ back) := by
  induction nestedFront with
  | nil => exact nestedBack
  | ref _ ih => exact .ref ih
  | stmt _ ih => exact .stmt ih
  | enter own nestedInner _ _ ih =>
    rw [cons_append, append_assoc]
    exact .enter own nestedInner ih

lemma nested_events (node : Node) : Nested node.events := by
  have respects : RespectsOwn Nested :=
    { nil := .nil
      enter := fun own nested => by simpa using Nested.enter own nested .nil
      ref := .ref
      stmt := .stmt
      append := .append }
  exact respects.events node

variable {replace : Nat → Option Bytes}

lemma pieces_skip (front rest : List Event) (place : Nat) :
    pieces replace (front ++ rest) place front.length =
      pieces replace rest (place + (eventNodes front).length) 0 := by
  induction front generalizing place with
  | nil => simp
  | cons event front ih =>
    cases event with
    | enter node =>
      rw [cons_append, length_cons, pieces, ih, eventNodes_enter,
        length_cons, Nat.add_right_comm, Nat.add_assoc]
    | ref ref => rw [cons_append, length_cons, pieces, ih]; simp; simp
    | stmt node => rw [cons_append, length_cons, pieces, ih]; simp; simp

lemma pieces_enter {node : Node} {inner : List Event} (own : node.events = .enter node :: inner)
    (rest : List Event) (place : Nat) :
    pieces replace (.enter node :: (inner ++ rest)) place 0 =
      match replace place with
      | some rep => .replaced node rep ::
          pieces replace rest (place + 1 + (eventNodes inner).length) 0
      | none => pieces replace (inner ++ rest) (place + 1) 0 := by
  have length : node.events.length - 1 = inner.length := by
    rw [own, length_cons, Nat.add_sub_cancel]
  rw [pieces, length, pieces_skip]

lemma pieces_append {front : List Event} (nested : Nested front) (back : List Event)
    (place : Nat) : pieces replace (front ++ back) place 0 = pieces replace front place 0 ++
        pieces replace back (place + (eventNodes front).length) 0 := by
  induction nested generalizing back place with
  | nil => simp [pieces]
  | ref _ ih =>
    rw [cons_append, pieces, pieces, ih]
    simp
  | stmt _ ih =>
    rw [cons_append, pieces, pieces, ih]
    simp
  | @enter node inner rest own _ _ ofInner ofRest =>
    have total : place + (eventNodes (.enter node :: (inner ++ rest))).length =
        place + 1 + (eventNodes inner).length + (eventNodes rest).length := by
      rw [eventNodes_enter, eventNodes_append, length_cons, length_append]
      omega
    rw [total, cons_append, append_assoc, pieces_enter own, pieces_enter own]
    cases replace place with
    | some rep =>
      dsimp only
      rw [ofRest, cons_append]
    | none =>
      dsimp only
      rw [ofInner, ofInner, ofRest, append_assoc]

def Piece.tokens : Piece → List TokenRef
  | .kept ref => tokensOf [ref]
  | .replaced node _ => tokensOf node.refs

lemma tokensOf_append (front back : List TokenRef) :
    tokensOf (front ++ back) = tokensOf front ++ tokensOf back := filter_append ..

lemma pieces_tokens {events : List Event} (nested : Nested events) (place : Nat) :
    ((pieces replace events place 0).map Piece.tokens).flatten = tokensOf (eventRefs events) := by
  induction nested generalizing place with
  | nil => rfl
  | @ref ref rest _ ih =>
    rw [pieces, map_cons, List.flatten_cons, ih, eventRefs_ref, ← singleton_append, tokensOf_append]
    rfl
  | stmt _ ih => rw [pieces, ih, eventRefs_stmt]
  | @enter node inner rest own nestedInner _ ofInner ofRest =>
    rw [pieces_enter own, eventRefs_enter, eventRefs_append, tokensOf_append]
    cases replace place with
    | some rep =>
      have refs : node.refs = eventRefs inner := by rw [Node.refs, own, eventRefs_enter]
      dsimp only
      rw [map_cons, List.flatten_cons, ofRest, Piece.tokens, refs]
    | none =>
      dsimp only
      rw [pieces_append nestedInner, map_append, List.flatten_append, ofInner, ofRest]

def Piece.mapped : Piece → Option (Node × Bytes)
  | .kept _ => none
  | .replaced node rep => some (node, rep)

def Piece.edit (piece : Piece) : Option (Edit UInt8) :=
  piece.mapped.bind fun mapped => Cst.edit mapped.1 mapped.2

/-- What is emitted besides the edited source. -/
def Piece.stray : Piece → Bytes
  | .kept ref => if ref.isEof then ref.text else []
  | .replaced node rep => if (tokensOf node.refs).isEmpty then rep else []

/-! ### Outermost nodes -/

/-- A node and those beneath it lie together. -/
lemma Nested.extent {events : List Event} (nested : Nested events) {place : Nat} {node : Node}
    (there : (eventNodes events)[place]? = some node) :
    place + node.nodes.length ≤ (eventNodes events).length := by
  induction nested generalizing place with
  | nil => nomatch there
  | ref _ ih => exact ih there
  | stmt _ ih => exact ih there
  | @enter entered inner rest own _ _ ofInner ofRest =>
    rw [eventNodes_enter, eventNodes_append] at there ⊢
    rw [length_cons, length_append]
    cases place with
    | zero =>
      obtain rfl := Option.some.inj there
      rw [Node.nodes, own, eventNodes_enter, length_cons]
      omega
    | succ place =>
      rw [List.getElem?_cons_succ, List.getElem?_append] at there
      split at there
      · have := ofInner there
        omega
      · have := ofRest there
        omega

lemma isOutermost_append {front back : List Node} {place : Nat}
    (extent : ∀ above node, front[above]? = some node → above + node.nodes.length ≤ front.length) :
    isOutermost replace (front ++ back) (front.length + place) =
      isOutermost (fun place => replace (front.length + place)) back place := by
  have inFront : (range front.length).all (fun above => (replace above).isNone ||
      decide (above + ((front ++ back)[above]?.elim 0 fun node => node.nodes.length) ≤
        front.length + place)) = true := by
    rw [all_eq_true]
    intro above mem
    have below := mem_range.mp mem
    rw [List.getElem?_append_left below, List.getElem?_eq_getElem below]
    exact (Bool.or_eq_true ..).mpr (.inr (decide_eq_true
      ((extent above _ (List.getElem?_eq_getElem below)).trans (Nat.le_add_right ..))))
  rw [isOutermost, range_add, all_append, inFront, Bool.true_and, all_map]
  refine all_congr rfl fun above => ?_
  simp only [Function.comp_apply, List.getElem?_append_right (Nat.le_add_right ..),
    Nat.add_sub_cancel_left, Nat.add_assoc, Nat.add_le_add_iff_left]

lemma outermost_append {front back : List Node}
    (extent : ∀ above node, front[above]? = some node → above + node.nodes.length ≤ front.length) :
    outermost replace (front ++ back) = outermost replace front ++
      outermost (fun place => replace (front.length + place)) back := by
  rw [outermost, length_append, range_add, filterMap_append, filterMap_map]
  congr 1
  · refine filterMap_congr fun place mem => ?_
    have below := mem_range.mp mem
    have same : isOutermost replace (front ++ back) place = isOutermost replace front place := by
      rw [isOutermost, isOutermost, Bool.eq_iff_iff, all_eq_true, all_eq_true]
      refine forall₂_congr fun above mem => ?_
      rw [List.getElem?_append_left ((mem_range.mp mem).trans below)]
    rw [same, List.getElem?_append_left below]
  · refine filterMap_congr fun place _ => ?_
    simp only [Function.comp_apply, isOutermost_append extent,
      List.getElem?_append_right (Nat.le_add_right ..), Nat.add_sub_cancel_left]

lemma outermost_cons_none {node : Node} {nodes : List Node} (kept : replace 0 = none) :
    outermost replace (node :: nodes) = outermost (fun place => replace (place + 1)) nodes := by
  rw [outermost, length_cons, range_succ_eq_map, filterMap_cons_none (by simp [kept]),
    filterMap_map]
  refine filterMap_congr fun place _ => ?_
  have shift : isOutermost replace (node :: nodes) (place + 1) =
      isOutermost (fun place => replace (place + 1)) nodes place := by
    rw [isOutermost, range_succ_eq_map, all_cons, kept, all_map]
    refine all_congr rfl fun above => ?_
    simp only [Function.comp_apply, Nat.succ_eq_add_one, List.getElem?_cons_succ]
    grind
  simp only [Function.comp_apply, Nat.succ_eq_add_one, shift, List.getElem?_cons_succ]

lemma outermost_cons_some {node : Node} {nodes : List Node} {rep : Bytes}
    (mapped : replace 0 = some rep) (extent : node.nodes.length = nodes.length + 1) :
    outermost replace (node :: nodes) = [(node, rep)] := by
  rw [outermost, length_cons, range_succ_eq_map,
    filterMap_cons_some (show _ = some (node, rep) by simp [isOutermost, mapped]),
    cons_inj_right, filterMap_eq_nil_iff]
  intro place mem
  obtain ⟨below, among, rfl⟩ := mem_map.mp mem
  have covered : isOutermost replace (node :: nodes) (below + 1) = false := by
    rw [isOutermost, all_eq_false]
    refine ⟨0, by simp, ?_⟩
    have := mem_range.mp among
    simp [mapped]
    omega
  simp [covered]

/-- The walk replaces the outermost mapped nodes. -/
lemma pieces_mapped {events : List Event} (nested : Nested events) (place : Nat) :
    (pieces replace events place 0).filterMap Piece.mapped =
      outermost (fun other => replace (place + other)) (eventNodes events) := by
  induction nested generalizing place with
  | nil => rfl
  | ref _ ih => exact ih place
  | stmt _ ih => exact ih place
  | @enter node inner rest own nestedInner _ ofInner ofRest =>
    have nodes : node.nodes = node :: eventNodes inner := by rw [Node.nodes, own, eventNodes_enter]
    rw [pieces_enter own, eventNodes_enter, eventNodes_append]
    cases mapped : replace place with
    | some rep =>
      have whole := @outermost_append (fun other => replace (place + other))
        (node :: eventNodes inner) (eventNodes rest) (by
          have extent := @Nested.extent _ (nested_events node)
          rwa [show eventNodes node.events = _ from nodes] at extent)
      have first := @outermost_cons_some (fun other => replace (place + other)) node
        (eventNodes inner) rep mapped (by rw [nodes, length_cons])
      rw [← cons_append, whole, first]
      simp only [filterMap_cons, Piece.mapped, ofRest, length_cons, singleton_append,
        Nat.add_assoc, Nat.add_comm 1]
    | none =>
      dsimp only
      rw [pieces_append nestedInner, filterMap_append, ofInner, ofRest,
        outermost_cons_none (by simpa using mapped),
        outermost_append fun _ _ there => nestedInner.extent there]
      simp only [Nat.add_assoc, Nat.add_comm 1]

/-! ### Spans -/

lemma Placed.start_ge {offset : Nat} {refs : List TokenRef} (placed : Placed offset refs) :
    ∀ ref ∈ refs, offset ≤ ref.token.start.offset := by
  induction refs generalizing offset with
  | nil => nofun
  | cons first refs ih =>
    obtain ⟨start, -, later⟩ := placed
    intro ref mem
    rcases mem_cons.1 mem with rfl | mem
    · omega
    · have := ih later ref mem
      omega

/-- The trivia around a span of tokens stay outside of it. -/
theorem span_of_placed {src rest : Bytes} {place : Nat} {refs : List TokenRef} (some' : refs ≠ [])
    (placed : Placed place refs) (here : src.drop place = flatten refs ++ rest) :
    ∃ first last, refs.head? = some first ∧ refs.getLast? = some last ∧
      (src.drop place).take (first.token.start.offset - place) = triviaText first.leading ∧
      src.drop last.token.stop.offset = triviaText last.trailing ++ rest ∧
      last.token.stop.offset + (triviaText last.trailing).length =
        place + (flatten refs).length := by
  obtain ⟨first, more, rfl⟩ := exists_cons_of_ne_nil some'
  obtain ⟨front, last, split⟩ : ∃ front last, first :: more = front ++ [last] :=
    ⟨_, _, (dropLast_concat_getLast some').symm⟩
  have begins : (src.drop place).take (first.token.start.offset - place) =
      triviaText first.leading := by
    rw [here, placed.1, Nat.add_sub_cancel_left, flatten_cons, TokenRef.text]
    simp only [append_assoc, take_left]
  rw [split, placed_append] at placed
  obtain ⟨-, start, stop, -⟩ := placed
  have shape : src.drop place = (flatten front ++ (triviaText last.leading ++ last.token.text)) ++
      (triviaText last.trailing ++ rest) := by
    rw [here, split, flatten_append, flatten_cons, flatten_nil, TokenRef.text]
    simp only [append_assoc, append_nil]
  have stopOffset : last.token.stop.offset =
      place + (flatten front ++ (triviaText last.leading ++ last.token.text)).length := by
    simp only [length_append]
    omega
  refine ⟨first, last, rfl, by rw [split, List.getLast?_concat], begins, ?_, ?_⟩
  · rw [stopOffset, ← drop_drop, shape, drop_left]
  · rw [stopOffset, split, flatten_append, flatten_cons, flatten_nil, TokenRef.text]
    simp only [length_append, append_nil]
    omega

def piecesTokens (list : List Piece) : List TokenRef := (list.map Piece.tokens).flatten

lemma edits_later {place : Nat} {list : List Piece} (placed : Placed place (piecesTokens list)) :
    ∀ edit ∈ list.filterMap Piece.edit, place ≤ edit.start := by
  intro edit mem
  obtain ⟨piece, inside, made⟩ := mem_filterMap.1 mem
  cases piece with
  | kept ref => nomatch made
  | replaced node rep =>
    obtain ⟨first, found, made⟩ := Option.bind_eq_some_iff.1 (show Cst.edit node rep = _ from made)
    obtain ⟨last, -, rfl⟩ := Option.map_eq_some_iff.1 made
    apply placed.start_ge first
    exact mem_flatten.2 ⟨_, mem_map_of_mem inside, mem_of_head? found⟩

/-- What is emitted has everything of the edited source in order, and the strays besides. -/
structure Spliced (src : Bytes) (place : Nat) (tail : Bytes) (list : List Piece) : Prop where
  sublist : (splice src place (list.filterMap Piece.edit)).Sublist
    ((list.map Piece.text).flatten ++ tail)
  length : ((list.map Piece.text).flatten ++ tail).length =
    (splice src place (list.filterMap Piece.edit)).length + (list.map Piece.stray).flatten.length

variable {src tail : Bytes} {list : List Piece} {place : Nat}

lemma Spliced.of_stray (spliced : Spliced src place tail list) {piece : Piece}
    (noEdit : piece.edit = none) (text : piece.text = piece.stray) :
    Spliced src place tail (piece :: list) where
  sublist := by
    rw [filterMap_cons_none noEdit, map_cons, List.flatten_cons, append_assoc]
    exact spliced.sublist.trans (sublist_append_right ..)
  length := by
    have length := spliced.length
    rw [filterMap_cons_none noEdit, map_cons, List.flatten_cons, map_cons, List.flatten_cons, text]
    simp only [length_append] at length ⊢
    omega

lemma Spliced.of_exact {next : Nat} (spliced : Spliced src next tail list) {piece : Piece}
    (exact' : splice src place ((piece :: list).filterMap Piece.edit) =
      piece.text ++ splice src next (list.filterMap Piece.edit))
    (noStray : piece.stray = []) : Spliced src place tail (piece :: list) where
  sublist := by
    rw [exact', map_cons, List.flatten_cons, append_assoc]
    exact (List.Sublist.refl _).append spliced.sublist
  length := by
    have length := spliced.length
    rw [exact', map_cons, List.flatten_cons, map_cons, List.flatten_cons, noStray, nil_append]
    simp only [length_append] at length ⊢
    omega

lemma drop_behind {front rest : Bytes} (here : src.drop place = front ++ rest) :
    src.drop (place + front.length) = rest := by
  rw [← drop_drop, here, drop_left]

lemma splice_replaced {node : Node} {rep rest : Bytes} (some' : tokensOf node.refs ≠ [])
    (placed : Placed place (tokensOf node.refs))
    (here : src.drop place = flatten (tokensOf node.refs) ++ rest)
    (later : ∀ edit ∈ list.filterMap Piece.edit,
      place + (flatten (tokensOf node.refs)).length ≤ edit.start) :
    splice src place ((.replaced node rep :: list).filterMap Piece.edit) =
      (Piece.replaced node rep).text ++ splice src
        (place + (flatten (tokensOf node.refs)).length) (list.filterMap Piece.edit) := by
  obtain ⟨first, last, isFirst, isLast, front, back, stop⟩ := span_of_placed some' placed here
  have edit : (Piece.replaced node rep).edit =
      some ⟨first.token.start.offset, last.token.stop.offset, rep⟩ := by
    change edit node rep = _
    rw [edit, firstRef, lastRef, isFirst, isLast]
    rfl
  have text : (Piece.replaced node rep).text =
      triviaText first.leading ++ rep ++ triviaText last.trailing := by
    rw [Piece.text, firstRef, lastRef, isFirst, isLast]
    rfl
  rw [← stop] at later
  rw [filterMap_cons_some edit, splice, front, splice_front back later, stop, text]
  simp only [append_assoc]

lemma spliced_pieces (here : src.drop place = flatten (piecesTokens list) ++ tail)
    (placed : Placed place (piecesTokens list)) : Spliced src place tail list := by
  induction list generalizing place with
  | nil =>
    have whole : splice src place [] = tail := here
    exact ⟨whole ▸ List.Sublist.refl _, by rw [filterMap_nil, whole]; rfl⟩
  | cons piece list ih =>
    have cut : piecesTokens (piece :: list) = piece.tokens ++ piecesTokens list := rfl
    rw [cut, flatten_append, append_assoc] at here
    rw [cut, placed_append] at placed
    have spliced := ih (drop_behind here) placed.2
    have later := edits_later placed.2
    cases piece with
    | kept ref =>
      cases eof : ref.isEof with
      | true =>
        have none : (Piece.kept ref).tokens = [] := by simp [Piece.tokens, tokensOf, eof]
        rw [none] at spliced
        exact spliced.of_stray rfl (by simp [Piece.text, Piece.stray, eof])
      | false =>
        have one : (Piece.kept ref).tokens = [ref] := by simp [Piece.tokens, tokensOf, eof]
        rw [one] at spliced here later
        simp only [flatten_cons, flatten_nil, append_nil] at spliced here later
        exact spliced.of_exact (splice_front here later) (by simp [Piece.stray, eof])
    | replaced node rep =>
      by_cases none : tokensOf node.refs = []
      · have noTokens : (Piece.replaced node rep).tokens = [] := none
        rw [noTokens] at spliced
        refine spliced.of_stray ?_ ?_
        · change edit node rep = Option.none
          rw [edit, firstRef, none]
          rfl
        · simp [Piece.text, Piece.stray, firstRef, lastRef, none]
      · refine spliced.of_exact (splice_replaced none placed.1 here later) ?_
        simp [Piece.stray, none]

lemma Spliced.eq_iff (spliced : Spliced src place tail list) :
    (list.map Piece.text).flatten ++ tail = splice src place (list.filterMap Piece.edit) ↔
      ∀ piece ∈ list, piece.stray = [] := by
  have strays : (list.map Piece.stray).flatten = [] ↔ ∀ piece ∈ list, piece.stray = [] := by
    rw [flatten_eq_nil_iff, forall_mem_map]
  rw [← strays, ← length_eq_zero_iff]
  constructor
  · intro same
    have length := spliced.length
    rw [same] at length
    omega
  · intro none
    exact (spliced.sublist.eq_of_length (by rw [spliced.length, none, Nat.add_zero])).symm

/-! ### Strays -/

def Piece.eofText : Piece → Bytes
  | .kept ref => Cst.eofText [ref]
  | .replaced node _ => Cst.eofText node.refs

lemma eofText_append (front back : List TokenRef) :
    eofText (front ++ back) = eofText front ++ eofText back := by
  rw [eofText, filter_append, flatten_append]
  rfl

lemma pieces_eofText {events : List Event} (nested : Nested events) (place : Nat) :
    ((pieces replace events place 0).map Piece.eofText).flatten = eofText (eventRefs events) := by
  induction nested generalizing place with
  | nil => rfl
  | @ref ref rest _ ih =>
    rw [pieces, map_cons, List.flatten_cons, ih, eventRefs_ref, ← singleton_append, eofText_append]
    rfl
  | stmt _ ih => rw [pieces, ih, eventRefs_stmt]
  | @enter node inner rest own nestedInner _ ofInner ofRest =>
    rw [pieces_enter own, eventRefs_enter, eventRefs_append, eofText_append]
    cases replace place with
    | some rep =>
      have refs : node.refs = eventRefs inner := by rw [Node.refs, own, eventRefs_enter]
      dsimp only
      rw [map_cons, List.flatten_cons, ofRest, Piece.eofText, refs]
    | none =>
      dsimp only
      rw [pieces_append nestedInner, map_append, List.flatten_append, ofInner, ofRest]

lemma eofText_mapped_le (list : List Piece) :
    ((list.filterMap Piece.mapped).flatMap fun mapped => eofText mapped.1.refs).length ≤
      (list.map Piece.eofText).flatten.length := by
  induction list with
  | nil => exact Nat.le_refl _
  | cons piece list ih =>
    rw [map_cons, List.flatten_cons, length_append]
    cases piece with
    | kept ref => exact Nat.le_add_left_of_le ih
    | replaced node rep =>
      rw [filterMap_cons, Piece.mapped, flatMap_cons, length_append, Piece.eofText]
      exact Nat.add_le_add_left ih _

/-- There are no strays where the texts of nodes without a token are empty and the references to
the end of the file that have a text are in replaced nodes. -/
lemma strays_iff (list : List Piece) : (∀ piece ∈ list, piece.stray = []) ↔
    ((list.filterMap Piece.mapped).all fun mapped =>
        !(tokensOf mapped.1.refs).isEmpty || mapped.2.isEmpty) = true ∧
      (list.map Piece.eofText).flatten.length =
        ((list.filterMap Piece.mapped).flatMap fun mapped => eofText mapped.1.refs).length := by
  induction list with
  | nil => simp
  | cons piece list ih =>
    have le := eofText_mapped_le list
    rw [forall_mem_cons, ih]
    cases piece with
    | kept ref =>
      have own : (Piece.kept ref).stray = (Piece.kept ref).eofText := by
        cases eof : ref.isEof <;> simp [Piece.stray, Piece.eofText, eofText, eof]
      simp only [Piece.mapped, filterMap_cons, map_cons, List.flatten_cons, length_append, own]
      rw [← length_eq_zero_iff]
      constructor
      · rintro ⟨none, clean, same⟩
        exact ⟨clean, by omega⟩
      · rintro ⟨clean, same⟩
        exact ⟨by omega, clean, by omega⟩
    | replaced node rep =>
      simp only [Piece.mapped, filterMap_cons, map_cons, List.flatten_cons, length_append,
        Piece.eofText, flatMap_cons, all_cons, Bool.and_eq_true, Nat.add_left_cancel_iff,
        ← and_assoc]
      simp [Piece.stray, or_iff_not_imp_left]

/-! ### Files -/

section File

variable {body : Node} {eof : TokenRef}

lemma file_events (body : Node) (eof : TokenRef) :
    (Node.file body eof).events = .enter (.file body eof) :: (body.events ++ [.ref eof]) := by
  rw [Node.events]
  rfl

lemma tokensOf_file (isEof : eof.isEof) :
    tokensOf (Node.file body eof).refs = tokensOf body.refs := by
  rw [Node.refs, file_events, eventRefs_enter, eventRefs_append, tokensOf_append]
  simp [eventRefs, tokensOf, isEof, Node.refs]

lemma pieces_file_some {rep : Bytes} (replaced : replace 0 = some rep) :
    pieces replace (Node.file body eof).events 0 0 = [.replaced (.file body eof) rep] := by
  have whole := @pieces_enter replace _ _ (file_events body eof) [] 0
  rw [append_nil, replaced] at whole
  rw [file_events, whole]
  rfl

lemma pieces_file_none (kept : replace 0 = none) :
    pieces replace (Node.file body eof).events 0 0 =
      pieces replace body.events 1 0 ++ [.kept eof] := by
  rw [file_events, pieces, kept]
  exact pieces_append (nested_events body) [.ref eof] 1

lemma unparseWith_file_iff {src : Bytes} (isEof : eof.isEof)
    (trailing : trailingText src = eof.text) (text : flatten (tokensOf body.refs) ++ eof.text = src)
    (placed : Placed 0 (tokensOf body.refs)) :
    unparseWith (.file body eof) replace = edited src (.file body eof) replace ↔
      editsCleanly src replace (.file body eof) := by
  have mapped := @pieces_mapped replace _ (nested_events (.file body eof)) 0
  simp only [Nat.zero_add] at mapped
  rw [unparseWith, edited, Node.nodes, ← mapped, editsCleanly, Node.nodes, ← mapped,
    filterMap_filterMap]
  change _ = splice src 0 ((pieces replace _ 0 0).filterMap Piece.edit) ↔ _
  cases isMapped : replace 0 with
  | none =>
    have tokens := @pieces_tokens replace _ (nested_events body) 1
    have here : src.drop 0 =
        flatten (piecesTokens (pieces replace body.events 1 0)) ++ eof.text := by
      rw [piecesTokens, tokens]
      exact text.symm
    have spliced : Spliced src 0 eof.text (pieces replace body.events 1 0) :=
      spliced_pieces here (by rw [piecesTokens, tokens]; exact placed)
    have noEdit : [Piece.kept eof].filterMap Piece.edit = [] := rfl
    have noNode : [Piece.kept eof].filterMap Piece.mapped = [] := rfl
    rw [pieces_file_none isMapped, map_append, List.flatten_append, filterMap_append,
      filterMap_append, noEdit, noNode, append_nil, append_nil]
    have strays := strays_iff (pieces replace body.events 1 0)
    rw [pieces_eofText (nested_events body)] at strays
    simpa [Piece.text, Node.refs] using spliced.eq_iff.trans strays
  | some rep =>
    rw [pieces_file_some isMapped]
    by_cases none : tokensOf body.refs = []
    · have noTokens : tokensOf (Node.file body eof).refs = [] := (tokensOf_file isEof).trans none
      have noEdit : (Piece.replaced (.file body eof) rep).edit = Option.none := by
        change edit _ rep = Option.none
        rw [edit, firstRef, noTokens]
        rfl
      have onlyText : (Piece.replaced (.file body eof) rep).text = rep := by
        simp [Piece.text, firstRef, lastRef, noTokens]
      rw [filterMap_cons_none noEdit, none]
      simp [onlyText, splice]
    · have span : splice src 0 ([.replaced (.file body eof) rep].filterMap Piece.edit) =
          (Piece.replaced (.file body eof) rep).text ++ eof.text := by
        rw [← tokensOf_file isEof] at none placed text
        have here : src.drop 0 = flatten (tokensOf (Node.file body eof).refs) ++ eof.text :=
          text.symm
        have replaced := @splice_replaced src [] 0 _ rep _ none placed here (forall_mem_nil _)
        rw [replaced, filterMap_nil, splice, drop_behind here]
      rw [span, trailing]
      simp [none]

end File

/-- `Parse` returns on every text, and unparsing with replacements gives the text with the spans of
the outermost nodes replaced exactly when the map edits cleanly. -/
theorem unparseWith_edits_iff (src : Bytes) (replace : Nat → Option Bytes) :
    ∃ file diags, parse src = some (file, diags) ∧
      (unparseWith file replace = edited src file replace ↔
        editsCleanly src replace file = true) := by
  obtain ⟨stmts, c, ran, yields, empty⟩ := parseRun_returns src
  refine ⟨_, c.diags, by rw [parse, ran]; rfl, ?_⟩
  have significant := yields.toks
  rw [empty, append_nil] at significant
  have tokens : tokensOf (Node.block stmts).refs = (newCursor src).toks := by
    rw [Node.refs, block_refs]
    exact significant.symm
  have placed := placed_stream src
  rw [newCursor_stream, placed_append] at placed
  apply unparseWith_file_iff
  · simpa [TokenRef.isEof] using (newCursor src).eofKind
  · rfl
  · rw [tokens, newCursor_text]
  · rw [tokens]
    exact placed.1

/-- Unparsing a text with one replacement, and the text with the span replaced. -/
def editedAndSpliced (src : Bytes) (place : Nat) (rep : Bytes) : Option (Bytes × Bytes × Bool) :=
  (parse src).map fun (file, diags) =>
    let replace := fun node => if node = place then some rep else none
    (unparseWith file replace, edited src file replace, diags.isEmpty)

/-- A replaced file loses the newline at its end, and an empty block takes in a text. -/
theorem unparseWith_misplaces :
    editedAndSpliced (str "f()\n") 0 (str "g()") = some (str "g()", str "g()\n", true) ∧
      editedAndSpliced (str "do end") 3 (str "g") = some (str "do gend", str "do end", true) := by
  decide +kernel

end Rotor.Luau.Cst
