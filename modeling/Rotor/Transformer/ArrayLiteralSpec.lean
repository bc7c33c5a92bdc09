import Rotor.Transformer.ArrayLiteral
import Mathlib.Algebra.GroupWithZero.Nat

/-!
An array literal is the concatenation of its parts.

The invariant of the emitted code is `_length + counter = number of values so far`. A loop counts
the elements since the last update into `_length` while the counter stays, so after it the next
value is put too far.
-/

namespace Rotor.Transformer.ArrayLiteral

open List Function

variable {W V : Type}

def tableOf (values : List V) : Nat → Option V
  | 0 => none
  | index + 1 => values[index]?

lemma newTable_map_some (values : List V) : newTable (values.map some) = tableOf values := by
  funext idx
  cases idx with
  | zero => rfl
  | succ idx =>
    rw [newTable, tableOf, List.getElem?_map]
    cases values[idx]? <;> rfl

lemma tableOf_append_singleton (values : List V) (val : V) :
    update (tableOf values) (values.length + 1) (some val) =
      tableOf (values ++ [val]) := by
  funext idx
  cases idx with
  | zero => rfl
  | succ idx =>
    by_cases last : idx = values.length
    · subst last
      simp [tableOf]
    · have shifted : idx + 1 ≠ values.length + 1 := by omega
      rw [update_of_ne shifted, tableOf, tableOf, List.getElem?_append]
      split
      · rfl
      · rw [getElem?_eq_none (by omega), getElem?_eq_none (by simp; omega)]

lemma moveInto_tableOf (values moved : List V) :
    moveInto (tableOf values) (values.length + 1) moved = tableOf (values ++ moved) := by
  induction moved generalizing values with
  | nil => rw [moveInto, append_nil]
  | cons val moved ih =>
    rw [moveInto, tableOf_append_singleton]
    have next := ih (values ++ [val])
    rw [length_append, length_singleton, append_assoc] at next
    exact next

lemma moveInto_before (array : Nat → Option V) (moved : List V) {start idx : Nat}
    (before : idx < start) : moveInto array start moved idx = array idx := by
  induction moved generalizing array start with
  | nil => rfl
  | cons val moved ih =>
    rw [moveInto, ih _ (by omega), update_of_ne (by omega)]

lemma appendValues_eq (store : Store W V) (values : List V) :
    appendValues store values = { store with
      array := moveInto store.array (store.length + 1) values
      length := store.length + values.length } := by
  induction values generalizing store with
  | nil => rfl
  | cons val values ih =>
    rw [appendValues, ih, moveInto]
    simp only [length_cons, Store.mk.injEq, true_and, and_true]
    omega

/-! ### Elements -/

lemma Element.hasPrereqs_iff (elem : Element W V) (temps : Nat) :
    elem.hasPrereqs = false ↔ (elem.transform temps).1 = [] := by
  rw [Element.hasPrereqs, Element.transform, Element.transform]
  cases elem.operand <;> simp

lemma Element.transform_run (elem : Element W V) (store : Store W V) :
    let ran := (elem.transform store.temporaries.length).1.foldl Statement.run store
    let (value, after) := (elem.transform store.temporaries.length).2.run ran
    value = some (elem.evaluate store.world).1 ∧
      after.world = (elem.evaluate store.world).2 ∧ after.array = store.array ∧
      after.length = store.length ∧
      after.temporaries.length = store.temporaries.length + elem.declared := by
  rw [Element.transform, Element.evaluate, Element.declared]
  cases elem.operand <;> cases elem.prereqs <;>
    simp [Expression.run, Statement.run]

/-! ### The parts of a literal with spreads -/

variable (fresh : List V → V)

def Spread.isLoop : Spread W V → Bool
  | .array _ => false
  | _ => true

/-- Every builder puts the items behind `_length` and the counter; a loop leaves `_length` with the
counter in it. -/
theorem builder_run (spread : Spread W V) (amt : Nat) (update : Bool) (store : Store W V) :
    (getAddIterableToArrayBuilder fresh spread amt update).foldl Statement.run store = { store with
        world := (spread.evaluate fresh store.world).2
        array := moveInto store.array (store.length + (amt + 1))
          (spread.evaluate fresh store.world).1
        length :=
          if spread.isLoop then store.length + amt + (spread.evaluate fresh store.world).1.length
          else if update then store.length + (spread.evaluate fresh store.world).1.length
          else store.length } := by
  have loop (input : W → List V × W) :
      (addLoopToArray input amt).foldl Statement.run store = { store with
        world := (input store.world).2
        array := moveInto store.array (store.length + (amt + 1)) (input store.world).1
        length := store.length + amt + (input store.world).1.length } := by
    rw [addLoopToArray, catchUpLength]
    split
    · simp [Statement.run, appendValues_eq, Nat.add_assoc]
    next none =>
      obtain rfl : amt = 0 := by omega
      simp [Statement.run, appendValues_eq]
  cases spread with
  | array items => rfl
  | string characters => exact loop characters
  | set members => exact loop members
  | map entries => exact loop (entryValues fresh entries)
  | iterableFunctionLuaTuple results => exact loop (tupleValues fresh results)
  | iterableFunction results => exact loop results
  | generator results => exact loop results

/-- The store after the statements for parts that follow the declaration of `_array`. -/
def runParts (amt : Nat) (parts : List (Part W V)) (store : Store W V) : Store W V :=
  (transformParts fresh .identifier amt store.temporaries.length parts).1.foldl Statement.run store

lemma transformParts_identifier (amt temps : Nat) (parts : List (Part W V)) :
    (transformParts fresh .identifier amt temps parts).2 = .identifier := by
  induction parts generalizing amt temps with
  | nil => rfl
  | cons part parts ih =>
    cases part with
    | element elem => exact ih _ _
    | spread spread => exact ih _ _

lemma runParts_element (amt : Nat) (elem : Element W V)
    (parts : List (Part W V)) (store : Store W V) :
    ∃ after : Store W V, after.world = (elem.evaluate store.world).2 ∧
      after.array = update store.array (store.length + (amt + 1))
        (some (elem.evaluate store.world).1) ∧
      after.length = store.length ∧
      runParts fresh amt (.element elem :: parts) store =
        runParts fresh (amt + 1) parts after := by
  have ran := elem.transform_run store
  simp only at ran
  obtain ⟨val, world, array, length, temps⟩ := ran
  generalize res : (elem.transform store.temporaries.length).2.run
    ((elem.transform store.temporaries.length).1.foldl Statement.run store) = evaluated at *
  refine ⟨{ evaluated.2 with
    array := update evaluated.2.array (evaluated.2.length + (amt + 1)) evaluated.1 },
    world, ?_, length, ?_⟩
  · rw [val, array, length]
  · rw [runParts, runParts, transformParts, foldl_append, foldl_cons, Statement.run, res]
    rw [temps]

lemma runParts_spread (amt : Nat) (spread : Spread W V)
    (parts : List (Part W V)) (store : Store W V) :
    runParts fresh amt (.spread spread :: parts) store = runParts fresh amt parts { store with
        world := (spread.evaluate fresh store.world).2
        array := moveInto store.array (store.length + (amt + 1))
          (spread.evaluate fresh store.world).1
        length :=
          if spread.isLoop then store.length + amt + (spread.evaluate fresh store.world).1.length
          else if !parts.isEmpty then store.length + (spread.evaluate fresh store.world).1.length
          else store.length } := by
  rw [runParts, transformParts, foldl_append, builder_run, runParts]

lemma runParts_world (amt : Nat) (parts : List (Part W V)) (store : Store W V) :
    (runParts fresh amt parts store).world = (evaluate fresh parts store.world).2 := by
  induction parts generalizing amt store with
  | nil => rfl
  | cons part parts ih =>
    cases part with
    | element elem =>
      obtain ⟨after, world, -, -, same⟩ := runParts_element fresh amt elem parts store
      rw [same, ih, world]
      rfl
    | spread spread =>
      rw [runParts_spread, ih]
      rfl

lemma runParts_behind (amt : Nat) (parts : List (Part W V)) (store : Store W V)
    {idx : Nat} (behind : idx < store.length + (amt + 1)) :
    (runParts fresh amt parts store).array idx = store.array idx := by
  induction parts generalizing amt store with
  | nil => rfl
  | cons part parts ih =>
    cases part with
    | element elem =>
      obtain ⟨after, -, array, length, same⟩ := runParts_element fresh amt elem parts store
      rw [same, ih _ _ (by omega), array, update_of_ne (by omega)]
    | spread spread =>
      rw [runParts_spread, ih]
      · exact moveInto_before _ _ behind
      · dsimp only
        split
        · omega
        · split <;> omega

lemma runParts_nothing (amt : Nat) (parts : List (Part W V)) (store : Store W V)
    (nothing : (evaluate fresh parts store.world).1.all (·.isEmpty)) :
    (runParts fresh amt parts store).array = store.array := by
  induction parts generalizing amt store with
  | nil => rfl
  | cons part parts ih =>
    cases part with
    | element elem => cases nothing
    | spread spread =>
      rw [evaluate, all_cons, Bool.and_eq_true, List.isEmpty_iff] at nothing
      rw [runParts_spread, ih _ _ nothing.2]
      rw [nothing.1]
      rfl

def nextCounter (element : Element W V) : Option Nat → Option Nat
  | none => if element.hasPrereqs then some 1 else none
  | some amt => some (amt + 1)

/-- A loop that stands behind counted elements is followed by nothing more to add. -/
def countedOnce : Option Nat → List (Part W V) → List (List V) → Bool
  | counter, .element element :: parts, _ :: values =>
    countedOnce (nextCounter element counter) parts values
  | counter, .spread spread :: parts, _ :: values =>
    (!spread.isLoop || counter.getD 0 = 0 || values.all (·.isEmpty)) &&
      countedOnce (some (counter.getD 0)) parts values
  | _, _, _ => true

lemma countedOnce_nothing (counter : Option Nat) (parts : List (Part W V)) (world : W)
    (nothing : (evaluate fresh parts world).1.all (·.isEmpty)) :
    countedOnce counter parts (evaluate fresh parts world).1 := by
  induction parts generalizing counter world with
  | nil => rfl
  | cons part parts ih =>
    cases part with
    | element elem => cases nothing
    | spread spread =>
      rw [evaluate, all_cons, Bool.and_eq_true] at nothing
      rw [evaluate, countedOnce, nothing.2, Bool.or_true, Bool.true_and]
      exact ih _ _ nothing.2

lemma flatten_eq_nil_iff_all (values : List (List V)) :
    values.flatten = [] ↔ values.all (·.isEmpty) := by
  rw [flatten_eq_nil_iff, all_eq_true]
  exact forall₂_congr fun _ _ => List.isEmpty_iff.symm

variable {done : List V} {elem : Element W V} {elements : List (Element W V)}

/-- Where the counter has been added to `_length` twice, nothing more may come. -/
theorem runParts_ahead (amt : Nat) (parts : List (Part W V)) (store : Store W V)
    (array : store.array = tableOf done) (ahead : done.length < store.length + amt) :
    (runParts fresh amt parts store).array =
        tableOf (done ++ (evaluate fresh parts store.world).1.flatten) ↔
      (evaluate fresh parts store.world).1.all (·.isEmpty) := by
  constructor
  · intro placed
    rw [← flatten_eq_nil_iff_all]
    have place := congrFun placed (done.length + 1)
    rw [runParts_behind fresh amt parts store (by omega), array, tableOf, tableOf,
      getElem?_append_right (Nat.le_refl _), Nat.sub_self,
      getElem?_eq_none (Nat.le_refl _)] at place
    exact List.head?_eq_none_iff.mp (List.head?_eq_getElem?.trans place.symm)
  · intro nothing
    rw [runParts_nothing fresh amt parts store nothing,
      (flatten_eq_nil_iff_all _).mpr nothing, append_nil, array]

/-- From an aligned store the parts are put in their places as long as no element is counted
twice. -/
theorem runParts_aligned (amt : Nat) (parts : List (Part W V)) (store : Store W V)
    (array : store.array = tableOf done) (aligned : store.length + amt = done.length) :
    (runParts fresh amt parts store).array =
        tableOf (done ++ (evaluate fresh parts store.world).1.flatten) ↔
      countedOnce (some amt) parts (evaluate fresh parts store.world).1 := by
  induction parts generalizing amt store done with
  | nil => simp [runParts, transformParts, evaluate, countedOnce, array]
  | cons part parts ih =>
    cases part with
    | element elem =>
      obtain ⟨after, world, afterArray, length, same⟩ := runParts_element fresh amt elem parts store
      rw [array, ← Nat.add_assoc, aligned, tableOf_append_singleton] at afterArray
      have next := ih (amt + 1) after afterArray
        (by rw [length, length_append, length_singleton]; omega)
      rw [world, append_assoc] at next
      rw [same]
      exact next
    | spread spread =>
      rw [runParts_spread, evaluate, countedOnce, List.flatten_cons, ← append_assoc]
      generalize spread.evaluate fresh store.world = evaluated
      obtain ⟨items, world⟩ := evaluated
      dsimp only [Option.getD_some]
      have moved : moveInto store.array (store.length + (amt + 1)) items =
          tableOf (done ++ items) := by
        rw [array, ← Nat.add_assoc, aligned, moveInto_tableOf]
      cases isLoop : spread.isLoop with
      | false =>
        simp only [Bool.false_eq_true, if_false]
        cases parts with
        | nil => simp [runParts, transformParts, evaluate, countedOnce, moved]
        | cons part parts =>
          refine ih amt _ moved ?_
          rw [isEmpty_cons, Bool.not_false, if_pos rfl, length_append]
          dsimp only
          omega
      | true =>
        rw [Bool.not_true, Bool.false_or]
        simp only [if_true]
        by_cases zero : amt = 0
        · subst zero
          exact ih 0 _ moved (by rw [length_append]; dsimp only; omega)
        · rw [decide_eq_false zero, Bool.false_or, Bool.and_eq_true]
          have ahead := runParts_ahead fresh amt parts { store with
              world := world
              array := moveInto store.array (store.length + (amt + 1)) items
              length := store.length + amt + items.length }
            moved (by rw [length_append]; dsimp only; omega)
          rw [ahead]
          exact ⟨fun nothing => ⟨nothing, countedOnce_nothing fresh _ _ _ nothing⟩, And.left⟩

/-! ### Literals that are inline -/

lemma runMembers_cons (store : Store W V) (mem : Expression W V) (members : List (Expression W V)) :
    runMembers store (mem :: members) =
      ((mem.run store).1 :: (runMembers (mem.run store).2 members).1,
        (runMembers (mem.run store).2 members).2) := rfl

lemma runMembers_append (store : Store W V) (members : List (Expression W V))
    (last : Expression W V) :
    runMembers store (members ++ [last]) =
      ((runMembers store members).1 ++ [(last.run (runMembers store members).2).1],
        (last.run (runMembers store members).2).2) := by
  induction members generalizing store with
  | nil => rfl
  | cons mem members ih =>
    rw [cons_append, runMembers_cons, runMembers_cons, ih]
    rfl

lemma Element.run_of_no_prereqs (none : elem.hasPrereqs = false) (store : Store W V) (temps : Nat) :
    (elem.transform temps).2.run store = (some (elem.evaluate store.world).1,
        { store with world := (elem.evaluate store.world).2 }) := by
  have empty := (elem.hasPrereqs_iff temps).mp none
  rw [Element.transform] at empty ⊢
  rw [Element.evaluate]
  cases operand : elem.operand <;> cases prereqs : elem.prereqs <;>
    simp_all [Expression.run]

def Part.endsInline : Part W V → Bool
  | .element plain => plain.hasPrereqs
  | .spread _ => true

lemma transformParts_endsInline {part : Part W V} (ends : part.endsInline)
    (members : List (Expression W V)) (amt temps : Nat) (parts : List (Part W V)) :
    transformParts fresh (.inline members) amt temps (part :: parts) = (.declareArray members ::
        (transformParts fresh .identifier 0 temps (part :: parts)).1, .identifier) := by
  cases part with
  | spread spread =>
    have ident := transformParts_identifier fresh 0 temps parts
    rw [transformParts, transformParts]
    generalize transformParts fresh .identifier 0 temps parts = rest at ident ⊢
    exact congrArg (Prod.mk _) ident
  | element elem =>
    rw [Part.endsInline] at ends
    have ident := transformParts_identifier fresh 1 (temps + elem.declared) parts
    rw [transformParts, transformParts]
    simp only [if_pos ends]
    exact congrArg (Prod.mk _) ident

lemma countedOnce_endsInline {part : Part W V} (ends : part.endsInline)
    (parts : List (Part W V)) (values : List (List V)) :
    countedOnce none (part :: parts) values = countedOnce (some 0) (part :: parts) values := by
  cases values with
  | nil => cases part <;> rfl
  | cons first values =>
    cases part with
    | spread spread => rfl
    | element elem =>
      rw [Part.endsInline] at ends
      rw [countedOnce, countedOnce, nextCounter, nextCounter, if_pos ends]

lemma transformParts_inline (parts : List (Part W V)) (store : Store W V)
    (members : List (Expression W V)) (amt : Nat) {world : W}
    (inline : runMembers store members = (done.map some, { store with world := world })) :
    ((transformParts fresh (.inline members) amt store.temporaries.length parts).2.run
        ((transformParts fresh (.inline members) amt store.temporaries.length parts).1.foldl
          Statement.run store) =
        (tableOf (done ++ (evaluate fresh parts world).1.flatten),
          (evaluate fresh parts world).2)) ↔
      countedOnce none parts (evaluate fresh parts world).1 := by
  induction parts generalizing members amt done world with
  | nil =>
    rw [transformParts, foldl_nil, ArrayPointer.run, inline]
    simp [newTable_map_some, evaluate, countedOnce]
  | cons part parts ih =>
    by_cases ends : part.endsInline
    · rw [transformParts_endsInline fresh ends, countedOnce_endsInline ends, foldl_cons,
        ArrayPointer.run, Statement.run, inline]
      dsimp only
      rw [newTable_map_some, length_map]
      have aligned := runParts_aligned fresh 0 (part :: parts)
        { store with world := world, array := tableOf done, length := done.length } rfl rfl
      have ranWorld := runParts_world fresh 0 (part :: parts)
        { store with world := world, array := tableOf done, length := done.length }
      rw [runParts] at aligned ranWorld
      rw [Prod.mk.injEq, aligned, ranWorld]
      exact and_iff_left rfl
    · match part with
      | .spread spread => exact absurd (rfl : (Part.spread spread).endsInline) ends
      | .element elem =>
        rw [Part.endsInline, Bool.not_eq_true] at ends
        have appended : runMembers store
            (members ++ [(elem.transform store.temporaries.length).2]) =
              ((done ++ [(elem.evaluate world).1]).map some,
                { store with world := (elem.evaluate world).2 }) := by
          rw [runMembers_append, inline, Element.run_of_no_prereqs ends, map_append]
          rfl
        have next := ih _ (amt + 1) appended
        rw [append_assoc] at next
        rw [transformParts, evaluate, countedOnce, nextCounter]
        simp only [ends, Bool.false_eq_true, if_false]
        exact next

/-! ### Literals without spreads -/

def evaluateElements : List (Element W V) → W → List V × W
  | [], world => ([], world)
  | element :: rest, world =>
    let (value, world) := element.evaluate world
    let (values, world) := evaluateElements rest world
    (value :: values, world)

lemma ensureTransformOrder_quiet (quiet : elements.any Element.hasPrereqs = false) (temps : Nat) :
    (ensureTransformOrder temps elements).1 = [] := by
  induction elements generalizing temps with
  | nil => rfl
  | cons elem rest ih =>
    rw [any_cons, Bool.or_eq_false_iff] at quiet
    rw [ensureTransformOrder, EnsureOrder.isKept]
    simp only [quiet.2, Bool.false_and, Bool.false_eq_true, if_false]
    rw [(elem.hasPrereqs_iff temps).mp quiet.1, ih quiet.2]
    rfl

/-- What an element leaves when its expression is not computed any more: the value is read from the
temporaries, whatever is pinned after them. -/
theorem Element.transform_settled (settled : elem.isComputed = false) (store : Store W V) :
    ∃ pinned, (elem.transform store.temporaries.length).1.foldl Statement.run store = { store with
          world := (elem.evaluate store.world).2
          temporaries := store.temporaries ++ pinned } ∧
      pinned.length = elem.declared ∧
      ∀ later : Store W V, (∃ more, later.temporaries = store.temporaries ++ pinned ++ more) →
        (elem.transform store.temporaries.length).2.run later =
          (some (elem.evaluate store.world).1, later) := by
  obtain ⟨prereqs, operand⟩ := elem
  cases operand with
  | constant val =>
    refine ⟨[], ?_, rfl, fun later _ => rfl⟩
    cases prereqs <;> simp [Element.transform, Element.evaluate, Statement.run]
  | stored run =>
    refine ⟨[(run (prereqs.getD id store.world)).1], ?_, rfl, ?_⟩
    · cases prereqs <;>
        simp [Element.transform, Element.evaluate, Statement.run, Expression.run]
    · rintro later ⟨more, extends_⟩
      simp [Element.transform, Element.evaluate, Expression.run, extends_]
  | computed run => cases settled

lemma Element.transform_computed (computed : elem.isComputed) (store : Store W V) :
    elem.declared = 0 ∧ (elem.transform store.temporaries.length).2.run
          ((elem.transform store.temporaries.length).1.foldl Statement.run store) =
        (some (elem.evaluate store.world).1,
          { store with world := (elem.evaluate store.world).2 }) ∧
      ((elem.transform store.temporaries.length).1.foldl Statement.run store).temporaries =
        store.temporaries := by
  obtain ⟨prereqs, operand⟩ := elem
  cases operand with
  | constant val => cases computed
  | stored run => cases computed
  | computed run =>
    cases prereqs <;>
      simp [Element.declared, Element.transform, Element.evaluate, Expression.run, Statement.run]

lemma ensureTransformOrder_run (elements : List (Element W V)) (store : Store W V) :
    let emitted := ensureTransformOrder store.temporaries.length elements
    let ran := emitted.1.foldl Statement.run store
    (∃ pinned, ran.temporaries = store.temporaries ++ pinned) ∧
      (runMembers ran emitted.2).1 = (evaluateElements elements store.world).1.map some ∧
      (runMembers ran emitted.2).2.world = (evaluateElements elements store.world).2 := by
  induction elements generalizing store with
  | nil => exact ⟨⟨[], (append_nil _).symm⟩, rfl, rfl⟩
  | cons elem rest ih =>
    rw [ensureTransformOrder, EnsureOrder.isKept]
    cases computed : elem.isComputed with
    | false =>
      -- The expression stays as it is: it does not depend on when it is read.
      simp only [Bool.and_false, Bool.false_eq_true, if_false]
      obtain ⟨pinned, ran, length, reads⟩ := Element.transform_settled computed store
      have next := ih { store with
        world := (elem.evaluate store.world).2
        temporaries := store.temporaries ++ pinned }
      simp only [length_append, length] at next
      obtain ⟨⟨more, extended⟩, values, world⟩ := next
      rw [foldl_append, ran, runMembers_cons, reads _ ⟨more, extended⟩]
      refine ⟨⟨pinned ++ more, ?_⟩, congrArg (some _ :: ·) values, world⟩
      rw [extended, append_assoc]
    | true =>
      obtain ⟨declared, val, temps⟩ := Element.transform_computed computed store
      cases quiet : rest.any Element.hasPrereqs with
      | true =>
        -- A later element has prerequisites, so the value is pinned before they run.
        simp only [Bool.and_true, if_true]
        have next := ih { store with
          world := (elem.evaluate store.world).2
          temporaries := store.temporaries ++ [(elem.evaluate store.world).1] }
        simp only [length_append, length_singleton] at next
        obtain ⟨⟨more, extended⟩, values, world⟩ := next
        rw [foldl_append, foldl_cons, Statement.run, val]
        dsimp only [Option.toList_some]
        rw [runMembers_cons, Expression.run, extended]
        refine ⟨⟨_ :: more, by rw [append_assoc]; rfl⟩, ?_, world⟩
        rw [values, append_assoc, getElem?_append_right (Nat.le_refl _), Nat.sub_self]
        rfl
      | false =>
        simp only [Bool.false_and, Bool.false_eq_true, if_false]
        have next := ih { store with world := (elem.evaluate store.world).2 }
        have emitted := ensureTransformOrder_quiet quiet store.temporaries.length
        rw [declared, Nat.add_zero, emitted, append_nil, runMembers_cons, val]
        simp only [emitted, foldl_nil] at next
        obtain ⟨-, values, world⟩ := next
        exact ⟨⟨[], by rw [temps, append_nil]⟩, congrArg (some _ :: ·) values, world⟩

lemma evaluate_plain {parts : List (Part W V)}
    (plain : plainElements parts = some elements) (world : W) :
    (evaluate fresh parts world).1.flatten = (evaluateElements elements world).1 ∧
      (evaluate fresh parts world).2 = (evaluateElements elements world).2 := by
  induction parts generalizing elements world with
  | nil =>
    cases plain
    exact ⟨rfl, rfl⟩
  | cons part parts ih =>
    cases part with
    | spread spread => cases plain
    | element elem =>
      obtain ⟨rest, plainRest, rfl⟩ := Option.map_eq_some_iff.mp plain
      obtain ⟨values, after⟩ := ih plainRest (elem.evaluate world).2
      exact ⟨congrArg (_ :: ·) values, after⟩

lemma countedOnce_plain {parts : List (Part W V)}
    (plain : plainElements parts = some elements) (counter : Option Nat)
    (values : List (List V)) : countedOnce counter parts values := by
  induction parts generalizing elements counter values with
  | nil => cases values <;> rfl
  | cons part parts ih =>
    cases part with
    | spread spread => cases plain
    | element elem =>
      obtain ⟨rest, plainRest, -⟩ := Option.map_eq_some_iff.mp plain
      cases values with
      | nil => rfl
      | cons first values => exact ih plainRest _ values

/-- The table of a literal holds the values of its parts one after the other, and the parts are
evaluated in order, exactly when no loop with counted elements before it has values after it. -/
theorem arrayLiteral_concatenates_iff (parts : List (Part W V)) (world : W) :
    runLiteral fresh parts world =
        (tableOf (evaluate fresh parts world).1.flatten, (evaluate fresh parts world).2) ↔
      countedOnce none parts (evaluate fresh parts world).1 = true := by
  rw [runLiteral, transformArrayLiteralExpression]
  cases plain : plainElements parts with
  | none =>
    have nothing : runMembers { world := world } ([] : List (Expression W V)) =
      (([] : List V).map some, { world := world }) := rfl
    exact transformParts_inline fresh parts { world := world } [] 0 nothing
  | some elements =>
    obtain ⟨-, values, after⟩ := ensureTransformOrder_run elements { world := world }
    obtain ⟨same, sameWorld⟩ := evaluate_plain fresh plain world
    refine iff_of_true ?_ (countedOnce_plain plain none _)
    dsimp only [ArrayPointer.run]
    rw [same, sameWorld, ← newTable_map_some]
    exact Prod.ext (congrArg newTable values) after

/-- `[...s, 1, ...t, 2]` with sets: the 2 is put at place 5 and place 4 is empty. -/
theorem arrayLiteral_leavesGap :
    let parts : List (Part Unit Nat) :=
      [.spread (.set fun _ => ([10], ())), .element { operand := .constant 1 },
        .spread (.set fun _ => ([20], ())), .element { operand := .constant 2 }]
    (evaluate sum parts ()).1.flatten = [10, 1, 20, 2] ∧
      (List.range 6).map (runLiteral sum parts ()).1 =
        [none, some 10, some 1, some 20, none, some 2] := by
  decide

end Rotor.Transformer.ArrayLiteral
