import Mathlib.Data.List.Induction
import Rotor.Transformer.Exports

/-!
The last writer of each export.

What is in the table under a name is the last write to it. A name has one owner, the export of the
file or the starred modules; the table is right when the owner's write is the last.
-/

namespace Rotor.Transformer.Exports

open List Function

variable {α : Type} {sym : ExportSymbol} {name : Bytes}

lemma foldl_update {Key C : Type} [DecidableEq Key] (key : α → Key) (val : α → C)
    (assignments : List α) (table : Key → C) (at_ : Key) :
    assignments.foldl (fun table a => update table (key a) (val a)) table at_ =
      ((assignments.filter (key · = at_)).getLast?.map val).getD (table at_) := by
  induction assignments using List.reverseRec with
  | nil => rfl
  | append_singleton assignments last ih =>
    rw [foldl_append, foldl_cons, foldl_nil, filter_append]
    by_cases same : key last = at_
    · subst same
      simp
    · rw [update_of_ne (Ne.symm same), ih]
      simp [same]

variable {V : Type} (file : SourceFile) (values : Symbol → Option V)

/-- What a step of the emitted code writes under a name of the table, if it does. -/
def writes (name : Bytes) : Step V → Option (Option V)
  | .run (.declaration decl _ initialized _) initial _ =>
    if file.exportAccess decl = some name ∧ initialized then some initial else none
  | .run (.exportFrom module specs) _ others =>
    ((exportSymbols file.modules file.statements (.exportFrom module specs)).filter
      (·.name = name)).getLast?.map fun symbol => importedValue others symbol.original
  | .run (.exportAll module) _ others =>
    (((file.modules.members module).lookup name).bind others).map some
  | .run _ _ _ => none
  | .assign assigned value => if file.exportAccess assigned = some name then some value else none

lemma write_exports (state : LuauState V) (assigned name : Bytes) (val : Option V) :
    (state.write file assigned val).exports name =
      if file.exportAccess assigned = some name then val else state.exports name := by
  rw [LuauState.write]
  cases access : file.exportAccess assigned with
  | none => rfl
  | some key =>
    by_cases same : key = name
    · subst same
      simp
    · simp [same, update_of_ne (Ne.symm same)]

lemma transformVariable_some (state : LuauState V) (name : Bytes) (val : Option V) :
    transformVariable file state name (some val) = state.write file name val := by
  rw [transformVariable, LuauState.write]
  cases file.exportAccess name <;> rfl

lemma transformVariable_none (state : LuauState V) (name : Bytes) :
    transformVariable file state name none = match file.exportAccess name with
      | some _ => state
      | none => { state with locals := update state.locals name none } := by
  rw [transformVariable]
  cases file.exportAccess name <;> rfl

lemma runStep_exports (state : LuauState V) (step : Step V) (name : Bytes) :
    (runStep file state step).exports name =
      (writes file name step).getD (state.exports name) := by
  match step with
  | .assign assigned val =>
    rw [runStep, write_exports, writes]
    split <;> rfl
  | .run (.declaration decl _ true _) initial _ =>
    rw [runStep, if_pos rfl, transformVariable_some, write_exports, writes]
    simp only [and_true]
    split <;> rfl
  | .run (.declaration decl _ false _) initial _ =>
    rw [runStep, if_neg Bool.false_ne_true, transformVariable_none, writes]
    simp only [Bool.false_eq_true, and_false, if_false]
    cases file.exportAccess decl <;> rfl
  | .run (.exportFrom module specs) _ _ => exact foldl_update _ _ _ _ _
  | .run (.exportAll module) _ others =>
    simp only [runStep, transformExportFrom, writes]
    cases ((file.modules.members module).lookup name).bind others <;> rfl
  | .run (.importNamed ..) _ _ => rfl
  | .run (.exportNamed _) _ _ => rfl

/-- The value a step gives a variable of the file in TypeScript, if it does. -/
def assigns (name : Bytes) : Step V → Option (Option V)
  | .run (.declaration decl _ initialized _) initial _ =>
    if decl = name then some (if initialized then initial else none) else none
  | .run _ _ _ => none
  | .assign assigned value => if assigned = name then some value else none

lemma assignVariables_apply (bindings : Table V) (step : Step V) (name : Bytes) :
    assignVariables bindings step name = (assigns name step).getD (bindings name) := by
  have update (decl : Bytes) (val : Option V) : update bindings decl val name =
        (if decl = name then some val else none).getD (bindings name) := by
    by_cases same : decl = name
    · subst same
      simp
    · simp [same, update_of_ne (Ne.symm same)]
  match step with
  | .assign assigned val => exact update assigned val
  | .run (.declaration ..) _ _ => exact update _ _
  | .run (.importNamed ..) _ _ => rfl
  | .run (.exportNamed _) _ _ => rfl
  | .run (.exportFrom ..) _ _ => rfl
  | .run (.exportAll _) _ _ => rfl

variable {steps : List (Step V)}

lemma exports_kept {name : Bytes} {val : Option V}
    (kept : ∀ step ∈ steps, ∀ written ∈ writes file name step, written = val)
    (state : LuauState V) (before : state.exports name = val) :
    (steps.foldl (runStep file) state).exports name = val := by
  induction steps generalizing state with
  | nil => exact before
  | cons step steps ih =>
    refine ih (fun step mem => kept step (.tail _ mem)) _ ?_
    rw [runStep_exports]
    cases written : writes file name step with
    | none => exact before
    | some val => exact kept step (.head _) val written

lemma exports_follow {name decl : Bytes}
    (follows : ∀ step ∈ steps, writes file name step = assigns decl step)
    (state : LuauState V) (bindings : Table V) (before : state.exports name = bindings decl) :
    (steps.foldl (runStep file) state).exports name =
      steps.foldl assignVariables bindings decl := by
  induction steps generalizing state bindings with
  | nil => exact before
  | cons step steps ih =>
    refine ih (fun step mem => follows step (.tail _ mem)) _ _ ?_
    rw [runStep_exports, assignVariables_apply, follows step (.head _), before]

lemma runStep_locals {name : Bytes} (kept : file.exportAccess name = none)
    (state : LuauState V) (step : Step V) :
    (runStep file state step).locals name = (assigns name step).getD
    (state.locals name) := by
  have write (decl : Bytes) (val : Option V) : (state.write file decl val).locals name =
        (if decl = name then some val else none).getD (state.locals name) := by
    rw [LuauState.write]
    by_cases same : decl = name
    · subst same
      simp [kept]
    · cases file.exportAccess decl with
      | none => simp [same, update_of_ne (Ne.symm same)]
      | some access => simp [same]
  match step with
  | .assign assigned val => exact write assigned val
  | .run (.declaration decl _ true _) initial _ =>
    rw [runStep, if_pos rfl, transformVariable_some, write, assigns, if_pos rfl]
  | .run (.declaration decl _ false _) initial _ =>
    rw [runStep, if_neg Bool.false_ne_true, transformVariable_none, assigns,
      if_neg Bool.false_ne_true, ← write]
    rw [LuauState.write]
    by_cases same : decl = name
    · rw [same, kept]
    · cases file.exportAccess decl <;> rfl
  | .run (.importNamed ..) _ _ => rfl
  | .run (.exportNamed _) _ _ => rfl
  | .run (.exportFrom ..) _ _ => rfl
  | .run (.exportAll _) _ _ => rfl

lemma locals_follow {name : Bytes} (kept : file.exportAccess name = none) (steps : List (Step V))
    (state : LuauState V) (bindings : Table V) (before : state.locals name = bindings name) :
    (steps.foldl (runStep file) state).locals name =
      steps.foldl assignVariables bindings name := by
  induction steps generalizing state bindings with
  | nil => exact before
  | cons step steps ih =>
    refine ih _ _ ?_
    rw [runStep_locals file kept, assignVariables_apply, before]

/-! ### Runs -/

section Run

variable {values} {modules : Modules}

lemma RunOf.split {decl : List Bytes} {before after : List Statement} {stmt : Statement}
    (run : RunOf modules values decl (before ++ stmt :: after) steps) :
    ∃ early initial others late decl', steps = early ++ .run stmt initial others :: late ∧
      modules.Earlier values others ∧ RunOf modules values decl before early ∧
      RunOf modules values decl' after late := by
  generalize whole : before ++ stmt :: after = statements at run
  induction run generalizing before with
  | done decl => simp at whole
  | @statement decl first rest steps others initial fixed run ih =>
    match before, whole with
    | [], whole =>
      obtain ⟨rfl, rfl⟩ := List.cons.inj whole
      exact ⟨[], initial, others, steps, _, rfl, fixed, .done decl, run⟩
    | head :: before, whole =>
      obtain ⟨rfl, rest⟩ := List.cons.inj whole
      obtain ⟨early, val, seen, late, decl', rfl, here, up, afterwards⟩ := ih rest
      exact ⟨.run head initial others :: early, val, seen, late, decl', rfl, here,
        .statement initial fixed up, afterwards⟩
  | assign val mem run ih =>
    obtain ⟨early, initial, seen, late, decl', rfl, here, up, afterwards⟩ := ih whole
    exact ⟨.assign _ val :: early, initial, seen, late, decl', rfl, here, .assign val mem up,
      afterwards⟩

lemma RunOf.mem {decl : List Bytes} {stmts : List Statement}
    (run : RunOf modules values decl stmts steps) {step : Step V} (member : step ∈ steps) :
    (∃ stmt ∈ stmts, ∃ initial others, step = .run stmt initial others ∧
        modules.Earlier values others) ∨
      ∃ name val, step = .assign name val ∧
        (name ∈ decl ∨ name ∈ stmts.filterMap declaredVariable) := by
  induction run with
  | done decl => cases member
  | @statement decl first rest steps others initial fixed run ih =>
    obtain rfl | later := mem_cons.mp member
    · exact .inl ⟨first, .head _, initial, others, rfl, fixed⟩
    · obtain ⟨stmt, found, rest⟩ | ⟨name, val, rfl, known⟩ := ih later
      · exact .inl ⟨stmt, .tail _ found, rest⟩
      · refine .inr ⟨name, val, rfl, ?_⟩
        rw [mem_append, Option.mem_toList, or_assoc, or_left_comm] at known
        refine known.imp_right fun known => ?_
        rw [filterMap_cons]
        obtain here | further := known
        · rw [here]
          exact .head _
        · cases declaredVariable first with
          | none => exact further
          | some _ => exact .tail _ further
  | assign val known run ih =>
    obtain rfl | later := mem_cons.mp member
    · exact .inr ⟨_, val, rfl, .inl known⟩
    · exact ih later

lemma runOf_plain {others : Symbol → Option V} (earlier : modules.Earlier values others)
    (tail : List (Step V)) (stmts : List Statement) (decl : List Bytes)
    (ends : ∀ decl', decl ⊆ decl' →
      stmts.filterMap declaredVariable ⊆ decl' → RunOf modules values decl' [] tail) :
    RunOf modules values decl stmts (stmts.map (.run · none others) ++ tail) := by
  induction stmts generalizing decl with
  | nil => exact ends decl (List.Subset.refl _) (nil_subset _)
  | cons stmt stmts ih =>
    refine .statement none earlier (ih _ fun decl' known further => ?_)
    obtain ⟨here, known⟩ := append_subset.mp known
    refine ends decl' known fun name mem => ?_
    rw [filterMap_cons] at mem
    cases first : declaredVariable stmt with
    | none => exact further (by simpa [first] using mem)
    | some found =>
      simp only [first] at mem here
      obtain rfl | later := mem_cons.mp mem
      · exact here (.head _)
      · exact further later

end Run

/-! ### Owners -/

lemma mem_exports {file : SourceFile} : sym ∈ file.exports ↔ ∃ stmt ∈ file.statements,
      sym ∈ exportSymbols file.modules file.statements stmt := mem_flatMap

lemma export_eq {file : SourceFile} {other : ExportSymbol} (mem : sym ∈ file.exports)
    (otherMember : other ∈ file.exports) (same : sym.name = other.name) : sym = other :=
  inj_on_of_nodup_map file.exportedOnce mem otherMember same

lemma statement_of_fromExportFrom {file : SourceFile} {stmt : Statement}
    (mem : sym ∈ exportSymbols file.modules file.statements stmt) (from_ : sym.fromExportFrom) :
    ∃ module specs, stmt = .exportFrom module specs := by
  match stmt, mem with
  | .exportFrom module specs, _ => exact ⟨module, specs, rfl⟩
  | .declaration _ _ _ (some _), mem =>
    obtain rfl := mem_singleton.mp mem
    cases from_
  | .exportNamed specs, mem =>
    obtain ⟨specifier, -, found⟩ := mem_filterMap.mp mem
    obtain ⟨orig, -, rfl⟩ := Option.map_eq_some_iff.mp found
    cases from_

lemma original_of_fromExportFrom {file : SourceFile} (mem : sym ∈ file.exports)
    (from_ : sym.fromExportFrom) : ∃ orig, sym.original = .imported orig := by
  obtain ⟨stmt, -, decl⟩ := mem_exports.mp mem
  obtain ⟨module, specs, rfl⟩ := statement_of_fromExportFrom decl from_
  obtain ⟨specifier, -, found⟩ := mem_filterMap.mp decl
  obtain ⟨orig, -, rfl⟩ := Option.map_eq_some_iff.mp found
  exact ⟨orig, rfl⟩

lemma exportFrom_symbols {file : SourceFile} {module : Bytes} {specs : List ExportSpecifier}
    (mem : sym ∈ exportSymbols file.modules file.statements (.exportFrom module specs)) :
    sym.fromExportFrom := by
  obtain ⟨specifier, -, found⟩ := mem_filterMap.mp mem
  obtain ⟨orig, -, rfl⟩ := Option.map_eq_some_iff.mp found
  rfl

lemma mem_of_getLast_filter {p : α → Bool} {list : List α} {last : α}
    (found : (list.filter p).getLast? = some last) : last ∈ list ∧ p last = true :=
  mem_filter.mp (mem_of_getLast? found)

lemma getLast_filter {p : α → Bool} {list : List α} {only : α} (mem : only ∈ list)
    (holds : p only) (unique : ∀ other ∈ list, p other → other = only) :
    (list.filter p).getLast? = some only := by
  have nonempty : list.filter p ≠ [] := ne_nil_of_mem (mem_filter.mpr ⟨mem, holds⟩)
  have found := List.getLast?_eq_some_getLast nonempty
  obtain ⟨lastMember, lastHolds⟩ := mem_of_getLast_filter found
  rw [found, unique _ lastMember lastHolds]

lemma exportAccess_some {file : SourceFile} {decl name : Bytes}
    (access : file.exportAccess decl = some name) :
    file.isSymbolMutable (.declared decl) ∧
      ∃ sym ∈ file.exports, sym.name = name ∧ sym.original = .declared decl := by
  rw [SourceFile.exportAccess] at access
  split at access
  next isLet =>
    rw [SourceFile.getModuleExportsAlias] at access
    obtain ⟨sym, found, rfl⟩ := Option.map_eq_some_iff.mp access
    obtain ⟨mem, orig⟩ := mem_of_getLast_filter found
    exact ⟨isLet, sym, mem, rfl, of_decide_eq_true orig⟩
  next => cases access

def initializes (name : Bytes) : Statement → Bool
  | .declaration decl _ initialized _ => decl = name && initialized
  | _ => false

/-- What writes a name: a variable kept under it, its specifier of `export … from`, or a starred
module that has the name. -/
inductive Writer (name : Bytes) (written : Option V) : Step V → Prop where
  | assignment {decl : Bytes} {step : Step V} (access : file.exportAccess decl = some name)
      (assigned : assigns decl step = some written)
      (initializing : ∀ statement initial others, step = .run statement initial others →
        initializes decl statement = true) : Writer name written step
  | specifier {module : Bytes} {specs : List ExportSpecifier} {initial : Option V}
      {others : Symbol → Option V} {symbol : ExportSymbol}
      (member : symbol ∈ exportSymbols file.modules file.statements (.exportFrom module specs))
      (named : symbol.name = name) (value : written = importedValue others symbol.original) :
      Writer name written (.run (.exportFrom module specs) initial others)
  | starred {module : Bytes} {initial : Option V} {others : Symbol → Option V}
      {symbol : Symbol} {value : V}
      (found : (file.modules.members module).lookup name = some symbol)
      (known : others symbol = some value) (is : written = some value) :
      Writer name written (.run (.exportAll module) initial others)

lemma writer_of_writes {step : Step V} {written : Option V}
    (writing : writes file name step = some written) :
    Writer file name written step := by
  match step with
  | .assign assigned val =>
    rw [writes] at writing
    split at writing
    next access =>
      refine .assignment access ?_ nofun
      rw [assigns, if_pos rfl, writing]
    next => cases writing
  | .run (.declaration decl _ initialized _) initial _ =>
    rw [writes] at writing
    split at writing
    next found =>
      refine .assignment found.1 ?_ ?_
      · rw [assigns, if_pos rfl, if_pos found.2, writing]
      · rintro _ _ _ ⟨⟩
        rw [initializes, found.2, decide_eq_true rfl, Bool.and_true]
    next => cases writing
  | .run (.exportFrom module specs) _ _ =>
    obtain ⟨sym, found, rfl⟩ := Option.map_eq_some_iff.mp writing
    obtain ⟨mem, named⟩ := mem_of_getLast_filter found
    exact .specifier mem (of_decide_eq_true named) rfl
  | .run (.exportAll module) _ _ =>
    obtain ⟨val, found, rfl⟩ := Option.map_eq_some_iff.mp writing
    obtain ⟨sym, found, known⟩ := Option.bind_eq_some_iff.mp found
    exact .starred found known rfl
  | .run (.importNamed ..) _ _ => cases writing
  | .run (.exportNamed _) _ _ => cases writing

lemma mem_starred {modules : Modules} {stmts : List Statement} {sym : Symbol} :
    sym ∈ starred modules stmts name ↔ ∃ module, .exportAll module ∈ stmts ∧
        (modules.members module).lookup name = some sym := by
  rw [starred, mem_filterMap]
  constructor
  · rintro ⟨stmt, mem, found⟩
    match stmt with
    | .exportAll module => exact ⟨module, mem, found⟩
    | .declaration .. => cases found
    | .importNamed .. => cases found
    | .exportNamed _ => cases found
    | .exportFrom .. => cases found
  · rintro ⟨module, mem, found⟩
    exact ⟨_, mem, found⟩

/-! ### The end of the file -/

lemma returned_pair (mem : sym ∈ file.exportPairs) (steps : List (Step V)) :
    (returned file values steps).map (· sym.name) =
      some (originalValue values (steps.foldl (runStep file) {}).locals sym.original) := by
  have found : (file.exportPairs.filter (·.name = sym.name)).getLast? = some sym :=
    getLast_filter mem (decide_eq_true rfl) fun other otherMember same =>
      export_eq (mem_of_mem_filter otherMember) (mem_of_mem_filter mem) (of_decide_eq_true same)
  have pairs : (!file.exportPairs.isEmpty) := by
    rw [isEmpty_eq_false_iff.mpr (ne_nil_of_mem mem)]
    rfl
  rw [returned, handleExports, chooseExportShape, if_pos pairs]
  by_cases table : (file.hasExportFrom || file.hasMutableExports)
  · rw [if_pos table]
    simp only [Option.map_some, foldl_update, found, Option.getD_some]
  · rw [if_neg table]
    simp only [Option.map_some, foldl_update, found, Option.getD_some]

lemma returned_other (other : ∀ sym ∈ file.exportPairs, sym.name ≠ name)
    (table : (file.hasExportFrom || file.hasMutableExports)) (steps : List (Step V)) :
    (returned file values steps).map (· name) =
      some ((steps.foldl (runStep file) {}).exports name) := by
  have none : file.exportPairs.filter (·.name = name) = [] :=
    filter_eq_nil_iff.mpr fun sym mem same => other sym mem (of_decide_eq_true same)
  rw [returned, handleExports, chooseExportShape, if_pos table]
  simp [foldl_update, none]

end Rotor.Transformer.Exports
