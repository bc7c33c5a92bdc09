import Rotor.Transformer.ExportsSpec

/-!
When a module exports what its source says.

A mutable variable has room for one exported name, `export *` overwrites every name that is in the
table already, and what another module exports is copied once. The table is right in every run
exactly when none of these does harm.
-/

namespace Rotor.Transformer.Exports

open List
open Bool (and_eq_true not_eq_true)

def after (found : Statement → Bool) : List Statement → List Statement
  | [] => []
  | statement :: rest => if found statement then rest else after found rest

variable {stmts before rest : List Statement} {name decl : Bytes} {stmt : Statement}
  {orig : Symbol} {sym : ExportSymbol}

lemma after_split {found : Statement → Bool} (known : ∃ stmt ∈ stmts, found stmt) :
    ∃ before stmt, found stmt ∧ stmts = before ++ stmt :: after found stmts ∧
      ∀ earlier ∈ before, found earlier = false := by
  induction stmts with
  | nil => obtain ⟨-, ⟨⟩, -⟩ := known
  | cons first rest ih =>
    rw [after]
    by_cases here : found first
    · rw [if_pos here]
      exact ⟨[], first, here, rfl, fun _ mem => nomatch mem⟩
    · rw [if_neg here]
      obtain ⟨stmt, mem, holds⟩ := known
      obtain rfl | later := mem_cons.mp mem
      · exact absurd holds here
      obtain ⟨before, stmt, holds, split, earlier⟩ := ih ⟨stmt, later, holds⟩
      refine ⟨first :: before, stmt, holds, congrArg (first :: ·) split, ?_⟩
      intro other mem
      obtain rfl | further := mem_cons.mp mem
      · exact Bool.eq_false_iff.mpr here
      · exact earlier other further

def declares (name : Bytes) (statement : Statement) : Bool := declaredVariable statement = some name

lemma declaredVariable_of_initializes (inits : initializes name stmt) :
    declaredVariable stmt = some name := by
  match stmt, inits with
  | .declaration decl _ initialized _, inits =>
    rw [initializes, and_eq_true, decide_eq_true_eq] at inits
    exact congrArg some inits.1

namespace SourceFile

variable (file : SourceFile)

def exportsName (name : Bytes) (statement : Statement) : Bool :=
  (exportSymbols file.modules file.statements statement).any (·.name = name)

/-- A name of `export … from`: a variable that does not change, which the stars after it share. -/
def keepsSpecifier (symbol : ExportSymbol) : Bool :=
  !file.isSymbolMutable symbol.original &&
    (starred file.modules (after (file.exportsName symbol.name) file.statements) symbol.name).all
    fun other => symbol.original = .imported other

/-- A `let` variable under one name, which no `export *` can overwrite: with an initializer those
after its declaration, without one all. -/
def keepsVariable (symbol : ExportSymbol) (decl : Bytes) : Bool :=
  (file.exports.filter (·.original = .declared decl)).length = 1 &&
    (starred file.modules (if file.statements.any (initializes decl)
      then after (declares decl) file.statements else file.statements) symbol.name).isEmpty

def keeps (symbol : ExportSymbol) : Bool :=
  if symbol.fromExportFrom then file.keepsSpecifier symbol
  else if file.isSymbolMutable symbol.original then
    match symbol.original with
    | .declared decl => file.keepsVariable symbol decl
    | .imported _ => false
  else true

/-- A name that only stars export stands for a variable that does not change. -/
def KeepsStarred : Prop :=
  ∀ name, name ∉ file.exports.map (·.name) → name ≠ str "default" →
    ∀ symbol ∈ starred file.modules file.statements name, file.modules.isMutable symbol = false

end SourceFile

/-- In a run the table has under every exported name the value of the module rules. -/
def Exported {V : Type} (file : SourceFile) (values : Symbol → Option V)
    (steps : List (Step V)) : Prop :=
  ∀ name value, moduleValue file values steps name = some value →
    (returned file values steps).map (· name) = some value

section Kept

variable {V : Type} {file : SourceFile} (values : Symbol → Option V) {steps : List (Step V)}

lemma starred_value (run : RunOf file.modules values [] file.statements steps)
    (isConst : file.modules.isMutable orig = false)
    (mem : orig ∈ starred file.modules file.statements name)
    (only : ∀ step ∈ steps, ∀ written ∈ writes file name step, written = values orig) :
    (steps.foldl (runStep file) {}).exports name = values orig := by
  cases known : values orig with
  | none => exact exports_kept file (known ▸ only) _ rfl
  | some val =>
    obtain ⟨module, found, under⟩ := mem_starred.mp mem
    obtain ⟨before, rest, split⟩ := append_of_mem found
    rw [split] at run
    obtain ⟨early, initial, others, late, -, rfl, earlier, -, -⟩ := run.split
    rw [foldl_append, foldl_cons]
    rw [known] at only
    refine exports_kept file (fun step later =>
      only step (mem_append_right _ (.tail _ later))) _ ?_
    rw [runStep_exports, writes, under, Option.bind_some, earlier orig isConst, known]
    rfl

variable {values} {modules : Modules}

lemma statement_of_mem {decl : List Bytes} (run : RunOf modules values decl stmts steps)
    {initial : Option V} {others : Symbol → Option V}
    (member : .run stmt initial others ∈ steps) :
    stmt ∈ stmts ∧ modules.Earlier values others := by
  obtain ⟨other, found, val, seen, same, earlier⟩ | ⟨name, val, same, -⟩ := run.mem member
  · cases same
    exact ⟨found, earlier⟩
  · cases same

lemma mem_statements {decl : List Bytes} (run : RunOf modules values decl stmts steps)
    {initial : Option V} {others : Symbol → Option V}
    (member : .run stmt initial others ∈ steps) : stmt ∈ stmts := (statement_of_mem run member).1

lemma table_of_starred (mem : orig ∈ starred file.modules file.statements name) :
    (file.hasExportFrom || file.hasMutableExports) := by
  obtain ⟨module, known, -⟩ := mem_starred.mp mem
  rw [Bool.or_eq_true]
  exact .inl (any_eq_true.mpr ⟨_, known, rfl⟩)

lemma declared_once (split : file.statements = before ++ stmt :: rest)
    (declares : declaredVariable stmt = some decl) {other : Statement}
    (mem : other ∈ before ∨ other ∈ rest) : declaredVariable other ≠ some decl := by
  have named {stmt : Statement} (declares : declaredVariable stmt = some decl) :
      declaredName stmt = some decl := by
    match stmt, declares with
    | .declaration .., declares => exact declares
  intro again
  have once := file.declaredOnce
  rw [split, filterMap_append, filterMap_cons, named declares] at once
  have inside {list : List Statement} (mem : other ∈ list) :
      decl ∈ list.filterMap declaredName := mem_filterMap.mpr ⟨other, mem, named again⟩
  obtain ⟨-, second, disjoint⟩ := nodup_append.mp once
  obtain earlier | later := mem
  · exact disjoint _ (inside earlier) _ (.head _) rfl
  · exact (nodup_cons.mp second).1 (inside later)

lemma exists_declares (isLet : file.isSymbolMutable (.declared decl)) :
    ∃ stmt ∈ file.statements, declares decl stmt := by
  obtain ⟨stmt, known, found⟩ := any_eq_true.mp isLet
  match stmt, found with
  | .declaration other _ _ _, found =>
    rw [and_eq_true, decide_eq_true_eq] at found
    exact ⟨_, known, decide_eq_true (congrArg some found.1)⟩

lemma assigns_before (run : RunOf modules values [] stmts steps) {step : Step V}
    (member : step ∈ steps)
    (undeclared : ∀ stmt ∈ stmts, declaredVariable stmt ≠ some decl) {val : Option V} :
    assigns decl step ≠ some val := by
  obtain ⟨stmt, inside, initial, _, rfl, -⟩ | ⟨name, written, rfl, known⟩ := run.mem member
  · cases stmt with
    | declaration other =>
      have different : other ≠ decl := fun same => undeclared _ inside (congrArg some same)
      rw [assigns, if_neg different]
      rintro ⟨⟩
    | _ => rintro ⟨⟩
  · obtain ⟨stmt, inside, declares⟩ := mem_filterMap.mp (known.resolve_left not_mem_nil)
    have different : name ≠ decl := fun same => undeclared _ inside (same ▸ declares)
    rw [assigns, if_neg different]
    rintro ⟨⟩

variable (values) (mem : sym ∈ file.exports)
include mem

lemma original_of_access (access : file.exportAccess decl = some sym.name) :
    sym.original = .declared decl := by
  obtain ⟨-, other, otherMember, same, orig⟩ := exportAccess_some access
  rwa [export_eq otherMember mem same] at orig

lemma specifier_eq {other : ExportSymbol} {module : Bytes}
    {specifiers : List ExportSpecifier} (known : .exportFrom module specifiers ∈ file.statements)
    (written : other ∈ exportSymbols file.modules file.statements (.exportFrom module specifiers))
    (same : other.name = sym.name) : other = sym :=
  export_eq (mem_exports.mpr ⟨_, known, written⟩) mem same

lemma table_of_mutable (own : sym.fromExportFrom = false)
    (isLet : file.isSymbolMutable sym.original) :
    (file.hasExportFrom || file.hasMutableExports) := by
  rw [Bool.or_eq_true]
  exact .inr (any_eq_true.mpr ⟨sym, mem, by simp [own, isLet]⟩)

lemma table_of_specifier (from_ : sym.fromExportFrom) :
    (file.hasExportFrom || file.hasMutableExports) := by
  obtain ⟨stmt, known, decl⟩ := mem_exports.mp mem
  obtain ⟨module, specifiers, rfl⟩ := statement_of_fromExportFrom decl from_
  rw [Bool.or_eq_true]
  refine .inl (any_eq_true.mpr ⟨_, known, ?_⟩)
  simpa using ne_nil_of_mem decl

lemma not_pair (other : (!sym.fromExportFrom && !file.isSymbolMutable sym.original) = false) :
    ∀ pair ∈ file.exportPairs, pair.name ≠ sym.name := by
  intro pair found same
  obtain ⟨pairMember, isPair⟩ := mem_filter.mp found
  rw [export_eq pairMember mem same, other] at isPair
  cases isPair

lemma pair_kept (own : sym.fromExportFrom = false)
    (isConst : file.isSymbolMutable sym.original = false) :
    (returned file values steps).map (· sym.name) =
      some (originalValue values (steps.foldl assignVariables fun _ => none) sym.original) := by
  have pair : sym ∈ file.exportPairs := mem_filter.mpr ⟨mem, by simp [own, isConst]⟩
  rw [returned_pair file values pair]
  cases orig : sym.original with
  | imported _ => rfl
  | declared name =>
    have kept : file.exportAccess name = none := by
      rw [SourceFile.exportAccess, ← orig, isConst]
      rfl
    exact congrArg some (locals_follow file kept steps _ _ rfl)

lemma exists_exportsName :
    ∃ stmt ∈ file.statements, file.exportsName sym.name stmt := by
  obtain ⟨stmt, known, decl⟩ := mem_exports.mp mem
  exact ⟨stmt, known, any_eq_true.mpr ⟨sym, decl, decide_eq_true rfl⟩⟩

lemma specifier_kept (from_ : sym.fromExportFrom)
    (keeps : file.keepsSpecifier sym) (run : RunOf file.modules values [] file.statements steps) :
    (steps.foldl (runStep file) {}).exports sym.name =
      importedValue values sym.original := by
  obtain ⟨before, stmt, exports, split, -⟩ := after_split (exists_exportsName mem)
  rw [SourceFile.keepsSpecifier, and_eq_true, Bool.not_eq_true', all_eq_true] at keeps
  obtain ⟨isConst, keeps⟩ := keeps
  obtain ⟨orig, is⟩ := original_of_fromExportFrom mem from_
  rw [is] at isConst
  -- The first statement that exports the name is the specifier's own.
  obtain ⟨other, decl, same⟩ := any_eq_true.mp exports
  have statementMember : stmt ∈ file.statements := by
    rw [split]
    exact mem_append_right _ (.head _)
  obtain rfl : other = sym :=
    export_eq (mem_exports.mpr ⟨_, statementMember, decl⟩) mem (of_decide_eq_true same)
  have wholeRun := run
  rw [split] at run
  obtain ⟨early, initial, others, late, decl', rfl, earlier, -, afterwards⟩ := run.split
  rw [foldl_append, foldl_cons]
  refine exports_kept file (fun step later written writing => ?_) _ ?_
  · cases writer_of_writes file writing with
    | assignment access assigned inits =>
      rw [original_of_access mem access] at is
      cases is
    | specifier found named val =>
      obtain ⟨known, seen⟩ := statement_of_mem wholeRun (mem_append_right early (.tail _ later))
      rw [val, specifier_eq mem known found named, is]
      exact seen orig isConst
    | starred found known written =>
      obtain ⟨inside, seen⟩ := statement_of_mem afterwards later
      have same := of_decide_eq_true (keeps _ (mem_starred.mpr ⟨_, inside, found⟩))
      rw [is, Original.imported.injEq] at same
      rw [is, importedValue, ← seen orig isConst, same, known, written]
  · rw [runStep_exports]
    obtain ⟨module, specifiers, rfl⟩ := statement_of_fromExportFrom decl from_
    have last := getLast_filter decl (decide_eq_true rfl) fun sym found same =>
      specifier_eq mem statementMember found (of_decide_eq_true same)
    rw [writes, last, Option.map_some, Option.getD_some, is]
    exact earlier orig isConst

lemma exportAccess_of_keeps (orig : sym.original = .declared decl)
    (isLet : file.isSymbolMutable sym.original)
    (once : (file.exports.filter (·.original = .declared decl)).length = 1) :
    file.exportAccess decl = some sym.name := by
  obtain ⟨only, single⟩ := length_eq_one_iff.mp once
  have inside : sym ∈ file.exports.filter (·.original = .declared decl) :=
    mem_filter.mpr ⟨mem, decide_eq_true orig⟩
  rw [single, mem_singleton] at inside
  rw [SourceFile.exportAccess, ← orig, if_pos isLet, SourceFile.getModuleExportsAlias, single,
    inside]
  rfl

lemma writer_of_declared (orig : sym.original = .declared decl)
    {step : Step V}
    (known : ∀ stmt initial others, step = .run stmt initial others → stmt ∈ file.statements)
    {written : Option V} (writing : writes file sym.name step = some written) :
    (file.exportAccess decl = some sym.name ∧ assigns decl step = some written ∧
      ∀ stmt initial others, step = .run stmt initial others → initializes decl stmt) ∨
      ∃ module initial others starring val, step = .run (.exportAll module) initial others ∧
        (file.modules.members module).lookup sym.name = some starring ∧
        others starring = some val ∧ written = some val := by
  cases writer_of_writes file writing with
  | assignment access assigned inits =>
    have same := original_of_access mem access
    rw [orig] at same
    obtain rfl := Original.declared.inj same
    exact .inl ⟨access, assigned, inits⟩
  | specifier found named val =>
    have same := specifier_eq mem (known _ _ _ rfl) found named
    obtain ⟨imported, is⟩ := original_of_fromExportFrom mem (same ▸ exportFrom_symbols found)
    rw [orig] at is
    cases is
  | starred found valued is => exact .inr ⟨_, _, _, _, _, rfl, found, valued, is⟩

lemma writes_eq_assigns (access : file.exportAccess decl = some sym.name) {step : Step V}
    (known : ∀ stmt initial others, step = .run stmt initial others → stmt ∈ file.statements ∧
      declaredVariable stmt ≠ some decl ∧ ∀ module, stmt = .exportAll module →
        (file.modules.members module).lookup sym.name = none) :
    writes file sym.name step = assigns decl step := by
  have orig := original_of_access mem access
  have own {other : Bytes} (accessOther : file.exportAccess other = some sym.name) :
      other = decl := by
    have same := original_of_access mem accessOther
    rw [orig] at same
    exact (Original.declared.inj same).symm
  match step with
  | .assign assigned val =>
    rw [writes, assigns]
    by_cases same : assigned = decl
    · rw [if_pos same, if_pos (same ▸ access)]
    · rw [if_neg same, if_neg fun accessOther => same (own accessOther)]
  | .run (.declaration other isLet initialized exportedAs) initial _ =>
    have different : other ≠ decl := fun same =>
      (known _ _ _ rfl).2.1 (congrArg some same)
    rw [writes, assigns, if_neg different, if_neg fun found => different (own found.1)]
  | .run (.exportFrom module specifiers) initial _ =>
    refine Option.eq_none_iff_forall_ne_some.mpr fun written writing => ?_
    obtain ⟨-, assigned, -⟩ | ⟨_, _, _, _, _, starred, -⟩ := writer_of_declared mem orig
      (fun stmt initial others run => (known stmt initial others run).1) writing
    · cases assigned
    · cases starred
  | .run (.exportAll module) initial _ =>
    rw [writes, (known _ _ _ rfl).2.2 module rfl]
    rfl
  | .run (.importNamed ..) _ _ => rfl
  | .run (.exportNamed _) _ _ => rfl

omit mem in
lemma not_initialized {isLet : Bool} {exportedAs : Option Bytes}
    (split : file.statements = before ++ .declaration decl isLet false exportedAs :: rest) :
    file.statements.any (initializes decl) = false := by
  refine any_eq_false.mpr fun other inside inits => ?_
  rw [split, mem_append, mem_cons, or_left_comm] at inside
  obtain rfl | elsewhere := inside
  · simp [initializes] at inits
  · exact declared_once split rfl elsewhere (declaredVariable_of_initializes inits)

/-- Where no star exports its name, nothing is written for a variable before it is declared. -/
lemma unwritten_before (orig : sym.original = .declared decl)
    (split : file.statements = before ++ stmt :: rest)
    (declaring : declaredVariable stmt = some decl)
    (unstarred : starred file.modules file.statements sym.name = [])
    {early : List (Step V)} (up : RunOf file.modules values [] before early) :
    (early.foldl (runStep file) {}).exports sym.name = none := by
  have inFile {stmt : Statement} {initial : Option V} {others : Symbol → Option V}
      (inside : .run stmt initial others ∈ early) : stmt ∈ file.statements := by
    rw [split]
    exact mem_append_left _ (mem_statements up inside)
  refine exports_kept file (fun step inside written writing => ?_) _ rfl
  obtain ⟨-, assigned, -⟩ | ⟨module, _, _, starring, _, rfl, found, -⟩ :=
    writer_of_declared mem orig (fun stmt initial others is => inFile (is ▸ inside)) writing
  · exact absurd assigned (assigns_before up inside fun other inside =>
      declared_once split declaring (.inl inside))
  · exact absurd unstarred (ne_nil_of_mem (mem_starred.mpr ⟨module, inFile inside, found⟩))

lemma variable_kept (orig : sym.original = .declared decl)
    (isLet : file.isSymbolMutable sym.original)
    (keeps : file.keepsVariable sym decl)
    (run : RunOf file.modules values [] file.statements steps) :
    (steps.foldl (runStep file) {}).exports sym.name =
      steps.foldl assignVariables (fun _ => none) decl := by
  rw [SourceFile.keepsVariable, and_eq_true] at keeps
  obtain ⟨once, unstarred⟩ := keeps
  have access := exportAccess_of_keeps mem orig isLet (of_decide_eq_true once)
  obtain ⟨before, stmt, declaring, split, -⟩ := after_split (exists_declares (orig ▸ isLet))
  obtain ⟨isLet', initialized, exportedAs, rfl⟩ : ∃ isLet initialized exportedAs,
      stmt = .declaration decl isLet initialized exportedAs := by
    match stmt, of_decide_eq_true declaring with
    | .declaration _ isLet initialized exportedAs, rfl =>
      exact ⟨isLet, initialized, exportedAs, rfl⟩
  generalize rest : after (declares decl) file.statements = afterwards at split unstarred
  rw [split] at run
  obtain ⟨early, initial, _, late, decl', rfl, -, up, lateRun⟩ := run.split
  have notStarred {module : Bytes} (inside : .exportAll module ∈ afterwards) :
      (file.modules.members module).lookup sym.name = none := by
    refine Option.eq_none_iff_forall_ne_some.mpr fun starring found => ?_
    have nothing := List.isEmpty_iff.mp unstarred
    refine ne_nil_of_mem (mem_starred.mpr ⟨module, ?_, found⟩) nothing
    split
    · exact inside
    · rw [split]
      exact mem_append_right _ (.tail _ inside)
  rw [foldl_append, foldl_cons, foldl_append, foldl_cons]
  refine exports_follow file (fun step later => ?_) _ _ ?_
  · refine writes_eq_assigns mem access fun stmt initial _ is => ?_
    subst is
    have inside := mem_statements lateRun later
    exact ⟨split ▸ mem_append_right _ (.tail _ inside),
      declared_once split rfl (.inr inside), fun module is => notStarred (is ▸ inside)⟩
  · rw [runStep_exports, assignVariables_apply, writes, assigns, if_pos rfl]
    cases initialized with
    | true =>
      rw [if_pos ⟨access, rfl⟩]
      rfl
    | false =>
      -- Without an initializer nothing may have been written before.
      rw [not_initialized split, if_neg Bool.false_ne_true, List.isEmpty_iff] at unstarred
      rw [if_neg fun found => Bool.false_ne_true found.2]
      exact unwritten_before values mem orig split rfl unstarred up

lemma symbol_kept (keeps : file.keeps sym)
    (run : RunOf file.modules values [] file.statements steps) :
    (returned file values steps).map (· sym.name) =
      some (originalValue values (steps.foldl assignVariables fun _ => none) sym.original) := by
  rw [SourceFile.keeps] at keeps
  split at keeps
  next from_ =>
    obtain ⟨orig, is⟩ := original_of_fromExportFrom mem from_
    rw [returned_other file values (not_pair mem (by rw [from_]; rfl))
      (table_of_specifier mem from_), specifier_kept values mem from_ keeps run, is]
    rfl
  next own =>
    rw [not_eq_true] at own
    split at keeps
    next isLet =>
      have table := table_of_mutable mem own isLet
      rw [returned_other file values (not_pair mem (by rw [isLet, own]; rfl)) table]
      cases is : sym.original with
      | declared decl =>
        simp only [is] at keeps
        exact congrArg some (variable_kept values mem is isLet keeps run)
      | imported orig =>
        simp only [is] at keeps
        cases keeps
    next isConst =>
      rw [not_eq_true] at isConst
      exact pair_kept values mem own isConst

omit mem

lemma star_kept (unowned : name ∉ file.exports.map (·.name)) (named : name ≠ str "default")
    (isConst : file.modules.isMutable orig = false)
    (mem : orig ∈ starred file.modules file.statements name)
    (run : RunOf file.modules values [] file.statements steps) :
    (returned file values steps).map (· name) = some (values orig) := by
  have val := starred_value values run isConst mem fun step later written writing => ?_
  · rw [returned_other file values (fun pair found same => ?_) (table_of_starred mem), val]
    exact unowned (mem_map.mpr ⟨pair, mem_of_mem_filter found, same⟩)
  cases writer_of_writes file writing with
  | assignment access assigned inits =>
    obtain ⟨-, sym, found, same, -⟩ := exportAccess_some access
    exact absurd (mem_map.mpr ⟨sym, found, same⟩) unowned
  | @specifier _ _ _ _ sym found same val =>
    have inside := mem_exports.mpr ⟨_, mem_statements run later, found⟩
    exact absurd (mem_map.mpr ⟨sym, inside, same⟩) unowned
  | starred found valued written =>
    obtain ⟨inside, seen⟩ := statement_of_mem run later
    have starring := mem_starred.mpr ⟨_, inside, found⟩
    rw [← seen orig isConst, ← file.starredOnce name unowned named _ starring _ mem, valued,
      written]

lemma exported_of_keeps (keeps : ∀ sym ∈ file.exports, file.keeps sym)
    (keepsStarred : file.KeepsStarred)
    (run : RunOf file.modules values [] file.statements steps) :
    Exported file values steps := by
  intro name val right
  rw [moduleValue] at right
  cases owner : file.exports.find? (·.name = name) with
  | none =>
    simp only [owner] at right
    split at right
    · cases right
    next named =>
      obtain ⟨orig, first, rfl⟩ := Option.map_eq_some_iff.mp right
      have unowned : name ∉ file.exports.map (·.name) := by
        intro owned
        obtain ⟨sym, mem, same⟩ := mem_map.mp owned
        exact absurd (decide_eq_true same) (find?_eq_none.mp owner sym mem)
      have starring := mem_of_head? first
      exact star_kept values unowned named (keepsStarred name unowned named orig starring)
        starring run
  | some sym =>
    have mem := mem_of_find?_eq_some owner
    have named := find?_some owner
    obtain rfl : sym.name = name := of_decide_eq_true named
    simp only [owner, Option.some.injEq] at right
    rw [← right]
    exact symbol_kept values mem (keeps sym mem) run

end Kept

section Lost

variable {V : Type} {file : SourceFile}

/-- The steps of a file whose initializers are nil and whose variables are never assigned, while
the other modules hold the given values. -/
def plain (file : SourceFile) (others : Symbol → Option V) : List (Step V) :=
  file.statements.map (.run · none others)

variable {values others : Symbol → Option V}

lemma earlier_refl : file.modules.Earlier values values := fun _ _ => rfl

lemma runOf_plain_nil (earlier : file.modules.Earlier values others) :
    RunOf file.modules values [] file.statements (plain file others) := by
  have run : RunOf file.modules values [] file.statements (plain file others ++ []) :=
    runOf_plain earlier [] file.statements [] fun decl' _ _ => .done decl'
  rwa [append_nil] at run

lemma plain_bindings (name : Bytes) :
    (plain file others).foldl assignVariables (fun _ => none) name = none := by
  have kept (stmts : List Statement) (bindings : Table V) (before : bindings name = none) :
      (stmts.map (.run · none others)).foldl assignVariables bindings name = none := by
    induction stmts generalizing bindings with
    | nil => exact before
    | cons stmt stmts ih =>
      refine ih _ ?_
      rw [assignVariables_apply]
      match stmt with
      | .declaration decl _ initialized _ =>
        rw [assigns, ite_self]
        split
        · rfl
        · exact before
      | .importNamed .. => exact before
      | .exportNamed _ => exact before
      | .exportFrom .. => exact before
      | .exportAll _ => exact before
  exact kept _ _ rfl

lemma plain_starred {module : Bytes} {starring : Symbol} {val : V}
    (split : file.statements = before ++ .exportAll module :: rest)
    (found : (file.modules.members module).lookup name = some starring)
    (valued : others starring = some val)
    (later : ∀ stmt ∈ rest, ∀ written ∈ writes file name (.run stmt none others),
      written = some val) :
    ((plain file others).foldl (runStep file) {}).exports name = some val := by
  rw [plain, split, map_append, map_cons, foldl_append, foldl_cons]
  refine exports_kept file (fun step mem written writing => ?_) _ ?_
  · obtain ⟨stmt, inside, rfl⟩ := mem_map.mp mem
    exact later stmt inside written writing
  · rw [runStep_exports, writes, found, Option.bind_some, valued]
    rfl

def onlyValue [Inhabited V] (one : Symbol) (symbol : Symbol) : Option V :=
  if symbol = one then some default else none

lemma onlyValue_self [Inhabited V] (one : Symbol) :
    onlyValue one one = some (default : V) := if_pos rfl

lemma onlyValue_eq [Inhabited V] {one sym : Symbol} {val : V}
    (valued : onlyValue one sym = some val) : val = default := by
  rw [onlyValue] at valued
  split at valued
  · exact (Option.some.inj valued).symm
  · cases valued

/-- A variable that changes can have its value after the last copy only. -/
lemma earlier_onlyValue [Inhabited V] {one : Symbol} (isLet : file.modules.isMutable one) :
    file.modules.Earlier (V := V) (onlyValue one) fun _ => none := by
  intro symbol isConst
  refine (if_neg ?_).symm
  rintro rfl
  rw [isLet] at isConst
  cases isConst

lemma plain_unwritten (name : Bytes) :
    ((plain file fun _ => (none : Option V)).foldl (runStep file) {}).exports name = none := by
  refine exports_kept file (fun step mem written writing => ?_) _ rfl
  obtain ⟨stmt, -, rfl⟩ := mem_map.mp mem
  cases writer_of_writes file writing with
  | assignment access assigned inits =>
    cases stmt with
    | declaration decl isLet initialized =>
      rw [assigns, ite_self] at assigned
      split at assigned
      · exact (Option.some.inj assigned).symm
      · cases assigned
    | _ => cases assigned
  | @specifier _ _ _ _ sym found named val =>
    rw [val]
    cases sym.original <;> rfl
  | starred found known is => cases known

/-- Some run leaves a wrong table. -/
def Loses (file : SourceFile) (V : Type) : Prop :=
  ∃ (values : Symbol → Option V) (steps : List (Step V)),
    RunOf file.modules values [] file.statements steps ∧ ¬ Exported file values steps

lemma star_lost [Inhabited V] (loses : ¬ file.KeepsStarred) : Loses file V := by
  rw [SourceFile.KeepsStarred] at loses
  push Not at loses
  obtain ⟨name, unowned, named, starring, inside, isLet⟩ := loses
  refine ⟨onlyValue starring, _, runOf_plain_nil (earlier_onlyValue (by simpa using isLet)), ?_⟩
  intro exported
  have owner : file.exports.find? (·.name = name) = none :=
    find?_eq_none.mpr fun sym mem same =>
      unowned (mem_map.mpr ⟨sym, mem, of_decide_eq_true same⟩)
  have first : (starred file.modules file.statements name).head? = some starring := by
    cases all : starred file.modules file.statements name with
    | nil => rw [all] at inside; cases inside
    | cons head tail =>
      have mem : head ∈ starred file.modules file.statements name := all ▸ .head _
      exact congrArg some (file.starredOnce name unowned named _ mem _ inside)
  have right := exported name (some default) (by
    simp only [moduleValue, owner, if_neg named, first, Option.map_some, onlyValue_self])
  rw [returned_other file _ (fun pair found same => unowned (mem_map.mpr
    ⟨pair, mem_of_mem_filter found, same⟩)) (table_of_starred inside), plain_unwritten] at right
  cases right

lemma exported_once {other : Statement} (split : file.statements = before ++ stmt :: rest)
    {again : ExportSymbol} (decl : sym ∈ exportSymbols file.modules file.statements stmt)
    (mem : other ∈ rest) (exported : again ∈ exportSymbols file.modules file.statements other) :
    again.name ≠ sym.name := by
  intro same
  have once := file.exportedOnce
  rw [getModuleExports] at once
  generalize exportSymbols file.modules file.statements = symbols at once decl exported
  rw [split, flatMap_append, flatMap_cons, map_append, map_append] at once
  have disjoint := (nodup_append.mp (nodup_append.mp once).2.1).2.2
  exact disjoint _ (mem_map_of_mem decl) _
    (mem_map_of_mem (mem_flatMap.mpr ⟨other, mem, exported⟩)) same.symm

variable (mem : sym ∈ file.exports)
include mem

lemma moduleValue_of_mem (values : Symbol → Option V) (steps : List (Step V)) :
    moduleValue file values steps sym.name =
      some (originalValue values (steps.foldl assignVariables fun _ => none) sym.original) := by
  have owner : file.exports.find? (·.name = sym.name) = some sym := by
    cases found : file.exports.find? (·.name = sym.name) with
    | none => exact absurd (decide_eq_true rfl) (find?_eq_none.mp found sym mem)
    | some other =>
      have same := find?_some found
      rw [export_eq (mem_of_find?_eq_some found) mem (of_decide_eq_true same)]
  rw [moduleValue]
  simp only [owner]

lemma not_exported (values : Symbol → Option V) (steps : List (Step V))
    (other : (!sym.fromExportFrom && !file.isSymbolMutable sym.original) = false)
    (table : (file.hasExportFrom || file.hasMutableExports))
    (wrong : (steps.foldl (runStep file) {}).exports sym.name ≠
      originalValue values (steps.foldl assignVariables fun _ => none) sym.original) :
    ¬ Exported file values steps := by
  intro exported
  have right := exported sym.name _ (moduleValue_of_mem mem values steps)
  rw [returned_other file values (not_pair mem other) table] at right
  exact wrong (Option.some.inj right)

variable [Inhabited V]

lemma changed_lost (is : sym.original = .imported orig)
    (isLet : file.isSymbolMutable sym.original) : Loses file V := by
  have table : (file.hasExportFrom || file.hasMutableExports) := by
    by_cases from_ : sym.fromExportFrom
    · exact table_of_specifier mem from_
    · exact table_of_mutable mem (Bool.eq_false_iff.mpr from_) isLet
  have pair : (!sym.fromExportFrom && !file.isSymbolMutable sym.original) = false := by
    rw [isLet, Bool.not_true, Bool.and_false]
  rw [is] at isLet
  refine ⟨onlyValue orig, _, runOf_plain_nil (earlier_onlyValue isLet),
    not_exported mem _ _ pair table ?_⟩
  rw [plain_unwritten, is, originalValue, onlyValue_self]
  nofun

lemma specifier_lost (from_ : sym.fromExportFrom) (loses : file.keepsSpecifier sym = false) :
    Loses file V := by
  obtain ⟨orig, is⟩ := original_of_fromExportFrom mem from_
  rw [SourceFile.keepsSpecifier, Bool.and_eq_false_iff, Bool.not_eq_false', all_eq_false] at loses
  obtain isLet | ⟨starring, inside, different⟩ := loses
  · exact changed_lost mem is isLet
  rw [decide_eq_true_eq, is, Original.imported.injEq] at different
  obtain ⟨module, later, found⟩ := mem_starred.mp inside
  obtain ⟨before, stmt, exports, split, -⟩ := after_split (exists_exportsName mem)
  obtain ⟨own, ownDeclared, same⟩ := any_eq_true.mp exports
  obtain ⟨between, rest, afterSplit⟩ := append_of_mem later
  have wholeSplit := split
  rw [afterSplit, ← cons_append, ← append_assoc] at wholeSplit
  refine ⟨onlyValue starring, _, runOf_plain_nil earlier_refl,
    not_exported mem _ _ (by rw [from_]; rfl)
      (table_of_starred (mem_starred.mpr ⟨module, ?_, found⟩)) ?_⟩
  · rw [wholeSplit]
    exact mem_append_right _ (.head _)
  · have written : ((plain file (onlyValue starring)).foldl (runStep file) {}).exports
        sym.name = some (default : V) := by
      refine plain_starred wholeSplit found (onlyValue_self starring)
        fun other otherMember written writing => ?_
      have inAfter : other ∈ after (file.exportsName sym.name) file.statements := by
        rw [afterSplit]
        exact mem_append_right _ (.tail _ otherMember)
      cases writer_of_writes file writing with
      | assignment access assigned inits =>
        rw [original_of_access mem access] at is
        cases is
      | specifier again named val =>
        refine absurd named ?_
        rw [← of_decide_eq_true same]
        exact exported_once split ownDeclared inAfter again
      | starred found valued is => rw [is, onlyValue_eq valued]
    rw [written, is, originalValue, onlyValue, if_neg different]
    nofun

lemma unnamed_lost (orig : sym.original = .declared decl) (own : sym.fromExportFrom = false)
    (isLet : file.isSymbolMutable sym.original) (unnamed : file.exportAccess decl ≠ some sym.name) :
    Loses file V := by
  have known : decl ∈ file.statements.filterMap declaredVariable := by
    obtain ⟨stmt, known, declaring⟩ := exists_declares (orig ▸ isLet)
    exact mem_filterMap.mpr ⟨stmt, known, of_decide_eq_true declaring⟩
  have run : RunOf file.modules (fun _ => none) [] file.statements
      ((plain file fun _ => none) ++ [.assign decl (some (default : V))]) :=
    runOf_plain earlier_refl _ _ _ fun decl' _ inside => .assign _ (inside known) (.done _)
  refine ⟨_, _, run, not_exported mem _ _ (by rw [own, isLet]; rfl)
    (table_of_mutable mem own isLet) ?_⟩
  rw [exports_kept file (fun step inside written writing => ?_) _ rfl, orig, originalValue,
    foldl_append]
  · simp [assignVariables]
  · have known {stmt : Statement} {initial : Option V} {others : Symbol → Option V}
        (is : step = .run stmt initial others) :
        stmt ∈ file.statements ∧ others = fun _ => none := by
      subst is
      refine ⟨mem_statements run inside, ?_⟩
      obtain plain | last := mem_append.mp inside
      · obtain ⟨_, -, same⟩ := mem_map.mp plain
        cases same
        rfl
      · cases mem_singleton.mp last
    obtain ⟨access, -⟩ | ⟨_, _, _, _, _, is, -, valued, -⟩ :=
      writer_of_declared mem orig (fun _ _ _ is => (known is).1) writing
    · exact absurd access unnamed
    · rw [(known is).2] at valued
      cases valued

lemma overwritten_lost (orig : sym.original = .declared decl)
    (own : sym.fromExportFrom = false) (isLet : file.isSymbolMutable sym.original)
    (overwritten : (starred file.modules (if file.statements.any (initializes decl)
      then after (declares decl) file.statements else file.statements) sym.name).isEmpty =
        false) : Loses file V := by
  obtain ⟨starring, inside⟩ := exists_mem_of_ne_nil _ (isEmpty_eq_false_iff.mp overwritten)
  obtain ⟨module, known, found⟩ := mem_starred.mp inside
  obtain ⟨before, rest, split, uninitialized⟩ : ∃ before rest,
      file.statements = before ++ .exportAll module :: rest ∧
        ∀ stmt ∈ rest, initializes decl stmt ≠ true := by
    split at known
    next =>
      obtain ⟨before, stmt, declaring, split, -⟩ := after_split (exists_declares (orig ▸ isLet))
      obtain ⟨between, rest, afterSplit⟩ := append_of_mem known
      refine ⟨before ++ stmt :: between, rest, ?_, fun other inside inits => ?_⟩
      · rw [append_assoc, cons_append, ← afterSplit]
        exact split
      · refine declared_once split (of_decide_eq_true declaring) (.inr ?_)
          (declaredVariable_of_initializes inits)
        rw [afterSplit]
        exact mem_append_right _ (.tail _ inside)
    next never =>
      obtain ⟨before, rest, split⟩ := append_of_mem known
      refine ⟨before, rest, split, fun other inside inits => never ?_⟩
      exact any_eq_true.mpr ⟨other, split ▸ mem_append_right _ (.tail _ inside), inits⟩
  refine ⟨fun _ => some default, _, runOf_plain_nil earlier_refl,
    not_exported mem _ _ (by rw [own, isLet]; rfl) (table_of_mutable mem own isLet) ?_⟩
  have written : ((plain file fun _ => some (default : V)).foldl (runStep file) {}).exports
      sym.name = some default := by
    refine plain_starred split found rfl fun other inside written writing => ?_
    obtain ⟨-, -, inits⟩ | ⟨_, _, _, _, _, ⟨⟩, -, ⟨⟩, rfl⟩ :=
      writer_of_declared mem orig (fun stmt initial others is => by
        cases is
        exact split ▸ mem_append_right _ (.tail _ inside)) writing
    · exact absurd (inits _ _ _ rfl) (uninitialized other inside)
    · rfl
  rw [written, orig, originalValue, plain_bindings]
  nofun

omit [Inhabited V] in
lemma exists_unnamed (orig : sym.original = .declared decl)
    (several : (file.exports.filter (·.original = .declared decl)).length ≠ 1) :
    ∃ other ∈ file.exports, other.original = .declared decl ∧
      file.exportAccess decl ≠ some other.name := by
  have distinct : (file.exports.filter (·.original = .declared decl)).Nodup :=
    (List.Nodup.of_map _ file.exportedOnce).filter _
  by_contra none
  push Not at none
  have inside : sym ∈ file.exports.filter (·.original = .declared decl) :=
    mem_filter.mpr ⟨mem, decide_eq_true orig⟩
  have same {other : ExportSymbol}
      (found : other ∈ file.exports.filter (·.original = .declared decl)) : other = sym := by
    obtain ⟨otherMember, otherOriginal⟩ := mem_filter.mp found
    refine export_eq otherMember mem ?_
    have here := none sym mem orig
    rw [none other otherMember (of_decide_eq_true otherOriginal)] at here
    exact Option.some.inj here
  match exports : file.exports.filter (·.original = .declared decl) with
  | [] =>
    rw [exports] at inside
    cases inside
  | [_] => exact several (by rw [exports]; rfl)
  | first :: second :: rest =>
    rw [exports] at same distinct
    have equal : first = second := (same (.head _)).trans (same (.tail _ (.head _))).symm
    exact (nodup_cons.mp distinct).1 (equal ▸ .head _)

lemma variable_lost (orig : sym.original = .declared decl) (own : sym.fromExportFrom = false)
    (isLet : file.isSymbolMutable sym.original) (loses : file.keepsVariable sym decl = false) :
    Loses file V := by
  rw [SourceFile.keepsVariable, Bool.and_eq_false_iff] at loses
  obtain several | overwritten := loses
  · obtain ⟨other, otherMember, otherOriginal, unnamed⟩ :=
      exists_unnamed mem orig (of_decide_eq_false several)
    have otherOwn : other.fromExportFrom = false := by
      refine Bool.eq_false_iff.mpr fun from_ => ?_
      obtain ⟨imported, is⟩ := original_of_fromExportFrom otherMember from_
      rw [otherOriginal] at is
      cases is
    exact unnamed_lost otherMember otherOriginal otherOwn
      (by rw [otherOriginal, ← orig, isLet]) unnamed
  · exact overwritten_lost mem orig own isLet overwritten

omit mem

lemma loses_of_not_keeps (mem : sym ∈ file.exports) (loses : file.keeps sym = false) :
    Loses file V := by
  rw [SourceFile.keeps] at loses
  split at loses
  next from_ => exact specifier_lost mem from_ loses
  next own =>
    rw [not_eq_true] at own
    split at loses
    next isLet =>
      cases is : sym.original with
      | declared decl =>
        simp only [is] at loses
        exact variable_lost mem is own isLet loses
      | imported original => exact changed_lost mem is isLet
    next => cases loses

end Lost

def twoNames : SourceFile where
  modules := { members := fun _ => ∅, isMutable := fun _ => false }
  statements :=
    [.declaration (str "x") true true none, .exportNamed [⟨str "x", str "a"⟩, ⟨str "x", str "b"⟩]]
  declaredOnce := by decide
  exportedOnce := by decide
  starredOnce := fun _ _ _ _ member => nomatch member

end Rotor.Transformer.Exports
