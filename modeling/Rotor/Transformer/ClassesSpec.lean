import Rotor.Lib.Log
import Rotor.Transformer.Classes

/-!
Construction keeps order and scope.

The emitted constructors run what TypeScript runs, in the same order. Only the names of field
initializers can go wrong: the constructor's parameters and the locals up to the call of `super`
are in scope where the initializers are put.
-/

namespace Rotor.Transformer.Classes

open List Lib

variable {V : Type}

/-! ### Scopes -/

def shadow (names : List Bytes) (bind look : Bytes → Binding) (name : Bytes) : Binding :=
  if name ∈ names then bind name else look name

lemma shadow_append (names later : List Bytes) (bind look : Bytes → Binding) :
    shadow later bind (shadow names bind look) = shadow (names ++ later) bind look := by
  funext name
  by_cases found : name ∈ later <;> simp [shadow, found]

lemma resolve_append {bind : Bytes → Binding} (named : ∀ name, (bind name).name = name)
    (names : List Bytes) (scope : List Binding) :
    resolve (names.map bind ++ scope) = shadow names bind (resolve scope) := by
  funext name
  induction names with
  | nil => simp [shadow]
  | cons first names ih =>
    rw [resolve, map_cons, cons_append, List.find?_cons]
    by_cases same : first = name
    · subst same
      simp [shadow, named]
    · rw [named, decide_eq_false same]
      simp only [shadow, mem_cons, Ne.symm same, false_or]
      exact ih

/-! ### Segments of a constructor -/

section Class

variable (level : Nat) (args : List (Option V)) (above : List (Option V) → Log V → Log V)

/-- Where names stand for what `look` says, the statements follow a specification, and names then
stand for what `after` says. -/
def Emits (condition : Prop) (look : Bytes → Binding) (statements : List (LuauStatement V))
    (after : Bytes → Binding) (spec : Log V → Log V) : Prop :=
  ∃ run, Follows condition run spec ∧ ∀ scope log, resolve scope = look →
    let state := statements.foldl (LuauStatement.run level args above) { scope, log }
    resolve state.scope = after ∧ state.log = run log

variable {level args above} {cond later : Prop} {look between after : Bytes → Binding}
  {stmts others : List (LuauStatement V)} {spec next : Log V → Log V}

lemma Emits.congr (emits : Emits level args above cond look stmts after spec)
    (same : cond ↔ later) : Emits level args above later look stmts after spec := by
  rwa [← same]

lemma Emits.nil : Emits level args above True look [] look id :=
  ⟨id, .refl fun _ => prefix_rfl, fun _ _ same => ⟨same, rfl⟩⟩

lemma Emits.append (first : Emits level args above cond look stmts between spec)
    (second : Emits level args above later between others after next) :
    Emits level args above (cond ∧ later) look (stmts ++ others) after
      fun log => next (spec log) := by
  obtain ⟨run, follows, ends⟩ := first
  obtain ⟨more, further, finishes⟩ := second
  refine ⟨_, follows.bind further, fun scope log same => ?_⟩
  obtain ⟨found, logged⟩ := ends scope log same
  rw [foldl_append, ← logged]
  exact finishes _ _ found

lemma Emits.call (method : MethodDeclaration V) (emits : Emits level args above cond
      (resolve ((method.parameters.filterMap id).map (.parameter level))) method.statements after
      spec) :
    Follows cond (method.call level above args)
      fun log => spec (log ++ [.call level args]) := by
  obtain ⟨run, follows, ends⟩ := emits
  have called : method.call level above args =
      fun log => run (log ++ [.call level args]) := funext fun log => (ends _ _ rfl).2
  rw [called]
  exact ((Follows.append (.call level args) _).bind follows).congr (and_iff_right rfl)

/-! ### Parameters -/

/-- The names a parameter binds in the head of the body, not in the list of parameters. -/
def Parameter.bodyNames (param : Parameter) : List Bytes :=
  if param.isRest || param.isPattern then param.emittedNames else []

lemma Parameter.emits (param : Parameter) (idx : Nat) (look : Bytes → Binding) :
    Emits level args above True look (param.statements idx)
      (shadow param.bodyNames (.parameter level) look)
      (bindParameters level args idx [param]) := by
  refine ⟨_, .refl fun log => ?_, ?_⟩
  · simp only [bindParameters]
    split_ifs <;> simp
  · rintro scope log rfl
    have bound := @resolve_append (.parameter level) fun _ => rfl
    obtain ⟨binding, isRest, usesVarArgs, hasInitializer, isProperty, _⟩ := param
    cases binding <;> cases isRest <;> cases usesVarArgs <;> cases hasInitializer <;>
      cases missing : args[idx]?.join.isNone <;>
      simp [Parameter.statements, Parameter.identifier, Parameter.isPattern, Parameter.names,
        Parameter.analyzeVarArgsOptimization, Parameter.emittedNames, Parameter.bodyNames,
        bindParameters, LuauStatement.run, missing, ← bound]

lemma transformParameters_emits (params : List Parameter) (idx : Nat) (look : Bytes → Binding) :
    Emits level args above True look (transformParameters idx params).2
      (shadow (params.flatMap (·.bodyNames)) (.parameter level) look)
      (bindParameters level args idx params) := by
  induction params generalizing idx look with
  | nil => exact Emits.nil
  | cons param params ih =>
    rw [flatMap_cons, ← shadow_append]
    exact ((param.emits idx look).append (ih (idx + 1) _)).congr and_self_iff

variable (V) in
lemma parameters_names (params : List Parameter) (idx : Nat) (name : Bytes) :
    (name ∈ (@transformParameters V idx params).1.filterMap id ∨
      name ∈ params.flatMap (·.bodyNames)) ↔ name ∈ params.flatMap (·.emittedNames) := by
  induction params generalizing idx with
  | nil => simp [transformParameters]
  | cons param params ih =>
    rw [transformParameters, flatMap_cons, flatMap_cons, mem_append, mem_append, ← ih (idx + 1)]
    obtain ⟨binding, isRest, usesVarArgs, hasInitializer, isProperty, _⟩ := param
    cases binding <;> cases isRest <;> cases usesVarArgs <;>
      simp [Parameter.bodyNames, Parameter.identifier, Parameter.isPattern, Parameter.names,
        Parameter.analyzeVarArgsOptimization, Parameter.emittedNames, or_assoc, or_left_comm]

lemma parameters_emits (params : List Parameter) : Emits level args above True
      (resolve (((@transformParameters V 0 params).1.filterMap id).map (.parameter level)))
      (transformParameters 0 params).2
      (shadow (params.flatMap (·.emittedNames)) (.parameter level) .visible)
      (bindParameters level args 0 params) := by
  have listed := @resolve_append (.parameter level) (fun _ => rfl)
    ((@transformParameters V 0 params).1.filterMap id) []
  rw [append_nil] at listed
  have names : shadow (params.flatMap (·.emittedNames)) (.parameter level) .visible =
      shadow ((@transformParameters V 0 params).1.filterMap id ++
        params.flatMap (·.bodyNames)) (.parameter level) .visible :=
    funext fun name =>
      if_congr (mem_append.trans (parameters_names V params 0 name)).symm rfl rfl
  rw [names, ← shadow_append, listed]
  exact transformParameters_emits params 0 _

/-! ### Bodies -/

lemma parameterProperties_emits (params : List Parameter)
    (bound : ∀ param ∈ params, ∀ name ∈ param.emittedNames,
      look name = .parameter level name) :
    Emits level args above True look (parameterProperties params) look
      (assignParameterProperties level params) := by
  induction params with
  | nil =>
    have same : assignParameterProperties level [] = (id : Log V → Log V) := funext append_nil
    rw [same]
    exact Emits.nil
  | cons param params ih =>
    have rest := ih fun other mem => bound other (.tail _ mem)
    obtain ⟨binding, isRest, usesVarArgs, hasInitializer, isProperty, restPlain⟩ := param
    match isProperty, binding, restPlain with
    | false, _, _ => exact rest
    | true, .pattern names, _ => exact rest
    | true, .identifier name, restPlain =>
      have notRest : isRest = false := by simpa using restPlain
      have first : Emits level args above True look [.assignProperty name] look
          (· ++ [.parameterProperty level name (.parameter level name)]) := by
        refine ⟨_, .refl fun _ => prefix_append _ _, ?_⟩
        rintro scope log rfl
        rw [← bound _ (.head _) name (by simp [Parameter.emittedNames,
          Parameter.analyzeVarArgsOptimization, notRest, Parameter.names])]
        exact ⟨rfl, rfl⟩
      have both := (first.append rest).congr and_self_iff
      simp only [assignParameterProperties, append_assoc] at both
      exact both

lemma transformPropertyInitializers_emits (properties : List PropertyDeclaration) (idx : Nat) :
    Emits level args above ((properties.all fun member => member.isStatic ||
        (member.initializer.getD []).all fun name => look name = .visible name) = true)
      look (transformPropertyInitializers idx properties) look
      (initializeFields level idx properties) := by
  induction properties generalizing idx with
  | nil => exact Emits.nil.congr (iff_of_true trivial rfl)
  | cons member properties ih =>
    obtain ⟨isStatic, initializer⟩ := member
    match isStatic, initializer with
    | true, _ => exact ih (idx + 1)
    | false, none => exact ih (idx + 1)
    | false, some names =>
      have first : Emits level args above (names.all fun name => look name = .visible name)
          look [.assignField idx names] look
          (· ++ [.field level idx (names.map .visible)]) := by
        refine ⟨_, (Follows.append (.field level idx (names.map look)) _).congr ?_, ?_⟩
        · simp
        · rintro scope log rfl
          exact ⟨rfl, rfl⟩
      exact (first.append (ih (idx + 1))).congr (Bool.and_eq_true _ _).symm.to_iff

variable {specAbove : List (Option V) → Log V → Log V}

lemma transformStatementList_emits (follows : ∀ args, Follows cond (above args) (specAbove args))
    (body : List (BodyStatement V)) (idx : Nat) (look : Bytes → Binding) :
    Emits level args above (body.any (·.isSuperCall) → cond) look
      (transformStatementList idx body) (shadow (body.flatMap (·.locals)) (.ownLocal level) look)
      (runBody level specAbove idx body) := by
  induction body generalizing idx look with
  | nil => exact Emits.nil.congr ⟨fun _ none => (nomatch none), fun _ => trivial⟩
  | cons stmt body ih =>
    rw [flatMap_cons, ← shadow_append]
    cases stmt with
    | other locals =>
      have first : Emits level args above True look [.statement idx locals]
          (shadow locals (.ownLocal level) look) (· ++ [.statement level idx]) := by
        refine ⟨_, .refl fun _ => prefix_append _ _, ?_⟩
        rintro scope log rfl
        exact ⟨resolve_append (fun _ => rfl) locals scope, rfl⟩
      exact (first.append (ih (idx + 1) _)).congr (and_iff_right trivial)
    | superCall superArguments =>
      have first : Emits level args above cond look [.superConstructor superArguments] look
          fun log => specAbove (superArguments log) log :=
        ⟨_, .choose follows superArguments, fun _ _ same => ⟨same, rfl⟩⟩
      refine (first.append (ih (idx + 1) _)).congr ?_
      exact ⟨fun both _ => both.1, fun holds => ⟨holds rfl, fun _ => holds rfl⟩⟩

/-! ### Constructors -/

/-- The names that hide others where the field initializers are put. -/
def ClassDeclaration.namesAtFields (decl : ClassDeclaration V) : List Bytes :=
  match decl.constructor with
  | none => []
  | some node => node.parameters.flatMap (·.emittedNames) ++
      (node.body.take (superEnd node.body)).flatMap (·.locals)

/-- No initializer has the name of an emitted parameter or of a local up to the call of
`super`. -/
def ClassDeclaration.keepsNames (decl : ClassDeclaration V) : Bool :=
  decl.properties.all fun member => member.isStatic ||
    (member.initializer.getD []).all (· ∉ decl.namesAtFields)

def lookAtFields (level : Nat) (node : ConstructorDeclaration V) : Bytes → Binding :=
  shadow ((node.body.take (superEnd node.body)).flatMap (·.locals)) (.ownLocal level)
    (shadow (node.parameters.flatMap (·.emittedNames)) (.parameter level) .visible)

lemma lookAtFields_bound (level : Nat) (node : ConstructorDeclaration V) :
    ∀ param ∈ node.parameters, ∀ name ∈ param.emittedNames,
      lookAtFields level node name = .parameter level name := by
  intro param mem name named
  refine (if_neg fun hidden => ?_).trans (if_pos (mem_flatMap.mpr ⟨param, mem, named⟩))
  obtain ⟨stmt, inside, isLocal⟩ := mem_flatMap.mp hidden
  exact node.distinct param mem name (mem_ite_nil_left.mp named).2 stmt (mem_of_mem_take inside)
    isLocal

lemma keepsNames_iff {decl : ClassDeclaration V}
    (hidden : ∀ name, look name = .visible name ↔ name ∉ decl.namesAtFields) :
    (decl.properties.all fun member => member.isStatic ||
        (member.initializer.getD []).all fun name => look name = .visible name) = true ↔
      decl.keepsNames := by
  simp only [ClassDeclaration.keepsNames, hidden]

lemma constructor_follows (follows : ∀ args, Follows cond (above args) (specAbove args))
    {decl : ClassDeclaration V} {node : ConstructorDeclaration V}
    (explicit : decl.constructor = some node) :
    Follows ((node.body.any (·.isSuperCall) → cond) ∧ decl.keepsNames)
      ((transformClassConstructor decl.properties node).call level above args)
      fun log => runBody level specAbove (superEnd node.body) (node.body.drop (superEnd node.body))
        (initializeFields level 0 decl.properties (assignParameterProperties level node.parameters
            (runBody level specAbove 0 (node.body.take (superEnd node.body))
              (bindParameters level args 0 node.parameters
                (log ++ [.call level args]))))) := by
  have hidden (name : Bytes) : lookAtFields level node name = .visible name ↔
      name ∉ decl.namesAtFields := by
    rw [ClassDeclaration.namesAtFields, explicit, mem_append, lookAtFields, shadow, shadow]
    split_ifs <;> simp [*]
  have whole := (@parameters_emits _ level args above node.parameters).append <|
    (transformStatementList_emits follows (node.body.take (superEnd node.body)) 0 _).append <|
      (parameterProperties_emits node.parameters (lookAtFields_bound level node)).append <|
        (transformPropertyInitializers_emits decl.properties 0).append <|
          transformStatementList_emits follows (node.body.drop (superEnd node.body))
            (superEnd node.body) _
  refine (Emits.call (transformClassConstructor decl.properties node) whole).congr ?_
  have calls : node.body.any (·.isSuperCall) =
      ((node.body.take (superEnd node.body)).any (·.isSuperCall) ||
        (node.body.drop (superEnd node.body)).any (·.isSuperCall)) := by
    rw [← any_append, take_append_drop]
  rw [keepsNames_iff hidden, calls, Bool.or_eq_true, or_imp]
  tauto

end Class

/-- Classes from the derived to the base, as the checker accepts them: a constructor of a derived
class calls `super`. -/
def Accepted : List (ClassDeclaration V) → Prop
  | [] => True
  | decl :: parents =>
    (∀ node ∈ decl.constructor, parents ≠ [] → node.body.any (·.isSuperCall) = true) ∧
      Accepted parents

lemma runConstructor_follows {classes : List (ClassDeclaration V)}
    (accepted : Accepted classes) (args : List (Option V)) :
    Follows (classes.all (·.keepsNames)) (runConstructor classes args)
      (construct classes args) := by
  induction classes generalizing args with
  | nil => exact (Follows.refl fun _ => prefix_rfl).congr (iff_of_true trivial rfl)
  | cons decl parents ih =>
    have above := ih accepted.2
    rw [all_cons, Bool.and_eq_true, and_comm]
    obtain ⟨properties, constructor⟩ := decl
    cases constructor with
    | some node =>
      refine Follows.congr (constructor_follows above rfl) (and_congr_left fun _ => ?_)
      by_cases base : parents = []
      · subst base
        exact iff_of_true (fun _ => rfl) rfl
      · exact ⟨fun holds => holds (accepted.1 node rfl base), fun holds _ => holds⟩
    | none =>
      have called : Emits parents.length args (runConstructor parents)
          (parents.all (·.keepsNames)) .visible
          (if !parents.isEmpty then [.superConstructorVarArgs] else []) .visible
          (construct parents args) := by
        cases parents with
        | nil => exact Emits.nil.congr (iff_of_true trivial rfl)
        | cons parent parents => exact ⟨_, above args, fun _ _ same => ⟨same, rfl⟩⟩
      have whole := called.append (transformPropertyInitializers_emits properties 0)
      refine Follows.congr (Emits.call (transformImplicitClassConstructor properties _) whole) ?_
      rw [@keepsNames_iff _ _ ⟨properties, none⟩]
      exact fun name => iff_of_true rfl not_mem_nil

/-- The classes of an object, from its own to the base. -/
structure ClassHierarchy (V : Type) where
  classes : List (ClassDeclaration V)
  accepted : Accepted classes

def captured : ClassHierarchy Nat where
  classes :=
    [{ properties := [{ initializer := some [str "x"] }]
       constructor := some
        { parameters := [{ name := .identifier (str "x") }]
          body := []
          distinct := fun _ _ _ _ _ inside => (nomatch inside) } }]
  accepted := ⟨fun _ _ derived => absurd rfl derived, trivial⟩

end Rotor.Transformer.Classes
