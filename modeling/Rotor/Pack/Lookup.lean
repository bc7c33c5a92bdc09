import Rotor.Pack.Loaded

/-!
Termination of the child lookup without a host game.

`realOf` climbs to the root and reads its `Parent`.  That field is absent, so that the read
goes through `__index`.  The DataModel's metatable answers nil; that of other classes looks
for a child named `Parent` and then calls `realOf` on the root again.
-/

namespace Rotor.Pack

open Function

variable {R : Type}

/-- The runtime of a tree when `realGame` is nil. -/
def lone (root : Instance) (host : Host R) : Runtime R := ⟨load root, none, host⟩

def Returns {α : Type} (call : Nat → Lua R α) (memo : Memo R) (value : α) : Prop :=
  ∃ fuel memo', call fuel memo = some (.ok (value, memo'))

def Memo.empty : Memo R := fun _ => none

variable {α β : Type} {first : Lua R α} {next : α → Lua R β}

lemma andThen_of_none
    {memo : Memo R} (stuck : first memo = none) : Lua.andThen first next memo = none := by
  rw [Lua.andThen, stuck]

lemma andThen_of_ok {memo middle : Memo R} {val : α} (ok : first memo = some (.ok (val, middle))) :
    Lua.andThen first next memo = next val middle := by
  rw [Lua.andThen, ok]

/-! ### Reading `Parent` -/

lemma rawField_parent (obj : Obj) (id : Nat) (memo : Memo R) :
    rawField obj id memo (str "Parent") = obj.parent.map .virtual := by
  rw [rawField, if_neg (by decide), if_neg (by decide), if_neg (by decide), if_neg (by decide),
    if_pos rfl]

variable {rt : Runtime R} {id : Nat} {obj : Obj} {memo : Memo R}

lemma index_parent (found : rt.heap id = some obj) {parent : Nat}
    (isParent : obj.parent = some parent) (fuel : Nat) :
    index rt (fuel + 1) id (str "Parent") memo = some (.ok (.virtual parent, memo)) := by
  simp only [index, found, rawField_parent, isParent, Option.map_some]

lemma index_parent_dataModel (found : rt.heap id = some obj) (isRoot : obj.parent = none)
    (dataModel : obj.className = str "DataModel") (fuel : Nat) :
    index rt (fuel + 1) id (str "Parent") memo =
      some (.ok (dataModelIndex rt obj (str "Parent"), memo)) := by
  simp only [index, found, rawField_parent, isRoot, Option.map_none, dataModel, if_true]

lemma index_parent_other (found : rt.heap id = some obj) (isRoot : obj.parent = none)
    (other : obj.className ≠ str "DataModel") (fuel : Nat) :
    index rt (fuel + 1) id (str "Parent") memo =
      findFirstChild rt fuel id (str "Parent") memo := by
  simp only [index, found, rawField_parent, isRoot, Option.map_none, other, if_false]
  rw [if_neg (by decide)]

lemma dataModelIndex_parent (noGame : rt.realGame = none) : dataModelIndex rt obj (str "Parent") =
      match virtualChild rt obj (str "Parent") with
      | some child => .virtual child
      | none => .nil := by
  rw [dataModelIndex, if_neg (by decide)]
  cases virtualChild rt obj (str "Parent") with
  | none => simp only [noGame]
  | some child => rfl

/-! ### Memos -/

def NoReal (memo : Memo R) : Prop := ∀ id real, memo id = some real → real = none

lemma NoReal.empty : NoReal (Memo.empty : Memo R) := by
  intro id real found
  cases found

lemma NoReal.update (noReal : NoReal memo) (id : Nat) : NoReal (update memo id (some none)) := by
  intro other real found
  by_cases here : other = id
  · rw [here, update_self] at found
    exact (Option.some.inj found).symm
  · rw [update_of_ne here] at found
    exact noReal other real found

def Ensures {α : Type} (post : α → Memo R → Prop)
    (outcome : Option (Except LuaError (α × Memo R))) : Prop :=
  ∀ value memo, outcome = some (.ok (value, memo)) → post value memo

lemma Ensures.ok {post : α → Memo R → Prop} {val : α} (holds : post val memo) :
    Ensures post (some (.ok (val, memo))) := by
  rintro _ _ ⟨⟩
  exact holds

lemma Ensures.andThen
    {between : α → Memo R → Prop} {post : β → Memo R → Prop} (before : Ensures between (first memo))
    (after : ∀ val middle, between val middle → Ensures post (next val middle)) :
    Ensures post (Lua.andThen first next memo) := by
  rw [Lua.andThen]
  rcases done : first memo with _ | ⟨error | ⟨val, middle⟩⟩
  · nofun
  · nofun
  · exact after val middle (before val middle done)

lemma noReal_of_call (noGame : rt.realGame = none) (fuel : Nat) : ∀ id memo, NoReal memo →
      (∀ key, Ensures (fun _ => NoReal) (index rt fuel id key memo)) ∧
      (∀ name, Ensures (fun _ => NoReal) (findFirstChild rt fuel id name memo)) ∧
      Ensures (fun real memo => real = none ∧ NoReal memo) (realOf rt fuel id memo) := by
  induction fuel with
  | zero => exact fun _ _ _ => ⟨fun _ => nofun, fun _ => nofun, nofun⟩
  | succ fuel ih =>
    intro id memo noReal
    rw [realOf]
    simp only [index, findFirstChild]
    cases rt.heap id with
    | none => exact ⟨fun _ => nofun, fun _ => nofun, nofun⟩
    | some obj =>
      refine ⟨fun key => ?_, fun name => ?_, ?_⟩
      · dsimp only
        split
        · exact .ok noReal
        · split_ifs
          · exact .ok noReal
          · exact .ok noReal
          · exact (ih id memo noReal).2.1 key
      · dsimp only
        split
        · exact .ok noReal
        · exact (ih id memo noReal).2.2.andThen fun real middle kept => .ok kept.2
      · dsimp only
        split
        · next known => exact .ok ⟨noReal id _ known, noReal⟩
        · refine .andThen (.andThen ((ih id memo noReal).1 _) fun parent first noReal' => ?_)
            fun real middle (kept : real = none ∧ NoReal middle) =>
              .ok ⟨kept.1, kept.1 ▸ kept.2.update id⟩
          split
          · exact .ok ⟨noGame, noReal'⟩
          · refine .andThen ((ih id first noReal').1 _) fun parent second noReal' => ?_
            split
            · refine ((ih _ second noReal').2.2).andThen ?_
              rintro _ third ⟨rfl, noReal'⟩
              exact .ok ⟨rfl, noReal'⟩
            · nofun

lemma noReal_of_fullNameParts (noGame : rt.realGame = none) (fuel : Nat) :
    ∀ {cur : Value R} {parts : List Bytes} {memo : Memo R}, NoReal memo →
      Ensures (fun _ => NoReal) (fullNameParts rt fuel cur parts memo) := by
  induction fuel with
  | zero => exact fun _ => nofun
  | succ fuel ih =>
    intro cur parts memo noReal
    rw [fullNameParts]
    split
    · exact .ok noReal
    · split
      · nofun
      · exact ((noReal_of_call noGame fuel _ _ noReal).1 _).andThen fun _ _ => ih
    · exact ih noReal
    · nofun

/-- The `_real` fields that calls of the runtime's functions lead to. -/
inductive Reachable (rt : Runtime R) : Memo R → Prop
  | start : Reachable rt Memo.empty
  | index {memo memo' : Memo R} {fuel id key value} : Reachable rt memo →
      index rt fuel id key memo = some (.ok (value, memo')) → Reachable rt memo'
  | findFirstChild {memo memo' : Memo R} {fuel id name value} : Reachable rt memo →
      findFirstChild rt fuel id name memo = some (.ok (value, memo')) →
      Reachable rt memo'
  | waitForChild {memo memo' : Memo R} {fuel id name value} : Reachable rt memo →
      waitForChild rt fuel id name memo = some (.ok (value, memo')) → Reachable rt memo'
  | getFullName {memo memo' : Memo R} {fuel id name} : Reachable rt memo →
      getFullName rt fuel id memo = some (.ok (name, memo')) → Reachable rt memo'

lemma Reachable.noReal (noGame : rt.realGame = none) (reachable : Reachable rt memo) :
    NoReal memo := by
  induction reachable with
  | start => exact .empty
  | index _ returned ih => exact (noReal_of_call noGame _ _ _ ih).1 _ _ _ returned
  | findFirstChild _ returned ih => exact (noReal_of_call noGame _ _ _ ih).2.1 _ _ _ returned
  | waitForChild _ returned ih =>
    rw [Pack.waitForChild] at returned
    split at returned
    · cases returned
    · split at returned
      · cases returned
        exact ih
      · exact ((noReal_of_call noGame _ _ _ ih).2.2.andThen fun _ _ kept =>
          @Ensures.ok _ _ _ (fun _ => NoReal) _ kept.2) _ _ returned
  | getFullName _ returned ih =>
    exact ((noReal_of_fullNameParts noGame _ ih).andThen fun _ _ =>
      @Ensures.ok _ _ _ (fun _ => NoReal) _) _ _ returned

/-! ### Lookup in a loaded tree -/

variable {name : Bytes}

section Tree

variable {root : Instance} {host : Host R}

lemma virtualChild_eq_none_iff (found : load root id = some obj) :
    virtualChild (lone root host) obj name = none ↔
      ∀ place ∈ places root, place.entry.parentID = some id → place.entry.name ≠ name := by
  obtain ⟨-, -, -, -, -, -, children⟩ := load_eq_some found
  rw [virtualChild, List.find?_eq_none]
  constructor
  · intro none place mem isParent same
    obtain ⟨child, isChild, -, isName, -⟩ := load_of_mem mem
    have absent := none place.entry.id (children ▸ mem_childIDs.mpr ⟨place, mem, rfl, isParent⟩)
    simp [lone, isChild, isName, same] at absent
  · intro none child mem
    obtain ⟨place, inside, rfl, isParent⟩ := mem_childIDs.mp (children ▸ mem)
    obtain ⟨child, isChild, -, isName, -⟩ := load_of_mem inside
    simpa [lone, isChild, isName] using none place inside isParent

lemma virtualChild_eq_some (found : load root id = some obj) {child : Nat}
    (isChild : virtualChild (lone root host) obj name = some child) :
    ∃ below, load root child = some below ∧ below.parent = some id := by
  obtain ⟨-, -, -, -, -, -, children⟩ := load_eq_some found
  have mem := List.mem_of_find?_eq_some isChild
  obtain ⟨place, inside, rfl, isParent⟩ := mem_childIDs.mp (children ▸ mem)
  obtain ⟨below, isBelow, -, -, parent, -⟩ := load_of_mem inside
  exact ⟨below, isBelow, parent.trans isParent⟩

lemma load_cases (found : load root id = some obj) : (id = 1 ∧ obj.parent = none) ∨
      ∃ parent above, obj.parent = some parent ∧ parent < id ∧ load root parent = some above := by
  obtain ⟨place, mem, rfl, -, -, isParent, -⟩ := load_eq_some found
  rcases place_cases mem with ⟨first, none, -⟩ | ⟨parent, inside, below, smaller, -⟩
  · exact .inl ⟨first, isParent.trans none⟩
  · obtain ⟨above, isAbove, -⟩ := load_of_mem inside
    exact .inr ⟨parent.entry.id, above, isParent.trans below, smaller, isAbove⟩

/-- The root answers nil for its `Parent`: it is a DataModel without a child of that name. -/
def AnswersParent (root : Instance) : Prop :=
  root.className = str "DataModel" ∧ ∀ child ∈ root.children, child.name ≠ str "Parent"

instance (root : Instance) : Decidable (AnswersParent root) := inferInstanceAs (Decidable (_ ∧ _))

lemma root_className (found : load root 1 = some obj) : obj.className = root.className := by
  obtain ⟨place, mem, first, className, -⟩ := load_eq_some found
  cases root with
  | mk rootClass name source val children =>
    rw [className]
    have isFirst : (⟨⟨1, none, rootClass, name, source, val⟩, [] ++ [name]⟩ : Place) ∈
        places (.mk rootClass name source val children) := by
      exact List.mem_cons_self ..
    rw [place_unique mem isFirst first]
    rfl

lemma answersParent_iff (found : load root 1 = some obj) :
    AnswersParent root ↔ obj.className = str "DataModel" ∧
      virtualChild (lone root host) obj (str "Parent") = none := by
  rw [AnswersParent, root_className found, virtualChild_eq_none_iff found]
  have named := child_name_iff root (str "Parent")
  constructor
  · rintro ⟨dataModel, none⟩
    refine ⟨dataModel, fun place mem isParent same => ?_⟩
    obtain ⟨child, below, isName⟩ := named.mp ⟨place, mem, isParent, same⟩
    exact none child below isName
  · rintro ⟨dataModel, none⟩
    refine ⟨dataModel, fun child below isName => ?_⟩
    obtain ⟨place, mem, isParent, same⟩ := named.mpr ⟨child, below, isName⟩
    exact none place mem isParent same

lemma index_parent_answers (host : Host R) (answers : AnswersParent root)
    (found : load root 1 = some obj) (isRoot : obj.parent = none) (memo : Memo R) (fuel : Nat) :
    index (lone root host) (fuel + 1) 1 (str "Parent") memo = some (.ok (.nil, memo)) := by
  obtain ⟨dataModel, none⟩ := (@answersParent_iff _ _ _ host found).mp answers
  have isObj : (lone root host).heap 1 = some obj := found
  rw [index_parent_dataModel isObj isRoot dataModel, dataModelIndex_parent rfl, none]

lemma realOf_succ (found : load root id = some obj) (unknown : memo id = none) (fuel : Nat) :
    realOf (lone root host) (fuel + 1) id memo =
      Lua.andThen (Lua.andThen (index (lone root host) fuel id (str "Parent")) fun parent =>
        match parent with
        | .nil => .ret none
        | _ => Lua.andThen (index (lone root host) fuel id (str "Parent")) fun parent =>
          match parent with
          | .virtual parent => Lua.andThen (realOf (lone root host) fuel parent) fun real =>
            .ret (real.bind fun real => host.findFirstChild real obj.name)
          | _ => .fail .badArgument)
        (fun found memo => some (.ok (found, update memo id (some found)))) memo := by
  have isObj : (lone root host).heap id = some obj := found
  rw [realOf]
  simp only [isObj, unknown]
  rfl

lemma realOf_of_parent (found : load root id = some obj) (unknown : memo id = none) {fuel : Nat}
    {parent : Nat} (read : index (lone root host) fuel id (str "Parent") memo =
      some (.ok (.virtual parent, memo))) :
    realOf (lone root host) (fuel + 1) id memo =
      Lua.andThen (Lua.andThen (realOf (lone root host) fuel parent) fun real =>
          .ret (real.bind fun real => host.findFirstChild real obj.name))
        (fun found memo => some (.ok (found, update memo id (some found)))) memo := by
  rw [realOf_succ found unknown, Lua.andThen, Lua.andThen, read]
  dsimp only
  rw [andThen_of_ok read]
  rfl

/-- Below a root that answers, `realOf` climbs to the root and returns. -/
theorem realOf_returns (host : Host R) (answers : AnswersParent root) :
    ∀ id obj, load root id = some obj → ∀ memo, NoReal memo → ∀ fuel, id < fuel →
      ∃ memo', realOf (lone root host) fuel id memo = some (.ok (none, memo')) := by
  intro id
  induction id using Nat.strong_induction_on with
  | _ id ih =>
    intro obj found memo noReal fuel enough
    obtain ⟨fuel, rfl⟩ : ∃ rest, fuel = rest + 1 := ⟨fuel - 1, by omega⟩
    have isObj : (lone root host).heap id = some obj := found
    cases known : memo id with
    | some real =>
      obtain rfl := noReal id real known
      exact ⟨memo, by rw [realOf]; simp only [isObj, known]⟩
    | none =>
      rcases load_cases found with ⟨rfl, isRoot⟩ | ⟨parent, above, isParent, smaller, isAbove⟩
      · obtain ⟨fuel, rfl⟩ : ∃ rest, fuel = rest + 1 := ⟨fuel - 1, by omega⟩
        refine ⟨update memo 1 (some none), ?_⟩
        rw [realOf_succ found known, Lua.andThen, Lua.andThen,
          index_parent_answers host answers found isRoot]
        rfl
      · obtain ⟨fuel, rfl⟩ : ∃ rest, fuel = rest + 1 := ⟨fuel - 1, by omega⟩
        obtain ⟨memo', climbed⟩ := ih parent smaller above isAbove memo noReal (fuel + 1) (by omega)
        refine ⟨update memo' id (some none), ?_⟩
        rw [realOf_of_parent found known (index_parent isObj isParent fuel), Lua.andThen,
          andThen_of_ok climbed]
        rfl

lemma fullNameParts_returns (answers : AnswersParent root) (memo : Memo R) :
    ∀ id, ∀ place ∈ places root, place.entry.id = id → ∀ fuel, id + 1 < fuel → ∀ parts,
      fullNameParts (lone root host) fuel (.virtual id) parts memo =
        some (.ok (place.names ++ parts, memo)) := by
  intro id
  induction id using Nat.strong_induction_on with
  | _ id ih =>
    rintro place mem rfl fuel enough parts
    obtain ⟨fuel, rfl⟩ : ∃ rest, fuel = rest + 2 := ⟨fuel - 2, by omega⟩
    obtain ⟨obj, found, -, isName, isParent, -⟩ := load_of_mem mem
    have isObj : (lone root host).heap place.entry.id = some obj := found
    rw [fullNameParts]
    simp only [isObj]
    rcases place_cases mem with ⟨first, none, names⟩ | ⟨parent, inside, below, smaller, names⟩
    · rw [first] at found ⊢
      rw [andThen_of_ok (index_parent_answers host answers found (isParent.trans none) memo fuel),
        fullNameParts, names, isName]
      rfl
    · rw [andThen_of_ok (index_parent isObj (isParent.trans below) fuel),
        ih parent.entry.id smaller parent inside rfl (fuel + 1) (by omega),
        names, isName, List.append_assoc]
      rfl

/-! ### A root that does not answer -/

lemma index_parent_root (silent : ¬AnswersParent root) (found : load root 1 = some obj)
    (isRoot : obj.parent = none) {fuel : Nat}
    (climb : ∀ less < fuel, realOf (lone root host) less 1 Memo.empty = none) :
    index (lone root host) fuel 1 (str "Parent") Memo.empty = none ∨
      ∃ child below, load root child = some below ∧ below.parent = some 1 ∧
        index (lone root host) fuel 1 (str "Parent") Memo.empty =
          some (.ok (.virtual child, Memo.empty)) := by
  have isObj : (lone root host).heap 1 = some obj := found
  cases fuel with
  | zero => exact .inl rfl
  | succ fuel =>
    cases isChild : virtualChild (lone root host) obj (str "Parent") with
    | some child =>
      obtain ⟨below, isBelow, isParent⟩ := virtualChild_eq_some found isChild
      by_cases dataModel : obj.className = str "DataModel"
      · refine .inr ⟨child, below, isBelow, isParent, ?_⟩
        rw [index_parent_dataModel isObj isRoot dataModel, dataModelIndex_parent rfl, isChild]
      · rw [index_parent_other isObj isRoot dataModel]
        cases fuel with
        | zero => exact .inl rfl
        | succ fuel =>
          refine .inr ⟨child, below, isBelow, isParent, ?_⟩
          rw [findFirstChild]
          simp only [isObj, isChild]
    | none =>
      have dataModel : obj.className ≠ str "DataModel" := fun dataModel =>
        silent ((answersParent_iff found).mpr ⟨dataModel, isChild⟩)
      rw [index_parent_other isObj isRoot dataModel]
      cases fuel with
      | zero => exact .inl rfl
      | succ fuel =>
        refine .inl ?_
        rw [findFirstChild]
        simp only [isObj, isChild]
        exact andThen_of_none (climb fuel (by omega))

lemma realOf_diverges (silent : ¬AnswersParent root) (fuel : Nat) :
    ∀ id obj, load root id = some obj →
      realOf (lone root host) fuel id Memo.empty = none := by
  induction fuel using Nat.strong_induction_on with
  | _ fuel ih =>
    intro id obj found
    have isObj : (lone root host).heap id = some obj := found
    cases fuel with
    | zero => rfl
    | succ fuel =>
      have step {parent : Nat} {above : Obj} (isAbove : load root parent = some above)
          (read : index (lone root host) fuel id (str "Parent") Memo.empty =
            some (.ok (.virtual parent, Memo.empty))) :
          realOf (lone root host) (fuel + 1) id Memo.empty = none := by
        rw [realOf_of_parent found rfl read]
        exact andThen_of_none (andThen_of_none (ih fuel (by omega) parent above isAbove))
      rcases load_cases found with ⟨rfl, isRoot⟩ | ⟨parent, above, isParent, -, isAbove⟩
      · rcases index_parent_root silent found isRoot (fun less (smaller : less < fuel) =>
            ih less (by omega) 1 obj found) with
          stuck | ⟨child, below, isBelow, -, read⟩
        · rw [realOf_succ found rfl]
          exact andThen_of_none (andThen_of_none stuck)
        · exact step isBelow read
      · cases fuel with
        | zero =>
          rw [realOf_succ found rfl]
          exact andThen_of_none (andThen_of_none rfl)
        | succ fuel => exact step isAbove (index_parent isObj isParent fuel)

lemma fullNameParts_diverges (silent : ¬AnswersParent root) (fuel : Nat) :
    ∀ id obj, load root id = some obj → ∀ parts,
      fullNameParts (lone root host) fuel (.virtual id) parts Memo.empty = none := by
  induction fuel with
  | zero =>
    intro id obj found parts
    rfl
  | succ fuel ih =>
    intro id obj found parts
    have isObj : (lone root host).heap id = some obj := found
    rw [fullNameParts]
    simp only [isObj]
    rcases load_cases found with ⟨rfl, isRoot⟩ | ⟨parent, above, isParent, -, isAbove⟩
    · rcases index_parent_root silent found isRoot
        (fun less (_ : less < fuel) => realOf_diverges silent less 1 obj found) with
        stuck | ⟨child, below, isBelow, -, read⟩
      · exact andThen_of_none stuck
      · rw [andThen_of_ok read]
        exact ih child below isBelow _
    · cases fuel with
      | zero => exact andThen_of_none rfl
      | succ fuel =>
        rw [andThen_of_ok (index_parent isObj isParent fuel)]
        exact ih parent above isAbove _

end Tree

/-! ### Totality -/

/-- A name that a lookup by indexing has to answer with nil: no raw field, no method and no
child. -/
structure Missing (rt : Runtime R) (obj : Obj) (id : Nat) (memo : Memo R) (key : Bytes) : Prop where
  field : rawField obj id memo key = none
  method : key ∉ methods
  dmMethod : obj.className = str "DataModel" → key ∉ dmMethods
  child : virtualChild rt obj key = none

/-- Lookups of missing names return nil and full names come out, for every instance of the
tree and whatever was called before. -/
structure Total (root : Instance) (host : Host R) : Prop where
  index : ∀ memo, Reachable (lone root host) memo → ∀ id obj, load root id = some obj →
    ∀ key, Missing (lone root host) obj id memo key →
      Returns (fun fuel => index (lone root host) fuel id key) memo .nil
  findFirstChild : ∀ memo, Reachable (lone root host) memo →
    ∀ id obj, load root id = some obj → ∀ name, virtualChild (lone root host) obj name = none →
      Returns (fun fuel => findFirstChild (lone root host) fuel id name) memo .nil
  waitForChild : ∀ memo, Reachable (lone root host) memo →
    ∀ id obj, load root id = some obj → ∀ name, virtualChild (lone root host) obj name = none →
      Returns (fun fuel => waitForChild (lone root host) fuel id name) memo .nil
  getFullName : ∀ memo, Reachable (lone root host) memo → ∀ place ∈ places root,
    Returns (fun fuel => getFullName (lone root host) fuel place.entry.id) memo
      ((str ".").intercalate place.names)

section Total

variable {root : Instance} {host : Host R}

lemma child_returns (host : Host R) (answers : AnswersParent root) (noReal : NoReal memo)
    (found : load root id = some obj) (absent : virtualChild (lone root host) obj name = none) :
    ∃ memo', findFirstChild (lone root host) (id + 2) id name memo = some (.ok (.nil, memo')) ∧
      waitForChild (lone root host) (id + 1) id name memo = some (.ok (.nil, memo')) := by
  have isObj : (lone root host).heap id = some obj := found
  obtain ⟨memo', climbed⟩ := realOf_returns host answers id obj found memo noReal _ id.lt_succ_self
  refine ⟨memo', ?_⟩
  rw [findFirstChild, waitForChild]
  simp only [isObj, absent]
  rw [andThen_of_ok climbed, andThen_of_ok climbed]
  exact ⟨rfl, rfl⟩

lemma index_returns (answers : AnswersParent root) (noReal : NoReal memo)
    (found : load root id = some obj) {key : Bytes}
    (missing : Missing (lone root host) obj id memo key) :
    ∃ memo', index (lone root host) (id + 3) id key memo = some (.ok (.nil, memo')) := by
  have isObj : (lone root host).heap id = some obj := found
  rw [index]
  simp only [isObj, missing.field]
  by_cases dataModel : obj.className = str "DataModel"
  · refine ⟨memo, ?_⟩
    have noMethod := missing.dmMethod dataModel
    rw [if_pos dataModel, dataModelIndex, if_neg (by simp [noMethod, missing.method]),
      missing.child]
    rfl
  · obtain ⟨memo', returned, -⟩ := child_returns host answers noReal found missing.child
    exact ⟨memo', by rw [if_neg dataModel, if_neg (by simp [missing.method]), returned]⟩

/-- Below a root that does not answer no lookup of a missing name returns, and no full name
comes out. -/
theorem lookup_diverges (host : Host R) (silent : ¬AnswersParent root)
    (found : load root id = some obj) (fuel : Nat) :
    getFullName (lone root host) fuel id Memo.empty = none ∧
      ∀ name, virtualChild (lone root host) obj name = none →
        waitForChild (lone root host) fuel id name Memo.empty = none ∧
        findFirstChild (lone root host) fuel id name Memo.empty = none ∧
        (Missing (lone root host) obj id Memo.empty name → obj.className ≠ str "DataModel" →
          index (lone root host) fuel id name Memo.empty = none) := by
  have isObj : (lone root host).heap id = some obj := found
  refine ⟨andThen_of_none (fullNameParts_diverges silent fuel id obj found []), ?_⟩
  intro name absent
  have notFound (fuel : Nat) : findFirstChild (lone root host) fuel id name Memo.empty = none := by
    cases fuel with
    | zero => rfl
    | succ fuel =>
      rw [findFirstChild]
      simp only [isObj, absent]
      exact andThen_of_none (realOf_diverges silent fuel id obj found)
  refine ⟨?_, notFound fuel, ?_⟩
  · rw [waitForChild]
    simp only [isObj, absent]
    exact andThen_of_none (realOf_diverges silent fuel id obj found)
  · intro missing notDataModel
    cases fuel with
    | zero => rfl
    | succ fuel =>
      rw [index]
      simp only [isObj, missing.field]
      rw [if_neg notDataModel, if_neg (by simp [missing.method])]
      exact notFound fuel

/-- The lookup is total exactly when the root answers for its `Parent`, which no root but a
DataModel does. -/
theorem total_iff (root : Instance) (host : Host R) : Total root host ↔ AnswersParent root := by
  constructor
  · intro total
    by_contra silent
    obtain ⟨first, rest, whole, isFirst, -⟩ := places_eq root
    have member : first ∈ places root := by
      rw [whole]
      exact List.mem_cons_self ..
    obtain ⟨obj, found, -⟩ := load_of_mem member
    obtain ⟨fuel, memo, returned⟩ := total.getFullName _ .start first member
    have stuck : getFullName (lone root host) fuel first.entry.id Memo.empty = none :=
      andThen_of_none (fullNameParts_diverges silent fuel _ obj found [])
    exact absurd (stuck.symm.trans returned) (by simp)
  · intro answers
    refine ⟨?_, ?_, ?_, ?_⟩
    · intro memo reachable id obj found key missing
      exact ⟨id + 3, index_returns answers (reachable.noReal rfl) found missing⟩
    · intro memo reachable id obj found name absent
      obtain ⟨memo', returned, -⟩ := child_returns host answers (reachable.noReal rfl) found absent
      exact ⟨id + 2, memo', returned⟩
    · intro memo reachable id obj found name absent
      obtain ⟨memo', -, returned⟩ := child_returns host answers (reachable.noReal rfl) found absent
      exact ⟨id + 1, memo', returned⟩
    · intro memo reachable place member
      refine ⟨place.entry.id + 2, memo, ?_⟩
      have names : fullNameParts (lone root host) (place.entry.id + 2)
          (.virtual place.entry.id) [] memo = some (.ok (place.names ++ [], memo)) :=
        fullNameParts_returns answers memo place.entry.id place member rfl _ (by omega) []
      have returned : getFullName (lone root host) (place.entry.id + 2) place.entry.id memo =
          some (.ok ((str ".").intercalate (place.names ++ []), memo)) := andThen_of_ok names
      rwa [List.append_nil] at returned

end Total

def noHost : Host Empty := ⟨nofun, nofun, nofun, nofun, nofun⟩

/-- A folder without children: neither a lookup of a name nor the full name returns. -/
theorem folder_lookup_diverges :
    let rt := lone (.mk (str "Folder") (str "m") [] [] []) noHost
    ∀ fuel, index rt fuel 1 (str "x") Memo.empty = none ∧
      findFirstChild rt fuel 1 (str "x") Memo.empty = none ∧
      waitForChild rt fuel 1 (str "x") Memo.empty = none ∧
      getFullName rt fuel 1 Memo.empty = none := by
  intro rt fuel
  have found : load (.mk (str "Folder") (str "m") [] [] []) 1 =
      some ⟨str "Folder", str "m", none, [], none, none⟩ := by decide
  obtain ⟨fullName, lookups⟩ := lookup_diverges noHost (by decide) found fuel
  obtain ⟨waited, notFound, indexed⟩ := lookups (str "x") rfl
  exact ⟨indexed ⟨by decide, by decide, by decide, rfl⟩ (by decide), notFound, waited, fullName⟩

end Rotor.Pack
