import Mathlib.Data.List.Nodup
import Rotor.Pack.Runtime

/-!
The tables after the tree is rebuilt: every instance but the root has its parent, and every
instance lists those that have it as their parent.
-/

namespace Rotor.Pack

open List Function

/-! ### Names from the root -/

structure Place where
  entry : Entry
  names : List Bytes

mutual
/-- `assign` with the names; those of the instance above are `above`. -/
def walk (above : List Bytes) (parentID : Option Nat) (next : Nat) : Instance → List Place
  | .mk className name source value children =>
    ⟨⟨next, parentID, className, name, source, value⟩, above ++ [name]⟩ ::
      walkAll (above ++ [name]) (some next) (next + 1) children

def walkAll (above : List Bytes) (parentID : Option Nat) (next : Nat) : List Instance → List Place
  | [] => []
  | child :: children =>
    let first := walk above parentID next child
    first ++ walkAll above parentID (next + first.length) children
end

mutual
theorem map_entry_walk (above : List Bytes) (parentID : Option Nat) (next : Nat) :
    (tree : Instance) → (walk above parentID next tree).map Place.entry = assign parentID next tree
  | .mk className name source val children => by
    rw [walk, assign, map_cons, map_entry_walkAll]

theorem map_entry_walkAll (above : List Bytes) (parentID : Option Nat) (next : Nat) :
    (trees : List Instance) →
      (walkAll above parentID next trees).map Place.entry = assignAll parentID next trees
  | [] => by rw [walkAll, assignAll, map_nil]
  | child :: children => by
    have first := map_entry_walk above parentID next child
    have length : (walk above parentID next child).length =
        (assign parentID next child).length := by
      rw [← first, length_map]
    rw [walkAll, assignAll, map_append, first, length, map_entry_walkAll]
end

mutual
theorem map_id_walk (above : List Bytes) (parentID : Option Nat) (next : Nat) :
    (tree : Instance) → (walk above parentID next tree).map (fun place => place.entry.id) =
      List.range' next (walk above parentID next tree).length
  | .mk className name source val children => by
    rw [walk, map_cons, map_id_walkAll, length_cons, List.range'_succ]

theorem map_id_walkAll (above : List Bytes) (parentID : Option Nat) (next : Nat) :
    (trees : List Instance) → (walkAll above parentID next trees).map
    (fun place => place.entry.id) =
      List.range' next (walkAll above parentID next trees).length
  | [] => by rw [walkAll, map_nil, length_nil, List.range'_zero]
  | child :: children => by
    rw [walkAll, map_append, map_id_walk, map_id_walkAll, length_append, List.range'_append_1]
end

/-- Each place hangs below one that comes before it, or below one of `base`. -/
inductive Linked : List Place → List Place → Prop
  | nil {base : List Place} : Linked base []
  | cons {base places : List Place} {parent place : Place} : parent ∈ base →
      place.entry.parentID = some parent.entry.id →
      place.names = parent.names ++ [place.entry.name] →
      Linked (base ++ [place]) places → Linked base (place :: places)

variable {base : List Place} {place : Place} {root : Instance}

lemma Linked.append {places places' : List Place} (linked : Linked base places)
    (linked' : Linked (base ++ places) places') : Linked base (places ++ places') := by
  induction linked with
  | nil => simpa using linked'
  | cons inBase isParent names _ ih =>
    exact .cons inBase isParent names (ih (by simpa using linked'))

mutual
theorem linked_walk {base : List Place} {parent : Place} (inBase : parent ∈ base) (next : Nat) :
    (tree : Instance) → Linked base (walk parent.names (some parent.entry.id) next tree)
  | .mk className name source val children => by
    rw [walk]
    let here : Place := ⟨⟨next, some parent.entry.id, className, name, source, val⟩,
      parent.names ++ [name]⟩
    exact .cons inBase rfl rfl
      (linked_walkAll (show here ∈ base ++ [here] by simp) (next + 1) children)

theorem linked_walkAll {base : List Place} {parent : Place} (inBase : parent ∈ base) (next : Nat) :
    (trees : List Instance) → Linked base (walkAll parent.names (some parent.entry.id) next trees)
  | [] => by
    rw [walkAll]
    exact .nil
  | child :: children => by
    rw [walkAll]
    exact (linked_walk inBase next child).append
      (linked_walkAll (mem_append_left _ inBase) _ children)
end

/-! ### The tables -/

def childIDs (places : List Place) (id : Nat) : List Nat :=
  (places.filter fun place => place.entry.parentID == some id).map fun place => place.entry.id

def valueOf (entry : Entry) : Option Bytes :=
  if entry.className = str "StringValue" then some entry.value else none

def tables (places : List Place) : Heap := fun id =>
  (places.find? fun place => place.entry.id == id).map fun place =>
    ⟨place.entry.className, place.entry.name, place.entry.parentID, childIDs places id,
      valueOf place.entry, none⟩

lemma exec_declare {heap : Heap} {entry : Entry} (other : entry.parentID ≠ some entry.id)
    (id : Nat) : (declare entry).foldl exec heap id =
      if id = entry.id then
        some ⟨entry.className, entry.name, entry.parentID, [], valueOf entry, none⟩
      else if entry.parentID = some id then
        (heap id).map fun obj => { obj with children := obj.children ++ [entry.id] }
      else heap id := by
  have valued (heap : Heap) (obj : Obj) (isObj : heap entry.id = some obj)
      (absent : obj.value = none) : (if entry.className = str "StringValue" then
        [Stmt.setValue entry.id entry.value] else []).foldl exec heap =
          update heap entry.id (some { obj with value := valueOf entry }) := by
    by_cases isValue : entry.className = str "StringValue"
    · simp [isValue, exec, Heap.modify, isObj, valueOf]
    · have same : { obj with value := none } = obj := by rw [← absent]
      simp [isValue, valueOf, same, ← isObj]
  rw [declare, cons_append, foldl_cons, foldl_append]
  cases parentID : entry.parentID with
  | none =>
    rw [foldl_nil, valued _ ⟨entry.className, entry.name, none, [], none, none⟩
      (by simp [exec]) rfl]
    by_cases here : id = entry.id
    · simp [here]
    · simp [here, exec]
  | some parent =>
    have apart : parent ≠ entry.id := by
      rintro rfl
      exact other parentID
    rw [foldl_cons, foldl_nil, valued _ ⟨entry.className, entry.name, some parent, [], none, none⟩
        (by simp [exec, Heap.modify, apart.symm]) rfl]
    by_cases here : id = entry.id
    · simp [here]
    · by_cases isParent : id = parent
      · subst isParent
        simp [here, exec, Heap.modify]
      · simp [here, isParent, Ne.symm isParent, exec, Heap.modify]

lemma childIDs_append (places : List Place) (place : Place) (id : Nat) :
    childIDs (places ++ [place]) id =
      childIDs places id ++ if place.entry.parentID = some id then [place.entry.id] else [] := by
  rw [childIDs, filter_append, map_append]
  by_cases below : place.entry.parentID = some id
  · simp [childIDs, below]
  · simp [childIDs, below]

def Closed (places : List Place) : Prop :=
  ∀ place ∈ places, ∀ id, place.entry.parentID = some id → ∃ parent ∈ places, parent.entry.id = id

lemma tables_append (closed : Closed base) (new : ∀ other ∈ base, other.entry.id ≠ place.entry.id)
    (below : ∀ id, place.entry.parentID = some id → ∃ parent ∈ base, parent.entry.id = id) :
    (declare place.entry).foldl exec (tables base) = tables (base ++ [place]) := by
  have other : place.entry.parentID ≠ some place.entry.id := by
    intro self
    obtain ⟨parent, mem, same⟩ := below _ self
    exact new parent mem same
  funext id
  rw [exec_declare other, tables, tables, List.find?_append, childIDs_append]
  by_cases here : id = place.entry.id
  · subst here
    have absent : base.find? (fun other => other.entry.id == place.entry.id) = none := by
      simpa [List.find?_eq_none] using new
    have leaf : childIDs base place.entry.id = [] := by
      rw [childIDs, map_eq_nil_iff, filter_eq_nil_iff]
      intro child mem isParent
      obtain ⟨parent, inside, same⟩ := closed child mem _ (by simpa using isParent)
      exact new parent inside same
    simp [absent, leaf, other]
  · rw [if_neg here]
    have notHere : (place.entry.id == id) = false := by simpa using Ne.symm here
    cases found : base.find? fun other => other.entry.id == id with
    | none =>
      have unparented : place.entry.parentID ≠ some id := by
        intro isParent
        obtain ⟨parent, mem, same⟩ := below id isParent
        have := List.find?_eq_none.mp found parent mem
        simp [same] at this
      simp [notHere, unparented]
    | some parent =>
      by_cases isParent : place.entry.parentID = some id
      · simp [isParent]
      · simp [isParent]

def Increasing (places : List Place) : Prop :=
  places.Pairwise fun place later => place.entry.id < later.entry.id

lemma foldl_declare {places : List Place} (linked : Linked base places) (closed : Closed base)
    (increasing : Increasing (base ++ places)) :
    (places.flatMap fun place => declare place.entry).foldl exec (tables base) =
      tables (base ++ places) := by
  induction linked with
  | nil => simp
  | @cons base places parent place inBase isParent names linked ih =>
    have below : ∀ id, place.entry.parentID = some id → ∃ parent ∈ base, parent.entry.id = id := by
      intro id same
      exact ⟨parent, inBase, Option.some.inj (isParent.symm.trans same)⟩
    have closed' : Closed (base ++ [place]) := by
      intro other mem id same
      rcases mem_append.mp mem with inside | new
      · obtain ⟨above, inside, isAbove⟩ := closed other inside id same
        exact ⟨above, mem_append_left _ inside, isAbove⟩
      · obtain rfl := mem_singleton.mp new
        obtain ⟨above, inside, isAbove⟩ := below id same
        exact ⟨above, mem_append_left _ inside, isAbove⟩
    have new : ∀ other ∈ base, other.entry.id ≠ place.entry.id := fun other inside =>
      ((pairwise_append.mp increasing).2.2 other inside place (.head _)).ne
    rw [flatMap_cons, foldl_append, tables_append closed new below,
      ih closed' (by simpa using increasing)]
    simp

def Obj.core (obj : Obj) : Obj := { obj with impl := none }

lemma core_foldl_setImpl (scripts : List Entry) (heap : Heap) (id : Nat) :
    ((scripts.map fun entry =>
      Stmt.setImpl entry.id entry.source).foldl exec heap id).map Obj.core =
      (heap id).map Obj.core := by
  induction scripts generalizing heap with
  | nil => rfl
  | cons entry scripts ih =>
    rw [map_cons, foldl_cons, ih, exec, Heap.modify]
    by_cases here : id = entry.id
    · subst here
      rw [update_self, Option.map_map]
      rfl
    · rw [update_of_ne here]

def places (root : Instance) : List Place := walk [] none 1 root

lemma increasing_places (root : Instance) : Increasing (places root) := by
  have sorted : ((places root).map fun place => place.entry.id).Pairwise (· < ·) := by
    rw [places, map_id_walk]
    exact pairwise_lt_range'
  exact pairwise_map.mp sorted

lemma places_eq (root : Instance) : ∃ first rest, places root = first :: rest ∧
    first.entry.id = 1 ∧ first.entry.parentID = none ∧ first.names = [first.entry.name] ∧
    Linked [first] rest := by
  cases root with
  | mk className name source val children =>
    refine ⟨_, _, by rw [places, walk], rfl, rfl, rfl, ?_⟩
    let first : Place := ⟨⟨1, none, className, name, source, val⟩, [] ++ [name]⟩
    exact linked_walkAll (show first ∈ [first] by simp) 2 children

lemma core_load (root : Instance) (id : Nat) :
    (load root id).map Obj.core = tables (places root) id := by
  obtain ⟨first, rest, whole, -, isRoot, -, linked⟩ := places_eq root
  have entries : assign none 1 root = (first :: rest).map Place.entry := by
    rw [← whole, places, map_entry_walk]
  have declared : ((assign none 1 root).flatMap declare).foldl exec (fun _ => none) =
      tables (first :: rest) := by
    have start : (declare first.entry).foldl exec (tables []) = tables ([] ++ [first]) :=
      tables_append (by simp [Closed]) (by simp) (by simp [isRoot])
    have increasing := increasing_places root
    rw [whole] at increasing
    rw [entries, flatMap_map, flatMap_cons, foldl_append]
    rw [show (fun _ => none : Heap) = tables [] from rfl, start]
    exact foldl_declare linked (by simp [Closed, isRoot]) increasing
  rw [load, emit, foldl_append, core_foldl_setImpl, declared, whole, tables, Option.map_map]
  rfl

lemma load_eq_some {id : Nat} {obj : Obj} (found : load root id = some obj) :
    ∃ place ∈ places root, place.entry.id = id ∧ obj.className = place.entry.className ∧
      obj.name = place.entry.name ∧ obj.parent = place.entry.parentID ∧
      obj.children = childIDs (places root) id := by
  have core := core_load root id
  rw [found, Option.map_some, tables] at core
  obtain ⟨place, isPlace, same⟩ := Option.map_eq_some_iff.mp core.symm
  have isID : place.entry.id = id := by simpa using List.find?_some isPlace
  rw [Obj.core, Obj.mk.injEq] at same
  obtain ⟨className, name, parent, children, -⟩ := same
  exact ⟨place, mem_of_find?_eq_some isPlace, isID, className.symm, name.symm, parent.symm,
    children.symm⟩

lemma place_unique {other : Place} (mem : place ∈ places root) (mem' : other ∈ places root)
    (same : place.entry.id = other.entry.id) : place = other := by
  have nodup : ((places root).map fun place => place.entry.id).Nodup := by
    rw [places, map_id_walk]
    exact nodup_range'
  exact inj_on_of_nodup_map nodup mem mem' same

lemma load_of_mem (mem : place ∈ places root) :
    ∃ obj, load root place.entry.id = some obj ∧ obj.className = place.entry.className ∧
      obj.name = place.entry.name ∧ obj.parent = place.entry.parentID ∧
      obj.children = childIDs (places root) place.entry.id := by
  have core := core_load root place.entry.id
  cases found : load root place.entry.id with
  | none =>
    rw [found, Option.map_none, tables, eq_comm, Option.map_eq_none_iff] at core
    simpa using List.find?_eq_none.mp core place mem
  | some obj =>
    obtain ⟨other, inside, same, fields⟩ := load_eq_some found
    obtain rfl := place_unique inside mem same
    exact ⟨obj, rfl, fields⟩

def Below (place parent : Place) : Prop :=
  place.entry.parentID = some parent.entry.id ∧ parent.entry.id < place.entry.id ∧
    place.names = parent.names ++ [place.entry.name]

lemma Linked.exists_below {places : List Place} (linked : Linked base places)
    (increasing : Increasing (base ++ places)) (mem : place ∈ places) :
    ∃ parent ∈ base ++ places, Below place parent := by
  induction linked with
  | nil => cases mem
  | @cons base places parent first inBase isParent names _ ih =>
    rcases mem_cons.mp mem with rfl | later
    · exact ⟨parent, mem_append_left _ inBase, isParent,
        (pairwise_append.mp increasing).2.2 parent inBase place (.head _), names⟩
    · obtain ⟨above, inside, below⟩ := ih (by simpa using increasing) later
      exact ⟨above, by simpa using inside, below⟩

lemma place_cases (mem : place ∈ places root) :
    (place.entry.id = 1 ∧ place.entry.parentID = none ∧ place.names = [place.entry.name]) ∨
      ∃ parent ∈ places root, Below place parent := by
  obtain ⟨first, rest, whole, isFirst, isRoot, names, linked⟩ := places_eq root
  have increasing := increasing_places root
  rw [whole] at mem increasing ⊢
  rcases mem_cons.mp mem with rfl | later
  · exact .inl ⟨isFirst, isRoot, names⟩
  · exact .inr (linked.exists_below increasing later)

lemma mem_childIDs {id child : Nat} : child ∈ childIDs (places root) id ↔
      ∃ place ∈ places root, place.entry.id = child ∧ place.entry.parentID = some id := by
  simp [childIDs, mem_filter, and_assoc, and_comm]

/-! ### The children of the root -/

mutual
theorem walk_parent (above : List Bytes) (parentID : Option Nat) (next : Nat) :
    (tree : Instance) → ∀ place ∈ walk above parentID next tree,
      (place.entry.parentID = parentID ∧ place.entry.name = tree.name) ∨
        ∃ parent, next ≤ parent ∧ place.entry.parentID = some parent
  | .mk className name source val children => by
    intro place mem
    rw [walk] at mem
    rcases mem_cons.mp mem with rfl | inside
    · exact .inl ⟨rfl, rfl⟩
    · obtain ⟨isParent, -⟩ | ⟨parent, later, isParent⟩ :=
        walkAll_parent _ _ _ children place inside
      · exact .inr ⟨next, le_rfl, isParent⟩
      · exact .inr ⟨parent, by omega, isParent⟩

theorem walkAll_parent (above : List Bytes) (parentID : Option Nat) (next : Nat) :
    (trees : List Instance) → ∀ place ∈ walkAll above parentID next trees,
      (place.entry.parentID = parentID ∧ ∃ tree ∈ trees, place.entry.name = tree.name) ∨
        ∃ parent, next ≤ parent ∧ place.entry.parentID = some parent
  | [] => by
    intro place mem
    rw [walkAll] at mem
    cases mem
  | child :: children => by
    intro place mem
    rw [walkAll] at mem
    rcases mem_append.mp mem with inside | inside
    · rcases walk_parent _ _ _ child place inside with ⟨isParent, name⟩ | later
      · exact .inl ⟨isParent, child, .head _, name⟩
      · exact .inr later
    · rcases walkAll_parent _ _ _ children place inside with
        ⟨isParent, tree, below, name⟩ | ⟨parent, later, isParent⟩
      · exact .inl ⟨isParent, tree, .tail _ below, name⟩
      · exact .inr ⟨parent, by omega, isParent⟩
end

lemma exists_walkAll (above : List Bytes) (parentID : Option Nat) (next : Nat)
    {trees : List Instance} {tree : Instance} (mem : tree ∈ trees) :
    ∃ place ∈ walkAll above parentID next trees,
      place.entry.parentID = parentID ∧ place.entry.name = tree.name := by
  induction trees generalizing next with
  | nil => cases mem
  | cons child children ih =>
    rw [walkAll]
    rcases mem_cons.mp mem with rfl | later
    · cases tree with
      | mk className name source val children =>
        rw [walk]
        exact ⟨_, mem_append_left _ (mem_cons_self ..), rfl, rfl⟩
    · obtain ⟨place, inside, isParent⟩ := ih _ later
      exact ⟨place, mem_append_right _ inside, isParent⟩

lemma child_name_iff (root : Instance) (name : Bytes) :
    (∃ place ∈ places root, place.entry.parentID = some 1 ∧ place.entry.name = name) ↔
      ∃ child ∈ root.children, child.name = name := by
  cases root with
  | mk className rootName source val children =>
    rw [places, walk]
    constructor
    · rintro ⟨place, mem, isParent, isName⟩
      rcases mem_cons.mp mem with rfl | inside
      · cases isParent
      · rcases walkAll_parent _ _ _ children place inside with
          ⟨-, child, below, same⟩ | ⟨parent, later, isParent'⟩
        · exact ⟨child, below, same.symm.trans isName⟩
        · rw [isParent, Option.some.injEq] at isParent'
          omega
    · rintro ⟨child, below, isName⟩
      obtain ⟨place, inside, isParent, same⟩ := exists_walkAll ([] ++ [rootName]) (some 1) 2 below
      exact ⟨place, .tail _ inside, isParent, same.trans isName⟩

end Rotor.Pack
