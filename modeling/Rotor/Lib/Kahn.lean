import Mathlib.Data.Set.Finite.Basic
import Mathlib.Order.WellFounded
import Rotor.Lib.DepthFirst

/-!
Topological sorting by levels.

Every node counts the dependencies that are not yet in the order.  A node whose count
comes to zero is ready; the ready nodes are sorted, put into the order one by one, and
each lowers the counts of its dependents.
-/

namespace Rotor.Lib.Kahn

open List Function

variable {α : Type} [DecidableEq α] [BEq α] [LawfulBEq α]

/-- Lower the counts of these nodes; those that come to zero are ready. -/
def release : List α → (α → Int) → List α → (α → Int) × List α
  | [], degree, ready => (degree, ready)
  | node :: nodes, degree, ready =>
    release nodes (update degree node (degree node - 1))
      (if degree node - 1 = 0 then ready ++ [node] else ready)

structure State (α : Type) where
  degree : α → Int
  ready : List α
  ordered : List α

def visit (dependents : α → List α) (state : State α) (node : α) : State α :=
  let released := release (dependents node) state.degree state.ready
  ⟨released.1, released.2, state.ordered ++ [node]⟩

def loop (sort : List α → List α) (dependents : α → List α) : Nat → State α → State α
  | 0, state => state
  | fuel + 1, state =>
    if state.ready.isEmpty then state
    else loop sort dependents fuel
      ((sort state.ready).foldl (visit dependents) { state with ready := [] })

/-! ### Releasing -/

lemma release_degree (nodes : List α) (degree : α → Int) (ready : List α) (node : α) :
    (release nodes degree ready).1 node = degree node - nodes.count node := by
  induction nodes generalizing degree ready with
  | nil => simp [release]
  | cons first nodes ih =>
    rw [release, ih]
    by_cases same : first = node
    · subst same
      simp
      omega
    · simp [update_of_ne (Ne.symm same), count_cons_of_ne same]

omit [BEq α] [LawfulBEq α] in
lemma release_append (nodes : List α) (degree : α → Int) (ready : List α) :
    (release nodes degree ready).2 = ready ++ (release nodes degree []).2 := by
  induction nodes generalizing degree ready with
  | nil => simp [release]
  | cons first nodes ih =>
    rw [release, ih, release, ih _ (if degree first - 1 = 0 then [] ++ [first] else [])]
    split <;> simp

/-- A node becomes ready once, when it is lowered as often as its count says. -/
theorem count_release (nodes : List α) (degree : α → Int) (ready : List α) (node : α) :
    (release nodes degree ready).2.count node = ready.count node +
      if 0 < degree node ∧ degree node ≤ nodes.count node then 1 else 0 := by
  induction nodes generalizing degree ready with
  | nil =>
    have never : ¬ (0 < degree node ∧ degree node ≤ 0) := by omega
    simp [release, never]
  | cons first nodes ih =>
    rw [release, ih]
    by_cases same : first = node
    · subst same
      rw [update_self, count_cons_self, apply_ite (List.count first),
        count_append, count_singleton_self]
      push_cast
      split_ifs <;> omega
    · rw [update_of_ne (Ne.symm same), count_cons_of_ne same,
        apply_ite (List.count node), count_append, count_singleton]
      simp [same]

lemma release_ready (nodes : List α) (degree : α → Int) (ready : List α)
    (enough : ∀ node ∈ nodes, (nodes.count node : Int) ≤ degree node) :
    ∃ fresh, (release nodes degree ready).2 = ready ++ fresh ∧ fresh.Nodup ∧
      ∀ node, node ∈ fresh ↔ node ∈ nodes ∧ degree node = nodes.count node := by
  refine ⟨_, release_append nodes degree ready, nodup_iff_count_le_one.mpr ?_, ?_⟩
  · intro node
    rw [count_release]
    split <;> simp
  · intro node
    rw [← count_pos_iff, count_release, count_nil, Nat.zero_add]
    by_cases mem : node ∈ nodes
    · have bound := enough node mem
      have positive := count_pos_iff.mpr mem
      simp only [mem, true_and]
      split_ifs <;> omega
    · rw [count_eq_zero.mpr mem]
      simp only [mem, false_and, iff_false]
      split_ifs <;> omega

/-! ### The order of walking -/

/-- Two states that differ at most in how the ready nodes are listed. -/
structure Same (state state' : State α) : Prop where
  degree : state.degree = state'.degree
  ready : state.ready.Perm state'.ready
  ordered : state.ordered = state'.ordered

section Same

variable {dependents dependents' : α → List α} {state state' : State α}

lemma Same.visit (perm : ∀ node, (dependents node).Perm (dependents' node))
    (same : Same state state') (node : α) :
    Same (visit dependents state node) (visit dependents' state' node) := by
  obtain ⟨degree, ready, ordered⟩ := same
  refine ⟨?_, ?_, by simp only [Kahn.visit, ordered]⟩
  · funext other
    simp only [Kahn.visit, release_degree, degree, (perm node).count_eq]
  · refine perm_iff_count.mpr fun other => ?_
    simp only [Kahn.visit, count_release, degree, (perm node).count_eq, ready.count_eq]

lemma Same.loop {sort : List α → List α}
    (sorts : ∀ list list' : List α, list.Perm list' → sort list = sort list')
    (perm : ∀ node, (dependents node).Perm (dependents' node)) (fuel : Nat)
    (same : Same state state') :
    Same (loop sort dependents fuel state) (loop sort dependents' fuel state') := by
  have level (nodes : List α) {state state' : State α} (same : Same state state') :
      Same (nodes.foldl (Kahn.visit dependents) state)
        (nodes.foldl (Kahn.visit dependents') state') := by
    induction nodes generalizing state state' with
    | nil => exact same
    | cons node nodes ih => exact ih (same.visit perm node)
  induction fuel generalizing state state' with
  | zero => exact same
  | succ fuel ih =>
    rw [Kahn.loop, Kahn.loop, same.ready.isEmpty_eq]
    split
    · exact same
    · rw [sorts _ _ same.ready]
      exact ih (level _ ⟨same.degree, List.Perm.refl _, same.ordered⟩)

end Same

/-! ### The invariant -/

def Ordered (deps : α → List α) (ordered : List α) : Prop :=
  ∀ front node back, ordered = front ++ node :: back → ∀ dep ∈ deps node, dep ∈ front

omit [DecidableEq α] [BEq α] [LawfulBEq α] in
lemma Ordered.concat {deps : α → List α} {ordered : List α} {node : α}
    (order : Ordered deps ordered) (before : ∀ dep ∈ deps node, dep ∈ ordered) :
    Ordered deps (ordered ++ [node]) := DepthFirst.Sorted.concat order before

/-- The nodes, their dependencies and the dependents of each, with multiplicity. -/
structure Graph (nodes : List α) (deps dependents : α → List α) : Prop where
  mem : ∀ node, ∀ other ∈ dependents node, other ∈ nodes
  count : ∀ node, ∀ other ∈ nodes, (dependents node).count other = (deps other).count node

def missing (ordered list : List α) : Nat := list.countP fun dep => !ordered.contains dep

structure Invariant (nodes : List α) (deps : α → List α) (level : List α) (state : State α) :
    Prop where
  nodup : (state.ordered ++ (level ++ state.ready)).Nodup
  mem : ∀ node ∈ state.ordered ++ (level ++ state.ready), node ∈ nodes
  degree : ∀ node ∈ nodes, state.degree node = missing state.ordered (deps node)
  ready : ∀ node ∈ nodes, node ∈ state.ordered ++ (level ++ state.ready) ↔ state.degree node = 0
  order : Ordered deps state.ordered

section Invariant

variable {nodes level : List α} {deps dependents : α → List α} {state : State α}

lemma missing_concat {node : α} {ordered : List α} (absent : node ∉ ordered) (list : List α) :
    missing (ordered ++ [node]) list + list.count node = missing ordered list := by
  induction list with
  | nil => rfl
  | cons first list ih =>
    simp only [missing] at ih ⊢
    rw [countP_cons, countP_cons, count_cons, ← ih]
    by_cases same : first = node
    · subst same
      simp [absent]
      omega
    · by_cases mem : first ∈ ordered <;> simp [mem, same]
      omega

lemma Invariant.visit (graph : Graph nodes deps dependents) {node : α}
    (inv : Invariant nodes deps (node :: level) state) :
    Invariant nodes deps level (Kahn.visit dependents state node) := by
  have inNodes : node ∈ nodes := inv.mem node (by simp)
  have absent : node ∉ state.ordered := by
    have nodup := inv.nodup
    rw [nodup_append] at nodup
    exact fun member => nodup.2.2 node member node (by simp) rfl
  have lowered : ∀ other ∈ nodes, ((dependents node).count other : Int) +
      missing (state.ordered ++ [node]) (deps other) = state.degree other := by
    intro other member
    rw [inv.degree other member, graph.count node other member,
      ← missing_concat absent (deps other)]
    push_cast
    omega
  obtain ⟨fresh, released, nodup, members⟩ := release_ready (dependents node) state.degree
    state.ready fun other member => by
      have sum := lowered other (graph.mem node other member)
      omega
  have degrees := release_degree (dependents node) state.degree state.ready
  have freshNodes : ∀ other ∈ fresh, other ∈ nodes := fun other member =>
    graph.mem node other ((members other).mp member).1
  have freshNew : ∀ other ∈ fresh, other ∉ state.ordered ++ (node :: level ++ state.ready) := by
    intro other member old
    obtain ⟨dependent, zero⟩ := (members other).mp member
    rw [(inv.ready other (freshNodes other member)).mp old] at zero
    have positive := count_pos_iff.mpr dependent
    omega
  -- The nodes in play are the old ones and the fresh ones.
  have same : ∀ other, other ∈ state.ordered ++ [node] ++ (level ++ (state.ready ++ fresh)) ↔
      other ∈ state.ordered ++ (node :: level ++ state.ready) ∨ other ∈ fresh := by
    intro other
    simp only [mem_append, mem_cons, not_mem_nil, or_false]
    tauto
  refine ⟨?_, ?_, ?_, ?_, ?_⟩
  · have together := List.Nodup.append inv.nodup nodup
      fun other old member => freshNew other member old
    simpa [Kahn.visit, released] using together
  · intro other member
    rw [Kahn.visit, released] at member
    rcases (same other).mp member with old | member
    · exact inv.mem other old
    · exact freshNodes other member
  · intro other member
    have sum := lowered other member
    simp only [Kahn.visit, degrees]
    omega
  · intro other member
    have sum := lowered other member
    simp only [Kahn.visit, released, degrees]
    rw [same, members, inv.ready other member]
    constructor
    · rintro (zero | ⟨-, zero⟩)
      · omega
      · omega
    · intro zero
      by_cases dependent : other ∈ dependents node
      · exact .inr ⟨dependent, by omega⟩
      · rw [count_eq_zero.mpr dependent] at zero
        exact .inl (by simpa using zero)
  · apply inv.order.concat
    have zero := (inv.ready node inNodes).mp (by simp)
    rw [inv.degree node inNodes] at zero
    have none := countP_eq_zero.mp (Int.natCast_eq_zero.mp zero)
    intro dep member
    simpa using none dep member

lemma Invariant.foldl (graph : Graph nodes deps dependents)
    (inv : Invariant nodes deps level state) :
    Invariant nodes deps [] (level.foldl (Kahn.visit dependents) state) := by
  induction level generalizing state with
  | nil => exact inv
  | cons node level ih => exact ih (inv.visit graph)

omit [DecidableEq α] [LawfulBEq α] in
lemma Invariant.next (inv : Invariant nodes deps [] state) {sorted : List α}
    (perm : sorted.Perm state.ready) :
    Invariant nodes deps sorted { state with ready := [] } := by
  have same : (state.ordered ++ (sorted ++ [])).Perm (state.ordered ++ ([] ++ state.ready)) := by
    simpa using perm.append_left state.ordered
  refine ⟨same.nodup_iff.mpr inv.nodup, ?_, inv.degree, ?_, inv.order⟩
  · intro node member
    exact inv.mem node (same.mem_iff.mp member)
  · intro node member
    rw [← inv.ready node member]
    exact same.mem_iff

omit [BEq α] [LawfulBEq α] in
lemma length_foldl (level : List α) (state : State α) :
    (level.foldl (Kahn.visit dependents) state).ordered.length =
      state.ordered.length + level.length := by
  induction level generalizing state with
  | nil => rfl
  | cons node level ih =>
    rw [foldl_cons, ih]
    simp [Kahn.visit]
    omega

variable {sort : List α → List α}

lemma Invariant.loop (graph : Graph nodes deps dependents) (perm : ∀ list, (sort list).Perm list)
    (inv : Invariant nodes deps [] state) (fuel : Nat) :
    Invariant nodes deps [] (Kahn.loop sort dependents fuel state) := by
  induction fuel generalizing state with
  | zero => exact inv
  | succ fuel ih =>
    rw [Kahn.loop]
    split
    · exact inv
    · exact ih ((inv.next (perm _)).foldl graph)

omit [DecidableEq α] [LawfulBEq α] in
lemma Invariant.length_le (inv : Invariant nodes deps [] state) :
    state.ordered.length + state.ready.length ≤ nodes.length := by
  have subperm := inv.nodup.subperm inv.mem
  simpa using subperm.length_le

lemma Invariant.ready_loop (graph : Graph nodes deps dependents)
    (perm : ∀ list, (sort list).Perm list) (inv : Invariant nodes deps [] state) {fuel : Nat}
    (enough : nodes.length ≤ state.ordered.length + fuel) :
    (Kahn.loop sort dependents fuel state).ready = [] := by
  induction fuel generalizing state with
  | zero =>
    have bound := inv.length_le
    exact length_eq_zero_iff.mp (by rw [Kahn.loop]; omega)
  | succ fuel ih =>
    rw [Kahn.loop]
    split
    · next empty => simpa using empty
    · next more =>
        apply ih ((inv.next (perm _)).foldl graph)
        have positive : 0 < state.ready.length := by
          rw [length_pos_iff]
          simpa using more
        rw [length_foldl, (perm _).length_eq]
        simp only
        omega

omit [DecidableEq α] [LawfulBEq α] in
lemma Invariant.perm (inv : Invariant nodes deps [] state)
    (whole : state.ordered.length = nodes.length) : state.ordered.Perm nodes := by
  have nodup := inv.nodup.sublist (sublist_append_left _ _)
  have subperm := nodup.subperm fun node member => inv.mem node (by simp [member])
  exact subperm.perm_of_length_le (by omega)

omit [DecidableEq α] in
/-- Where the loop has come to its end, all nodes are in the order, or there is a cycle. -/
theorem Invariant.cycle (inv : Invariant nodes deps [] state) (done : state.ready = [])
    (inside : ∀ node ∈ nodes, ∀ dep ∈ deps node, dep ∈ nodes) {node : α} (mem : node ∈ nodes)
    (left : node ∉ state.ordered) :
    ∃ node, Relation.TransGen (fun a b => b ∈ deps a) node node := by
  by_contra acyclic
  let path (a b : {node // node ∈ nodes}) := Relation.TransGen (fun a b => b ∈ deps a) b.1 a.1
  have : IsTrans _ path := ⟨fun _ _ _ first second => second.trans first⟩
  have : Std.Irrefl path := ⟨fun node loop => acyclic ⟨node, loop⟩⟩
  have : Finite {node // node ∈ nodes} := finite_toSet nodes
  -- Of the nodes that are left, one with no dependency among them is ready.
  obtain ⟨⟨least, isNode⟩, isLeft, lowest⟩ :=
    (Finite.wellFounded_of_trans_of_irrefl path).has_min {node | node.1 ∉ state.ordered}
      ⟨⟨node, mem⟩, left⟩
  apply isLeft
  have ready := (inv.ready least isNode).mpr ?_
  · simpa [done] using ready
  · rw [inv.degree least isNode, Int.natCast_eq_zero, missing, countP_eq_zero]
    intro dep isDep
    by_contra absent
    exact lowest ⟨dep, inside least isNode dep isDep⟩ (by simpa using absent)
      (Relation.TransGen.single isDep)

end Invariant

end Rotor.Lib.Kahn
