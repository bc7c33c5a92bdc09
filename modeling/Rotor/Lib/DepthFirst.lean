import Mathlib.Data.List.Nodup
import Mathlib.Logic.Relation

/-!
Depth-first search over a graph that is given by the successors of each node.

`search` keeps the nodes it is still inside on a stack and refuses to meet one of them again.
The order in which it finishes its nodes lists every node behind its successors. `postOrder`
only remembers which nodes it has met; where the search succeeds, it lists the same nodes in
the same order.
-/

namespace Rotor.Lib.DepthFirst

open List

variable {α : Type} [DecidableEq α]

/-- The nodes finished so far and those finished below `node`; nothing on a cycle. -/
def search (next : α → List α) : Nat → List α → List α → α → Option (List α)
  | 0, _, _, _ => none
  | fuel + 1, stack, done, node =>
    if node ∈ stack then none
    else if node ∈ done then some done
    else ((next node).foldlM (search next fuel (node :: stack)) done).map (· ++ [node])

def postOrder (next : α → List α) : Nat → List α × List α → α → List α × List α
  | 0, met, _ => met
  | fuel + 1, (visited, listed), node =>
    if node ∈ visited then (visited, listed)
    else
      let (visited, listed) := (next node).foldl (postOrder next fuel) (node :: visited, listed)
      (visited, listed ++ [node])

def Sorted (next : α → List α) (nodes : List α) : Prop :=
  ∀ front node back, nodes = front ++ node :: back → ∀ successor ∈ next node, successor ∈ front

variable {next : α → List α}

omit [DecidableEq α] in
lemma Sorted.nil : Sorted next [] := by
  intro front node back split
  simp at split

variable {nodes : List α}

omit [DecidableEq α] in
lemma Sorted.concat {node : α} (sorted : Sorted next nodes)
    (behind : ∀ successor ∈ next node, successor ∈ nodes) : Sorted next (nodes ++ [node]) := by
  intro front other back split
  rcases eq_nil_or_concat back with rfl | ⟨back, last, rfl⟩
  · obtain ⟨rfl, same⟩ := append_inj' split rfl
    cases same
    exact behind
  · have shorter : nodes ++ [node] = (front ++ other :: back) ++ [last] := by simpa using split
    exact sorted front other back (append_inj' shorter rfl).1

omit [DecidableEq α] in
lemma Sorted.reached {front back : List α} {node target : α} (sorted : Sorted next nodes)
    (split : nodes = front ++ node :: back)
    (reached : Relation.TransGen (fun a b => b ∈ next a) node target) : target ∈ front := by
  induction reached using Relation.TransGen.head_induction_on generalizing front back with
  | single edge => exact sorted _ _ _ split _ edge
  | head edge _ ih =>
    obtain ⟨before, after, rfl⟩ := append_of_mem (sorted _ _ _ split _ edge)
    rw [append_assoc, cons_append] at split
    exact mem_append_left _ (ih split)

section Search

variable {fuel : Nat} {stack done done' : List α} {node : α}

lemma search_cases (found : search next (fuel + 1) stack done node = some done') :
    node ∉ stack ∧ ((node ∈ done ∧ done' = done) ∨ (node ∉ done ∧ ∃ below,
        (next node).foldlM (search next fuel (node :: stack)) done = some below ∧
          done' = below ++ [node])) := by
  rw [search] at found
  split at found
  · nomatch found
  · rename_i fresh
    split at found
    · rename_i met
      exact ⟨fresh, Or.inl ⟨met, (Option.some.inj found).symm⟩⟩
    · rename_i unmet
      obtain ⟨below, visited, rfl⟩ := Option.map_eq_some_iff.mp found
      exact ⟨fresh, Or.inr ⟨unmet, below, visited, rfl⟩⟩

omit [DecidableEq α] in
/-- A relation between the finished nodes before and after that is reflexive and transitive
holds for a list of nodes when it holds for each of them. -/
theorem foldlM_related (related : List α → List α → Prop) (rfl' : ∀ nodes, related nodes nodes)
    (trans' : ∀ a b c, related a b → related b c → related a c)
    {visit : List α → α → Option (List α)} {done done' : List α}
    (each : ∀ node ∈ nodes, ∀ before after, visit before node = some after → related before after)
    (found : nodes.foldlM visit done = some done') : related done done' := by
  induction nodes generalizing done with
  | nil =>
    rw [foldlM_nil] at found
    cases found
    exact rfl' _
  | cons node nodes ih =>
    rw [foldlM_cons] at found
    obtain ⟨middle, first, rest⟩ := Option.bind_eq_some_iff.mp found
    refine trans' _ _ _ (each node (by simp) _ _ first) (ih ?_ rest)
    exact fun other mem => each other (by simp [mem])

lemma search_extends (found : search next fuel stack done node = some done') :
    done <+: done' := by
  induction fuel generalizing stack done done' node with
  | zero => nomatch found
  | succ fuel ih =>
    obtain ⟨_, ⟨_, rfl⟩ | ⟨_, below, visited, rfl⟩⟩ := search_cases found
    · exact prefix_rfl
    · have grown : done <+: below := foldlM_related (· <+: ·) (fun _ => prefix_rfl)
        (fun _ _ _ => List.IsPrefix.trans) (fun _ _ _ _ step => ih step) visited
      exact grown.trans (prefix_append _ _)

lemma mem_of_search (found : search next fuel stack done node = some done') : node ∈ done' := by
  cases fuel with
  | zero => nomatch found
  | succ fuel =>
    obtain ⟨_, ⟨mem, rfl⟩ | ⟨_, below, _, rfl⟩⟩ := search_cases found
    · exact mem
    · simp

lemma searchAll_cons {first : α}
    (found : (first :: nodes).foldlM (search next fuel stack) done = some done') :
    ∃ middle, search next fuel stack done first = some middle ∧
      nodes.foldlM (search next fuel stack) middle = some done' ∧
      done <+: middle ∧ middle <+: done' := by
  rw [foldlM_cons] at found
  obtain ⟨middle, step, rest⟩ := Option.bind_eq_some_iff.mp found
  refine ⟨middle, step, rest, search_extends step, ?_⟩
  exact foldlM_related (· <+: ·) (fun _ => prefix_rfl) (fun _ _ _ => List.IsPrefix.trans)
    (fun _ _ _ _ step => search_extends step) rest

lemma mem_of_searchAll (found : nodes.foldlM (search next fuel stack) done = some done') :
    ∀ node ∈ nodes, node ∈ done' := by
  induction nodes generalizing done with
  | nil => simp
  | cons first nodes ih =>
    obtain ⟨middle, step, rest, _, grown⟩ := searchAll_cons found
    intro node mem
    rcases mem_cons.mp mem with rfl | mem
    · exact grown.subset (mem_of_search step)
    · exact ih rest node mem

/-- What entering and leaving a node keep of the open and the finished nodes, a search keeps. The
search only meets nodes that have what passes from a node to its successors. -/
theorem search_keeps {holds : α → Prop} {keeps : List α → List α → Prop}
    (closed : ∀ node, holds node → ∀ successor ∈ next node, holds successor)
    (enter : ∀ {stack done node}, node ∉ done → keeps stack done → keeps (node :: stack) done)
    (leave : ∀ {stack below node}, holds node → node ∉ stack →
      (∀ successor ∈ next node, successor ∈ below) → keeps (node :: stack) below →
      keeps stack (below ++ [node]))
    (found : search next fuel stack done node = some done') (start : holds node)
    (kept : keeps stack done) : keeps stack done' := by
  induction fuel generalizing stack done done' node with
  | zero => nomatch found
  | succ fuel ih =>
    obtain ⟨fresh, ⟨_, rfl⟩ | ⟨unmet, below, visited, rfl⟩⟩ := search_cases found
    · exact kept
    · have inside : keeps (node :: stack) below :=
        foldlM_related (fun before after => keeps (node :: stack) before → keeps _ after)
          (fun _ => id) (fun _ _ _ first second => second ∘ first)
          (fun successor mem _ _ step => ih step (closed node start successor mem)) visited
          (enter unmet kept)
      exact leave start fresh (mem_of_searchAll visited) inside

/-- A search lists no node twice and each behind its successors, and what passes from a node to
its successors holds for all of them. -/
theorem search_lists {holds : α → Prop} {listed : List α}
    (closed : ∀ node, holds node → ∀ successor ∈ next node, holds successor)
    (found : search next fuel [] [] node = some listed) (start : holds node) :
    listed.Nodup ∧ Sorted next listed ∧ ∀ other ∈ listed, holds other := by
  have kept := @search_keeps _ _ next fuel [] [] listed node holds
    (fun stack done => (∀ open' ∈ stack, open' ∉ done) ∧ done.Nodup ∧
      Sorted next done ∧ ∀ other ∈ done, holds other) closed ?_ ?_ found start
    ⟨nofun, nodup_nil, Sorted.nil, nofun⟩
  · exact kept.2
  · rintro stack done node unmet ⟨apart, rest⟩
    exact ⟨forall_mem_cons.mpr ⟨unmet, apart⟩, rest⟩
  · rintro stack below node start fresh behind ⟨apart, distinct, sorted, all⟩
    obtain ⟨outside, apart⟩ := forall_mem_cons.mp apart
    refine ⟨fun open' onStack mem => ?_, nodup_append.mpr ⟨distinct, by simp, ?_⟩,
      sorted.concat behind, forall_mem_append.mpr ⟨all, by simpa using start⟩⟩
    · rcases mem_append.mp mem with mem | mem
      · exact apart open' onStack mem
      · exact fresh (mem_singleton.mp mem ▸ onStack)
    · rintro other mem last isLast rfl
      exact outside (mem_singleton.mp isLast ▸ mem)

/-- The search only asks for the successors of the nodes it finishes. -/
theorem search_congr {next' : α → List α} (found : search next fuel stack done node = some done')
    (agree : ∀ other ∈ done', next' other = next other) :
    search next' fuel stack done node = some done' := by
  induction fuel generalizing stack done done' node with
  | zero => nomatch found
  | succ fuel ih =>
    rw [search]
    obtain ⟨fresh, ⟨met, rfl⟩ | ⟨unmet, below, visited, rfl⟩⟩ := search_cases found
    · rw [if_neg fresh, if_pos met]
    · have all : ∀ (nodes done : List α),
          nodes.foldlM (search next fuel (node :: stack)) done = some below →
          nodes.foldlM (search next' fuel (node :: stack)) done = some below := by
        intro nodes
        induction nodes with
        | nil => exact fun _ found => found
        | cons first nodes listHypothesis =>
          intro done found
          obtain ⟨middle, step, rest, _, grown⟩ := searchAll_cons found
          rw [foldlM_cons, ih step fun other mem =>
            agree other (mem_append_left _ (grown.subset mem))]
          exact listHypothesis middle rest
      rw [if_neg fresh, if_neg unmet, agree node (by simp), all _ _ visited]
      rfl

def Met (visited stack done : List α) : Prop := ∀ node, node ∈ visited ↔ node ∈ stack ∨ node ∈ done

lemma postOrder_searchAll {fuel' : Nat} {visited : List α}
    (each : ∀ node before after visited, search next fuel stack before node = some after →
      Met visited stack before → after.length < fuel' + before.length →
      ∃ visited', postOrder next fuel' (visited, before) node = (visited', after) ∧
        Met visited' stack after)
    (found : nodes.foldlM (search next fuel stack) done = some done')
    (met : Met visited stack done) (enough : done'.length < fuel' + done.length) :
    ∃ visited', nodes.foldl (postOrder next fuel') (visited, done) = (visited', done') ∧
      Met visited' stack done' := by
  induction nodes generalizing done visited with
  | nil =>
    cases found
    exact ⟨visited, rfl, met⟩
  | cons first nodes ih =>
    obtain ⟨middle, step, rest, before, after⟩ := searchAll_cons found
    have shorter := before.length_le
    have bounded := after.length_le
    obtain ⟨visitedFirst, listed, metFirst⟩ := each _ _ _ _ step met (by omega)
    rw [foldl_cons, listed]
    exact ih rest metFirst (by omega)

lemma postOrder_eq (fuel' : Nat) (visited : List α)
    (found : search next fuel stack done node = some done')
    (met : Met visited stack done) (enough : done'.length < fuel' + done.length) :
    ∃ visited', postOrder next fuel' (visited, done) node = (visited', done') ∧
      Met visited' stack done' := by
  induction fuel generalizing stack done done' node visited fuel' with
  | zero => nomatch found
  | succ fuel ih =>
    have longer := (search_extends found).length_le
    obtain ⟨fuel', rfl⟩ : ∃ smaller, fuel' = smaller + 1 := Nat.exists_eq_succ_of_ne_zero (by omega)
    rw [postOrder]
    obtain ⟨fresh, ⟨mem, rfl⟩ | ⟨unmet, below, visitedBelow, rfl⟩⟩ := search_cases found
    · rw [if_pos ((met node).mpr (Or.inr mem))]
      exact ⟨visited, rfl, met⟩
    · rw [if_neg (by rw [met]; tauto)]
      have entered : Met (node :: visited) (node :: stack) done := by
        intro other
        simp [met other, or_assoc]
      have enoughBelow : below.length < fuel' + done.length := by
        rw [length_append, length_singleton] at enough
        omega
      obtain ⟨visited', listed, met'⟩ := postOrder_searchAll
        (fun _ _ _ visited step => ih fuel' visited step)
        visitedBelow entered enoughBelow
      rw [listed]
      refine ⟨visited', rfl, fun other => ?_⟩
      rw [met' other, mem_cons, mem_append, mem_singleton]
      tauto

end Search

end Rotor.Lib.DepthFirst
