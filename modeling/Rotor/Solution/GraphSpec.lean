import Rotor.Lib.Action
import Rotor.PathSpec
import Rotor.Solution.Graph

/-!
What the graph of a solution is.

`buildSolutionGraph` returns on every workspace. Where it returns a graph, there is an order of
the configs that can be reached in which each stands behind its references, and the projects of
the graph are the configs of this order that are not coordinators.
-/

namespace Rotor.Solution

open List Lib.DepthFirst

variable {O E : Type} {space : Workspace O E}

def references (space : Workspace O E) (path : Bytes) : List Bytes :=
  match readProjectReferencePaths space path with
  | .error _ => []
  | .ok (references, _) => references

def isCoordinator (space : Workspace O E) (path : Bytes) : Bool :=
  match readProjectReferencePaths space path with
  | .error _ => false
  | .ok (_, coordinator) => coordinator

lemma canonical_referencePath {config : Bytes} (absolute : Path.isAbs config)
    (path : Bytes) : Path.Canonical (referencePath config path) := by
  have first : Path.isAbs
      (if Path.isAbs path then path else Path.join [Path.dir config, path]) := by
    split
    · assumption
    · exact (Path.canonical_join (Path.canonical_dir absolute).absolute _).absolute
  rw [referencePath]
  apply Path.canonical_clean
  generalize (if Path.isAbs path then path else Path.join [Path.dir config, path]) = from' at *
  split
  · exact first
  · exact (Path.canonical_join first _).absolute

lemma canonical_of_mem_references {path ref : Bytes} (canonical : Path.Canonical path)
    (mem : ref ∈ references space path) : Path.Canonical ref := by
  rw [references] at mem
  split at mem
  · nomatch mem
  · rename_i paths coord read
    rw [readProjectReferencePaths] at read
    split at read
    · nomatch read
    · nomatch read
    · cases read
      obtain ⟨entry, _, found⟩ := mem_filterMap.mp mem
      obtain ⟨text, _, rfl⟩ := Option.map_eq_some_iff.mp found
      exact canonical_referencePath canonical.absolute text

section Visit

variable {fuel : Nat} {stack : List Bytes} {visits visits' : Visits O} {path : Bytes}
  {options : O} {inherit : Bool}

def visitReference (space : Workspace O E) (fuel : Nat) (stack : List Bytes)
    (options : O) (inherit : Bool) (visits : Visits O) (ref : Bytes) :
    ExceptT (SolutionError E) Option (Visits O) :=
  match space.optionsFor options ref inherit with
  | .error error => throw (.readOptions ref error)
  | .ok referenceOptions => visit space fuel stack visits ref referenceOptions inherit

def projectAt (space : Workspace O E) (path : Bytes) (options : O)
    (coordinator : Bool) : SolutionProject O :=
  { configPath := path, references := references space path, options, coordinator }

lemma visit_cases (canonical : Path.Canonical path)
    (returned : visit space (fuel + 1) stack visits path options inherit = some (.ok visits')) :
    path ∉ stack ∧ ((path ∈ visits.visited ∧ visits' = visits) ∨
      (path ∉ visits.visited ∧ ∃ coord inherit' below,
        readProjectReferencePaths space path = .ok (references space path, coord) ∧
        (references space path).foldlM (visitReference space fuel (path :: stack) options inherit')
            ⟨visits.projects.insert path (projectAt space path options coord),
              visits.visited⟩ = some (.ok below) ∧
        visits' = {
          projects := if coord then below.projects
            else below.projects.insert path (projectAt space path options coord)
          visited := below.visited ++ [path] })) := by
  rw [visit, canonical.abs_eq, canonical.cleaned] at returned
  dsimp only at returned
  split at returned
  · nomatch returned
  · rename_i fresh
    refine ⟨fresh, ?_⟩
    split at returned
    · rename_i met
      exact Or.inl ⟨met, (Except.ok.inj (Option.some.inj returned)).symm⟩
    · rename_i unmet
      refine Or.inr ⟨unmet, ?_⟩
      cases read : readProjectReferencePaths space path with
      | error error =>
        rw [read] at returned
        nomatch returned
      | ok entry =>
        obtain ⟨paths, coord⟩ := entry
        have same : references space path = paths := by rw [references, read]
        rw [read] at returned
        obtain ⟨below, visited, rest⟩ := Lib.Action.returned_bind_eq_ok.mp returned
        simp only [projectAt, same]
        exact ⟨coord, _, below, rfl, visited, (Except.ok.inj (Option.some.inj rest)).symm⟩

lemma search_of_visit (canonical : Path.Canonical path)
    (returned : visit space fuel stack visits path options inherit = some (.ok visits')) :
    search (references space) fuel stack visits.visited path = some visits'.visited := by
  induction fuel generalizing stack visits visits' path options inherit with
  | zero => cases returned
  | succ fuel ih =>
    rw [search]
    obtain ⟨fresh, ⟨met, rfl⟩ | ⟨unmet, coord, inherit', below, read, visited, rfl⟩⟩ :=
      visit_cases canonical returned
    · rw [if_neg fresh, if_pos met]
    · rw [if_neg fresh, if_neg unmet]
      have all : ∀ (paths : List Bytes) (before : Visits O), (∀ ref ∈ paths, Path.Canonical ref) →
          paths.foldlM (visitReference space fuel (path :: stack) options inherit') before =
            some (.ok below) →
          paths.foldlM (search (references space) fuel (path :: stack)) before.visited =
            some below.visited := by
        intro paths
        induction paths with
        | nil =>
          intro before _ done
          cases done
          rfl
        | cons ref paths listHypothesis =>
          intro before canonicals done
          rw [foldlM_cons] at done ⊢
          obtain ⟨middle, first, rest⟩ := Lib.Action.returned_bind_eq_ok.mp done
          have searched : search (references space) fuel (path :: stack) before.visited
              ref = some middle.visited := by
            rw [visitReference] at first
            split at first
            · cases first
            · exact ih (canonicals ref (by simp)) first
          rw [searched]
          exact listHypothesis middle (fun other mem => canonicals other (by simp [mem])) rest
      have below' := all _ _ (fun _ => canonical_of_mem_references canonical) visited
      dsimp only at below'
      rw [below']
      rfl

lemma visitReferences_induction {holds : Visits O → Prop} {paths : List Bytes}
    (each : ∀ ref ∈ paths, ∀ before after referenceOptions inherit,
      visit space fuel stack before ref referenceOptions inherit = some (.ok after) →
      holds before → holds after)
    (returned : paths.foldlM (visitReference space fuel stack options inherit) visits =
      some (.ok visits')) (first : holds visits) : holds visits' := by
  induction paths generalizing visits with
  | nil =>
    cases returned
    exact first
  | cons ref paths ih =>
    rw [foldlM_cons] at returned
    obtain ⟨middle, step, rest⟩ := Lib.Action.returned_bind_eq_ok.mp returned
    refine ih (fun other mem => each other (by simp [mem])) rest ?_
    rw [visitReference] at step
    split at step
    · nomatch step
    · exact each ref (by simp) _ _ _ _ step first

/-- The recorded projects are what their configs say, and every path that has been entered is
recorded. -/
structure Recorded (space : Workspace O E) (stack : List Bytes) (visits : Visits O) : Prop where
  read : ∀ path project, visits.projects.lookup path = some project → project.configPath = path ∧
      readProjectReferencePaths space path = .ok (project.references, project.coordinator)
  entered : ∀ path, path ∈ stack ∨ path ∈ visits.visited → path ∈ visits.projects

lemma Recorded.insert {projects : AList fun _ : Bytes => SolutionProject O} {visited : List Bytes}
    {coord : Bool} (recorded : Recorded space stack ⟨projects, visited⟩)
    (read : readProjectReferencePaths space path = .ok (references space path, coord)) :
    Recorded space (path :: stack)
      ⟨projects.insert path (projectAt space path options coord), visited⟩ := by
  constructor
  · intro other proj found
    by_cases same : other = path
    · subst same
      rw [AList.lookup_insert] at found
      cases found
      exact ⟨rfl, read⟩
    · rw [AList.lookup_insert_ne same] at found
      exact recorded.read other proj found
  · intro other mem
    have kept := recorded.entered other
    simp only [AList.mem_insert, mem_cons] at mem ⊢
    tauto

lemma Recorded.leave {coord : Bool} {below : Visits O}
    (recorded : Recorded space (path :: stack) below)
    (read : readProjectReferencePaths space path = .ok (references space path, coord)) :
    Recorded space stack
      { projects := if coord then below.projects
          else below.projects.insert path (projectAt space path options coord)
        visited := below.visited ++ [path] } := by
  have again : Recorded space (path :: path :: stack)
      ⟨below.projects.insert path (projectAt space path options coord),
        below.visited⟩ := recorded.insert read
  cases coord with
  | true =>
    refine ⟨recorded.read, fun other mem => recorded.entered other ?_⟩
    simp only [mem_append, mem_cons] at mem ⊢
    tauto
  | false =>
    refine ⟨again.read, fun other mem => again.entered other ?_⟩
    simp only [mem_append, mem_cons] at mem ⊢
    tauto

lemma Recorded.visit (canonical : Path.Canonical path)
    (returned : visit space fuel stack visits path options inherit = some (.ok visits'))
    (recorded : Recorded space stack visits) : Recorded space stack visits' := by
  induction fuel generalizing stack visits visits' path options inherit with
  | zero => nomatch returned
  | succ fuel ih =>
    obtain ⟨_, ⟨_, rfl⟩ | ⟨_, coord, inherit', below, read, visited, rfl⟩⟩ :=
      visit_cases canonical returned
    · exact recorded
    · have kept : Recorded space (path :: stack) below := by
        refine visitReferences_induction ?_ visited (recorded.insert read)
        intro ref mem before after _ _ step held
        exact ih (canonical_of_mem_references canonical mem) step held
      exact kept.leave read

/-- A visit returns: no path is on the stack twice, and every path there is a file. -/
theorem visit_returns (canonical : Path.Canonical path) (distinct : stack.Nodup)
    (files : ∀ other ∈ stack, other ∈ space.files.keys)
    (enough : space.files.keys.length < fuel + stack.length) :
    visit space fuel stack visits path options inherit ≠ none := by
  induction fuel generalizing stack visits path options inherit with
  | zero =>
    have shorter := (subperm_of_subset distinct files).length_le
    omega
  | succ fuel ih =>
    rw [Solution.visit, canonical.abs_eq, canonical.cleaned]
    dsimp only
    split
    · exact fun stuck => by cases stuck
    · rename_i fresh
      split
      · exact fun stuck => by cases stuck
      · cases read : readProjectReferencePaths space path with
        | error error => exact fun stuck => by cases stuck
        | ok entry =>
          have file : path ∈ space.files.keys := by
            rw [readProjectReferencePaths] at read
            split at read
            · cases read
            · cases read
            · rename_i found
              exact AList.mem_keys.mp (AList.lookup_isSome.mp (by rw [found]; rfl))
          have paths : references space path = entry.1 := by rw [references, read]
          have all : ∀ inherit' (paths : List Bytes) (before : Visits O),
              (∀ ref ∈ paths, Path.Canonical ref) →
              paths.foldlM (visitReference space fuel (path :: stack) options inherit')
                before ≠ none := by
            intro inherit' paths
            induction paths with
            | nil => exact fun _ _ stuck => by cases stuck
            | cons ref paths listHypothesis =>
              intro before canonicals
              rw [foldlM_cons]
              refine Lib.Action.returned_bind ?_ fun middle _ =>
                listHypothesis middle fun other mem => canonicals other (by simp [mem])
              rw [visitReference]
              split
              · exact fun stuck => by cases stuck
              · refine ih (canonicals ref (by simp)) (nodup_cons.mpr ⟨fresh, distinct⟩) ?_ ?_
                · simpa [file] using files
                · rw [length_cons]
                  omega
          refine Lib.Action.returned_bind (all _ entry.1 _ ?_) fun _ _ stuck => by cases stuck
          intro ref mem
          exact canonical_of_mem_references canonical (by rw [paths]; exact mem)

end Visit

/-- An order of all configs of a solution, coordinators among them, and the graph it gives. -/
structure Ordered (space : Workspace O E) (graph : SolutionGraph O)
    (order : List Bytes) : Prop where
  canonical : ∀ path ∈ order, Path.Canonical path
  distinct : order.Nodup
  sorted : Sorted (references space) order
  paths : graph.projects.map (·.configPath) = order.filter (!isCoordinator space ·)
  read : ∀ project ∈ graph.projects, project.references = references space project.configPath

lemma Recorded.projects {visits : Visits O} {order : List Bytes}
    (recorded : Recorded space [] visits) (mem : ∀ path ∈ order, path ∈ visits.projects) :
    ((order.filterMap visits.projects.lookup).filter (!·.coordinator)).map (·.configPath) =
      order.filter (!isCoordinator space ·) := by
  induction order with
  | nil => rfl
  | cons path order ih =>
    obtain ⟨proj, found⟩ := Option.isSome_iff_exists.mp
      (AList.lookup_isSome.mpr (mem path (by simp)))
    obtain ⟨same, read⟩ := recorded.read path proj found
    have coord : isCoordinator space path = proj.coordinator := by
      rw [isCoordinator, read]
    have rest := ih fun other inOrder => mem other (by simp [inOrder])
    rw [filterMap_cons, found, filter_cons, filter_cons, coord]
    split
    · rw [map_cons, rest, same]
    · exact rest

lemma buildSolutionGraph_ordered {config : Bytes} {entry : O} {graph : SolutionGraph O}
    (returned : buildSolutionGraph space config entry = some (.ok graph)) :
    ∃ order, Ordered space graph order := by
  have canonical : Path.Canonical (Path.abs space.workingDirectory config) :=
    Path.canonical_abs space.rooted config
  obtain ⟨visits, visited, rest⟩ := Lib.Action.returned_bind_eq_ok.mp returned
  cases rest
  have searched := search_of_visit canonical visited
  have recorded : Recorded space [] visits := Recorded.visit canonical visited ⟨by simp, by simp⟩
  obtain ⟨distinct, sorted, all⟩ := search_lists
    (fun path canonical _ => canonical_of_mem_references canonical) searched canonical
  have mem : ∀ path ∈ visits.visited, path ∈ visits.projects := fun path inOrder =>
    recorded.entered path (Or.inr inOrder)
  -- The references the second search follows are the recorded ones.
  have same : ∀ path ∈ visits.projects,
      projectReferences visits.projects path = references space path := by
    intro path recordedPath
    obtain ⟨proj, found⟩ := Option.isSome_iff_exists.mp (AList.lookup_isSome.mpr recordedPath)
    rw [projectReferences, found, references, (recorded.read path proj found).2]
    rfl
  have followed := search_congr searched fun path inOrder => same path (mem path inOrder)
  obtain ⟨_, listed, _⟩ := postOrder_eq (visits.projects.keys.length + 1) [] followed
    (by intro path; simp) (by
      have shorter := (subperm_of_subset distinct fun path inOrder =>
        AList.mem_keys.mp (mem path inOrder)).length_le
      rw [length_nil]
      omega)
  have order : postOrderProjectPaths (Path.abs space.workingDirectory config)
      visits.projects = visits.visited := by
    rw [postOrderProjectPaths, listed]
  rw [order]
  refine ⟨visits.visited, all, distinct, sorted, recorded.projects mem, ?_⟩
  intro proj inGraph
  obtain ⟨path, _, found⟩ := mem_filterMap.mp (mem_filter.mp inGraph).1
  obtain ⟨rfl, read⟩ := recorded.read path proj found
  rw [references, read]

/-- The bound on the depth of the visits is never used up. -/
theorem buildSolutionGraph_returns (space : Workspace O E) (config : Bytes) (entry : O) :
    buildSolutionGraph space config entry ≠ none := by
  refine Lib.Action.returned_bind (visit_returns ?_ nodup_nil (by simp) (by simp))
    fun _ _ stuck => nomatch stuck
  exact Path.canonical_abs space.rooted config

end Rotor.Solution
