import SourceChunking.Proofs.Arena

/-! # Going down with a stack and up along parents

A subtree can be gone through with a stack: the node on top is visited and its children take its
place. What has been visited and the subtrees of all nodes on the stack, put together, never
change, so the visits make up the walk. The way up ends at the root after finitely many steps,
each to a smaller index. In the listing of a tree both views are the same: the subtree of a node
is a stretch of indices, and it holds the nodes that have the node above them.
-/
namespace SourceChunking

/-- The nodes visited so far, and those still to be visited with their subtrees. -/
structure Traversal where
  visited : List Nat
  stack : List Nat
deriving Repr, DecidableEq

namespace Tree
variable {t : Tree}

/-- Visits the node on top of the stack and puts its children in its place, the first one on top. -/
def visit (t : Tree) (s : Traversal) : Traversal :=
  match s.stack with
  | [] => s
  | i :: rest => ⟨s.visited ++ [i], t.children i ++ rest⟩

/-- What is visited once the stack is empty. -/
def outcome (t : Tree) (s : Traversal) : List Nat := s.visited ++ s.stack.flatMap t.walk

theorem Rooted.stack_lt_visit (h : t.Rooted) {s : Traversal} (hs : ∀ i ∈ s.stack, i < t.size) :
    ∀ i ∈ (t.visit s).stack, i < t.size := by
  unfold visit
  split
  · exact hs
  · next i rest he =>
    intro j hj
    rcases List.mem_append.mp hj with hchild | hrest
    · exact (h.lt_of_mem_children hchild).2
    · exact hs j (by simp [he, hrest])

/-- A visit changes nothing about the outcome. -/
theorem Rooted.outcome_visit (h : t.Rooted) {s : Traversal} (hs : ∀ i ∈ s.stack, i < t.size) :
    t.outcome (t.visit s) = t.outcome s := by
  unfold visit
  split
  · rfl
  · next i rest he =>
    have hwalk := h.walk_eq (hs i (by simp [he]))
    simp only [outcome, he, List.flatMap_append, List.flatMap_cons, hwalk, List.append_assoc,
      List.cons_append, List.nil_append]

theorem Rooted.length_walks_visit (h : t.Rooted) {s : Traversal} (hs : ∀ i ∈ s.stack, i < t.size) :
    ((t.visit s).stack.flatMap t.walk).length ≤ (s.stack.flatMap t.walk).length - 1 := by
  unfold visit
  split
  · next he => simp [he]
  · next i rest he =>
    rw [he, List.flatMap_cons, h.walk_eq (hs i (by simp [he])), List.flatMap_append]
    simp only [List.length_append, List.length_cons]
    omega

/-- With one visit for each node in the subtrees on the stack, the stack is empty and the outcome is
visited. -/
theorem Rooted.iterate_visit (h : t.Rooted) {n : Nat} {s : Traversal}
    (hs : ∀ i ∈ s.stack, i < t.size) (hn : (s.stack.flatMap t.walk).length ≤ n) :
    t.visit^[n] s = ⟨t.outcome s, []⟩ := by
  obtain ⟨⟨hlt, houtcome⟩, hwalks⟩ := iterate_of_measure t.visit
    (fun s' => (∀ i ∈ s'.stack, i < t.size) ∧ t.outcome s' = t.outcome s)
    (fun s' => (s'.stack.flatMap t.walk).length)
    (fun s' hs' => ⟨h.stack_lt_visit hs'.1, (h.outcome_visit hs'.1).trans hs'.2⟩)
    (fun s' hs' => h.length_walks_visit hs'.1) ⟨hs, rfl⟩ hn
  generalize t.visit^[n] s = last at hlt houtcome hwalks ⊢
  obtain ⟨visited, stack⟩ := last
  obtain rfl : stack = [] := h.eq_nil_of_walks hlt hwalks
  rw [← houtcome]
  simp [outcome]

/-! ## The way up -/

theorem Rooted.isChain_ancestors (h : t.Rooted) (j : Nat) :
    (j :: t.ancestors j).IsChain fun a b => t.parent? a = some b := by
  induction j using Nat.strongRecOn with
  | _ j ih =>
    cases hp : t.parent? j with
    | none =>
      rw [ancestors_of_root hp]
      exact List.IsChain.singleton j
    | some p =>
      rw [h.ancestors_eq hp]
      exact List.isChain_cons_cons.mpr ⟨hp, ih p (h.lt_of_parent hp).1⟩

theorem Rooted.pairwise_ancestors (h : t.Rooted) (j : Nat) :
    (j :: t.ancestors j).Pairwise (· > ·) := by
  apply List.isChain_iff_pairwise.mp
  apply (h.isChain_ancestors j).imp
  intro a b hab
  exact (h.lt_of_parent hab).1

theorem Rooted.getLast?_ancestors (h : t.Rooted) {j : Nat} (hj : j < t.size) :
    (j :: t.ancestors j).getLast? = some 0 := by
  induction j using Nat.strongRecOn with
  | _ j ih =>
    rcases Nat.eq_zero_or_pos j with rfl | hpos
    · rw [ancestors_of_root h.root]
      rfl
    · obtain ⟨p, hlt, hp⟩ := h.parent_lt j hj hpos
      rw [h.ancestors_eq hp, List.getLast?_cons_cons]
      exact ih p hlt (by omega)

theorem Rooted.mem_walk_iff (h : t.Rooted) {i : Nat} (hi : i < t.size) (j : Nat) :
    j ∈ t.walk i ↔ j = i ∨ i ∈ t.ancestors j := by
  by_cases hj : j < t.size
  · rw [h.mem_walk hi hj, List.mem_cons, eq_comm]
  · have hno : j ∉ t.walk i := fun hm => hj (h.lt_size_of_mem_walk hi hm)
    have hne : j ≠ i := by omega
    simp [hno, hne, ancestors_of_root (parent?_of_size_le (t := t) (i := j) (by omega))]

/-! ## Rows in pre-order -/

theorem map_parent?_range (t : Tree) :
    (List.range t.size).map t.parent? = t.nodes.toList.map Node.parent := by
  apply List.ext_getElem
  · simp [size]
  · intro i hi hi'
    have hlt : i < t.nodes.size := by simpa using hi'
    simp [parent?, node, hlt]

theorem map_parent_ofRows (source : List UInt8) (rows : List Row) :
    (ofRows source rows).nodes.toList.map Node.parent = rows.map Row.parent := by
  cases rows with
  | nil => rfl
  | cons root rest => simp [ofRows, Row.toNode, Function.comp_def]

theorem holds_of_rows {source : List UInt8} {rows : List Row} {below : Forest}
    (hrows : rows.map Row.parent = (Forest.branch below .nil).parents none 0) {t : Tree}
    (ht : ofRows source rows = t) :
    t.size = rows.length ∧ t.size = below.size + 1 ∧ t.Holds none 0 (.branch below .nil) := by
  have hparents : (List.range t.size).map t.parent? =
      (Forest.branch below .nil).parents none 0 := by
    rw [map_parent?_range, ← ht, map_parent_ofRows, hrows]
  have hlength := congrArg List.length hparents
  rw [List.length_map, List.length_range, Forest.length_parents] at hlength
  have hrowsLength := congrArg List.length hrows
  rw [List.length_map, Forest.length_parents, ← hlength] at hrowsLength
  refine ⟨hrowsLength.symm, hlength, ?_⟩
  apply holds_of_parents
  rw [← hlength, ← List.range_eq_range']
  exact hparents

end Tree

/-- In an array of nodes that lists a tree in pre-order, the walk from a node goes through
consecutive indices, as many as the tree has nodes there, and it is what a traversal with a stack
visits. The nodes on the walk are the first one and those that have it above them. The way up from
a node goes from parent to parent through smaller and smaller indices and ends at the root, which
has none. A copy of the tree that appends each node when a cursor reaches it, and its index to the
children of its parent, makes this array with the children of each node. -/
theorem walk_and_ancestors_of_listing (source : List UInt8) {rows : List Row} {below : Forest}
    (hrows : rows.map Row.parent = (Forest.branch below .nil).parents none 0) {t : Tree}
    (ht : Tree.ofRows source rows = t) :
    (∀ i < rows.length, ∃ k, (Forest.branch below .nil).sizes[i]? = some k ∧
      t.walk i = List.range' i k ∧ t.visit^[k] ⟨[], [i]⟩ = ⟨t.walk i, []⟩) ∧
    (∀ i < rows.length, ∀ j, j ∈ t.walk i ↔ j = i ∨ i ∈ t.ancestors j) ∧
    t.parent? 0 = none ∧
    (∀ j < rows.length, (j :: t.ancestors j).IsChain (fun a b => t.parent? a = some b) ∧
      (j :: t.ancestors j).Pairwise (· > ·) ∧ (j :: t.ancestors j).getLast? = some 0) ∧
    (Copy.step^[2 * rows.length] (Copy.start below)).phase = .done ∧
    (Copy.step^[2 * rows.length] (Copy.start below)).arena =
      (List.range rows.length).map fun i => ⟨t.parent? i, t.children i⟩ := by
  obtain ⟨hlength, hsize, hholds⟩ := Tree.holds_of_rows hrows ht
  have hpre := Tree.preOrdered_of_holds hholds hsize
  rw [← hlength]
  refine ⟨?_, fun i hi => hpre.mem_walk_iff hi, hpre.root, ?_, ?_⟩
  · intro i hi
    have hplace : i < (Forest.branch below .nil).sizes.length := by
      rw [Forest.length_sizes]
      simpa [Forest.size, hsize] using hi
    obtain ⟨k, hk⟩ : ∃ k, (Forest.branch below .nil).sizes[i]? = some k :=
      ⟨_, List.getElem?_eq_getElem hplace⟩
    have hwalk := Tree.length_walk_of_holds hholds hsize hi hk
    refine ⟨k, hk, ?_, ?_⟩
    · rw [← hwalk]
      exact hpre.walk_eq_range' hi
    · have hrun := hpre.iterate_visit (n := k) (s := ⟨[], [i]⟩) (by simpa using hi)
        (by simp [hwalk])
      simpa [Tree.outcome] using hrun
  · intro j hj
    exact ⟨hpre.isChain_ancestors j, hpre.pairwise_ancestors j, hpre.getLast?_ancestors hj⟩
  · obtain ⟨hdone, harena⟩ := Copy.iterate_step (Copy.remaining_start below).le
    rw [Copy.completed_start, ← hrows, ← Tree.map_parent_ofRows source, ht,
      ← Tree.map_parent?_range, ← hpre.links_eq_pushAll] at harena
    rw [hsize]
    exact ⟨hdone, by rw [harena, ← hsize]; rfl⟩

/-- A node with a child, a leaf, and a node with a child and a grandchild. -/
def blockForest : Forest :=
  .branch (.branch .nil .nil) (.branch .nil (.branch (.branch (.branch .nil .nil) .nil) .nil))

theorem blockTree_walk_and_ancestors :
    blockRows.map Row.parent = (Forest.branch blockForest .nil).parents none 0 ∧
    (Forest.branch blockForest .nil).sizes = [7, 2, 1, 1, 3, 2, 1] ∧
    blockTree.walk 4 = [4, 5, 6] ∧ blockTree.visit^[3] ⟨[], [4]⟩ = ⟨[4, 5, 6], []⟩ ∧
    4 ∈ blockTree.ancestors 6 ∧ 1 ∉ blockTree.ancestors 6 ∧
    (6 :: blockTree.ancestors 6).Pairwise (· > ·) ∧
    (6 :: blockTree.ancestors 6).getLast? = some 0 ∧
    (Copy.step^[14] (Copy.start blockForest)).arena.map Link.children =
      [[1, 3, 4], [2], [], [], [5], [6], []] := by
  have hrows : blockRows.map Row.parent = (Forest.branch blockForest .nil).parents none 0 := by
    decide
  obtain ⟨hdown, hmem, _, hup, _, harena⟩ :=
    walk_and_ancestors_of_listing (Text.encode blockSource) hrows
      (show Tree.ofRows _ blockRows = blockTree from rfl)
  obtain ⟨k, hk, hwalk, hvisit⟩ := hdown 4 (by decide)
  obtain rfl : 3 = k := Option.some.inj hk
  obtain ⟨_, hdecreasing, hlast⟩ := hup 6 (by decide)
  rw [hwalk] at hvisit
  refine ⟨hrows, by decide, hwalk, hvisit, ?_, ?_, hdecreasing, hlast, ?_⟩
  · exact ((hmem 4 (by decide) 6).mp (by rw [hwalk]; decide)).resolve_left (by decide)
  · intro hin
    obtain ⟨k', hk', hwalk', _⟩ := hdown 1 (by decide)
    obtain rfl : 2 = k' := Option.some.inj hk'
    have hm := (hmem 1 (by decide) 6).mpr (Or.inr hin)
    rw [hwalk'] at hm
    exact absurd hm (by decide)
  · have hchildren := congrArg (List.map Link.children) harena
    exact hchildren.trans (by decide)

end SourceChunking
