import Mathlib.Data.List.Sort
import SourceChunking.Proofs.SymbolsByChunk

/-! # Trees in pre-order

A parser reports the nodes of a tree in pre-order: each one stands directly below the node reported
before it, or below an ancestor of that node. A subtree that has been left is then never entered
again, so every walk goes through increasing indices and the walk from the root through all of them.
The descent that stops at boundary nodes is a part of this walk, and what it finds can be said of each
node by looking up. It can be made with a stack, whose steps never change what is found in the end.
-/
namespace SourceChunking
open Text

/-- A step that keeps an invariant and lowers a measure, taken as often as the measure says, keeps the
invariant and uses the measure up. -/
theorem iterate_of_measure {σ : Type} (step : σ → σ) (inv : σ → Prop) (measure : σ → Nat)
    (hinv : ∀ s, inv s → inv (step s)) (hless : ∀ s, inv s → measure (step s) ≤ measure s - 1)
    {n : Nat} {s : σ} (hs : inv s) (hn : measure s ≤ n) :
    inv (step^[n] s) ∧ measure (step^[n] s) = 0 := by
  induction n generalizing s with
  | zero => exact ⟨hs, Nat.le_zero.mp hn⟩
  | succ n ih =>
    have hstep := hless s hs
    rw [Function.iterate_succ_apply]
    exact ih (hinv s hs) (by omega)

namespace Tree
variable {t : Tree}

/-- Each node but the root is a child of the node before it or of one of that node's ancestors. -/
structure PreOrdered (t : Tree) : Prop extends t.Rooted where
  parent_mem : ∀ i < t.size, 0 < i →
    ∃ p ∈ (i - 1) :: t.ancestors (i - 1), t.parent? i = some p

instance (t : Tree) : Decidable t.PreOrdered :=
  decidable_of_iff (t.Rooted ∧ ∀ i < t.size, 0 < i →
      ∃ p ∈ (i - 1) :: t.ancestors (i - 1), t.parent? i = some p)
    ⟨fun ⟨a, b⟩ => ⟨a, b⟩, fun ⟨a, b⟩ => ⟨a, b⟩⟩

theorem Rooted.inSubtree_trans (h : t.Rooted) {i k j : Nat} (hk : t.InSubtree i k)
    (hj : t.InSubtree k j) : t.InSubtree i j := by
  obtain ⟨front, rest, hc⟩ := List.append_of_mem (show k ∈ j :: t.ancestors j from hj)
  obtain rfl := h.ancestors_of_chain hc
  rw [InSubtree, hc]
  exact List.mem_append_right front hk

/-- A subtree that has been left is not entered again. -/
theorem PreOrdered.not_inSubtree (h : t.PreOrdered) {k m n : Nat} (hkm : k < m)
    (hout : ¬t.InSubtree k m) (hmn : m ≤ n) (hn : n < t.size) : ¬t.InSubtree k n := by
  induction n with
  | zero => omega
  | succ n ih =>
    rcases Nat.lt_or_eq_of_le hmn with hlt | rfl
    · intro hin
      obtain ⟨p, hp, hparent⟩ := h.parent_mem (n + 1) hn (by omega)
      rw [InSubtree, h.ancestors_eq hparent] at hin
      rcases List.mem_cons.mp hin with he | hin
      · omega
      · exact ih (by omega) (by omega) (h.inSubtree_trans hin hp)
    · exact hout

theorem Rooted.eq_nil_of_walks (h : t.Rooted) {stack : List Nat} (hs : ∀ i ∈ stack, i < t.size)
    (hn : (stack.flatMap t.walk).length = 0) : stack = [] := by
  cases stack with
  | nil => rfl
  | cons i rest =>
    rw [List.flatMap_cons, h.walk_eq (hs i List.mem_cons_self)] at hn
    simp at hn

theorem PreOrdered.pairwise_walk (h : t.PreOrdered) {i : Nat} (hi : i < t.size) :
    (t.walk i).Pairwise (· < ·) := by
  induction hn : t.size - i using Nat.strongRecOn generalizing i with
  | _ n ih =>
    rw [h.walk_eq hi]
    refine List.pairwise_cons.mpr ⟨?_, List.pairwise_flatMap.mpr ⟨?_, ?_⟩⟩
    · intro j hj
      obtain ⟨k, hk, hj⟩ := List.mem_flatMap.mp hj
      obtain ⟨hlt, hsize⟩ := h.lt_of_mem_children hk
      have hle := h.le_of_inSubtree (h.inSubtree_of_mem_walk hsize hj)
      omega
    · intro k hk
      obtain ⟨hlt, hsize⟩ := h.lt_of_mem_children hk
      exact ih (t.size - k) (by omega) hsize rfl
    · refine (t.pairwise_children i).imp_of_mem fun {k k'} hk hk' hlt j hj j' hj' => ?_
      obtain ⟨_, hsize⟩ := h.lt_of_mem_children hk
      obtain ⟨_, hsize'⟩ := h.lt_of_mem_children hk'
      have hle := h.le_of_inSubtree (h.inSubtree_of_mem_walk hsize' hj')
      -- the subtree of `k` is left when `k'` is reached
      have hout : ¬t.InSubtree k k' := by
        intro hin
        have he := h.eq_of_inSubtree hk hk' (self_mem_walk (by omega) k)
          (self_mem_walk (by omega) k') hin
        omega
      have hlast : j < k' := by
        by_contra hge
        exact h.not_inSubtree hlt hout (by omega) (h.lt_size_of_mem_walk hsize hj)
          (h.inSubtree_of_mem_walk hsize hj)
      omega

theorem PreOrdered.walk_root (h : t.PreOrdered) (hsize : 0 < t.size) :
    t.walk 0 = List.range t.size := by
  refine (h.pairwise_walk hsize).eq_of_mem_iff List.pairwise_lt_range fun j => ?_
  rw [List.mem_range]
  exact ⟨h.lt_size_of_mem_walk hsize, h.mem_walk_root⟩

/-- The descent finds the nodes of a walk that are outermost, in the order of the walk. -/
theorem Rooted.outermostWithin_eq_filter (h : t.Rooted) (kinds : List String) {i : Nat}
    (hi : i < t.size) (habove : ∀ a ∈ t.ancestors i, t.kind a ∉ kinds) :
    t.outermostWithin kinds t.size i =
      (t.walk i).filter fun b => decide (t.IsOutermost kinds b) := by
  induction hn : t.size - i using Nat.strongRecOn generalizing i with
  | _ n ih =>
    rw [h.outermostWithin_size kinds hi, h.walk_eq hi]
    split_ifs with hkind
    · have hkind : t.kind i ∈ kinds := by simpa using hkind
      have hself : t.IsOutermost kinds i := ⟨hkind, habove⟩
      have hbelow : (((t.children i).flatMap t.walk).filter fun b =>
          decide (t.IsOutermost kinds b)) = [] := by
        refine List.filter_eq_nil_iff.mpr fun j hj => ?_
        obtain ⟨k, hk, hj⟩ := List.mem_flatMap.mp hj
        obtain ⟨front, hc⟩ := h.exists_chain (h.lt_of_mem_children hk).2 hj
        rw [h.ancestors_eq (mem_children.mp hk).2] at hc
        have hup : i ∈ t.ancestors j := by
          cases front with
          | nil => simp [(List.cons.inj hc).2]
          | cons x front => simp [(List.cons.inj hc).2]
        simpa using fun hout : t.IsOutermost kinds j => hout.2 i hup hkind
      rw [List.filter_cons_of_pos (by simp [hself]), hbelow]
    · have hkind : t.kind i ∉ kinds := by simpa using hkind
      rw [List.filter_cons_of_neg (by simpa using fun hout : t.IsOutermost kinds i => hkind hout.1),
        List.filter_flatMap]
      refine List.flatMap_congr fun k hk => ?_
      obtain ⟨hlt, hsize⟩ := h.lt_of_mem_children hk
      refine ih (t.size - k) (by omega) hsize ?_ rfl
      rw [h.ancestors_eq (mem_children.mp hk).2]
      exact List.forall_mem_cons.mpr ⟨hkind, habove⟩

theorem PreOrdered.outermost_eq_filter (h : t.PreOrdered) (hsize : 0 < t.size)
    (kinds : List String) :
    t.outermost kinds = (List.range t.size).filter fun b => decide (t.IsOutermost kinds b) := by
  rw [outermost, root?_of_pos hsize, ← h.walk_root hsize]
  exact h.outermostWithin_eq_filter kinds hsize (by simp [ancestors_of_root h.root])

def boundaries (t : Tree) (kinds : List String) : List Nat :=
  (List.range t.size).filter fun b => decide (t.IsBoundary kinds b)

theorem PreOrdered.boundaryFragments_eq (h : t.PreOrdered) (hsize : 0 < t.size)
    (kinds : List String) : t.boundaryFragments kinds = (t.boundaries kinds).map t.fragment := by
  rw [boundaryFragments, h.outermost_eq_filter hsize, List.filter_filter, boundaries]
  congr 2
  funext b
  rw [Bool.eq_iff_iff, Bool.and_eq_true, decide_eq_true_iff, decide_eq_true_iff,
    Bool.not_eq_true', IsBoundary]
  exact and_comm

end Tree

/-! ## Descending with a stack -/

structure Search where
  found : List Fragment
  stack : List Nat
deriving Repr, DecidableEq

namespace Tree
variable {t : Tree}

/-- Takes the node on top of the stack. A node of a boundary kind gives a fragment, unless it is
blank, and is not gone into; any other node makes way for its children, the first one on top. -/
def collect (t : Tree) (kinds : List String) (s : Search) : Search :=
  match s.stack with
  | [] => s
  | i :: rest =>
    if kinds.contains (t.kind i) then
      ⟨if allBlank (t.text i) then s.found else s.found ++ [t.fragment i], rest⟩
    else ⟨s.found, t.children i ++ rest⟩

/-- What is found once the stack is empty. -/
def harvest (t : Tree) (kinds : List String) (s : Search) : List Fragment :=
  s.found ++ ((s.stack.flatMap (t.outermostWithin kinds t.size)).filter
    fun i => !allBlank (t.text i)).map t.fragment

theorem Rooted.stack_lt_collect (h : t.Rooted) (kinds : List String) {s : Search}
    (hs : ∀ i ∈ s.stack, i < t.size) : ∀ i ∈ (t.collect kinds s).stack, i < t.size := by
  unfold collect
  split
  · exact hs
  · next i rest he =>
    rw [he] at hs
    obtain ⟨_, hrest⟩ := List.forall_mem_cons.mp hs
    by_cases hkind : kinds.contains (t.kind i) = true
    · rw [if_pos hkind]
      exact hrest
    · rw [if_neg hkind]
      exact List.forall_mem_append.mpr ⟨fun j hj => (h.lt_of_mem_children hj).2, hrest⟩

theorem Rooted.harvest_collect (h : t.Rooted) (kinds : List String) {s : Search}
    (hs : ∀ i ∈ s.stack, i < t.size) :
    t.harvest kinds (t.collect kinds s) = t.harvest kinds s := by
  unfold collect
  split
  · rfl
  · next i rest he =>
    have hi := h.outermostWithin_size kinds (hs i (by simp [he]))
    by_cases hkind : kinds.contains (t.kind i) = true
    · rw [if_pos hkind] at hi ⊢
      by_cases hblank : allBlank (t.text i) = true
      · simp [harvest, he, hi, hblank]
      · simp [harvest, he, hi, hblank]
    · rw [if_neg hkind] at hi ⊢
      simp [harvest, he, hi, List.flatMap_append]

theorem Rooted.length_walks_collect (h : t.Rooted) (kinds : List String) {s : Search}
    (hs : ∀ i ∈ s.stack, i < t.size) :
    ((t.collect kinds s).stack.flatMap t.walk).length ≤ (s.stack.flatMap t.walk).length - 1 := by
  unfold collect
  split
  · next he => simp [he]
  · next i rest he =>
    rw [he, List.flatMap_cons, h.walk_eq (hs i (by simp [he]))]
    by_cases hkind : kinds.contains (t.kind i) = true
    · rw [if_pos hkind]
      simp only [List.length_append, List.length_cons]
      omega
    · rw [if_neg hkind]
      simp only [List.flatMap_append, List.length_append, List.length_cons]
      omega

/-- With a step for each node in the subtrees on the stack, the stack is empty and the harvest is
found. -/
theorem Rooted.iterate_collect (h : t.Rooted) (kinds : List String) {n : Nat} {s : Search}
    (hs : ∀ i ∈ s.stack, i < t.size) (hn : (s.stack.flatMap t.walk).length ≤ n) :
    (t.collect kinds)^[n] s = ⟨t.harvest kinds s, []⟩ := by
  obtain ⟨⟨hlt, hharvest⟩, hwalks⟩ := iterate_of_measure (t.collect kinds)
    (fun s' => (∀ i ∈ s'.stack, i < t.size) ∧ t.harvest kinds s' = t.harvest kinds s)
    (fun s' => (s'.stack.flatMap t.walk).length)
    (fun s' hs' => ⟨h.stack_lt_collect kinds hs'.1, (h.harvest_collect kinds hs'.1).trans hs'.2⟩)
    (fun s' hs' => h.length_walks_collect kinds hs'.1) ⟨hs, rfl⟩ hn
  generalize (t.collect kinds)^[n] s = last at hlt hharvest hwalks ⊢
  obtain ⟨found, stack⟩ := last
  obtain rfl : stack = [] := h.eq_nil_of_walks hlt hwalks
  rw [← hharvest]
  simp [harvest]

theorem PreOrdered.iterate_collect_root (h : t.PreOrdered) (hsize : 0 < t.size)
    (kinds : List String) :
    (t.collect kinds)^[t.size] ⟨[], [0]⟩ = ⟨t.boundaryFragments kinds, []⟩ := by
  rw [h.iterate_collect kinds (by simpa using hsize) (by simp [h.walk_root hsize]), harvest,
    boundaryFragments, outermost, root?_of_pos hsize]
  simp

end Tree

/-- A parsed text is cut at the nodes of a boundary kind that have none of these kinds above them and
some text that is not blank, in the order of their indices and with their text, lines, kind and index.
If there is no such node the text stays whole and keeps the index of the root. A search with a stack
that starts at the root and goes into no boundary finds the same nodes. -/
theorem cut_at_outermost_boundaries (g : Grammar) (source : Text) {root : Row} {rest : List Row}
    {t : Tree} (ht : Tree.ofRows (encode source) (root :: rest) = t) (h : t.PreOrdered) :
    (t.boundaries g.boundaryKinds ≠ [] → t.fragments g.boundaryKinds source =
      (t.boundaries g.boundaryKinds).map fun i =>
        { content := t.text i
          startLine := (t.node i).startLine
          endLine := (t.node i).endLine
          nodeKind := some (t.kind i)
          nodeIndex := some i
          symbols := [] }) ∧
    (t.boundaries g.boundaryKinds = [] → t.fragments g.boundaryKinds source =
      [{ content := source
         startLine := 1
         endLine := countLines source
         nodeKind := none
         nodeIndex := some 0
         symbols := [] }]) ∧
    (t.collect g.boundaryKinds)^[t.size] ⟨[], [0]⟩ =
      ⟨(t.boundaries g.boundaryKinds).map t.fragment, []⟩ ∧
    (root.kind ≠ "ERROR" → (g.cut (.tree (root :: rest)) source).value =
      .ok ⟨t, t.fragments g.boundaryKinds source⟩) := by
  have hsize : 0 < t.size := by
    subst ht
    simp [Tree.ofRows, Tree.size]
  have hfragments := h.boundaryFragments_eq hsize g.boundaryKinds
  refine ⟨?_, ?_, ?_, ?_⟩
  · intro hne
    rcases t.fragments_cases g.boundaryKinds source with ⟨_, he⟩ | ⟨hnone, _⟩
    · rw [he, hfragments]
      rfl
    · rw [hfragments, List.map_eq_nil_iff] at hnone
      exact absurd hnone hne
  · intro hnone
    rw [Tree.fragments, hfragments, hnone, Tree.root?_of_pos hsize]
    rfl
  · rw [h.iterate_collect_root hsize, hfragments]
  · intro hroot
    simp only [Grammar.cut, ParseOutcome.toTree, if_neg hroot, ht]
    rfl

/-- A class with a function in it, a blank function, and a function in a block that takes in the
newline behind it. -/
def blockRows : List Row :=
  [⟨none, "translation_unit", none, true, 0, 18, none⟩,
    ⟨some 0, "class_specifier", none, true, 0, 8, none⟩,
    ⟨some 1, "function_definition", none, true, 2, 7, none⟩,
    ⟨some 0, "function_definition", none, true, 8, 10, none⟩,
    ⟨some 0, "compound_statement", none, true, 10, 18, none⟩,
    ⟨some 4, "function_definition", none, true, 11, 17, none⟩,
    ⟨some 5, "identifier", none, true, 11, 12, none⟩]

def blockSource : Text := "C{f(){}}  \x7bg(){}\n\x7d"

def blockTree : Tree := Tree.ofRows (encode blockSource) blockRows

theorem blockTree_cut :
    blockTree.PreOrdered ∧
    ((Grammar.ofLanguage .cpp).cut (.tree blockRows) blockSource).value =
      .ok ⟨blockTree, [⟨"C{f(){}}", 1, 1, some "class_specifier", some 1, []⟩,
        ⟨"g(){}\n", 1, 1, some "function_definition", some 5, []⟩]⟩ ∧
    (blockTree.collect (Grammar.ofLanguage .cpp).boundaryKinds)^[7] ⟨[], [0]⟩ =
      ⟨[blockTree.fragment 1, blockTree.fragment 5], []⟩ ∧
    ((Grammar.ofLanguage .go).cut (.tree blockRows) blockSource).value =
      .ok ⟨blockTree, [⟨blockSource, 1, 2, none, some 0, []⟩]⟩ := by
  have hpre : blockTree.PreOrdered := by decide
  have hroot : "translation_unit" ≠ "ERROR" := by decide
  have hboundaries : blockTree.boundaries (Grammar.ofLanguage .cpp).boundaryKinds = [1, 5] := by
    decide
  have hnone : blockTree.boundaries (Grammar.ofLanguage .go).boundaryKinds = [] := by decide
  obtain ⟨hsome, _, hsearch, hcut⟩ := cut_at_outermost_boundaries (Grammar.ofLanguage .cpp) blockSource
    (show Tree.ofRows _ blockRows = blockTree from rfl) hpre
  obtain ⟨_, hwhole, _, hcut'⟩ := cut_at_outermost_boundaries (Grammar.ofLanguage .go) blockSource
    (show Tree.ofRows _ blockRows = blockTree from rfl) hpre
  refine ⟨hpre, ?_, ?_, ?_⟩
  · refine (hcut hroot).trans ?_
    rw [hsome (by simp [hboundaries]), hboundaries]
    rfl
  · rw [hboundaries] at hsearch
    exact hsearch
  · refine (hcut' hroot).trans ?_
    rw [hwhole hnone]
    rfl

end SourceChunking
