import SourceChunking.Proofs.Building
import SourceChunking.Proofs.Descent

/-! # Symbols of a subtree and of the whole tree

A symbol is read off its node, the ancestors and siblings of the node and the lines of the source,
all of which are there whichever subtree is extracted. So the symbols of a subtree are those of the
whole tree that are defined in it. Uses alone are gathered from the subtree, where they stand in one
stretch of the uses in the whole tree.
-/
namespace SourceChunking
namespace Tree
variable {t : Tree}

def uses (t : Tree) (name : Text) (i : Nat) : Bool := t.isUsage i && t.text i == name

/-- The nodes of a subtree that use a name, in source order. -/
def usesOf (t : Tree) (root : Nat) (name : Text) : List Nat := (t.walk root).filter (t.uses name)

theorem of_usagesIn (t : Tree) (root : Nat) (name : Text) :
    (t.usagesIn root).of name = (t.usesOf root name).map t.positionOf := by
  unfold Usages.of usagesIn usesOf
  rw [List.filter_map, List.map_map, List.filter_filter]
  congr 2
  funext i
  exact Bool.and_comm _ _

theorem located_eq {root : Nat}
    (h : ∀ i ∈ t.walk root, t.isUsage i = true → (t.positionOf i).Valid) :
    t.located root = (t.walk root).filterMap (t.entry (t.usagesIn root)) := by
  unfold located
  rw [collectUsages_of_valid h]
  exact Extraction.located_none _ t.cacheSound_nil (t.walk root)

theorem fst_of_entry {us : Usages} {i : Nat} {p : Nat × Symbol} (h : t.entry us i = some p) :
    p.1 = i := by
  obtain ⟨s, _, rfl⟩ := Option.map_eq_some_iff.mp h
  rfl

theorem usages_of_mem_located {root : Nat}
    (h : ∀ i ∈ t.walk root, t.isUsage i = true → (t.positionOf i).Valid) {p : Nat × Symbol}
    (hp : p ∈ t.located root) : p.2.usages = (t.usesOf root p.2.name).map t.positionOf := by
  rw [located_eq h] at hp
  obtain ⟨i, _, he⟩ := List.mem_filterMap.mp hp
  obtain ⟨s, _, rfl⟩ := Option.map_eq_some_iff.mp he
  exact t.of_usagesIn root s.name

/-- Choosing symbols by their nodes is choosing the nodes first. -/
theorem filter_filterMap_entry (us : Usages) (q : Nat → Bool) (is : List Nat) :
    ((is.filterMap (t.entry us)).filter fun p => q p.1) = (is.filter q).filterMap (t.entry us) := by
  induction is with
  | nil => rfl
  | cons i rest ih =>
    cases he : t.entry us i with
    | none => cases hq : q i <;> simp [he, hq, ih]
    | some p => cases hq : q i <;> simp [he, hq, ih, fst_of_entry he]

/-- Other uses can be put in place of those that a symbol was built with. -/
theorem map_filterMap_entry (us us' : Usages) (is : List Nat) :
    ((is.filterMap (t.entry us)).map fun p => p.2.withUsages us') =
      (is.filterMap (t.entry us')).map Prod.snd := by
  rw [List.map_filterMap, List.map_filterMap]
  congr 1
  funext i
  unfold entry
  cases t.symbolAt i with
  | none => rfl
  | some s => rfl

theorem Rooted.exists_usesOf_split (h : t.Rooted) {n : Nat} (hn : n < t.size) (name : Text) :
    ∃ before after, t.usesOf 0 name = before ++ t.usesOf n name ++ after ∧
      (∀ j ∈ t.usesOf n name, t.InSubtree n j) ∧ ∀ j ∈ before ++ after, ¬t.InSubtree n j := by
  obtain ⟨before, after, he, hout⟩ := h.exists_walk_split (by omega) (h.mem_walk_root hn)
  refine ⟨before.filter (t.uses name), after.filter (t.uses name), ?_, ?_, ?_⟩
  · unfold usesOf
    rw [he, List.filter_append, List.filter_append]
  · intro j hj
    exact h.inSubtree_of_mem_walk hn (List.mem_of_mem_filter hj)
  · intro j hj
    rw [← List.filter_append] at hj
    exact hout j (List.mem_of_mem_filter hj)

end Tree

/-- Extraction is local. Where the uses of names have valid places, the symbols of a subtree are
those of the whole tree whose nodes lie in it, in the same order and with the same fields but for
uses. The uses in the subtree are a stretch of the uses in the whole tree, with none of the subtree
before or after it. -/
theorem extract_local {t : Tree} (hr : t.Rooted)
    (hvalid : ∀ i < t.size, t.isUsage i = true → (t.positionOf i).Valid) {n : Nat}
    (hn : n < t.size) :
    (extractAll .none t).value = (t.located 0).map Prod.snd ∧
    (∀ p ∈ t.located 0, p.2.usages = (t.usesOf 0 p.2.name).map t.positionOf) ∧
    (extract t n).value =
      ((t.located 0).filter fun p => decide (t.InSubtree n p.1)).map (fun p =>
        { p.2 with usages := (t.usesOf n p.2.name).map t.positionOf }) ∧
    ∀ name, ∃ before after, t.usesOf 0 name = before ++ t.usesOf n name ++ after ∧
      (∀ j ∈ t.usesOf n name, t.InSubtree n j) ∧ ∀ j ∈ before ++ after, ¬t.InSubtree n j := by
  have hsize : 0 < t.size := by omega
  have hwalk : ∀ root < t.size, ∀ i ∈ t.walk root, t.isUsage i = true → (t.positionOf i).Valid :=
    fun root hroot i hi => hvalid i (hr.lt_size_of_mem_walk hroot hi)
  refine ⟨?_, fun p hp => Tree.usages_of_mem_located (hwalk 0 hsize) hp, ?_,
    hr.exists_usesOf_split hn⟩
  · rw [extractAll, Tree.root?_of_pos hsize]
    exact (t.map_snd_located 0).symm
  · have huses : (fun p : Nat × Symbol =>
        { p.2 with usages := (t.usesOf n p.2.name).map t.positionOf }) =
        fun p => p.2.withUsages (t.usagesIn n) := by
      funext p
      rw [Symbol.withUsages, t.of_usagesIn]
    rw [huses, Tree.located_eq (hwalk 0 hsize),
      Tree.filter_filterMap_entry _ (fun i => decide (t.InSubtree n i)),
      hr.filter_walk hsize (hr.mem_walk_root hn), Tree.map_filterMap_entry,
      ← Tree.located_eq (hwalk n hn)]
    exact (t.map_snd_located n).symm

/-- A structure with a function in it; both names are used inside the function and outside. -/
def nestedRows : List Row :=
  [⟨none, "translation_unit", none, true, 0, 21, none⟩,
    ⟨some 0, "identifier", none, true, 0, 1, none⟩,
    ⟨some 0, "struct_specifier", none, true, 2, 20, none⟩,
    ⟨some 2, "type_identifier", some "name", true, 9, 10, none⟩,
    ⟨some 2, "field_declaration_list", some "body", true, 10, 20, none⟩,
    ⟨some 4, "function_definition", none, true, 11, 19, none⟩,
    ⟨some 5, "function_declarator", some "declarator", true, 11, 14, none⟩,
    ⟨some 6, "identifier", some "declarator", true, 11, 12, none⟩,
    ⟨some 6, "parameter_list", some "parameters", true, 12, 14, none⟩,
    ⟨some 5, "compound_statement", some "body", true, 14, 19, none⟩,
    ⟨some 9, "identifier", none, true, 15, 16, none⟩,
    ⟨some 9, "identifier", none, true, 17, 18, none⟩,
    ⟨some 0, "identifier", none, true, 20, 21, none⟩]

def nestedTree : Tree := Tree.ofRows (Text.encode "s;struct s{f(){s;f}}f") nestedRows

theorem nestedTree_local :
    (nestedTree.Rooted ∧
      ∀ i < nestedTree.size, nestedTree.isUsage i = true → (nestedTree.positionOf i).Valid) ∧
    ((extractAll .none nestedTree).value.map fun s => (s.name, s.usages)) =
      [(Text.ofString "s", [⟨1, 0⟩, ⟨1, 15⟩]), (Text.ofString "f", [⟨1, 17⟩, ⟨1, 20⟩])] ∧
    ((extract nestedTree 5).value.map fun s => (s.name, s.parentSymbol, s.scope, s.usages)) =
      [(Text.ofString "f", some (Text.ofString "s"), some .publicMember, [⟨1, 17⟩])] := by
  have hr : nestedTree.Rooted := by decide
  have hvalid : ∀ i < nestedTree.size, nestedTree.isUsage i = true →
      (nestedTree.positionOf i).Valid := by decide
  obtain ⟨hall, _, hsub, _⟩ := extract_local hr hvalid (show 5 < nestedTree.size by decide)
  rw [hall, hsub]
  exact ⟨⟨hr, hvalid⟩, by decide, by decide⟩

end SourceChunking
