import SourceChunking.Proofs.Locality
import SourceChunking.Proofs.SymbolsByChunk

/-! # Declarations among their own uses

Whether a node uses a name is decided by the node directly above it. Below a declarator or a
declaring node a name is declared, so a plain name is not a use. A name behind a wrapper stands below
the wrapper, where names count as used, so such a declaration is listed among the uses of its own
symbol.
-/
namespace SourceChunking

theorem notMem_declarationContexts_of_wrapper {kind : String} (h : kind ∈ wrapperKinds) :
    kind ∉ declarationContexts := by
  have hall : ∀ kind ∈ wrapperKinds, kind ∉ declarationContexts := by decide
  exact hall kind h

namespace Tree
variable {t : Tree} {i j root : Nat} {d : Declaration}

/-! ## Names behind wrappers -/

/-- A name with a wrapper between it and the node that it is looked up from. -/
def Wrapped (t : Tree) (holder j : Nat) : Prop :=
  ∃ w, t.Behind holder w ∧ t.kind w ∈ wrapperKinds ∧ t.parent? j = some w

theorem isUsage_of_parent {p : Nat} (hp : t.parent? j = some p) :
    t.isUsage j = true ↔ t.kind j ∈ usageKinds ∧ t.kind p ∉ declarationContexts := by
  simp [isUsage, hp]

theorem kind_of_isUsage (h : t.isUsage j = true) : t.kind j ∈ usageKinds := by
  simpa using (Bool.and_eq_true_iff.mp h).1

namespace Declares

/-- A declared name counts as a use exactly when something wraps it. -/
theorem isUsage_nameNode (h : t.Declares i d) :
    t.isUsage d.nameNode = true ↔
      t.kind d.nameNode ∈ usageKinds ∧ t.Wrapped (d.holder i) d.nameNode := by
  cases h.behind with
  | child hj =>
    have hparent := (mem_children.mp hj).2
    rw [isUsage_of_parent hparent]
    refine and_congr_right fun _ => iff_of_false (fun hout => hout h.context) ?_
    rintro ⟨w, _, hwrapper, hw⟩
    obtain rfl := Option.some.inj (hparent.symm.trans hw)
    exact notMem_declarationContexts_of_wrapper hwrapper h.context
  | wrapped hk hkind hj =>
    have hparent := (mem_children.mp hj).2
    rw [isUsage_of_parent hparent]
    refine and_congr_right fun _ => iff_of_true (notMem_declarationContexts_of_wrapper hkind) ?_
    exact ⟨_, hk, hkind, hparent⟩

theorem name_eq_text (h : t.Declares i d) (husage : t.isUsage d.nameNode = true) :
    t.text d.nameNode = d.name t := by
  rcases h.spelled with hname | hparent
  · exact hname.symm
  · exact absurd h.context ((isUsage_of_parent hparent).mp husage).2

end Declares

theorem Behind.mem_walk (h : t.Behind i j) (hr : t.Rooted) (hroot : root < t.size)
    (hi : i ∈ t.walk root) : j ∈ t.walk root := by
  induction h with
  | child hj => exact hr.walk_closed hroot hi (mem_children.mp hj).2
  | wrapped _ _ hj ih => exact hr.walk_closed hroot ih (mem_children.mp hj).2

theorem Declares.mem_walk (h : t.Declares i d) (hr : t.Rooted) (hroot : root < t.size)
    (hi : i ∈ t.walk root) : d.nameNode ∈ t.walk root := by
  refine h.behind.mem_walk hr hroot ?_
  rcases h.reached with he | hholder
  · rwa [he]
  · exact hholder.mem_walk hr hroot hi

/-! ## Other uses at the place of a name -/

/-- Nothing stands below a name. -/
def NamesAreLeaves (t : Tree) : Prop := ∀ i < t.size, t.kind i ∈ usageKinds → t.children i = []

instance (t : Tree) : Decidable t.NamesAreLeaves :=
  inferInstanceAs (Decidable (∀ i < t.size, t.kind i ∈ usageKinds → t.children i = []))

/-- Nodes of which neither holds the other lie apart. -/
theorem Nested.apart_of_notMem_walk (h : t.Nested) (hr : t.Rooted) {u : Nat}
    (hroot : root < t.size) (hu : u ∈ t.walk root) (hj : j ∈ t.walk root) (huj : j ∉ t.walk u)
    (hju : u ∉ t.walk j) :
    (t.node u).endByte ≤ (t.node j).startByte ∨ (t.node j).endByte ≤ (t.node u).startByte := by
  induction hn : t.size - root using Nat.strongRecOn generalizing root with
  | _ n ih =>
    rcases hr.eq_or_below_of_mem_walk hroot hu with rfl | ⟨k, hk, huk⟩
    · exact absurd hj huj
    · rcases hr.eq_or_below_of_mem_walk hroot hj with rfl | ⟨k', hk', hjk⟩
      · exact absurd hu hju
      · obtain ⟨hlt, hsize⟩ := hr.lt_of_mem_children hk
        obtain ⟨_, hsize'⟩ := hr.lt_of_mem_children hk'
        have hparent := (mem_children.mp hk).2
        have hparent' := (mem_children.mp hk').2
        have hinside := h.inside_of_mem_walk hr hsize huk
        have hinside' := h.inside_of_mem_walk hr hsize' hjk
        rcases Nat.lt_trichotomy k k' with hlt' | rfl | hlt'
        · have hapart := h.apart k' hsize' k hlt' root hparent hparent'
          exact Or.inl (hinside.2.trans (hapart.trans hinside'.1))
        · exact ih (t.size - k) (by omega) hsize huk hjk rfl
        · have hapart := h.apart k hsize k' hlt' root hparent' hparent
          exact Or.inr (hinside'.2.trans (hapart.trans hinside.1))

theorem NamesAreLeaves.walk_eq (h : t.NamesAreLeaves) (hr : t.Rooted) (hi : i < t.size)
    (hkind : t.kind i ∈ usageKinds) : t.walk i = [i] := by
  rw [hr.walk_eq hi, h i hi hkind]
  rfl

/-- Two names that hold something do not start at one place. -/
theorem NamesAreLeaves.eq_of_positionOf (h : t.NamesAreLeaves) (hr : t.Rooted) (hp : t.Placed)
    (hn : t.Nested) {u : Nat} (hu : u < t.size) (hj : j < t.size) (hukind : t.kind u ∈ usageKinds)
    (hjkind : t.kind j ∈ usageKinds) (hutext : t.text u ≠ []) (hjtext : t.text j ≠ [])
    (hplace : t.positionOf u = t.positionOf j) : u = j := by
  by_contra hne
  have hstart : (t.node u).startByte = (t.node j).startByte :=
    (hp.node u).startByte_eq (hp.node j) (congrArg Position.line hplace)
      (congrArg Position.column hplace)
  have hulong := hp.lt_of_text_ne_nil hutext
  have hjlong := hp.lt_of_text_ne_nil hjtext
  have hsize : 0 < t.size := by omega
  have hapart := hn.apart_of_notMem_walk hr hsize (hr.mem_walk_root hu)
    (hr.mem_walk_root hj) (by simpa [h.walk_eq hr hu hukind] using Ne.symm hne)
    (by simpa [h.walk_eq hr hj hjkind] using hne)
  omega

end Tree

/-! ## Which declarations are listed -/

/-- A symbol lists the place of its own name among its uses exactly when the name is of a kind that
can be used and stands behind a wrapper, or another node that uses the name has the same place. In a
tree of which the names are leaves with places of their own, wrappers alone decide. -/
theorem lists_own_name_iff {t : Tree} (hr : t.Rooted) {root : Nat} (hroot : root < t.size) :
    (extract t root).value = (t.located root).map Prod.snd ∧
    ∀ p ∈ t.located root, ∃ d, t.declaration? p.1 = some d ∧ p.2.name = d.name t ∧
      (t.positionOf d.nameNode ∈ p.2.usages ↔
        t.kind d.nameNode ∈ usageKinds ∧ t.Wrapped (d.holder p.1) d.nameNode ∨
        ∃ u ∈ t.walk root, u ≠ d.nameNode ∧ t.isUsage u = true ∧ t.text u = p.2.name ∧
          t.positionOf u = t.positionOf d.nameNode) ∧
      (t.Placed → t.Nested → t.NamesAreLeaves → t.kind d.nameNode ∈ usageKinds →
        (t.positionOf d.nameNode ∈ p.2.usages ↔ t.Wrapped (d.holder p.1) d.nameNode)) := by
  refine ⟨(t.map_snd_located root).symm, fun p hp => ?_⟩
  obtain ⟨hmem, ⟨s, hs, husages⟩, _⟩ := Tree.mem_located hp
  obtain ⟨d, hd, hsymbol, _⟩ := Tree.symbolAt_eq_some.mp hs
  have hdeclares := Tree.declares_of_declaration hd
  have hname : p.2.name = d.name t := by
    rw [husages, hsymbol]
    exact (Extraction.symbolOf_placed _ [] p.1 d).1
  have hlisted : t.positionOf d.nameNode ∈ p.2.usages ↔
      ∃ u ∈ t.walk root, t.isUsage u = true ∧ t.text u = d.name t ∧
        t.positionOf u = t.positionOf d.nameNode := by
    have huses : p.2.usages = (t.usesOf root p.2.name).map t.positionOf := by
      rw [husages]
      exact t.of_usagesIn root s.name
    rw [huses, hname]
    simp [Tree.usesOf, Tree.uses, and_assoc]
  have hself := hdeclares.isUsage_nameNode
  have hwalk := hdeclares.mem_walk hr hroot hmem
  refine ⟨d, hd, hname, ?_, ?_⟩
  · rw [hlisted, hname, ← hself]
    constructor
    · rintro ⟨u, hu, husage, htext, hplace⟩
      by_cases he : u = d.nameNode
      · exact Or.inl (he ▸ husage)
      · exact Or.inr ⟨u, hu, he, husage, htext, hplace⟩
    · rintro (husage | ⟨u, hu, _, huse⟩)
      · exact ⟨d.nameNode, hwalk, husage, hdeclares.name_eq_text husage, rfl⟩
      · exact ⟨u, hu, huse⟩
  · intro hplaced hnested hleaves hkind
    rw [hlisted]
    constructor
    · rintro ⟨u, hu, husage, htext, hplace⟩
      obtain rfl := hleaves.eq_of_positionOf hr hplaced hnested (hr.lt_size_of_mem_walk hroot hu)
        (hr.lt_size_of_mem_walk hroot hwalk) (Tree.kind_of_isUsage husage) hkind
        (htext ▸ hdeclares.name_ne_nil) hdeclares.text_ne_nil hplace
      exact (hself.mp husage).2
    · intro hwrapped
      have husage := hself.mpr ⟨hkind, hwrapped⟩
      exact ⟨d.nameNode, hwalk, husage, hdeclares.name_eq_text husage, rfl⟩

/-- A structure with a pointer for a field: the structure's name is plain, and that of the field
stands behind the pointer. -/
def pointerFieldRows : List Row :=
  [⟨none, "translation_unit", none, true, 0, 17, none⟩,
    ⟨some 0, "struct_specifier", none, true, 0, 16, none⟩,
    ⟨some 1, "struct", none, false, 0, 6, none⟩,
    ⟨some 1, "type_identifier", some "name", true, 7, 8, none⟩,
    ⟨some 1, "field_declaration_list", some "body", true, 8, 16, none⟩,
    ⟨some 4, "\x7b", none, false, 8, 9, none⟩,
    ⟨some 4, "field_declaration", none, true, 9, 15, none⟩,
    ⟨some 6, "primitive_type", some "type", true, 9, 12, none⟩,
    ⟨some 6, "pointer_declarator", some "declarator", true, 12, 14, none⟩,
    ⟨some 8, "*", none, false, 12, 13, none⟩,
    ⟨some 8, "field_identifier", some "declarator", true, 13, 14, none⟩,
    ⟨some 6, ";", none, false, 14, 15, none⟩,
    ⟨some 4, "\x7d", none, false, 15, 16, none⟩,
    ⟨some 0, ";", none, false, 16, 17, none⟩]

def pointerFieldTree : Tree :=
  Tree.ofRows (Text.encode "struct A\x7bint*p;\x7d;") pointerFieldRows

/-- The name of the field is used nowhere, and yet its declaration is listed as a use. -/
theorem pointerFieldTree_listed :
    (pointerFieldTree.Rooted ∧ pointerFieldTree.Placed ∧ pointerFieldTree.Nested) ∧
    (pointerFieldTree.declaration? 6).map Declaration.nameNode = some 10 ∧
    pointerFieldTree.positionOf 10 = ⟨1, 13⟩ ∧
    ((extract pointerFieldTree 0).value.map fun s => (s.name, s.usages)) =
      [(Text.ofString "A", []), (Text.ofString "p", [⟨1, 13⟩])] := by
  decide

theorem pointerFieldTree_lists_own_name :
    (pointerFieldTree.Rooted ∧ pointerFieldTree.Placed ∧ pointerFieldTree.Nested ∧
      pointerFieldTree.NamesAreLeaves) ∧
    ((pointerFieldTree.located 0).map Prod.fst) = [1, 6] ∧
    (∀ p ∈ pointerFieldTree.located 0, p.1 = 1 → pointerFieldTree.positionOf 3 ∉ p.2.usages) ∧
    ∀ p ∈ pointerFieldTree.located 0, p.1 = 6 → pointerFieldTree.positionOf 10 ∈ p.2.usages := by
  have hr : pointerFieldTree.Rooted := by decide
  have hplaced : pointerFieldTree.Placed := by decide
  have hnested : pointerFieldTree.Nested := by decide
  have hleaves : pointerFieldTree.NamesAreLeaves := by decide
  have hlisted : ∀ i holder n, (pointerFieldTree.declaration? i).map
      (fun d => (d.holder i, d.nameNode)) = some (holder, n) →
      pointerFieldTree.kind n ∈ usageKinds → ∀ p ∈ pointerFieldTree.located 0, p.1 = i →
      (pointerFieldTree.positionOf n ∈ p.2.usages ↔ pointerFieldTree.Wrapped holder n) := by
    rintro i holder n hdeclared hkind p hp rfl
    obtain ⟨d, hd, _, _, hplain⟩ :=
      (lists_own_name_iff hr (show 0 < pointerFieldTree.size by decide)).2 p hp
    rw [hd] at hdeclared
    obtain ⟨rfl, rfl⟩ := Prod.mk.inj (Option.some.inj hdeclared)
    exact hplain hplaced hnested hleaves hkind
  refine ⟨⟨hr, hplaced, hnested, hleaves⟩, by decide, ?_, ?_⟩
  · intro p hp hnode
    rw [hlisted 1 1 3 (by decide) (by decide) p hp hnode]
    rintro ⟨w, _, hwrapper, hw⟩
    obtain rfl := Option.some.inj (hw.symm.trans (show _ = some 1 by decide))
    revert hwrapper
    decide
  · intro p hp hnode
    rw [hlisted 6 6 10 (by decide) (by decide) p hp hnode]
    exact ⟨8, .child (by decide), by decide, by decide⟩

end SourceChunking
