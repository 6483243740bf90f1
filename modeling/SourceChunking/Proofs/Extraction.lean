import SourceChunking.Proofs.Declarators

/-! # Symbols of sensible trees

Apart from its uses the symbol of a node depends on the tree alone, not on the subtree that is
extracted. In a placed tree no pass fails, and a symbol lies on the lines of every node around its
own.
-/
namespace SourceChunking

def Symbol.withoutUsages (s : Symbol) : Symbol := { s with usages := [] }

theorem Tree.withoutUsages_symbolAt {t : Tree} {i : Nat} {s : Symbol} (h : t.symbolAt i = some s) :
    s.withoutUsages = s := by
  have hbuilt := (Extraction.build_spec .none [] t.cacheSound_nil i).1
  change t.symbolAt i = (t.symbolAt i).map _ at hbuilt
  rw [h] at hbuilt
  exact ((Option.some.inj hbuilt).trans (FaultPlan.blank_none _)).symm

theorem Extraction.definitions_spec {t : Tree} {cache : AccessCache} (us : Usages)
    (h : t.CacheSound cache) (is : List Nat) :
    ((Extraction.mk .none t t.lines us).definitions cache is).value.map Symbol.withoutUsages =
      is.filterMap t.symbolAt := by
  rw [← map_snd_located, located_none us h, List.map_filterMap, List.map_filterMap]
  congr 1
  funext i
  unfold Tree.entry
  cases hs : t.symbolAt i with
  | none => rfl
  | some s => exact congrArg some (t.withoutUsages_symbolAt hs)

/-! ## Declared names lie inside their declarations -/

namespace Tree

def Inside (t : Tree) (i j : Nat) : Prop :=
  (t.node i).startByte ≤ (t.node j).startByte ∧ (t.node j).endByte ≤ (t.node i).endByte

theorem Inside.refl (t : Tree) (i : Nat) : t.Inside i i := ⟨Int.le_refl _, Int.le_refl _⟩

theorem Inside.trans {t : Tree} {i j k : Nat} (h : t.Inside i j) (h' : t.Inside j k) :
    t.Inside i k := ⟨Int.le_trans h.1 h'.1, Int.le_trans h'.2 h.2⟩

namespace Nested
variable {t : Tree} {i : Nat}

theorem inside_child (h : t.Nested) {j : Nat} (hj : j ∈ t.children i) : t.Inside i j := by
  obtain ⟨hsize, hparent⟩ := mem_children.mp hj
  exact h.inside j hsize i hparent

theorem inside_of_behind (h : t.Nested) {j : Nat} (hj : t.Behind i j) : t.Inside i j := by
  induction hj with
  | child hj => exact h.inside_child hj
  | wrapped _ _ hj ih => exact ih.trans (h.inside_child hj)

theorem inside_nameNode (h : t.Nested) {d : Declaration} (hd : t.declaration? i = some d) :
    t.Inside i d.nameNode := by
  have hdeclares := declares_of_declaration hd
  have hname := h.inside_of_behind hdeclares.behind
  rcases hdeclares.reached with he | hbehind
  · rwa [he] at hname
  · exact (h.inside_of_behind hbehind).trans hname

end Nested

/-- A node that defines a symbol holds something, and the symbol is ranged on it. -/
theorem symbolAt_spec {t : Tree} (hp : t.Placed) (hn : t.Nested) {i : Nat} {s : Symbol}
    (hs : t.symbolAt i = some s) :
    (t.node i).startByte < (t.node i).endByte ∧ s.range = t.rangeOf i := by
  obtain ⟨d, hd, rfl, _⟩ := symbolAt_eq_some.mp hs
  have hinside := hn.inside_nameNode hd
  have hlt := hp.lt_of_text_ne_nil (declares_of_declaration hd).text_ne_nil
  have := hinside.1
  have := hinside.2
  exact ⟨by omega, Extraction.range_symbolOf _ [] i d⟩

end Tree

/-! ## Extraction in placed trees -/

namespace Tree.Placed
variable {t : Tree}

theorem valid_positionOf (h : t.Placed) (i : Nat) : (t.positionOf i).Valid :=
  ⟨(h.node i).one_le_startLine, (h.node i).start_column_nonneg⟩

theorem value_extractFrom (h : t.Placed) (root : Nat) :
    (extractFrom .none t t.lines root).value.map Symbol.withoutUsages =
      (t.walk root).filterMap t.symbolAt := by
  unfold extractFrom
  rw [collectUsages_of_valid fun i _ _ => h.valid_positionOf i]
  exact Extraction.definitions_spec _ t.cacheSound_nil (t.walk root)

end Tree.Placed
end SourceChunking
