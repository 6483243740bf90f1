import SourceChunking.Fragment.Boundary
import SourceChunking.Proofs.Coverage

/-! # Fragments of sensible trees

A tree is sensible over a text if its nodes lie in the text with the points of their offsets.
Each fragment cut from such a tree then fills its lines, and if the nodes lie between characters
it is a part of the text and stands for the lines of that part. If besides children lie inside
their parents and siblings one behind the other, the same holds of the fragments.
-/
namespace SourceChunking
open Text

namespace Tree

/-- Every node lies in the source and has the points of its offsets. -/
def Placed (t : Tree) : Prop := ∀ n ∈ t.nodes, n.Placed t.source

instance (t : Tree) : Decidable t.Placed := inferInstanceAs (Decidable (∀ n ∈ t.nodes, _))

/-- No node starts or stops inside a character. -/
def BetweenCharacters (source : Text) (t : Tree) : Prop :=
  ∀ n ∈ t.nodes, n.BetweenCharacters source

instance (source : Text) (t : Tree) : Decidable (t.BetweenCharacters source) :=
  inferInstanceAs (Decidable (∀ n ∈ t.nodes, _))

/-- Children lie inside their parent, and siblings apart and in order. -/
structure Nested (t : Tree) : Prop where
  inside : ∀ i < t.size, ∀ p ∈ t.parent? i,
    (t.node p).startByte ≤ (t.node i).startByte ∧ (t.node i).endByte ≤ (t.node p).endByte
  apart : ∀ j < t.size, ∀ i < j, ∀ p ∈ t.parent? i, t.parent? j = some p →
    (t.node i).endByte ≤ (t.node j).startByte

instance (t : Tree) : Decidable t.Nested :=
  decidable_of_iff ((∀ i < t.size, ∀ p ∈ t.parent? i,
      (t.node p).startByte ≤ (t.node i).startByte ∧ (t.node i).endByte ≤ (t.node p).endByte) ∧
    ∀ j < t.size, ∀ i < j, ∀ p ∈ t.parent? i, t.parent? j = some p →
      (t.node i).endByte ≤ (t.node j).startByte)
    ⟨fun ⟨a, b⟩ => ⟨a, b⟩, fun ⟨a, b⟩ => ⟨a, b⟩⟩

theorem node_mem_or (t : Tree) (i : Nat) : t.node i ∈ t.nodes ∨ t.node i = Node.absent := by
  unfold node
  rw [Array.getD_eq_getD_getElem?]
  by_cases h : i < t.nodes.size
  · left
    simp [h]
  · right
    simp [h]

theorem Placed.node {t : Tree} (h : t.Placed) (i : Nat) : (t.node i).Placed t.source := by
  rcases t.node_mem_or i with hm | he
  · exact h _ hm
  · rw [he]
    exact ⟨Int.le_refl _, Int.le_refl _, Int.natCast_nonneg _, rfl, rfl⟩

theorem Placed.lt_of_text_ne_nil {t : Tree} (h : t.Placed) {i : Nat} (hne : t.text i ≠ []) :
    (t.node i).startByte < (t.node i).endByte := by
  have hstart := (h.node i).start_nonneg
  have hstop := (h.node i).stop_nonneg
  by_contra hle
  apply hne
  have hspan : span t.source (t.node i).startByte (t.node i).endByte = [] := by
    rw [span_of_nonneg _ hstart hstop,
      show (t.node i).endByte.toNat - (t.node i).startByte.toNat = 0 by omega, List.take_zero]
  rw [text, slice, hspan]
  rfl

theorem BetweenCharacters.node {t : Tree} {source : Text} (h : t.BetweenCharacters source)
    (i : Nat) : (t.node i).BetweenCharacters source := by
  rcases t.node_mem_or i with hm | he
  · exact h _ hm
  · rw [he]
    exact ⟨⟨[], source, rfl, rfl⟩, ⟨[], source, rfl, rfl⟩⟩

theorem mem_children {t : Tree} {i j : Nat} :
    j ∈ t.children i ↔ j < t.size ∧ t.parent? j = some i := by
  simp [children]

theorem mem_children_of_childByField {t : Tree} {i j : Nat} {field : String}
    (h : t.childByField i field = some j) : j ∈ t.children i := List.mem_of_find?_eq_some h

theorem pairwise_children (t : Tree) (i : Nat) : (t.children i).Pairwise (· < ·) :=
  List.pairwise_lt_range.filter _

/-! ## Outermost nodes -/

theorem Nested.inside_of_mem_outermostWithin {t : Tree} (h : t.Nested) {kinds : List String}
    {depth i j : Nat} (hj : j ∈ t.outermostWithin kinds depth i) :
    (t.node i).startByte ≤ (t.node j).startByte ∧ (t.node j).endByte ≤ (t.node i).endByte := by
  induction depth generalizing i with
  | zero => simp [outermostWithin] at hj
  | succ depth ih =>
    unfold outermostWithin at hj
    split_ifs at hj
    · rw [List.mem_singleton.mp hj]
      exact ⟨Int.le_refl _, Int.le_refl _⟩
    · obtain ⟨k, hk, hj⟩ := List.mem_flatMap.mp hj
      obtain ⟨hsize, hparent⟩ := mem_children.mp hk
      obtain ⟨hstart, hstop⟩ := h.inside k hsize i hparent
      obtain ⟨hstart', hstop'⟩ := ih hj
      exact ⟨Int.le_trans hstart hstart', Int.le_trans hstop' hstop⟩

theorem Nested.pairwise_outermostWithin {t : Tree} (h : t.Nested) (kinds : List String)
    (depth i : Nat) :
    (t.outermostWithin kinds depth i).Pairwise fun j k =>
      (t.node j).endByte ≤ (t.node k).startByte := by
  induction depth generalizing i with
  | zero => exact List.Pairwise.nil
  | succ depth ih =>
    unfold outermostWithin
    split_ifs
    · exact List.pairwise_singleton _ _
    · refine List.pairwise_flatMap.mpr ⟨fun k _ => ih k, ?_⟩
      refine (t.pairwise_children i).imp_of_mem fun {a b} ha hb hab j hj k hk => ?_
      obtain ⟨_, hparent⟩ := mem_children.mp ha
      obtain ⟨hsize, hparent'⟩ := mem_children.mp hb
      exact Int.le_trans (h.inside_of_mem_outermostWithin hj).2
        (Int.le_trans (h.apart b hsize a hab i hparent hparent')
          (h.inside_of_mem_outermostWithin hk).1)

theorem Nested.pairwise_outermost {t : Tree} (h : t.Nested) (kinds : List String) :
    (t.outermost kinds).Pairwise fun j k => (t.node j).endByte ≤ (t.node k).startByte := by
  unfold outermost
  split
  · exact h.pairwise_outermostWithin kinds _ _
  · exact List.Pairwise.nil

end Tree

/-! ## Fragments that are parts of the text -/

namespace Tree
variable {t : Tree} {source : Text}

/-- Between characters the text of a node is the part of the source that it spans, with its
surrogates replaced. -/
theorem Placed.exists_part (hp : t.Placed) (hsource : t.source = encode source)
    (hb : t.BetweenCharacters source) (i : Nat) :
    ∃ x p y, source = x ++ p ++ y ∧ t.text i = replaced p ∧
      (t.node i).startByte = (encode x).length ∧
      (t.node i).endByte = (encode (x ++ p)).length := by
  obtain ⟨x, p, y, he, hstart, hstop⟩ := (hb.node i).exists_part (hp.node i).ordered
  refine ⟨x, p, y, he, ?_, hstart, hstop⟩
  rw [text, slice, hsource, hstart, hstop, he, decode_span_encode]

theorem Placed.fits_fragment (hp : t.Placed) {i : Nat} (hi : allBlank (t.text i) = false) :
    Fits (t.fragment i).content (t.fragment i).startLine (t.fragment i).endLine := by
  have hlt := hp.lt_of_text_ne_nil (ne_nil_of_allBlank_eq_false hi)
  exact ⟨(hp.node i).one_le_startLine, Int.le_of_eq ((hp.node i).countLines_decode_span hlt)⟩

theorem Placed.onLines_fragment (hp : t.Placed) (hsource : t.source = encode source) {i : Nat}
    (hi : allBlank (t.text i) = false) : Coverage.OnLines (countLines source) (t.fragment i) := by
  have hnode := hp.node i
  have hlt := hp.lt_of_text_ne_nil (ne_nil_of_allBlank_eq_false hi)
  refine ⟨hnode.one_le_startLine, hnode.startLine_le_endLine, ?_⟩
  rw [hsource] at hnode
  exact hnode.endLine_le_countLines hlt

theorem mem_boundaryFragments {kinds : List String} {f : Fragment}
    (h : f ∈ t.boundaryFragments kinds) :
    ∃ i ∈ t.outermost kinds, allBlank (t.text i) = false ∧ f = t.fragment i := by
  obtain ⟨i, hi, rfl⟩ := List.mem_map.mp h
  obtain ⟨hi, hb⟩ := List.mem_filter.mp hi
  exact ⟨i, hi, by simpa using hb, rfl⟩

theorem Nested.pairwise_boundaryFragments (h : t.Nested) (hp : t.Placed) (kinds : List String) :
    (t.boundaryFragments kinds).Pairwise fun f g => f.endLine ≤ g.startLine := by
  refine List.pairwise_map.mpr (((h.pairwise_outermost kinds).filter _).imp fun {i j} hij => ?_)
  exact (hp.node i).endLine_le_startLine (hp.node j) hij

theorem fragments_cases (t : Tree) (kinds : List String) (source : Text) :
    (t.boundaryFragments kinds ≠ [] ∧ t.fragments kinds source = t.boundaryFragments kinds) ∨
    (t.boundaryFragments kinds = [] ∧ t.fragments kinds source =
      [{ Fragment.whole source with nodeIndex := t.root?.map fun r => (r : Int) }]) := by
  unfold fragments
  cases h : t.boundaryFragments kinds with
  | nil => exact Or.inr ⟨rfl, rfl⟩
  | cons f fs => exact Or.inl ⟨List.cons_ne_nil _ _, rfl⟩

theorem fragments_ne_nil (t : Tree) (kinds : List String) (source : Text) :
    t.fragments kinds source ≠ [] := by
  rcases t.fragments_cases kinds source with ⟨hne, he⟩ | ⟨_, he⟩
  · rwa [he]
  · rw [he]
    exact List.cons_ne_nil _ _

theorem Placed.onLines_fragments (hp : t.Placed) (hsource : t.source = encode source)
    (kinds : List String) :
    ∀ f ∈ t.fragments kinds source, Coverage.OnLines (countLines source) f := by
  intro f hf
  rcases t.fragments_cases kinds source with ⟨_, he⟩ | ⟨_, he⟩
  · rw [he] at hf
    obtain ⟨i, _, hi, rfl⟩ := mem_boundaryFragments hf
    exact hp.onLines_fragment hsource hi
  · rw [he] at hf
    obtain rfl := List.mem_singleton.mp hf
    have hpos := countLines_pos source
    refine ⟨Int.le_refl 1, ?_, Int.le_refl _⟩
    change (1 : Int) ≤ countLines source
    omega

theorem Placed.fits_fragments (hp : t.Placed) (kinds : List String) (source : Text) :
    ∀ f ∈ t.fragments kinds source, Fits f.content f.startLine f.endLine := by
  intro f hf
  rcases t.fragments_cases kinds source with ⟨_, he⟩ | ⟨_, he⟩
  · rw [he] at hf
    obtain ⟨i, _, hi, rfl⟩ := mem_boundaryFragments hf
    exact hp.fits_fragment hi
  · rw [he] at hf
    obtain rfl := List.mem_singleton.mp hf
    refine ⟨Int.le_refl 1, ?_⟩
    change (countLines source : Int) ≤ countLines source - 1 + 1
    omega

end Tree
end SourceChunking
