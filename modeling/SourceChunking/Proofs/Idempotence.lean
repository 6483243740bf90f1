import SourceChunking.Proofs.LineRuns

/-! # Covering twice

Covering stretches fragments over blank runs, downwards in most places and upwards in one. The order by
first and last lines survives this: a run lies behind the starts of all fragments before it, and in front
of all later ones. So the result is sorted, no line is left uncovered, and there is nothing to do for a
second covering.
-/
namespace SourceChunking
open Text

/-! ## What covering leaves alone -/

/-- Sorted fragments on lines of a text that span all of its lines. -/
structure Complete (source : Text) (fs : List Fragment) : Prop where
  onLines : ∀ f ∈ fs, Coverage.OnLines (countLines source) f
  sorted : fs.Pairwise fun f g => f.precedes g = true
  covers : Covers (fs.map Fragment.lineRange) 1 (countLines source)

section Complete
variable {source : Text} {fs : List Fragment}

theorem complete_whole (source : Text) : Complete source [Fragment.whole source] := by
  have hpos := countLines_pos source
  refine ⟨?_, List.pairwise_singleton _ _, covers_singleton _ _⟩
  intro f hf
  obtain rfl := List.mem_singleton.mp hf
  exact ⟨Int.le_refl 1, by change (1 : Int) ≤ countLines source; omega, Int.le_refl _⟩

theorem Complete.ne_nil (h : Complete source fs) : fs ≠ [] := by
  rintro rfl
  have hpos := countLines_pos source
  obtain ⟨r, hr, _⟩ := (h.covers 1).mpr ⟨Int.le_refl 1, by omega⟩
  cases hr

theorem Complete.spanned (h : Complete source fs) {n : Int} (h1 : 1 ≤ n)
    (hcount : n ≤ countLines source) : Spanned fs n := by
  obtain ⟨r, hr, hn⟩ := (h.covers n).mpr ⟨h1, hcount⟩
  obtain ⟨f, hf, rfl⟩ := List.mem_map.mp hr
  exact ⟨f, hf, hn⟩

theorem Complete.gaps_eq_nil (h : Complete source fs) : gaps fs (countLines source) = [] := by
  refine List.eq_nil_iff_forall_not_mem.mpr fun r hr => ?_
  have hgap := mem_gaps.mp hr
  have hfirst : r.first ≤ countLines source := hgap.ordered.trans hgap.le_count
  exact hgap.unspanned r.first (Int.le_refl _) hgap.ordered (h.spanned hgap.one_le hfirst)

/-- Without gaps there is nothing to put behind a fragment or in front of it. -/
theorem covering_of_no_gaps (h : gaps (fs.mergeSort byLines) (countLines source) = []) :
    covering fs source = fs.mergeSort byLines := by
  have hruns : ∀ k, runsAfter (fs.mergeSort byLines) source k = [] := by
    intro k
    rw [runsAfter, h]
    rfl
  have hopening : ∀ f, withOpening (fs.mergeSort byLines) source f = f := by
    intro f
    rw [withOpening, h]
    rfl
  have hblanks : ∀ k f, withBlanks (fs.mergeSort byLines) source k f = f := by
    intro k f
    rw [withBlanks, h]
    rfl
  simp only [covering, hruns, hopening, hblanks, ite_self, List.nil_append]
  rw [← List.map_eq_flatMap]
  exact List.zipIdx_map_fst 0 _

theorem Complete.fillGaps_eq (h : Complete source fs) : fillGaps fs source = fs := by
  have hsort : fs.mergeSort byLines = fs := by
    rw [byLines_eq_precedes]
    exact List.mergeSort_of_pairwise h.sorted
  rw [fillGaps_eq_covering h.ne_nil h.onLines, covering_of_no_gaps, hsort]
  rw [hsort]
  exact h.gaps_eq_nil

end Complete

/-! ## The order while fragments are placed -/

section Order
open Coverage
variable {source : Text} {count : Int}

/-- Taking in lines in front of all fragments to come keeps the order of all fragments. -/
theorem pairwise_of_takesIn {next stop : Int} {placed placed' todo : List Fragment}
    (ht : TakesIn (lines source) next stop placed placed') (hspan : Spanning placed next)
    (htodo : ∀ f ∈ todo, stop < f.startLine)
    (h : (placed.reverse ++ todo).Pairwise fun f g => f.precedes g = true) :
    (placed'.reverse ++ todo).Pairwise fun f g => f.precedes g = true := by
  cases ht with
  | met => exact h
  | apart hle =>
    obtain ⟨hplaced, hrest, hacross⟩ := List.pairwise_append.mp h
    rw [List.reverse_cons, List.append_assoc]
    refine List.pairwise_append.mpr ⟨hplaced, List.pairwise_cons.mpr ⟨?_, hrest⟩, ?_⟩
    · intro f hf
      have := htodo f hf
      exact Fragment.precedes_iff.mpr (Or.inl (by change next < f.startLine; omega))
    · intro p hp g hg
      rcases List.mem_cons.mp hg with rfl | hg
      · have := hspan.inside p (List.mem_reverse.mp hp)
        exact Fragment.precedes_iff.mpr (Or.inl (by change p.startLine < next; omega))
      · exact hacross p hp g hg
  | @joined p rest hle =>
    have hp := hspan.inside p (by simp)
    rw [List.reverse_cons, List.append_assoc] at h ⊢
    obtain ⟨hplaced, hrest, hacross⟩ := List.pairwise_append.mp h
    refine List.pairwise_append.mpr ⟨hplaced, List.pairwise_cons.mpr ⟨?_, ?_⟩, ?_⟩
    · intro f hf
      have := htodo f hf
      exact Fragment.precedes_iff.mpr (Or.inl (by change p.startLine < f.startLine; omega))
    · exact (List.pairwise_cons.mp hrest).2
    · intro q hq g hg
      rcases List.mem_cons.mp hg with rfl | hg
      · -- the latest fragment keeps its first line, and its last line moves down
        have := Fragment.precedes_iff.mp (hacross q hq p List.mem_cons_self)
        refine Fragment.precedes_iff.mpr ?_
        change q.startLine < p.startLine ∨ q.startLine = p.startLine ∧ q.endLine ≤ stop
        omega
      · exact hacross q hq g (List.mem_cons_of_mem p hg)

theorem pairwise_place {c : Coverage} {f : Fragment} {todo : List Fragment}
    (hc : Settled count c)
    (h : (c.placed.reverse ++ f :: todo).Pairwise fun f g => f.precedes g = true) :
    ((place (lines source) c f).placed.reverse ++ todo).Pairwise fun f g => f.precedes g = true := by
  have hlater := (List.pairwise_append.mp h).2.1
  have hstart : ∀ g ∈ f :: todo, f.startLine - 1 < g.startLine := by
    intro g hg
    rcases List.mem_cons.mp hg with rfl | hg
    · omega
    · have := Fragment.precedes_iff.mp ((List.pairwise_cons.mp hlater).1 g hg)
      omega
  rcases place_cases (lines source) f hc.closed with ⟨placed, ht, he⟩ | ⟨hp, hlt, _, he⟩
  · rw [he, List.reverse_cons, List.append_assoc]
    exact pairwise_of_takesIn ht hc.toSpanning hstart h
  · -- the fragment that opens the text starts before all others now
    rw [hc.next_eq_one hp] at hlt
    rw [he]
    refine List.pairwise_cons.mpr ⟨?_, (List.pairwise_cons.mp hlater).2⟩
    intro g hg
    have := hstart g (List.mem_cons_of_mem f hg)
    exact Fragment.precedes_iff.mpr (Or.inl (by change 1 < g.startLine; omega))

theorem pairwise_foldl_place (source : Text) {c : Coverage} {todo : List Fragment}
    (hc : Settled count c) (hon : ∀ f ∈ todo, OnLines count f)
    (h : (c.placed.reverse ++ todo).Pairwise fun f g => f.precedes g = true) :
    (todo.foldl (place (lines source)) c).placed.reverse.Pairwise fun f g => f.precedes g = true := by
  induction todo generalizing c with
  | nil => simpa using h
  | cons f todo ih =>
    obtain ⟨hf, hon⟩ := List.forall_mem_cons.mp hon
    exact ih (hc.place _ hf) hon (pairwise_place hc h)

end Order

section FillGaps
open Coverage
variable {source : Text} {fs : List Fragment}

theorem pairwise_fillGaps (hne : fs ≠ []) (hon : ∀ f ∈ fs, OnLines (countLines source) f) :
    (fillGaps fs source).Pairwise fun f g => f.precedes g = true := by
  have hempty : Settled (countLines source) Coverage.empty := settled_empty (by omega)
  have hmem : ∀ f ∈ Fragment.sortByLines fs, OnLines (countLines source) f := fun f hf =>
    hon f ((Fragment.sortByLines_perm fs).mem_iff.mp hf)
  have hrun := pairwise_foldl_place source hempty hmem (Fragment.pairwise_sortByLines fs)
  obtain ⟨placed, ht, he⟩ := exists_takesIn_fillGaps source hne
  rw [he, ← List.append_nil placed.reverse]
  refine pairwise_of_takesIn ht (settled_sortByLines hon).toSpanning (by simp) ?_
  rwa [List.append_nil]

theorem complete_fillGaps (hon : ∀ f ∈ fs, OnLines (countLines source) f) :
    Complete source (fillGaps fs source) := by
  by_cases hne : fs = []
  · rw [hne]
    exact complete_whole source
  · obtain ⟨honLines, hcovers⟩ := covers_fillGaps hne hon
    exact ⟨honLines, pairwise_fillGaps hne hon, hcovers⟩

end FillGaps

/-- Covering is idempotent, for fragments in any order that may share lines, and also for none. Its
results are the lists that are sorted and span all lines of the text, and these stay as they are. -/
theorem fillGaps_idempotent {fs : List Fragment} {source : Text}
    (hon : ∀ f ∈ fs, Coverage.OnLines (countLines source) f) :
    fillGaps (fillGaps fs source) source = fillGaps fs source ∧
      (fillGaps fs source = fs ↔ Complete source fs) := by
  have hcomplete := complete_fillGaps hon
  refine ⟨hcomplete.fillGaps_eq, fun he => ?_, Complete.fillGaps_eq⟩
  rwa [he] at hcomplete

/-- One fragment inside another, out of order. The blank line behind them joins the inner one, which
then ends last, and the blank line that opens the text joins the outer one. -/
def enclosedFragments : List Fragment :=
  [⟨"e", 6, 6, some "z", some 3, []⟩, ⟨"c", 3, 3, some "y", some 2, []⟩,
    ⟨"b\nc\nd", 2, 4, some "x", some 1, []⟩]

def enclosedSource : Text := "\nb\nc\nd\n \ne\n"

theorem enclosedFragments_idempotent :
    (∀ f ∈ enclosedFragments, Coverage.OnLines (countLines enclosedSource) f) ∧
    fillGaps enclosedFragments enclosedSource =
      [⟨"\nb\nc\nd", 1, 4, some "x", some 1, []⟩,
        ⟨"c\n ", 3, 5, some "y", some 2, []⟩, ⟨"e", 6, 6, some "z", some 3, []⟩] ∧
    fillGaps (fillGaps enclosedFragments enclosedSource) enclosedSource =
      fillGaps enclosedFragments enclosedSource ∧
    ¬Complete enclosedSource enclosedFragments := by
  have hon : ∀ f ∈ enclosedFragments, Coverage.OnLines (countLines enclosedSource) f := by decide
  obtain ⟨hidem, hfixed⟩ := fillGaps_idempotent hon
  refine ⟨hon, by decide, hidem, ?_⟩
  rw [← hfixed]
  decide

end SourceChunking
