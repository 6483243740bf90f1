import SourceChunking.Fragment.Coverage
import SourceChunking.Proofs.Offsets
import SourceChunking.Proofs.Refinement

/-! # What covering keeps

Fragments are placed one at a time, in the order of their lines. Each placing takes in the
run of lines before the fragment, if there is one, in one of three ways. Whatever the
fragments are, the placed ones stand for all lines accounted for so far. Room for lines and
the truth about them are kept as well; for the latter no fragment may end behind the start
of a later one.
-/
namespace SourceChunking
open Text

namespace Fragment

def lineRange (f : Fragment) : Int × Int := (f.startLine, f.endLine)

/-! ## Order -/

theorem precedes_iff {f g : Fragment} :
    f.precedes g = true ↔
      f.startLine < g.startLine ∨ f.startLine = g.startLine ∧ f.endLine ≤ g.endLine := by
  simp [precedes]

theorem precedes_trans (f g h : Fragment) (hfg : f.precedes g = true) (hgh : g.precedes h = true) :
    f.precedes h = true := by
  rw [precedes_iff] at *
  omega

theorem precedes_total (f g : Fragment) : (f.precedes g || g.precedes f) = true := by
  rw [Bool.or_eq_true, precedes_iff, precedes_iff]
  omega

theorem insertSorted_append {f : Fragment} {xs ys : List Fragment}
    (hx : ∀ g ∈ xs, f.precedes g = false) (hy : ∀ g ∈ ys.head?, f.precedes g = true) :
    insertSorted f (xs ++ ys) = xs ++ f :: ys := by
  induction xs with
  | nil =>
    cases ys with
    | nil => rfl
    | cons g rest =>
      have hg : f.precedes g = true := hy g (by simp)
      simp [insertSorted, hg]
  | cons x xs ih =>
    have hfx : f.precedes x = false := hx x (by simp)
    simp [insertSorted, hfx, ih (fun g hg => hx g (by simp [hg]))]

/-- Insertion one by one is the stable sort by lines. -/
theorem sortByLines_eq_mergeSort (fs : List Fragment) :
    sortByLines fs = fs.mergeSort precedes := by
  induction fs with
  | nil => simp [sortByLines]
  | cons f fs ih =>
    obtain ⟨xs, ys, hsort, hrest, hbefore⟩ := List.mergeSort_cons precedes_trans precedes_total f fs
    have hsorted : (xs ++ f :: ys).Pairwise fun a b => precedes a b = true := by
      rw [← hsort]
      exact List.pairwise_mergeSort precedes_trans precedes_total (f :: fs)
    rw [hsort, show sortByLines (f :: fs) = insertSorted f (sortByLines fs) from rfl, ih, hrest]
    refine insertSorted_append (fun g hg => by simpa using hbefore g hg) ?_
    intro g hg
    have := (List.pairwise_append.mp hsorted).2.1
    exact (List.pairwise_cons.mp this).1 g (List.mem_of_mem_head? hg)

theorem sortByLines_perm (fs : List Fragment) : (sortByLines fs).Perm fs := by
  rw [sortByLines_eq_mergeSort]
  exact List.mergeSort_perm fs precedes

theorem pairwise_sortByLines (fs : List Fragment) :
    (sortByLines fs).Pairwise fun f g => f.precedes g = true := by
  rw [sortByLines_eq_mergeSort]
  exact List.pairwise_mergeSort precedes_trans precedes_total fs

theorem pairwise_startLine_sortByLines (fs : List Fragment) :
    (sortByLines fs).Pairwise fun f g => f.startLine ≤ g.startLine := by
  refine (pairwise_sortByLines fs).imp fun {f g} h => ?_
  rw [precedes_iff] at h
  omega

theorem sortByLines_of_pairwise {fs : List Fragment}
    (h : fs.Pairwise fun f g => f.precedes g = true) : sortByLines fs = fs := by
  rw [sortByLines_eq_mergeSort]
  exact List.mergeSort_of_pairwise h

end Fragment

namespace Coverage

/-! ## Gaps -/

/-- The text of the lines from `start` to `stop`. -/
def gapText (lines : List Text) (start stop : Int) : Text := unlines (span lines (start - 1) stop)

/-- A run of lines becomes a fragment, joins the fragment before it, or waits for the next. -/
theorem takeGap_cases (lines : List Text) (start stop : Int) (c : Coverage) :
    (allBlank (gapText lines start stop) = false ∧ takeGap lines start stop c =
      { c with placed := Fragment.plain (gapText lines start stop) start stop :: c.placed }) ∨
    (allBlank (gapText lines start stop) = true ∧ ∃ p rest, c.placed = p :: rest ∧
      takeGap lines start stop c =
        { c with placed := absorb p (gapText lines start stop) stop :: rest }) ∨
    (allBlank (gapText lines start stop) = true ∧ c.placed = [] ∧
      takeGap lines start stop c = { c with opening := some (gapText lines start stop) }) := by
  cases hb : allBlank (gapText lines start stop) with
  | false =>
    refine Or.inl ⟨rfl, ?_⟩
    rw [takeGap, ← gapText, hb]
    rfl
  | true =>
    right
    cases hp : c.placed with
    | nil =>
      refine Or.inr ⟨rfl, rfl, ?_⟩
      rw [takeGap, ← gapText, hb, hp]
      rfl
    | cons p rest =>
      refine Or.inl ⟨rfl, p, rest, rfl, ?_⟩
      rw [takeGap, ← gapText, hb, hp]
      rfl

theorem gapText_eq (lines : List Text) {start stop : Int} (h1 : 1 ≤ start) (hle : start ≤ stop) :
    gapText lines start stop =
      unlines ((lines.drop (start - 1).toNat).take (stop + 1 - start).toNat) := by
  rw [gapText, span_of_nonneg lines (by omega) (by omega)]
  congr 2
  omega

section Source
variable {source : Text} {start stop : Int}

theorem lines_gapText (h1 : 1 ≤ start) (hle : start ≤ stop) (hstop : stop ≤ countLines source) :
    lines (gapText (lines source) start stop) =
      ((lines source).drop (start - 1).toNat).take (stop + 1 - start).toNat := by
  have hlen := countLines_le_length_lines source
  rw [gapText_eq _ h1 hle, lines_unlines]
  · intro line hm
    exact newline_notMem_of_mem_lines (List.mem_of_mem_drop (List.mem_of_mem_take hm))
  · intro he
    have := congrArg List.length he
    simp only [List.length_take, List.length_drop, List.length_nil] at this
    omega

theorem newlines_gapText (h1 : 1 ≤ start) (hle : start ≤ stop) (hstop : stop ≤ countLines source) :
    (newlines (gapText (lines source) start stop) : Int) = stop - start := by
  have hlen := countLines_le_length_lines source
  have := congrArg List.length (lines_gapText h1 hle hstop)
  rw [length_lines, List.length_take, List.length_drop] at this
  omega

theorem attributed_gapText (h1 : 1 ≤ start) (hle : start ≤ stop)
    (hstop : stop ≤ countLines source) :
    Attributed source (gapText (lines source) start stop) start stop := by
  have hcount := countLines_le_length_lines (gapText (lines source) start stop)
  have hn := newlines_gapText h1 hle hstop
  rw [length_lines] at hcount
  refine ⟨⟨h1, by omega⟩, ?_⟩
  intro j line hj
  rw [lines_gapText h1 hle hstop, List.getElem?_take] at hj
  split_ifs at hj
  rw [List.getElem?_drop] at hj
  exact ⟨line, hj, .inl List.infix_rfl⟩

end Source

/-! ## Joined contents -/

theorem absorb_content (f : Fragment) (gap : Text) (stop : Int) :
    (absorb f gap stop).content = dropFinalNewline f.content ++ .scalar '\n' :: gap := by
  rcases dropFinalNewline_cases f.content with ⟨he, h⟩ | ⟨he, h⟩
  · simp only [absorb, h, ↓reduceIte, List.append_nil]
    conv_lhs => rw [he]
    simp
  · simp [absorb, h, he]

theorem countLines_join_le (p q : Text) :
    countLines (p ++ .scalar '\n' :: q) ≤ newlines p + 1 + countLines q := by
  rw [countLines_append p (by simp)]
  cases q with
  | nil =>
    have : countLines [.scalar '\n'] = 1 := rfl
    omega
  | cons c q =>
    rw [show .scalar '\n' :: c :: q = [.scalar '\n'] ++ (c :: q) from rfl,
      countLines_append [.scalar '\n'] (by simp)]
    simp only [newlines_cons_newline, newlines_nil]
    omega

theorem fits_absorb {f : Fragment} {gap : Text} {next stop : Int}
    (hf : Fits f.content f.startLine f.endLine) (hlt : f.endLine < next)
    (hg : Fits gap next stop) :
    Fits (absorb f gap stop).content (absorb f gap stop).startLine (absorb f gap stop).endLine := by
  refine ⟨hf.one_le, ?_⟩
  have hjoin := countLines_join_le (dropFinalNewline f.content) gap
  have hcount := hf.lines_le
  have hgap := hg.lines_le
  rw [countLines_eq] at hcount
  rw [absorb_content]
  change _ ≤ stop - f.startLine + 1
  omega

theorem fits_prepend {f : Fragment} {gap : Text} (hf : Fits f.content f.startLine f.endLine)
    (hg : (newlines gap : Int) = f.startLine - 1 - 1) :
    Fits (prepend (some gap) f).content (prepend (some gap) f).startLine
      (prepend (some gap) f).endLine := by
  refine ⟨Int.le_refl 1, ?_⟩
  have hjoin := countLines_join_le gap f.content
  have hcount := hf.lines_le
  simp only [prepend, List.append_assoc, List.cons_append, List.nil_append]
  omega

/-- A fragment whose content has as many lines as it stands for can be joined by the lines
that follow it. -/
theorem attributed_absorb {source : Text} {f : Fragment} {gap : Text} {next stop : Int}
    (hf : Attributed source f.content f.startLine f.endLine) (hnext : f.endLine + 1 = next)
    (hexact : (countLines f.content : Int) = f.endLine - f.startLine + 1)
    (hg : Attributed source gap next stop) :
    Attributed source (absorb f gap stop).content (absorb f gap stop).startLine
      (absorb f gap stop).endLine := by
  refine ⟨fits_absorb hf.toFits (by omega) hg.toFits, ?_⟩
  rw [absorb_content]
  change ReadFrom source (f.startLine - 1).toNat _
  have hone := hf.one_le
  have hbody : ReadFrom source (f.startLine - 1).toNat (dropFinalNewline f.content) := by
    have hreads := hf.reads
    rcases dropFinalNewline_cases f.content with ⟨he, _⟩ | ⟨he, _⟩
    · rw [he] at hreads
      exact ReadFrom.part (x := []) (y := [.scalar '\n']) hreads
    · rwa [he]
  rw [countLines_eq] at hexact
  refine hbody.join ?_
  rw [show (f.startLine - 1).toNat + (newlines (dropFinalNewline f.content) + 1) =
    (next - 1).toNat by omega]
  exact hg.reads

theorem attributed_prepend {source : Text} {f : Fragment} {gap : Text}
    (hf : Attributed source f.content f.startLine f.endLine)
    (hg : Attributed source gap 1 (f.startLine - 1))
    (hn : (newlines gap : Int) = f.startLine - 1 - 1) :
    Attributed source (prepend (some gap) f).content (prepend (some gap) f).startLine
      (prepend (some gap) f).endLine := by
  refine ⟨fits_prepend hf.toFits hn, ?_⟩
  change ReadFrom source 0 (gap ++ [.scalar '\n'] ++ f.content)
  rw [List.append_assoc]
  refine ReadFrom.join hg.reads ?_
  rw [show (0 : Nat) + (newlines gap + 1) = (f.startLine - 1).toNat by omega]
  exact hf.reads

theorem countLines_prepend {f : Fragment} {gap : Text} (hne : f.content ≠ [])
    (hexact : (countLines f.content : Int) = f.endLine - f.startLine + 1)
    (hn : (newlines gap : Int) = f.startLine - 1 - 1) :
    (countLines (prepend (some gap) f).content : Int) =
      (prepend (some gap) f).endLine - (prepend (some gap) f).startLine + 1 := by
  change (countLines (gap ++ [.scalar '\n'] ++ f.content) : Int) = f.endLine - 1 + 1
  rw [countLines_append _ hne, newlines_append]
  simp only [newlines_cons_newline, newlines_nil]
  omega

/-! ## Steps -/

/-- How the placed fragments take in the lines from `start` to `stop`: there are none, they
become a fragment, or they are blank and join the latest one. -/
inductive TakesIn (lines : List Text) (start stop : Int) : List Fragment → List Fragment → Prop
  | met {placed : List Fragment} (hlt : stop < start) : TakesIn lines start stop placed placed
  | apart {placed : List Fragment} (hle : start ≤ stop)
      (hb : allBlank (gapText lines start stop) = false) :
      TakesIn lines start stop placed
        (Fragment.plain (gapText lines start stop) start stop :: placed)
  | joined {p : Fragment} {rest : List Fragment} (hle : start ≤ stop)
      (hb : allBlank (gapText lines start stop) = true) :
      TakesIn lines start stop (p :: rest) (absorb p (gapText lines start stop) stop :: rest)

theorem place_cases (lines : List Text) (f : Fragment) {c : Coverage} (hc : c.opening = none) :
    (∃ placed, TakesIn lines c.next (f.startLine - 1) c.placed placed ∧
      place lines c f = ⟨f :: placed, none, max c.next (f.endLine + 1)⟩) ∨
    (c.placed = [] ∧ c.next < f.startLine ∧
      allBlank (gapText lines c.next (f.startLine - 1)) = true ∧
      place lines c f = ⟨[prepend (some (gapText lines c.next (f.startLine - 1))) f], none,
        max c.next (f.endLine + 1)⟩) := by
  unfold place
  by_cases hlt : c.next < f.startLine
  · rw [if_pos hlt]
    rcases takeGap_cases lines c.next (f.startLine - 1) c with
      ⟨hb, he⟩ | ⟨hb, p, rest, hp, he⟩ | ⟨hb, hp, he⟩
    · exact Or.inl ⟨_, .apart (by omega) hb, by rw [he, hc]; rfl⟩
    · exact Or.inl ⟨_, by rw [hp]; exact .joined (by omega) hb, by rw [he, hc]; rfl⟩
    · exact Or.inr ⟨hp, hlt, hb, by rw [he, hp]⟩
  · rw [if_neg hlt]
    exact Or.inl ⟨c.placed, .met (by omega), by simp only [hc]; rfl⟩

theorem finish_cases (lines : List Text) (count : Int) {c : Coverage} (hne : c.placed ≠ []) :
    ∃ placed, TakesIn lines c.next count c.placed placed ∧
      finish lines count c = placed.reverse := by
  unfold finish
  by_cases hle : c.next ≤ count
  · rw [if_pos hle]
    rcases takeGap_cases lines c.next count c with ⟨hb, he⟩ | ⟨hb, p, rest, hp, he⟩ | ⟨_, hp, _⟩
    · exact ⟨_, .apart hle hb, by rw [he]⟩
    · exact ⟨_, by rw [hp]; exact .joined hle hb, by rw [he]⟩
    · exact absurd hp hne
  · rw [if_neg hle]
    exact ⟨c.placed, .met (by omega), rfl⟩

theorem place_placed_ne_nil (lines : List Text) (c : Coverage) (f : Fragment) :
    (place lines c f).placed ≠ [] := List.cons_ne_nil _ _

/-! ## All lines before the next are accounted for -/

/-- The placed fragments stand for the lines before `next`. -/
structure Spanning (placed : List Fragment) (next : Int) : Prop where
  one_le : 1 ≤ next
  inside : ∀ p ∈ placed, 1 ≤ p.startLine ∧ p.startLine ≤ p.endLine ∧ p.endLine < next
  covers : Covers (placed.map Fragment.lineRange) 1 (next - 1)

theorem spanning_nil : Spanning [] 1 := by
  refine ⟨Int.le_refl 1, by simp, ?_⟩
  intro n
  simp
  omega

theorem Spanning.push {placed : List Fragment} {next : Int} {f : Fragment}
    (h : Spanning placed next) (h1 : 1 ≤ f.startLine) (hle : f.startLine ≤ f.endLine)
    (hmeet : f.startLine ≤ next) : Spanning (f :: placed) (max next (f.endLine + 1)) := by
  have hone := h.one_le
  refine ⟨by omega, ?_, ?_⟩
  · intro p hp
    rcases List.mem_cons.mp hp with rfl | hp
    · omega
    · have := h.inside p hp
      omega
  · intro n
    have hn := h.covers n
    simp only [List.map_cons, List.mem_cons, exists_eq_or_imp, hn]
    simp only [Fragment.lineRange]
    omega

theorem Spanning.takesIn {lines : List Text} {next stop : Int} {placed placed' : List Fragment}
    (h : Spanning placed next) (ht : TakesIn lines next stop placed placed') :
    Spanning placed' (max next (stop + 1)) := by
  have hone := h.one_le
  cases ht with
  | met hlt => rwa [Int.max_eq_left (by omega)]
  | apart hle => exact h.push (f := Fragment.plain _ next stop) hone hle (Int.le_refl _)
  | @joined p rest hle =>
    have hp := h.inside p (by simp)
    -- the range of the latest fragment only grows over lines that are covered or taken in
    refine ⟨by omega, ?_, ?_⟩
    · intro q hq
      rcases List.mem_cons.mp hq with rfl | hq
      · exact ⟨hp.1, by change p.startLine ≤ stop; omega, by change stop < _; omega⟩
      · have := h.inside q (by simp [hq])
        omega
    · intro n
      have hn := h.covers n
      simp only [List.map_cons, List.mem_cons, exists_eq_or_imp] at hn ⊢
      simp only [Fragment.lineRange, absorb] at hn ⊢
      constructor
      · rintro (h' | h')
        · omega
        · have := hn.mp (Or.inr h')
          omega
      · intro hr
        by_cases hold : 1 ≤ n ∧ n ≤ next - 1
        · rcases hn.mpr hold with h' | h'
          · exact Or.inl (by omega)
          · exact Or.inr h'
        · exact Or.inl (by omega)

/-- A fragment on lines of a text. -/
structure OnLines (count : Int) (f : Fragment) : Prop where
  one_le : 1 ≤ f.startLine
  ordered : f.startLine ≤ f.endLine
  le_count : f.endLine ≤ count

instance (count : Int) (f : Fragment) : Decidable (OnLines count f) :=
  decidable_of_iff (1 ≤ f.startLine ∧ f.startLine ≤ f.endLine ∧ f.endLine ≤ count)
    ⟨fun ⟨h1, hle, hcount⟩ => ⟨h1, hle, hcount⟩, fun h => ⟨h.one_le, h.ordered, h.le_count⟩⟩

/-- Between two placings no run waits, and what is placed stands for the lines so far. -/
structure Settled (count : Int) (c : Coverage) : Prop extends Spanning c.placed c.next where
  closed : c.opening = none
  next_le : c.next ≤ count + 1

theorem Spanning.next_eq_one {placed : List Fragment} {next : Int} (h : Spanning placed next)
    (hp : placed = []) : next = 1 := by
  have hone := h.one_le
  have hcovered := (h.covers (next - 1)).mpr
  simp only [hp, List.map_nil, List.not_mem_nil, false_and, exists_false, imp_false] at hcovered
  omega

theorem settled_empty {count : Int} (h : 0 ≤ count) : Settled count empty :=
  ⟨spanning_nil, rfl, by change (1 : Int) ≤ count + 1; omega⟩

theorem Settled.place {count : Int} {c : Coverage} {f : Fragment} (lines : List Text)
    (h : Settled count c) (hf : OnLines count f) : Settled count (place lines c f) := by
  have ⟨h1, hle, hcount⟩ := hf
  have hone := h.one_le
  have hnext := h.next_le
  rcases place_cases lines f h.closed with ⟨placed, ht, he⟩ | ⟨hp, hlt, _, he⟩
  · have hspan := (h.toSpanning.takesIn ht).push h1 hle (by omega)
    rw [he]
    refine ⟨?_, rfl, by change max _ _ ≤ _; omega⟩
    change Spanning _ (max c.next (f.endLine + 1))
    rwa [show max (max c.next (f.startLine - 1 + 1)) (f.endLine + 1) =
      max c.next (f.endLine + 1) by omega] at hspan
  · rw [he, h.next_eq_one hp]
    refine ⟨?_, rfl, by change max _ _ ≤ _; omega⟩
    exact spanning_nil.push (f := prepend _ f) (Int.le_refl 1) (by change 1 ≤ f.endLine; omega)
      (Int.le_refl 1)

theorem Settled.foldl {count : Int} {c : Coverage} {fs : List Fragment} (lines : List Text)
    (h : Settled count c) (hfs : ∀ f ∈ fs, OnLines count f) :
    Settled count (fs.foldl (Coverage.place lines) c) :=
  List.foldlRecOn fs (Coverage.place lines) h fun _ hc f hf => hc.place lines (hfs f hf)

theorem foldl_place_placed_ne_nil (lines : List Text) (c : Coverage) {fs : List Fragment}
    (hne : fs ≠ []) : (fs.foldl (place lines) c).placed ≠ [] := by
  obtain ⟨front, last, rfl⟩ := (List.eq_nil_or_concat fs).resolve_left hne
  rw [List.concat_eq_append, List.foldl_append]
  exact place_placed_ne_nil lines _ last

/-! ## What every placed fragment has -/

/-- A property of fragments that the runs of a text and the joining of runs have and keep. -/
structure Lasting (source : Text) (P : Fragment → Prop) : Prop where
  apart : ∀ {start stop : Int}, 1 ≤ start → start ≤ stop → stop ≤ countLines source →
    P (Fragment.plain (gapText (lines source) start stop) start stop)
  absorb : ∀ {f : Fragment} {next stop : Int}, P f → 1 ≤ f.startLine → f.endLine < next →
    1 ≤ next → next ≤ stop → stop ≤ countLines source →
    P (absorb f (gapText (lines source) next stop) stop)
  prepend : ∀ {f : Fragment}, P f → 1 < f.startLine → f.startLine ≤ countLines source →
    P (prepend (some (gapText (lines source) 1 (f.startLine - 1))) f)

section Lasting
variable {source : Text} {P : Fragment → Prop}

theorem Lasting.takesIn {next stop : Int} {placed placed' : List Fragment}
    (hP : Lasting source P) (hspan : Spanning placed next) (hstop : stop ≤ countLines source)
    (ht : TakesIn (lines source) next stop placed placed') (h : ∀ p ∈ placed, P p) :
    ∀ p ∈ placed', P p := by
  have hone := hspan.one_le
  cases ht with
  | met => exact h
  | apart hle => exact List.forall_mem_cons.mpr ⟨hP.apart hone hle hstop, h⟩
  | @joined p rest hle =>
    have hp := hspan.inside p (by simp)
    obtain ⟨hhead, hrest⟩ := List.forall_mem_cons.mp h
    exact List.forall_mem_cons.mpr ⟨hP.absorb hhead hp.1 hp.2.2 hone hle hstop, hrest⟩

theorem Lasting.place {c : Coverage} {f : Fragment} (hP : Lasting source P)
    (hc : Settled (countLines source) c) (hf : OnLines (countLines source) f) (hPf : P f)
    (h : ∀ p ∈ c.placed, P p) : ∀ p ∈ (place (lines source) c f).placed, P p := by
  have ⟨h1, hle, hcount⟩ := hf
  rcases place_cases (lines source) f hc.closed with ⟨placed, ht, he⟩ | ⟨hp, hlt, _, he⟩
  · rw [he]
    exact List.forall_mem_cons.mpr ⟨hPf, hP.takesIn hc.toSpanning (by omega) ht h⟩
  · have hnext := hc.next_eq_one hp
    rw [hnext] at he hlt
    rw [he]
    exact List.forall_mem_cons.mpr ⟨hP.prepend hPf hlt (by omega), by simp⟩

theorem Lasting.foldl {c : Coverage} {fs : List Fragment} (hP : Lasting source P)
    (hc : Settled (countLines source) c) (hon : ∀ f ∈ fs, OnLines (countLines source) f)
    (hfs : ∀ f ∈ fs, P f) (h : ∀ p ∈ c.placed, P p) :
    ∀ p ∈ (fs.foldl (Coverage.place (lines source)) c).placed, P p := by
  induction fs generalizing c with
  | nil => exact h
  | cons f fs ih =>
    obtain ⟨hf, hon⟩ := List.forall_mem_cons.mp hon
    obtain ⟨hPf, hfs⟩ := List.forall_mem_cons.mp hfs
    exact ih (hc.place _ hf) hon hfs (hP.place hc hf hPf h)

end Lasting

theorem lasting_fits (source : Text) :
    Lasting source fun f => Fits f.content f.startLine f.endLine where
  apart h1 hle hstop := (attributed_gapText h1 hle hstop).toFits
  absorb hf _ hlt h1 hle hstop := fits_absorb hf hlt (attributed_gapText h1 hle hstop).toFits
  prepend hf hlt hcount := fits_prepend hf (newlines_gapText (by omega) (by omega) (by omega))

/-! ## True line numbers -/

end Coverage

/-- A fragment that was cut out of the source: it holds something and has as many lines as it
stands for. -/
structure Fragment.CutFrom (source : Text) (f : Fragment) : Prop extends
    Attributed source f.content f.startLine f.endLine where
  ne_nil : f.content ≠ []
  exact : (countLines f.content : Int) = f.endLine - f.startLine + 1

namespace Coverage

/-- All placed fragments read the source where they say, and the latest one ends right before
the next line. -/
structure Faithful (source : Text) (placed : List Fragment) (next : Int) : Prop where
  attributed : ∀ p ∈ placed, Attributed source p.content p.startLine p.endLine
  exact : ∀ p ∈ placed.head?,
    p.endLine + 1 = next ∧ (countLines p.content : Int) = p.endLine - p.startLine + 1

section Faithful
variable {source : Text}

theorem Faithful.takesIn {next stop : Int} {placed placed' : List Fragment}
    (h : Faithful source placed next) (hone : 1 ≤ next) (hstop : stop ≤ countLines source)
    (ht : TakesIn (lines source) next stop placed placed') :
    ∀ p ∈ placed', Attributed source p.content p.startLine p.endLine := by
  cases ht with
  | met => exact h.attributed
  | apart hle => exact List.forall_mem_cons.mpr ⟨attributed_gapText hone hle hstop, h.attributed⟩
  | @joined p rest hle =>
    obtain ⟨hp, hrest⟩ := List.forall_mem_cons.mp h.attributed
    obtain ⟨hnext, hexact⟩ := h.exact p rfl
    refine List.forall_mem_cons.mpr ⟨?_, hrest⟩
    exact attributed_absorb hp hnext hexact (attributed_gapText hone hle hstop)

theorem Faithful.place {c : Coverage} {f : Fragment} (h : Faithful source c.placed c.next)
    (hc : Settled (countLines source) c) (hf : f.CutFrom source)
    (hcount : f.endLine ≤ countLines source) :
    Faithful source (place (lines source) c f).placed (f.endLine + 1) := by
  have hle := hf.ordered
  rcases place_cases (lines source) f hc.closed with ⟨placed, ht, he⟩ | ⟨hp, hlt, _, he⟩
  · rw [he]
    refine ⟨List.forall_mem_cons.mpr ⟨hf.toAttributed, h.takesIn hc.one_le (by omega) ht⟩, ?_⟩
    intro p hp
    obtain rfl : f = p := by simpa using hp
    exact ⟨rfl, hf.exact⟩
  · rw [hc.next_eq_one hp] at he hlt
    have hn : (newlines (gapText (lines source) 1 (f.startLine - 1)) : Int) =
        f.startLine - 1 - 1 := newlines_gapText (by omega) (by omega) (by omega)
    have hgap : Attributed source (gapText (lines source) 1 (f.startLine - 1)) 1
        (f.startLine - 1) := attributed_gapText (by omega) (by omega) (by omega)
    rw [he]
    refine ⟨List.forall_mem_cons.mpr ⟨attributed_prepend hf.toAttributed hgap hn, by simp⟩, ?_⟩
    intro p hp
    obtain rfl : prepend _ f = p := by simpa using hp
    exact ⟨rfl, countLines_prepend hf.ne_nil hf.exact hn⟩

/-- No fragment may start before the last line accounted for when its turn comes: the latest
fragment would not be the one that reaches furthest. -/
theorem Faithful.foldl {c : Coverage} {fs : List Fragment} (h : Faithful source c.placed c.next)
    (hc : Settled (countLines source) c) (hon : ∀ f ∈ fs, OnLines (countLines source) f)
    (hcut : ∀ f ∈ fs, f.CutFrom source) (hmeet : ∀ f ∈ fs, c.next ≤ f.startLine + 1)
    (horder : fs.Pairwise fun f g => f.endLine ≤ g.startLine) :
    Faithful source (fs.foldl (Coverage.place (lines source)) c).placed
      (fs.foldl (Coverage.place (lines source)) c).next := by
  induction fs generalizing c with
  | nil => exact h
  | cons f fs ih =>
    obtain ⟨hfon, hon⟩ := List.forall_mem_cons.mp hon
    obtain ⟨hfcut, hcut⟩ := List.forall_mem_cons.mp hcut
    obtain ⟨hfmeet, hmeet⟩ := List.forall_mem_cons.mp hmeet
    obtain ⟨hforder, horder⟩ := List.pairwise_cons.mp horder
    have hnext : (Coverage.place (lines source) c f).next = f.endLine + 1 := by
      have := hfon.ordered
      have hmax : (Coverage.place (lines source) c f).next = max c.next (f.endLine + 1) := by
        rcases place_cases (lines source) f hc.closed with ⟨_, _, he⟩ | ⟨_, _, _, he⟩ <;> rw [he]
      omega
    refine ih ?_ (hc.place _ hfon) hon hcut ?_ horder
    · rw [hnext]
      exact h.place hc hfcut hfon.le_count
    · intro g hg
      have := hforder g hg
      omega

end Faithful
end Coverage

section FillGaps
open Coverage
variable {source : Text} {fs : List Fragment}

theorem fillGaps_eq (hne : fs ≠ []) :
    fillGaps fs source = ((Fragment.sortByLines fs).foldl (place (lines source)) empty).finish
      (lines source) (countLines source) := by
  have hf : fs.isEmpty = false := by simpa using hne
  simp [fillGaps, hf]

theorem exists_takesIn_fillGaps (source : Text) (hne : fs ≠ []) :
    ∃ placed, TakesIn (lines source)
        ((Fragment.sortByLines fs).foldl (place (lines source)) empty).next (countLines source)
        ((Fragment.sortByLines fs).foldl (place (lines source)) empty).placed placed ∧
      fillGaps fs source = placed.reverse := by
  have hsorted : Fragment.sortByLines fs ≠ [] := by
    intro he
    have := (Fragment.sortByLines_perm fs).symm
    rw [he] at this
    exact hne this.eq_nil
  rw [fillGaps_eq hne]
  exact finish_cases _ _ (foldl_place_placed_ne_nil _ _ hsorted)

theorem settled_sortByLines (h : ∀ f ∈ fs, OnLines (countLines source) f) :
    Settled (countLines source)
      ((Fragment.sortByLines fs).foldl (place (lines source)) empty) := by
  have hempty : Settled (countLines source) empty := settled_empty (by omega)
  exact hempty.foldl (lines source) fun f hf =>
    h f ((Fragment.sortByLines_perm fs).mem_iff.mp hf)

/-- Covering yields fragments that stand for exactly the lines of the text. -/
theorem covers_fillGaps (hne : fs ≠ []) (h : ∀ f ∈ fs, OnLines (countLines source) f) :
    (∀ g ∈ fillGaps fs source, OnLines (countLines source) g) ∧
      Covers ((fillGaps fs source).map Fragment.lineRange) 1 (countLines source) := by
  have hset := settled_sortByLines h
  obtain ⟨placed, ht, he⟩ := exists_takesIn_fillGaps source hne
  have hspan := hset.toSpanning.takesIn ht
  have hnext := hset.next_le
  rw [he]
  refine ⟨?_, ?_⟩
  · intro g hg
    have := hspan.inside g (List.mem_reverse.mp hg)
    exact ⟨this.1, this.2.1, by omega⟩
  · intro n
    have := hspan.covers n
    rw [show max _ ((countLines source : Int) + 1) - 1 = countLines source by omega] at this
    simpa using this

theorem forall_mem_fillGaps {P : Fragment → Prop} (hP : Lasting source P) (hne : fs ≠ [])
    (h : ∀ f ∈ fs, OnLines (countLines source) f) (hfs : ∀ f ∈ fs, P f) :
    ∀ g ∈ fillGaps fs source, P g := by
  obtain ⟨placed, ht, he⟩ := exists_takesIn_fillGaps source hne
  have hmem : ∀ f ∈ Fragment.sortByLines fs, f ∈ fs := fun f =>
    (Fragment.sortByLines_perm fs).mem_iff.mp
  have hrun := hP.foldl (settled_empty (by omega)) (fun f hf => h f (hmem f hf))
    (fun f hf => hfs f (hmem f hf)) (by simp [empty])
  rw [he]
  intro g hg
  exact hP.takesIn (settled_sortByLines h).toSpanning (Int.le_refl _) ht hrun g
    (List.mem_reverse.mp hg)

end FillGaps
end SourceChunking
