import Mathlib.Data.Int.Range
import Mathlib.Data.List.Nodup
import Mathlib.Data.List.ReduceOption
import Mathlib.Data.Prod.Lex
import SourceChunking.Proofs.Coverage

/-! # Covering by maximal runs

Covering goes through the sorted fragments once. Here its result is described from the set of
lines that no fragment spans: this set falls into maximal runs, and each run has its place
behind the fragments that start before it. Fragments may share lines, so the fragment before
a run need not be the one that reaches up to it.
-/
namespace SourceChunking
open Text

/-! ## Runs of lines that no fragment spans -/

structure LineRun where
  first : Int
  last : Int
deriving Repr, DecidableEq

def Spanned (fs : List Fragment) (n : Int) : Prop := ∃ f ∈ fs, f.startLine ≤ n ∧ n ≤ f.endLine

instance (fs : List Fragment) (n : Int) : Decidable (Spanned fs n) :=
  inferInstanceAs (Decidable (∃ f ∈ fs, _))

namespace LineRun

/-- A run of lines of a text that no fragment spans and that cannot be made longer. -/
structure IsGap (fs : List Fragment) (count : Nat) (r : LineRun) : Prop where
  one_le : 1 ≤ r.first
  ordered : r.first ≤ r.last
  le_count : r.last ≤ count
  unspanned : ∀ n, r.first ≤ n → n ≤ r.last → ¬Spanned fs n
  before : r.first = 1 ∨ Spanned fs (r.first - 1)
  after : r.last = count ∨ Spanned fs (r.last + 1)

theorem isGap_iff {fs : List Fragment} {count : Nat} {r : LineRun} :
    r.IsGap fs count ↔ 1 ≤ r.first ∧ r.first ≤ r.last ∧ r.last ≤ count ∧
      (∀ n, r.first ≤ n → n ≤ r.last → ¬Spanned fs n) ∧
      (r.first = 1 ∨ Spanned fs (r.first - 1)) ∧ (r.last = count ∨ Spanned fs (r.last + 1)) :=
  ⟨fun ⟨a, b, c, d, e, f⟩ => ⟨a, b, c, d, e, f⟩, fun ⟨a, b, c, d, e, f⟩ => ⟨a, b, c, d, e, f⟩⟩

instance (fs : List Fragment) (count : Nat) (r : LineRun) : Decidable (r.IsGap fs count) :=
  decidable_of_iff' _ isGap_iff

def text (source : Text) (r : LineRun) : Text :=
  unlines (((lines source).drop (r.first - 1).toNat).take (r.last + 1 - r.first).toNat)

def isBlank (source : Text) (r : LineRun) : Bool := allBlank (r.text source)

/-- How many fragments start before the run. -/
def rank (fs : List Fragment) (r : LineRun) : Nat := fs.countP fun f => f.startLine < r.first

/-- Puts the run behind a fragment, on lines of its own. -/
def appendTo (source : Text) (f : Fragment) (r : LineRun) : Fragment :=
  { f with
    content := (if endsLine f.content then f.content else f.content ++ [.scalar '\n']) ++ r.text source
    endLine := r.last }

def prependTo (source : Text) (f : Fragment) (r : LineRun) : Fragment :=
  { f with content := r.text source ++ .scalar '\n' :: f.content, startLine := 1 }

end LineRun

def gaps (fs : List Fragment) (count : Nat) : List LineRun :=
  ((Int.range 1 (count + 1)).flatMap fun first =>
    (Int.range 1 (count + 1)).map fun last => ⟨first, last⟩).filter fun r => r.IsGap fs count

theorem mem_gaps {fs : List Fragment} {count : Nat} {r : LineRun} :
    r ∈ gaps fs count ↔ r.IsGap fs count := by
  simp only [gaps, List.mem_filter, List.mem_flatMap, List.mem_map, Int.mem_range_iff,
    decide_eq_true_eq]
  refine ⟨And.right, fun h => ⟨?_, h⟩⟩
  have ⟨h1, hle, hcount, _, _, _⟩ := h
  exact ⟨r.first, by omega, r.last, by omega, rfl⟩

theorem nodup_gaps (fs : List Fragment) (count : Nat) : (gaps fs count).Nodup := by
  have hrange : (Int.range 1 (count + 1)).Nodup :=
    List.Nodup.map (fun a b h => Int.ofNat_inj.mp (Int.add_left_cancel h)) List.nodup_range
  refine List.Nodup.filter _ (List.nodup_flatMap.mpr ⟨?_, ?_⟩)
  · intro first _
    exact List.Nodup.map (fun a b h => by simpa using h) hrange
  · refine hrange.imp ?_
    intro a b hne r ha hb
    simp only [List.mem_map] at ha hb
    obtain ⟨_, _, rfl⟩ := ha
    obtain ⟨_, _, h⟩ := hb
    exact hne (congrArg LineRun.first h).symm

/-! ## The description -/

/-- Fragments in the order of their first lines, then of their last ones. -/
def byLines (f g : Fragment) : Bool := toLex f.lineRange ≤ toLex g.lineRange

section Description
variable (sorted : List Fragment) (source : Text)

/-- The runs with something on them that stand behind the first `k` fragments. -/
def runsAfter (k : Nat) : List Fragment :=
  ((gaps sorted (countLines source)).filter fun r => !r.isBlank source && r.rank sorted == k).map
    fun r => Fragment.plain (r.text source) r.first r.last

/-- The first fragment takes in a blank run that opens the text. -/
def withOpening (f : Fragment) : Fragment :=
  ((gaps sorted (countLines source)).filter fun r => r.isBlank source && r.first == 1).foldl
    (LineRun.prependTo source) f

/-- The last of the first `k` fragments takes in any other blank run behind them. -/
def withBlanks (k : Nat) (f : Fragment) : Fragment :=
  ((gaps sorted (countLines source)).filter fun r =>
    (r.isBlank source && r.first != 1) && r.rank sorted == k).foldl (LineRun.appendTo source) f

end Description

/-- The fragments and the runs between them. -/
def covering (fs : List Fragment) (source : Text) : List Fragment :=
  let sorted := fs.mergeSort byLines
  runsAfter sorted source 0 ++ sorted.zipIdx.flatMap fun (f, k) =>
    withBlanks sorted source (k + 1) (if k = 0 then withOpening sorted source f else f) ::
      runsAfter sorted source (k + 1)

/-! ## The run behind the first fragments -/

theorem byLines_eq_precedes : byLines = Fragment.precedes := by
  funext f g
  rw [Bool.eq_iff_iff, Fragment.precedes_iff]
  simp [byLines, Prod.Lex.le_iff, Fragment.lineRange]

/-- The first line behind all fragments, or the first line at all. -/
structure FirstFree (done : List Fragment) (next : Int) : Prop where
  behind : ∀ f ∈ done, f.endLine < next
  attained : next = 1 ∨ ∃ f ∈ done, f.endLine + 1 = next

theorem firstFree_nil : FirstFree [] 1 := ⟨by simp, Or.inl rfl⟩

theorem FirstFree.concat {done : List Fragment} {next : Int} (h : FirstFree done next)
    (f : Fragment) : FirstFree (done ++ [f]) (max next (f.endLine + 1)) := by
  constructor
  · intro g hg
    rcases List.mem_append.mp hg with hg | hg
    · have := h.behind g hg
      omega
    · obtain rfl := List.mem_singleton.mp hg
      omega
  · by_cases hlt : next < f.endLine + 1
    · exact Or.inr ⟨f, by simp, by omega⟩
    · rw [Int.max_eq_left (by omega)]
      rcases h.attained with h1 | ⟨g, hg, he⟩
      · exact Or.inl h1
      · exact Or.inr ⟨g, by simp [hg], he⟩

/-- The last line before the first of the fragments to come. -/
def lastFree (count : Int) : List Fragment → Int
  | [] => count
  | f :: _ => f.startLine - 1

section Rank
open Coverage
variable {count : Nat} {done todo : List Fragment} {next : Int} {r : LineRun}

/-- In sorted fragments the rank says where those that start before the run end. -/
theorem LineRun.rank_eq_iff
    (hsorted : (done ++ todo).Pairwise fun f g => f.startLine ≤ g.startLine) :
    r.rank (done ++ todo) = done.length ↔
      (∀ f ∈ done, f.startLine < r.first) ∧ ∀ f ∈ todo, r.first ≤ f.startLine := by
  have hacross := (List.pairwise_append.mp hsorted).2.2
  rw [rank, List.countP_append]
  constructor
  · intro h
    have htodo : ∀ f ∈ todo, r.first ≤ f.startLine := by
      intro f hf
      by_contra hlt
      -- a later fragment before the run puts all earlier ones before it as well
      have hdone : done.countP (fun g => decide (g.startLine < r.first)) = done.length := by
        refine List.countP_eq_length.mpr fun g hg => decide_eq_true ?_
        have := hacross g hg f hf
        omega
      have hpos : 0 < todo.countP (fun g => decide (g.startLine < r.first)) :=
        List.countP_pos_iff.mpr ⟨f, hf, decide_eq_true (by omega)⟩
      omega
    have hzero : todo.countP (fun g => decide (g.startLine < r.first)) = 0 := by
      refine List.countP_eq_zero.mpr fun g hg => ?_
      have := htodo g hg
      simpa using this
    have hall : done.countP (fun g => decide (g.startLine < r.first)) = done.length := by omega
    exact ⟨fun f hf => of_decide_eq_true (List.countP_eq_length.mp hall f hf), htodo⟩
  · rintro ⟨hdone, htodo⟩
    rw [List.countP_eq_length.mpr fun g hg => decide_eq_true (hdone g hg),
      List.countP_eq_zero.mpr fun g hg => by simpa using htodo g hg, Nat.add_zero]

theorem lastFree_lt (count : Int) (hsorted : todo.Pairwise fun f g => f.startLine ≤ g.startLine)
    {f : Fragment} (hf : f ∈ todo) : lastFree count todo < f.startLine := by
  cases todo with
  | nil => simp at hf
  | cons g rest =>
    change g.startLine - 1 < f.startLine
    rcases List.mem_cons.mp hf with rfl | hf
    · omega
    · have := (List.pairwise_cons.mp hsorted).1 f hf
      omega

theorem FirstFree.one_le (h : FirstFree done next) (hon : ∀ f ∈ done, OnLines count f) :
    1 ≤ next := by
  rcases h.attained with h1 | ⟨f, hf, he⟩
  · omega
  · have ⟨_, _, _⟩ := hon f hf
    omega

theorem LineRun.IsGap.first_eq (h : r.IsGap (done ++ todo) count)
    (hon : ∀ f ∈ done, OnLines count f) (hfree : FirstFree done next)
    (hdone : ∀ f ∈ done, f.startLine < r.first) (htodo : ∀ f ∈ todo, r.first ≤ f.startLine) :
    r.first = next := by
  have hordered := h.ordered
  have hle : next ≤ r.first := by
    rcases hfree.attained with h1 | ⟨f, hf, he⟩
    · have := h.one_le
      omega
    · have hstart := hdone f hf
      have hnot := h.unspanned r.first (Int.le_refl _) hordered
      by_contra hlt
      exact hnot ⟨f, by simp [hf], by omega, by omega⟩
  have hge : r.first ≤ next := by
    rcases h.before with h1 | ⟨f, hf, hstart, hstop⟩
    · have := hfree.one_le hon
      omega
    · rcases List.mem_append.mp hf with hf | hf
      · have := hfree.behind f hf
        omega
      · have := htodo f hf
        omega
  omega

theorem LineRun.IsGap.last_eq (h : r.IsGap (done ++ todo) count)
    (hsorted : todo.Pairwise fun f g => f.startLine ≤ g.startLine)
    (hon : ∀ f ∈ todo, OnLines count f) (hdone : ∀ f ∈ done, f.startLine < r.first)
    (htodo : ∀ f ∈ todo, r.first ≤ f.startLine) : r.last = lastFree count todo := by
  have hordered := h.ordered
  have hcount := h.le_count
  -- what spans the line behind the gap is none of the first fragments
  have hafter : r.last = count ∨ ∃ f ∈ todo, f.startLine ≤ r.last + 1 := by
    refine h.after.imp_right ?_
    rintro ⟨f, hf, hstart, hstop⟩
    rcases List.mem_append.mp hf with hf | hf
    · have := hdone f hf
      exact absurd ⟨f, by simp [hf], by omega, by omega⟩
        (h.unspanned r.first (Int.le_refl _) hordered)
    · exact ⟨f, hf, hstart⟩
  cases todo with
  | nil => simpa [lastFree] using hafter
  | cons g rest =>
    have ⟨_, hg, hgcount⟩ := hon g (by simp)
    have hbehind : r.last < g.startLine := by
      by_contra hle
      exact h.unspanned g.startLine (htodo g (by simp)) (by omega) ⟨g, by simp, by omega, by omega⟩
    change r.last = g.startLine - 1
    rcases hafter with he | ⟨f, hf, hstart⟩
    · omega
    · have := lastFree_lt count hsorted hf
      change g.startLine - 1 < f.startLine at this
      omega

/-- Behind the first fragments there is one run, from the first free line to the last. -/
theorem LineRun.isGap_rank_iff
    (hsorted : (done ++ todo).Pairwise fun f g => f.startLine ≤ g.startLine)
    (hon : ∀ f ∈ done ++ todo, OnLines count f) (hfree : FirstFree done next) :
    r.IsGap (done ++ todo) count ∧ r.rank (done ++ todo) = done.length ↔
      r = ⟨next, lastFree count todo⟩ ∧ next ≤ lastFree count todo := by
  obtain ⟨hondone, hontodo⟩ := List.forall_mem_append.mp hon
  have hlater := (List.pairwise_append.mp hsorted).2.1
  rw [rank_eq_iff hsorted]
  constructor
  · rintro ⟨h, hdone, htodo⟩
    have hfirst := h.first_eq hondone hfree hdone htodo
    have hlast := h.last_eq hlater hontodo hdone htodo
    refine ⟨?_, ?_⟩
    · rw [← hfirst, ← hlast]
    · rw [← hfirst, ← hlast]
      exact h.ordered
  · rintro ⟨rfl, hle⟩
    have hstart : ∀ f ∈ todo, lastFree count todo < f.startLine := fun f => lastFree_lt count hlater
    refine ⟨⟨hfree.one_le hondone, hle, ?_, ?_, ?_, ?_⟩, ?_, ?_⟩
    · cases todo with
      | nil => exact Int.le_refl _
      | cons g rest =>
        have ⟨_, _, _⟩ := hontodo g (by simp)
        change g.startLine - 1 ≤ count
        omega
    · rintro n hn hn' ⟨f, hf, hfn, hfn'⟩
      change next ≤ n at hn
      change n ≤ lastFree count todo at hn'
      rcases List.mem_append.mp hf with hf | hf
      · have := hfree.behind f hf
        omega
      · have := hstart f hf
        omega
    · refine hfree.attained.imp_right ?_
      rintro ⟨f, hf, he⟩
      have ⟨_, _, _⟩ := hondone f hf
      exact ⟨f, by simp [hf], by change _ ≤ next - 1; omega, by change next - 1 ≤ _; omega⟩
    · cases todo with
      | nil => exact Or.inl rfl
      | cons g rest =>
        have ⟨_, _, _⟩ := hontodo g (by simp)
        refine Or.inr ⟨g, by simp, ?_, ?_⟩
        · change _ ≤ g.startLine - 1 + 1
          omega
        · change g.startLine - 1 + 1 ≤ _
          omega
    · intro f hf
      have := hfree.behind f hf
      have ⟨_, _, _⟩ := hondone f hf
      change f.startLine < next
      omega
    · intro f hf
      have := hstart f hf
      change next ≤ f.startLine
      omega

theorem filter_gaps_rank (done todo : List Fragment)
    (hsorted : (done ++ todo).Pairwise fun f g => f.startLine ≤ g.startLine)
    (hon : ∀ f ∈ done ++ todo, OnLines count f) (hfree : FirstFree done next)
    (p : LineRun → Bool) :
    (gaps (done ++ todo) count).filter (fun r => p r && r.rank (done ++ todo) == done.length) =
      if next ≤ lastFree count todo then [⟨next, lastFree count todo⟩].filter p else [] := by
  have hmem : ∀ r, r ∈ gaps (done ++ todo) count ∧ r.rank (done ++ todo) = done.length ↔
      r = ⟨next, lastFree count todo⟩ ∧ next ≤ lastFree count todo := by
    intro r
    rw [mem_gaps]
    exact LineRun.isGap_rank_iff hsorted hon hfree
  rw [← List.filter_filter]
  split_ifs with hle
  · congr 1
    refine List.perm_singleton.mp ((List.perm_ext_iff_of_nodup
      ((nodup_gaps _ _).filter _) (List.nodup_singleton _)).mpr fun r => ?_)
    simp only [List.mem_filter, beq_iff_eq, List.mem_singleton]
    rw [hmem r]
    exact and_iff_left hle
  · have hnone : (gaps (done ++ todo) count).filter
        (fun r => r.rank (done ++ todo) == done.length) = [] := by
      refine List.filter_eq_nil_iff.mpr fun r hr hrank => ?_
      exact hle ((hmem r).mp ⟨hr, by simpa using hrank⟩).2
    rw [hnone, List.filter_nil]

theorem filter_gaps_first (hon : ∀ f ∈ todo, OnLines count f) (p : LineRun → Bool) :
    (gaps todo count).filter (fun r => p r && r.first == 1) =
      (gaps todo count).filter fun r => p r && r.rank todo == 0 := by
  refine List.filter_congr fun r hr => ?_
  have hgap := mem_gaps.mp hr
  have hiff : r.first = 1 ↔ r.rank todo = 0 := by
    rw [LineRun.rank, List.countP_eq_zero]
    constructor
    · intro h1 f hf
      have := (hon f hf).one_le
      simp only [decide_eq_true_eq]
      omega
    · intro h
      refine hgap.before.resolve_right ?_
      rintro ⟨f, hf, hstart, _⟩
      have := h f hf
      simp only [decide_eq_true_eq] at this
      omega
  simp only [Bool.beq_eq_decide_eq, hiff]

end Rank

/-! ## The loop follows the runs -/

namespace LineRun

theorem text_eq_gapText (source : Text) {first last : Int} (h1 : 1 ≤ first) (hle : first ≤ last) :
    text source ⟨first, last⟩ = Coverage.gapText (lines source) first last :=
  (Coverage.gapText_eq (lines source) h1 hle).symm

theorem appendTo_eq_absorb (source : Text) (f : Fragment) (r : LineRun) :
    r.appendTo source f = Coverage.absorb f (r.text source) r.last := by
  unfold appendTo Coverage.absorb
  split_ifs <;> simp

theorem prependTo_eq_prepend (source : Text) (f : Fragment) (r : LineRun) :
    r.prependTo source f = Coverage.prepend (some (r.text source)) f := by
  simp [prependTo, Coverage.prepend]

end LineRun

section Loop
open Coverage
variable {source : Text} {sorted : List Fragment}

/-- Taking in lines does what the description says of the run behind the fragments so far. -/
theorem reverse_of_takesIn {k : Nat} {next stop : Int} {latest : Fragment}
    {earlier placed : List Fragment} (hnext : 1 < next)
    (hruns : ∀ p : LineRun → Bool, (gaps sorted (countLines source)).filter
      (fun r => p r && r.rank sorted == k) = if next ≤ stop then [⟨next, stop⟩].filter p else [])
    (ht : TakesIn (lines source) next stop (latest :: earlier) placed) :
    placed.reverse =
      earlier.reverse ++ withBlanks sorted source k latest :: runsAfter sorted source k := by
  have hfirst : ((next : Int) != 1) = true := by simp; omega
  unfold withBlanks runsAfter
  rw [hruns, hruns]
  cases ht with
  | met hlt =>
    rw [if_neg (by omega), if_neg (by omega)]
    simp
  | apart hle hb =>
    have htext := LineRun.text_eq_gapText source (Int.le_of_lt hnext) hle
    rw [if_pos hle, if_pos hle]
    simp [LineRun.isBlank, htext, hb]
  | joined hle hb =>
    have htext := LineRun.text_eq_gapText source (Int.le_of_lt hnext) hle
    rw [if_pos hle, if_pos hle]
    simp [LineRun.isBlank, htext, hb, hfirst, LineRun.appendTo_eq_absorb]

theorem place_empty {f : Fragment} {rest : List Fragment}
    (hsorted : (f :: rest).Pairwise fun f g => f.startLine ≤ g.startLine)
    (hon : ∀ g ∈ f :: rest, OnLines (countLines source) g) :
    place (lines source) empty f = ⟨withOpening (f :: rest) source f ::
      (runsAfter (f :: rest) source 0).reverse, none, max 1 (f.endLine + 1)⟩ := by
  have hruns : ∀ p : LineRun → Bool, (gaps (f :: rest) (countLines source)).filter
      (fun r => p r && r.rank (f :: rest) == 0) =
        if 1 ≤ f.startLine - 1 then [⟨1, f.startLine - 1⟩].filter p else [] :=
    filter_gaps_rank [] (f :: rest) hsorted hon firstFree_nil
  have hopening := filter_gaps_first hon (LineRun.isBlank source)
  unfold withOpening runsAfter
  rw [hopening, hruns, hruns]
  rcases place_cases (lines source) f (c := empty) rfl with ⟨placed, ht, he⟩ | ⟨_, hlt, hb, he⟩
  · change TakesIn (lines source) 1 (f.startLine - 1) [] placed at ht
    rw [he]
    cases ht with
    | met hlt =>
      rw [if_neg (by omega), if_neg (by omega)]
      rfl
    | apart hle hb =>
      have htext := LineRun.text_eq_gapText source (Int.le_refl 1) hle
      rw [if_pos hle, if_pos hle]
      simp [LineRun.isBlank, htext, hb, empty]
  · change allBlank (gapText (lines source) 1 (f.startLine - 1)) = true at hb
    have hle : 1 ≤ f.startLine - 1 := Int.le_sub_one_of_lt hlt
    have htext := LineRun.text_eq_gapText source (Int.le_refl 1) hle
    rw [he, if_pos hle, if_pos hle]
    simp [LineRun.isBlank, htext, hb, empty, LineRun.prependTo_eq_prepend]

/-- From the second fragment on. The fragments so far are behind `earlier`, except for the
latest, which may still take in blank lines. -/
theorem finish_foldl_place (source : Text) (done todo : List Fragment) {earlier : List Fragment}
    {latest : Fragment} {next : Int}
    (hsorted : (done ++ todo).Pairwise fun f g => f.startLine ≤ g.startLine)
    (hon : ∀ f ∈ done ++ todo, OnLines (countLines source) f) (hfree : FirstFree done next)
    (hnext : 1 < next) :
    (todo.foldl (place (lines source)) ⟨latest :: earlier, none, next⟩).finish (lines source)
        (countLines source) =
      earlier.reverse ++ (withBlanks (done ++ todo) source done.length latest ::
        runsAfter (done ++ todo) source done.length) ++
      (todo.zipIdx done.length).flatMap fun (f, k) =>
        withBlanks (done ++ todo) source (k + 1) f :: runsAfter (done ++ todo) source (k + 1) := by
  have hruns := filter_gaps_rank done todo hsorted hon hfree
  induction todo generalizing done earlier latest next with
  | nil =>
    obtain ⟨placed, ht, he⟩ := finish_cases (lines source) (countLines source)
      (c := ⟨latest :: earlier, none, next⟩) (List.cons_ne_nil _ _)
    rw [List.foldl_nil, he, reverse_of_takesIn hnext hruns ht]
    simp
  | cons f todo ih =>
    rcases place_cases (lines source) f (c := ⟨latest :: earlier, none, next⟩) rfl with
      ⟨placed, ht, he⟩ | ⟨hp, _⟩
    · have hassoc : done ++ f :: todo = (done ++ [f]) ++ todo := by simp
      have hfree' := hfree.concat f
      rw [hassoc] at hsorted hon
      rw [List.foldl_cons, he,
        ih _ hsorted hon hfree' (by omega) (filter_gaps_rank _ _ hsorted hon hfree'),
        reverse_of_takesIn hnext hruns ht]
      simp
    · simp at hp

theorem fillGaps_eq_covering {fs : List Fragment} (hne : fs ≠ [])
    (hon : ∀ f ∈ fs, OnLines (countLines source) f) : fillGaps fs source = covering fs source := by
  have hmem : ∀ f ∈ Fragment.sortByLines fs, OnLines (countLines source) f := fun f hf =>
    hon f ((Fragment.sortByLines_perm fs).mem_iff.mp hf)
  have hstarts := Fragment.pairwise_startLine_sortByLines fs
  rw [fillGaps_eq hne, covering, byLines_eq_precedes, ← Fragment.sortByLines_eq_mergeSort]
  cases hs : Fragment.sortByLines fs with
  | nil =>
    have := Fragment.sortByLines_perm fs
    rw [hs] at this
    exact absurd this.symm.eq_nil hne
  | cons f rest =>
    rw [hs] at hmem hstarts
    have hf := hmem f (by simp)
    have hfree := firstFree_nil.concat f
    have hnext : 1 < max 1 (f.endLine + 1) := by
      have := hf.one_le
      have := hf.ordered
      omega
    rw [List.foldl_cons, place_empty hstarts hmem,
      finish_foldl_place source [f] rest hstarts hmem hfree hnext]
    simp only [List.reverse_reverse, List.cons_append, List.nil_append, List.length_cons,
      List.length_nil, Nat.zero_add, List.append_assoc, List.zipIdx_cons, List.flatMap_cons,
      ↓reduceIte, List.append_cancel_left_eq, List.cons.injEq, true_and]
    -- only the first fragment can take in an opening
    refine List.flatMap_congr fun x hx => ?_
    have := (List.mem_zipIdx_iff_le_and_getElem?_sub.mp hx).1
    rw [if_neg (by omega)]

end Loop

/-! ## Order and origin of the fragments -/

/-- A fragment stands for a run, or it has grown around one that was given. -/
def GrownFrom : Option Fragment → Fragment → Prop
  | none, g => g.nodeKind = none ∧ g.nodeIndex = none ∧ g.symbols = []
  | some f, g => f.content <:+: g.content ∧ g.startLine ≤ f.startLine ∧ f.endLine ≤ g.endLine ∧
      g.nodeKind = f.nodeKind ∧ g.nodeIndex = f.nodeIndex ∧ g.symbols = f.symbols

theorem grownFrom_self (f : Fragment) : GrownFrom (some f) f :=
  ⟨List.infix_rfl, Int.le_refl _, Int.le_refl _, rfl, rfl, rfl⟩

theorem GrownFrom.absorb {origin : Option Fragment} {g : Fragment} (h : GrownFrom origin g)
    (gap : Text) {stop : Int} (hle : g.endLine ≤ stop) :
    GrownFrom origin (Coverage.absorb g gap stop) := by
  cases origin with
  | none => exact h
  | some f =>
    obtain ⟨hcontent, hstart, hend, hrest⟩ := h
    refine ⟨hcontent.trans ?_, hstart, Int.le_trans hend hle, hrest⟩
    exact ⟨[], (if endsLine g.content then [] else [.scalar '\n']) ++ gap, by simp [Coverage.absorb]⟩

section Order
open Coverage
variable {source : Text}

/-- What has been placed, the latest first: in the order of their first lines, and each given
fragment once. -/
structure Arranged (done placed : List Fragment) : Prop where
  descending : placed.Pairwise fun p q => q.startLine ≤ p.startLine
  grown : ∃ origins, List.Forall₂ GrownFrom origins placed ∧ origins.reduceOption = done.reverse

theorem Arranged.takesIn {next stop : Int} {done placed placed' : List Fragment}
    (h : Arranged done placed) (hspan : Spanning placed next)
    (ht : TakesIn (lines source) next stop placed placed') : Arranged done placed' := by
  obtain ⟨hdesc, origins, hgrown, hdone⟩ := h
  cases ht with
  | met => exact ⟨hdesc, origins, hgrown, hdone⟩
  | apart hle =>
    refine ⟨List.pairwise_cons.mpr ⟨?_, hdesc⟩, none :: origins, ?_, by simpa using hdone⟩
    · intro p hp
      have := hspan.inside p hp
      change p.startLine ≤ next
      omega
    · exact List.Forall₂.cons ⟨rfl, rfl, rfl⟩ hgrown
  | @joined p rest hle =>
    have hp := hspan.inside p (by simp)
    obtain ⟨hhead, hrest⟩ := List.pairwise_cons.mp hdesc
    refine ⟨List.pairwise_cons.mpr ⟨hhead, hrest⟩, origins, ?_, hdone⟩
    cases hgrown with
    | cons hfirst hgrown => exact List.Forall₂.cons (hfirst.absorb _ (by omega)) hgrown

theorem startLine_le_of_takesIn {next stop bound : Int} {placed placed' : List Fragment}
    (ht : TakesIn (lines source) next stop placed placed') (hstop : stop ≤ bound)
    (h : ∀ p ∈ placed, p.startLine ≤ bound) : ∀ p ∈ placed', p.startLine ≤ bound := by
  cases ht with
  | met => exact h
  | apart hle => exact List.forall_mem_cons.mpr ⟨Int.le_trans hle hstop, h⟩
  | joined =>
    obtain ⟨hhead, hrest⟩ := List.forall_mem_cons.mp h
    exact List.forall_mem_cons.mpr ⟨hhead, hrest⟩

theorem Arranged.place {c : Coverage} {done : List Fragment} {f : Fragment}
    (h : Arranged done c.placed) (hc : Settled (countLines source) c)
    (hf : OnLines (countLines source) f) (hle : ∀ p ∈ c.placed, p.startLine ≤ f.startLine) :
    Arranged (done ++ [f]) (place (lines source) c f).placed ∧
      ∀ p ∈ (place (lines source) c f).placed, p.startLine ≤ f.startLine := by
  rcases place_cases (lines source) f hc.closed with ⟨placed, ht, he⟩ | ⟨hp, hlt, _, he⟩
  · obtain ⟨hdesc, origins, hgrown, hdone⟩ := h.takesIn hc.toSpanning ht
    have hstart := startLine_le_of_takesIn ht (by omega) hle
    rw [he]
    refine ⟨⟨List.pairwise_cons.mpr ⟨hstart, hdesc⟩, some f :: origins, ?_, ?_⟩, ?_⟩
    · exact List.Forall₂.cons (grownFrom_self f) hgrown
    · simp [hdone]
    · exact List.forall_mem_cons.mpr ⟨Int.le_refl _, hstart⟩
  · obtain ⟨_, origins, hgrown, hdone⟩ := h
    rw [hp] at hgrown
    cases hgrown
    rw [he]
    refine ⟨⟨List.pairwise_singleton _ _, [some f], ?_, ?_⟩, ?_⟩
    · refine List.Forall₂.cons ⟨?_, hf.one_le, Int.le_refl _, rfl, rfl, rfl⟩ List.Forall₂.nil
      exact (List.suffix_append _ f.content).isInfix
    · simpa using hdone
    · exact List.forall_mem_cons.mpr ⟨hf.one_le, by simp⟩

theorem Arranged.foldl {c : Coverage} {done todo : List Fragment} (h : Arranged done c.placed)
    (hc : Settled (countLines source) c) (hon : ∀ f ∈ todo, OnLines (countLines source) f)
    (hsorted : todo.Pairwise fun f g => f.startLine ≤ g.startLine)
    (hle : ∀ p ∈ c.placed, ∀ f ∈ todo, p.startLine ≤ f.startLine) :
    Arranged (done ++ todo) (todo.foldl (Coverage.place (lines source)) c).placed := by
  induction todo generalizing c done with
  | nil => simpa using h
  | cons f todo ih =>
    obtain ⟨hf, hon⟩ := List.forall_mem_cons.mp hon
    obtain ⟨hfsorted, hsorted⟩ := List.pairwise_cons.mp hsorted
    obtain ⟨hplaced, hstart⟩ := h.place hc hf fun p hp => hle p hp f (by simp)
    rw [List.append_cons, List.foldl_cons]
    refine ih hplaced (hc.place _ hf) hon hsorted ?_
    intro p hp g hg
    exact Int.le_trans (hstart p hp) (hfsorted g hg)

/-- The result is in the order of first lines, and the given fragments occur in it in their
sorted order. -/
theorem exists_origins_fillGaps {fs : List Fragment} (hne : fs ≠ [])
    (hon : ∀ f ∈ fs, OnLines (countLines source) f) :
    ((fillGaps fs source).Pairwise fun f g => f.startLine ≤ g.startLine) ∧
      ∃ origins, List.Forall₂ GrownFrom origins (fillGaps fs source) ∧
        origins.reduceOption = Fragment.sortByLines fs := by
  have hset := settled_sortByLines hon
  obtain ⟨placed, ht, he⟩ := exists_takesIn_fillGaps source hne
  have hempty : Arranged [] Coverage.empty.placed :=
    ⟨List.Pairwise.nil, [], List.Forall₂.nil, rfl⟩
  have hrun := hempty.foldl (settled_empty (by omega))
    (fun f hf => hon f ((Fragment.sortByLines_perm fs).mem_iff.mp hf))
    (Fragment.pairwise_startLine_sortByLines fs) (by simp [Coverage.empty])
  obtain ⟨hdesc, origins, hgrown, hdone⟩ := hrun.takesIn hset.toSpanning ht
  rw [he]
  refine ⟨List.pairwise_reverse.mpr hdesc, origins.reverse, List.rel_reverse hgrown, ?_⟩
  rw [List.reduceOption, List.filterMap_reverse, ← List.reduceOption, hdone]
  simp

end Order

/-- Covering a text, for fragments in any order that may share lines: the result is the
description by maximal runs; it stands for all lines of the text, in the order of first lines,
and each fragment occurs in it once. -/
theorem fillGaps_by_maximal_runs {fs : List Fragment} {source : Text} (hne : fs ≠ [])
    (hon : ∀ f ∈ fs, Coverage.OnLines (countLines source) f) :
    fillGaps fs source = covering fs source ∧
      Covers ((fillGaps fs source).map Fragment.lineRange) 1 (countLines source) ∧
      ((fillGaps fs source).Pairwise fun f g => f.startLine ≤ g.startLine) ∧
      ∃ origins, List.Forall₂ GrownFrom origins (fillGaps fs source) ∧
        origins.reduceOption.Perm fs := by
  obtain ⟨hstarts, origins, hgrown, hsorted⟩ := exists_origins_fillGaps hne hon
  refine ⟨fillGaps_eq_covering hne hon, (covers_fillGaps hne hon).2, hstarts, origins, hgrown, ?_⟩
  rw [hsorted]
  exact Fragment.sortByLines_perm fs

/-- Two fragments that share a line, out of order: the blank line that opens the text joins the
longer one, the later blank line joins the shorter one, and the last line stands alone. -/
theorem covering_shared_line :
    (∀ f ∈ [(⟨"d", 5, 5, some "z", some 3, []⟩ : Fragment),
        ⟨"c", 3, 3, some "y", some 2, []⟩, ⟨"ab\nc", 2, 3, some "x", some 1, []⟩],
      Coverage.OnLines 6 f) ∧
    covering [⟨"d", 5, 5, some "z", some 3, []⟩, ⟨"c", 3, 3, some "y", some 2, []⟩,
        ⟨"ab\nc", 2, 3, some "x", some 1, []⟩] (Text.ofString "\nab\nc\n \nd\ne\n") =
      [⟨"\nab\nc", 1, 3, some "x", some 1, []⟩,
        ⟨"c\n ", 3, 4, some "y", some 2, []⟩, ⟨"d", 5, 5, some "z", some 3, []⟩,
        Fragment.plain "e" 6 6] := by
  refine ⟨by decide, ?_⟩
  rw [← (fillGaps_by_maximal_runs (by simp) (by decide)).1]
  decide

end SourceChunking
