import Mathlib.Data.List.Chain
import SourceChunking.Proofs.Overlap
import SourceChunking.Proofs.Partition

/-! # Where refined chunks begin

Chunks that are taken line by line from a source are cut between lines, so each part begins with the
line it starts on. Overlap puts the end of a part in front of the next one and counts lines back from
where that one starts. This finds the right line if the part reaches to its last line. A part falls
short of it by one line when it is the last one of a chunk that was cut and ends in a blank line, for
that line has no text of its own; the overlap is then counted one line too late.
-/
namespace SourceChunking
open Text

theorem isChain_and_mem_dropLast {α : Type} {R : α → α → Prop} {l : List α} (h : l.IsChain R) :
    l.IsChain fun a b => R a b ∧ a ∈ l.dropLast := by
  rw [List.isChain_iff_getElem] at h ⊢
  intro i hi
  refine ⟨h i hi, List.mem_iff_getElem.mpr ⟨i, ?_, List.getElem_dropLast _⟩⟩
  rw [List.length_dropLast]
  omega

namespace Text

theorem lines_dropFinalNewline_prefix (t : Text) : lines (dropFinalNewline t) <+: lines t := by
  rcases dropFinalNewline_cases t with ⟨he, _⟩ | ⟨he, _⟩
  · refine ⟨[[]], ?_⟩
    conv_rhs => rw [he]
    rw [lines_append_newline, lines_nil]
  · rw [he]

theorem countLines_of_endsLine {t : Text} (h : endsLine t = true) :
    countLines t = newlines t := by
  obtain ⟨s, rfl⟩ := exists_of_endsLine h
  rw [countLines_eq, dropFinalNewline_concat, newlines_append]
  rfl

theorem countLines_of_not_endsLine {t : Text} (h : endsLine t = false) :
    countLines t = newlines t + 1 := by
  rw [countLines_eq, dropFinalNewline_of_not_endsLine h]

end Text

/-- The first line of the content is the end of a line of the source. -/
def StartsOn (source content : Text) (line : Int) : Prop :=
  1 ≤ line ∧ ∃ whole ∈ (lines source)[(line - 1).toNat]?,
    (lines content).head (lines_ne_nil content) <:+ whole

instance (source content : Text) (line : Int) : Decidable (StartsOn source content line) :=
  inferInstanceAs (Decidable (_ ∧ _))

namespace Chunk

structure Excerpt (source : Text) (c : Chunk) : Prop where
  one_le : 1 ≤ c.startLine
  ordered : c.startLine ≤ c.endLine
  inside : c.endLine ≤ (lines source).length
  content : c.content = unlines
    (((lines source).drop (c.startLine - 1).toNat).take (c.endLine + 1 - c.startLine).toNat)

structure Copied (source : Text) (c : Chunk) : Prop where
  one_le : 1 ≤ c.startLine
  lines : lines c.content <+: (lines source).drop (c.startLine - 1).toNat

variable {source : Text} {c : Chunk}

theorem Excerpt.lines_content (h : c.Excerpt source) : Text.lines c.content =
    ((Text.lines source).drop (c.startLine - 1).toNat).take (c.endLine + 1 - c.startLine).toNat := by
  have h1 := h.one_le
  have h2 := h.ordered
  have h3 := h.inside
  rw [h.content]
  apply lines_unlines
  · intro line hline
    exact newline_notMem_of_mem_lines (List.mem_of_mem_drop (List.mem_of_mem_take hline))
  · rw [← List.length_pos_iff, List.length_take, List.length_drop]
    omega

theorem Excerpt.copied (h : c.Excerpt source) : c.Copied source where
  one_le := h.one_le
  lines := by
    rw [h.lines_content]
    exact List.take_prefix _ _

theorem Excerpt.textEnd (h : c.Excerpt source) : c.textEnd = c.endLine := by
  have h1 := h.one_le
  have h2 := h.ordered
  have h3 := h.inside
  have hlength := congrArg List.length h.lines_content
  rw [length_lines, List.length_take, List.length_drop] at hlength
  rw [Chunk.textEnd]
  omega

theorem Copied.line (h : c.Copied source) {j : Nat} {line : Text}
    (hj : (Text.lines c.content)[j]? = some line) :
    (Text.lines source)[(c.startLine + j - 1).toNat]? = some line := by
  have hone := h.one_le
  obtain ⟨rest, he⟩ := h.lines
  have hlt := (List.getElem?_eq_some_iff.mp hj).1
  rw [show (c.startLine + j - 1).toNat = (c.startLine - 1).toNat + j by omega,
    ← List.getElem?_drop, ← he, List.getElem?_append_left hlt, hj]

theorem Copied.startsOn (h : c.Copied source) : StartsOn source c.content c.startLine := by
  have hfirst : (Text.lines c.content)[0]? = some ((Text.lines c.content).head (lines_ne_nil _)) := by
    rw [← List.head?_eq_getElem?, List.head?_eq_some_head]
  have hline := h.line hfirst
  rw [Int.natCast_zero, Int.add_zero] at hline
  exact ⟨h.one_le, _, hline, List.suffix_rfl⟩

theorem Copied.startsOn_end (h : c.Copied source) {front tail : Text} (he : c.content = front ++ tail)
    (more : Text) : StartsOn source (tail ++ .scalar '\n' :: more) (c.textEnd - newlines tail) := by
  have hfirst : (Text.lines tail)[0]? =
      some ((Text.lines (tail ++ .scalar '\n' :: more)).head (lines_ne_nil _)) := by
    rw [← List.head?_eq_getElem?, ← List.head?_eq_some_head, lines_append_newline,
      List.head?_append_of_ne_nil _ (lines_ne_nil tail)]
  obtain ⟨whole, hw, hsuffix⟩ := lines_append_left front hfirst
  rw [← he, Nat.add_zero] at hw
  have hplace : c.textEnd - newlines tail = c.startLine + newlines front := by
    rw [Chunk.textEnd, he, newlines_append]
    omega
  have hone := h.one_le
  rw [hplace]
  exact ⟨by omega, whole, h.line hw, hsuffix⟩

end Chunk

structure Contiguous (source : Text) (cs : List Chunk) : Prop where
  excerpt : ∀ c ∈ cs, c.Excerpt source
  meets : cs.IsChain Chunk.Meets

namespace Refiner
variable {r : Refiner} {source : Text} {c : Chunk} {cs : List Chunk}

/-! ## Parts of an excerpt -/

theorem head?_splitChunk (r : Refiner) (c : Chunk) :
    (r.splitChunk c).head?.map Chunk.startLine = some c.startLine := by
  rcases splitChunk_cases r c with he | ⟨_, hparts⟩
  · rw [he]
    rfl
  · exact hparts.first

theorem splitChunk_ne_nil (r : Refiner) (c : Chunk) : r.splitChunk c ≠ [] := by
  intro he
  have hfirst := head?_splitChunk r c
  rw [he] at hfirst
  cases hfirst

theorem copied_of_mem_splitChunk (h : c.Copied source) {p : Chunk} (hp : p ∈ r.splitChunk c) :
    p.Copied source := by
  rcases splitChunk_cases r c with he | ⟨_, hparts⟩
  · rw [he] at hp
    rwa [List.mem_singleton.mp hp]
  · obtain ⟨before, after, he, hstart⟩ := hparts.placed p hp
    have hone := h.one_le
    refine ⟨by omega, ?_⟩
    obtain ⟨rest, hrest⟩ := (he ▸ lines_dropFinalNewline_prefix c.content).trans h.lines
    rw [show (p.startLine - 1).toNat = (c.startLine - 1).toNat + before.length by omega,
      ← List.drop_drop, ← hrest, List.append_assoc, List.append_assoc, List.drop_left]
    exact ⟨_, rfl⟩

theorem isChain_splitChunk (r : Refiner) (c : Chunk) :
    (r.splitChunk c).IsChain fun p q => p.Meets q ∧ p.textEnd = p.endLine := by
  rcases splitChunk_cases r c with he | ⟨_, hparts⟩
  · rw [he]
    exact List.IsChain.singleton c
  · refine (isChain_and_mem_dropLast hparts.meets).imp ?_
    rintro p q ⟨hmeets, hp⟩
    have hspan := hparts.spans p hp
    rw [length_lines, Chunk.lineSpan] at hspan
    refine ⟨hmeets, ?_⟩
    rw [Chunk.textEnd]
    omega

/-- The chunk is cut and has no text on its last line. -/
def CutShort (r : Refiner) (c : Chunk) : Prop :=
  r.maxChunkSize < c.content.length ∧ endsLine c.content = true

/-- The last part of an excerpt ends with it. Its text does so too, unless the excerpt is cut short
of its blank last line. -/
theorem getLast?_splitChunk (h : c.Excerpt source) {p : Chunk} (hp : p ∈ (r.splitChunk c).getLast?) :
    p.endLine = c.endLine ∧ (p.textEnd = p.endLine ∨ CutShort r c ∧ p.textEnd = p.endLine - 1) := by
  have hend := h.textEnd
  rcases splitChunk_cases r c with he | ⟨hlong, hparts⟩
  · rw [he] at hp
    cases hp
    exact ⟨rfl, Or.inl hend⟩
  · have hlast := hparts.last
    have htext := hparts.textEnd
    rw [Option.mem_def.mp hp] at hlast htext
    have hlast := Option.some.inj hlast
    have htext := Option.some.inj htext
    rw [Chunk.textEnd] at hend
    cases hends : endsLine c.content with
    | true =>
      rw [countLines_of_endsLine hends] at hlast htext
      exact ⟨by omega, Or.inr ⟨⟨hlong, hends⟩, by omega⟩⟩
    | false =>
      rw [countLines_of_not_endsLine hends] at hlast htext
      exact ⟨by omega, Or.inl (by omega)⟩

/-! ## Overlap with a neighbour -/

def EndsShort (r : Refiner) (cs : List Chunk) (p : Chunk) : Prop :=
  ∃ c ∈ cs.dropLast, CutShort r c ∧ (r.splitChunk c).getLast? = some p

/-- All parts follow each other line by line, and the text of each but the last reaches to its last
line, or falls short of it by one. -/
theorem isChain_resize (h : Contiguous source cs) (r : Refiner) :
    (r.resize cs).IsChain fun p q => p.Meets q ∧
      (p.textEnd = p.endLine ∨ EndsShort r cs p ∧ p.textEnd = p.endLine - 1) := by
  have hne : [] ∉ cs.map r.splitChunk := by
    intro hmem
    obtain ⟨c, _, he⟩ := List.mem_map.mp hmem
    exact splitChunk_ne_nil r c he
  rw [resize, List.flatMap_def, List.isChain_flatten hne]
  constructor
  · intro ps hps
    obtain ⟨c, _, rfl⟩ := List.mem_map.mp hps
    exact (isChain_splitChunk r c).imp fun p q hpq => ⟨hpq.1, Or.inl hpq.2⟩
  · rw [List.isChain_map]
    refine (isChain_and_mem_dropLast h.meets).imp ?_
    rintro c d ⟨hmeets, hc⟩ p hp q hq
    obtain ⟨hend, htext⟩ := getLast?_splitChunk (h.excerpt c (List.dropLast_subset _ hc)) hp
    have hfirst := head?_splitChunk r d
    rw [Option.mem_def.mp hq] at hfirst
    have hstart : q.startLine = d.startLine := Option.some.inj hfirst
    constructor
    · rw [Chunk.Meets, hstart, hend]
      exact hmeets
    · refine htext.imp_right ?_
      rintro ⟨hshort, he⟩
      exact ⟨⟨c, hc, hshort, hp⟩, he⟩

/-- The overlap begins on the line it is counted back to if the text in front reaches to its last
line, and as many lines before as that falls short. -/
theorem startsOn_overlapped {p q : Chunk} (hp : p.Copied source) (hq : q.Copied source)
    (hmeets : p.Meets q) (hreach : p.textEnd ≤ p.endLine) :
    StartsOn source (r.overlapped p q).content (r.overlapped p q).startLine ∨
      0 < r.overlapSize ∧ StartsOn source (r.overlapped p q).content
        ((r.overlapped p q).startLine - (p.endLine - p.textEnd)) := by
  unfold overlapped
  dsimp only
  split_ifs with htail
  · exact Or.inl hq.startsOn
  · right
    have hpos : 0 < r.overlapSize := by
      apply Nat.pos_of_ne_zero
      intro hzero
      simp [hzero, takeLast] at htail
    have hsplit : p.content = p.content.take (p.content.length - r.overlapSize) ++
        takeLast r.overlapSize p.content := (List.take_append_drop _ _).symm
    have hstarts := hp.startsOn_end hsplit q.content
    -- the tail lies within the text of `p`, so counting back stays on lines of the source
    have hone := hstarts.1
    rw [Chunk.Meets] at hmeets
    refine ⟨hpos, ?_⟩
    rw [List.append_assoc, List.singleton_append, Int.max_eq_right (by omega),
      show q.startLine - (newlines (takeLast r.overlapSize p.content) + 1) - (p.endLine - p.textEnd) =
        p.textEnd - newlines (takeLast r.overlapSize p.content) by omega]
    exact hstarts

theorem copied_of_mem_resize (h : Contiguous source cs) {p : Chunk} (hp : p ∈ r.resize cs) :
    p.Copied source := by
  obtain ⟨c, hc, hp⟩ := List.mem_flatMap.mp hp
  exact copied_of_mem_splitChunk (h.excerpt c hc).copied hp

theorem startsOn_addOverlap (h : Contiguous source cs) {i : Nat} {d : Chunk}
    (hd : (r.addOverlap (r.resize cs))[i]? = some d) :
    StartsOn source d.content d.startLine ∨
      ∃ j p, i = j + 1 ∧ (r.resize cs)[j]? = some p ∧ EndsShort r cs p ∧ 0 < r.overlapSize ∧
        StartsOn source d.content (d.startLine - 1) := by
  have hlength := length_addOverlap r (r.resize cs)
  have hi := (List.getElem?_eq_some_iff.mp hd).1
  cases i with
  | zero =>
    rw [← List.head?_eq_getElem?, head?_addOverlap] at hd
    exact Or.inl (copied_of_mem_resize h (List.mem_of_mem_head? hd)).startsOn
  | succ j =>
    have hj : j + 1 < (r.resize cs).length := by omega
    have hp : (r.resize cs)[j]? = some (r.resize cs)[j] := List.getElem?_eq_getElem _
    have hq : (r.resize cs)[j + 1]? = some (r.resize cs)[j + 1] := List.getElem?_eq_getElem hj
    obtain ⟨hmeets, hreach⟩ := List.isChain_iff_getElem.mp (isChain_resize h r) j hj
    rw [getElem?_addOverlap_succ r hp hq] at hd
    obtain rfl := Option.some.inj hd
    have hstarts := startsOn_overlapped (r := r) (copied_of_mem_resize h (List.mem_of_getElem? hp))
      (copied_of_mem_resize h (List.mem_of_getElem? hq)) hmeets (by omega)
    rcases hreach with hfull | ⟨hshort, hend⟩
    · left
      rw [hfull, Int.sub_self, Int.sub_zero] at hstarts
      exact hstarts.elim id And.right
    · refine hstarts.imp_right ?_
      rintro ⟨hpos, hstarts⟩
      rw [hend, show ∀ n : Int, n - (n - 1) = 1 by omega] at hstarts
      exact ⟨j, _, rfl, hp, hshort, hpos, hstarts⟩

/-- Each refined chunk starts on the line on which its text begins, except that it starts one line
too late where its overlap comes from the last part of a chunk that is cut and ends in a blank line.
So if no chunk but the last is of that kind, all refined chunks start where their text begins. -/
theorem refine_startLine (h : Contiguous source cs) {m k : Int} (hm : 1 ≤ m) (hk : 0 ≤ k) :
    ∃ r, ofSizes m k = .ok r ∧
      (∀ (i : Nat) (d : Chunk), (r.refine cs).value[i]? = some d →
        StartsOn source d.content d.startLine ∨
          ∃ j p, i = j + 1 ∧ (r.resize cs)[j]? = some p ∧ EndsShort r cs p ∧ 0 < k ∧
            StartsOn source d.content (d.startLine - 1)) ∧
      ((∀ c ∈ cs.dropLast, m < c.content.length → endsLine c.content = false) →
        ∀ d ∈ (r.refine cs).value, StartsOn source d.content d.startLine) := by
  refine ⟨⟨m.toNat, k.toNat⟩, ofSizes_of_le hm hk, ?_, ?_⟩
  · intro i d hd
    rw [value_refine] at hd
    refine (startsOn_addOverlap h hd).imp_right ?_
    rintro ⟨j, p, hi, hp, hshort, hpos, hstarts⟩
    exact ⟨j, p, hi, hp, hshort, by dsimp only at hpos; omega, hstarts⟩
  · intro hends d hd
    rw [value_refine] at hd
    obtain ⟨i, hi⟩ := List.mem_iff_getElem?.mp hd
    rcases startsOn_addOverlap h hi with hstarts | ⟨_, _, _, _, ⟨c, hc, ⟨hlong, hblank⟩, _⟩, _⟩
    · exact hstarts
    · have hopen := hends c hc (by dsimp only at hlong; omega)
      rw [hblank] at hopen
      cases hopen

def gappedSource : Text := "ab\n\nc"

/-- The source in two chunks, the first of which ends in the blank line. -/
def gappedChunks : List Chunk :=
  [⟨"ab\n", 1, 2, "text", none, none, []⟩, ⟨['c'], 3, 3, "text", none, none, []⟩]

theorem contiguous_gappedChunks : Contiguous gappedSource gappedChunks where
  excerpt := by
    refine List.forall_mem_cons.mpr ⟨⟨by decide, by decide, by decide, by decide⟩, ?_⟩
    exact List.forall_mem_singleton.mpr ⟨by decide, by decide, by decide, by decide⟩
  meets := List.isChain_pair.mpr rfl

/-- The first chunk is cut, so that its blank line is lost between the overlap and the second chunk,
which is then said to start on that line. -/
theorem gappedChunks_startLine_late :
    Contiguous gappedSource gappedChunks ∧ ofSizes 2 1 = .ok ⟨2, 1⟩ ∧
    (Refiner.refine ⟨2, 1⟩ gappedChunks).value =
      [⟨"ab", 1, 2, "text", none, none, []⟩, ⟨"b\nc", 2, 3, "text", none, none, []⟩] ∧
    ¬ StartsOn gappedSource "b\nc" 2 ∧ StartsOn gappedSource "b\nc" 1 :=
  ⟨contiguous_gappedChunks, rfl, by decide, by decide, by decide⟩

theorem gappedChunks_startLine :
    Contiguous gappedSource gappedChunks ∧
    (∀ c ∈ gappedChunks.dropLast, (3 : Int) < c.content.length → endsLine c.content = false) ∧
    (Refiner.refine ⟨3, 2⟩ gappedChunks).value =
      [⟨"ab\n", 1, 2, "text", none, none, []⟩, ⟨"b\n\nc", 1, 3, "text", none, none, []⟩] ∧
    (∃ r, ofSizes 3 2 = .ok r ∧
      ∀ d ∈ (r.refine gappedChunks).value, StartsOn gappedSource d.content d.startLine) ∧
    ∃ r p, ofSizes 2 1 = .ok r ∧ (r.resize gappedChunks)[0]? = some p ∧ EndsShort r gappedChunks p := by
  have hends : ∀ c ∈ gappedChunks.dropLast,
      (3 : Int) < c.content.length → endsLine c.content = false := by decide
  have h3 : (1 : Int) ≤ 3 := by decide
  have h2 : (0 : Int) ≤ 2 := by decide
  obtain ⟨r, hr, _, hstarts⟩ := refine_startLine contiguous_gappedChunks h3 h2
  have h2' : (1 : Int) ≤ 2 := by decide
  have h1 : (0 : Int) ≤ 1 := by decide
  obtain ⟨r', hr', hlate, _⟩ := refine_startLine contiguous_gappedChunks h2' h1
  obtain rfl : ⟨2, 1⟩ = r' := Except.ok.inj hr'
  have hnot : ¬ StartsOn gappedSource "b\nc" 2 := by decide
  obtain ⟨j, p, hj, hp, hshort, _⟩ :=
    (hlate 1 ⟨"b\nc", 2, 3, "text", none, none, []⟩ rfl).resolve_left hnot
  obtain rfl : 0 = j := Nat.succ.inj hj
  exact ⟨contiguous_gappedChunks, hends, by decide, ⟨r, hr, hstarts hends⟩, _, p, hr', hp, hshort⟩

end Refiner
end SourceChunking
