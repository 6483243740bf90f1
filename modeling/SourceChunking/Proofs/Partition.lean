import SourceChunking.Proofs.SizeBound

/-! # Chunks cut between lines

A chunk that is too long is cut between its lines only. So its parts are joined back by newlines,
stand on consecutive lines, and each holds as many lines as it stands for. Only the last part may
stand for more: a final newline ends a line and opens none, and what the chunk claims beyond its
content is claimed by its last part.
-/
namespace SourceChunking
open Text

namespace Text

theorem unlines_cons_cons (s t : Text) (rest : List Text) :
    unlines (s :: t :: rest) = s ++ .scalar '\n' :: unlines (t :: rest) := by
  simp [unlines, List.intercalate_cons_cons]

theorem append_newline_of_endsLine {t : Text} (h : endsLine t = true) :
    dropFinalNewline t ++ [.scalar '\n'] = t := by
  obtain ⟨s, rfl⟩ := exists_of_endsLine h
  rw [dropFinalNewline_concat]

end Text

namespace Chunk

/-- The second chunk starts on the line after the last one of the first. -/
def Meets (c d : Chunk) : Prop := d.startLine = c.endLine + 1

/-- The line on which the content ends, counted from the one on which it starts. -/
def textEnd (c : Chunk) : Int := c.startLine + newlines c.content

end Chunk

namespace Refiner

/-! ## Groups of whole lines -/

theorem Whole.endsLine_flatten {xs ys : List Text} (h : Whole (xs ++ ys)) (hx : xs ≠ [])
    (hy : ys ≠ []) : endsLine xs.flatten = true := by
  induction xs with
  | nil => exact absurd rfl hx
  | cons x xs ih =>
    cases xs with
    | nil =>
      cases ys with
      | nil => exact absurd rfl hy
      | cons y ys => simpa using h.1
    | cons x' xs =>
      have hrest := ih h.tail (by simp)
      have hne := h.tail.of_append_left.flatten_ne_nil (by simp)
      rw [List.flatten_cons, endsLine, List.getLast?_append_of_ne_nil x hne]
      exact hrest

/-- Between two groups of whole lines stands the newline that the first one ends in. -/
theorem Whole.dropFinalNewline_flatten {xs ys : List Text} (h : Whole (xs ++ ys)) (hx : xs ≠ [])
    (hy : ys ≠ []) : dropFinalNewline (xs ++ ys).flatten =
      dropFinalNewline xs.flatten ++ .scalar '\n' :: dropFinalNewline ys.flatten := by
  have hends := append_newline_of_endsLine (h.endsLine_flatten hx hy)
  rw [List.flatten_append, dropFinalNewline_append _ (h.of_append_right.flatten_ne_nil hy)]
  conv_lhs => rw [← hends]
  rw [List.append_assoc, List.singleton_append]

/-- The lines of a text made of whole lines are these, without their newlines. -/
theorem Whole.lines_flatten {ls : List Text} (h : Whole ls) (hne : ls ≠ []) :
    lines (dropFinalNewline ls.flatten) = ls.map dropFinalNewline := by
  induction ls with
  | nil => exact absurd rfl hne
  | cons line rest ih =>
    have hone : lines (dropFinalNewline line) = [dropFinalNewline line] :=
      List.splitOn_eq_singleton (newline_notMem_dropFinalNewline h.countLines_head)
    cases rest with
    | nil => simpa using hone
    | cons line' rest =>
      have hrest := h.tail.flatten_ne_nil (by simp)
      have hline := append_newline_of_endsLine h.1
      rw [List.flatten_cons, dropFinalNewline_append line hrest, ← hline, List.append_assoc,
        List.singleton_append, lines_append_newline, hone, ih h.tail (by simp), List.map_cons, hline]
      rfl

theorem pack_ne_nil (limit : Nat) (lines : List Text) : pack limit lines ≠ [] :=
  packFrom_ne_nil limit 0 [] lines

theorem ne_nil_of_mem_pack {limit : Nat} {lines g : List Text} (hne : lines ≠ [])
    (hg : g ∈ pack limit lines) : g ≠ [] := ne_nil_of_mem_packFrom (Or.inr hne) hg

/-! ## Parts one behind the other -/

/-- Parts of a chunk for a text that begins on a line: newlines join them back, up to a newline at
the end of the text, and they run from that line to the end of the text or of the chunk. The last
line of the last part is that of the text, and every part holds whole lines of the text. -/
structure PartsOf (c : Chunk) (line : Int) (t : Text) (ps : List Chunk) : Prop where
  text : unlines (ps.map Chunk.content) = dropFinalNewline t
  first : ps.head?.map Chunk.startLine = some line
  last : ps.getLast?.map Chunk.endLine = some (max c.endLine (line + countLines t - 1))
  textEnd : ps.getLast?.map Chunk.textEnd = some (line + countLines t - 1)
  meets : ps.IsChain Chunk.Meets
  spans : ∀ p ∈ ps.dropLast, p.lineSpan = (lines p.content).length
  placed : ∀ p ∈ ps, ∃ before after,
    lines (dropFinalNewline t) = before ++ lines p.content ++ after ∧
      p.startLine = line + before.length

theorem partsOf_singleton (c : Chunk) (line : Int) {group : List Text} (hne : group ≠ [])
    (hw : Whole group) :
    PartsOf c line group.flatten
      [part c group line (max (line + group.length - 1) c.endLine)] where
  text := by simp [part, unlines]
  first := rfl
  last := by
    rw [hw.countLines_flatten hne, Int.max_comm]
    rfl
  textEnd := by
    rw [countLines_eq]
    change some (line + newlines (dropFinalNewline group.flatten)) = _
    congr 1
    omega
  meets := List.IsChain.singleton _
  spans := by simp
  placed := by
    intro p hp
    rw [List.mem_singleton.mp hp]
    exact ⟨[], [], (List.append_nil _).symm, (Int.add_zero line).symm⟩

/-- A part for a group of whole lines goes before the parts of the lines behind them. -/
theorem PartsOf.cons {c : Chunk} {line : Int} {group more : List Text} {ps : List Chunk}
    (hne : group ≠ []) (hmore : more ≠ []) (hw : Whole (group ++ more))
    (h : PartsOf c (line + group.length) more.flatten ps) :
    PartsOf c line (group ++ more).flatten
      (part c group line (line + group.length - 1) :: ps) := by
  obtain ⟨htext, hfirst, hlast, htextEnd, hmeets, hspans, hplaced⟩ := h
  have hdrop := hw.dropFinalNewline_flatten hne hmore
  have hlength : (lines (dropFinalNewline group.flatten)).length = group.length := by
    rw [hw.of_append_left.lines_flatten hne, List.length_map]
  have hcount : line + countLines (group ++ more).flatten - 1 =
      line + group.length + countLines more.flatten - 1 := by
    rw [List.flatten_append, countLines_append _ (hw.of_append_right.flatten_ne_nil hmore),
      hw.newlines_flatten hmore]
    omega
  cases ps with
  | nil => cases hfirst
  | cons q qs =>
    have hq : q.startLine = line + group.length := Option.some.inj hfirst
    refine ⟨?_, rfl, ?_, ?_, List.isChain_cons_cons.mpr ⟨?_, hmeets⟩, ?_, ?_⟩
    · rw [List.map_cons, List.map_cons, unlines_cons_cons, ← List.map_cons, htext, hdrop]
      rfl
    · rw [List.getLast?_cons_cons, hlast, hcount]
    · rw [List.getLast?_cons_cons, htextEnd, hcount]
    · change q.startLine = line + group.length - 1 + 1
      omega
    · intro p hp
      rw [List.dropLast_cons_cons] at hp
      rcases List.mem_cons.mp hp with rfl | hp
      · change line + group.length - 1 - line + 1 =
          ((lines (dropFinalNewline group.flatten)).length : Int)
        omega
      · exact hspans p hp
    · intro p hp
      rw [hdrop, lines_append_newline]
      rcases List.mem_cons.mp hp with rfl | hp
      · exact ⟨[], _, rfl, (Int.add_zero line).symm⟩
      · obtain ⟨before, after, he, hstart⟩ := hplaced p hp
        refine ⟨lines (dropFinalNewline group.flatten) ++ before, after, ?_, ?_⟩
        · rw [he]
          simp only [List.append_assoc]
        · rw [hstart, List.length_append, hlength]
          omega

theorem partsOf_partsFrom (c : Chunk) (line : Int) {groups : List (List Text)} (hne : groups ≠ [])
    (hg : ∀ g ∈ groups, g ≠ []) (hw : Whole groups.flatten) :
    PartsOf c line groups.flatten.flatten (partsFrom c line groups) := by
  induction groups generalizing line with
  | nil => exact absurd rfl hne
  | cons group rest ih =>
    have hgroup := hg group (by simp)
    cases rest with
    | nil =>
      rw [List.flatten_cons, List.flatten_nil, List.append_nil] at hw ⊢
      exact partsOf_singleton c line hgroup hw
    | cons group' rest =>
      rw [List.flatten_cons] at hw ⊢
      have hmore : (group' :: rest).flatten ≠ [] := by
        have := hg group' (by simp)
        simp [this]
      exact PartsOf.cons hgroup hmore hw
        (ih _ (by simp) (fun g h => hg g (by simp [h])) hw.of_append_right)

theorem partsOf_splitChunk {r : Refiner} {c : Chunk} (hlong : r.maxChunkSize < c.content.length) :
    PartsOf c c.startLine c.content (r.splitChunk c) := by
  have hne : c.content ≠ [] := by
    intro he
    simp [he] at hlong
  have hflat := flatten_pack r.maxChunkSize (wholeLines c.content)
  have hparts := partsOf_partsFrom c c.startLine (pack_ne_nil r.maxChunkSize (wholeLines c.content))
    (fun g hg => ne_nil_of_mem_pack (wholeLines_eq_nil_iff.not.mpr hne) hg)
    (hflat.symm ▸ whole_wholeLines c.content)
  rw [hflat, flatten_wholeLines] at hparts
  rwa [splitChunk, if_neg (by omega)]

theorem splitChunk_cases (r : Refiner) (c : Chunk) :
    r.splitChunk c = [c] ∨
      r.maxChunkSize < c.content.length ∧ PartsOf c c.startLine c.content (r.splitChunk c) := by
  by_cases hshort : c.content.length ≤ r.maxChunkSize
  · exact Or.inl (if_pos hshort)
  · have hlong := Nat.lt_of_not_le hshort
    exact Or.inr ⟨hlong, partsOf_splitChunk hlong⟩

/-- A chunk within the limit stays as it is. Any other is cut into valid parts that newlines join
back, up to a newline at the end of the content. They start where the chunk starts, each on the line
after the one before, and each but the last stands for just its own lines; the last reaches to the
end of the chunk or of its lines, whichever comes later. -/
theorem splitChunk_partition {c : Chunk} (hc : c.Valid) {m k : Int} (hm : 1 ≤ m) (hk : 0 ≤ k) :
    ∃ r, ofSizes m k = .ok r ∧
      ((c.content.length : Int) ≤ m → r.splitChunk c = [c]) ∧
      (m < c.content.length →
        unlines ((r.splitChunk c).map Chunk.content) = dropFinalNewline c.content ∧
        (r.splitChunk c).head?.map Chunk.startLine = some c.startLine ∧
        (r.splitChunk c).IsChain (fun p q => q.startLine = p.endLine + 1) ∧
        (∀ p ∈ (r.splitChunk c).dropLast,
          p.endLine - p.startLine + 1 = (lines p.content).length) ∧
        (r.splitChunk c).getLast?.map Chunk.endLine =
          some (max c.endLine (c.startLine + countLines c.content - 1)) ∧
        ∀ p ∈ r.splitChunk c, p.Valid ∧ p.language = c.language ∧ p.filePath = c.filePath ∧
          p.nodeKind = c.nodeKind) := by
  refine ⟨⟨m.toNat, k.toNat⟩, ofSizes_of_le hm hk, ?_, ?_⟩
  · intro hshort
    have hle : c.content.length ≤ m.toNat := by omega
    exact if_pos hle
  · intro hlong
    have hlt : m.toNat < c.content.length := by omega
    have hparts := partsOf_splitChunk (r := ⟨m.toNat, k.toNat⟩) hlt
    refine ⟨hparts.text, hparts.first, hparts.meets, hparts.spans, hparts.last, ?_⟩
    intro p hp
    obtain ⟨hpart, _⟩ := splitChunk_part hlt hp
    exact ⟨valid_of_mem_splitChunk hc hp, hpart.language, hpart.filePath, hpart.nodeKind⟩

/-- Blank lines inside and at the end, and lines claimed beyond them. -/
def spacedChunk : Chunk :=
  ⟨"aa\n\nbb\n\n", 3, 9, "cpp", some "a.cpp", some "class_specifier", []⟩

theorem spacedChunk_partition :
    spacedChunk.Valid ∧
    Refiner.splitChunk ⟨4, 0⟩ spacedChunk =
      [⟨"aa\n", 3, 4, "cpp", some "a.cpp", some "class_specifier", []⟩,
        ⟨"bb\n", 5, 9, "cpp", some "a.cpp", some "class_specifier", []⟩] ∧
    ∃ r, ofSizes 4 0 = .ok r ∧
      unlines ((r.splitChunk spacedChunk).map Chunk.content) = Text.ofString "aa\n\nbb\n" ∧
      (r.splitChunk spacedChunk).head?.map Chunk.startLine = some 3 ∧
      (r.splitChunk spacedChunk).IsChain (fun p q => q.startLine = p.endLine + 1) ∧
      (∀ p ∈ (r.splitChunk spacedChunk).dropLast,
        p.endLine - p.startLine + 1 = (lines p.content).length) ∧
      (r.splitChunk spacedChunk).getLast?.map Chunk.endLine = some 9 ∧
      ∀ p ∈ r.splitChunk spacedChunk, p.Valid ∧ p.nodeKind = some "class_specifier" := by
  have hvalid : spacedChunk.Valid :=
    ⟨by decide, by decide, fun _ hs => absurd hs List.not_mem_nil⟩
  have h4 : (1 : Int) ≤ 4 := by decide
  have hlong : (4 : Int) < spacedChunk.content.length := by decide
  obtain ⟨r, hr, _, hparts⟩ := splitChunk_partition hvalid h4 (Int.le_refl 0)
  obtain ⟨htext, hfirst, hmeets, hspans, hlast, hlabels⟩ := hparts hlong
  exact ⟨hvalid, by decide, r, hr, htext, hfirst, hmeets, hspans, hlast,
    fun p hp => ⟨(hlabels p hp).1, (hlabels p hp).2.2.2⟩⟩

end Refiner
end SourceChunking
