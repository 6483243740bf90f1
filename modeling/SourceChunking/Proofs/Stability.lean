import SourceChunking.Proofs.SymbolParts

/-! # Refined chunks stay as they are

A chunk is kept by splitting if it is within the limit, and also if it is a single line in proper
shape: its one line is packed alone and its part is built with the same fields. Splitting leaves
only such chunks, and a greater limit lets all of them pass. So a second refinement, with the same
limit or a greater one, changes nothing.
-/
namespace SourceChunking.Refiner
open Text

/-- Within the limit, or a single line that splitting builds again as it was. -/
def Settled (limit : Nat) (c : Chunk) : Prop :=
  c.content.length ≤ limit ∨
    .scalar '\n' ∉ c.content ∧ c.startLine ≤ c.endLine ∧ ∀ s ∈ c.symbols, c.containsRange s.range

theorem Settled.mono {limit limit' : Nat} {c : Chunk} (h : Settled limit c)
    (hle : limit ≤ limit') : Settled limit' c := by
  apply h.imp_left
  intro hshort
  exact hshort.trans hle

theorem wholeLines_of_newline_notMem {t : Text} (hne : t ≠ []) (h : .scalar '\n' ∉ t) :
    wholeLines t = [t] := by
  induction t with
  | nil => exact absurd rfl hne
  | cons c t ih =>
    rw [List.mem_cons, not_or] at h
    rw [wholeLines, if_neg (Ne.symm h.1)]
    cases t with
    | nil => rfl
    | cons c' t => rw [ih (by simp) h.2]

theorem pack_singleton (limit : Nat) (line : Text) : pack limit [line] = [[line]] := by
  simp [pack, packFrom]

/-- The part of a chunk for its only line is the chunk. -/
theorem part_self {c : Chunk} (hline : .scalar '\n' ∉ c.content) (hle : c.startLine ≤ c.endLine)
    (hsymbols : ∀ s ∈ c.symbols, c.containsRange s.range) :
    part c [c.content] c.startLine (max (c.startLine + [c.content].length - 1) c.endLine) = c := by
  have hcontent : dropFinalNewline [c.content].flatten = c.content := by
    have hends : endsLine c.content = false := by
      by_contra hends
      obtain ⟨s, hs⟩ := exists_of_endsLine (Bool.eq_true_of_not_eq_false hends)
      exact hline (by simp [hs])
    rw [List.flatten_singleton, dropFinalNewline_of_not_endsLine hends]
  have hstop : max (c.startLine + [c.content].length - 1) c.endLine = c.endLine := by
    rw [List.length_singleton]
    omega
  have hkept : (c.symbols.filter fun s => Chunk.within c.startLine c.endLine s.range) = c.symbols :=
    List.filter_eq_self.mpr hsymbols
  rw [part, hcontent, hstop, hkept]

theorem splitChunk_of_settled {r : Refiner} {c : Chunk} (h : Settled r.maxChunkSize c) :
    r.splitChunk c = [c] := by
  unfold splitChunk
  split_ifs with hshort
  · rfl
  · obtain ⟨hline, hle, hsymbols⟩ := h.resolve_left hshort
    have hne : c.content ≠ [] := by
      intro he
      simp [he] at hshort
    rw [wholeLines_of_newline_notMem hne hline, pack_singleton, partsFrom,
      part_self hline hle hsymbols]

/-- Splitting leaves nothing to split: a part above the limit is one line, its own symbols are on
it, and its last line is not before its first, however far it was moved. -/
theorem settled_of_mem_splitChunk {r : Refiner} {c d : Chunk} (h : d ∈ r.splitChunk c) :
    Settled r.maxChunkSize d := by
  by_cases hshort : d.content.length ≤ r.maxChunkSize
  · exact Or.inl hshort
  · right
    have hlong : r.maxChunkSize < c.content.length := by
      by_contra hle
      rw [splitChunk, if_pos (by omega)] at h
      rw [List.mem_singleton.mp h] at hshort
      omega
    obtain ⟨hpart, _, _, _, _, hlines⟩ := splitChunk_part hlong h
    have hpos := countLines_pos d.content
    refine ⟨(length_le_of_mem_splitChunk h).resolve_left hshort, by omega, ?_⟩
    intro s hs
    rw [hpart.symbols] at hs
    exact (List.mem_filter.mp hs).2

theorem splitChunk_eq_singleton_iff {r : Refiner} {c : Chunk} :
    r.splitChunk c = [c] ↔ Settled r.maxChunkSize c := by
  constructor
  · intro h
    apply settled_of_mem_splitChunk (c := c)
    rw [h]
    exact List.mem_singleton_self c
  · exact splitChunk_of_settled

theorem settled_of_mem_resize {r : Refiner} {cs : List Chunk} {d : Chunk} (h : d ∈ r.resize cs) :
    Settled r.maxChunkSize d := by
  obtain ⟨c, _, hd⟩ := List.mem_flatMap.mp h
  exact settled_of_mem_splitChunk hd

theorem resize_eq_self_iff {r : Refiner} {cs : List Chunk} :
    r.resize cs = cs ↔ ∀ c ∈ cs, Settled r.maxChunkSize c := by
  constructor
  · intro h c hc
    rw [← h] at hc
    exact settled_of_mem_resize hc
  · intro h
    rw [resize, List.flatMap_congr fun c hc => splitChunk_eq_singleton_iff.mpr (h c hc),
      List.flatMap_singleton']

/-- Without overlap, refinement of settled chunks returns them and reports nothing. -/
theorem refine_of_settled {r : Refiner} (hoverlap : r.overlapSize = 0) {cs : List Chunk}
    (h : ∀ c ∈ cs, Settled r.maxChunkSize c) : r.refine cs = pure cs := by
  have hsame := resize_eq_self_iff.mpr h
  have hvalue := refine_of_no_overlap hoverlap cs
  rw [value_refine, hsame] at hvalue
  simp only [refine, hsame, hvalue, ne_eq, not_true_eq_false, if_false]

/-- Refinement without overlap is stable: a second one with the same limit or a greater one returns
the chunks of the first in every field and reports no further split. All of them pass the check that
chunks are handed out with, if the chunks at the start are valid. -/
theorem refine_stable (cs : List Chunk) {m m' : Int} (hm : 1 ≤ m) (hle : m ≤ m') :
    ∃ r r', ofSizes m 0 = .ok r ∧ ofSizes m' 0 = .ok r' ∧
      r'.refine (r.refine cs).value = pure (r.refine cs).value ∧
      ((∀ c ∈ cs, c.Valid) → ∀ d ∈ (r.refine cs).value, d.checked = .ok d) := by
  refine ⟨⟨m.toNat, 0⟩, ⟨m'.toNat, 0⟩, ofSizes_of_le hm (Int.le_refl 0),
    ofSizes_of_le (hm.trans hle) (Int.le_refl 0), ?_, ?_⟩
  · apply refine_of_settled rfl
    intro d hd
    rw [refine_of_no_overlap rfl] at hd
    apply (settled_of_mem_resize hd).mono
    exact Int.toNat_le_toNat hle
  · intro hvalid d hd
    rw [refine_of_no_overlap rfl] at hd
    exact Chunk.checked_of_valid (valid_of_mem_resize hvalid hd)

/-- A short line, and a long one that stands for three lines more, with one symbol across both lines
and one on all lines of the second. -/
def stretchedChunk : Chunk where
  content := "ab\ntoo long\n"
  startLine := 1
  endLine := 5
  language := "cpp"
  filePath := none
  nodeKind := none
  symbols := [.bare ['a'] .function ⟨1, 2, 0, 1⟩, .bare ['t'] .function ⟨2, 5, 0, 1⟩]

theorem stretchedChunk_stable :
    stretchedChunk.Valid ∧
    (Refiner.refine ⟨4, 0⟩ [stretchedChunk]).value.map (fun d =>
        (d.content, d.startLine, d.endLine, d.symbols.map Symbol.name)) =
      [(Text.ofString "ab", 1, 1, []), (Text.ofString "too long", 2, 5, [Text.ofString "t"])] ∧
    ∃ r r', ofSizes 4 0 = .ok r ∧ ofSizes 6 0 = .ok r' ∧
      r'.refine (r.refine [stretchedChunk]).value = pure (r.refine [stretchedChunk]).value ∧
      ∀ d ∈ (r.refine [stretchedChunk]).value, d.checked = .ok d := by
  have hvalid : stretchedChunk.Valid := ⟨by decide, by decide, by decide⟩
  have hm : (1 : Int) ≤ 4 := by decide
  have hle : (4 : Int) ≤ 6 := by decide
  obtain ⟨r, r', hr, hr', hsame, hchecked⟩ := refine_stable [stretchedChunk] hm hle
  refine ⟨hvalid, by decide, r, r', hr, hr', hsame, hchecked ?_⟩
  intro c hc
  rwa [List.mem_singleton.mp hc]

end SourceChunking.Refiner
