import Mathlib.Data.List.FinRange
import SourceChunking.Proofs.RoundTrip
import SourceChunking.Proofs.StartLines

/-! # Symbols of the parts of a chunk

The parts of a chunk stand for consecutive lines, none of them twice and none of the chunk left out.
So the first line of a symbol lies on exactly one part. The symbol goes to that part if it ends there
too, and otherwise it straddles a cut and goes nowhere.
-/
namespace SourceChunking
namespace Chunk
variable {ps : List Chunk}

/-- The chunk stands for the line. -/
def OnLine (c : Chunk) (n : Int) : Prop := c.startLine ≤ n ∧ n ≤ c.endLine

/-- The range starts on a line of the chunk and ends behind its last one. -/
def Breaks (c : Chunk) (r : SymbolRange) : Prop := c.OnLine r.startLine ∧ c.endLine < r.endLine

theorem containsRange_iff {c : Chunk} {r : SymbolRange} :
    c.containsRange r = true ↔ c.startLine ≤ r.startLine ∧ r.endLine ≤ c.endLine := by
  simp [containsRange, within]

theorem onLine_of_containsRange {c : Chunk} {r : SymbolRange} (hr : r.Valid)
    (h : c.containsRange r = true) : c.OnLine r.startLine := by
  obtain ⟨hstart, hend⟩ := containsRange_iff.mp h
  obtain ⟨_, _, _, _, hle⟩ := hr
  exact ⟨hstart, by omega⟩

/-! ## Chunks one behind the other -/

theorem pairwise_of_meets (hmeets : ps.IsChain Meets) (hle : ∀ p ∈ ps, p.startLine ≤ p.endLine) :
    ps.Pairwise fun p q => p.endLine < q.startLine := by
  induction ps with
  | nil => exact List.Pairwise.nil
  | cons p rest ih =>
    have hrest := ih hmeets.tail fun q hq => hle q (List.mem_cons_of_mem p hq)
    refine List.pairwise_cons.mpr ⟨?_, hrest⟩
    intro q hq
    cases rest with
    | nil => cases hq
    | cons next rest =>
      have hnext : next.startLine = p.endLine + 1 := (List.isChain_cons_cons.mp hmeets).1
      have hordered := hle next (by simp)
      rcases List.mem_cons.mp hq with rfl | hq
      · omega
      · have := (List.pairwise_cons.mp hrest).1 q hq
        omega

theorem eq_of_onLine (h : ps.Pairwise fun p q => p.endLine < q.startLine) {j k : Fin ps.length}
    {n : Int} (hj : (ps.get j).OnLine n) (hk : (ps.get k).OnLine n) : j = k := by
  have hlt := List.pairwise_iff_get.mp h
  rcases lt_trichotomy j k with hjk | hjk | hjk
  · have := hlt j k hjk
    have := hj.2
    have := hk.1
    omega
  · exact hjk
  · have := hlt k j hjk
    have := hj.1
    have := hk.2
    omega

/-- The chunk that a range lies on, by its place. -/
def home? (ps : List Chunk) (r : SymbolRange) : Option (Fin ps.length) :=
  (List.finRange ps.length).find? fun j => (ps.get j).containsRange r

theorem containsRange_of_home? {r : SymbolRange} {j : Fin ps.length} (h : home? ps r = some j) :
    (ps.get j).containsRange r = true :=
  List.find?_some (p := fun j => (ps.get j).containsRange r) h

theorem home?_eq_some (h : ps.Pairwise fun p q => p.endLine < q.startLine) {r : SymbolRange}
    (hr : r.Valid) {j : Fin ps.length} :
    home? ps r = some j ↔ (ps.get j).containsRange r = true := by
  refine ⟨containsRange_of_home?, ?_⟩
  intro hj
  cases hk : home? ps r with
  | none => exact absurd hj (List.find?_eq_none.mp hk j (List.mem_finRange j))
  | some k =>
    have hon := onLine_of_containsRange hr (containsRange_of_home? hk)
    rw [eq_of_onLine h hon (onLine_of_containsRange hr hj)]

/-- A range that starts on one of the chunks lies on none of them exactly if it is cut short by one. -/
theorem home?_eq_none (h : ps.Pairwise fun p q => p.endLine < q.startLine) {r : SymbolRange}
    (hr : r.Valid) {j : Fin ps.length} (hj : (ps.get j).OnLine r.startLine) :
    home? ps r = none ↔ ∃ p ∈ ps, p.Breaks r := by
  constructor
  · intro hnone
    have hout := List.find?_eq_none.mp hnone j (List.mem_finRange j)
    rw [containsRange_iff] at hout
    have hstart := hj.1
    exact ⟨ps.get j, List.get_mem ps j, hj, by omega⟩
  · rintro ⟨p, hp, hon, hshort⟩
    obtain ⟨k, rfl⟩ := List.get_of_mem hp
    refine List.find?_eq_none.mpr fun l _ hl => ?_
    obtain rfl := eq_of_onLine h hon (onLine_of_containsRange hr hl)
    have := (containsRange_iff.mp hl).2
    omega

end Chunk

namespace Refiner
variable {r : Refiner} {c : Chunk}

theorem pairwise_splitChunk (r : Refiner) (hc : c.Valid) :
    (r.splitChunk c).Pairwise fun p q => p.endLine < q.startLine :=
  Chunk.pairwise_of_meets ((isChain_splitChunk r c).imp fun _ _ h => h.1) fun _ hp =>
    (valid_of_mem_splitChunk hc hp).2.1

/-- No line of a chunk is left out by its parts, even if the content has other lines. -/
theorem exists_part_onLine (r : Refiner) {n : Int} (hn : c.OnLine n) :
    ∃ p ∈ r.splitChunk c, p.OnLine n := by
  unfold splitChunk
  split_ifs with hshort
  · exact ⟨c, List.mem_singleton_self c, hn⟩
  · have hne : c.content ≠ [] := by
      intro he
      simp [he] at hshort
    have hcover := covers_partsFrom c c.startLine (pack_ne_nil r.maxChunkSize (wholeLines c.content))
      (fun g hg => ne_nil_of_mem_pack (wholeLines_eq_nil_iff.not.mpr hne) hg)
    have hend := hn.2
    obtain ⟨range, hrange, hon⟩ := (hcover n).mpr ⟨hn.1, by omega⟩
    obtain ⟨p, hp, rfl⟩ := List.mem_map.mp hrange
    exact ⟨p, hp, hon⟩

theorem symbols_of_mem_splitChunk (hc : c.Valid) {p : Chunk} (hp : p ∈ r.splitChunk c) :
    p.symbols = c.symbols.filter fun s => p.containsRange s.range := by
  by_cases hshort : c.content.length ≤ r.maxChunkSize
  · rw [splitChunk, if_pos hshort] at hp
    rw [List.mem_singleton.mp hp]
    exact (List.filter_eq_self.mpr hc.2.2).symm
  · exact (splitChunk_part (by omega) hp).1.symbols

/-- Symbols go where their lines go. Every occurrence of a symbol in a chunk has at most one part that
it goes to, the one on whose lines it lies. It has none exactly if it starts on the lines of a part and
ends behind them. Each part has the symbols that go to it, in the order of the chunk, and passes the
checks of a chunk. -/
theorem splitChunk_symbols (hc : c.WellFormed) {m k : Int} (hm : 1 ≤ m) (hk : 0 ≤ k) :
    ∃ r, ofSizes m k = .ok r ∧ (∀ p ∈ r.splitChunk c, p.checked = .ok p) ∧
      ∃ home : Fin c.symbols.length → Option (Fin (r.splitChunk c).length),
        (∀ j, ((r.splitChunk c).get j).symbols =
          ((List.finRange c.symbols.length).filter fun i => home i = some j).map c.symbols.get) ∧
        (∀ i j, home i = some j ↔
          ((r.splitChunk c).get j).startLine ≤ (c.symbols.get i).range.startLine ∧
            (c.symbols.get i).range.endLine ≤ ((r.splitChunk c).get j).endLine) ∧
        ∀ i, home i = none ↔ ∃ p ∈ r.splitChunk c,
          (p.startLine ≤ (c.symbols.get i).range.startLine ∧
            (c.symbols.get i).range.startLine ≤ p.endLine) ∧
          p.endLine < (c.symbols.get i).range.endLine := by
  obtain ⟨hvalid, hsymbols⟩ := hc
  obtain ⟨r, hr⟩ : ∃ r, ofSizes m k = .ok r := ⟨_, ofSizes_of_le hm hk⟩
  have hapart := pairwise_splitChunk r hvalid
  have hrange : ∀ i, (c.symbols.get i).range.Valid := fun i =>
    (hsymbols _ (List.get_mem c.symbols i)).1
  have hhome : ∀ i j, Chunk.home? (r.splitChunk c) (c.symbols.get i).range = some j ↔
      ((r.splitChunk c).get j).containsRange (c.symbols.get i).range = true :=
    fun i _ => Chunk.home?_eq_some hapart (hrange i)
  refine ⟨r, hr, fun p hp => Chunk.checked_of_valid (valid_of_mem_splitChunk hvalid hp),
    fun i => Chunk.home? (r.splitChunk c) (c.symbols.get i).range, ?_, ?_, ?_⟩
  · intro j
    rw [symbols_of_mem_splitChunk hvalid (List.get_mem _ j)]
    conv_lhs => rw [← List.map_get_finRange c.symbols, List.filter_map]
    congr 2
    funext i
    rw [Bool.eq_iff_iff, decide_eq_true_iff, hhome]
    rfl
  · intro i j
    rw [hhome, Chunk.containsRange_iff]
  · intro i
    obtain ⟨hstart, hend⟩ := Chunk.containsRange_iff.mp (hvalid.2.2 _ (List.get_mem c.symbols i))
    obtain ⟨_, _, _, _, hle⟩ := hrange i
    obtain ⟨p, hp, hon⟩ := exists_part_onLine r (n := (c.symbols.get i).range.startLine)
      (c := c) ⟨hstart, by omega⟩
    obtain ⟨j, rfl⟩ := List.get_of_mem hp
    exact Chunk.home?_eq_none hapart (hrange i) hon

/-- A symbol on the first two of four lines, one across the middle, one on the fourth line, and the
first one again. The chunk claims two lines beyond its content, on which one more symbol ends. -/
def crossedChunk : Chunk where
  content := "a\nb\nc\nd"
  startLine := 1
  endLine := 6
  language := "cpp"
  filePath := none
  nodeKind := none
  symbols :=
    [.bare ['a'] .function ⟨1, 2, 0, 1⟩, .bare ['b'] .function ⟨2, 3, 0, 1⟩,
      .bare ['d'] .function ⟨4, 4, 0, 1⟩, .bare ['a'] .function ⟨1, 2, 0, 1⟩,
      .bare ['e'] .function ⟨3, 6, 0, 1⟩]

theorem wellFormed_crossedChunk : crossedChunk.WellFormed := by
  refine ⟨⟨by decide, by decide, by decide⟩, by decide⟩

theorem crossedChunk_symbols :
    crossedChunk.WellFormed ∧ ofSizes 4 0 = .ok ⟨4, 0⟩ ∧
    (Refiner.splitChunk ⟨4, 0⟩ crossedChunk).map (fun p => (p.startLine, p.endLine)) =
      [(1, 2), (3, 6)] ∧
    (Refiner.splitChunk ⟨4, 0⟩ crossedChunk).map (fun p => p.symbols.map Symbol.name) =
      [[.ofString "a", .ofString "a"], [.ofString "d", .ofString "e"]] ∧
    (∀ p ∈ Refiner.splitChunk ⟨4, 0⟩ crossedChunk, p.checked = .ok p) ∧
    ∃ home : Fin crossedChunk.symbols.length →
        Option (Fin (Refiner.splitChunk ⟨4, 0⟩ crossedChunk).length),
      (∀ j, ((Refiner.splitChunk ⟨4, 0⟩ crossedChunk).get j).symbols =
        ((List.finRange crossedChunk.symbols.length).filter fun i => home i = some j).map
          crossedChunk.symbols.get) ∧
      home ⟨1, by decide⟩ = none ∧ home ⟨3, by decide⟩ = some ⟨0, by decide⟩ ∧
      home ⟨4, by decide⟩ = some ⟨1, by decide⟩ := by
  have h4 : (1 : Int) ≤ 4 := by decide
  obtain ⟨r, hr, hchecked, home, hsymbols, hhome, hlost⟩ :=
    splitChunk_symbols wellFormed_crossedChunk h4 (Int.le_refl 0)
  obtain rfl : ⟨4, 0⟩ = r := Except.ok.inj hr
  refine ⟨wellFormed_crossedChunk, hr, by decide, by decide, hchecked, home, hsymbols, ?_, ?_, ?_⟩
  · exact (hlost _).mpr ⟨_, List.mem_cons_self, ⟨by decide, by decide⟩, by decide⟩
  · exact (hhome _ _).mpr ⟨by decide, by decide⟩
  · exact (hhome _ _).mpr ⟨by decide, by decide⟩

end Refiner
end SourceChunking
