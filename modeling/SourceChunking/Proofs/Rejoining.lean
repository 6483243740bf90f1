import SourceChunking.Proofs.Fallback

/-! # Plain text from its chunks

The chunks of plain text are consecutive stretches of it. A stretch loses its final newline,
and exactly then the next one starts on a line of its own, so the line numbers say where the
newlines belong that were taken off. Nothing is assumed about the pieces of the division.
-/
namespace SourceChunking
open Text

namespace Chunk

/-- The second chunk starts on the last line of the first, or on the line after it. -/
def Follows (c d : Chunk) : Prop := d.startLine = c.endLine ∨ d.startLine = c.endLine + 1

/-- The contents one behind the other, with a newline in front of a chunk that starts on the
line after the one before. -/
def rejoin : List Chunk → Text
  | [] => []
  | [c] => c.content
  | c :: d :: rest =>
    c.content ++ (if d.startLine = c.endLine + 1 then [.scalar '\n'] else []) ++ rejoin (d :: rest)

/-- Chunks that stand for a text which begins on a line: they follow each other from that line
to the last one and give the text back, up to its final newline. -/
structure Tile (line : Int) (t : Text) (cs : List Chunk) : Prop where
  first : cs.head?.map startLine = some line
  last : cs.getLast?.map endLine = some (line + countLines t - 1)
  follows : cs.IsChain Follows
  text : rejoin cs = t ∨ rejoin cs ++ [.scalar '\n'] = t

theorem Tile.ne_nil {line : Int} {t : Text} {cs : List Chunk} (h : Tile line t cs) : cs ≠ [] := by
  rintro rfl
  cases h.first

theorem tile_singleton {c : Chunk} {t : Text} (h : c.content = t ∨ c.content ++ [.scalar '\n'] = t)
    (hlast : c.endLine = c.startLine + countLines t - 1) : Tile c.startLine t [c] :=
  ⟨rfl, congrArg some hlast, List.IsChain.singleton c, h⟩

/-- A chunk for the front of a text goes before the chunks of the rest. -/
theorem Tile.cons {c : Chunk} {x y : Text} {cs : List Chunk} (hcontent : c.content = dropFinalNewline x)
    (hlast : c.endLine = c.startLine + newlines c.content) (hy : y ≠ [])
    (h : Tile (c.startLine + newlines x) y cs) : Tile c.startLine (x ++ y) (c :: cs) := by
  obtain ⟨hfirst, hend, hfollows, htext⟩ := h
  cases cs with
  | nil => cases hfirst
  | cons d rest =>
    have hd : d.startLine = c.startLine + newlines x := Option.some.inj hfirst
    -- the newline that the front has lost comes back exactly when the next line is a new one
    have hfront : Follows c d ∧
        c.content ++ (if d.startLine = c.endLine + 1 then [.scalar '\n'] else []) = x := by
      rw [Follows, hlast, hd, hcontent]
      rcases dropFinalNewline_cases x with ⟨he, _⟩ | ⟨he, _⟩
      · have hcount : newlines x = newlines (dropFinalNewline x) + 1 := by
          conv_lhs => rw [he]
          simp
        rw [if_pos (by omega), ← he]
        exact ⟨by omega, rfl⟩
      · rw [he, if_neg (by omega), List.append_nil]
        exact ⟨by omega, rfl⟩
    refine ⟨rfl, ?_, List.isChain_cons_cons.mpr ⟨hfront.1, hfollows⟩, ?_⟩
    · rw [List.getLast?_cons_cons, hend, countLines_append x hy]
      congr 1
      omega
    · rw [rejoin, hfront.2, List.append_assoc]
      exact htext.imp (congrArg (x ++ ·)) (congrArg (x ++ ·))

end Chunk

namespace Fallback
variable (language : Text) (filePath : Option Text)

theorem tile_whole (t : Text) : Chunk.Tile 1 t [chunkOf language filePath (Section.whole t)] := by
  refine Chunk.tile_singleton (c := chunkOf language filePath (Section.whole t)) (Or.inl rfl) ?_
  change (countLines t : Int) = 1 + countLines t - 1
  omega

theorem tile_sectionsFrom {t : Text} {position : Nat} (line : Nat) {cuts : List Nat}
    (hne : t ≠ []) (h : Ascending (position + t.length) (position + 1) cuts) :
    Chunk.Tile line t ((Section.sectionsFrom t position line cuts).map
      (chunkOf language filePath)) := by
  induction cuts generalizing t position line with
  | nil =>
    refine Chunk.tile_singleton (c := chunkOf language filePath (Section.ofStretch line t)) ?_ ?_
    · rcases dropFinalNewline_cases t with ⟨he, _⟩ | ⟨he, _⟩
      · exact Or.inr he.symm
      · exact Or.inl he
    · have hend := Section.endLine_ofStretch line t
      change ((Section.ofStretch line t).endLine : Int) = line + countLines t - 1
      omega
  | cons cut rest ih =>
    obtain ⟨hdrop, hasc⟩ := h.drop
    have hrest := ih (line + newlines (t.take (cut - position))) hdrop hasc
    rw [Int.natCast_add] at hrest
    have hcons := Chunk.Tile.cons
      (c := chunkOf language filePath (Section.ofStretch line (t.take (cut - position))))
      rfl rfl hdrop hrest
    rwa [List.take_append_drop] at hcons

theorem tile_chunksBy (t : Text) (division : Logged (Except String (List Text))) :
    Chunk.Tile 1 t (chunksBy language filePath t division).value := by
  rcases chunksBy_cases language filePath t division with he | ⟨pieces, ss, hne, hss, he⟩
  · rw [he]
    exact tile_whole language filePath t
  · rw [he]
    obtain ⟨cuts, rfl, hasc⟩ := Section.exists_cuts_of_ofPieces hss
    exact tile_sectionsFrom language filePath 1 hne hasc

/-- Whatever a division yields, pieces of any kind or a failure, the chunks of a text are valid,
run from its first line to its last and give the text back, but for a newline at its end. -/
theorem chunksBy_lossless (t : Text) (division : Logged (Except String (List Text))) :
    ∃ cs, (chunksBy language filePath t division).value = cs ∧ cs ≠ [] ∧
      cs.head?.map Chunk.startLine = some 1 ∧
      cs.getLast?.map Chunk.endLine = some (countLines t : Int) ∧
      cs.IsChain Chunk.Follows ∧
      (Chunk.rejoin cs = t ∨ Chunk.rejoin cs ++ [.scalar '\n'] = t) ∧
      ∀ c ∈ cs, c.Valid := by
  have htile := tile_chunksBy language filePath t division
  have hlast := htile.last
  rw [show (1 : Int) + countLines t - 1 = countLines t by omega] at hlast
  exact ⟨_, rfl, htile.ne_nil, htile.first, hlast, htile.follows, htile.text,
    fun c hc => valid_of_mem_chunksBy hc⟩

end Fallback
end SourceChunking
