import SourceChunking.Chunk.Fallback
import SourceChunking.Proofs.Refinement

/-! # Sections of plain text

Pieces are found at strictly increasing offsets, so the text is cut into stretches that are
not empty. Whatever the pieces are, the sections stand for all lines of the text, each has
room for its lines and reads the text from the row on which it starts.
-/
namespace SourceChunking
open Text

theorem offset?_prefix {piece t : Text} {d : Nat} (h : offset? piece t = some d) :
    d ≤ t.length ∧ piece <+: t.drop d := by
  induction t generalizing d with
  | nil =>
    unfold offset? at h
    split_ifs at h with he
    cases h
    rw [List.isEmpty_iff] at he
    simp [he]
  | cons c rest ih =>
    unfold offset? at h
    split_ifs at h with he
    · cases h
      exact ⟨Nat.zero_le _, List.isPrefixOf_iff_prefix.mp he⟩
    · obtain ⟨k, hk, rfl⟩ := Option.map_eq_some_iff.mp h
      obtain ⟨hle, hp⟩ := ih hk
      exact ⟨by simpa using hle, by simpa using hp⟩

theorem offset?_add_length_le {piece t : Text} {d : Nat} (h : offset? piece t = some d) :
    d + piece.length ≤ t.length := by
  obtain ⟨hle, hp⟩ := offset?_prefix h
  have := hp.length_le
  rw [List.length_drop] at this
  omega

/-- A piece that occurs is found, at its first occurrence. -/
theorem exists_offset?_le {piece t : Text} {k : Nat} (h : piece <+: t.drop k) :
    ∃ d ≤ k, offset? piece t = some d := by
  induction t generalizing k with
  | nil =>
    have hnil : piece = [] := by simpa using h
    exact ⟨0, Nat.zero_le k, by simp [offset?, hnil]⟩
  | cons c rest ih =>
    by_cases hp : piece.isPrefixOf (c :: rest) = true
    · exact ⟨0, Nat.zero_le k, by simp [offset?, hp]⟩
    · cases k with
      | zero => exact absurd (List.isPrefixOf_iff_prefix.mpr h) hp
      | succ k =>
        obtain ⟨d, hd, he⟩ := ih (k := k) (by simpa using h)
        exact ⟨d + 1, by omega, by simp [offset?, hp, he]⟩

theorem offset?_eq_some_iff {piece t : Text} {k : Nat} :
    offset? piece t = some k ↔ piece <+: t.drop k ∧ ∀ j < k, ¬piece <+: t.drop j := by
  constructor
  · intro h
    obtain ⟨_, hp⟩ := offset?_prefix h
    refine ⟨hp, fun j hj hearly => ?_⟩
    obtain ⟨d, hd, he⟩ := exists_offset?_le hearly
    rw [h, Option.some.injEq] at he
    omega
  · rintro ⟨h, hfirst⟩
    obtain ⟨d, hd, he⟩ := exists_offset?_le h
    obtain ⟨_, hp⟩ := offset?_prefix he
    rcases Nat.lt_or_eq_of_le hd with hlt | rfl
    · exact absurd hp (hfirst d hlt)
    · exact he

theorem mem_extract_iff {α : Type} {xs : List α} {a b : Nat} {x : α} :
    x ∈ xs.extract a b ↔ ∃ i, a ≤ i ∧ i < b ∧ xs[i]? = some x := by
  rw [List.extract_eq_take_drop, List.mem_iff_getElem?]
  constructor
  · rintro ⟨k, hk⟩
    rw [List.getElem?_take] at hk
    split_ifs at hk with hlt
    rw [List.getElem?_drop] at hk
    exact ⟨a + k, by omega, by omega, hk⟩
  · rintro ⟨i, ha, hb, hi⟩
    refine ⟨i - a, ?_⟩
    rw [List.getElem?_take_of_lt (by omega), List.getElem?_drop, Nat.add_sub_cancel' ha, hi]

/-- Offsets from `low` on that increase and stay below `high`. -/
def Ascending (high : Nat) : Nat → List Nat → Prop
  | _, [] => True
  | low, cut :: rest => low ≤ cut ∧ cut < high ∧ Ascending high (cut + 1) rest

theorem Ascending.weaken {high low low' : Nat} {cuts : List Nat} (h : Ascending high low cuts)
    (hle : low' ≤ low) : Ascending high low' cuts := by
  cases cuts with
  | nil => trivial
  | cons cut rest => exact ⟨hle.trans h.1, h.2⟩

/-- Behind a cut there is text left, and the later cuts divide it. -/
theorem Ascending.drop {t : Text} {position cut : Nat} {rest : List Nat}
    (h : Ascending (position + t.length) (position + 1) (cut :: rest)) :
    t.drop (cut - position) ≠ [] ∧
      Ascending (cut + (t.drop (cut - position)).length) (cut + 1) rest := by
  obtain ⟨hlow, hhigh, hrest⟩ := h
  constructor
  · intro he
    have := congrArg List.length he
    simp at this
    omega
  · rw [List.length_drop, show cut + (t.length - (cut - position)) = position + t.length by omega]
    exact hrest

theorem ascending_anchorsFrom (t : Text) (position : Nat) (pieces : List Text) :
    Ascending (position + t.length) position (anchorsFrom t position pieces) := by
  induction pieces generalizing t position with
  | nil => trivial
  | cons p rest ih =>
    unfold anchorsFrom
    split_ifs with hp
    · exact ih t position
    · have hpos : 0 < p.length := by
        rw [List.isEmpty_iff] at hp
        exact List.length_pos_iff.mpr hp
      split
      · exact ih t position
      · next distance hd =>
        have hle := offset?_add_length_le hd
        have hrest := ih (t.drop (distance + p.length)) (position + distance + p.length)
        rw [List.length_drop] at hrest
        rw [show position + distance + p.length + (t.length - (distance + p.length)) =
          position + t.length by omega] at hrest
        exact ⟨by omega, by omega, hrest.weaken (by omega)⟩

namespace Section

def lineRange (s : Section) : Int × Int := (s.startLine, s.endLine)

theorem attributed_whole (source : Text) :
    Attributed source (whole source).content (whole source).startLine (whole source).endLine :=
  ⟨⟨by simp [whole], by simp [whole]⟩, readFrom_self source⟩

theorem attributed_ofStretch {s : Section} (x stretch y : Text)
    (h : s = ofStretch (newlines x + 1) stretch) :
    Attributed (x ++ stretch ++ y) s.content s.startLine s.endLine := by
  subst h
  refine ⟨⟨?_, ?_⟩, ?_⟩
  · simp only [ofStretch]
    omega
  · have hle := newlines_dropFinalNewline_le (dropFinalNewline stretch)
    simp only [ofStretch, countLines_eq]
    omega
  · rw [show (((ofStretch (newlines x + 1) stretch).startLine : Int) - 1).toNat = newlines x by
      simp [ofStretch]]
    change ReadFrom _ (newlines x) (dropFinalNewline stretch)
    rcases dropFinalNewline_cases stretch with ⟨he, _⟩ | ⟨he, _⟩
    · have := readFrom_part x (dropFinalNewline stretch) ('\n' :: y)
      rw [he]
      simpa using this
    · rw [he]
      exact readFrom_part x stretch y

/-- The part of the source before the sections at hand determines the line they start on. -/
theorem attributed_sectionsFrom {s : Section} (x t : Text) (position : Nat) (cuts : List Nat)
    (h : s ∈ sectionsFrom t position (newlines x + 1) cuts) :
    Attributed (x ++ t) s.content s.startLine s.endLine := by
  induction cuts generalizing x t position with
  | nil => simpa using attributed_ofStretch x t [] (List.mem_singleton.mp h)
  | cons cut rest ih =>
    have hsplit : x ++ t = x ++ t.take (cut - position) ++ t.drop (cut - position) := by simp
    rw [hsplit]
    rcases List.mem_cons.mp h with h | h
    · exact attributed_ofStretch x (t.take (cut - position)) (t.drop (cut - position)) h
    · refine ih (x ++ t.take (cut - position)) (t.drop (cut - position)) cut ?_
      rw [newlines_append, Nat.add_right_comm]
      exact h

theorem endLine_ofStretch (line : Nat) (t : Text) :
    (ofStretch line t).endLine + 1 = line + countLines t := by
  rw [countLines_eq]
  rfl

theorem covers_sectionsFrom {t : Text} {position : Nat} (line : Nat) {cuts : List Nat}
    (hne : t ≠ []) (h : Ascending (position + t.length) (position + 1) cuts) :
    Covers ((sectionsFrom t position line cuts).map lineRange) line (line + countLines t - 1) := by
  induction cuts generalizing t position line with
  | nil =>
    have := endLine_ofStretch line t
    rw [show (line + countLines t - 1 : Int) = (ofStretch line t).endLine by omega]
    exact covers_singleton _ _
  | cons cut rest ih =>
    obtain ⟨hdrop, hasc⟩ := h.drop
    have hcount : countLines t =
        newlines (t.take (cut - position)) + countLines (t.drop (cut - position)) := by
      conv_lhs => rw [← List.take_append_drop (cut - position) t]
      exact countLines_append _ hdrop
    have hcovers := ih (line + newlines (t.take (cut - position))) hdrop hasc
    have hend := endLine_ofStretch line (t.take (cut - position))
    have hle := newlines_dropFinalNewline_le (t.take (cut - position))
    have hpos := countLines_pos (t.drop (cut - position))
    rw [countLines_eq] at hend
    rw [show ((line + newlines (t.take (cut - position)) : Nat) : Int) +
      countLines (t.drop (cut - position)) - 1 = line + countLines t - 1 by omega] at hcovers
    have hge : newlines (t.take (cut - position)) ≤
        newlines (dropFinalNewline (t.take (cut - position))) + 1 := by
      rcases dropFinalNewline_cases (t.take (cut - position)) with ⟨he, _⟩ | ⟨he, _⟩
      · conv_lhs => rw [he]
        simp
      · rw [he]
        omega
    change Covers ((↑line, ↑(ofStretch line (t.take (cut - position))).endLine) ::
      (sectionsFrom (t.drop (cut - position)) cut
        (line + newlines (t.take (cut - position))) rest).map lineRange) _ _
    exact hcovers.cons (by omega) (by omega) (by omega)

/-- Sections are cut at offsets that increase, whatever the pieces are. -/
theorem exists_cuts_of_ofPieces {t : Text} {pieces : List Text} {ss : List Section}
    (h : ofPieces t pieces = some ss) :
    ∃ cuts, ss = sectionsFrom t 0 1 cuts ∧ Ascending (0 + t.length) (0 + 1) cuts := by
  have hasc := ascending_anchorsFrom t 0 pieces
  unfold ofPieces anchors at h
  cases ha : anchorsFrom t 0 pieces with
  | nil => simp [ha] at h
  | cons first cuts =>
    rw [ha] at h hasc
    cases h
    exact ⟨cuts, rfl, hasc.2.2.weaken (by omega)⟩

theorem ofPieces_spec {t : Text} {pieces : List Text} {ss : List Section} (hne : t ≠ [])
    (h : ofPieces t pieces = some ss) :
    (∀ s ∈ ss, Attributed t s.content s.startLine s.endLine) ∧
      Covers (ss.map lineRange) 1 (countLines t) := by
  obtain ⟨cuts, rfl, hasc⟩ := exists_cuts_of_ofPieces h
  constructor
  · intro s hs
    exact attributed_sectionsFrom [] t 0 cuts hs
  · have := covers_sectionsFrom 1 hne hasc
    rwa [show ((1 : Nat) : Int) + countLines t - 1 = countLines t by omega] at this

end Section

namespace Fallback

theorem attributed_map_chunkOf {t : Text} {ss : List Section} (language : Text)
    (filePath : Option Text) (h : ∀ s ∈ ss, Attributed t s.content s.startLine s.endLine)
    (hc : Covers (ss.map Section.lineRange) 1 (countLines t)) :
    (∀ c ∈ ss.map (chunkOf language filePath), Attributed t c.content c.startLine c.endLine) ∧
      Covers ((ss.map (chunkOf language filePath)).map Chunk.lineRange) 1 (countLines t) := by
  constructor
  · intro c hm
    obtain ⟨s, hs, rfl⟩ := List.mem_map.mp hm
    exact h s hs
  · rwa [List.map_map, show Chunk.lineRange ∘ chunkOf language filePath = Section.lineRange from rfl]

theorem attributed_whole (language : Text) (filePath : Option Text) (t : Text) :
    (∀ c ∈ [chunkOf language filePath (Section.whole t)],
      Attributed t c.content c.startLine c.endLine) ∧
      Covers ([chunkOf language filePath (Section.whole t)].map Chunk.lineRange) 1
        (countLines t) := by
  have hs : ∀ s ∈ [Section.whole t], Attributed t s.content s.startLine s.endLine := by
    intro s hs
    rw [List.mem_singleton.mp hs]
    exact Section.attributed_whole t
  exact attributed_map_chunkOf language filePath hs (covers_singleton _ _)

/-- A text is one chunk, or its chunks are the sections that some pieces give. -/
theorem chunksBy_cases (language : Text) (filePath : Option Text) (t : Text)
    (division : Logged (Except String (List Text))) :
    (chunksBy language filePath t division).value = [chunkOf language filePath (Section.whole t)] ∨
    ∃ pieces ss, t ≠ [] ∧ Section.ofPieces t pieces = some ss ∧
      (chunksBy language filePath t division).value = ss.map (chunkOf language filePath) := by
  unfold chunksBy
  split_ifs with hblank
  · exact Or.inl rfl
  · have hne : t ≠ [] := ne_nil_of_allBlank_eq_false (by simpa using hblank)
    rw [Logged.value_bind]
    unfold chunksOf
    rw [Logged.value_bind]
    split
    · exact Or.inl rfl
    · next ss hss =>
      cases hd : division.value with
      | error e => simp [hd, sections] at hss
      | ok pieces =>
        rw [hd] at hss
        exact Or.inr ⟨pieces, ss, hne, hss, rfl⟩

/-- Whatever the division of a text yields, its chunks stand for its lines. -/
theorem attributed_chunksBy (language : Text) (filePath : Option Text) (t : Text)
    (division : Logged (Except String (List Text))) :
    (∀ c ∈ (chunksBy language filePath t division).value,
      Attributed t c.content c.startLine c.endLine) ∧
      Covers ((chunksBy language filePath t division).value.map Chunk.lineRange) 1
        (countLines t) := by
  rcases chunksBy_cases language filePath t division with he | ⟨pieces, ss, hne, hss, he⟩
  · rw [he]
    exact attributed_whole language filePath t
  · rw [he]
    obtain ⟨ha, hc⟩ := Section.ofPieces_spec hne hss
    exact attributed_map_chunkOf language filePath ha hc

theorem symbols_of_mem_chunksBy {language : Text} {filePath : Option Text} {t : Text}
    {division : Logged (Except String (List Text))} {c : Chunk}
    (h : c ∈ (chunksBy language filePath t division).value) : c.symbols = [] := by
  rcases chunksBy_cases language filePath t division with he | ⟨_, ss, _, _, he⟩
  · rw [he] at h
    rw [List.mem_singleton.mp h]
    rfl
  · rw [he] at h
    obtain ⟨s, _, rfl⟩ := List.mem_map.mp h
    rfl

theorem valid_of_mem_chunksBy {language : Text} {filePath : Option Text} {t : Text}
    {division : Logged (Except String (List Text))} {c : Chunk}
    (h : c ∈ (chunksBy language filePath t division).value) : c.Valid := by
  have hfits := ((attributed_chunksBy language filePath t division).1 c h).toFits
  exact ⟨hfits.one_le, hfits.ordered, by simp [symbols_of_mem_chunksBy h]⟩

end Fallback
end SourceChunking
