import Mathlib.Data.List.Forall2
import SourceChunking.Proofs.Refinement

/-! # Sizes of refined chunks

Packing counts every line with its newline, so a group of several lines is within the limit even
before its last newline is dropped. Only a line that is too long by itself exceeds the limit, and
such a line stands alone. Overlap adds its own size and one separator, whatever the neighbour is.
-/
namespace SourceChunking.Refiner
open Text

/-- A single line, or lines that are within the limit together. -/
def Bounded (limit : Nat) (group : List Text) : Prop :=
  group.flatten.length ≤ limit ∨ ∃ line, group = [line]

theorem bounded_nil (limit : Nat) : Bounded limit [] := Or.inl (Nat.zero_le limit)

theorem bounded_singleton (limit : Nat) (line : Text) : Bounded limit [line] :=
  Or.inr ⟨line, rfl⟩

theorem Bounded.reverse {limit : Nat} {group : List Text} (h : Bounded limit group) :
    Bounded limit group.reverse := by
  rcases h with h | ⟨line, rfl⟩
  · left
    simpa [List.length_flatten, List.map_reverse, List.sum_reverse] using h
  · exact bounded_singleton limit line

/-- The group at hand is bounded and its length is known; both are kept when a line joins it and
when a line opens the next group. -/
theorem bounded_of_mem_packFrom {limit length : Nat} {group lines g : List Text}
    (hgroup : Bounded limit group) (hlength : group.flatten.length = length)
    (hg : g ∈ packFrom limit length group lines) : Bounded limit g := by
  induction lines generalizing length group with
  | nil =>
    obtain rfl : g = group.reverse := by simpa [packFrom] using hg
    exact hgroup.reverse
  | cons line rest ih =>
    unfold packFrom at hg
    split_ifs at hg with hfull
    · rcases List.mem_cons.mp hg with rfl | hg
      · exact hgroup.reverse
      · exact ih (bounded_singleton limit line) (by simp) hg
    · apply ih _ _ hg
      · cases group with
        | nil => exact bounded_singleton limit line
        | cons first others =>
          left
          have hroom : length + line.length ≤ limit := by simpa using hfull
          rw [List.flatten_cons, List.length_append, hlength]
          omega
      · rw [List.flatten_cons, List.length_append, hlength]
        omega

theorem bounded_of_mem_pack {limit : Nat} {lines g : List Text} (h : g ∈ pack limit lines) :
    Bounded limit g :=
  bounded_of_mem_packFrom (bounded_nil limit) rfl h

theorem Whole.countLines_of_mem {ls : List Text} (h : Whole ls) {line : Text} (hm : line ∈ ls) :
    countLines line = 1 := by
  induction ls with
  | nil => cases hm
  | cons first rest ih =>
    rcases List.mem_cons.mp hm with rfl | hm
    · exact h.countLines_head
    · exact ih h.tail hm

theorem newline_notMem_dropFinalNewline {t : Text} (h : countLines t = 1) :
    .scalar '\n' ∉ dropFinalNewline t := by
  rw [countLines_eq] at h
  apply List.count_eq_zero.mp
  change newlines (dropFinalNewline t) = 0
  omega

theorem length_dropFinalNewline_le (t : Text) : (dropFinalNewline t).length ≤ t.length := by
  rcases dropFinalNewline_cases t with ⟨he, _⟩ | ⟨he, _⟩
  · conv_rhs => rw [he]
    simp
  · rw [he]

theorem length_le_of_mem_splitChunk {r : Refiner} {c d : Chunk} (h : d ∈ r.splitChunk c) :
    d.content.length ≤ r.maxChunkSize ∨ .scalar '\n' ∉ d.content := by
  unfold splitChunk at h
  split_ifs at h with hshort
  · rw [List.mem_singleton.mp h]
    exact Or.inl hshort
  · obtain ⟨before, group, after, he, hd⟩ := mem_partsFrom h
    have hcontent : d.content = dropFinalNewline group.flatten := by
      rcases hd with rfl | ⟨_, rfl⟩ <;> rfl
    have hmem : group ∈ pack r.maxChunkSize (wholeLines c.content) := by simp [he]
    rw [hcontent]
    rcases bounded_of_mem_pack hmem with hbound | ⟨line, rfl⟩
    · exact Or.inl ((length_dropFinalNewline_le _).trans hbound)
    · have hline : line ∈ wholeLines c.content := by
        rw [← flatten_pack r.maxChunkSize (wholeLines c.content)]
        exact List.mem_flatten.mpr ⟨[line], hmem, by simp⟩
      have hone := (whole_wholeLines c.content).countLines_of_mem hline
      right
      simpa using newline_notMem_dropFinalNewline hone

/-- What overlap puts in front of a chunk has at most its size and a separator. -/
theorem exists_front_overlapped (r : Refiner) (previous c : Chunk) :
    ∃ front, (r.overlapped previous c).content = front ++ c.content ∧
      front.length ≤ r.overlapSize + 1 := by
  unfold overlapped
  dsimp only
  split_ifs
  · exact ⟨[], rfl, Nat.zero_le _⟩
  · refine ⟨takeLast r.overlapSize previous.content ++ [.scalar '\n'], rfl, ?_⟩
    rw [takeLast, List.length_append, List.length_drop, List.length_singleton]
    omega

theorem exists_front_addOverlap (r : Refiner) (cs : List Chunk) :
    List.Forall₂ (fun c d => ∃ front, d.content = front ++ c.content ∧
      front.length ≤ r.overlapSize + 1) cs (r.addOverlap cs) := by
  apply forall₂_addOverlap
  · intro c _
    exact ⟨[], rfl, Nat.zero_le _⟩
  · intro c _ previous
    exact exists_front_overlapped r previous c

theorem length_le_of_getElem?_addOverlap {r : Refiner} {cs : List Chunk} {i : Nat} {d : Chunk}
    (hd : (r.addOverlap (r.resize cs))[i]? = some d) :
    ∃ piece, (r.resize cs)[i]? = some piece ∧ piece.content <:+ d.content ∧
      (d.content.length ≤ r.maxChunkSize + r.overlapSize + 1 ∨
        .scalar '\n' ∉ piece.content ∧ r.maxChunkSize < piece.content.length) := by
  obtain ⟨hlength, hget⟩ := List.forall₂_iff_get.mp (exists_front_addOverlap r (r.resize cs))
  obtain ⟨hi, rfl⟩ := List.getElem?_eq_some_iff.mp hd
  have hi' : i < (r.resize cs).length := by omega
  obtain ⟨front, hcontent, hsize⟩ := hget i hi' hi
  change (r.addOverlap (r.resize cs))[i].content = front ++ (r.resize cs)[i].content at hcontent
  obtain ⟨c, _, hpart⟩ := List.mem_flatMap.mp (List.getElem_mem hi')
  refine ⟨_, List.getElem?_eq_getElem hi', ⟨front, hcontent.symm⟩, ?_⟩
  by_cases hlong : r.maxChunkSize < (r.resize cs)[i].content.length
  · right
    rcases length_le_of_mem_splitChunk hpart with hshort | hline
    · exact absurd hshort (by omega)
    · exact ⟨hline, hlong⟩
  · left
    rw [hcontent, List.length_append]
    omega

/-- Refined chunks end with the pieces that a refinement without overlap gives, one for one. Each is
within the limit, the overlap and one separator together, unless its piece is one line that alone
exceeds the limit. -/
theorem refine_size_bound (cs : List Chunk) {m k : Int} (hm : 1 ≤ m) (hk : 0 ≤ k) :
    ∃ r r₀, ofSizes m k = .ok r ∧ ofSizes m 0 = .ok r₀ ∧
      (r.refine cs).value.length = (r₀.refine cs).value.length ∧
      ∀ (i : Nat) (d : Chunk), (r.refine cs).value[i]? = some d →
        ∃ piece, (r₀.refine cs).value[i]? = some piece ∧ piece.content <:+ d.content ∧
          ((d.content.length : Int) ≤ m + k + 1 ∨
            .scalar '\n' ∉ piece.content ∧ m < (piece.content.length : Int)) := by
  refine ⟨⟨m.toNat, k.toNat⟩, ⟨m.toNat, 0⟩, ofSizes_of_le hm hk,
    ofSizes_of_le hm (Int.le_refl 0), ?_⟩
  have hpieces : (Refiner.refine ⟨m.toNat, 0⟩ cs).value = resize ⟨m.toNat, k.toNat⟩ cs :=
    refine_of_no_overlap rfl cs
  rw [value_refine, hpieces]
  constructor
  · exact (exists_front_addOverlap _ _).length_eq.symm
  · intro i d hd
    obtain ⟨piece, hpiece, hsuffix, hsize⟩ := length_le_of_getElem?_addOverlap hd
    dsimp only at hsize
    refine ⟨piece, hpiece, hsuffix, ?_⟩
    rcases hsize with hsize | ⟨hline, hlong⟩
    · exact Or.inl (by omega)
    · exact Or.inr ⟨hline, by omega⟩

/-- Two short lines that fit together, a line at the limit and one beyond it. -/
def mixedChunk : Chunk := ⟨"a\nb\nlong\ntoo long", 1, 4, "text", none, none, []⟩

theorem mixedChunk_size_bound :
    (Refiner.refine ⟨4, 2⟩ [mixedChunk]).value.map (·.content.length) = [3, 7, 11] ∧
    ∃ r r₀, ofSizes 4 2 = .ok r ∧ ofSizes 4 0 = .ok r₀ ∧
      (r.refine [mixedChunk]).value.length = (r₀.refine [mixedChunk]).value.length ∧
      ∀ (i : Nat) (d : Chunk), (r.refine [mixedChunk]).value[i]? = some d →
        ∃ piece, (r₀.refine [mixedChunk]).value[i]? = some piece ∧ piece.content <:+ d.content ∧
          ((d.content.length : Int) ≤ 4 + 2 + 1 ∨
            .scalar '\n' ∉ piece.content ∧ 4 < (piece.content.length : Int)) :=
  ⟨by decide, refine_size_bound [mixedChunk] (by decide) (by decide)⟩

end SourceChunking.Refiner
