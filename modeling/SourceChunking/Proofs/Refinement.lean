import SourceChunking.Proofs.Lines

/-! # What refinement keeps

Splitting replaces a chunk by consecutive parts of its lines. The parts together stand for
the lines of the chunk, each has room for its own lines, keeps only symbols on them, and
reads the source where the chunk does. Overlap then moves first lines up and nothing else
that a range depends on.
-/
namespace SourceChunking

/-- The ranges together stand for exactly the lines from `first` to `last`. -/
def Covers (ranges : List (Int × Int)) (first last : Int) : Prop :=
  ∀ n, (∃ r ∈ ranges, r.1 ≤ n ∧ n ≤ r.2) ↔ first ≤ n ∧ n ≤ last

theorem covers_singleton (first last : Int) : Covers [(first, last)] first last := by
  intro n
  simp

theorem Covers.append {xs ys : List (Int × Int)} {a b c d : Int} (hx : Covers xs a b)
    (hy : Covers ys c d) (hac : a ≤ c) (hcb : c ≤ b + 1) (hbd : b ≤ d) :
    Covers (xs ++ ys) a d := by
  intro n
  simp only [List.mem_append, or_and_right, exists_or]
  rw [hx n, hy n]
  omega

theorem Covers.cons {ys : List (Int × Int)} {a b c d : Int} (hy : Covers ys c d) (hac : a ≤ c)
    (hcb : c ≤ b + 1) (hbd : b ≤ d) : Covers ((a, b) :: ys) a d :=
  (covers_singleton a b).append hy hac hcb hbd

/-- Replacing each range by ranges that cover it changes nothing. -/
theorem Covers.flatMap {α β : Type} {xs : List α} {range : α → Int × Int} {f : α → List β}
    {range' : β → Int × Int} {a b : Int} (h : Covers (xs.map range) a b)
    (hf : ∀ x ∈ xs, Covers ((f x).map range') (range x).1 (range x).2) :
    Covers ((xs.flatMap f).map range') a b := by
  intro n
  rw [← h n]
  constructor
  · rintro ⟨r, hr, hn⟩
    obtain ⟨y, hy, rfl⟩ := List.mem_map.mp hr
    obtain ⟨x, hx, hy⟩ := List.mem_flatMap.mp hy
    exact ⟨range x, List.mem_map_of_mem hx, (hf x hx n).mp ⟨_, List.mem_map_of_mem hy, hn⟩⟩
  · rintro ⟨r, hr, hn⟩
    obtain ⟨x, hx, rfl⟩ := List.mem_map.mp hr
    obtain ⟨r', hr', hn'⟩ := (hf x hx n).mpr hn
    obtain ⟨y, hy, rfl⟩ := List.mem_map.mp hr'
    exact ⟨_, List.mem_map_of_mem (List.mem_flatMap.mpr ⟨x, hx, hy⟩), hn'⟩

/-- The lines are counted from one, and there are at least as many as the content has. -/
structure Fits (content : Text) (first last : Int) : Prop where
  one_le : 1 ≤ first
  lines_le : (Text.countLines content : Int) ≤ last - first + 1

theorem Fits.ordered {content : Text} {first last : Int} (h : Fits content first last) :
    first ≤ last := by
  have := Text.countLines_pos content
  have := h.lines_le
  omega

/-- Besides, each line of the content is part of the line of the source it is counted as. -/
structure Attributed (source content : Text) (first last : Int) : Prop extends
    Fits content first last where
  reads : Text.ReadFrom source (first - 1).toNat content

namespace Chunk

def lineRange (c : Chunk) : Int × Int := (c.startLine, c.endLine)

end Chunk

namespace Refiner
open Text

theorem ofSizes_of_le {m k : Int} (hm : 1 ≤ m) (hk : 0 ≤ k) :
    ofSizes m k = .ok ⟨m.toNat, k.toNat⟩ := by
  rw [ofSizes, if_neg (by omega), if_neg (by omega)]

/-! ## Packing -/

theorem flatten_packFrom (limit length : Nat) (group lines : List Text) :
    (packFrom limit length group lines).flatten = group.reverse ++ lines := by
  induction lines generalizing length group with
  | nil => simp [packFrom]
  | cons line rest ih =>
    unfold packFrom
    split_ifs with h
    · simp [ih]
    · simp [ih]

theorem packFrom_ne_nil (limit length : Nat) (group lines : List Text) :
    packFrom limit length group lines ≠ [] := by
  induction lines generalizing length group with
  | nil => simp [packFrom]
  | cons line rest ih =>
    unfold packFrom
    split_ifs with h
    · simp
    · exact ih _ _

theorem ne_nil_of_mem_packFrom {limit length : Nat} {group lines g : List Text}
    (h : group ≠ [] ∨ lines ≠ []) (hg : g ∈ packFrom limit length group lines) : g ≠ [] := by
  induction lines generalizing length group with
  | nil =>
    obtain rfl : g = group.reverse := by simpa [packFrom] using hg
    simpa using h
  | cons line rest ih =>
    unfold packFrom at hg
    split_ifs at hg with hf
    · rcases List.mem_cons.mp hg with rfl | hg
      · simp only [Bool.and_eq_true, Bool.not_eq_true'] at hf
        simpa using hf.1
      · exact ih (by simp) hg
    · exact ih (by simp) hg

theorem flatten_pack (limit : Nat) (lines : List Text) : (pack limit lines).flatten = lines := by
  simpa [pack] using flatten_packFrom limit 0 [] lines

/-! ## Parts -/

/-- Where a part comes from: the groups before it, its own group, and whether it is the last. -/
theorem mem_partsFrom {c d : Chunk} {start : Int} {groups : List (List Text)}
    (h : d ∈ partsFrom c start groups) :
    ∃ before group after, groups = before ++ group :: after ∧
      (d = part c group (start + before.flatten.length)
          (start + before.flatten.length + group.length - 1) ∨
        after = [] ∧ d = part c group (start + before.flatten.length)
          (max (start + before.flatten.length + group.length - 1) c.endLine)) := by
  induction groups generalizing start with
  | nil => simp [partsFrom] at h
  | cons group rest ih =>
    cases rest with
    | nil =>
      obtain rfl := List.mem_singleton.mp h
      exact ⟨[], group, [], rfl, Or.inr ⟨rfl, by simp⟩⟩
    | cons group' rest =>
      rcases List.mem_cons.mp h with rfl | h
      · exact ⟨[], group, group' :: rest, rfl, Or.inl (by simp)⟩
      · obtain ⟨before, g, after, he, hd⟩ := ih h
        refine ⟨group :: before, g, after, by rw [he]; rfl, ?_⟩
        have hl : start + ((group :: before).flatten.length : Int) =
            start + group.length + before.flatten.length := by
          simp only [List.flatten_cons, List.length_append]
          omega
        rw [hl]
        exact hd

/-- The parts stand for the lines from the first on, up to the end of the chunk if there are
not enough. -/
theorem covers_partsFrom (c : Chunk) (start : Int) {groups : List (List Text)}
    (hne : groups ≠ []) (hg : ∀ g ∈ groups, g ≠ []) :
    Covers ((partsFrom c start groups).map Chunk.lineRange) start
      (max (start + groups.flatten.length - 1) c.endLine) := by
  induction groups generalizing start with
  | nil => exact absurd rfl hne
  | cons group rest ih =>
    have hpos : 0 < group.length := List.length_pos_iff.mpr (hg group (by simp))
    cases rest with
    | nil => simpa [partsFrom, part, Chunk.lineRange] using covers_singleton start _
    | cons group' rest =>
      have hr := ih (start + group.length) (by simp) (fun g h => hg g (by simp [h]))
      have hl : ((group :: group' :: rest).flatten.length : Int) =
          group.length + (group' :: rest).flatten.length := by
        simp only [List.flatten_cons, List.length_append]
        omega
      have hpos' : 0 < group'.length := List.length_pos_iff.mpr (hg group' (by simp))
      have hge : group'.length ≤ (group' :: rest).flatten.length := by simp
      rw [hl, ← Int.add_assoc]
      change Covers ((start, start + group.length - 1) ::
        (partsFrom c (start + group.length) (group' :: rest)).map Chunk.lineRange) start _
      exact hr.cons (by omega) (by omega) (by omega)

/-- What a part has in common with the chunk it is a part of. -/
structure PartOf (c d : Chunk) : Prop where
  language : d.language = c.language
  filePath : d.filePath = c.filePath
  nodeKind : d.nodeKind = c.nodeKind
  symbols : d.symbols = c.symbols.filter fun s => Chunk.within d.startLine d.endLine s.range

theorem partOf_part (c : Chunk) (group : List Text) (first last : Int) :
    PartOf c (part c group first last) := ⟨rfl, rfl, rfl, rfl⟩

/-- Every part is cut out of the content, at the row on which it starts, and has room for its
lines. -/
theorem splitChunk_part {r : Refiner} {c d : Chunk} (hlong : r.maxChunkSize < c.content.length)
    (h : d ∈ r.splitChunk c) :
    PartOf c d ∧ ∃ x y, c.content = x ++ d.content ++ y ∧ d.startLine = c.startLine + newlines x ∧
      (countLines d.content : Int) ≤ d.endLine - d.startLine + 1 := by
  rw [splitChunk, if_neg (by omega)] at h
  have hne : c.content ≠ [] := by
    intro he
    simp [he] at hlong
  have hl : wholeLines c.content ≠ [] := fun he => hne (wholeLines_eq_nil_iff.mp he)
  obtain ⟨before, group, after, he, hd⟩ := mem_partsFrom h
  have hw : wholeLines c.content = before.flatten ++ (group ++ after.flatten) := by
    rw [← flatten_pack r.maxChunkSize (wholeLines c.content), he]
    simp
  have hmem : group ∈ pack r.maxChunkSize (wholeLines c.content) := by simp [he]
  have hg : group ≠ [] := ne_nil_of_mem_packFrom (Or.inr hl) hmem
  have hwhole := whole_wholeLines c.content
  rw [hw] at hwhole
  have hrows : newlines before.flatten.flatten = before.flatten.length :=
    hwhole.newlines_flatten (by simp [hg])
  have hcount := countLines_dropFinalNewline_le group.flatten
  rw [hwhole.of_append_right.of_append_left.countLines_flatten hg] at hcount
  have hcontent : d.content = dropFinalNewline group.flatten := by
    rcases hd with rfl | ⟨_, rfl⟩ <;> rfl
  have hstart : d.startLine = c.startLine + before.flatten.length := by
    rcases hd with rfl | ⟨_, rfl⟩ <;> rfl
  have hstop : d.startLine + group.length - 1 ≤ d.endLine := by
    rcases hd with rfl | ⟨_, rfl⟩
    · exact Int.le_refl _
    · exact Int.le_max_left _ _
  refine ⟨?_, before.flatten.flatten, group.flatten.drop d.content.length ++ after.flatten.flatten,
    ?_, by rw [hstart, hrows], ?_⟩
  · rcases hd with rfl | ⟨_, rfl⟩ <;> exact partOf_part _ _ _ _
  · have hpre : d.content <+: group.flatten := by
      rw [hcontent]
      rcases dropFinalNewline_cases group.flatten with ⟨hn, _⟩ | ⟨hn, _⟩
      · exact ⟨[.scalar '\n'], hn.symm⟩
      · rw [hn]
    obtain ⟨tail, ht⟩ := hpre
    rw [← ht, List.drop_left, ← flatten_wholeLines c.content, hw]
    simp [← ht]
  · rw [hcontent]
    omega

theorem covers_splitChunk (r : Refiner) {c : Chunk} (h : Fits c.content c.startLine c.endLine) :
    Covers ((r.splitChunk c).map Chunk.lineRange) c.startLine c.endLine := by
  unfold splitChunk
  split_ifs with hshort
  · exact covers_singleton c.startLine c.endLine
  · have hne : c.content ≠ [] := by
      intro he
      simp [he] at hshort
    have hl : wholeLines c.content ≠ [] := fun he => hne (wholeLines_eq_nil_iff.mp he)
    have hc := covers_partsFrom c c.startLine (packFrom_ne_nil r.maxChunkSize 0 [] _)
      (fun g hg => ne_nil_of_mem_packFrom (Or.inr hl) hg)
    have hcount := h.lines_le
    rw [show (packFrom r.maxChunkSize 0 [] (wholeLines c.content)).flatten = wholeLines c.content
      from flatten_pack _ _, length_wholeLines hne, Int.max_eq_right (by omega)] at hc
    exact hc

theorem valid_of_mem_splitChunk {r : Refiner} {c d : Chunk} (hc : c.Valid)
    (hd : d ∈ r.splitChunk c) : d.Valid := by
  by_cases hshort : c.content.length ≤ r.maxChunkSize
  · rw [splitChunk, if_pos hshort] at hd
    rwa [List.mem_singleton.mp hd]
  · obtain ⟨hp, x, y, _, hstart, hcount⟩ := splitChunk_part (by omega) hd
    have hone := hc.1
    have hpos := countLines_pos d.content
    refine ⟨by omega, by omega, ?_⟩
    intro s hs
    rw [hp.symbols] at hs
    exact (List.mem_filter.mp hs).2

/-- Overlap keeps all of a chunk but its content and its first line, which moves up but not
above the first line of the text. -/
structure Decorates (c d : Chunk) : Prop where
  startLine_le : d.startLine ≤ c.startLine
  one_le : 1 ≤ c.startLine → 1 ≤ d.startLine
  endLine : d.endLine = c.endLine
  symbols : d.symbols = c.symbols

theorem decorates_refl (c : Chunk) : Decorates c c := ⟨Int.le_refl _, id, rfl, rfl⟩

theorem decorates_overlapped (r : Refiner) (previous : Chunk) {c : Chunk} (h : 1 ≤ c.startLine) :
    Decorates c (r.overlapped previous c) := by
  unfold overlapped
  dsimp only
  split_ifs
  · exact decorates_refl c
  · refine ⟨?_, fun _ => Int.le_max_left _ _, rfl, rfl⟩
    change max 1 (c.startLine - (newlines (takeLast r.overlapSize previous.content) + 1)) ≤ _
    omega

theorem forall₂_overlapFrom {R : Chunk → Chunk → Prop} (r : Refiner) (previous : Chunk)
    {cs : List Chunk} (h : ∀ c ∈ cs, ∀ p, R c (r.overlapped p c)) :
    List.Forall₂ R cs (r.overlapFrom previous cs) := by
  induction cs generalizing previous with
  | nil => exact List.Forall₂.nil
  | cons c rest ih =>
    apply List.Forall₂.cons
    · exact h c (by simp) previous
    · exact ih c (fun d hd => h d (by simp [hd]))

/-- What holds of a chunk and itself, and of a chunk with and without overlap, holds of two lists
that differ in the overlap. -/
theorem forall₂_addOverlap {R : Chunk → Chunk → Prop} (r : Refiner) {cs : List Chunk}
    (hself : ∀ c ∈ cs, R c c) (h : ∀ c ∈ cs, ∀ p, R c (r.overlapped p c)) :
    List.Forall₂ R cs (r.addOverlap cs) := by
  cases cs with
  | nil => exact List.Forall₂.nil
  | cons c rest =>
    apply List.Forall₂.cons
    · exact hself c (by simp)
    · exact forall₂_overlapFrom r c (fun d hd => h d (by simp [hd]))

theorem decorates_addOverlap (r : Refiner) {cs : List Chunk} (h : ∀ c ∈ cs, 1 ≤ c.startLine) :
    List.Forall₂ Decorates cs (r.addOverlap cs) :=
  forall₂_addOverlap r (fun c _ => decorates_refl c) fun c hc p => decorates_overlapped r p (h c hc)

theorem Decorates.valid {c d : Chunk} (h : Decorates c d) (hc : c.Valid) : d.Valid := by
  obtain ⟨h1, h2, hs⟩ := hc
  have hle := h.startLine_le
  have hend := h.endLine
  refine ⟨h.one_le h1, by omega, ?_⟩
  intro s hm
  rw [h.symbols] at hm
  have := hs s hm
  simp only [Chunk.containsRange, Chunk.within, Bool.and_eq_true, decide_eq_true_eq] at this ⊢
  omega

theorem decorates_mem {cs ds : List Chunk} (h : List.Forall₂ Decorates cs ds) :
    (∀ d ∈ ds, ∃ c ∈ cs, Decorates c d) ∧ ∀ c ∈ cs, ∃ d ∈ ds, Decorates c d := by
  induction h with
  | nil => simp
  | @cons c d cs ds hcd _ ih =>
    constructor
    · intro e he
      rcases List.mem_cons.mp he with rfl | he
      · exact ⟨c, by simp, hcd⟩
      · obtain ⟨b, hb, hbe⟩ := ih.1 e he
        exact ⟨b, by simp [hb], hbe⟩
    · intro b hb
      rcases List.mem_cons.mp hb with rfl | hb
      · exact ⟨d, by simp, hcd⟩
      · obtain ⟨e, he, hbe⟩ := ih.2 b hb
        exact ⟨e, by simp [he], hbe⟩

theorem covers_of_decorates {cs ds : List Chunk} {last : Int} (h : List.Forall₂ Decorates cs ds)
    (hc : Covers (cs.map Chunk.lineRange) 1 last) (h1 : ∀ c ∈ cs, 1 ≤ c.startLine)
    (hv : ∀ c ∈ cs, c.startLine ≤ c.endLine) : Covers (ds.map Chunk.lineRange) 1 last := by
  obtain ⟨hto, hfrom⟩ := decorates_mem h
  intro n
  constructor
  · rintro ⟨r, hr, hn⟩
    obtain ⟨d, hd, rfl⟩ := List.mem_map.mp hr
    obtain ⟨c, hm, hcd⟩ := hto d hd
    have hone := hcd.one_le (h1 c hm)
    have hstop := hcd.endLine
    have hend := ((hc c.endLine).mp ⟨_, List.mem_map_of_mem hm, hv c hm, Int.le_refl _⟩).2
    simp only [Chunk.lineRange] at hn
    omega
  · intro hn
    obtain ⟨r, hr, hrn⟩ := (hc n).mpr hn
    obtain ⟨c, hm, rfl⟩ := List.mem_map.mp hr
    obtain ⟨d, hd, hcd⟩ := hfrom c hm
    refine ⟨_, List.mem_map_of_mem hd, ?_⟩
    have hle := hcd.startLine_le
    have hstop := hcd.endLine
    simp only [Chunk.lineRange] at hrn ⊢
    omega

/-! ## Refinement -/

@[simp] theorem value_refine (r : Refiner) (cs : List Chunk) :
    (r.refine cs).value = r.addOverlap (r.resize cs) := by
  unfold refine
  dsimp only
  split_ifs <;> rfl

theorem valid_of_mem_resize {r : Refiner} {cs : List Chunk} (h : ∀ c ∈ cs, c.Valid) {d : Chunk}
    (hd : d ∈ r.resize cs) : d.Valid := by
  obtain ⟨c, hc, hd⟩ := List.mem_flatMap.mp hd
  exact valid_of_mem_splitChunk (h c hc) hd

theorem valid_of_mem_addOverlap {r : Refiner} {cs : List Chunk} (h : ∀ c ∈ cs, c.Valid) {d : Chunk}
    (hd : d ∈ r.addOverlap cs) : d.Valid := by
  obtain ⟨c, hc, hcd⟩ := (decorates_mem (decorates_addOverlap r fun c hc => (h c hc).1)).1 d hd
  exact hcd.valid (h c hc)

/-- Refinement of chunks with room for their lines gives valid chunks on the same lines. -/
theorem refine_covers (r : Refiner) {cs : List Chunk} {last : Int}
    (hfits : ∀ c ∈ cs, Fits c.content c.startLine c.endLine) (hvalid : ∀ c ∈ cs, c.Valid)
    (hc : Covers (cs.map Chunk.lineRange) 1 last) :
    (∀ d ∈ (r.refine cs).value, d.Valid) ∧
      Covers ((r.refine cs).value.map Chunk.lineRange) 1 last := by
  have hparts : ∀ d ∈ r.resize cs, d.Valid := fun d => valid_of_mem_resize hvalid
  have hcover : Covers ((r.resize cs).map Chunk.lineRange) 1 last :=
    hc.flatMap (fun c hm => covers_splitChunk r (hfits c hm))
  have hstart : ∀ d ∈ r.resize cs, 1 ≤ d.startLine := fun d hd => (hparts d hd).1
  rw [value_refine]
  exact ⟨fun d => valid_of_mem_addOverlap hparts, covers_of_decorates (decorates_addOverlap r hstart)
    hcover hstart (fun c hm => (hparts c hm).2.1)⟩

/-- Refinement of chunks within the limit only adds overlap. -/
theorem decorates_refine (r : Refiner) {cs : List Chunk}
    (hshort : ∀ c ∈ cs, c.content.length ≤ r.maxChunkSize) (h : ∀ c ∈ cs, 1 ≤ c.startLine) :
    List.Forall₂ Decorates cs (r.refine cs).value := by
  have hsplit : ∀ c ∈ cs, r.splitChunk c = [c] := by
    intro c hc
    rw [splitChunk, if_pos (hshort c hc)]
  have hsame : r.resize cs = cs := by
    rw [resize, List.flatMap_congr hsplit, List.flatMap_singleton']
  rw [value_refine, hsame]
  exact decorates_addOverlap r h

theorem refine_of_no_overlap {r : Refiner} (h : r.overlapSize = 0) (cs : List Chunk) :
    (r.refine cs).value = r.resize cs := by
  have hone : ∀ previous c, r.overlapped previous c = c := by
    intro previous c
    simp [overlapped, takeLast, h]
  have hfrom : ∀ ds previous, r.overlapFrom previous ds = ds := by
    intro ds
    induction ds with
    | nil => exact fun _ => rfl
    | cons d rest ih =>
      intro previous
      rw [overlapFrom, hone, ih]
  rw [value_refine]
  cases r.resize cs with
  | nil => rfl
  | cons c rest => rw [addOverlap, hfrom]

end Refiner
end SourceChunking
