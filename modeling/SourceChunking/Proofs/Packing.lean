import SourceChunking.Proofs.Partition

/-! # Greedy packing

Lines are divided into consecutive groups, each a single line or within the limit. Packing fills the
group at hand as long as lines fit. Wherever it stands, the next group of any other division makes it
close at most one group: once a line of that group has opened a new one, the others fit behind it. So
packing never needs more groups, and a greater limit never leads to more chunks.
-/
namespace SourceChunking.Refiner
open Text

/-- Consecutive groups of the lines, each a single line or within the limit. -/
structure Division (limit : Nat) (lines : List Text) (groups : List (List Text)) : Prop where
  flatten : groups.flatten = lines
  bounded : ∀ g ∈ groups, Bounded limit g

theorem Bounded.tail {limit : Nat} {line : Text} {group : List Text}
    (h : Bounded limit (line :: group)) : Bounded limit group := by
  rcases h with h | ⟨only, he⟩
  · left
    rw [List.flatten_cons, List.length_append] at h
    omega
  · obtain ⟨rfl, rfl⟩ := List.cons_eq_cons.mp he
    exact bounded_nil limit

theorem Bounded.mono {limit limit' : Nat} {group : List Text} (h : Bounded limit group)
    (hle : limit ≤ limit') : Bounded limit' group := h.imp_left (·.trans hle)

theorem Division.ne_nil {limit : Nat} {lines : List Text} {groups : List (List Text)}
    (h : Division limit lines groups) (hne : lines ≠ []) : groups ≠ [] := by
  rintro rfl
  exact hne h.flatten.symm

theorem division_singleton {limit : Nat} {lines : List Text} (h : lines.flatten.length ≤ limit) :
    Division limit lines [lines] where
  flatten := by simp
  bounded := by
    intro g hg
    rw [List.mem_singleton.mp hg]
    exact Or.inl h

theorem division_pack (limit : Nat) (lines : List Text) : Division limit lines (pack limit lines) :=
  ⟨flatten_pack limit lines, fun _ => bounded_of_mem_pack⟩

/-! ## Packing along another division -/

/-- Lines that fit all join the group at hand. -/
theorem packFrom_append {limit length : Nat} {more : List Text}
    (h : length + more.flatten.length ≤ limit) (group rest : List Text) :
    packFrom limit length group (more ++ rest) =
      packFrom limit (length + more.flatten.length) (more.reverse ++ group) rest := by
  induction more generalizing length group with
  | nil => simp
  | cons line more ih =>
    rw [List.flatten_cons, List.length_append] at h ⊢
    have hroom : (!group.isEmpty && decide (limit < length + line.length)) = false := by
      simp only [Bool.and_eq_false_iff, decide_eq_false_iff_not]
      right
      omega
    rw [List.cons_append, packFrom, hroom, if_neg Bool.false_ne_true, ih (by omega),
      Nat.add_assoc, List.reverse_cons, List.append_assoc, List.singleton_append]

theorem packFrom_opened {limit : Nat} {line : Text} {more : List Text}
    (h : Bounded limit (line :: more)) (rest : List Text) :
    packFrom limit line.length [line] (more ++ rest) =
      packFrom limit (line :: more).flatten.length (line :: more).reverse rest := by
  rcases h with h | ⟨only, he⟩
  · rw [List.flatten_cons, List.length_append] at h ⊢
    rw [packFrom_append h, List.reverse_cons]
  · obtain ⟨rfl, rfl⟩ := List.cons_eq_cons.mp he
    simp

/-- A bounded group makes packing close at most one group. -/
theorem length_packFrom_append_le {limit : Nat} {g : List Text} (hg : Bounded limit g)
    (length : Nat) (group rest : List Text) :
    ∃ length' group', (packFrom limit length group (g ++ rest)).length ≤
      (packFrom limit length' group' rest).length + 1 := by
  induction g generalizing length group with
  | nil => exact ⟨length, group, Nat.le_succ _⟩
  | cons line more ih =>
    rw [List.cons_append, packFrom]
    split_ifs with hfull
    -- the line that does not fit opens a group, and the rest of `g` fits behind it
    · rw [List.length_cons, packFrom_opened hg]
      exact ⟨_, _, Nat.le_refl _⟩
    · exact ih hg.tail _ _

theorem length_packFrom_flatten_le {limit : Nat} {groups : List (List Text)}
    (h : ∀ g ∈ groups, Bounded limit g) (length : Nat) (group : List Text) :
    (packFrom limit length group groups.flatten).length ≤ groups.length + 1 := by
  induction groups generalizing length group with
  | nil => simp [packFrom]
  | cons g rest ih =>
    obtain ⟨hg, hrest⟩ := List.forall_mem_cons.mp h
    obtain ⟨length', group', hstep⟩ := length_packFrom_append_le hg length group rest.flatten
    have hmore := ih hrest length' group'
    rw [List.flatten_cons, List.length_cons]
    omega

/-- No division has fewer groups: its first group is taken up without closing any. -/
theorem length_pack_le {limit : Nat} {lines : List Text} {groups : List (List Text)}
    (h : Division limit lines groups) (hne : groups ≠ []) :
    (pack limit lines).length ≤ groups.length := by
  obtain ⟨rfl, hbounded⟩ := h
  cases groups with
  | nil => exact absurd rfl hne
  | cons g rest =>
    obtain ⟨hg, hrest⟩ := List.forall_mem_cons.mp hbounded
    rw [List.flatten_cons, List.length_cons, pack]
    cases g with
    | nil => exact length_packFrom_flatten_le hrest 0 []
    | cons line more =>
      rw [List.cons_append, packFrom, if_neg (by simp), Nat.zero_add, packFrom_opened hg]
      exact length_packFrom_flatten_le hrest _ _

/-! ## Numbers of chunks -/

/-- The part holds the text of some lines; only a newline at its end may be missing. -/
structure GroupOf (g : List Text) (p : Chunk) : Prop where
  ne_nil : g ≠ []
  text : g.flatten = p.content ∨ g.flatten = p.content ++ [.scalar '\n']

theorem groupOf_part (c : Chunk) {g : List Text} (hne : g ≠ []) (first last : Int) :
    GroupOf g (part c g first last) := by
  refine ⟨hne, ?_⟩
  change g.flatten = dropFinalNewline g.flatten ∨
    g.flatten = dropFinalNewline g.flatten ++ [.scalar '\n']
  rcases dropFinalNewline_cases g.flatten with ⟨he, _⟩ | ⟨he, _⟩
  · exact Or.inr he
  · exact Or.inl he.symm

theorem groupOf_partsFrom (c : Chunk) (start : Int) {groups : List (List Text)}
    (hg : ∀ g ∈ groups, g ≠ []) : List.Forall₂ GroupOf groups (partsFrom c start groups) := by
  induction groups generalizing start with
  | nil => exact List.Forall₂.nil
  | cons group rest ih =>
    obtain ⟨hgroup, hrest⟩ := List.forall_mem_cons.mp hg
    cases rest with
    | nil => exact List.Forall₂.cons (groupOf_part c hgroup _ _) List.Forall₂.nil
    | cons group' rest => exact List.Forall₂.cons (groupOf_part c hgroup _ _) (ih _ hrest)

/-- The parts of a chunk are the groups of a division of its lines. -/
theorem exists_division_splitChunk (r : Refiner) {c : Chunk} (hne : c.content ≠ []) :
    ∃ groups, Division r.maxChunkSize (wholeLines c.content) groups ∧
      List.Forall₂ GroupOf groups (r.splitChunk c) := by
  have hlines := wholeLines_eq_nil_iff.not.mpr hne
  unfold splitChunk
  split_ifs with hshort
  · rw [← flatten_wholeLines c.content] at hshort
    exact ⟨_, division_singleton hshort,
      List.Forall₂.cons ⟨hlines, Or.inl (flatten_wholeLines _)⟩ List.Forall₂.nil⟩
  · exact ⟨_, division_pack _ _, groupOf_partsFrom c _ fun _ => ne_nil_of_mem_pack hlines⟩

theorem length_splitChunk_le (r : Refiner) {c : Chunk} (hne : c.content ≠ [])
    {groups : List (List Text)} (h : Division r.maxChunkSize (wholeLines c.content) groups) :
    (r.splitChunk c).length ≤ groups.length := by
  have hlines := wholeLines_eq_nil_iff.not.mpr hne
  have hgroups := h.ne_nil hlines
  unfold splitChunk
  split_ifs
  · exact List.length_pos_iff.mpr hgroups
  · rw [← (groupOf_partsFrom c _ fun _ => ne_nil_of_mem_pack hlines).length_eq]
    exact length_pack_le h hgroups

/-- With a greater limit there are no more parts: those of the smaller one are still a division. -/
theorem length_splitChunk_antitone {r r' : Refiner} (h : r.maxChunkSize ≤ r'.maxChunkSize)
    (c : Chunk) : (r'.splitChunk c).length ≤ (r.splitChunk c).length := by
  by_cases hne : c.content = []
  · simp [splitChunk, hne]
  · obtain ⟨groups, hdivision, hparts⟩ := exists_division_splitChunk r hne
    rw [← hparts.length_eq]
    exact length_splitChunk_le r' hne ⟨hdivision.flatten, fun g hg => (hdivision.bounded g hg).mono h⟩

theorem length_resize_antitone {r r' : Refiner} (h : r.maxChunkSize ≤ r'.maxChunkSize)
    (cs : List Chunk) : (r'.resize cs).length ≤ (r.resize cs).length := by
  induction cs with
  | nil => exact Nat.le_refl 0
  | cons c rest ih =>
    have hc := length_splitChunk_antitone h c
    simp only [resize, List.flatMap_cons, List.length_append] at ih ⊢
    omega

theorem length_refine (r : Refiner) (cs : List Chunk) :
    (r.refine cs).value.length = (r.resize cs).length := by
  rw [value_refine]
  exact (exists_front_addOverlap r (r.resize cs)).length_eq.symm

/-- The parts of a chunk are the groups of a division of its lines, and no division has fewer. So a
greater limit never refines chunks into more, whatever the overlaps are. -/
theorem splitChunk_fewest {m k : Int} (hm : 1 ≤ m) (hk : 0 ≤ k) :
    ∃ r, ofSizes m k = .ok r ∧
      (∀ c : Chunk, c.content ≠ [] →
        (∃ groups, Division m.toNat (wholeLines c.content) groups ∧
          List.Forall₂ GroupOf groups (r.splitChunk c)) ∧
        ∀ groups, Division m.toNat (wholeLines c.content) groups →
          (r.splitChunk c).length ≤ groups.length) ∧
      ∀ m' k' : Int, m ≤ m' → 0 ≤ k' → ∃ r', ofSizes m' k' = .ok r' ∧
        ∀ cs, (r'.refine cs).value.length ≤ (r.refine cs).value.length := by
  refine ⟨⟨m.toNat, k.toNat⟩, ofSizes_of_le hm hk, ?_, ?_⟩
  · intro c hne
    exact ⟨exists_division_splitChunk ⟨m.toNat, k.toNat⟩ hne,
      fun _ => length_splitChunk_le ⟨m.toNat, k.toNat⟩ hne⟩
  · intro m' k' hle hk'
    refine ⟨⟨m'.toNat, k'.toNat⟩, ofSizes_of_le (by omega) hk', ?_⟩
    intro cs
    rw [length_refine, length_refine]
    apply length_resize_antitone
    change m.toNat ≤ m'.toNat
    omega

theorem mixedChunk_fewest :
    mixedChunk.content ≠ [] ∧ (Refiner.splitChunk ⟨4, 2⟩ mixedChunk).length = 3 ∧
    (Refiner.splitChunk ⟨9, 0⟩ mixedChunk).length = 2 ∧
    ∃ r, ofSizes 4 2 = .ok r ∧
      (∃ groups, Division 4 (wholeLines mixedChunk.content) groups ∧
        List.Forall₂ GroupOf groups (r.splitChunk mixedChunk)) ∧
      (∀ groups, Division 4 (wholeLines mixedChunk.content) groups →
        (r.splitChunk mixedChunk).length ≤ groups.length) ∧
      ∃ r', ofSizes 9 0 = .ok r' ∧
        (r'.refine [mixedChunk]).value.length ≤ (r.refine [mixedChunk]).value.length := by
  have hne : mixedChunk.content ≠ [] := by decide
  have h4 : (1 : Int) ≤ 4 := by decide
  have h2 : (0 : Int) ≤ 2 := by decide
  obtain ⟨r, hr, hparts, hmore⟩ := splitChunk_fewest h4 h2
  obtain ⟨r', hr', hle⟩ := hmore 9 0 (by decide) (by decide)
  exact ⟨hne, by decide, by decide, r, hr, (hparts mixedChunk hne).1, (hparts mixedChunk hne).2,
    r', hr', hle [mixedChunk]⟩

end SourceChunking.Refiner
