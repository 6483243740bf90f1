import Mathlib.Data.List.Infix
import SourceChunking.Chunk.Refinement
import SourceChunking.Text.Utf8

/-! # Lines and their counts

The lines of a text, of its parts and of texts joined by newlines. A content is read from
a row of a source when each of its lines lies inside the line of the source with the same
place; this is kept by cutting and by joining whole lines. Lines held with their newlines
are counted by the same number as the text they make up.
-/
namespace SourceChunking.Text

theorem ne_nil_of_allBlank_eq_false {t : Text} (h : allBlank t = false) : t ≠ [] := by
  rintro rfl
  cases h

@[simp] theorem newlines_nil : newlines [] = 0 := rfl

@[simp] theorem newlines_append (s t : Text) : newlines (s ++ t) = newlines s + newlines t :=
  List.count_append

@[simp] theorem newlines_cons_newline (t : Text) : newlines ('\n' :: t) = newlines t + 1 :=
  List.count_cons_self

theorem newlines_cons_of_ne {c : CodePoint} (h : c ≠ .scalar '\n') (t : Text) :
    newlines (c :: t) = newlines t :=
  List.count_cons_of_ne h

@[simp] theorem lines_nil : lines [] = [[]] := List.splitOn_nil (.scalar '\n')

@[simp] theorem lines_cons_newline (t : Text) : lines ('\n' :: t) = [] :: lines t := by
  simp [lines, List.splitOn_cons_eq_if_modifyHead]

theorem lines_cons_of_ne {c : CodePoint} (h : c ≠ .scalar '\n') (t : Text) :
    lines (c :: t) = (lines t).modifyHead (c :: ·) := by
  simp [lines, List.splitOn_cons_eq_if_modifyHead, h]

theorem lines_append_newline (s t : Text) : lines (s ++ .scalar '\n' :: t) = lines s ++ lines t :=
  List.splitOn_append_cons_self s t

@[simp] theorem lines_ne_nil (t : Text) : lines t ≠ [] := List.splitOn_ne_nil (CodePoint.scalar '\n') t

@[simp] theorem length_lines (t : Text) : (lines t).length = newlines t + 1 := by
  induction t with
  | nil => rfl
  | cons c t ih =>
    by_cases h : c = .scalar '\n'
    · subst h
      simp [ih]
    · simp [lines_cons_of_ne h, newlines_cons_of_ne h, ih]

theorem newline_notMem_of_mem_lines {t line : Text} (h : line ∈ lines t) : (.scalar '\n') ∉ line := by
  induction t generalizing line with
  | nil => simp_all
  | cons c t ih =>
    by_cases hc : c = .scalar '\n'
    · subst hc
      rcases List.mem_cons.mp (lines_cons_newline t ▸ h) with rfl | h
      · exact List.not_mem_nil
      · exact ih h
    · obtain ⟨first, more, he⟩ := List.exists_cons_of_ne_nil (lines_ne_nil t)
      rw [lines_cons_of_ne hc, he, List.modifyHead_cons] at h
      rcases List.mem_cons.mp h with rfl | h
      · have hfirst : first ∈ lines t := by simp [he]
        simp [ih hfirst, Ne.symm hc]
      · exact ih (by simp [he, h])

theorem lines_unlines {ls : List Text} (h : ∀ l ∈ ls, (.scalar '\n') ∉ l) (hne : ls ≠ []) :
    lines (unlines ls) = ls := List.splitOn_intercalate (CodePoint.scalar '\n') h hne

/-- A line of the front of a text is the front of the line of the whole text. -/
theorem lines_append_right {p line : Text} {j : Nat} (y : Text) (h : (lines p)[j]? = some line) :
    ∃ whole, (lines (p ++ y))[j]? = some whole ∧ line <+: whole := by
  induction p generalizing j line with
  | nil =>
    obtain ⟨first, more, he⟩ := List.exists_cons_of_ne_nil (lines_ne_nil y)
    cases j with
    | zero =>
      obtain rfl : line = [] := by simpa using h.symm
      exact ⟨first, by simp [he], List.nil_prefix⟩
    | succ j => simp at h
  | cons c p ih =>
    by_cases hc : c = .scalar '\n'
    · subst hc
      cases j with
      | zero =>
        obtain rfl : line = [] := by simpa using h.symm
        exact ⟨[], by simp, List.nil_prefix⟩
      | succ j => simpa using ih (by simpa using h)
    · obtain ⟨first, more, he⟩ := List.exists_cons_of_ne_nil (lines_ne_nil p)
      rw [lines_cons_of_ne hc, he, List.modifyHead_cons] at h
      rw [List.cons_append, lines_cons_of_ne hc]
      cases j with
      | zero =>
        obtain rfl : c :: first = line := by simpa using h
        have hfirst : (lines p)[0]? = some first := by simp [he]
        obtain ⟨whole, hw, hp⟩ := ih hfirst
        refine ⟨c :: whole, ?_, by simpa using hp⟩
        rw [List.getElem?_modifyHead_zero, hw]
        rfl
      | succ j => simpa [List.getElem?_modifyHead] using ih (j := j + 1) (by simpa [he] using h)

theorem lines_append_left {p line : Text} {j : Nat} (x : Text) (h : (lines p)[j]? = some line) :
    ∃ whole, (lines (x ++ p))[newlines x + j]? = some whole ∧ line <:+ whole := by
  induction x with
  | nil => exact ⟨line, by simpa using h, List.suffix_rfl⟩
  | cons c x ih =>
    obtain ⟨whole, hw, hs⟩ := ih
    by_cases hc : c = .scalar '\n'
    · subst hc
      exact ⟨whole, by simpa [Nat.add_right_comm] using hw, hs⟩
    · rw [List.cons_append, lines_cons_of_ne hc, newlines_cons_of_ne hc]
      cases hk : newlines x + j with
      | zero =>
        exact ⟨c :: whole, by simp [List.getElem?_modifyHead, ← hk, hw],
          hs.trans (List.suffix_cons c whole)⟩
      | succ k => exact ⟨whole, by simpa [List.getElem?_modifyHead, hk] using hw, hs⟩

/-- The lines of a part of a text lie inside lines of the text, from the row on which the part
starts. -/
theorem lines_part {x p y line : Text} {j : Nat} (h : (lines p)[j]? = some line) :
    ∃ whole, (lines (x ++ p ++ y))[newlines x + j]? = some whole ∧ line <:+: whole := by
  obtain ⟨middle, hm, hs⟩ := lines_append_left x h
  obtain ⟨whole, hw, hp⟩ := lines_append_right y hm
  exact ⟨whole, hw, hs.isInfix.trans hp.isInfix⟩

/-! ## Replaced surrogates -/

/-- The text with three replacement characters for each surrogate. -/
def replaced (t : Text) : Text :=
  t.flatMap fun c => if c.isSurrogate then List.replicate 3 replacement else [c]

@[simp] theorem replaced_nil : replaced [] = [] := rfl

@[simp] theorem replaced_append (s t : Text) : replaced (s ++ t) = replaced s ++ replaced t :=
  List.flatMap_append

theorem replaced_cons (c : CodePoint) (t : Text) : replaced (c :: t) = replaced [c] ++ replaced t :=
  replaced_append [c] t

theorem replaced_infix {s t : Text} (h : s <:+: t) : replaced s <:+: replaced t := by
  obtain ⟨x, y, rfl⟩ := h
  exact ⟨replaced x, replaced y, by simp⟩

theorem newline_notMem_replaced {c : CodePoint} (h : c ≠ .scalar '\n') :
    .scalar '\n' ∉ replaced [c] := by
  cases c with
  | scalar c => simpa [replaced, CodePoint.isSurrogate] using Ne.symm h
  | surrogate n => simp [replaced, CodePoint.isSurrogate, replacement]

theorem lines_append_of_notMem {x : Text} (h : .scalar '\n' ∉ x) (t : Text) :
    lines (x ++ t) = (lines t).modifyHead (x ++ ·) := by
  induction x with
  | nil => cases hl : lines t <;> simp [hl]
  | cons c x ih =>
    obtain ⟨hc, hx⟩ := not_or.mp (mt List.mem_cons.mpr h)
    obtain ⟨first, more, he⟩ := List.exists_cons_of_ne_nil (lines_ne_nil t)
    rw [List.cons_append, lines_cons_of_ne (Ne.symm hc), ih hx, he]
    rfl

/-- Replacing surrogates neither adds nor removes a newline. -/
theorem lines_replaced (t : Text) : lines (replaced t) = (lines t).map replaced := by
  induction t with
  | nil => rfl
  | cons c t ih =>
    by_cases hc : c = .scalar '\n'
    · subst hc
      have hr : replaced (.scalar '\n' :: t) = .scalar '\n' :: replaced t := rfl
      rw [hr, lines_cons_newline, lines_cons_newline, ih, List.map_cons, replaced_nil]
    · obtain ⟨first, more, he⟩ := List.exists_cons_of_ne_nil (lines_ne_nil t)
      rw [replaced_cons, lines_append_of_notMem (newline_notMem_replaced hc), ih,
        lines_cons_of_ne hc, he]
      simp [replaced_cons c first]

@[simp] theorem newlines_replaced (t : Text) : newlines (replaced t) = newlines t := by
  have h := congrArg List.length (lines_replaced t)
  simpa using h

theorem replaced_singleton_ne_nil (c : CodePoint) : replaced [c] ≠ [] := by
  cases c <;> simp [replaced, CodePoint.isSurrogate]

@[simp] theorem endsLine_replaced (t : Text) : endsLine (replaced t) = endsLine t := by
  rcases List.eq_nil_or_concat t with rfl | ⟨s, c, rfl⟩
  · rfl
  · rw [List.concat_eq_append, replaced_append, endsLine, endsLine,
      List.getLast?_append_of_ne_nil _ (replaced_singleton_ne_nil c), List.getLast?_concat]
    by_cases hc : c = .scalar '\n'
    · subst hc
      rfl
    · have hlast : (replaced [c]).getLast? ≠ some (.scalar '\n') := fun h =>
        newline_notMem_replaced hc (List.mem_of_getLast? h)
      simp [hc, hlast]

/-- Every line of the content lies inside its line of the source, counted from a row on, or
inside that line with its surrogates replaced. -/
def ReadFrom (source : Text) (row : Nat) (content : Text) : Prop :=
  ∀ j line, (lines content)[j]? = some line →
    ∃ whole, (lines source)[row + j]? = some whole ∧
      (line <:+: whole ∨ line <:+: replaced whole)

theorem readFrom_self (source : Text) : ReadFrom source 0 source := by
  intro j line h
  exact ⟨line, by simpa using h, .inl List.infix_rfl⟩

theorem ReadFrom.part {source x p y : Text} {row : Nat} (h : ReadFrom source row (x ++ p ++ y)) :
    ReadFrom source (row + newlines x) p := by
  intro j line hj
  obtain ⟨middle, hm, hi⟩ := lines_part (x := x) (y := y) hj
  obtain ⟨whole, hw, hi'⟩ := h _ _ hm
  exact ⟨whole, by rwa [Nat.add_assoc], hi'.imp hi.trans hi.trans⟩

theorem readFrom_part (x p y : Text) : ReadFrom (x ++ p ++ y) (newlines x) p := by
  simpa using (readFrom_self (x ++ p ++ y)).part

theorem ReadFrom.join {source p q : Text} {row : Nat} (hp : ReadFrom source row p)
    (hq : ReadFrom source (row + (newlines p + 1)) q) :
    ReadFrom source row (p ++ .scalar '\n' :: q) := by
  intro j line hj
  rw [lines_append_newline] at hj
  by_cases hlt : j < (lines p).length
  · rw [List.getElem?_append_left hlt] at hj
    exact hp j line hj
  · rw [List.getElem?_append_right (by omega), length_lines] at hj
    rw [length_lines] at hlt
    obtain ⟨whole, hw, hi⟩ := hq _ line hj
    refine ⟨whole, ?_, hi⟩
    rwa [show row + (newlines p + 1) + (j - (newlines p + 1)) = row + j by omega] at hw

/-! ## Counting lines -/

theorem endsLine_concat (s : Text) : endsLine (s ++ [.scalar '\n']) = true := by
  simp [endsLine]

theorem exists_of_endsLine {t : Text} (h : endsLine t = true) : ∃ s, t = s ++ [.scalar '\n'] := by
  rw [endsLine, beq_iff_eq] at h
  exact ⟨t.dropLast, (List.dropLast_append_getLast? (CodePoint.scalar '\n') h).symm⟩

@[simp] theorem dropFinalNewline_concat (s : Text) : dropFinalNewline (s ++ [.scalar '\n']) = s := by
  simp [dropFinalNewline, endsLine_concat]

theorem dropFinalNewline_of_not_endsLine {t : Text} (h : endsLine t = false) :
    dropFinalNewline t = t := by
  simp [dropFinalNewline, h]

theorem dropFinalNewline_cases (t : Text) :
    (t = dropFinalNewline t ++ [.scalar '\n'] ∧ endsLine t = true) ∨
      (dropFinalNewline t = t ∧ endsLine t = false) := by
  cases h : endsLine t with
  | true =>
    obtain ⟨s, rfl⟩ := exists_of_endsLine h
    exact Or.inl ⟨by simp, rfl⟩
  | false => exact Or.inr ⟨dropFinalNewline_of_not_endsLine h, rfl⟩

theorem countLines_eq (t : Text) : countLines t = newlines (dropFinalNewline t) + 1 := by
  unfold countLines
  rcases dropFinalNewline_cases t with ⟨he, h⟩ | ⟨he, h⟩
  · have hne : t.isEmpty = false := by rw [he]; simp
    have hn : newlines t = newlines (dropFinalNewline t) + 1 := by
      conv_lhs => rw [he]
      simp
    simp only [hne, h, hn]
    simp
  · rw [he]
    cases t with
    | nil => rfl
    | cons c t => simp [h]

theorem replaced_eq_nil_iff {t : Text} : replaced t = [] ↔ t = [] := by
  cases t with
  | nil => simp
  | cons c t =>
    rw [replaced_cons]
    simp [replaced_singleton_ne_nil c]

@[simp] theorem countLines_replaced (t : Text) : countLines (replaced t) = countLines t := by
  have hempty : (replaced t).isEmpty = t.isEmpty := by
    rw [Bool.eq_iff_iff, List.isEmpty_iff, List.isEmpty_iff, replaced_eq_nil_iff]
  rw [countLines, countLines, hempty, newlines_replaced, endsLine_replaced]

theorem countLines_pos (t : Text) : 1 ≤ countLines t := by
  rw [countLines_eq]
  omega

theorem newlines_dropFinalNewline_le (t : Text) : newlines (dropFinalNewline t) ≤ newlines t := by
  rcases dropFinalNewline_cases t with ⟨he, _⟩ | ⟨he, _⟩
  · conv_rhs => rw [he]
    simp
  · rw [he]

theorem countLines_le_length_lines (t : Text) : countLines t ≤ (lines t).length := by
  have := newlines_dropFinalNewline_le t
  rw [countLines_eq, length_lines]
  omega

theorem countLines_dropFinalNewline_le (t : Text) : countLines (dropFinalNewline t) ≤ countLines t := by
  have := newlines_dropFinalNewline_le (dropFinalNewline t)
  rw [countLines_eq, countLines_eq]
  omega

theorem dropFinalNewline_append (x : Text) {y : Text} (hne : y ≠ []) :
    dropFinalNewline (x ++ y) = x ++ dropFinalNewline y := by
  have he : endsLine (x ++ y) = endsLine y := by
    simp [endsLine, List.getLast?_append_of_ne_nil x hne]
  unfold dropFinalNewline
  rw [he]
  split
  · exact List.dropLast_append_of_ne_nil hne
  · rfl

theorem countLines_append (x : Text) {y : Text} (hne : y ≠ []) :
    countLines (x ++ y) = newlines x + countLines y := by
  rw [countLines_eq, countLines_eq, dropFinalNewline_append x hne, newlines_append, Nat.add_assoc]

end SourceChunking.Text

namespace SourceChunking.Refiner
open Text

/-- Lines that each stand whole: none is empty, all but the last end in their only newline, and
the last holds at most a final one. -/
def Whole : List Text → Prop
  | [] => True
  | [line] => line ≠ [] ∧ countLines line = 1
  | line :: rest => endsLine line = true ∧ countLines line = 1 ∧ Whole rest

theorem Whole.ne_nil {line : Text} {rest : List Text} (h : Whole (line :: rest)) : line ≠ [] := by
  cases rest with
  | nil => exact h.1
  | cons _ _ =>
    intro he
    simp [Whole, he, endsLine] at h

theorem Whole.countLines_head {line : Text} {rest : List Text} (h : Whole (line :: rest)) :
    countLines line = 1 := by
  cases rest with
  | nil => exact h.2
  | cons _ _ => exact h.2.1

theorem Whole.tail {line : Text} {rest : List Text} (h : Whole (line :: rest)) : Whole rest := by
  cases rest with
  | nil => trivial
  | cons _ _ => exact h.2.2

theorem Whole.newlines_head {line : Text} {rest : List Text} (h : Whole (line :: rest))
    (hne : rest ≠ []) : newlines line = 1 := by
  cases rest with
  | nil => exact absurd rfl hne
  | cons _ _ =>
    obtain ⟨he, hc, _⟩ := h
    obtain ⟨s, rfl⟩ := exists_of_endsLine he
    rw [countLines_eq, dropFinalNewline_concat] at hc
    simpa using hc

theorem Whole.of_append_right {xs ys : List Text} (h : Whole (xs ++ ys)) : Whole ys := by
  induction xs with
  | nil => exact h
  | cons x xs ih => exact ih h.tail

theorem Whole.of_append_left {xs ys : List Text} (h : Whole (xs ++ ys)) : Whole xs := by
  induction xs with
  | nil => trivial
  | cons x xs ih =>
    have hx := ih h.tail
    cases xs with
    | nil => exact ⟨h.ne_nil, h.countLines_head⟩
    | cons x' xs => exact ⟨h.1, h.2.1, hx⟩

theorem Whole.flatten_ne_nil {ls : List Text} (h : Whole ls) (hne : ls ≠ []) : ls.flatten ≠ [] := by
  cases ls with
  | nil => exact absurd rfl hne
  | cons line rest =>
    have := h.ne_nil
    simp [this]

theorem Whole.newlines_flatten {xs ys : List Text} (h : Whole (xs ++ ys)) (hne : ys ≠ []) :
    newlines xs.flatten = xs.length := by
  induction xs with
  | nil => rfl
  | cons x xs ih =>
    have hx : newlines x = 1 := h.newlines_head (by simp [hne])
    rw [List.flatten_cons, newlines_append, ih h.tail, hx, List.length_cons]
    omega

/-- Whole lines are counted as lines of their text. -/
theorem Whole.countLines_flatten {ls : List Text} (h : Whole ls) (hne : ls ≠ []) :
    countLines ls.flatten = ls.length := by
  induction ls with
  | nil => exact absurd rfl hne
  | cons line rest ih =>
    cases rest with
    | nil => simpa using h.2
    | cons line' rest =>
      have hr := h.tail.flatten_ne_nil (by simp)
      rw [List.flatten_cons, countLines_append line hr, ih h.tail (by simp),
        h.newlines_head (by simp)]
      simp only [List.length_cons]
      omega

theorem flatten_wholeLines (t : Text) : (wholeLines t).flatten = t := by
  induction t with
  | nil => rfl
  | cons c t ih =>
    unfold wholeLines
    split_ifs with hc
    · simp [ih, hc]
    · split
      · next he =>
        rw [he] at ih
        simp [← show [] = t from ih]
      · next line more he =>
        rw [he] at ih
        simpa using ih

theorem whole_wholeLines (t : Text) : Whole (wholeLines t) := by
  induction t with
  | nil => trivial
  | cons c t ih =>
    unfold wholeLines
    split_ifs with hc
    · cases hw : wholeLines t with
      | nil => exact ⟨by simp, rfl⟩
      | cons line rest => exact ⟨rfl, rfl, hw ▸ ih⟩
    · have hone : ∀ line : Text, line ≠ [] → countLines (c :: line) = countLines line := by
        intro line hl
        simpa [newlines_cons_of_ne hc] using countLines_append [c] hl
      split
      · refine ⟨by simp, ?_⟩
        have : endsLine [c] = false := by simp [endsLine, hc]
        rw [countLines_eq, dropFinalNewline_of_not_endsLine this, newlines_cons_of_ne hc]
        rfl
      · next line rest he =>
        rw [he] at ih
        have hl := ih.ne_nil
        cases rest with
        | nil => exact ⟨by simp, by rw [hone line hl]; exact ih.2⟩
        | cons line' rest =>
          refine ⟨?_, by rw [hone line hl]; exact ih.2.1, ih.2.2⟩
          have := ih.1
          simpa [endsLine, List.getLast?_cons_of_ne_nil hl] using this

theorem wholeLines_eq_nil_iff {t : Text} : wholeLines t = [] ↔ t = [] := by
  constructor
  · intro h
    rw [← flatten_wholeLines t, h]
    rfl
  · rintro rfl
    rfl

theorem length_wholeLines {t : Text} (h : t ≠ []) : (wholeLines t).length = countLines t := by
  have hne : wholeLines t ≠ [] := fun he => h (wholeLines_eq_nil_iff.mp he)
  rw [← (whole_wholeLines t).countLines_flatten hne, flatten_wholeLines]

end SourceChunking.Refiner
