import Mathlib.Data.List.Forall2
import Mathlib.Data.List.TakeWhile
import Mathlib.Order.Bounds.Basic
import SourceChunking.Proofs.Fallback
import SourceChunking.Symbol.Comment

/-! # The comment above a definition

Lines are read upwards, nearest first, until one is no comment. What is found are the texts of the longest
block of comments that ends above the row and is no taller than the lookback. A block comment is read up to
its first closing mark. Whatever comes behind the mark is passed over, so a line of code with a comment in
front of it counts as a comment.
-/
namespace SourceChunking
open Text

/-! ## Comments on one line -/

/-- A line that starts with a comment, the text of the comment and what comes behind it. A block comment
ends at its first closing mark. -/
inductive CommentLine : Text → Text → Text → Prop
  | line {line : Text} (h : lineMark <+: line) :
      CommentLine line (trim (line.dropWhile (· == '/'))) []
  | block {body : Text} (behind : Text) (h : ¬blockClosing <:+: body ++ [.scalar '*']) :
      CommentLine (blockOpening ++ body ++ blockClosing ++ behind)
        (trim ((trim body).dropWhile (· == '*'))) behind

def StartsWithComment (line : Text) : Prop := ∃ text behind, CommentLine line text behind

def CommentOnly (line : Text) : Prop := ∃ text, CommentLine line text []

/-- Something comes behind the comment. -/
def CommentBefore (line : Text) : Prop := ∃ text behind, behind ≠ [] ∧ CommentLine line text behind

/-- The text of the comment at the start of a line and what comes behind it. -/
def readComment? (line : Text) : Option (Text × Text) :=
  if lineMark.isPrefixOf line then some (trim (line.dropWhile (· == '/')), [])
  else if blockOpening.isPrefixOf line then
    (offset? blockClosing (line.drop 2)).map fun stop =>
      (trim ((trim ((line.drop 2).take stop)).dropWhile (· == '*')), (line.drop 2).drop (stop + 2))
  else none

theorem commentText_eq (line : Text) : commentText line = (readComment? line).map Prod.fst := by
  unfold commentText readComment?
  split_ifs
  · rfl
  · rw [Option.map_map]
    rfl
  · rfl

/-- A closing mark comes first if there is none in what is before it, together with its star. -/
theorem offset?_close {body : Text} (behind : Text) :
    offset? blockClosing (body ++ blockClosing ++ behind) = some body.length ↔
      ¬blockClosing <:+: body ++ [.scalar '*'] := by
  have hstar : body ++ blockClosing ++ behind = body ++ [.scalar '*'] ++ .scalar '/' :: behind := by
    simp
  have hhere : blockClosing <+: (body ++ blockClosing ++ behind).drop body.length := by
    rw [List.append_assoc, List.drop_left]
    exact List.prefix_append _ _
  rw [offset?_eq_some_iff, and_iff_right hhere, hstar]
  constructor
  · rintro hfirst ⟨x, y, he⟩
    have hlength := congrArg List.length he
    simp only [List.length_append, List.length_cons, List.length_nil] at hlength
    refine hfirst x.length (by omega) ?_
    rw [← he, List.append_assoc, List.append_assoc, List.drop_left]
    exact List.prefix_append _ _
  · intro hnone j hj hearly
    have hlength : (body ++ [CodePoint.scalar '*']).length = body.length + 1 := by simp
    rw [List.drop_append_of_le_length (by omega)] at hearly
    have hshort : blockClosing.length ≤ ((body ++ [CodePoint.scalar '*']).drop j).length := by
      rw [List.length_drop, hlength]
      change 2 ≤ _
      omega
    have hin := List.prefix_of_prefix_length_le hearly (List.prefix_append _ _) hshort
    exact hnone (hin.isInfix.trans (List.drop_suffix j _).isInfix)

theorem readComment?_block {body : Text} (behind : Text)
    (h : ¬blockClosing <:+: body ++ [.scalar '*']) :
    readComment? (blockOpening ++ body ++ blockClosing ++ behind) =
      some (trim ((trim body).dropWhile (· == '*')), behind) := by
  have hline : ¬lineMark.isPrefixOf (blockOpening ++ body ++ blockClosing ++ behind) = true := by
    simp
  have hblock : blockOpening.isPrefixOf (blockOpening ++ body ++ blockClosing ++ behind) = true := by
    simp
  have hrest : (blockOpening ++ body ++ blockClosing ++ behind).drop 2 =
      body ++ blockClosing ++ behind := rfl
  rw [readComment?, if_neg hline, if_pos hblock, hrest, (offset?_close behind).mpr h]
  simp

theorem readComment?_eq_some_iff {line text behind : Text} :
    readComment? line = some (text, behind) ↔ CommentLine line text behind := by
  constructor
  · intro h
    have hread := h
    unfold readComment? at h
    split_ifs at h with hline hblock
    · obtain ⟨rfl, rfl⟩ := Prod.mk.inj (Option.some.inj h)
      exact .line (List.isPrefixOf_iff_prefix.mp hline)
    · obtain ⟨stop, hstop, _⟩ := Option.map_eq_some_iff.mp h
      obtain ⟨rest, rfl⟩ := List.isPrefixOf_iff_prefix.mp hblock
      change offset? blockClosing rest = some stop at hstop
      have hle := offset?_add_length_le hstop
      obtain ⟨after, hafter⟩ := (offset?_eq_some_iff.mp hstop).1
      -- the line is made up of the opening mark, the body, the closing mark and what comes behind it
      obtain ⟨body, rfl, rfl⟩ : ∃ body, rest = body ++ blockClosing ++ after ∧ stop = body.length := by
        refine ⟨rest.take stop, ?_, ?_⟩
        · rw [List.append_assoc, hafter, List.take_append_drop]
        · rw [List.length_take]
          omega
      have hfirst := (offset?_close after).mp hstop
      rw [← List.append_assoc, ← List.append_assoc] at hread ⊢
      rw [readComment?_block after hfirst] at hread
      obtain ⟨rfl, rfl⟩ := Prod.mk.inj (Option.some.inj hread)
      exact .block after hfirst
  · intro h
    cases h with
    | line h => rw [readComment?, if_pos (List.isPrefixOf_iff_prefix.mpr h)]
    | block behind h => exact readComment?_block behind h

theorem commentText_eq_some_iff {line text : Text} :
    commentText line = some text ↔ ∃ behind, CommentLine line text behind := by
  rw [commentText_eq, Option.map_eq_some_iff]
  constructor
  · rintro ⟨⟨_, behind⟩, h, rfl⟩
    exact ⟨behind, readComment?_eq_some_iff.mp h⟩
  · rintro ⟨behind, h⟩
    exact ⟨(text, behind), readComment?_eq_some_iff.mpr h, rfl⟩

theorem isSome_commentText_iff {line : Text} :
    (commentText line).isSome = true ↔ StartsWithComment line := by
  rw [Option.isSome_iff_exists]
  exact exists_congr fun _ => commentText_eq_some_iff

theorem commentOnly_iff {line : Text} :
    CommentOnly line ↔ (readComment? line).map Prod.snd = some [] := by
  rw [Option.map_eq_some_iff]
  constructor
  · rintro ⟨text, h⟩
    exact ⟨(text, []), readComment?_eq_some_iff.mpr h, rfl⟩
  · rintro ⟨⟨text, _⟩, h, rfl⟩
    exact ⟨text, readComment?_eq_some_iff.mp h⟩

theorem commentBefore_iff {line : Text} :
    CommentBefore line ↔ ∃ x ∈ readComment? line, x.2 ≠ [] := by
  constructor
  · rintro ⟨text, behind, hne, h⟩
    exact ⟨(text, behind), readComment?_eq_some_iff.mpr h, hne⟩
  · rintro ⟨⟨text, behind⟩, h, hne⟩
    exact ⟨text, behind, hne, readComment?_eq_some_iff.mp h⟩

instance (line : Text) : Decidable (CommentOnly line) := decidable_of_iff' _ commentOnly_iff

instance (line : Text) : Decidable (CommentBefore line) := decidable_of_iff' _ commentBefore_iff

theorem CommentOnly.startsWithComment {line : Text} (h : CommentOnly line) : StartsWithComment line := by
  obtain ⟨text, h⟩ := h
  exact ⟨text, [], h⟩

theorem StartsWithComment.only_or_before {line : Text} (h : StartsWithComment line) :
    CommentOnly line ∨ CommentBefore line := by
  obtain ⟨text, behind, h⟩ := h
  by_cases hne : behind = []
  · exact Or.inl ⟨text, hne ▸ h⟩
  · exact Or.inr ⟨text, behind, hne, h⟩

/-! ## Blocks above a row -/

/-- Lines directly above a row, as many as the height says, that all have a property when trimmed. -/
structure IsBlock (P : Text → Prop) (lines : List Text) (row height : Nat) : Prop where
  height_le : height ≤ lookback
  within : height ≤ row
  all : ∀ line ∈ lines.extract (row - height) row, P (trim line)

/-- The lines above a row that are looked at, nearest first. -/
def linesAbove (lines : List Text) (row : Nat) : List Text := (lines.take row).reverse.take lookback

section Blocks
variable {lines : List Text} {row height : Nat} {P : Text → Prop} {p : Text → Bool}

theorem filterMap_rowsAbove (hrow : row ≤ lines.length) :
    (rowsAbove row).filterMap (fun r => lines[r]?) = linesAbove lines row := by
  have hreach : ∀ n, (((List.range n).map fun k : Nat => (row : Int) - 1 - (k : Int)).filterMap
      fun r => if 0 ≤ r then some r.toNat else none).filterMap (fun r => lines[r]?) =
      (lines.take row).reverse.take n := by
    intro n
    induction n with
    | zero => rfl
    | succ n ih =>
      rw [List.range_succ, List.map_append, List.filterMap_append, List.filterMap_append, ih,
        List.take_add_one]
      congr 1
      have hlength : (lines.take row).length = row := by simp [hrow]
      by_cases hn : n < row
      · have hplace : ((row : Int) - 1 - n).toNat = row - 1 - n := by omega
        have hpos : 0 ≤ (row : Int) - 1 - n := by omega
        rw [List.getElem?_reverse (by omega), hlength, List.getElem?_take_of_lt (by omega)]
        simp only [List.map_cons, List.map_nil, List.filterMap_cons, List.filterMap_nil, if_pos hpos,
          hplace]
        cases lines[row - 1 - n]? <;> rfl
      · have hneg : ¬0 ≤ (row : Int) - 1 - n := by omega
        rw [List.getElem?_eq_none (by rw [List.length_reverse]; omega)]
        simp only [List.map_cons, List.map_nil, List.filterMap_cons, List.filterMap_nil, if_neg hneg]
        rfl
  exact hreach lookback

theorem length_linesAbove (hrow : row ≤ lines.length) :
    (linesAbove lines row).length = min lookback row := by
  simp [linesAbove, hrow]

/-- A block is read off the lines above the row, from bottom to top. -/
theorem extract_eq_reverse (hrow : row ≤ lines.length) (hle : height ≤ lookback) :
    lines.extract (row - height) row = ((linesAbove lines row).take height).reverse := by
  have hlength : (lines.take row).length = row := by simp [hrow]
  rw [linesAbove, List.take_take, Nat.min_eq_left hle, List.take_reverse, List.reverse_reverse,
    hlength, List.drop_take, List.extract_eq_take_drop]

theorem le_length_takeWhile_iff {ys : List Text} {n : Nat} :
    n ≤ (ys.takeWhile p).length ↔ n ≤ ys.length ∧ ∀ y ∈ ys.take n, p y = true := by
  induction ys generalizing n with
  | nil => simp
  | cons y ys ih =>
    cases n with
    | zero => simp
    | succ n =>
      cases hy : p y with
      | true => simp [hy, ih]
      | false => simp [hy]

/-- Blocks are as tall as the lines above the row have the property without a break. -/
theorem isBlock_iff (hp : ∀ line, p line = true ↔ P (trim line)) (hrow : row ≤ lines.length) :
    IsBlock P lines row height ↔ height ≤ ((linesAbove lines row).takeWhile p).length := by
  rw [le_length_takeWhile_iff, length_linesAbove hrow, Nat.le_min]
  constructor
  · rintro ⟨hle, hwithin, hall⟩
    rw [extract_eq_reverse hrow hle] at hall
    exact ⟨⟨hle, hwithin⟩, fun line hline => (hp line).mpr (hall line (List.mem_reverse.mpr hline))⟩
  · rintro ⟨⟨hle, hwithin⟩, hall⟩
    refine ⟨hle, hwithin, fun line hline => ?_⟩
    rw [extract_eq_reverse hrow hle] at hline
    exact (hp line).mp (hall line (List.mem_reverse.mp hline))

theorem isGreatest_block (hp : ∀ line, p line = true ↔ P (trim line)) (hrow : row ≤ lines.length) :
    IsGreatest {height | IsBlock P lines row height}
      ((linesAbove lines row).takeWhile p).length :=
  ⟨(isBlock_iff hp hrow).mpr (Nat.le_refl _), fun _ h => (isBlock_iff hp hrow).mp h⟩

end Blocks

/-! ## The comment of a block -/

/-- Texts with a space between them; empty ones are left out. -/
def joinTexts (texts : List Text) : Option Text :=
  if (texts.filter fun t => !t.isEmpty).isEmpty then none
  else some (List.intercalate [.scalar ' '] (texts.filter fun t => !t.isEmpty))

/-- What the comments on some lines say together, from top to bottom. -/
def Documents (block : List Text) (documentation : Option Text) : Prop :=
  ∃ texts, List.Forall₂ (fun line text => ∃ behind, CommentLine (trim line) text behind) block texts ∧
    documentation = joinTexts texts

theorem forall₂_filterMap_commentText {ys : List Text}
    (h : ∀ y ∈ ys, (commentText (trim y)).isSome = true) :
    List.Forall₂ (fun line text => ∃ behind, CommentLine (trim line) text behind) ys
      (ys.filterMap fun y => commentText (trim y)) := by
  induction ys with
  | nil => exact .nil
  | cons y ys ih =>
    obtain ⟨hy, hys⟩ := List.forall_mem_cons.mp h
    obtain ⟨text, htext⟩ := Option.isSome_iff_exists.mp hy
    rw [List.filterMap_cons_some (f := fun y => commentText (trim y)) htext]
    exact .cons (commentText_eq_some_iff.mp htext) (ih hys)

section Documentation
variable {lines : List Text} {row : Nat}

theorem documentationAbove_eq_joinTexts (lines : List Text) (row : Int) :
    documentationAbove lines row = joinTexts (commentsAbove lines row).reverse := by
  unfold documentationAbove joinTexts
  simp only [List.filter_reverse, List.isEmpty_reverse]

theorem commentsAbove_eq (hrow : row ≤ lines.length) :
    commentsAbove lines row =
      ((linesAbove lines row).takeWhile fun y => (commentText (trim y)).isSome).filterMap
        fun y => commentText (trim y) := by
  rw [commentsAbove, filterMap_rowsAbove hrow, List.takeWhile_map, List.filterMap_map]
  rfl

/-- The lines from the nearest one up to the first that is no comment give the documentation. -/
theorem documents_documentationAbove (hrow : row ≤ lines.length) {height : Nat}
    (h : IsGreatest {k | IsBlock StartsWithComment lines row k} height) :
    Documents (lines.extract (row - height) row) (documentationAbove lines row) := by
  have hgreatest := isGreatest_block (fun line => isSome_commentText_iff) hrow
  obtain rfl := hgreatest.unique h
  have htaken : (linesAbove lines row).takeWhile (fun y => (commentText (trim y)).isSome) <+:
      linesAbove lines row := List.takeWhile_prefix _
  have hwhole := List.prefix_iff_eq_take.mp htaken
  rw [extract_eq_reverse hrow h.1.height_le, ← hwhole]
  refine ⟨(commentsAbove lines row).reverse, ?_, documentationAbove_eq_joinTexts lines row⟩
  rw [commentsAbove_eq hrow]
  refine List.rel_reverse (forall₂_filterMap_commentText fun y hy => ?_)
  exact List.mem_takeWhile_imp (p := fun y => (commentText (trim y)).isSome) hy

/-- Where the block of comments is the taller one, the line above the lines that hold nothing but
comments has something behind its comment. -/
theorem exists_commentBefore {m n : Nat}
    (hm : IsGreatest {k | IsBlock CommentOnly lines row k} m) (hn : IsBlock StartsWithComment lines row n)
    (hlt : m < n) : ∃ line ∈ lines[row - m - 1]?, CommentBefore (trim line) := by
  have ⟨hle, hwithin, hall⟩ := hn
  have hnot : ¬IsBlock CommentOnly lines row (m + 1) := fun h => by
    have := hm.2 h
    omega
  have hline : ¬∀ line ∈ lines.extract (row - (m + 1)) row, CommentOnly (trim line) := fun h =>
    hnot ⟨by omega, by omega, h⟩
  push Not at hline
  obtain ⟨line, hmem, hcode⟩ := hline
  obtain ⟨i, hfirst, hlast, hi⟩ := mem_extract_iff.mp hmem
  -- the lines below it hold nothing but comments
  have hi' : i = row - m - 1 := by
    by_contra hne
    exact hcode (hm.1.all line (mem_extract_iff.mpr ⟨i, by omega, hlast, hi⟩))
  refine ⟨line, hi' ▸ hi, ?_⟩
  have hstarts := hall line (mem_extract_iff.mpr ⟨i, by omega, hlast, hi⟩)
  exact hstarts.only_or_before.resolve_left hcode

end Documentation

/-- The documentation above a row of a text joins the comments of the longest block of lines above it
that start with a comment, no taller than the lookback. Where this is not the longest block of lines that
hold nothing but a comment, it goes on with a line that has something behind its comment; where no line
within reach is of this sort, the two blocks are the same. -/
theorem documentationAbove_longest_block (lines : List Text) {row : Nat} (hrow : row ≤ lines.length) :
    ∃ m n, IsGreatest {k | IsBlock CommentOnly lines row k} m ∧
      IsGreatest {k | IsBlock StartsWithComment lines row k} n ∧
      Documents (lines.extract (row - n) row) (documentationAbove lines row) ∧
      m ≤ n ∧ (m < n → ∃ line ∈ lines[row - m - 1]?, CommentBefore (trim line)) ∧
      ((∀ line ∈ lines.extract (row - lookback) row, ¬CommentBefore (trim line)) →
        Documents (lines.extract (row - m) row) (documentationAbove lines row)) := by
  have hm := isGreatest_block (P := CommentOnly) (fun line => decide_eq_true_iff) hrow
  have hn := isGreatest_block (fun line => isSome_commentText_iff) hrow
  have hdocuments := documents_documentationAbove hrow hn
  generalize ((linesAbove lines row).takeWhile _).length = m at hm
  generalize ((linesAbove lines row).takeWhile _).length = n at hn hdocuments
  have hstarts : IsBlock StartsWithComment lines row m :=
    ⟨hm.1.height_le, hm.1.within, fun line hline => (hm.1.all line hline).startsWithComment⟩
  refine ⟨m, n, hm, hn, hdocuments, hn.2 hstarts, exists_commentBefore hm hn.1, fun hnone => ?_⟩
  rcases Nat.lt_or_eq_of_le (hn.2 hstarts) with hlt | rfl
  · obtain ⟨line, hline, hbefore⟩ := exists_commentBefore hm hn.1 hlt
    have hle := hn.1.height_le
    have hwithin := hn.1.within
    exact absurd hbefore (hnone line (mem_extract_iff.mpr ⟨_, by omega, by omega, hline⟩))
  · exact hdocuments

/-- A line of code with a comment in front of it, between a comment and a definition. -/
def mixedLines : List Text := ["// about g", "/* c */ int g;", "int f()\x7b\x7d"]

/-- The line above the definition is code, and yet it is taken for a comment, and so is the comment of
that code. -/
theorem mixedLines_documented :
    ¬CommentOnly (trim (Text.ofString "/* c */ int g;")) ∧
    IsGreatest {k | IsBlock CommentOnly mixedLines 2 k} 0 ∧
    documentationAbove mixedLines 2 = some (Text.ofString "about g c") ∧
    ¬Documents (mixedLines.extract (2 - 0) 2) (documentationAbove mixedLines 2) := by
  have hheight : ((linesAbove mixedLines 2).takeWhile fun line =>
      decide (CommentOnly (trim line))).length = 0 := by decide
  have hgreatest := isGreatest_block (P := CommentOnly) (fun line => decide_eq_true_iff)
    (show 2 ≤ mixedLines.length by decide)
  rw [hheight] at hgreatest
  refine ⟨by decide, hgreatest, by decide, ?_⟩
  rintro ⟨texts, hblock, hjoined⟩
  have hempty : mixedLines.extract (2 - 0) 2 = [] := rfl
  rw [hempty] at hblock
  cases hblock
  revert hjoined
  decide

/-- Behind a line of code, a comment, an empty comment and a block comment. -/
def plainLines : List Text :=
  ["//z", "x", " // a", "/**/", "/** b */", "f"]

theorem plainLines_longest_block :
    (5 ≤ plainLines.length ∧
      (∀ line ∈ plainLines.extract (5 - lookback) 5, ¬CommentBefore (trim line)) ∧
      Documents (plainLines.extract (5 - 3) 5) (documentationAbove plainLines 5) ∧
      documentationAbove plainLines 5 = some (Text.ofString "a b")) ∧
    2 ≤ mixedLines.length ∧ Documents (mixedLines.extract (2 - 2) 2) (documentationAbove mixedLines 2) ∧
    ∃ line ∈ mixedLines[1]?, CommentBefore (trim line) := by
  have hrow : 5 ≤ plainLines.length := by decide
  have hrow' : 2 ≤ mixedLines.length := by decide
  have hnone : ∀ line ∈ plainLines.extract (5 - lookback) 5, ¬CommentBefore (trim line) := by decide
  obtain ⟨m, _, hm, _, _, _, _, hplain⟩ := documentationAbove_longest_block plainLines hrow
  obtain rfl : m = 3 := hm.unique
    (isGreatest_block (P := CommentOnly) (fun line => decide_eq_true_iff) hrow)
  obtain ⟨m', n', hm', hn', hdocuments, _, hbefore, _⟩ :=
    documentationAbove_longest_block mixedLines hrow'
  obtain rfl : m' = 0 := hm'.unique
    (isGreatest_block (P := CommentOnly) (fun line => decide_eq_true_iff) hrow')
  obtain rfl : n' = 2 := hn'.unique (isGreatest_block (fun line => isSome_commentText_iff) hrow')
  exact ⟨⟨hrow, hnone, hplain hnone, by decide⟩, hrow', hdocuments, hbefore (by decide)⟩

end SourceChunking
