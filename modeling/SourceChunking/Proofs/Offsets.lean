import SourceChunking.Proofs.Decoding

/-! # Offsets, points and the lines of nodes

The row of an offset is the number of newline bytes before it, so rows grow with offsets, and a
newline byte is still on the line it ends. A node whose points belong to its offsets begins on the
line of its first byte and ends on the line of its last one, even if that byte is a newline and
the node stops on the row below. If its offsets lie between characters as well, its text and its
lines are those of a part of the source.
-/
namespace SourceChunking

theorem span_of_nonneg {α : Type} (xs : List α) {a b : Int} (ha : 0 ≤ a) (hb : 0 ≤ b) :
    span xs a b = (xs.drop a.toNat).take (b.toNat - a.toNat) := by
  rw [span, signedPlace, signedPlace, if_neg (by omega), if_neg (by omega)]

/-! ## Points -/

/-- The number of rows that begin up to an offset, the first one not counted. -/
def rowAt (source : List UInt8) (offset : Nat) : Nat := (source.take offset).count newlineByte

theorem rowAt_mono (source : List UInt8) {a b : Nat} (h : a ≤ b) : rowAt source a ≤ rowAt source b :=
  (List.take_prefix_take_left h).sublist.count_le _

theorem rowAt_pred {source : List UInt8} {offset : Nat} (h0 : 0 < offset)
    (h : offset ≤ source.length) :
    rowAt source offset = rowAt source (offset - 1) +
      if (source.take offset).getLast? = some newlineByte then 1 else 0 := by
  obtain ⟨k, rfl⟩ : ∃ k, offset = k + 1 := ⟨offset - 1, by omega⟩
  have hk : k < source.length := by omega
  rw [rowAt, rowAt, List.take_succ_eq_append_getElem hk, List.count_append, Nat.add_sub_cancel,
    List.getLast?_concat]
  by_cases hb : source[k] = newlineByte
  · simp [hb]
  · simp [hb, List.count_eq_zero.mpr (show newlineByte ∉ [source[k]] by simpa using Ne.symm hb)]

theorem rowAt_add (source : List UInt8) (a b : Nat) :
    rowAt source (a + b) = rowAt source a + rowAt (source.drop a) b := by
  rw [rowAt, rowAt, rowAt, List.take_add, List.count_append]

/-- The line of the byte at an offset, counted from one. -/
def lineAt (source : List UInt8) (offset : Nat) : Nat := rowAt source offset + 1

theorem lineAt_mono (source : List UInt8) {a b : Nat} (h : a ≤ b) :
    lineAt source a ≤ lineAt source b :=
  Nat.succ_le_succ (rowAt_mono source h)

/-- The last byte is on the last line of the text, whether it ends the line or not. -/
theorem countLines_decode {source : List UInt8} (hne : source ≠ []) :
    Text.countLines (Text.decode source) = lineAt source (source.length - 1) := by
  have hrow : Text.newlines (Text.decode source) = rowAt source source.length := by
    rw [Text.newlines_decode, rowAt, List.take_length]
  have hpred := rowAt_pred (List.length_pos_iff.mpr hne) (Nat.le_refl source.length)
  have hends := Text.endsLine_decode source
  rw [List.take_length, ← hrow] at hpred
  rw [Text.countLines_eq, lineAt]
  rcases Text.dropFinalNewline_cases (Text.decode source) with ⟨he, hlast⟩ | ⟨he, hlast⟩
  · rw [if_pos (hends.mp hlast), he, Text.newlines_append] at hpred
    simpa using hpred
  · have hno : source.getLast? ≠ some newlineByte := by
      intro hnewline
      rw [hends.mpr hnewline] at hlast
      cases hlast
    rw [if_neg hno] at hpred
    rw [he, hpred]

theorem lineAt_le_countLines {source : List UInt8} {offset : Nat} (h : offset < source.length) :
    lineAt source offset ≤ Text.countLines (Text.decode source) := by
  rw [countLines_decode (List.ne_nil_of_length_pos (by omega))]
  exact lineAt_mono source (by omega)

theorem pointAfter_row (row column : Nat) {n : Nat} {bytes : List UInt8} (h : n ≤ bytes.length) :
    (pointAfter row column n bytes).row = row + rowAt bytes n := by
  induction bytes generalizing row column n with
  | nil =>
    obtain rfl : n = 0 := by simpa using h
    simp [pointAfter, rowAt]
  | cons b bytes ih =>
    cases n with
    | zero => simp [pointAfter, rowAt]
    | succ n =>
      have hn : n ≤ bytes.length := by simpa using h
      unfold pointAfter
      split_ifs with hb
      · rw [ih (row + 1) 0 hn]
        simp only [rowAt, List.take_succ_cons, hb, List.count_cons_self]
        omega
      · rw [ih row (column + 1) hn]
        simp only [rowAt, List.take_succ_cons, List.count_cons_of_ne hb]

theorem pointAfter_column (row column : Nat) {n : Nat} {bytes : List UInt8}
    (h : n ≤ bytes.length) :
    (pointAfter row column n bytes).column = 0 ↔
      n = 0 ∧ column = 0 ∨ (bytes.take n).getLast? = some newlineByte := by
  induction bytes generalizing row column n with
  | nil =>
    obtain rfl : n = 0 := by simpa using h
    simp [pointAfter]
  | cons b bytes ih =>
    cases n with
    | zero => simp [pointAfter]
    | succ n =>
      have hn : n ≤ bytes.length := by simpa using h
      have hlast : (bytes.take n).getLast? = none ↔ n = 0 := by
        rw [List.getLast?_eq_none_iff, List.take_eq_nil_iff]
        constructor
        · rintro (rfl | rfl)
          · rfl
          · simpa using hn
        · exact Or.inl
      rw [List.take_succ_cons, List.getLast?_cons]
      unfold pointAfter
      split_ifs with hb
      · rw [ih (row + 1) 0 hn]
        cases hl : (bytes.take n).getLast? with
        | none => simp [hlast.mp hl, hb]
        | some x =>
          have hpos : n ≠ 0 := fun he => by simp [hlast.mpr he] at hl
          simp [hpos]
      · rw [ih row (column + 1) hn]
        cases hl : (bytes.take n).getLast? with
        | none => simp [hb]
        | some x => simp

theorem pointAfter_column_nonneg (row column n : Nat) (bytes : List UInt8) :
    0 ≤ (pointAfter row column n bytes).column := by
  induction bytes generalizing row column n with
  | nil =>
    cases n with
    | zero => simp [pointAfter]
    | succ n =>
      simp only [pointAfter]
      omega
  | cons b bytes ih =>
    cases n with
    | zero => simp [pointAfter]
    | succ n =>
      unfold pointAfter
      split_ifs
      · exact ih _ _ _
      · exact ih _ _ _

theorem pointAfter_ge (row column n : Nat) (bytes : List UInt8) :
    (row : Int) < (pointAfter row column n bytes).row ∨
      (pointAfter row column n bytes).row = row ∧
        (column : Int) ≤ (pointAfter row column n bytes).column := by
  induction bytes generalizing row column n with
  | nil =>
    right
    cases n with
    | zero => simp [pointAfter]
    | succ n =>
      refine ⟨rfl, ?_⟩
      simp only [pointAfter]
      omega
  | cons b bytes ih =>
    cases n with
    | zero => simp [pointAfter]
    | succ n =>
      unfold pointAfter
      split_ifs
      · have := ih (row + 1) 0 n
        omega
      · have := ih row (column + 1) n
        omega

theorem pointAfter_lt (row column : Nat) {m n : Nat} (h : m < n) (bytes : List UInt8) :
    (pointAfter row column m bytes).row < (pointAfter row column n bytes).row ∨
      (pointAfter row column m bytes).row = (pointAfter row column n bytes).row ∧
        (pointAfter row column m bytes).column < (pointAfter row column n bytes).column := by
  obtain ⟨n, rfl⟩ : ∃ k, n = k + 1 := ⟨n - 1, by omega⟩
  induction bytes generalizing row column m n with
  | nil =>
    right
    cases m with
    | zero =>
      refine ⟨rfl, ?_⟩
      simp only [pointAfter]
      omega
    | succ m =>
      refine ⟨rfl, ?_⟩
      simp only [pointAfter]
      omega
  | cons b bytes ih =>
    cases m with
    | zero =>
      simp only [pointAfter]
      split_ifs
      · have := pointAfter_ge (row + 1) 0 n bytes
        omega
      · have := pointAfter_ge row (column + 1) n bytes
        omega
    | succ m =>
      obtain ⟨n, rfl⟩ : ∃ k, n = k + 1 := ⟨n - 1, by omega⟩
      rw [pointAfter, pointAfter]
      split_ifs
      · exact ih (row + 1) 0 n (by omega)
      · exact ih row (column + 1) n (by omega)

theorem pointAt_lt (source : List UInt8) {a b : Int} (ha : 0 ≤ a) (h : a < b) :
    (pointAt source a).row < (pointAt source b).row ∨
      (pointAt source a).row = (pointAt source b).row ∧
        (pointAt source a).column < (pointAt source b).column := by
  rw [pointAt, pointAt, if_neg (by omega), if_neg (by omega)]
  exact pointAfter_lt 0 0 (by omega) source

/-- A node inside the source whose points are those of its offsets. -/
structure Node.Placed (source : List UInt8) (n : Node) : Prop where
  start_nonneg : 0 ≤ n.startByte
  ordered : n.startByte ≤ n.endByte
  stop_le : n.endByte ≤ source.length
  start_eq : n.start = pointAt source n.startByte
  stop_eq : n.stop = pointAt source n.endByte

instance (source : List UInt8) (n : Node) : Decidable (n.Placed source) :=
  decidable_of_iff (0 ≤ n.startByte ∧ n.startByte ≤ n.endByte ∧ n.endByte ≤ source.length ∧
      n.start = pointAt source n.startByte ∧ n.stop = pointAt source n.endByte)
    ⟨fun ⟨a, b, c, d, e⟩ => ⟨a, b, c, d, e⟩, fun ⟨a, b, c, d, e⟩ => ⟨a, b, c, d, e⟩⟩

namespace Node.Placed
variable {source : List UInt8} {n m : Node}

theorem stop_nonneg (h : n.Placed source) : 0 ≤ n.endByte :=
  Int.le_trans h.start_nonneg h.ordered

theorem start_row (h : n.Placed source) : n.start.row = rowAt source n.startByte.toNat := by
  have h0 := h.start_nonneg
  have h1 := h.ordered
  have h2 := h.stop_le
  rw [h.start_eq, pointAt, if_neg (by omega), pointAfter_row 0 0 (by omega)]
  simp

theorem stop_row (h : n.Placed source) : n.stop.row = rowAt source n.endByte.toNat := by
  have h0 := h.stop_nonneg
  have h2 := h.stop_le
  rw [h.stop_eq, pointAt, if_neg (by omega), pointAfter_row 0 0 (by omega)]
  simp

theorem stop_column (h : n.Placed source) :
    n.stop.column = 0 ↔
      n.endByte = 0 ∨ (source.take n.endByte.toNat).getLast? = some newlineByte := by
  have h0 := h.stop_nonneg
  have h2 := h.stop_le
  rw [h.stop_eq, pointAt, if_neg (by omega), pointAfter_column 0 0 (by omega)]
  have : n.endByte.toNat = 0 ↔ n.endByte = 0 := by omega
  simp [this]

theorem start_column_nonneg (h : n.Placed source) : 0 ≤ n.start.column := by
  have h0 := h.start_nonneg
  rw [h.start_eq, pointAt, if_neg (by omega)]
  exact pointAfter_column_nonneg _ _ _ _

theorem startLine_eq (h : n.Placed source) :
    n.startLine = rowAt source n.startByte.toNat + 1 := by
  rw [Node.startLine, h.start_row]

theorem startByte_eq (h : n.Placed source) (h' : m.Placed source)
    (hline : n.startLine = m.startLine) (hcolumn : n.startColumn = m.startColumn) :
    n.startByte = m.startByte := by
  rw [Node.startLine, Node.startLine, h.start_eq, h'.start_eq] at hline
  rw [Node.startColumn, Node.startColumn, h.start_eq, h'.start_eq] at hcolumn
  rcases Int.lt_trichotomy n.startByte m.startByte with hlt | he | hlt
  · have := pointAt_lt source h.start_nonneg hlt
    omega
  · exact he
  · have := pointAt_lt source h'.start_nonneg hlt
    omega

/-- A node that holds something ends on the line of its last byte. -/
theorem endLine_eq (h : n.Placed source) (hlt : n.startByte < n.endByte) :
    n.endLine = rowAt source (n.endByte.toNat - 1) + 1 := by
  have h0 := h.start_nonneg
  have h2 := h.stop_le
  have hpred := rowAt_pred (show 0 < n.endByte.toNat by omega)
    (show n.endByte.toNat ≤ source.length by omega)
  have hmono := rowAt_mono source (show n.startByte.toNat ≤ n.endByte.toNat - 1 by omega)
  have hcol := h.stop_column
  unfold Node.endLine
  rw [h.start_row, h.stop_row]
  by_cases hnl : (source.take n.endByte.toNat).getLast? = some newlineByte
  · rw [if_pos hnl] at hpred
    rw [if_pos ⟨hcol.mpr (Or.inr hnl), by omega⟩]
    omega
  · rw [if_neg hnl] at hpred
    rw [if_neg (fun hc => (hcol.mp hc.1).elim (by omega) hnl)]
    omega

theorem endLine_of_empty (h : n.Placed source) (he : n.startByte = n.endByte) :
    n.endLine = n.startLine := by
  have hrow : n.start.row = n.stop.row := by rw [h.start_row, h.stop_row, he]
  unfold Node.endLine Node.startLine
  rw [if_neg (by omega), hrow]

theorem one_le_startLine (h : n.Placed source) : 1 ≤ n.startLine := by
  rw [h.startLine_eq]
  omega

theorem startLine_le_endLine (h : n.Placed source) : n.startLine ≤ n.endLine := by
  rcases Int.lt_or_eq_of_le h.ordered with hlt | heq
  · have h0 := h.start_nonneg
    have hmono := rowAt_mono source (show n.startByte.toNat ≤ n.endByte.toNat - 1 by omega)
    rw [h.startLine_eq, h.endLine_eq hlt]
    omega
  · exact Int.le_of_eq (h.endLine_of_empty heq).symm

theorem endLine_le_startLine (h : n.Placed source) (h' : m.Placed source)
    (hle : n.endByte ≤ m.startByte) : n.endLine ≤ m.startLine := by
  have h0 := h.start_nonneg
  rw [h'.startLine_eq]
  rcases Int.lt_or_eq_of_le h.ordered with hlt | heq
  · have hmono := rowAt_mono source (show n.endByte.toNat - 1 ≤ m.startByte.toNat by omega)
    rw [h.endLine_eq hlt]
    omega
  · have hmono := rowAt_mono source (show n.startByte.toNat ≤ m.startByte.toNat by omega)
    rw [h.endLine_of_empty heq, h.startLine_eq]
    omega

/-- A node that holds something and lies inside another one is on its lines. -/
theorem lines_inside (h : n.Placed source) (h' : m.Placed source) (hlt : n.startByte < n.endByte)
    (hstart : m.startByte ≤ n.startByte) (hstop : n.endByte ≤ m.endByte) :
    m.startLine ≤ n.startLine ∧ n.endLine ≤ m.endLine := by
  have h0 := h'.start_nonneg
  have hs := rowAt_mono source (show m.startByte.toNat ≤ n.startByte.toNat by omega)
  have he := rowAt_mono source (show n.endByte.toNat - 1 ≤ m.endByte.toNat - 1 by omega)
  rw [h.startLine_eq, h'.startLine_eq, h.endLine_eq hlt, h'.endLine_eq (by omega)]
  omega

theorem endLine_le_countLines_decode (h : n.Placed source) (hlt : n.startByte < n.endByte) :
    n.endLine ≤ Text.countLines (Text.decode source) := by
  have h0 := h.start_nonneg
  have h2 := h.stop_le
  have hline := lineAt_le_countLines (show n.endByte.toNat - 1 < source.length by omega)
  rw [lineAt] at hline
  rw [h.endLine_eq hlt]
  omega

/-- The bytes of a node need not be those of whole characters: what they decode to has as many
lines as the node. -/
theorem countLines_decode_span (h : n.Placed source) (hlt : n.startByte < n.endByte) :
    (Text.countLines (Text.decode (span source n.startByte n.endByte)) : Int) =
      n.endLine - n.startLine + 1 := by
  have h0 := h.start_nonneg
  have h2 := h.stop_le
  rw [h.startLine_eq, h.endLine_eq hlt, span_of_nonneg _ h0 h.stop_nonneg]
  generalize ha : n.startByte.toNat = a
  generalize hb : n.endByte.toNat - n.startByte.toNat = k
  have hlength : ((source.drop a).take k).length = k := by simp; omega
  have hlast : n.endByte.toNat - 1 = a + (k - 1) := by omega
  rw [← ha, hb, ha, countLines_decode (List.ne_nil_of_length_pos (by omega)), lineAt, hlength,
    hlast, rowAt_add, rowAt, List.take_take, Nat.min_eq_left (by omega), ← rowAt]
  omega

end Node.Placed

/-- A node that holds something stands on the lines from its first byte to its last one. So its
lines are in order and lines of the text, they are lines of every node around it, and no node
behind it begins before its last line. -/
theorem node_on_lines_of_bytes {source : List UInt8} {n : Node} (h : n.Placed source)
    (hne : n.startByte < n.endByte) :
    n.startLine = lineAt source n.startByte.toNat ∧
    n.endLine = lineAt source (n.endByte - 1).toNat ∧
    n.startLine ≤ n.endLine ∧ n.endLine ≤ Text.countLines (Text.decode source) ∧
    ∀ m : Node, m.Placed source →
      (m.startByte ≤ n.startByte → n.endByte ≤ m.endByte →
        m.startLine ≤ n.startLine ∧ n.endLine ≤ m.endLine) ∧
      (n.endByte ≤ m.startByte → n.endLine ≤ m.startLine) := by
  refine ⟨h.startLine_eq, ?_, h.startLine_le_endLine, h.endLine_le_countLines_decode hne, ?_⟩
  · rw [h.endLine_eq hne, lineAt, show (n.endByte - 1).toNat = n.endByte.toNat - 1 by omega]
    rfl
  · intro m hm
    exact ⟨h.lines_inside hm hne, h.endLine_le_startLine hm⟩

/-- A letter of two bytes, a blank line, a line that a node takes in with its newline, and a last
line without one. -/
def directiveSource : List UInt8 := Text.encode "é\n\n#x\nz"

/-- A node of the source with the points of its offsets. -/
def directiveNode (a b : Int) : Node :=
  Row.toNode directiveSource ⟨none, "preproc_call", none, true, a, b, none⟩

theorem directiveNode_on_lines :
    directiveSource.length = 8 ∧ Text.countLines (Text.decode directiveSource) = 4 ∧
    (directiveNode 4 7).stop = ⟨3, 0⟩ ∧ (directiveNode 4 7).endLine = 3 ∧
    (directiveNode 4 7).endLine = lineAt directiveSource 6 ∧
    (directiveNode 4 7).endLine ≤ Text.countLines (Text.decode directiveSource) ∧
    (directiveNode 4 7).endLine ≤ (directiveNode 0 8).endLine ∧
    (directiveNode 4 7).endLine ≤ (directiveNode 7 8).startLine := by
  have hinner : (directiveNode 4 7).Placed directiveSource := by decide
  have houter : (directiveNode 0 8).Placed directiveSource := by decide
  have hnext : (directiveNode 7 8).Placed directiveSource := by decide
  obtain ⟨_, hlast, _, hlines, hnodes⟩ := node_on_lines_of_bytes hinner (by decide)
  refine ⟨by decide, by decide, by decide, by decide, hlast, hlines, ?_, ?_⟩
  · exact ((hnodes _ houter).1 (by decide) (by decide)).2
  · exact (hnodes _ hnext).2 (by decide)

/-! ## Nodes between characters -/

/-- An offset that lies between two characters of a text, or at one of its ends. -/
def OnBoundary (t : Text) (offset : Int) : Prop :=
  ∃ x y, t = x ++ y ∧ offset = (Text.encode x).length

theorem onBoundary_iff {t : Text} {offset : Int} :
    OnBoundary t offset ↔ ∃ n < t.length + 1, offset = (Text.encode (t.take n)).length := by
  constructor
  · rintro ⟨x, y, rfl, h⟩
    refine ⟨x.length, ?_, by rwa [List.take_left]⟩
    rw [List.length_append]
    omega
  · rintro ⟨n, _, h⟩
    exact ⟨t.take n, t.drop n, (List.take_append_drop n t).symm, h⟩

instance (t : Text) (offset : Int) : Decidable (OnBoundary t offset) :=
  decidable_of_iff' _ onBoundary_iff

structure Node.BetweenCharacters (source : Text) (n : Node) : Prop where
  start : OnBoundary source n.startByte
  stop : OnBoundary source n.endByte

instance (source : Text) (n : Node) : Decidable (n.BetweenCharacters source) :=
  decidable_of_iff (OnBoundary source n.startByte ∧ OnBoundary source n.endByte)
    ⟨fun ⟨a, b⟩ => ⟨a, b⟩, fun ⟨a, b⟩ => ⟨a, b⟩⟩

theorem encodePoint_ne_nil (c : CodePoint) : Text.encodePoint c ≠ [] := by
  cases c with
  | scalar c => exact String.utf8EncodeChar_ne_nil
  | surrogate n => exact List.cons_ne_nil _ _

theorem encode_eq_nil_iff {t : Text} : Text.encode t = [] ↔ t = [] := by
  cases t with
  | nil => simp
  | cons c t => simp [encodePoint_ne_nil]

theorem Node.BetweenCharacters.exists_part {source : Text} {n : Node}
    (h : n.BetweenCharacters source) (hle : n.startByte ≤ n.endByte) :
    ∃ x p y, source = x ++ p ++ y ∧ n.startByte = (Text.encode x).length ∧
      n.endByte = (Text.encode (x ++ p)).length := by
  obtain ⟨x, y, hxy, hx⟩ := h.start
  obtain ⟨x', y', hxy', hx'⟩ := h.stop
  rcases List.append_eq_append_iff.mp (hxy.symm.trans hxy') with ⟨p, rfl, rfl⟩ | ⟨p, rfl, rfl⟩
  · exact ⟨x, p, y', by simp [hxy], hx, hx'⟩
  · have hp : p = [] := by
      rw [hx, hx', Text.encode_append, List.length_append] at hle
      exact encode_eq_nil_iff.mp (List.length_eq_zero_iff.mp (by omega))
    subst hp
    exact ⟨x', [], y, by simp [hxy'], by simpa using hx, by simpa using hx'⟩

theorem decode_span_encode (x p y : Text) :
    Text.decode (span (Text.encode (x ++ p ++ y)) (Text.encode x).length
      (Text.encode (x ++ p)).length) = Text.replaced p := by
  rw [span_of_nonneg _ (by omega) (by omega), Int.toNat_natCast, Int.toNat_natCast,
    Text.encode_append (x ++ p) y, Text.encode_append x p, List.append_assoc, List.drop_left,
    List.length_append, Nat.add_sub_cancel_left, List.take_left, Text.decode_encode]

theorem Node.Placed.endLine_le_countLines {t : Text} {n : Node} (h : n.Placed (Text.encode t))
    (hlt : n.startByte < n.endByte) : n.endLine ≤ Text.countLines t := by
  have hlast := h.endLine_le_countLines_decode hlt
  rwa [Text.decode_encode, Text.countLines_replaced] at hlast

/-- Of two beginnings of a text, the one with fewer bytes is the shorter one. -/
theorem prefix_of_length_encode_le {x y t : Text} (hx : x <+: t) (hy : y <+: t)
    (h : (Text.encode x).length ≤ (Text.encode y).length) : x <+: y := by
  rcases List.prefix_or_prefix_of_prefix hx hy with hxy | ⟨z, rfl⟩
  · exact hxy
  · have hz : Text.encode z = [] := by
      rw [Text.encode_append, List.length_append] at h
      exact List.eq_nil_of_length_eq_zero (by omega)
    rw [encode_eq_nil_iff.mp hz, List.append_nil]

theorem infix_of_length_encode_le {x p y x' p' y' : Text}
    (h : x ++ p ++ y = x' ++ p' ++ y')
    (hstart : (Text.encode x).length ≤ (Text.encode x').length)
    (hstop : (Text.encode (x' ++ p')).length ≤ (Text.encode (x ++ p)).length) : p' <:+: p := by
  have hx : x <+: x ++ p ++ y := ⟨p ++ y, by simp⟩
  have hx' : x' <+: x ++ p ++ y := ⟨p' ++ y', by simp [h]⟩
  have hxp : x ++ p <+: x ++ p ++ y := List.prefix_append _ _
  have hxp' : x' ++ p' <+: x ++ p ++ y := ⟨y', h.symm⟩
  obtain ⟨between, rfl⟩ := prefix_of_length_encode_le hx hx' hstart
  obtain ⟨rest, he⟩ := prefix_of_length_encode_le hxp' hxp hstop
  refine ⟨between, rest, ?_⟩
  rw [List.append_assoc x, List.append_assoc x] at he
  exact List.append_cancel_left he

end SourceChunking
