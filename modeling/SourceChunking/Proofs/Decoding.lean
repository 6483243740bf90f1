import SourceChunking.Proofs.Lines
import SourceChunking.Tree.Basic

/-! # Decoding

Decoding takes back what encoding wrote, but for surrogates, which come back as replacement
characters. Whatever the bytes are, it writes a newline for every
newline byte and for nothing else, at the end of the text as inside: an open sequence never takes
a newline in, and no sequence stands for one.
-/
namespace SourceChunking.Text

/-! ## Encoded text -/

theorem decodeFrom_cons (pending : Pending) (b : UInt8) (rest : List UInt8) :
    decodeFrom pending (b :: rest) =
      (decodeByte pending b.toNat).1 ++ decodeFrom (decodeByte pending b.toNat).2 rest := by
  cases pending <;> rfl

/-- A fitting octet goes into the value of the sequence at hand. -/
theorem decodeFrom_due {value left low high n : Nat} (hlow : low ≤ n) (hhigh : n ≤ high)
    (hleft : 1 < left) (hn : n < 256) (rest : List UInt8) :
    decodeFrom (.due value left low high) (UInt8.ofNat n :: rest) =
      decodeFrom (.due (value * 64 + (n - 0x80)) (left - 1) 0x80 0xbf) rest := by
  rw [decodeFrom_cons, UInt8.toNat_ofNat_of_lt' hn]
  simp only [decodeByte, hlow, hhigh, and_self, ↓reduceIte, if_neg (show ¬ left ≤ 1 by omega),
    List.nil_append]

theorem decodeFrom_last {value low high n : Nat} (hlow : low ≤ n) (hhigh : n ≤ high)
    (hn : n < 256) (rest : List UInt8) :
    decodeFrom (.due value 1 low high) (UInt8.ofNat n :: rest) =
      .scalar (Char.ofNat (value * 64 + (n - 0x80))) :: decodeFrom .idle rest := by
  rw [decodeFrom_cons, UInt8.toNat_ofNat_of_lt' hn]
  simp [decodeByte, hlow, hhigh]

theorem decodeFrom_open {n : Nat} {pending : Pending} (hn : n < 256)
    (ho : openSequence n = ([], pending)) (rest : List UInt8) :
    decodeFrom .idle (UInt8.ofNat n :: rest) = decodeFrom pending rest := by
  rw [decodeFrom_cons, UInt8.toNat_ofNat_of_lt' hn]
  simp [decodeByte, ho]

theorem decodeFrom_encodeChar (c : Char) (rest : List UInt8) :
    decodeFrom .idle (String.utf8EncodeChar c ++ rest) = .scalar c :: decodeFrom .idle rest := by
  have hv : c.val.toNat < 0xd800 ∨ 0xdfff < c.val.toNat ∧ c.val.toNat < 0x110000 := c.valid
  have hc : Char.ofNat c.val.toNat = c := Char.ofNat_toNat c
  unfold String.utf8EncodeChar
  dsimp only
  generalize c.val.toNat = n at hv hc ⊢
  split_ifs with h1 h2 h3
  · have ho : openSequence n = ([.scalar c], .idle) := by
      simp [openSequence, show n < 0x80 by omega, hc]
    rw [List.cons_append, decodeFrom_cons, UInt8.toNat_ofNat_of_lt' (by omega : n < 256)]
    simp [decodeByte, ho]
  · have ho : openSequence (n / 64 % 32 + 192) = ([], .due (n / 64) 1 0x80 0xbf) := by
      rw [openSequence, if_neg (by omega), if_neg (by omega), if_pos (by omega),
        show n / 64 % 32 + 192 - 192 = n / 64 by omega]
    simp only [List.cons_append, List.nil_append]
    rw [decodeFrom_open (by omega) ho, decodeFrom_last (by omega) (by omega) (by omega),
      show n / 64 * 64 + (n % 64 + 128 - 128) = n by omega, hc]
  · have ho : openSequence (n / 4096 % 16 + 224) = ([], .due (n / 4096) 2
        (if n / 4096 = 0 then 0xa0 else 0x80) (if n / 4096 = 13 then 0x9f else 0xbf)) := by
      rw [openSequence, if_neg (by omega), if_neg (by omega), if_neg (by omega), if_pos (by omega),
        show n / 4096 % 16 + 224 - 224 = n / 4096 by omega]
      congr 2
      · exact if_congr (by omega) rfl rfl
      · exact if_congr (by omega) rfl rfl
    simp only [List.cons_append, List.nil_append]
    rw [decodeFrom_open (by omega) ho, decodeFrom_due (by split_ifs <;> omega)
      (by split_ifs <;> omega) (by omega) (by omega),
      decodeFrom_last (by omega) (by omega) (by omega),
      show (n / 4096 * 64 + (n / 64 % 64 + 128 - 128)) * 64 + (n % 64 + 128 - 128) = n by omega, hc]
  · have ho : openSequence (n / 262144 % 8 + 240) = ([], .due (n / 262144) 3
        (if n / 262144 = 0 then 0x90 else 0x80) (if n / 262144 = 4 then 0x8f else 0xbf)) := by
      rw [openSequence, if_neg (by omega), if_neg (by omega), if_neg (by omega), if_neg (by omega),
        if_pos (by omega), show n / 262144 % 8 + 240 - 240 = n / 262144 by omega]
      congr 2
      · exact if_congr (by omega) rfl rfl
      · exact if_congr (by omega) rfl rfl
    simp only [List.cons_append, List.nil_append]
    rw [decodeFrom_open (by omega) ho, decodeFrom_due (by split_ifs <;> omega)
      (by split_ifs <;> omega) (by omega) (by omega), decodeFrom_due (by omega) (by omega)
      (by omega) (by omega), decodeFrom_last (by omega) (by omega) (by omega),
      show ((n / 262144 * 64 + (n / 4096 % 64 + 128 - 128)) * 64 + (n / 64 % 64 + 128 - 128)) * 64
        + (n % 64 + 128 - 128) = n by omega, hc]

/-- None of the three octets of a surrogate continues a sequence: the first one opens a sequence
whose second octet has to lie below. -/
theorem decodeFrom_encodePoint (c : CodePoint) (rest : List UInt8) :
    decodeFrom .idle (encodePoint c ++ rest) = replaced [c] ++ decodeFrom .idle rest := by
  cases c with
  | scalar c => exact decodeFrom_encodeChar c rest
  | surrogate n =>
    have hopen : openSequence 0xed = ([], .due 13 2 0x80 0x9f) := by decide
    have hstray : ∀ b, 0x80 ≤ b → b < 0xc2 → openSequence b = ([replacement], .idle) := by
      intro b hlow hhigh
      rw [openSequence, if_neg (by omega), if_pos hhigh]
    have hsecond : decodeByte (.due 13 2 0x80 0x9f) (0xa0 + n / 0x40) =
        ([replacement, replacement], .idle) := by
      rw [decodeByte, if_neg (by omega), hstray _ (by omega) (by omega)]
    have hthird := hstray (0x80 + n % 0x40) (by omega) (by omega)
    change decodeFrom .idle
      (UInt8.ofNat 0xed :: UInt8.ofNat (0xa0 + n / 0x40) :: UInt8.ofNat (0x80 + n % 0x40) :: rest) =
        replacement :: replacement :: replacement :: decodeFrom .idle rest
    rw [decodeFrom_open (by omega) hopen, decodeFrom_cons,
      UInt8.toNat_ofNat_of_lt' (by omega : 0xa0 + (n : Nat) / 0x40 < 256), hsecond, decodeFrom_cons,
      UInt8.toNat_ofNat_of_lt' (by omega : 0x80 + (n : Nat) % 0x40 < 256), decodeByte, hthird]
    rfl

@[simp] theorem encode_nil : encode [] = [] := rfl

@[simp] theorem encode_cons (c : CodePoint) (t : Text) :
    encode (c :: t) = encodePoint c ++ encode t := rfl

@[simp] theorem encode_append (s t : Text) : encode (s ++ t) = encode s ++ encode t :=
  List.flatMap_append

@[simp] theorem decode_encode (t : Text) : decode (encode t) = replaced t := by
  unfold decode
  induction t with
  | nil => rfl
  | cons c t ih => rw [encode_cons, decodeFrom_encodePoint, ih, ← replaced_cons]

/-! ## Newlines -/

/-- The next octet of the sequence at hand is no ASCII character, and neither will its value be
one. -/
def Pending.Sound : Pending → Prop
  | .idle => True
  | .due value left low _ => 0x80 ≤ low ∧ (0 < value ∨ 1 < left ∧ 0x80 < low)

theorem sound_idle : Pending.Sound .idle := trivial

theorem ofNat_ne_newline {n : Nat} (h : n ≠ 10) :
    CodePoint.scalar (Char.ofNat n) ≠ .scalar '\n' := by
  intro he
  have hn := congrArg CodePoint.toNat he
  simp only [CodePoint.toNat] at hn
  by_cases hvalid : n.isValidChar
  · rw [Char.ofNat, dif_pos hvalid] at hn
    exact h hn
  · rw [Char.ofNat, dif_neg hvalid] at hn
    cases hn

theorem newlines_openSequence (n : Nat) :
    newlines (openSequence n).1 = if n = 10 then 1 else 0 := by
  by_cases hn : n = 10
  · subst hn
    decide
  · rw [if_neg hn]
    unfold openSequence
    split_ifs
    · exact newlines_cons_of_ne (ofNat_ne_newline hn) []
    all_goals rfl

theorem sound_openSequence (n : Nat) : (openSequence n).2.Sound := by
  unfold openSequence
  split_ifs <;> simp only [Pending.Sound] <;> omega

/-- A byte that does not continue the sequence at hand starts anew, behind a replacement. -/
theorem decodeByte_due_cases (value left low high n : Nat) :
    low ≤ n ∧ left ≤ 1 ∧
      decodeByte (.due value left low high) n =
        ([.scalar (Char.ofNat (value * 64 + (n - 0x80)))], .idle) ∨
    low ≤ n ∧ 1 < left ∧ decodeByte (.due value left low high) n =
      ([], .due (value * 64 + (n - 0x80)) (left - 1) 0x80 0xbf) ∨
    decodeByte (.due value left low high) n =
      (replacement :: (openSequence n).1, (openSequence n).2) := by
  rw [decodeByte]
  split_ifs with hfits hleft
  · exact Or.inl ⟨hfits.1, hleft, rfl⟩
  · exact Or.inr (Or.inl ⟨hfits.1, by omega, rfl⟩)
  · exact Or.inr (Or.inr rfl)

/-- One byte writes a newline if it is one and otherwise none. The value of a sequence is never
that of a newline: it is above zero before the last octet, which adds six bits. -/
theorem newlines_decodeByte {pending : Pending} (h : pending.Sound) (n : Nat) :
    newlines (decodeByte pending n).1 = (if n = 10 then 1 else 0) ∧
      (decodeByte pending n).2.Sound := by
  cases pending with
  | idle => exact ⟨newlines_openSequence n, sound_openSequence n⟩
  | due value left low high =>
    obtain ⟨hlow, hvalue⟩ := h
    rcases decodeByte_due_cases value left low high n with
      ⟨hn, hleft, he⟩ | ⟨hn, hleft, he⟩ | he
    · -- the sequence is complete, with a value of at least 64
      rw [he, if_neg (by omega)]
      exact ⟨newlines_cons_of_ne (ofNat_ne_newline (by omega)) [], trivial⟩
    · rw [he, if_neg (by omega)]
      exact ⟨rfl, by omega, by omega⟩
    · rw [he]
      exact ⟨newlines_openSequence n, sound_openSequence n⟩

theorem newlines_decodeFrom {pending : Pending} (h : pending.Sound) (bytes : List UInt8) :
    newlines (decodeFrom pending bytes) = bytes.count newlineByte := by
  induction bytes generalizing pending with
  | nil => cases pending <;> rfl
  | cons b rest ih =>
    obtain ⟨hout, hnext⟩ := newlines_decodeByte h b.toNat
    have hb : b.toNat = 10 ↔ b = newlineByte := UInt8.toNat_inj (b := newlineByte)
    rw [decodeFrom_cons, newlines_append, hout, ih hnext, List.count_cons, Nat.add_comm]
    simp only [hb, beq_iff_eq]

theorem newlines_decode (bytes : List UInt8) :
    newlines (decode bytes) = bytes.count newlineByte :=
  newlines_decodeFrom sound_idle bytes

/-- A byte that writes nothing has a sequence open behind it. -/
theorem decodeByte_writes (pending : Pending) (n : Nat) :
    (decodeByte pending n).1 ≠ [] ∨ (decodeByte pending n).2 ≠ .idle := by
  cases pending with
  | idle =>
    simp only [decodeByte, openSequence]
    split_ifs <;> simp
  | due value left low high =>
    rcases decodeByte_due_cases value left low high n with ⟨_, _, he⟩ | ⟨_, _, he⟩ | he
    all_goals simp [he]

theorem decodeFrom_ne_nil {pending : Pending} {bytes : List UInt8}
    (h : pending ≠ .idle ∨ bytes ≠ []) : decodeFrom pending bytes ≠ [] := by
  induction bytes generalizing pending with
  | nil =>
    cases pending with
    | idle => simp at h
    | due value left low high => simp [decodeFrom]
  | cons b rest ih =>
    rw [decodeFrom_cons]
    rcases decodeByte_writes pending b.toNat with hout | hopen
    · exact List.append_ne_nil_of_left_ne_nil hout _
    · exact List.append_ne_nil_of_right_ne_nil _ (ih (Or.inl hopen))

theorem endsLine_decodeFrom_newline {pending : Pending} (h : pending.Sound) :
    endsLine (decodeFrom pending [newlineByte]) = true := by
  cases pending with
  | idle => rfl
  | due value left low high =>
    have hlow := h.1
    have hnew : decodeByte (.due value left low high) newlineByte.toNat =
        (replacement :: (openSequence 10).1, (openSequence 10).2) := by
      change decodeByte (.due value left low high) 10 = _
      rw [decodeByte, if_neg (by omega)]
    rw [decodeFrom_cons, hnew]
    rfl

theorem endsLine_decodeFrom {pending : Pending} (h : pending.Sound) (bytes : List UInt8) :
    endsLine (decodeFrom pending bytes) = true ↔ bytes.getLast? = some newlineByte := by
  induction bytes generalizing pending with
  | nil =>
    have hother : replacement ≠ .scalar '\n' := by decide
    cases pending <;> simp [decodeFrom, endsLine, hother]
  | cons b rest ih =>
    cases rest with
    | nil =>
      rw [List.getLast?_singleton, Option.some_inj]
      constructor
      · intro hends
        obtain ⟨s, hs⟩ := exists_of_endsLine hends
        have hcount := newlines_decodeFrom h [b]
        rw [hs, newlines_append, List.count_singleton] at hcount
        by_contra hb
        simp [hb] at hcount
      · rintro rfl
        exact endsLine_decodeFrom_newline h
    | cons b' rest =>
      have hrest := ih (newlines_decodeByte h b.toNat).2
      have htail : decodeFrom (decodeByte pending b.toNat).2 (b' :: rest) ≠ [] :=
        decodeFrom_ne_nil (Or.inr (List.cons_ne_nil b' rest))
      rw [List.getLast?_cons_cons, ← hrest, decodeFrom_cons, endsLine, endsLine,
        List.getLast?_append_of_ne_nil _ htail]

theorem endsLine_decode (bytes : List UInt8) :
    endsLine (decode bytes) = true ↔ bytes.getLast? = some newlineByte :=
  endsLine_decodeFrom sound_idle bytes

end SourceChunking.Text
