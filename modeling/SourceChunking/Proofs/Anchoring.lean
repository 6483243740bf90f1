import Mathlib.Data.List.TakeWhile
import SourceChunking.Proofs.Fallback

/-! # Pieces that are found again

Pieces are searched for from left to right, each behind the one before. The first place where a piece
fits may be before the one that it was taken from, but this only leaves more room for the pieces behind
it: if there is any way to place all pieces one behind the other, then every piece is found, and no later
than there. If blanks alone lie outside of the pieces and no piece starts with one, the first place that
fits is the right one, and each section of the text is its piece with blanks around it.
-/
namespace SourceChunking
open Text

/-! ## Blanks at the ends of a text -/

namespace Text
variable {w x : Text}

theorem allBlank_iff {t : Text} : allBlank t = true ↔ ∀ c ∈ t, isBlank c = true := List.all_eq_true

theorem trimStart_append_left (hw : allBlank w = true) (x : Text) :
    trimStart (w ++ x) = trimStart x :=
  List.dropWhile_append_of_pos (allBlank_iff.mp hw)

theorem trimEnd_append_right (x : Text) (hw : allBlank w = true) : trimEnd (x ++ w) = trimEnd x := by
  have hrev : ∀ c ∈ w.reverse, isBlank c = true := fun c hc =>
    allBlank_iff.mp hw c (List.mem_reverse.mp hc)
  rw [trimEnd, trimEnd, trimEndWhere, trimEndWhere, List.reverse_append,
    List.dropWhile_append_of_pos hrev]

theorem trim_append_right (x : Text) (hw : allBlank w = true) : trim (x ++ w) = trim x := by
  have hnil : w.dropWhile isBlank = [] := List.dropWhile_eq_nil_iff.mpr (allBlank_iff.mp hw)
  unfold trim trimStart
  rw [List.dropWhile_append]
  split_ifs with he
  · rw [hnil, List.isEmpty_iff.mp he]
  · exact trimEnd_append_right _ hw

/-- Blanks around a text are trimmed off. -/
theorem trim_surrounded {w' : Text} (hw : allBlank w = true) (x : Text) (hw' : allBlank w' = true) :
    trim (w ++ x ++ w') = trim x := by
  rw [trim_append_right _ hw', trim, trimStart_append_left hw]
  rfl

theorem trim_dropFinalNewline (t : Text) : trim (dropFinalNewline t) = trim t := by
  rcases dropFinalNewline_cases t with ⟨he, _⟩ | ⟨he, _⟩
  · conv_rhs => rw [he]
    exact (trim_append_right _ (by decide)).symm
  · rw [he]

theorem extract_append_extract (t : Text) {a b c : Nat} (hab : a ≤ b) (hbc : b ≤ c) :
    t.extract a b ++ t.extract b c = t.extract a c := by
  have hdrop : t.drop b = (t.drop a).drop (b - a) := by
    rw [List.drop_drop, Nat.add_sub_cancel' hab]
  rw [List.extract_eq_take_drop, List.extract_eq_take_drop, List.extract_eq_take_drop, hdrop,
    ← List.take_add]
  congr 1
  omega

theorem extract_of_occurs {t p : Text} {o : Nat} (hp : p <+: t.drop o) :
    t.extract o (o + p.length) = p := by
  rw [List.extract_eq_take_drop, Nat.add_sub_cancel_left]
  exact (List.prefix_iff_eq_take.mp hp).symm

theorem allBlank_extract {t : Text} {a b : Nat}
    (h : ∀ i, a ≤ i → i < b → ∀ c ∈ t[i]?, isBlank c = true) :
    allBlank (t.extract a b) = true := by
  refine allBlank_iff.mpr fun c hc => ?_
  obtain ⟨i, ha, hb, hi⟩ := mem_extract_iff.mp hc
  exact h i ha hb c hi

theorem getElem?_of_occurs {t p : Text} {i : Nat} {c : CodePoint} (hp : p <+: t.drop i)
    (hc : c ∈ p.head?) : t[i]? = some c := by
  obtain ⟨rest, he⟩ := hp
  rw [← List.head?_drop, ← he, List.head?_append, hc]
  rfl

end Text

/-! ## Placements -/

/-- Offsets from `low` on at which pieces occur in a text, each behind the end of the one before. -/
inductive OccurFrom (t : Text) : Nat → List Text → List Nat → Prop
  | nil (low : Nat) : OccurFrom t low [] []
  | cons {low o : Nat} {p : Text} {ps : List Text} {os : List Nat} (hle : low ≤ o)
      (hp : p <+: t.drop o) (hrest : OccurFrom t (o + p.length) ps os) :
      OccurFrom t low (p :: ps) (o :: os)

/-- From `low` on, every character that lies in none of the pieces is blank. -/
def BlankFrom (t : Text) (low : Nat) (ps : List Text) (os : List Nat) : Prop :=
  ∀ i, low ≤ i → (∀ x ∈ ps.zip os, ¬(x.2 ≤ i ∧ i < x.2 + x.1.length)) →
    ∀ c ∈ t[i]?, isBlank c = true

def StartsNonblank (p : Text) : Prop := ∃ c ∈ p.head?, isBlank c = false

section Placements
variable {t p : Text} {low o : Nat} {ps : List Text} {os : List Nat}

theorem StartsNonblank.ne_nil (h : StartsNonblank p) : p ≠ [] := by
  rintro rfl
  obtain ⟨c, hc, _⟩ := h
  cases hc

namespace OccurFrom

theorem length_eq (h : OccurFrom t low ps os) : os.length = ps.length := by
  induction h with
  | nil => rfl
  | cons _ _ _ ih => rw [List.length_cons, List.length_cons, ih]

theorem low_le (h : OccurFrom t low ps os) : ∀ o ∈ os, low ≤ o := by
  induction h with
  | nil => simp
  | cons hle _ _ ih =>
    refine List.forall_mem_cons.mpr ⟨hle, fun o ho => ?_⟩
    have := ih o ho
    omega

theorem pairwise_lt (h : OccurFrom t low ps os) (hne : ∀ p ∈ ps, p ≠ []) :
    os.Pairwise (· < ·) := by
  induction h with
  | nil => exact List.Pairwise.nil
  | cons _ _ hrest ih =>
    obtain ⟨hp, hne⟩ := List.forall_mem_cons.mp hne
    have hpos := List.length_pos_iff.mpr hp
    refine List.pairwise_cons.mpr ⟨fun o ho => ?_, ih hne⟩
    have := hrest.low_le o ho
    omega

end OccurFrom

namespace BlankFrom

theorem rest (h : BlankFrom t low (p :: ps) (o :: os)) (hle : low ≤ o) :
    BlankFrom t (o + p.length) ps os := by
  intro i hi hout
  refine h i (by omega) ?_
  rw [List.zip_cons_cons]
  exact List.forall_mem_cons.mpr ⟨by change ¬(o ≤ i ∧ i < o + p.length); omega, hout⟩

theorem raise (h : BlankFrom t low ps os) {low' : Nat} (hle : low ≤ low') : BlankFrom t low' ps os :=
  fun i hi => h i (hle.trans hi)

theorem isBlank (h : BlankFrom t low ps os) {bound : Nat} (hbound : ∀ o ∈ os, bound ≤ o) {i : Nat}
    (hlow : low ≤ i) (hlt : i < bound) : ∀ c ∈ t[i]?, isBlank c = true := by
  refine h i hlow fun x hx hin => ?_
  have := hbound x.2 (List.of_mem_zip hx).2
  omega

/-- Up to the next piece there are blanks. -/
theorem allBlank_before (h : BlankFrom t low ps os) {bound : Nat} (hbound : ∀ o ∈ os, bound ≤ o) :
    allBlank (t.extract low bound) = true :=
  allBlank_extract fun _ hlow hlt => h.isBlank hbound hlow hlt

end BlankFrom

/-! ## Where pieces are found -/

theorem anchorsFrom_filter (t : Text) (position : Nat) (pieces : List Text) :
    anchorsFrom t position (pieces.filter fun p => !p.isEmpty) = anchorsFrom t position pieces := by
  induction pieces generalizing t position with
  | nil => rfl
  | cons p rest ih =>
    by_cases hp : p.isEmpty = true
    · rw [List.filter_cons_of_neg (by simp [hp]), anchorsFrom, if_pos hp]
      exact ih t position
    · rw [List.filter_cons_of_pos (by simp [hp]), anchorsFrom, anchorsFrom, if_neg hp, if_neg hp]
      cases offset? p t with
      | none => exact ih t position
      | some distance => exact congrArg _ (ih _ _)

theorem anchorsFrom_cons (hp : p ≠ []) {distance : Nat}
    (hd : offset? p (t.drop low) = some distance) :
    anchorsFrom (t.drop low) low (p :: ps) = (low + distance) ::
      anchorsFrom (t.drop (low + distance + p.length)) (low + distance + p.length) ps := by
  have hempty : p.isEmpty = false := List.isEmpty_eq_false_iff.mpr hp
  rw [anchorsFrom, hempty, if_neg Bool.false_ne_true, hd]
  dsimp only
  rw [List.drop_drop, Nat.add_assoc]

/-- The search finds a placement, and no placement has a piece at an earlier offset: the room that is
left behind a piece is never less than in the given placement. -/
theorem OccurFrom.least_anchorsFrom (h : OccurFrom t low ps os) (hne : ∀ p ∈ ps, p ≠ [])
    (position : Nat) (hle : position ≤ low) :
    OccurFrom t position ps (anchorsFrom (t.drop position) position ps) ∧
      List.Forall₂ (· ≤ ·) (anchorsFrom (t.drop position) position ps) os := by
  induction h generalizing position with
  | nil => exact ⟨.nil position, .nil⟩
  | @cons low o p ps os hlow hp _ ih =>
    obtain ⟨hpne, hne⟩ := List.forall_mem_cons.mp hne
    have hoccur : p <+: (t.drop position).drop (o - position) := by
      rwa [List.drop_drop, Nat.add_sub_cancel' (by omega)]
    obtain ⟨d, hd, hoffset⟩ := exists_offset?_le hoccur
    have hfound := (offset?_eq_some_iff.mp hoffset).1
    rw [List.drop_drop] at hfound
    obtain ⟨hrest, hbefore⟩ := ih hne (position + d + p.length) (by omega)
    rw [anchorsFrom_cons hpne hoffset]
    exact ⟨.cons (by omega) hfound hrest, .cons (by omega) hbefore⟩

/-- Among blanks no piece is found that starts otherwise. -/
theorem OccurFrom.anchorsFrom_eq (h : OccurFrom t low ps os) (hblank : BlankFrom t low ps os)
    (hstart : ∀ p ∈ ps, StartsNonblank p) : anchorsFrom (t.drop low) low ps = os := by
  induction h with
  | nil => rfl
  | @cons low o p ps os hlow hp hrest ih =>
    obtain ⟨hpstart, hstart⟩ := List.forall_mem_cons.mp hstart
    have hoffset : offset? p (t.drop low) = some (o - low) := by
      refine offset?_eq_some_iff.mpr ⟨?_, ?_⟩
      · rwa [List.drop_drop, Nat.add_sub_cancel' hlow]
      · intro j hj hearly
        obtain ⟨c, hc, hnot⟩ := hpstart
        rw [List.drop_drop] at hearly
        have hbound := (OccurFrom.cons (Nat.le_refl o) hp hrest).low_le
        have hblank := hblank.isBlank hbound (Nat.le_add_right low j) (by omega) c
          (getElem?_of_occurs hearly hc)
        rw [hnot] at hblank
        cases hblank
    rw [anchorsFrom_cons hpstart.ne_nil hoffset, Nat.add_sub_cancel' hlow,
      ih (hblank.rest hlow) hstart]

/-! ## Sections around pieces -/

theorem trim_ofStretch {stop : Nat} (line : Nat) (hlow : low ≤ o) (hp : p <+: t.drop o)
    (hstop : o + p.length ≤ stop) (hbefore : allBlank (t.extract low o) = true)
    (hbehind : allBlank (t.extract (o + p.length) stop) = true) :
    trim (Section.ofStretch line (t.extract low stop)).content = trim p := by
  have hsplit : t.extract low stop = t.extract low o ++ p ++ t.extract (o + p.length) stop := by
    have hpiece := extract_of_occurs hp
    rw [← extract_append_extract t hlow (show o ≤ stop by omega),
      ← extract_append_extract t (Nat.le_add_right o p.length) hstop, hpiece, List.append_assoc]
  change trim (dropFinalNewline (t.extract low stop)) = trim p
  rw [trim_dropFinalNewline, hsplit]
  exact trim_surrounded hbefore p hbehind

/-- A text that is cut where all pieces but the first one begin. -/
theorem OccurFrom.map_trim_sectionsFrom (h : OccurFrom t low (p :: ps) (o :: os))
    (hblank : BlankFrom t low (p :: ps) (o :: os)) (hstart : ∀ q ∈ p :: ps, StartsNonblank q)
    (line : Nat) :
    (Section.sectionsFrom (t.drop low) low line os).map (fun s => trim s.content) =
      (p :: ps).map trim := by
  induction os generalizing low p ps o line with
  | nil =>
    cases h with
    | cons hlow hp hrest =>
      cases hrest
      have hpos := List.length_pos_iff.mpr (hstart p List.mem_cons_self).ne_nil
      have hlength := hp.length_le
      rw [List.length_drop] at hlength
      have hbefore := hblank.allBlank_before (List.forall_mem_singleton.mpr (Nat.le_refl o))
      have hbehind : allBlank (t.extract (o + p.length) t.length) = true :=
        (hblank.rest hlow).allBlank_before (by simp)
      have htrim := trim_ofStretch line hlow hp (by omega) hbefore hbehind
      rw [← List.drop_eq_extract] at htrim
      exact congrArg (· :: []) htrim
  | cons cut os ih =>
    cases h with
    | cons hlow hp hrest =>
      cases hrest with
      | @cons _ _ q ps _ hcut hq hrest =>
        have hnext := OccurFrom.cons (Nat.le_refl cut) hq hrest
        have hbefore := hblank.allBlank_before (OccurFrom.cons (Nat.le_refl o) hp
          (OccurFrom.cons hcut hq hrest)).low_le
        have hbehind := (hblank.rest hlow).allBlank_before hnext.low_le
        have htrim := trim_ofStretch line hlow hp hcut hbefore hbehind
        have hstretch : (t.drop low).take (cut - low) = t.extract low cut :=
          List.extract_eq_take_drop.symm
        rw [Section.sectionsFrom, hstretch, List.drop_drop, Nat.add_sub_cancel' (by omega)]
        rw [List.map_cons, List.map_cons, htrim]
        exact congrArg _ (ih hnext ((hblank.rest hlow).raise hcut)
          (fun r hr => hstart r (List.mem_cons_of_mem p hr)) _)

end Placements

theorem Fallback.value_chunksBy {t : Text} {pieces : List Text} (language : Text)
    (filePath : Option Text) {division : Logged (Except String (List Text))}
    (hblank : allBlank t = false) (hd : division.value = .ok pieces) :
    (chunksBy language filePath t division).value =
      ((Section.ofPieces t pieces).getD [Section.whole t]).map (chunkOf language filePath) := by
  rw [chunksBy, hblank, if_neg Bool.false_ne_true, Logged.value_bind, hd, chunksOf, sections,
    Logged.value_bind, Logged.value_pure]
  cases Section.ofPieces t pieces with
  | none => rfl
  | some ss => rfl

def nonemptyPieces (pieces : List Text) : List Text := pieces.filter fun p => !p.isEmpty

section Pieces
variable {t : Text} {pieces : List Text} {os : List Nat}

theorem ne_nil_of_mem_nonemptyPieces {p : Text} (h : p ∈ nonemptyPieces pieces) : p ≠ [] := by
  simpa using (List.mem_filter.mp h).2

theorem anchors_eq (t : Text) (pieces : List Text) :
    anchors t pieces = anchorsFrom (t.drop 0) 0 (nonemptyPieces pieces) :=
  (anchorsFrom_filter t 0 pieces).symm

theorem chunksBy_of_no_pieces (hnone : nonemptyPieces pieces = []) (language : Text)
    (filePath : Option Text) {division : Logged (Except String (List Text))}
    (hd : division.value = .ok pieces) :
    (Fallback.chunksBy language filePath t division).value =
      [Fallback.chunkOf language filePath (Section.whole t)] := by
  have hsections : Section.ofPieces t pieces = none := by
    rw [Section.ofPieces, anchors_eq, hnone]
    rfl
  cases hblank : allBlank t with
  | true => rw [Fallback.chunksBy, if_pos hblank, Logged.value_pure]
  | false =>
    rw [Fallback.value_chunksBy language filePath hblank hd, hsections]
    rfl

/-- The chunks of a text in which blanks alone lie outside of the pieces. -/
theorem map_trim_chunksBy (h : OccurFrom t 0 (nonemptyPieces pieces) os)
    (hblank : BlankFrom t 0 (nonemptyPieces pieces) os)
    (hstart : ∀ p ∈ nonemptyPieces pieces, StartsNonblank p) (hne : nonemptyPieces pieces ≠ [])
    (language : Text) (filePath : Option Text)
    {division : Logged (Except String (List Text))} (hd : division.value = .ok pieces) :
    (Fallback.chunksBy language filePath t division).value.map (fun c => trim c.content) =
      (nonemptyPieces pieces).map trim := by
  have hanchors := anchors_eq t pieces
  rw [h.anchorsFrom_eq hblank hstart] at hanchors
  generalize nonemptyPieces pieces = ps at h hblank hstart hne
  cases h with
  | nil => exact absurd rfl hne
  | @cons _ o p ps os hlow hp hrest =>
    obtain ⟨c, hc, hnot⟩ := hstart p List.mem_cons_self
    have htext : allBlank t = false := by
      rw [Bool.eq_false_iff]
      intro hall
      have hmem := List.mem_of_getElem? (getElem?_of_occurs hp hc)
      rw [allBlank_iff.mp hall c hmem] at hnot
      cases hnot
    have hsections : Section.ofPieces t pieces = some (Section.sectionsFrom t 0 1 os) := by
      rw [Section.ofPieces, hanchors]
    rw [Fallback.value_chunksBy language filePath htext hd, hsections, Option.getD_some, List.map_map]
    exact (OccurFrom.cons hlow hp hrest).map_trim_sectionsFrom hblank hstart 1

end Pieces

/-- If the pieces of a text that are not empty can be placed in it one behind the other, then all of
them are found, one offset for each, at offsets that increase and that no placement goes below. If
besides blanks alone lie outside of the pieces and none of them starts with one, the pieces are found
where they are placed, and the chunk of each piece is the piece, up to blanks at the ends. -/
theorem anchors_find_pieces {t : Text} {pieces : List Text} {os : List Nat}
    (h : OccurFrom t 0 (nonemptyPieces pieces) os) :
    (OccurFrom t 0 (nonemptyPieces pieces) (anchors t pieces) ∧
      (anchors t pieces).length = (nonemptyPieces pieces).length ∧
      (anchors t pieces).Pairwise (· < ·) ∧ List.Forall₂ (· ≤ ·) (anchors t pieces) os) ∧
    (BlankFrom t 0 (nonemptyPieces pieces) os →
      (∀ p ∈ nonemptyPieces pieces, StartsNonblank p) →
      anchors t pieces = os ∧
      ∀ (language : Text) (filePath : Option Text)
        (division : Logged (Except String (List Text))), division.value = .ok pieces →
        (Fallback.chunksBy language filePath t division).value.length =
          max 1 (nonemptyPieces pieces).length ∧
        ∀ (i : Nat) (p : Text), (nonemptyPieces pieces)[i]? = some p →
          ∃ c : Chunk, (Fallback.chunksBy language filePath t division).value[i]? = some c ∧
            trim c.content = trim p) := by
  have hne : ∀ p ∈ nonemptyPieces pieces, p ≠ [] := fun p => ne_nil_of_mem_nonemptyPieces
  obtain ⟨hoccur, hleast⟩ := h.least_anchorsFrom hne 0 (Nat.le_refl 0)
  rw [← anchors_eq] at hoccur hleast
  refine ⟨⟨hoccur, hoccur.length_eq, hoccur.pairwise_lt hne, hleast⟩, fun hblank hstart => ⟨?_, ?_⟩⟩
  · rw [anchors_eq, h.anchorsFrom_eq hblank hstart]
  · intro language filePath division hd
    by_cases hnone : nonemptyPieces pieces = []
    · rw [chunksBy_of_no_pieces hnone language filePath hd, hnone]
      exact ⟨rfl, by simp⟩
    · have hmap := map_trim_chunksBy h hblank hstart hnone language filePath hd
      have hlength := congrArg List.length hmap
      have hpos := List.length_pos_iff.mpr hnone
      rw [List.length_map, List.length_map] at hlength
      refine ⟨by omega, fun i p hp => ?_⟩
      have hi : ((Fallback.chunksBy language filePath t division).value.map
          fun c => trim c.content)[i]? = some (trim p) := by
        rw [hmap, List.getElem?_map, hp]
        rfl
      rw [List.getElem?_map] at hi
      exact Option.map_eq_some_iff.mp hi

/-- Pieces that begin alike, one of them empty. -/
def alikePieces : List Text := ["ab", [], "aba", "ab\n"]

def packedText : Text := "abababab\nab\n"

def spacedText : Text := " ab  aba\nab\n\n"

/-- Without blanks the pieces are found before the places that they are given; with blanks around them
they are found where they are, and give their chunks. -/
theorem alikePieces_found :
    (OccurFrom packedText 0 (nonemptyPieces alikePieces) [2, 4, 9] ∧
      anchors packedText alikePieces = [0, 2, 6] ∧
      List.Forall₂ (· ≤ ·) (anchors packedText alikePieces) [2, 4, 9]) ∧
    (OccurFrom spacedText 0 (nonemptyPieces alikePieces) [1, 5, 9] ∧
      BlankFrom spacedText 0 (nonemptyPieces alikePieces) [1, 5, 9] ∧
      (∀ p ∈ nonemptyPieces alikePieces, StartsNonblank p) ∧
      anchors spacedText alikePieces = [1, 5, 9] ∧
      ∃ c : Chunk, (Fallback.chunksBy "text" none spacedText
        (pure (.ok alikePieces))).value[2]? = some c ∧ trim c.content = Text.ofString "ab") := by
  have hlate : OccurFrom packedText 0 (nonemptyPieces alikePieces) [2, 4, 9] :=
    .cons (by decide) (by decide) (.cons (by decide) (by decide)
      (.cons (by decide) (by decide) (.nil _)))
  have hplaced : OccurFrom spacedText 0 (nonemptyPieces alikePieces) [1, 5, 9] :=
    .cons (by decide) (by decide) (.cons (by decide) (by decide)
      (.cons (by decide) (by decide) (.nil _)))
  have hblank : BlankFrom spacedText 0 (nonemptyPieces alikePieces) [1, 5, 9] := by
    have hinside : ∀ i < 13, (∀ x ∈ (nonemptyPieces alikePieces).zip [1, 5, 9],
        ¬(x.2 ≤ i ∧ i < x.2 + x.1.length)) → spacedText[i]?.all isBlank = true := by decide
    intro i _ hout c hc
    have hall := hinside i (List.getElem?_eq_some_iff.mp hc).1 hout
    rwa [hc] at hall
  have hstart : ∀ p ∈ nonemptyPieces alikePieces, StartsNonblank p := by
    have hhead : ∀ p ∈ nonemptyPieces alikePieces, p.head? = some (.scalar 'a') := by decide
    intro p hp
    exact ⟨'a', hhead p hp, by decide⟩
  obtain ⟨hanchors, hchunks⟩ := (anchors_find_pieces hplaced).2 hblank hstart
  refine ⟨⟨hlate, by decide, (anchors_find_pieces hlate).1.2.2.2⟩, hplaced, hblank, hstart,
    hanchors, ?_⟩
  obtain ⟨c, hc, htrim⟩ :=
    (hchunks "text" none (pure (.ok alikePieces)) rfl).2 2 (Text.ofString "ab\n") rfl
  exact ⟨c, hc, htrim.trans (by decide)⟩

end SourceChunking
