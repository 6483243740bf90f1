import SourceChunking.Proofs.Building
import SourceChunking.Proofs.Chunking

/-! # Chunks do not depend on symbols

Symbols are attached to fragments before the lines between them are covered, and they are looked at
again when fragments become chunks and when chunks are split. All of this treats symbols as
passengers: they are carried along, some are put down, but nothing else is decided by them. The one
place that could refuse a chunk for the sake of its symbols never does, because a symbol that was
found has its lines in order. Trees are not taken on trust here.
-/
namespace SourceChunking
open Text

/-! ## Covering lines carries symbols along -/

namespace Fragment
variable (g : List Symbol → List Symbol)

def mapSymbols (f : Fragment) : Fragment := { f with symbols := g f.symbols }

theorem map_insertSorted (f : Fragment) (fs : List Fragment) :
    (insertSorted f fs).map (mapSymbols g) = insertSorted (f.mapSymbols g) (fs.map (mapSymbols g)) := by
  induction fs with
  | nil => rfl
  | cons first rest ih =>
    have hsame : (f.mapSymbols g).precedes (first.mapSymbols g) = f.precedes first := rfl
    simp only [insertSorted, List.map_cons, hsame]
    split_ifs
    · rfl
    · rw [List.map_cons, ih]

theorem map_sortByLines (fs : List Fragment) :
    (sortByLines fs).map (mapSymbols g) = sortByLines (fs.map (mapSymbols g)) := by
  induction fs with
  | nil => rfl
  | cons f rest ih =>
    change (insertSorted f (sortByLines rest)).map _ = insertSorted _ (sortByLines (rest.map _))
    rw [map_insertSorted, ih]

end Fragment

namespace Coverage
variable {g : List Symbol → List Symbol}

def mapSymbols (g : List Symbol → List Symbol) (c : Coverage) : Coverage :=
  { c with placed := c.placed.map (Fragment.mapSymbols g) }

theorem takeGap_mapSymbols (hg : g [] = []) (lines : List Text) (start stop : Int) (c : Coverage) :
    takeGap lines start stop (c.mapSymbols g) = (takeGap lines start stop c).mapSymbols g := by
  have hplain : ∀ gap,
      (Fragment.plain gap start stop).mapSymbols g = Fragment.plain gap start stop := by
    intro gap
    rw [Fragment.mapSymbols, Fragment.plain, hg]
  obtain ⟨placed, opening, next⟩ := c
  unfold takeGap
  dsimp only
  split_ifs
  · simp [mapSymbols, hplain]
  · cases placed with
    | nil => rfl
    | cons previous rest => rfl

theorem place_mapSymbols (hg : g [] = []) (lines : List Text) (c : Coverage) (f : Fragment) :
    place lines (c.mapSymbols g) (f.mapSymbols g) = (place lines c f).mapSymbols g := by
  have hprepend : ∀ opening, prepend opening (f.mapSymbols g) = (prepend opening f).mapSymbols g := by
    intro opening
    cases opening with
    | none => rfl
    | some gap => rfl
  have hlines : (f.mapSymbols g).startLine = f.startLine ∧ (f.mapSymbols g).endLine = f.endLine :=
    ⟨rfl, rfl⟩
  have hnext : (c.mapSymbols g).next = c.next := rfl
  unfold place
  rw [hlines.1, hlines.2, hnext, takeGap_mapSymbols hg]
  split_ifs
  · simp only [mapSymbols, hprepend, List.map_cons]
  · simp only [mapSymbols, hprepend, List.map_cons]

theorem foldl_place_mapSymbols (hg : g [] = []) (lines : List Text) (c : Coverage)
    (fs : List Fragment) :
    (fs.map (Fragment.mapSymbols g)).foldl (place lines) (c.mapSymbols g) =
      (fs.foldl (place lines) c).mapSymbols g := by
  induction fs generalizing c with
  | nil => rfl
  | cons f rest ih =>
    rw [List.map_cons, List.foldl_cons, List.foldl_cons, place_mapSymbols hg, ih]

theorem finish_mapSymbols (hg : g [] = []) (lines : List Text) (count : Int) (c : Coverage) :
    finish lines count (c.mapSymbols g) = (finish lines count c).map (Fragment.mapSymbols g) := by
  have hnext : (c.mapSymbols g).next = c.next := rfl
  unfold finish
  rw [hnext, takeGap_mapSymbols hg]
  split_ifs
  · exact (List.map_reverse ..).symm
  · exact (List.map_reverse ..).symm

end Coverage

/-- Whatever is done to all symbols can be done before the lines are covered or after, if it makes
none out of nothing. -/
theorem fillGaps_mapSymbols {g : List Symbol → List Symbol} (hg : g [] = []) (fs : List Fragment)
    (source : Text) :
    fillGaps (fs.map (Fragment.mapSymbols g)) source =
      (fillGaps fs source).map (Fragment.mapSymbols g) := by
  have hempty : Coverage.empty = Coverage.empty.mapSymbols g := rfl
  unfold fillGaps
  rw [List.isEmpty_map]
  split_ifs
  · simp [Fragment.whole, Fragment.plain, Fragment.mapSymbols, hg]
  · dsimp only
    rw [← Fragment.map_sortByLines, hempty, Coverage.foldl_place_mapSymbols hg,
      Coverage.finish_mapSymbols hg, ← hempty]

theorem Fragment.filter_symbols_eq_self_iff {P : Symbol → Prop} [DecidablePred P]
    {fs : List Fragment} :
    fs.map (mapSymbols (List.filter fun s => decide (P s))) = fs ↔
      ∀ f ∈ fs, ∀ s ∈ f.symbols, P s := by
  have hone : ∀ f : Fragment, f.mapSymbols (List.filter fun s => decide (P s)) = f ↔
      ∀ s ∈ f.symbols, P s := by
    intro f
    constructor
    · intro h s hs
      have hfilter : (f.symbols.filter fun s => decide (P s)) = f.symbols :=
        congrArg Fragment.symbols h
      simpa using List.filter_eq_self.mp hfilter s hs
    · intro h
      rw [mapSymbols, List.filter_eq_self.mpr fun s hs => decide_eq_true (h s hs)]
  conv_lhs =>
    rhs
    rw [← List.map_id fs]
  rw [List.map_inj_left]
  exact forall₂_congr fun f _ => hone f

/-- Covering lines brings no new symbols. -/
theorem forall_symbols_fillGaps {P : Symbol → Prop} [DecidablePred P] {fs : List Fragment}
    (h : ∀ f ∈ fs, ∀ s ∈ f.symbols, P s) (source : Text) :
    ∀ f ∈ fillGaps fs source, ∀ s ∈ f.symbols, P s := by
  have hsame := fillGaps_mapSymbols (g := List.filter fun s => decide (P s)) rfl fs source
  rw [Fragment.filter_symbols_eq_self_iff.mpr h] at hsame
  exact Fragment.filter_symbols_eq_self_iff.mp hsame.symm

/-! ## Symbols that were found are valid -/

theorem Tree.placed_of_symbolAt {t : Tree} {i : Nat} {s : Symbol} (h : t.symbolAt i = some s) :
    s.range.Valid ∧ ∀ p ∈ s.definition, p.Valid := by
  obtain ⟨d, _, rfl, hvalid⟩ := Tree.symbolAt_eq_some.mp h
  obtain ⟨_, hrange, hdefinition⟩ := Extraction.symbolOf_placed (.mk .none t t.lines []) [] i d
  rw [hrange, hdefinition]
  refine ⟨hvalid, ?_⟩
  intro p hp
  cases hp
  exact ⟨hvalid.1, hvalid.2.2.1⟩

theorem valid_of_mem_extractFrom {t : Tree} {root : Nat} {s : Symbol}
    (h : s ∈ (extractFrom .none t t.lines root).value) : s.Valid := by
  change s ∈ (extract t root).value at h
  rw [← t.map_snd_located] at h
  obtain ⟨p, hp, rfl⟩ := List.mem_map.mp h
  obtain ⟨_, ⟨s, hs, hsymbol⟩, husages⟩ := Tree.mem_located hp
  rw [hsymbol]
  obtain ⟨hrange, hdefinition⟩ := Tree.placed_of_symbolAt hs
  refine ⟨hrange, hdefinition, ?_⟩
  intro q hq
  obtain ⟨u, hmem, rfl⟩ := List.mem_map.mp hq
  obtain ⟨i, hi, rfl⟩ := List.mem_map.mp (List.mem_filter.mp hmem).1
  obtain ⟨hwalk, husage⟩ := List.mem_filter.mp hi
  exact husages i hwalk husage

/-! ## Chunks without their symbols -/

def Chunk.bare (c : Chunk) : Chunk := { c with symbols := [] }

def Fragment.bare (f : Fragment) : Fragment := f.mapSymbols fun _ => []

/-- A chunk is let pass or refused for its lines alone. If these are out of order, no symbol can
lie on them. -/
theorem Chunk.checked_bare {c : Chunk}
    (h : ∀ s ∈ c.symbols, c.containsRange s.range = true ∧ s.range.startLine ≤ s.range.endLine) :
    c.bare.checked = c.checked.map bare := by
  by_cases hordered : 1 ≤ c.startLine ∧ c.startLine ≤ c.endLine
  · have hc : c.Valid := ⟨hordered.1, hordered.2, fun s hs => (h s hs).1⟩
    have hb : c.bare.Valid := ⟨hordered.1, hordered.2, List.forall_mem_nil _⟩
    rw [checked_of_valid hc, checked_of_valid hb]
    rfl
  · cases hissues : lineIssues "start_line" c.startLine ++ lineIssues "end_line" c.endLine with
    | cons issue rest =>
      have hstart : c.bare.startLine = c.startLine := rfl
      have hend : c.bare.endLine = c.endLine := rfl
      unfold checked
      rw [hstart, hend, hissues]
      rfl
    | nil =>
      have hone : 1 ≤ c.startLine := by
        by_contra hlow
        simp [lineIssues, hlow] at hissues
      have hnone : c.symbols = [] := by
        apply List.eq_nil_iff_forall_not_mem.mpr
        intro s hs
        obtain ⟨hin, hle⟩ := h s hs
        simp only [containsRange, within, Bool.and_eq_true, decide_eq_true_eq] at hin
        omega
      have hbare : c.bare = c := by rw [bare, ← hnone]
      unfold checked consistent
      rw [hbare, hissues]
      dsimp only
      rw [if_pos (by omega)]
      rfl

theorem Tree.symbols_of_mem_fragments (t : Tree) {kinds : List String} {source : Text}
    {f : Fragment} (h : f ∈ t.fragments kinds source) : f.symbols = [] := by
  rcases t.fragments_cases kinds source with ⟨_, he⟩ | ⟨_, he⟩
  · rw [he] at h
    obtain ⟨i, _, _, rfl⟩ := mem_boundaryFragments h
    rfl
  · rw [he] at h
    rw [List.mem_singleton.mp h]
    rfl

namespace Chunking
variable {language : Text} {filePath : Option Text} {source : Source}

theorem value_toChunk_bare {f : Fragment} (h : ∀ s ∈ f.symbols, s.Valid) :
    (toChunk language filePath f.bare).value =
      (toChunk language filePath f).value.map Chunk.bare := by
  simp only [toChunk, Logged.value_bind, Logged.value_pure, value_symbolsWithin]
  apply Chunk.checked_bare (c := f.chunk language filePath)
  intro s hs
  obtain ⟨hmem, hin⟩ := List.mem_filter.mp hs
  exact ⟨hin, (h s hmem).1.2.2.2.2⟩

theorem value_toChunks_bare {fs : List Fragment} (h : ∀ f ∈ fs, ∀ s ∈ f.symbols, s.Valid) :
    (toChunks language filePath (fs.map Fragment.bare)).value =
      (toChunks language filePath fs).value.map (List.map Chunk.bare) := by
  induction fs with
  | nil => rfl
  | cons f rest ih =>
    obtain ⟨hf, hrest⟩ := List.forall_mem_cons.mp h
    rw [List.map_cons]
    unfold toChunks
    rw [Logged.value_bind, Logged.value_bind, value_toChunk_bare hf]
    cases (toChunk language filePath f).value with
    | refused issues => rfl
    | ok c =>
      simp only [Checked.map, Logged.value_bind, Logged.value_pure, ih hrest]
      cases (toChunks language filePath rest).value with
      | error issues => rfl
      | ok cs => rfl

theorem valid_of_mem_symbolsFor {x : Bool} {t : Tree} {f : Fragment} (hf : f.symbols = [])
    {s : Symbol} (h : s ∈ symbolsFor x t f) : s.Valid := by
  unfold symbolsFor at h
  rw [hf] at h
  split_ifs at h
  · split at h
    · exact valid_of_mem_extractFrom h
    · cases h
  · cases h

theorem valid_symbols_cutFragments (settings : Settings) (g : Grammar) (t : Tree) :
    ∀ f ∈ cutFragments settings g t source, ∀ s ∈ f.symbols, s.Valid := by
  apply forall_symbols_fillGaps
  refine List.forall_mem_map.mpr fun f hf => ?_
  intro s hs
  exact valid_of_mem_symbolsFor (t.symbols_of_mem_fragments hf) hs

theorem cutFragments_bare (settings : Settings) (g : Grammar) (t : Tree) :
    cutFragments { settings with extractSymbols := false } g t source =
      (cutFragments settings g t source).map Fragment.bare := by
  have hbare : ∀ symbolsOf : Fragment → List Symbol,
      ((t.fragments g.boundaryKinds source.text).map (Fragment.annotate symbolsOf)).map
        Fragment.bare = t.fragments g.boundaryKinds source.text := by
    intro symbolsOf
    rw [List.map_map]
    conv_rhs => rw [← List.map_id (t.fragments g.boundaryKinds source.text)]
    apply List.map_congr_left
    intro f hf
    change { f with symbols := [] } = f
    rw [← t.symbols_of_mem_fragments hf]
  have hoff : (t.fragments g.boundaryKinds source.text).map
      (Fragment.annotate (symbolsFor false t)) = t.fragments g.boundaryKinds source.text :=
    List.map_id _
  unfold cutFragments
  rw [Bool.false_and, hoff]
  conv_lhs => rw [← hbare (symbolsFor (settings.extractSymbols && g.hasExtractor) t)]
  exact fillGaps_mapSymbols (g := fun _ => []) rfl _ source.text

theorem plain_bare (settings : Settings) (splitter : TextSplitter) (source : Source) :
    (plain settings splitter source).value.map Chunk.bare =
      (plain settings splitter source).value := by
  conv_rhs => rw [← List.map_id (plain settings splitter source).value]
  apply List.map_congr_left
  intro c hc
  rw [Chunk.bare, id, ← Fallback.symbols_of_mem_chunksBy hc]

theorem value_unrefined_bare (settings : Settings) (parser : Parser) (splitter : TextSplitter)
    (grammar : Option Grammar) (source : Source) :
    (unrefined { settings with extractSymbols := false } parser splitter grammar source).value =
      (unrefined settings parser splitter grammar source).value.map (List.map Chunk.bare) := by
  cases grammar with
  | none => exact congrArg Except.ok (plain_bare settings splitter source).symm
  | some g =>
    cases ht : (parser source.text).toTree g.name source.text with
    | error e =>
      have hplain : ∀ s : Settings, (unrefined s parser splitter (some g) source).value =
          .ok (plain s splitter source).value := by
        intro s
        simp [unrefined, structural, Grammar.cut, ht]
      rw [hplain, hplain]
      exact congrArg Except.ok (plain_bare settings splitter source).symm
    | ok t =>
      rw [value_unrefined _ _ ht, value_unrefined _ _ ht, cutFragments_bare settings,
        value_toChunks_bare (valid_symbols_cutFragments settings g t)]
      cases (toChunks g.title source.filePath (cutFragments settings g t source)).value with
      | error issues => rfl
      | ok cs => rfl

end Chunking

/-! ## Refinement carries symbols along -/

namespace Refiner

theorem partsFrom_bare (c : Chunk) (start : Int) (groups : List (List Text)) :
    partsFrom c.bare start groups = (partsFrom c start groups).map Chunk.bare := by
  induction groups generalizing start with
  | nil => rfl
  | cons group rest ih =>
    cases rest with
    | nil => rfl
    | cons group' rest =>
      change part c.bare group _ _ :: partsFrom c.bare _ (group' :: rest) = _
      rw [ih]
      rfl

theorem splitChunk_bare (r : Refiner) (c : Chunk) :
    r.splitChunk c.bare = (r.splitChunk c).map Chunk.bare := by
  have hcontent : c.bare.content = c.content := rfl
  unfold splitChunk
  rw [hcontent]
  split_ifs
  · rfl
  · exact partsFrom_bare c c.startLine _

theorem resize_bare (r : Refiner) (cs : List Chunk) :
    r.resize (cs.map Chunk.bare) = (r.resize cs).map Chunk.bare := by
  unfold resize
  rw [List.flatMap_map, List.map_flatMap]
  congr 1
  funext c
  exact splitChunk_bare r c

theorem overlapped_bare (r : Refiner) (previous c : Chunk) :
    r.overlapped previous.bare c.bare = (r.overlapped previous c).bare := by
  have hcontent : previous.bare.content = previous.content := rfl
  unfold overlapped
  dsimp only
  rw [hcontent]
  split_ifs
  · rfl
  · rfl

theorem addOverlap_bare (r : Refiner) (cs : List Chunk) :
    r.addOverlap (cs.map Chunk.bare) = (r.addOverlap cs).map Chunk.bare := by
  have hfrom : ∀ (rest : List Chunk) (previous : Chunk),
      r.overlapFrom previous.bare (rest.map Chunk.bare) =
        (r.overlapFrom previous rest).map Chunk.bare := by
    intro rest
    induction rest with
    | nil => exact fun _ => rfl
    | cons c rest ih =>
      intro previous
      rw [List.map_cons, overlapFrom, overlapFrom, List.map_cons, overlapped_bare, ih]
  cases cs with
  | nil => rfl
  | cons c rest => exact congrArg (c.bare :: ·) (hfrom rest c)

theorem value_refine_bare (r : Refiner) (cs : List Chunk) :
    (r.refine (cs.map Chunk.bare)).value = (r.refine cs).value.map Chunk.bare := by
  rw [value_refine, value_refine, resize_bare, addOverlap_bare]

end Refiner

theorem Chunking.value_refined_bare (settings : Settings) (source : Source) (cs : List Chunk) :
    (refined { settings with extractSymbols := false } source (cs.map Chunk.bare)).value =
      (refined settings source cs).value.map (List.map Chunk.bare) := by
  unfold refined
  dsimp only
  cases Refiner.ofSizes settings.maxChunkSize settings.overlapSize with
  | error e => rfl
  | ok r =>
    simp only [Logged.value_bind, Logged.value_pure, r.value_refine_bare]
    rfl

theorem value_chunkSource_bare (settings : Settings) (parser : Parser) (splitter : TextSplitter)
    (inst : Installation) (source : Source) :
    (chunkSource { settings with extractSymbols := false } parser splitter inst source).value.1 =
      (chunkSource settings parser splitter inst source).value.1.map (List.map Chunk.bare) := by
  simp only [chunkSource, Chunking.chunkWith, Logged.value_bind, Logged.value_pure,
    Chunking.value_unrefined_bare settings]
  cases (Chunking.unrefined settings parser splitter (inst.resolve source.language).value.1
    source).value with
  | error e => rfl
  | ok cs => exact Chunking.value_refined_bare settings source cs

/-- Without symbols a source is chunked as with them: the same error stops it, or the chunks are the
same but for their symbols, of which there are none. -/
theorem chunkSource_symbols_apart (settings : Settings) (parser : Parser) (splitter : TextSplitter)
    (inst : Installation) (source : Source) :
    (∃ e, (chunkSource { settings with extractSymbols := true } parser splitter inst source).value.1 =
        .error e ∧
      (chunkSource { settings with extractSymbols := false } parser splitter inst source).value.1 =
        .error e) ∨
    ∃ cs ds, (chunkSource { settings with extractSymbols := true } parser splitter inst
        source).value.1 = .ok cs ∧
      (chunkSource { settings with extractSymbols := false } parser splitter inst source).value.1 =
        .ok ds ∧
      cs.map Chunk.bare = ds.map Chunk.bare ∧ ∀ d ∈ ds, d.symbols = [] := by
  have hoff :=
    value_chunkSource_bare { settings with extractSymbols := true } parser splitter inst source
  dsimp only at hoff
  cases hon : (chunkSource { settings with extractSymbols := true } parser splitter inst
      source).value.1 with
  | error e =>
    rw [hon] at hoff
    exact Or.inl ⟨e, rfl, hoff⟩
  | ok cs =>
    rw [hon] at hoff
    refine Or.inr ⟨cs, cs.map Chunk.bare, rfl, hoff, ?_, ?_⟩
    · rw [List.map_map]
      rfl
    · intro d hd
      obtain ⟨c, _, rfl⟩ := List.mem_map.mp hd
      rfl

end SourceChunking
