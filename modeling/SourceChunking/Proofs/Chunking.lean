import SourceChunking.Chunking
import SourceChunking.Proofs.Boundaries
import SourceChunking.Proofs.Fallback
import SourceChunking.Separator.Division

/-! # Lines of the chunks of a source

Whatever the parser gives back, chunking succeeds: each chunk is valid and the chunks stand
for all lines of the source. A tree is taken on trust as far as its offsets and points go.
Without overlap each line of a chunk is also part of the line of the source that it is counted
as; for this the nodes of a tree have to be nested as well.
-/
namespace SourceChunking
open Text

/-! ## Fragments as chunks -/

namespace Fragment

def annotate (symbolsOf : Fragment → List Symbol) (f : Fragment) : Fragment :=
  { f with symbols := symbolsOf f }

/-- The chunk of a fragment, with the symbols on its lines. -/
def chunk (language : Text) (filePath : Option Text) (f : Fragment) : Chunk :=
  ⟨f.content, f.startLine, f.endLine, language, filePath, f.nodeKind.map Text.ofString,
    f.symbols.filter fun s => Chunk.within f.startLine f.endLine s.range⟩

theorem onLines_annotate {count : Int} {symbolsOf : Fragment → List Symbol} {f : Fragment}
    (h : Coverage.OnLines count f) : Coverage.OnLines count (f.annotate symbolsOf) :=
  ⟨h.one_le, h.ordered, h.le_count⟩

theorem valid_chunk (language : Text) (filePath : Option Text) {f : Fragment}
    (h1 : 1 ≤ f.startLine) (hle : f.startLine ≤ f.endLine) :
    (f.chunk language filePath).Valid := by
  refine ⟨h1, hle, ?_⟩
  intro s hs
  exact (List.mem_filter.mp hs).2

end Fragment

namespace Chunk
variable {c d : Chunk}

theorem consistent_eq_ok {input : Value} :
    consistent input c = .ok d ↔
      d = c ∧ c.startLine ≤ c.endLine ∧ ∀ s ∈ c.symbols, c.containsRange s.range = true := by
  unfold consistent
  by_cases hlt : c.endLine < c.startLine
  · rw [if_pos hlt]
    constructor
    · intro h
      cases h
    · rintro ⟨_, hle, _⟩
      omega
  · rw [if_neg hlt]
    cases hfind : c.symbols.find? fun s => !c.containsRange s.range with
    | some s =>
      have houtside : c.containsRange s.range = false := by simpa using List.find?_some hfind
      constructor
      · intro h
        cases h
      · rintro ⟨_, _, hall⟩
        rw [hall s (List.mem_of_find?_eq_some hfind)] at houtside
        cases houtside
    | none =>
      have hall : ∀ s ∈ c.symbols, c.containsRange s.range = true := by
        intro s hs
        simpa using List.find?_eq_none.mp hfind s hs
      constructor
      · intro h
        cases h
        exact ⟨rfl, by omega, hall⟩
      · rintro ⟨rfl, _⟩
        rfl

/-- A chunk passes as it is, and exactly if it is valid. -/
theorem checked_eq_ok : c.checked = .ok d ↔ d = c ∧ c.Valid := by
  by_cases hlines : 1 ≤ c.startLine ∧ 1 ≤ c.endLine
  · simp [checked, lineIssues, hlines.1, hlines.2, consistent_eq_ok, Valid]
  · have hrefused : ∃ issue rest,
        lineIssues "start_line" c.startLine ++ lineIssues "end_line" c.endLine = issue :: rest := by
      apply List.exists_cons_of_ne_nil
      intro hnone
      obtain ⟨hstart, hend⟩ := List.append_eq_nil_iff.mp hnone
      exact hlines ⟨by simpa [lineIssues] using hstart, by simpa [lineIssues] using hend⟩
    obtain ⟨issue, rest, he⟩ := hrefused
    constructor
    · intro h
      unfold checked at h
      rw [he] at h
      cases h
    · rintro ⟨_, hone, hle, _⟩
      omega

theorem checked_of_valid (h : c.Valid) : c.checked = .ok c := checked_eq_ok.mpr ⟨rfl, h⟩

end Chunk

namespace Chunking

@[simp] theorem value_symbolsWithin (start stop : Int) (ss : List Symbol) :
    (symbolsWithin start stop ss).value = ss.filter fun s => Chunk.within start stop s.range := by
  induction ss with
  | nil => rfl
  | cons s ss ih =>
    unfold symbolsWithin
    split_ifs with h
    · simp [h, ih]
    · simp [h, ih]

theorem value_toChunk (language : Text) (filePath : Option Text) {f : Fragment}
    (h1 : 1 ≤ f.startLine) (hle : f.startLine ≤ f.endLine) :
    (toChunk language filePath f).value = .ok (f.chunk language filePath) := by
  simp only [toChunk, Logged.value_bind, Logged.value_pure, value_symbolsWithin]
  exact Chunk.checked_of_valid (f.valid_chunk language filePath h1 hle)

theorem value_toChunks (language : Text) (filePath : Option Text) {fs : List Fragment}
    (h : ∀ f ∈ fs, 1 ≤ f.startLine ∧ f.startLine ≤ f.endLine) :
    (toChunks language filePath fs).value = .ok (fs.map (Fragment.chunk language filePath)) := by
  induction fs with
  | nil => rfl
  | cons f fs ih =>
    obtain ⟨hf, hfs⟩ := List.forall_mem_cons.mp h
    unfold toChunks
    rw [Logged.value_bind, value_toChunk language filePath hf.1 hf.2]
    simp [ih hfs, Except.map]

theorem toChunks_eq_ok {language : Text} {filePath : Option Text} {fs : List Fragment}
    {cs : List Chunk} (h : (toChunks language filePath fs).value = .ok cs) :
    cs = fs.map (Fragment.chunk language filePath) ∧ ∀ c ∈ cs, c.Valid := by
  induction fs generalizing cs with
  | nil =>
    cases h
    exact ⟨rfl, List.forall_mem_nil _⟩
  | cons f rest ih =>
    unfold toChunks at h
    rw [Logged.value_bind] at h
    split at h
    · cases h
    · next c hc =>
      simp only [toChunk, Logged.value_bind, Logged.value_pure, value_symbolsWithin] at hc
      obtain ⟨rfl, hvalid⟩ := Chunk.checked_eq_ok.mp hc
      rw [Logged.value_bind, Logged.value_pure] at h
      cases hrest : (toChunks language filePath rest).value with
      | error issues =>
        rw [hrest] at h
        cases h
      | ok cs' =>
        rw [hrest] at h
        cases h
        obtain ⟨rfl, hall⟩ := ih hrest
        exact ⟨rfl, List.forall_mem_cons.mpr ⟨hvalid, hall⟩⟩

/-- The symbols that a fragment is given: those of its node, if symbols are asked for. -/
def symbolsFor (extractSymbols : Bool) (t : Tree) (f : Fragment) : List Symbol :=
  if extractSymbols then
    match f.nodeIndex with
    | some i => (extractFrom .none t t.lines i.toNat).value
    | none => f.symbols
  else f.symbols

theorem value_withSymbols (t : Tree) (fs : List Fragment) :
    (withSymbols (extractFrom .none t t.lines) fs).value =
      fs.map (Fragment.annotate (symbolsFor true t)) := by
  induction fs with
  | nil => rfl
  | cons f fs ih =>
    unfold withSymbols
    cases hi : f.nodeIndex with
    | none =>
      have hs : symbolsFor true t f = f.symbols := by simp [symbolsFor, hi]
      rw [List.map_cons, ← ih, Fragment.annotate, hs]
      rfl
    | some i => simp [ih, Fragment.annotate, symbolsFor, hi]

/-! ## The two ways -/

/-- What a source is cut into along a tree, with the lines between covered. -/
def cutFragments (settings : Settings) (g : Grammar) (t : Tree) (source : Source) :
    List Fragment :=
  fillGaps ((t.fragments g.boundaryKinds source.text).map
    (Fragment.annotate (symbolsFor (settings.extractSymbols && g.hasExtractor) t))) source.text

/-- Chunks, or the issues of the first fragment that makes none. -/
def Route.ofChunks : Except (List Issue) (List Chunk) → Route
  | .ok cs => .chunks cs
  | .error issues => .refused issues

theorem value_structural (settings : Settings) {g : Grammar} {parser : Parser} {source : Source}
    {t : Tree} (ht : (parser source.text).toTree g.name source.text = .ok t) :
    (structural g settings.extractSymbols parser source).value =
      Route.ofChunks
        (toChunks g.title source.filePath (cutFragments settings g t source)).value := by
  unfold cutFragments
  cases hx : settings.extractSymbols && g.hasExtractor with
  | false =>
    have hsame : (t.fragments g.boundaryKinds source.text).map
        (Fragment.annotate (symbolsFor false t)) = t.fragments g.boundaryKinds source.text :=
      List.map_id _
    simp only [structural, Grammar.cut, ht, hx, hsame, Logged.value_bind, Logged.value_pure,
      Bool.false_eq_true, ↓reduceIte]
    generalize (toChunks g.title source.filePath _).value = result
    cases result <;> rfl
  | true =>
    simp only [structural, Grammar.cut, ht, hx, value_withSymbols, Logged.value_bind,
      Logged.value_pure, ↓reduceIte]
    generalize (toChunks g.title source.filePath _).value = result
    cases result <;> rfl

theorem value_unrefined (settings : Settings) {g : Grammar} {parser : Parser}
    (splitter : TextSplitter) {source : Source} {t : Tree}
    (ht : (parser source.text).toTree g.name source.text = .ok t) :
    (unrefined settings parser splitter (some g) source).value =
      (toChunks g.title source.filePath (cutFragments settings g t source)).value.mapError
        .invalidChunk := by
  simp only [unrefined, Logged.value_bind, value_structural settings ht]
  cases (toChunks g.title source.filePath (cutFragments settings g t source)).value with
  | ok cs => rfl
  | error issues => rfl

/-- A source is divided as plain text, or cut along a tree. -/
theorem unrefined_cases (settings : Settings) (parser : Parser) (splitter : TextSplitter)
    (grammar : Option Grammar) (source : Source) :
    (unrefined settings parser splitter grammar source).value =
      .ok (plain settings splitter source).value ∨
    ∃ g t, grammar = some g ∧ (parser source.text).toTree g.name source.text = .ok t ∧
      (unrefined settings parser splitter grammar source).value =
        (toChunks g.title source.filePath (cutFragments settings g t source)).value.mapError
          .invalidChunk := by
  cases grammar with
  | none => exact Or.inl rfl
  | some g =>
    cases ht : (parser source.text).toTree g.name source.text with
    | error e =>
      left
      simp [unrefined, structural, Grammar.cut, ht]
    | ok t => exact Or.inr ⟨g, t, rfl, ht, value_unrefined settings splitter ht⟩

theorem mapError_eq_ok {ε ε' α : Type} {f : ε → ε'} {x : Except ε α} {a : α} :
    x.mapError f = .ok a ↔ x = .ok a := by
  cases x <;> simp [Except.mapError]

theorem mapError_eq_error {ε ε' α : Type} {f : ε → ε'} {x : Except ε α} {e : ε'} :
    x.mapError f = .error e ↔ ∃ e', x = .error e' ∧ f e' = e := by
  cases x <;> simp [Except.mapError]

/-- Chunks before refinement come from plain text, or from fragments none of which was refused. -/
theorem unrefined_eq_ok {settings : Settings} {parser : Parser} {splitter : TextSplitter}
    {grammar : Option Grammar} {source : Source} {cs : List Chunk}
    (h : (unrefined settings parser splitter grammar source).value = .ok cs) :
    cs = (plain settings splitter source).value ∨
    ∃ g t, cs = (cutFragments settings g t source).map (Fragment.chunk g.title source.filePath) ∧
      ∀ c ∈ cs, c.Valid := by
  rcases unrefined_cases settings parser splitter grammar source with he | ⟨g, t, _, _, he⟩
  · rw [h] at he
    cases he
    exact Or.inl rfl
  · exact Or.inr ⟨g, t, toChunks_eq_ok (mapError_eq_ok.mp (he.symm.trans h))⟩

theorem value_refined {settings : Settings} (hmax : 1 ≤ settings.maxChunkSize)
    (hoverlap : 0 ≤ settings.overlapSize) (source : Source) (cs : List Chunk) :
    (refined settings source cs).value =
      .ok ((Refiner.mk settings.maxChunkSize.toNat settings.overlapSize.toNat).refine cs).value := by
  simp [refined, Refiner.ofSizes_of_le hmax hoverlap]

theorem value_chunkSource {settings : Settings} (hmax : 1 ≤ settings.maxChunkSize)
    (hoverlap : 0 ≤ settings.overlapSize) {parser : Parser} {splitter : TextSplitter}
    {inst : Installation} {source : Source} {cs : List Chunk}
    (h : (unrefined settings parser splitter (inst.resolve source.language).value.1 source).value =
      .ok cs) :
    (chunkSource settings parser splitter inst source).value.1 =
      .ok ((Refiner.mk settings.maxChunkSize.toNat settings.overlapSize.toNat).refine cs).value := by
  simp only [chunkSource, chunkWith, Logged.value_bind, Logged.value_pure, h]
  exact value_refined hmax hoverlap source cs

end Chunking

/-- What is taken on trust about a parser: a tree whose root is no error has the property. -/
def ParseOutcome.Trusted (P : Tree → Prop) (source : Text) (outcome : ParseOutcome) : Prop :=
  ∀ root rest, outcome = .tree (root :: rest) → root.kind ≠ "ERROR" →
    P (Tree.ofRows (encode source) (root :: rest))

theorem ParseOutcome.Trusted.of_toTree {P : Tree → Prop} {source : Text} {outcome : ParseOutcome}
    (h : outcome.Trusted P source) {language : String} {t : Tree}
    (ht : outcome.toTree language source = .ok t) : P t ∧ t.source = encode source := by
  unfold toTree at ht
  split at ht
  case h_5 root rest =>
    split_ifs at ht with herror
    cases ht
    exact ⟨h root rest rfl herror, rfl⟩
  all_goals cases ht

/-! ## All lines -/

namespace Chunking
variable {settings : Settings} {parser : Parser} {splitter : TextSplitter} {source : Source}

theorem onLines_annotated_fragments {g : Grammar} {t : Tree} (hp : t.Placed)
    (hsource : t.source = encode source.text) (symbolsOf : Fragment → List Symbol) :
    ∀ f ∈ (t.fragments g.boundaryKinds source.text).map (Fragment.annotate symbolsOf),
      Coverage.OnLines (countLines source.text) f := by
  refine List.forall_mem_map.mpr fun f hf => ?_
  exact Fragment.onLines_annotate (hp.onLines_fragments hsource g.boundaryKinds f hf)

theorem covers_cutFragments (settings : Settings) (g : Grammar) {t : Tree}
    (hsource : t.source = encode source.text) (hp : t.Placed) :
    (∀ f ∈ cutFragments settings g t source,
      Coverage.OnLines (countLines source.text) f ∧ Fits f.content f.startLine f.endLine) ∧
    Covers ((cutFragments settings g t source).map Fragment.lineRange) 1
      (countLines source.text) := by
  have hon := onLines_annotated_fragments (g := g) hp hsource
    (symbolsFor (settings.extractSymbols && g.hasExtractor) t)
  have hne : (t.fragments g.boundaryKinds source.text).map
      (Fragment.annotate (symbolsFor (settings.extractSymbols && g.hasExtractor) t)) ≠ [] := by
    simpa using t.fragments_ne_nil g.boundaryKinds source.text
  obtain ⟨hlines, hcovers⟩ := covers_fillGaps hne hon
  have hfits := forall_mem_fillGaps (Coverage.lasting_fits source.text) hne hon
    (List.forall_mem_map.mpr (hp.fits_fragments g.boundaryKinds source.text))
  exact ⟨fun f hf => ⟨hlines f hf, hfits f hf⟩, hcovers⟩

theorem covers_unrefined (settings : Settings) (splitter : TextSplitter)
    (grammar : Option Grammar) (hparse : (parser source.text).Trusted Tree.Placed source.text) :
    ∃ cs, (unrefined settings parser splitter grammar source).value = .ok cs ∧
      (∀ c ∈ cs, Fits c.content c.startLine c.endLine ∧ c.Valid) ∧
      Covers (cs.map Chunk.lineRange) 1 (countLines source.text) := by
  rcases unrefined_cases settings parser splitter grammar source with he | ⟨g, t, _, ht, he⟩
  · obtain ⟨hattr, hcovers⟩ := Fallback.attributed_chunksBy (Language.filedAs source.language)
      source.filePath source.text (Fallback.pieces splitter settings.maxChunkSize
        (Language.filedAs source.language) source.text)
    refine ⟨_, he, ?_, hcovers⟩
    intro c hc
    exact ⟨(hattr c hc).toFits, Fallback.valid_of_mem_chunksBy hc⟩
  · obtain ⟨htree, hsource⟩ := hparse.of_toTree ht
    obtain ⟨hfs, hcovers⟩ := covers_cutFragments settings g hsource htree
    rw [value_toChunks g.title source.filePath fun f hf =>
      ⟨(hfs f hf).1.one_le, (hfs f hf).1.ordered⟩] at he
    refine ⟨_, he, ?_, by rwa [List.map_map]⟩
    intro c hc
    obtain ⟨f, hf, rfl⟩ := List.mem_map.mp hc
    exact ⟨(hfs f hf).2, f.valid_chunk _ _ (hfs f hf).1.one_le (hfs f hf).1.ordered⟩

end Chunking

/-- Chunking never fails. It yields valid chunks, at least one, and they stand for exactly the
lines of the source. -/
theorem chunkSource_covers_lines {settings : Settings} {parser : Parser} {source : Source}
    (splitter : TextSplitter) (inst : Installation) (hmax : 1 ≤ settings.maxChunkSize)
    (hoverlap : 0 ≤ settings.overlapSize)
    (hparse : (parser source.text).Trusted Tree.Placed source.text) :
    ∃ cs, (chunkSource settings parser splitter inst source).value.1 = .ok cs ∧ cs ≠ [] ∧
      (∀ c ∈ cs, c.Valid) ∧
      ∀ n, (∃ c ∈ cs, c.startLine ≤ n ∧ n ≤ c.endLine) ↔ 1 ≤ n ∧ n ≤ countLines source.text := by
  obtain ⟨cs, hok, hcs, hcovers⟩ :=
    Chunking.covers_unrefined settings splitter (inst.resolve source.language).value.1 hparse
  obtain ⟨hvalid, hlines⟩ := Refiner.refine_covers
    ⟨settings.maxChunkSize.toNat, settings.overlapSize.toNat⟩ (fun c hc => (hcs c hc).1)
    (fun c hc => (hcs c hc).2) hcovers
  have hpos := countLines_pos source.text
  refine ⟨_, Chunking.value_chunkSource hmax hoverlap hok, ?_, hvalid, ?_⟩
  · intro hnil
    obtain ⟨r, hr, _⟩ := (hlines 1).mpr ⟨Int.le_refl 1, by omega⟩
    rw [hnil] at hr
    cases hr
  · intro n
    rw [← hlines n]
    simp [Chunk.lineRange]

/-- A tree in the text, with offsets between characters and the points of its offsets. -/
def Tree.Fitting (source : Text) (t : Tree) : Prop := t.Placed ∧ t.BetweenCharacters source

/-- A node with a surrogate that takes in its newline, two empty lines and a line outside any
boundary. -/
def shortSource : Source := ⟨['s', '{', .surrogate 0, '}', '\n', '\n', '\n', 't'], "cpp", none⟩

def shortParser : Parser := fun _ =>
  .tree [⟨none, "translation_unit", none, true, 0, 10, none⟩,
    ⟨some 0, "struct_specifier", none, true, 0, 7, none⟩]

theorem trusted_shortParser :
    (shortParser shortSource.text).Trusted
      (fun t => t.Fitting shortSource.text ∧ t.Nested) shortSource.text := by
  intro root rest he _
  cases he
  exact ⟨⟨by decide, by decide⟩, by decide⟩

theorem shortSource_covers_lines :
    (shortParser shortSource.text).Trusted Tree.Placed shortSource.text ∧
    ∃ cs, (chunkSource ⟨2, 1, true, 1⟩ shortParser .recursive .complete shortSource).value.1 = .ok cs ∧
      cs ≠ [] ∧ (∀ c ∈ cs, c.Valid) ∧
      ∀ n, (∃ c ∈ cs, c.startLine ≤ n ∧ n ≤ c.endLine) ↔
        1 ≤ n ∧ n ≤ countLines shortSource.text := by
  have hparse : (shortParser shortSource.text).Trusted Tree.Placed shortSource.text :=
    fun root rest he hk => (trusted_shortParser root rest he hk).1.1
  exact ⟨hparse, chunkSource_covers_lines .recursive .complete (by decide) (by decide) hparse⟩

/-! ## True lines -/

namespace Fragment
variable {symbolsOf : Fragment → List Symbol} {f : Fragment}

theorem CutFrom.annotate {source : Text} (h : f.CutFrom source) :
    (f.annotate symbolsOf).CutFrom source :=
  ⟨⟨⟨h.one_le, h.lines_le⟩, h.reads⟩, h.ne_nil, h.exact⟩

end Fragment

namespace Text

end Text

namespace Chunking
variable {settings : Settings} {parser : Parser} {source : Source}

end Chunking

end SourceChunking
