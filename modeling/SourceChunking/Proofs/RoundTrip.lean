import SourceChunking.Proofs.Annotation
import SourceChunking.Proofs.Overlap
import SourceChunking.Proofs.Reading

/-! # Chunks as data

A chunk is written with the fields left out that hold nothing, at every depth. Reading checks again
what chunks and symbols have to satisfy, so it gives a chunk back exactly if the chunk satisfies it.
This includes chunks behind overlap, which nothing has checked since their first line was moved, and
the symbols inside, which come from a tree that need not be sensible.
-/
namespace SourceChunking
open Value

/-! ## Parts of symbols -/

theorem SymbolKind.recovers (k : SymbolKind) :
    Recovers SymbolKind.read (fun k => ofString k.name) k := by
  apply recovers_choice
  · decide
  · cases k <;> decide

theorem Access.recovers (a : Access) : Recovers Access.read (fun a => ofString a.name) a := by
  apply recovers_choice
  · decide
  · cases a <;> decide

namespace Position

theorem recovers {p : Position} (h : p.Valid) : Recovers read toValue p := by
  have hkeys : (p.toValue.entries.map Prod.fst).Nodup := by simp [toValue, entries]
  refine ⟨by simp [toValue], ?_⟩
  rw [read, readRecord_withoutNulls _ _ rfl, (recovers_integer h.1).required hkeys "line" rfl,
    (recovers_integer h.2).required hkeys "column" rfl]
  rfl

theorem ensures_read : Ensures Valid read := by
  apply ensures_readRecord
  intro fields
  refine Checked.Holds.seq ((ensures_readAtLeast 0).required fields "column") ?_
  refine Checked.Holds.map ?_
  intro line hline column hcolumn
  exact ⟨(ensures_readAtLeast 1).required fields "line" line hline, hcolumn⟩

end Position

namespace SymbolRange

theorem recovers {r : SymbolRange} (h : r.Valid) : Recovers read toValue r := by
  obtain ⟨hstart, hend, hcolumn, hcolumn', hle⟩ := h
  have hkeys : (r.toValue.entries.map Prod.fst).Nodup := by simp [toValue, entries]
  refine ⟨by simp [toValue], ?_⟩
  rw [read, readRecord_withoutNulls _ _ rfl, (recovers_integer hstart).required hkeys "start_line" rfl,
    (recovers_integer hend).required hkeys "end_line" rfl,
    (recovers_integer hcolumn).defaulted hkeys "start_column" rfl,
    (recovers_integer hcolumn').defaulted hkeys "end_column" rfl]
  change ordered _ r = .ok r
  rw [ordered, if_neg (by omega)]

theorem ensures_read : Ensures Valid read := by
  apply ensures_readRecord
  intro fields
  refine Checked.Holds.andThen (Q := fun r => 1 ≤ r.startLine ∧ 1 ≤ r.endLine ∧
    0 ≤ r.startColumn ∧ 0 ≤ r.endColumn) ?_ ?_
  · refine Checked.Holds.seq
      ((ensures_readAtLeast 0).defaulted (Int.le_refl 0) fields "end_column") ?_
    refine Checked.Holds.seq
      ((ensures_readAtLeast 0).defaulted (Int.le_refl 0) fields "start_column") ?_
    refine Checked.Holds.seq ((ensures_readAtLeast 1).required fields "end_line") ?_
    refine Checked.Holds.map ?_
    intro start hstart stop hstop column hcolumn column' hcolumn'
    exact ⟨(ensures_readAtLeast 1).required fields "start_line" start hstart, hstop, hcolumn,
      hcolumn'⟩
  · intro r hr r' hordered
    unfold ordered at hordered
    split_ifs at hordered with hlt
    · cases hordered
    · cases hordered
      exact ⟨hr.1, hr.2.1, hr.2.2.1, hr.2.2.2, by omega⟩

end SymbolRange

theorem Parameter.recovers (p : Parameter) : Recovers read toValue p := by
  have hkeys : (p.toValue.entries.map Prod.fst).Nodup := by simp [toValue, entries]
  refine ⟨by simp [toValue], ?_⟩
  rw [read, readRecord_withoutNulls _ _ rfl, (recovers_text p.name).required hkeys "name" rfl,
    Recovers.optional hkeys "type" (fun t _ => recovers_text t) rfl]
  rfl

namespace Symbol

theorem recovers {s : Symbol} (h : s.Valid) : Recovers read toValue s := by
  have hkeys : (s.toValue.entries.map Prod.fst).Nodup := by simp [toValue, entries]
  refine ⟨by simp [toValue], ?_⟩
  rw [read, readRecord_withoutNulls _ _ rfl, (recovers_text s.name).required hkeys "name" rfl,
    s.kind.recovers.required hkeys "kind" rfl,
    (SymbolRange.recovers h.1).required hkeys "range" rfl,
    Recovers.optional hkeys "definition" (fun p hp => Position.recovers (h.2.1 p hp)) rfl,
    (recovers_list fun p hp => Position.recovers (h.2.2 p hp)).defaulted hkeys "usages" rfl,
    Recovers.optional hkeys "documentation" (fun t _ => recovers_text t) rfl,
    Recovers.optional hkeys "signature" (fun t _ => recovers_text t) rfl,
    Recovers.optional hkeys "return_type" (fun t _ => recovers_text t) rfl,
    (recovers_list fun p _ => p.recovers).defaulted hkeys "parameters" rfl,
    Recovers.optional hkeys "parent_symbol" (fun t _ => recovers_text t) rfl,
    Recovers.optional hkeys "scope" (fun a _ => a.recovers) rfl,
    Recovers.optional hkeys "is_static" (fun b _ => recovers_boolean b) rfl,
    Recovers.optional hkeys "is_virtual" (fun b _ => recovers_boolean b) rfl,
    Recovers.optional hkeys "is_const" (fun b _ => recovers_boolean b) rfl,
    (recovers_list fun t _ => recovers_text t).defaulted hkeys "base_classes" rfl]
  rfl

theorem ensures_read : Ensures Valid read := by
  apply ensures_readRecord
  intro fields
  -- the ten fields behind the usages carry no condition
  iterate 10 refine Checked.Holds.seq_any ?_
  refine Checked.Holds.seq
    (Position.ensures_read.readList.defaulted (by simp) fields "usages") ?_
  refine Checked.Holds.seq (Position.ensures_read.optional fields "definition") ?_
  refine Checked.Holds.seq (SymbolRange.ensures_read.required fields "range") ?_
  refine Checked.Holds.seq_any (Checked.Holds.map ?_)
  intro name _ kind range hrange definition hdefinition usages husages
  intros
  exact ⟨hrange, hdefinition, husages⟩

end Symbol

/-! ## Chunks -/

namespace Chunk

/-- A valid chunk with valid symbols. -/
def WellFormed (c : Chunk) : Prop := c.Valid ∧ ∀ s ∈ c.symbols, s.Valid

theorem recovers {c : Chunk} (h : c.WellFormed) : Recovers read toValue c := by
  obtain ⟨⟨hstart, hle, hinside⟩, hsymbols⟩ := h
  have hend : 1 ≤ c.endLine := Int.le_trans hstart hle
  have hkeys : (c.toValue.entries.map Prod.fst).Nodup := by simp [toValue, entries]
  refine ⟨by simp [toValue], ?_⟩
  rw [read, readRecord_withoutNulls _ _ rfl, (recovers_text c.content).required hkeys "content" rfl,
    (recovers_integer hstart).required hkeys "start_line" rfl,
    (recovers_integer hend).required hkeys "end_line" rfl,
    (recovers_text c.language).required hkeys "language" rfl,
    Recovers.optional hkeys "file_path" (fun p _ => recovers_text p) rfl,
    Recovers.optional hkeys "node_kind" (fun k _ => recovers_text k) rfl,
    (recovers_list fun s hs => Symbol.recovers (hsymbols s hs)).defaulted hkeys "symbols" rfl]
  exact consistent_eq_ok.mpr ⟨rfl, hle, hinside⟩

theorem ensures_read : Ensures WellFormed read := by
  apply ensures_readRecord
  intro fields
  refine Checked.Holds.andThen (Q := fun c => 1 ≤ c.startLine ∧ ∀ s ∈ c.symbols, s.Valid) ?_ ?_
  · refine Checked.Holds.seq
      (Symbol.ensures_read.readList.defaulted (by simp) fields "symbols") ?_
    iterate 4 refine Checked.Holds.seq_any ?_
    refine Checked.Holds.seq ((ensures_readAtLeast 1).required fields "start_line") ?_
    refine Checked.Holds.map ?_
    intro content _ start hstart stop language filePath nodeKind symbols hsymbols
    exact ⟨hstart, hsymbols⟩
  · intro c hc c' hconsistent
    obtain ⟨rfl, hle, hinside⟩ := consistent_eq_ok.mp hconsistent
    exact ⟨⟨hc.1, hle, hinside⟩, hc.2⟩

/-- Written and read again, a chunk is the same exactly if it is well formed. -/
theorem read_compactValue_iff {c : Chunk} : read c.compactValue = .ok c ↔ c.WellFormed :=
  ⟨ensures_read c.compactValue c, fun h => (recovers h).2⟩

theorem readList_compactValue {cs : List Chunk} (h : ∀ c ∈ cs, c.WellFormed) :
    readList read (.list (cs.map compactValue)) = .ok cs := by
  have hlist := (recovers_list fun c hc => recovers (h c hc)).2
  rwa [withoutNulls, itemsWithoutNulls_eq_map, List.map_map] at hlist

end Chunk

/-! ## Chunks of files -/

namespace Refiner

theorem mem_symbols_of_mem_splitChunk {r : Refiner} {c d : Chunk} (hd : d ∈ r.splitChunk c)
    {s : Symbol} (hs : s ∈ d.symbols) : s ∈ c.symbols := by
  by_cases hshort : c.content.length ≤ r.maxChunkSize
  · rw [splitChunk, if_pos hshort] at hd
    rwa [← List.mem_singleton.mp hd]
  · obtain ⟨hpart, _⟩ := splitChunk_part (by omega) hd
    rw [hpart.symbols] at hs
    exact (List.mem_filter.mp hs).1

theorem wellFormed_of_mem_refine {r : Refiner} {cs : List Chunk} (h : ∀ c ∈ cs, c.WellFormed)
    {d : Chunk} (hd : d ∈ (r.refine cs).value) : d.WellFormed := by
  have hvalid : ∀ c ∈ r.resize cs, c.Valid := fun c => valid_of_mem_resize fun c hc => (h c hc).1
  rw [value_refine] at hd
  refine ⟨valid_of_mem_addOverlap hvalid hd, ?_⟩
  intro s hs
  obtain ⟨piece, hpiece, hdecorates⟩ :=
    (decorates_mem (decorates_addOverlap r fun c hc => (hvalid c hc).1)).1 d hd
  rw [hdecorates.symbols] at hs
  obtain ⟨c, hc, hpart⟩ := List.mem_flatMap.mp hpiece
  exact (h c hc).2 s (mem_symbols_of_mem_splitChunk hpart hs)

end Refiner

namespace Chunking
variable {settings : Settings} {parser : Parser} {splitter : TextSplitter} {inst : Installation}
  {source : Source} {cs : List Chunk}

theorem valid_symbols_unrefined {grammar : Option Grammar}
    (h : (unrefined settings parser splitter grammar source).value = .ok cs) :
    ∀ c ∈ cs, ∀ s ∈ c.symbols, s.Valid := by
  intro c hc s hs
  rcases unrefined_eq_ok h with rfl | ⟨g, t, rfl, _⟩
  · rw [Fallback.symbols_of_mem_chunksBy hc] at hs
    cases hs
  · obtain ⟨f, hf, rfl⟩ := List.mem_map.mp hc
    exact valid_symbols_cutFragments settings g t f hf s (List.mem_filter.mp hs).1

theorem wellFormed_of_mem_chunkSource
    (h : (chunkSource settings parser splitter inst source).value.1 = .ok cs) :
    ∀ c ∈ cs, c.WellFormed := by
  obtain ⟨us, hu, hvalid, _, _, rfl⟩ := exists_unrefined h
  intro c hc
  refine Refiner.wellFormed_of_mem_refine ?_ hc
  exact fun u hm => ⟨hvalid u hm, valid_symbols_unrefined hu u hm⟩

end Chunking

theorem wellFormed_of_mem_chunkFile {settings : Settings} {parser : Parser}
    {splitter : TextSplitter} {inst : Installation} {store : Store} {path : Path}
    {language : Option Text} {cs : List Chunk}
    (h : (chunkFile settings parser splitter inst store path language).value.1 = .ok cs) :
    ∀ c ∈ cs, c.WellFormed := by
  unfold chunkFile at h
  split at h
  · cases h
  · simp only [Logged.value_bind, Logged.value_pure] at h
    exact Chunking.wellFormed_of_mem_chunkSource (Chunking.mapError_eq_ok.mp h)

/-- A chunk is read back from its data exactly if it is well formed. All chunks of a file are, and
so the list that is printed for a file is read back as a whole. -/
theorem chunk_data_faithful :
    (∀ c : Chunk, Chunk.read c.compactValue = .ok c ↔ c.WellFormed) ∧
    ∀ {settings : Settings} {parser : Parser} {splitter : TextSplitter} {inst : Installation}
      {store : Store} {path : Path} {language : Option Text} {cs : List Chunk},
      (chunkFile settings parser splitter inst store path language).value.1 = .ok cs →
      (∀ c ∈ cs, Chunk.read c.compactValue = .ok c) ∧
        readList Chunk.read (.list (cs.map Chunk.compactValue)) = .ok cs := by
  refine ⟨fun c => Chunk.read_compactValue_iff, ?_⟩
  intro settings parser splitter inst store path language cs h
  have hcs := wellFormed_of_mem_chunkFile h
  exact ⟨fun c hc => Chunk.read_compactValue_iff.mpr (hcs c hc), Chunk.readList_compactValue hcs⟩

/-- A function that names itself, and a line outside any boundary. -/
def recursiveStore : Store := ⟨[(["a"], .file (Text.encode "f(){f;}\nx"))], []⟩

def recursiveParser : Parser := fun _ =>
  .tree [⟨none, "translation_unit", none, true, 0, 9, none⟩,
    ⟨some 0, "function_definition", none, true, 0, 7, none⟩,
    ⟨some 1, "function_declarator", some "declarator", true, 0, 3, none⟩,
    ⟨some 2, "identifier", some "declarator", true, 0, 1, none⟩,
    ⟨some 1, "compound_statement", some "body", true, 3, 7, none⟩,
    ⟨some 4, "identifier", none, true, 4, 5, none⟩]

def recursiveSymbol : Symbol where
  name := ['f']
  kind := .function
  range := ⟨1, 1, 0, 7⟩
  definition := some ⟨1, 0⟩
  usages := [⟨1, 4⟩]
  documentation := none
  signature := some "f()"
  returnType := none
  parameters := []
  parentSymbol := none
  scope := none
  isStatic := some false
  isVirtual := some false
  isConst := some false
  baseClasses := []

/-- The second chunk stands behind the end of the first one. -/
def recursiveChunks : List Chunk :=
  [⟨"f(){f;}", 1, 1, "cpp", some "a", some "function_definition", [recursiveSymbol]⟩,
    ⟨['}', '\n', 'x'], 1, 2, "cpp", some "a", none, []⟩]

theorem recursiveChunks_data_faithful :
    (chunkFile ⟨9, 1, true, 1⟩ recursiveParser .recursive .complete recursiveStore (.ofString "a")
      (some "c++")).value.1 = .ok recursiveChunks ∧
    (∀ c ∈ recursiveChunks, Chunk.read c.compactValue = .ok c) ∧
    readList Chunk.read (.list (recursiveChunks.map Chunk.compactValue)) = .ok recursiveChunks := by
  have hchunks : (chunkFile ⟨9, 1, true, 1⟩ recursiveParser .recursive .complete recursiveStore
      (.ofString "a") (some "c++")).value.1.toOption = some recursiveChunks := by decide +kernel
  cases h : (chunkFile ⟨9, 1, true, 1⟩ recursiveParser .recursive .complete recursiveStore
      (.ofString "a") (some "c++")).value.1 with
  | error e =>
    rw [h] at hchunks
    cases hchunks
  | ok cs =>
    rw [h] at hchunks
    cases hchunks
    exact ⟨rfl, chunk_data_faithful.2 h⟩

end SourceChunking
