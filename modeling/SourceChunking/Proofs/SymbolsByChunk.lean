import SourceChunking.Proofs.Chunking
import SourceChunking.Proofs.Descent
import SourceChunking.Proofs.Extraction
import SourceChunking.Proofs.LineRuns

/-! # Symbols of the chunks of a source

Symbols are extracted for each boundary node on its own and then handed to the chunk that holds
the node. Together the chunks get what one extraction of the whole tree would give for the nodes
below boundaries, in the same order. The lines of a chunk never shut out a symbol of its node,
and a node lies below one boundary at most.
-/
namespace SourceChunking
open Text

/-! ## Nodes below boundaries -/

namespace Tree
variable {t : Tree} {kinds : List String}

/-- An outermost node of one of the kinds, with some text. -/
def IsBoundary (t : Tree) (kinds : List String) (b : Nat) : Prop :=
  t.IsOutermost kinds b ∧ allBlank (t.text b) = false

instance (t : Tree) (kinds : List String) (b : Nat) : Decidable (t.IsBoundary kinds b) :=
  inferInstanceAs (Decidable (_ ∧ _))

/-- A node in the subtree of a boundary; without boundaries, any node. -/
def InScope (t : Tree) (kinds : List String) (i : Nat) : Prop :=
  (∃ b ∈ i :: t.ancestors i, t.IsBoundary kinds b) ∨ ∀ b < t.size, ¬t.IsBoundary kinds b

instance (t : Tree) (kinds : List String) (i : Nat) : Decidable (t.InScope kinds i) :=
  inferInstanceAs (Decidable (_ ∨ _))

def nodesInScope (t : Tree) (kinds : List String) : List Nat :=
  (t.walk 0).filter fun i => decide (t.InScope kinds i)

/-- The boundaries that a tree is cut at, or its root. -/
def cutNodes (t : Tree) (kinds : List String) : List Nat :=
  match (t.outermost kinds).filter fun i => !allBlank (t.text i) with
  | [] => [0]
  | bs => bs

theorem reaches_iff {i : Nat} :
    t.reaches kinds (fun b => !allBlank (t.text b)) i = true ↔
      ∃ b ∈ i :: t.ancestors i, t.IsBoundary kinds b := by
  rw [reaches, List.any_eq_true]
  simp only [Bool.and_eq_true, decide_eq_true_eq, Bool.not_eq_true', IsBoundary]

theorem Rooted.mem_chain_lt (h : t.Rooted) {i b : Nat} (hi : i < t.size)
    (hb : b ∈ i :: t.ancestors i) : b < t.size := by
  rcases List.mem_cons.mp hb with rfl | hb
  · exact hi
  · exact (h.lt_of_mem_ancestors hb).2

theorem Rooted.flatMap_walk_cutNodes (h : t.Rooted) (hsize : 0 < t.size) (kinds : List String) :
    (t.cutNodes kinds).flatMap t.walk = t.nodesInScope kinds := by
  have hwalk := h.flatMap_walk_outermost kinds (fun i => !allBlank (t.text i)) hsize
  unfold cutNodes nodesInScope
  cases hbs : (t.outermost kinds).filter fun i => !allBlank (t.text i) with
  | nil =>
    -- no node of the walk reaches a boundary, so there is none
    rw [hbs, List.flatMap_nil] at hwalk
    have hnone : ∀ b < t.size, ¬t.IsBoundary kinds b := by
      intro b hb hboundary
      refine List.filter_eq_nil_iff.mp hwalk.symm b (h.mem_walk_root hb) ?_
      exact reaches_iff.mpr ⟨b, List.mem_cons_self, hboundary⟩
    have hall : ∀ i ∈ t.walk 0, decide (t.InScope kinds i) = true := by
      intro i _
      exact decide_eq_true (Or.inr hnone)
    rw [List.filter_eq_self.mpr hall]
    simp
  | cons b bs =>
    rw [hbs] at hwalk
    dsimp only
    rw [hwalk]
    refine List.filter_congr fun i _ => Bool.eq_iff_iff.mpr ?_
    rw [reaches_iff, decide_eq_true_iff]
    refine ⟨Or.inl, fun hscope => hscope.resolve_right ?_⟩
    -- the subtree of `b` is not empty, so some node reaches a boundary
    intro hnone
    have hmem : b ∈ (t.walk 0).filter (t.reaches kinds fun b => !allBlank (t.text b)) := by
      rw [← hwalk]
      exact List.mem_flatMap.mpr ⟨b, List.mem_cons_self, self_mem_walk hsize b⟩
    obtain ⟨hroot, hreach⟩ := List.mem_filter.mp hmem
    obtain ⟨c, hc, hboundary⟩ := reaches_iff.mp hreach
    exact hnone c (h.mem_chain_lt (h.lt_size_of_mem_walk hsize hroot) hc) hboundary

theorem Nested.inside_of_chain (h : t.Nested) (hr : t.Rooted) {i b : Nat}
    (hb : b ∈ i :: t.ancestors i) : t.Inside b i := by
  induction i using Nat.strongRecOn with
  | _ i ih =>
    rcases List.mem_cons.mp hb with rfl | hb
    · exact Inside.refl t b
    · cases hp : t.parent? i with
      | none => simp [ancestors_of_root hp] at hb
      | some p =>
        obtain ⟨hlt, hsize⟩ := hr.lt_of_parent hp
        rw [hr.ancestors_eq hp] at hb
        exact (ih p hlt hb).trans (h.inside_child (mem_children.mpr ⟨hsize, hp⟩))

theorem Nested.inside_of_mem_walk (h : t.Nested) (hr : t.Rooted) {b i : Nat} (hb : b < t.size)
    (hi : i ∈ t.walk b) : t.Inside b i :=
  h.inside_of_chain hr ((hr.mem_walk hb (hr.lt_size_of_mem_walk hb hi)).mp hi)

theorem Inside.allBlank_eq_false {source : Text} {b i : Nat} (h : t.Inside b i)
    (hsource : t.source = encode source) (hp : t.Placed) (hbetween : t.BetweenCharacters source)
    (hi : allBlank (t.text i) = false) : allBlank (t.text b) = false := by
  obtain ⟨x, p, y, he, htext, hstart, hstop⟩ := hp.exists_part hsource hbetween b
  obtain ⟨x', p', y', he', htext', hstart', hstop'⟩ := hp.exists_part hsource hbetween i
  obtain ⟨hle, hle'⟩ := h
  have hpart : t.text i <:+: t.text b := by
    rw [htext, htext']
    exact replaced_infix
      (infix_of_length_encode_le (he.symm.trans he') (by omega) (by omega))
  rw [allBlank, List.all_eq_false] at hi ⊢
  obtain ⟨c, hc, hblank⟩ := hi
  exact ⟨c, hpart.subset hc, hblank⟩

end Tree

/-! ## What fragments hold -/

/-- A fragment has the symbols of the given nodes, and they lie on its lines. -/
structure Fragment.Holds (t : Tree) (f : Fragment) (part : List Nat) : Prop where
  symbols : f.symbols.map Symbol.withoutUsages = part.filterMap t.symbolAt
  inside : ∀ s ∈ f.symbols, Chunk.within f.startLine f.endLine s.range

namespace Tree
variable {t : Tree} {source : Text}

theorem Placed.holds_walk (hp : t.Placed) (hn : t.Nested) {f : Fragment} {i : Nat}
    (hsymbols : f.symbols = (extractFrom .none t t.lines i).value)
    (hlines : ∀ j ∈ t.walk i, (t.node j).startByte < (t.node j).endByte →
      f.startLine ≤ (t.node j).startLine ∧ (t.node j).endLine ≤ f.endLine) :
    f.Holds t (t.walk i) := by
  have hwalk := hp.value_extractFrom i
  rw [← hsymbols] at hwalk
  refine ⟨hwalk, ?_⟩
  intro s hs
  have hmem : s.withoutUsages ∈ (t.walk i).filterMap t.symbolAt := by
    rw [← hwalk]
    exact List.mem_map_of_mem hs
  obtain ⟨j, hj, hsymbol⟩ := List.mem_filterMap.mp hmem
  obtain ⟨hlt, hrange⟩ := symbolAt_spec hp hn hsymbol
  obtain ⟨hstart, hstop⟩ := hlines j hj hlt
  change s.range = t.rangeOf j at hrange
  simp only [hrange, rangeOf, Chunk.within, hstart, hstop, decide_true, Bool.and_self]

theorem Placed.holds_fragment (hp : t.Placed) (hn : t.Nested) (hr : t.Rooted) {i : Nat}
    (hi : i < t.size) :
    ((t.fragment i).annotate (Chunking.symbolsFor true t)).Holds t (t.walk i) := by
  refine hp.holds_walk hn rfl ?_
  intro j hj hlt
  obtain ⟨hstart, hstop⟩ := hn.inside_of_mem_walk hr hi hj
  exact (hp.node j).lines_inside (hp.node i) hlt hstart hstop

theorem Rooted.lt_of_mem_cutNodes (h : t.Rooted) (hsize : 0 < t.size) {kinds : List String}
    {b : Nat} (hb : b ∈ t.cutNodes kinds) : b < t.size := by
  have hmem : b ∈ (t.cutNodes kinds).flatMap t.walk :=
    List.mem_flatMap.mpr ⟨b, hb, self_mem_walk hsize b⟩
  rw [h.flatMap_walk_cutNodes hsize] at hmem
  exact h.lt_size_of_mem_walk hsize (List.mem_filter.mp hmem).1

theorem Placed.holds_fragments (hp : t.Placed) (hn : t.Nested) (hr : t.Rooted)
    (hsize : 0 < t.size) (hsource : t.source = encode source) (kinds : List String) :
    List.Forall₂ (Fragment.Holds t)
      ((t.fragments kinds source).map (Fragment.annotate (Chunking.symbolsFor true t)))
      ((t.cutNodes kinds).map t.walk) := by
  have hcut : ∀ b ∈ t.cutNodes kinds, b < t.size := fun b => hr.lt_of_mem_cutNodes hsize
  unfold fragments boundaryFragments
  unfold cutNodes at hcut ⊢
  cases hbs : (t.outermost kinds).filter fun i => !allBlank (t.text i) with
  | nil =>
    refine List.Forall₂.cons (hp.holds_walk hn ?_ ?_) List.Forall₂.nil
    · simp [Fragment.annotate, Chunking.symbolsFor, root?_of_pos hsize]
    · intro j _ hlt
      have hnode := hp.node j
      have hone := hnode.one_le_startLine
      rw [hsource] at hnode
      exact ⟨hone, hnode.endLine_le_countLines hlt⟩
  | cons b bs =>
    rw [hbs] at hcut
    change List.Forall₂ _ (((b :: bs).map t.fragment).map _) _
    rw [List.map_map, List.forall₂_map_left_iff, List.forall₂_map_right_iff, List.forall₂_same]
    intro i hi
    exact hp.holds_fragment hn hr (hcut i hi)

/-- The nodes of one part end where those of another start, or earlier. -/
def Before (t : Tree) (part part' : List Nat) : Prop :=
  ∀ i ∈ part, ∀ j ∈ part', (t.node i).endByte ≤ (t.node j).startByte

theorem Nested.pairwise_cutNodes (h : t.Nested) (hr : t.Rooted) (hsize : 0 < t.size)
    (kinds : List String) : ((t.cutNodes kinds).map t.walk).Pairwise t.Before := by
  have hinside : ∀ b ∈ t.cutNodes kinds, ∀ i ∈ t.walk b, t.Inside b i := by
    intro b hb i hi
    exact h.inside_of_mem_walk hr (hr.lt_of_mem_cutNodes hsize hb) hi
  have hpairs : (t.cutNodes kinds).Pairwise fun b c =>
      (t.node b).endByte ≤ (t.node c).startByte := by
    unfold cutNodes
    split
    · exact List.pairwise_singleton _ _
    · exact (h.pairwise_outermost kinds).filter _
  refine List.pairwise_map.mpr (hpairs.imp_of_mem ?_)
  intro b c hb hc hbc i hi j hj
  exact Int.le_trans (hinside b hb i hi).2 (Int.le_trans hbc (hinside c hc j hj).1)

theorem Nested.sortByLines_fragments (hn : t.Nested) (hp : t.Placed)
    (hsource : t.source = encode source) (kinds : List String)
    (symbolsOf : Fragment → List Symbol) :
    Fragment.sortByLines ((t.fragments kinds source).map (Fragment.annotate symbolsOf)) =
      (t.fragments kinds source).map (Fragment.annotate symbolsOf) := by
  apply Fragment.sortByLines_of_pairwise
  have hon := hp.onLines_fragments hsource kinds
  rcases t.fragments_cases kinds source with ⟨_, he⟩ | ⟨_, he⟩
  · rw [he] at hon ⊢
    refine List.pairwise_map.mpr ((hn.pairwise_boundaryFragments hp kinds).imp_of_mem ?_)
    intro f g hf hg hfg
    have hf := (hon f hf).ordered
    have hg := (hon g hg).ordered
    refine Fragment.precedes_iff.mpr ?_
    change f.startLine < g.startLine ∨ f.startLine = g.startLine ∧ f.endLine ≤ g.endLine
    omega
  · rw [he]
    exact List.pairwise_singleton _ _

end Tree

theorem Fragment.Holds.grow {t : Tree} {f g : Fragment} {part : List Nat} (h : f.Holds t part)
    (hg : GrownFrom (some f) g) : g.Holds t part := by
  obtain ⟨_, hstart, hstop, _, _, hsymbols⟩ := hg
  refine ⟨by rw [hsymbols, h.symbols], ?_⟩
  intro s hs
  rw [hsymbols] at hs
  have hinside := h.inside s hs
  simp only [Chunk.within, Bool.and_eq_true, decide_eq_true_eq] at hinside ⊢
  omega

/-- Runs between fragments hold nothing, so the nodes are shared out as before. -/
theorem exists_parts_of_grownFrom {t : Tree} {origins : List (Option Fragment)}
    {gs : List Fragment} (hgrown : List.Forall₂ GrownFrom origins gs) {parts : List (List Nat)}
    (hparts : List.Forall₂ (Fragment.Holds t) origins.reduceOption parts)
    (hbefore : parts.Pairwise t.Before) :
    ∃ parts', List.Forall₂ (Fragment.Holds t) gs parts' ∧ parts'.Pairwise t.Before ∧
      parts'.flatten = parts.flatten := by
  induction hgrown generalizing parts with
  | nil => exact ⟨parts, hparts, hbefore, rfl⟩
  | @cons origin g origins gs hg _ ih =>
    cases origin with
    | none =>
      obtain ⟨parts', hholds, hpairs, hflat⟩ := ih (by simpa using hparts) hbefore
      have hnone : g.Holds t [] := ⟨by simp [hg.2.2], by simp [hg.2.2]⟩
      refine ⟨[] :: parts', List.Forall₂.cons hnone hholds, ?_, by simpa using hflat⟩
      exact List.pairwise_cons.mpr ⟨by simp [Tree.Before], hpairs⟩
    | some f =>
      rw [List.reduceOption_cons_of_some] at hparts
      cases hparts with
      | @cons _ part _ parts hf hparts =>
        obtain ⟨hfirst, hrest⟩ := List.pairwise_cons.mp hbefore
        obtain ⟨parts', hholds, hpairs, hflat⟩ := ih hparts hrest
        refine ⟨part :: parts', List.Forall₂.cons (hf.grow hg) hholds, ?_, by simp [hflat]⟩
        refine List.pairwise_cons.mpr ⟨?_, hpairs⟩
        intro later hlater i hi j hj
        have hmem : j ∈ parts.flatten := by
          rw [← hflat]
          exact List.mem_flatten.mpr ⟨later, hlater, hj⟩
        obtain ⟨given, hgiven, hj⟩ := List.mem_flatten.mp hmem
        exact hfirst given hgiven i hi j hj

namespace Chunking
variable {settings : Settings} {g : Grammar} {t : Tree} {source : Source}

theorem holds_cutFragments (hx : (settings.extractSymbols && g.hasExtractor) = true)
    (hp : t.Placed) (hn : t.Nested) (hr : t.Rooted) (hsize : 0 < t.size)
    (hsource : t.source = encode source.text) :
    (∀ f ∈ cutFragments settings g t source, Coverage.OnLines (countLines source.text) f) ∧
      ∃ parts, List.Forall₂ (Fragment.Holds t) (cutFragments settings g t source) parts ∧
        parts.Pairwise t.Before ∧ parts.flatten = t.nodesInScope g.boundaryKinds := by
  have hon := onLines_annotated_fragments (g := g) hp hsource (symbolsFor true t)
  have hne : (t.fragments g.boundaryKinds source.text).map
      (Fragment.annotate (symbolsFor true t)) ≠ [] := by
    simpa using t.fragments_ne_nil g.boundaryKinds source.text
  unfold cutFragments
  rw [hx]
  refine ⟨(covers_fillGaps hne hon).1, ?_⟩
  obtain ⟨_, origins, hgrown, horigins⟩ := exists_origins_fillGaps hne hon
  rw [hn.sortByLines_fragments hp hsource] at horigins
  have hholds := hp.holds_fragments hn hr hsize hsource g.boundaryKinds
  rw [← horigins] at hholds
  obtain ⟨parts, hparts, hbefore, hflat⟩ := exists_parts_of_grownFrom hgrown hholds
    (hn.pairwise_cutNodes hr hsize g.boundaryKinds)
  refine ⟨parts, hparts, hbefore, ?_⟩
  rw [hflat, ← List.flatMap_def, hr.flatMap_walk_cutNodes hsize]

end Chunking

/-! ## From fragments to chunks -/

theorem Fragment.Holds.filter_within {t : Tree} {f : Fragment} {part : List Nat}
    (h : f.Holds t part) :
    (f.symbols.filter fun s => Chunk.within f.startLine f.endLine s.range) = f.symbols :=
  List.filter_eq_self.mpr h.inside

/-- A chunk has the symbols of the given nodes. -/
def Chunk.HasSymbolsOf (t : Tree) (c : Chunk) (part : List Nat) : Prop :=
  c.symbols.map Symbol.withoutUsages = part.filterMap t.symbolAt

theorem hasSymbolsOf_of_decorates {t : Tree} {language : Text} {filePath : Option Text}
    {fs : List Fragment} {parts : List (List Nat)} {cs : List Chunk}
    (hparts : List.Forall₂ (Fragment.Holds t) fs parts)
    (h : List.Forall₂ Refiner.Decorates (fs.map (Fragment.chunk language filePath)) cs) :
    List.Forall₂ (Chunk.HasSymbolsOf t) cs parts := by
  induction hparts generalizing cs with
  | nil =>
    cases h
    exact List.Forall₂.nil
  | cons hf _ ih =>
    cases h with
    | cons hc h =>
      refine List.Forall₂.cons ?_ (ih h)
      rw [Chunk.HasSymbolsOf, hc.symbols, Fragment.chunk, hf.filter_within, hf.symbols]

theorem flatMap_of_hasSymbolsOf {t : Tree} {cs : List Chunk} {parts : List (List Nat)}
    (h : List.Forall₂ (Chunk.HasSymbolsOf t) cs parts) :
    (cs.flatMap fun c => c.symbols.map Symbol.withoutUsages) =
      parts.flatten.filterMap t.symbolAt := by
  induction h with
  | nil => rfl
  | cons hc _ ih =>
    rw [List.flatMap_cons, ih, List.flatten_cons, List.filterMap_append]
    rw [Chunk.HasSymbolsOf] at hc
    rw [hc]

namespace Chunking
variable {settings : Settings} {parser : Parser} {inst : Installation} {g : Grammar} {t : Tree}
  {source : Source}

theorem value_symbolsWithin_cutFragments
    (hx : (settings.extractSymbols && g.hasExtractor) = true) (hp : t.Placed) (hn : t.Nested)
    (hr : t.Rooted) (hsize : 0 < t.size) (hsource : t.source = encode source.text) :
    ∀ f ∈ cutFragments settings g t source,
      (symbolsWithin f.startLine f.endLine f.symbols).value = f.symbols := by
  obtain ⟨_, parts, hparts, _⟩ := holds_cutFragments hx hp hn hr hsize hsource
  refine ((List.forall₂_and_left _ _).mp (hparts.imp fun f part h => ⟨?_, h⟩)).1
  rw [value_symbolsWithin, h.filter_within]

theorem chunkSource_shares_nodes (splitter : TextSplitter)
    (hresolved : (inst.resolve source.language).value.1 = some g)
    (hparse : (parser source.text).toTree g.name source.text = .ok t)
    (hx : (settings.extractSymbols && g.hasExtractor) = true) (hp : t.Placed) (hn : t.Nested)
    (hr : t.Rooted) (hsize : 0 < t.size) (hsource : t.source = encode source.text)
    (hmax : 1 ≤ settings.maxChunkSize) (hoverlap : 0 ≤ settings.overlapSize)
    (hshort : ∀ f ∈ cutFragments settings g t source,
      (f.content.length : Int) ≤ settings.maxChunkSize) :
    ∃ cs parts, (chunkSource settings parser splitter inst source).value.1 = .ok cs ∧
      List.Forall₂ (Chunk.HasSymbolsOf t) cs parts ∧ parts.Pairwise t.Before ∧
      parts.flatten = t.nodesInScope g.boundaryKinds := by
  obtain ⟨hon, parts, hparts, hbefore, hflat⟩ := holds_cutFragments hx hp hn hr hsize hsource
  have hunrefined := value_unrefined settings splitter hparse
  rw [value_toChunks _ _ fun f hf => ⟨(hon f hf).one_le, (hon f hf).ordered⟩, ← hresolved]
    at hunrefined
  refine ⟨_, parts, value_chunkSource hmax hoverlap hunrefined, ?_, hbefore, hflat⟩
  refine hasSymbolsOf_of_decorates hparts (Refiner.decorates_refine _ ?_ ?_)
  · refine List.forall_mem_map.mpr fun f hf => ?_
    have hlength := hshort f hf
    change f.content.length ≤ settings.maxChunkSize.toNat
    omega
  · exact List.forall_mem_map.mpr fun f hf => (hon f hf).one_le

end Chunking

/-! ## Symbols of C and C++ sources -/

/-- Parts that lie one behind the other define no symbol twice. -/
theorem eq_of_symbolAt_eq {t : Tree} (hp : t.Placed) (hn : t.Nested) {parts : List (List Nat)}
    (hbefore : parts.Pairwise t.Before) {k m i j : Nat} (hk : k < parts.length)
    (hm : m < parts.length) (hi : i ∈ parts[k]) (hj : j ∈ parts[m]) {s : Symbol}
    (hsi : t.symbolAt i = some s) (hsj : t.symbolAt j = some s) : k = m := by
  obtain ⟨hlt, hrange⟩ := Tree.symbolAt_spec hp hn hsi
  obtain ⟨hlt', hrange'⟩ := Tree.symbolAt_spec hp hn hsj
  have hsame : t.rangeOf i = t.rangeOf j := hrange.symm.trans hrange'
  -- two symbols on one range start at the same byte, which two parts do not share
  have hstart := (hp.node i).startByte_eq (hp.node j)
    (congrArg SymbolRange.startLine hsame) (congrArg SymbolRange.startColumn hsame)
  have hpairs := List.pairwise_iff_getElem.mp hbefore
  rcases Nat.lt_trichotomy k m with h | h | h
  · have := hpairs k m hk hm h i hi j hj
    omega
  · exact h
  · have := hpairs m k hm hk h j hj i hi
    omega

theorem Chunk.HasSymbolsOf.mem_iff {t : Tree} {c : Chunk} {part : List Nat}
    (h : c.HasSymbolsOf t part) (s : Symbol) :
    s ∈ c.symbols.map Symbol.withoutUsages ↔ ∃ i ∈ part, t.symbolAt i = some s := by
  rw [Chunk.HasSymbolsOf] at h
  rw [h, List.mem_filterMap]

theorem existsUnique_chunk {t : Tree} (hp : t.Placed) (hn : t.Nested) {cs : List Chunk}
    {parts : List (List Nat)} (h : List.Forall₂ (Chunk.HasSymbolsOf t) cs parts)
    (hbefore : parts.Pairwise t.Before) {i : Nat} (hi : i ∈ parts.flatten) {s : Symbol}
    (hs : t.symbolAt i = some s) :
    ∃! k : Nat, ∃ c, cs[k]? = some c ∧ s ∈ c.symbols.map Symbol.withoutUsages := by
  obtain ⟨hlength, hget⟩ := List.forall₂_iff_get.mp h
  obtain ⟨part, hpart, hmem⟩ := List.mem_flatten.mp hi
  obtain ⟨k, hk, rfl⟩ := List.mem_iff_getElem.mp hpart
  have hk' : k < cs.length := by omega
  refine ⟨k, ⟨cs[k], by simp, ((hget k hk' hk).mem_iff s).mpr ⟨i, hmem, hs⟩⟩, ?_⟩
  rintro m ⟨c, hcm, hc⟩
  obtain ⟨hm, rfl⟩ := List.getElem?_eq_some_iff.mp hcm
  have hm' : m < parts.length := by omega
  obtain ⟨j, hj, hsj⟩ := ((hget m hm hm').mem_iff s).mp hc
  exact eq_of_symbolAt_eq hp hn hbefore hm' hk hj hmem hsj hs

/-- The kinds of nodes that define functions, types and namespaces. -/
def definitionKinds : List String :=
  ["function_definition", "class_specifier", "struct_specifier", "union_specifier",
    "enum_specifier", "namespace_definition"]

theorem Tree.inScope_of_definition {t : Tree} {source : Text} (hsource : t.source = encode source)
    (hp : t.Placed) (hn : t.Nested) (hr : t.Rooted) (hbetween : t.BetweenCharacters source) {i : Nat}
    (hkind : t.kind i ∈ definitionKinds) (hi : allBlank (t.text i) = false) :
    t.InScope (Grammar.ofLanguage .cpp).boundaryKinds i := by
  have hboundary : definitionKinds ⊆ (Grammar.ofLanguage .cpp).boundaryKinds := by decide
  obtain ⟨b, hb, hout⟩ := hr.exists_isOutermost (hboundary hkind)
  have hinside := hn.inside_of_chain hr hb
  exact Or.inl ⟨b, hb, hout, hinside.allBlank_eq_false hsource hp hbetween hi⟩

theorem Installation.resolve_of_ofIdentifier {inst : Installation} {id : Text} {l : Language}
    (hl : Language.ofIdentifier? id = some l) (hinst : inst.lacks (Grammar.ofLanguage l) = false) :
    (inst.resolve id).value.1 = some (Grammar.ofLanguage l) := by
  simp [resolve, hl, hinst]

/-- The chunks of a source within the limit together have, in order, the symbols that one
extraction of the whole tree finds at the nodes in scope. The lines of a chunk shut out no
symbol, and the symbol of a definition with some text is in exactly one chunk. Only the last
part needs offsets between characters: half of a blank character is not blank. -/
theorem chunkSource_keeps_symbols (settings : Settings) (parser : Parser) (splitter : TextSplitter)
    (inst : Installation) (source : Source) {t : Tree}
    (hlanguage : Language.ofIdentifier? source.language = some .cpp)
    (hinst : inst.lacks (Grammar.ofLanguage .cpp) = false)
    (hparse : (parser source.text).toTree Language.cpp.name source.text = .ok t)
    (hp : t.Placed) (hn : t.Nested) (hr : t.Rooted)
    (hmax : 1 ≤ settings.maxChunkSize) (hoverlap : 0 ≤ settings.overlapSize)
    (hextract : settings.extractSymbols = true)
    (hshort : ∀ f ∈ Chunking.cutFragments settings (Grammar.ofLanguage .cpp) t source,
      (f.content.length : Int) ≤ settings.maxChunkSize) :
    ∃ cs, (chunkSource settings parser splitter inst source).value.1 = .ok cs ∧
      (extractAll .none t).value.map Symbol.withoutUsages = (t.walk 0).filterMap t.symbolAt ∧
      (cs.flatMap fun c => c.symbols.map Symbol.withoutUsages) =
        (t.nodesInScope (Grammar.ofLanguage .cpp).boundaryKinds).filterMap t.symbolAt ∧
      (∀ f ∈ Chunking.cutFragments settings (Grammar.ofLanguage .cpp) t source,
        (Chunking.symbolsWithin f.startLine f.endLine f.symbols).value = f.symbols) ∧
      (t.BetweenCharacters source.text → ∀ i < t.size, t.kind i ∈ definitionKinds →
        allBlank (t.text i) = false → ∀ s, t.symbolAt i = some s →
          ∃! k : Nat, ∃ c, cs[k]? = some c ∧ s ∈ c.symbols.map Symbol.withoutUsages) := by
  have htrust : (parser source.text).Trusted (fun t => 0 < t.size) source.text := by
    intro root rest _ _
    simp [Tree.size, Tree.ofRows]
  obtain ⟨hsize, hsource⟩ := htrust.of_toTree hparse
  have hx : (settings.extractSymbols && (Grammar.ofLanguage .cpp).hasExtractor) = true := by
    rw [hextract]
    rfl
  obtain ⟨cs, parts, hok, hsymbols, hbefore, hflat⟩ := Chunking.chunkSource_shares_nodes
    splitter (Installation.resolve_of_ofIdentifier hlanguage hinst) hparse hx hp hn hr hsize hsource
    hmax hoverlap hshort
  refine ⟨cs, hok, ?_, ?_, Chunking.value_symbolsWithin_cutFragments hx hp hn hr hsize hsource, ?_⟩
  · rw [extractAll, Tree.root?_of_pos hsize]
    exact hp.value_extractFrom 0
  · rw [flatMap_of_hasSymbolsOf hsymbols, hflat]
  · intro hbetween i hi hkind hblank s hs
    have hscope := Tree.inScope_of_definition hsource hp hn hr hbetween hkind hblank
    refine existsUnique_chunk hp hn hsymbols hbefore ?_ hs
    rw [hflat]
    exact List.mem_filter.mpr ⟨hr.mem_walk_root hi, decide_eq_true hscope⟩

/-- A function and an enumeration on one line, between a blank line and a line outside any
boundary. -/
def sharedSource : Source := ⟨"\nf(){}enum e{}\nx", "c++", none⟩

def sharedRows : List Row :=
  [⟨none, "translation_unit", none, true, 0, 16, none⟩,
    ⟨some 0, "function_definition", none, true, 1, 6, none⟩,
    ⟨some 1, "function_declarator", some "declarator", true, 1, 4, none⟩,
    ⟨some 2, "identifier", some "declarator", true, 1, 2, none⟩,
    ⟨some 2, "parameter_list", some "parameters", true, 2, 4, none⟩,
    ⟨some 1, "compound_statement", some "body", true, 4, 6, none⟩,
    ⟨some 0, "enum_specifier", none, true, 6, 14, none⟩,
    ⟨some 6, "type_identifier", some "name", true, 11, 12, none⟩,
    ⟨some 6, "enumerator_list", some "body", true, 12, 14, none⟩]

def sharedTree : Tree := Tree.ofRows (encode sharedSource.text) sharedRows

theorem sharedSource_keeps_symbols :
    (sharedTree.Placed ∧ sharedTree.Nested ∧ sharedTree.Rooted ∧
      sharedTree.BetweenCharacters sharedSource.text) ∧
    ∃ cs, (chunkSource ⟨40, 3, true, 1⟩ (fun _ => .tree sharedRows) .recursive .complete
        sharedSource).value.1 = .ok cs ∧
      (cs.flatMap fun c => c.symbols.map Symbol.withoutUsages) =
        [1, 6].filterMap sharedTree.symbolAt ∧
      ∀ i ∈ [1, 6], ∀ s, sharedTree.symbolAt i = some s →
        ∃! k : Nat, ∃ c, cs[k]? = some c ∧ s ∈ c.symbols.map Symbol.withoutUsages := by
  have hp : sharedTree.Placed := by decide
  have hn : sharedTree.Nested := by decide
  have hr : sharedTree.Rooted := by decide
  have hbetween : sharedTree.BetweenCharacters sharedSource.text := by decide
  have hparse : ((fun _ => .tree sharedRows : Parser) sharedSource.text).toTree Language.cpp.name
      sharedSource.text = .ok sharedTree := rfl
  obtain ⟨cs, hok, _, hconcat, _, hunique⟩ := chunkSource_keeps_symbols ⟨40, 3, true, 1⟩
    (fun _ => .tree sharedRows) .recursive .complete sharedSource (by decide) (by decide) hparse hp
    hn hr (by decide) (by decide) rfl (by decide)
  have hscope : (sharedTree.nodesInScope (Grammar.ofLanguage .cpp).boundaryKinds).filterMap
      sharedTree.symbolAt = [1, 6].filterMap sharedTree.symbolAt := by decide
  refine ⟨⟨hp, hn, hr, hbetween⟩, cs, hok, hconcat.trans hscope, ?_⟩
  intro i hi
  have hdefines : ∀ i ∈ [1, 6], i < sharedTree.size ∧ sharedTree.kind i ∈ definitionKinds ∧
      allBlank (sharedTree.text i) = false := by decide
  obtain ⟨hsize, hkind, hblank⟩ := hdefines i hi
  exact hunique hbetween i hsize hkind hblank

/-- A namespace that is a blank character, and in it another one that is the first byte of the
character. -/
def halvedSource : Source := ⟨[Char.ofNat 0x3000, 'x'], "cpp", none⟩

def halvedRows : List Row :=
  [⟨none, "translation_unit", none, true, 0, 4, none⟩,
    ⟨some 0, "namespace_definition", none, true, 0, 3, none⟩,
    ⟨some 1, "namespace_definition", none, true, 0, 1, none⟩,
    ⟨some 2, "namespace_identifier", some "name", true, 0, 1, none⟩,
    ⟨some 0, "enum_specifier", none, true, 3, 4, none⟩]

def halvedTree : Tree := Tree.ofRows (encode halvedSource.text) halvedRows

/-- The inner namespace has some text, but no chunk has its symbol: the outer one is blank. -/
theorem halvedSource_loses_symbol :
    (halvedTree.Placed ∧ halvedTree.Nested ∧ halvedTree.Rooted ∧
      ∀ f ∈ Chunking.cutFragments ⟨40, 0, true, 1⟩ (Grammar.ofLanguage .cpp) halvedTree
        halvedSource, (f.content.length : Int) ≤ 40) ∧
    (halvedTree.kind 2 ∈ definitionKinds ∧ allBlank (halvedTree.text 2) = false) ∧
    ∃ s, halvedTree.symbolAt 2 = some s ∧ s ∈ (extractAll .none halvedTree).value ∧
      ∃ cs, (chunkSource ⟨40, 0, true, 1⟩ (fun _ => .tree halvedRows) .recursive .complete
          halvedSource).value.1 = .ok cs ∧
        ¬∃! k : Nat, ∃ c, cs[k]? = some c ∧ s ∈ c.symbols.map Symbol.withoutUsages := by
  refine ⟨⟨by decide, by decide, by decide, by decide⟩, ⟨by decide, by decide⟩,
    { Symbol.bare [replacement] .namespaceScope ⟨1, 1, 0, 1⟩ with definition := some ⟨1, 0⟩ },
    by decide, by decide,
    [⟨['x'], 1, 1, "cpp", none, some "enum_specifier", []⟩], by rfl, ?_⟩
  rintro ⟨k, ⟨c, hc, hs⟩, _⟩
  obtain rfl := List.mem_singleton.mp (List.mem_of_getElem? hc)
  cases hs

end SourceChunking
