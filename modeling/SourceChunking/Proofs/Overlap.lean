import Mathlib.Data.List.DropRight
import SourceChunking.Proofs.Chunking

/-! # Overlap as decoration

Overlap is the last thing that happens to chunks, and what is put in front of a chunk comes from
its neighbour as it was before. So two runs of the engine that differ in the overlap alone differ
only in what stands in front of each chunk, and in the line on which it starts. No tree is taken
on trust here: chunks are checked before they are refined.
-/
namespace SourceChunking
open Text

/-! ## Pointwise description -/

/-- A chunk behind the last characters of its predecessor and a newline, with its first line moved
up over the lines in front. An empty predecessor has nothing to give. -/
def Chunk.behind (c : Chunk) (k : Nat) (previous : Chunk) : Chunk :=
  if previous.content = [] then c
  else
    let front := previous.content.rtake (min k previous.content.length) ++ [.scalar '\n']
    { c with
      content := front ++ c.content
      startLine := max 1 (c.startLine - newlines front) }

namespace Refiner

theorem overlapped_eq_behind {r : Refiner} (h : 0 < r.overlapSize) (previous c : Chunk) :
    r.overlapped previous c = c.behind r.overlapSize previous := by
  have htail : takeLast r.overlapSize previous.content =
      previous.content.rtake (min r.overlapSize previous.content.length) := by
    rw [takeLast, List.rtake]
    congr 1
    omega
  unfold overlapped Chunk.behind
  dsimp only
  by_cases hempty : previous.content = []
  · rw [if_pos hempty, if_pos (by simp [hempty, takeLast])]
  · have hpos : 0 < previous.content.length := List.length_pos_iff.mpr hempty
    have hne : takeLast r.overlapSize previous.content ≠ [] := by
      intro he
      have := congrArg List.length he
      rw [takeLast, List.length_drop, List.length_nil] at this
      omega
    rw [if_neg hempty, if_neg (by simpa using hne), htail]
    simp

theorem overlapFrom_eq_zipWith (r : Refiner) (previous : Chunk) (cs : List Chunk) :
    r.overlapFrom previous cs = List.zipWith r.overlapped (previous :: cs) cs := by
  induction cs generalizing previous with
  | nil => rfl
  | cons c rest ih => rw [overlapFrom, List.zipWith_cons_cons, ih]

theorem length_addOverlap (r : Refiner) (cs : List Chunk) :
    (r.addOverlap cs).length = cs.length := by
  cases cs with
  | nil => rfl
  | cons c rest => simp [addOverlap, overlapFrom_eq_zipWith]

theorem head?_addOverlap (r : Refiner) (cs : List Chunk) : (r.addOverlap cs).head? = cs.head? := by
  cases cs with
  | nil => rfl
  | cons c rest => rfl

theorem getElem?_addOverlap_succ (r : Refiner) {cs : List Chunk} {i : Nat} {previous c : Chunk}
    (hprevious : cs[i]? = some previous) (hc : cs[i + 1]? = some c) :
    (r.addOverlap cs)[i + 1]? = some (r.overlapped previous c) := by
  cases cs with
  | nil => cases hprevious
  | cons first rest =>
    rw [addOverlap, overlapFrom_eq_zipWith, List.getElem?_cons_succ, List.getElem?_zipWith,
      hprevious, ← List.getElem?_cons_succ (a := first), hc]

end Refiner

/-! ## Chunks that were let pass -/

namespace Chunking
variable {settings : Settings} {parser : Parser} {splitter : TextSplitter} {inst : Installation}
  {source : Source} {cs : List Chunk}

theorem valid_of_value_unrefined {grammar : Option Grammar}
    (h : (unrefined settings parser splitter grammar source).value = .ok cs) : ∀ c ∈ cs, c.Valid := by
  rcases unrefined_eq_ok h with rfl | ⟨g, t, _, hvalid⟩
  · exact fun c hc => Fallback.valid_of_mem_chunksBy hc
  · exact hvalid

/-- Chunks of a source are refined from valid ones, with a positive limit. -/
theorem exists_unrefined (h : (chunkSource settings parser splitter inst source).value.1 = .ok cs) :
    ∃ us, (unrefined settings parser splitter (inst.resolve source.language).value.1
        source).value = .ok us ∧
      (∀ c ∈ us, c.Valid) ∧ 1 ≤ settings.maxChunkSize ∧ 0 ≤ settings.overlapSize ∧
      cs = ((Refiner.mk settings.maxChunkSize.toNat settings.overlapSize.toNat).refine us).value := by
  simp only [chunkSource, chunkWith, Logged.value_bind, Logged.value_pure] at h
  cases hu : (unrefined settings parser splitter (inst.resolve source.language).value.1
      source).value with
  | error e =>
    rw [hu] at h
    cases h
  | ok us =>
    rw [hu] at h
    by_cases hmax : settings.maxChunkSize < 1
    · simp [refined, Refiner.ofSizes, hmax] at h
    · by_cases hoverlap : settings.overlapSize < 0
      · simp [refined, Refiner.ofSizes, hmax, hoverlap] at h
      · dsimp only at h
        rw [value_refined (by omega) (by omega)] at h
        cases h
        exact ⟨us, rfl, valid_of_value_unrefined hu, by omega, by omega, rfl⟩

/-- What is refined does not depend on the overlap, which is then put in front of the chunks that
a run without it gives. -/
theorem value_chunkSource_of_no_overlap {settings' : Settings}
    (hmax : settings'.maxChunkSize = settings.maxChunkSize)
    (hextract : settings'.extractSymbols = settings.extractSymbols)
    (hnone : settings.overlapSize = 0) (hoverlap : 0 ≤ settings'.overlapSize)
    (h : (chunkSource settings parser splitter inst source).value.1 = .ok cs) :
    (chunkSource settings' parser splitter inst source).value.1 =
        .ok ((Refiner.mk settings.maxChunkSize.toNat settings'.overlapSize.toNat).addOverlap cs) ∧
      ∀ c ∈ cs, c.Valid := by
  obtain ⟨us, hu, hvalid, hone, _, rfl⟩ := exists_unrefined h
  have hsame : (unrefined settings' parser splitter (inst.resolve source.language).value.1
      source).value = .ok us := by
    rw [← hu]
    unfold unrefined plain
    rw [hmax, hextract]
  rw [value_chunkSource (by omega) hoverlap hsame, Refiner.value_refine, hmax,
    Refiner.refine_of_no_overlap (by simp [hnone])]
  exact ⟨rfl, fun c => Refiner.valid_of_mem_resize hvalid⟩

end Chunking

/-- With overlap there are as many chunks as without. The first is the same, each other one is the
one without overlap behind the end of its predecessor, and all are valid. -/
theorem chunkSource_overlap {settings : Settings} {parser : Parser} {splitter : TextSplitter}
    {inst : Installation} {source : Source} {cs : List Chunk} {k : Nat} (hk : 0 < k)
    (h : (chunkSource { settings with overlapSize := 0 } parser splitter inst source).value.1 =
      .ok cs) :
    ∃ ds, (chunkSource { settings with overlapSize := k } parser splitter inst source).value.1 =
        .ok ds ∧
      ds.length = cs.length ∧ ds.head? = cs.head? ∧
      (∀ (i : Nat) (previous c : Chunk), cs[i]? = some previous → cs[i + 1]? = some c →
        ds[i + 1]? = some (c.behind k previous)) ∧
      ∀ d ∈ ds, d.Valid := by
  obtain ⟨hds, hvalid⟩ := @Chunking.value_chunkSource_of_no_overlap
    { settings with overlapSize := 0 } parser splitter inst source cs
    { settings with overlapSize := k } rfl rfl rfl (Int.natCast_nonneg k) h
  dsimp only [Int.toNat_natCast] at hds
  refine ⟨_, hds, Refiner.length_addOverlap _ cs, Refiner.head?_addOverlap _ cs, ?_,
    fun d => Refiner.valid_of_mem_addOverlap hvalid⟩
  intro i previous c hprevious hc
  rw [Refiner.getElem?_addOverlap_succ _ hprevious hc]
  exact congrArg some (Refiner.overlapped_eq_behind hk previous c)

/-- What the short source is cut into when every line stands alone. -/
def shortParts : List Chunk :=
  [⟨['s', '{', replacement, replacement, replacement, '}'], 1, 1, "cpp", none,
      some "struct_specifier", []⟩,
    ⟨[], 2, 2, "cpp", none, none, []⟩,
    ⟨[], 3, 3, "cpp", none, none, []⟩,
    ⟨['t'], 4, 4, "cpp", none, none, []⟩]

theorem shortSource_overlap :
    (chunkSource ⟨1, 0, true, 1⟩ shortParser .recursive .complete shortSource).value.1 =
      .ok shortParts ∧
    ∃ ds, (chunkSource ⟨1, 2, true, 1⟩ shortParser .recursive .complete shortSource).value.1 =
        .ok ds ∧
      ds.length = 4 ∧ ds.head? = shortParts.head? ∧
      ds[1]? = some ⟨[replacement, '}', '\n'], 1, 2, "cpp", none, none, []⟩ ∧
      ds[2]? = shortParts[2]? ∧ ds[3]? = shortParts[3]? ∧ ∀ d ∈ ds, d.Valid := by
  have h : (chunkSource ⟨1, 0, true, 1⟩ shortParser .recursive .complete shortSource).value.1 =
      .ok shortParts := rfl
  obtain ⟨ds, hds, hlength, hhead, hsucc, hvalid⟩ :=
    @chunkSource_overlap ⟨1, 0, true, 1⟩ shortParser .recursive .complete shortSource shortParts 2
      (by decide) h
  exact ⟨h, ds, hds, hlength, hhead, hsucc 0 _ _ rfl rfl, hsucc 1 _ _ rfl rfl,
    hsucc 2 _ _ rfl rfl, hvalid⟩

end SourceChunking
