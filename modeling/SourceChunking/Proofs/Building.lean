import Mathlib.Tactic.SplitIfs
import SourceChunking.Symbol.Extraction

/-! # Building symbols under faults

The symbols of a subtree are built one after the other, with the access levels found so far kept
for later. What is kept is what would be found again, so the symbol of a node depends on the tree
alone, up to its uses and to what fails while it is built. A fault in a reader blanks the fields
that the reader serves, a fault in a kind of node takes away the symbols of such nodes, and
nothing else changes.
-/
namespace SourceChunking

/-! ## Access levels that were kept -/

namespace Tree
variable {t : Tree} {cache : AccessCache}

/-- The access level of a node, worked out afresh. -/
def access (t : Tree) (i : Nat) (body : Option Nat) : Option Access :=
  body.bind fun b => (t.itemHolding? b i).bind fun item => (t.itemLevels b).value.lookup item

def CacheSound (t : Tree) (cache : AccessCache) : Prop :=
  ∀ body levels, cache.lookup body = some levels → levels = (t.itemLevels body).value

theorem cacheSound_nil (t : Tree) : t.CacheSound [] := by
  intro body levels h
  cases h

theorem CacheSound.cachedLevels (h : t.CacheSound cache) (body : Nat) :
    (t.cachedLevels cache body).value.1 = (t.itemLevels body).value ∧
      t.CacheSound (t.cachedLevels cache body).value.2 := by
  unfold Tree.cachedLevels
  cases hl : cache.lookup body with
  | some levels => exact ⟨h body levels hl, h⟩
  | none =>
    refine ⟨rfl, ?_⟩
    intro body' levels hl'
    change ((body, (t.itemLevels body).value) :: cache).lookup body' = some levels at hl'
    rw [List.lookup_cons] at hl'
    by_cases he : body' = body
    · subst he
      simpa using hl'.symm
    · rw [beq_false_of_ne he] at hl'
      exact h body' levels hl'

theorem CacheSound.accessOf (h : t.CacheSound cache) (i : Nat) (body : Option Nat) :
    (t.accessOf cache i body).value.1 = t.access i body ∧
      t.CacheSound (t.accessOf cache i body).value.2 := by
  unfold Tree.accessOf
  cases body with
  | none => exact ⟨rfl, h⟩
  | some body =>
    obtain ⟨hlevels, hsound⟩ := h.cachedLevels body
    simp only [Logged.value_bind, Logged.value_pure, hlevels]
    exact ⟨rfl, hsound⟩

end Tree

/-! ## What a fault leaves -/

/-- Functions, methods and constructors. -/
def SymbolKind.isFunctionLike : SymbolKind → Bool
  | .function | .method | .constructor => true
  | _ => false

namespace FaultPlan

/-- A value that a reader gives, or else what stands for nothing. -/
def kept {α : Type} (plan : FaultPlan) (reader : MetadataReader) (value nothing : α) : α :=
  if (plan.reader reader).isSome then nothing else value

@[simp] theorem kept_none {α : Type} (reader : MetadataReader) (value nothing : α) :
    FaultPlan.none.kept reader value nothing = value := rfl

@[simp] theorem kept_self {α : Type} (plan : FaultPlan) (reader : MetadataReader) (value : α) :
    plan.kept reader value value = value := ite_self value

theorem join_kept {α : Type} (plan : FaultPlan) (reader : MetadataReader) (value : Option α) :
    (plan.kept reader (some value) .none).join = plan.kept reader value .none := by
  unfold kept
  split_ifs <;> rfl

theorem getD_kept {α : Type} (plan : FaultPlan) (reader : MetadataReader) (value nothing : α) :
    (plan.kept reader (some value) .none).getD nothing = plan.kept reader value nothing := by
  unfold kept
  split_ifs <;> rfl

/-- A symbol without the fields whose readers fail. Constness is read off the words in front of a
field and off the declarator of a function; a field is never virtual, which is not read at all. -/
def blank (plan : FaultPlan) (s : Symbol) : Symbol :=
  { s with
    documentation := plan.kept .documentation s.documentation .none
    signature := plan.kept .signature s.signature .none
    returnType := plan.kept .returnType s.returnType .none
    parameters := plan.kept .parameters s.parameters []
    parentSymbol := plan.kept .parentSymbol s.parentSymbol .none
    scope := plan.kept .scope s.scope .none
    baseClasses := plan.kept .baseClasses s.baseClasses []
    isStatic :=
      if s.kind.isFunctionLike ∨ s.kind = .field then plan.kept .words s.isStatic .none
      else s.isStatic
    isVirtual :=
      if s.kind.isFunctionLike then plan.kept .words s.isVirtual .none else s.isVirtual
    isConst :=
      if s.kind.isFunctionLike then plan.kept .constness s.isConst .none
      else if s.kind = .field then plan.kept .words s.isConst .none
      else s.isConst }

theorem blank_none (s : Symbol) : FaultPlan.none.blank s = s := by
  simp [blank]

end FaultPlan

/-! ## The symbol of a node -/

def Symbol.withUsages (us : Usages) (s : Symbol) : Symbol := { s with usages := us.of s.name }

def Declaration.name (t : Tree) : Declaration → Text
  | .function _ name => name.text t
  | .type _ name => name.text t
  | .scope _ name => name
  | .field _ name => name.text t

theorem Tree.isFunctionLike_functionKind (t : Tree) (name : ResolvedName) (body : Option Nat) :
    (t.functionKind name body).isFunctionLike = true := by
  unfold functionKind
  split
  · split_ifs <;> rfl
  · split
    · split_ifs <;> rfl
    · rfl

namespace Extraction
variable {plan : FaultPlan} {t : Tree} {ls : List Text} {us : Usages} {cache : AccessCache}

theorem value_enrich {α : Type} (x : Extraction) (i : Nat) (field : String)
    (reader : MetadataReader) (value : α) :
    (x.enrich i field reader value).value = x.plan.kept reader (some value) none := by
  unfold enrich FaultPlan.kept
  cases x.plan.reader reader with
  | none => rfl
  | some text => rfl

theorem enrichScope_spec (plan : FaultPlan) (ls : List Text) (us : Usages) (h : t.CacheSound cache)
    (i : Nat) (body : Option Nat) :
    ((Extraction.mk plan t ls us).enrichScope cache i body).value.1 =
        plan.kept .scope (t.access i body) none ∧
      t.CacheSound ((Extraction.mk plan t ls us).enrichScope cache i body).value.2 := by
  unfold enrichScope FaultPlan.kept
  rw [Logged.value_bind, value_enrich, FaultPlan.kept]
  dsimp only
  split_ifs
  · exact ⟨rfl, h⟩
  · exact h.accessOf i body

theorem symbolOf_spec (plan : FaultPlan) (ls : List Text) (us : Usages) (h : t.CacheSound cache)
    (i : Nat) (d : Declaration) :
    ((Extraction.mk plan t ls us).symbolOf cache i d).value.1 =
        plan.blank (((Extraction.mk .none t ls []).symbolOf [] i d).value.1.withUsages us) ∧
      t.CacheSound ((Extraction.mk plan t ls us).symbolOf cache i d).value.2 := by
  have hscope := enrichScope_spec plan ls us h i
  have hscope' := enrichScope_spec .none ls [] t.cacheSound_nil i
  cases d with
  | function declarator name =>
    simp only [symbolOf, functionSymbol, Logged.value_bind, Logged.value_pure, value_enrich,
      (hscope _).1, (hscope' _).1]
    refine ⟨?_, (hscope _).2⟩
    simp [Symbol.withUsages, FaultPlan.blank, newSymbol, Symbol.bare, FaultPlan.join_kept,
      FaultPlan.getD_kept, Tree.isFunctionLike_functionKind]
  | type kind name =>
    by_cases hk : kind = .classType ∨ kind = .structType
    · simp only [symbolOf, typeSymbol, if_pos hk, Logged.value_bind, Logged.value_pure,
        value_enrich, (hscope _).1, (hscope' _).1]
      refine ⟨?_, (hscope _).2⟩
      simp [Symbol.withUsages, FaultPlan.blank, newSymbol, Symbol.bare, FaultPlan.join_kept,
        FaultPlan.getD_kept]
    · simp only [symbolOf, typeSymbol, if_neg hk, Logged.value_bind, Logged.value_pure,
        value_enrich, (hscope _).1, (hscope' _).1]
      refine ⟨?_, (hscope _).2⟩
      simp [Symbol.withUsages, FaultPlan.blank, newSymbol, Symbol.bare, FaultPlan.join_kept]
  | scope nameNode name =>
    simp only [symbolOf, scopeSymbol, Logged.value_bind, Logged.value_pure, value_enrich]
    refine ⟨?_, h⟩
    simp [Symbol.withUsages, FaultPlan.blank, newSymbol, Symbol.bare, FaultPlan.join_kept]
  | field declarator name =>
    simp only [symbolOf, fieldSymbol, Logged.value_bind, Logged.value_pure, value_enrich,
      (hscope _).1, (hscope' _).1]
    refine ⟨?_, (hscope _).2⟩
    simp [Symbol.withUsages, FaultPlan.blank, newSymbol, Symbol.bare, FaultPlan.join_kept,
      SymbolKind.isFunctionLike]

theorem symbolOf_placed (x : Extraction) (cache : AccessCache) (i : Nat) (d : Declaration) :
    (x.symbolOf cache i d).value.1.name = d.name x.tree ∧
      (x.symbolOf cache i d).value.1.range = x.tree.rangeOf i ∧
      (x.symbolOf cache i d).value.1.definition = some (x.tree.positionOf i) := by
  cases d with
  | function declarator name => exact ⟨rfl, rfl, rfl⟩
  | type kind name =>
    by_cases hk : kind = .classType ∨ kind = .structType
    · simp only [symbolOf, typeSymbol, if_pos hk, Logged.value_bind, Logged.value_pure]
      exact ⟨rfl, rfl, rfl⟩
    · simp only [symbolOf, typeSymbol, if_neg hk, Logged.value_bind, Logged.value_pure]
      exact ⟨rfl, rfl, rfl⟩
  | scope nameNode name => exact ⟨rfl, rfl, rfl⟩
  | field declarator name => exact ⟨rfl, rfl, rfl⟩

theorem range_symbolOf (x : Extraction) (cache : AccessCache) (i : Nat) (d : Declaration) :
    (x.symbolOf cache i d).value.1.range = x.tree.rangeOf i :=
  (x.symbolOf_placed cache i d).2.1

/-- The symbol that comes out of building a node, if any. -/
def built (x : Extraction) (cache : AccessCache) (i : Nat) : Option Symbol :=
  (x.build cache i).value.1.toOption.join

theorem built_of_fault {x : Extraction} {i : Nat} (cache : AccessCache)
    (h : (x.plan.kind (x.tree.kind i)).isSome) :
    x.built cache i = none ∧ (x.build cache i).value.2 = cache := by
  obtain ⟨text, htext⟩ := Option.isSome_iff_exists.mp h
  unfold built build
  rw [htext]
  exact ⟨rfl, rfl⟩

theorem built_of_none {x : Extraction} {i : Nat} (cache : AccessCache)
    (h : x.plan.kind (x.tree.kind i) = none) (hd : x.tree.declaration? i = none) :
    x.built cache i = none ∧ (x.build cache i).value.2 = cache := by
  unfold built build
  rw [h, hd]
  exact ⟨rfl, rfl⟩

theorem toOption_onValidRange (s : Symbol) :
    ((onValidRange s).map some).toOption.join = if s.range.Valid then some s else none := by
  unfold onValidRange
  split_ifs
  · rfl
  · split <;> rfl

theorem built_of_some {x : Extraction} {i : Nat} {d : Declaration} (cache : AccessCache)
    (h : x.plan.kind (x.tree.kind i) = none) (hd : x.tree.declaration? i = some d) :
    x.built cache i =
        (if (x.tree.rangeOf i).Valid then some (x.symbolOf cache i d).value.1 else none) ∧
      (x.build cache i).value.2 = (x.symbolOf cache i d).value.2 := by
  rw [← x.range_symbolOf cache i d, ← toOption_onValidRange]
  unfold built build
  rw [h, hd]
  exact ⟨rfl, rfl⟩

/-- A symbol comes out of a node that declares it on a valid range, unless building such nodes
fails. -/
theorem built_eq_some {x : Extraction} {i : Nat} {s : Symbol} :
    x.built cache i = some s ↔
      ∃ d, x.tree.declaration? i = some d ∧ s = (x.symbolOf cache i d).value.1 ∧
        (x.tree.rangeOf i).Valid ∧ x.plan.kind (x.tree.kind i) = none := by
  cases hkind : x.plan.kind (x.tree.kind i) with
  | some text =>
    rw [(built_of_fault cache (by simp [hkind])).1]
    simp
  | none =>
    cases hd : x.tree.declaration? i with
    | none =>
      rw [(built_of_none cache hkind hd).1]
      simp
    | some d =>
      rw [(built_of_some cache hkind hd).1]
      by_cases hrange : (x.tree.rangeOf i).Valid
      · simp [hrange, eq_comm]
      · simp [hrange]

end Extraction

/-- The symbol that a node defines, without its uses. -/
def Tree.symbolAt (t : Tree) (i : Nat) : Option Symbol :=
  ((Extraction.mk .none t t.lines []).build [] i).value.1.toOption.join

theorem Tree.symbolAt_eq_some {t : Tree} {i : Nat} {s : Symbol} :
    t.symbolAt i = some s ↔
      ∃ d, t.declaration? i = some d ∧
        s = ((Extraction.mk .none t t.lines []).symbolOf [] i d).value.1 ∧
        (t.rangeOf i).Valid := by
  have hbuilt : t.symbolAt i = (Extraction.mk .none t t.lines []).built [] i := rfl
  rw [hbuilt, Extraction.built_eq_some]
  simp [FaultPlan.none]

/-- A node with the symbol that it defines, given the uses of names. -/
def Tree.entry (t : Tree) (us : Usages) (i : Nat) : Option (Nat × Symbol) :=
  (t.symbolAt i).map fun s => (i, s.withUsages us)

namespace Extraction
variable {t : Tree} {cache : AccessCache}

/-- Building a node is the same from every sound cache, up to uses and faults. -/
theorem build_spec (plan : FaultPlan) (us : Usages) (h : t.CacheSound cache) (i : Nat) :
    (Extraction.mk plan t t.lines us).built cache i =
        (if (plan.kind (t.kind i)).isSome then none
          else (t.symbolAt i).map fun s => plan.blank (s.withUsages us)) ∧
      t.CacheSound ((Extraction.mk plan t t.lines us).build cache i).value.2 := by
  have hplain : t.symbolAt i = (Extraction.mk .none t t.lines []).built [] i := rfl
  by_cases hfault : (plan.kind (t.kind i)).isSome
  · obtain ⟨hbuilt, hcache⟩ := built_of_fault (x := ⟨plan, t, t.lines, us⟩) cache hfault
    rw [hbuilt, hcache, if_pos hfault]
    exact ⟨rfl, h⟩
  · have hkind : plan.kind (t.kind i) = none := by simpa using hfault
    rw [if_neg hfault, hplain]
    cases hd : t.declaration? i with
    | none =>
      obtain ⟨hbuilt, hcache⟩ := built_of_none (x := ⟨plan, t, t.lines, us⟩) cache hkind hd
      rw [hbuilt, hcache, (built_of_none [] rfl hd).1]
      exact ⟨rfl, h⟩
    | some d =>
      obtain ⟨hsymbol, hsound⟩ := symbolOf_spec plan t.lines us h i d
      obtain ⟨hbuilt, hcache⟩ := built_of_some (x := ⟨plan, t, t.lines, us⟩) cache hkind hd
      rw [hbuilt, hcache, (built_of_some [] rfl hd).1, hsymbol]
      refine ⟨?_, hsound⟩
      split_ifs
      · rfl
      · rfl

/-- The second pass, with each symbol beside the node that it was built from. -/
def located (x : Extraction) : AccessCache → List Nat → List (Nat × Symbol)
  | _, [] => []
  | cache, i :: rest =>
    ((x.built cache i).map fun s => (i, s)).toList ++ located x (x.build cache i).value.2 rest

theorem map_snd_located (x : Extraction) (cache : AccessCache) (is : List Nat) :
    (x.located cache is).map Prod.snd = (x.definitions cache is).value := by
  induction is generalizing cache with
  | nil => rfl
  | cons i rest ih =>
    rw [located, definitions, Logged.value_bind, List.map_append, ih, built]
    rcases (x.build cache i).value with ⟨outcome, after⟩
    cases outcome with
    | error e => rfl
    | ok found =>
      cases found with
      | none => rfl
      | some s => rfl

theorem located_spec (plan : FaultPlan) (us : Usages) (h : t.CacheSound cache) (is : List Nat) :
    (Extraction.mk plan t t.lines us).located cache is =
      ((is.filterMap (t.entry us)).filter fun p => (plan.kind (t.kind p.1)).isNone).map fun p =>
        (p.1, plan.blank p.2) := by
  induction is generalizing cache with
  | nil => rfl
  | cons i rest ih =>
    obtain ⟨hbuilt, hsound⟩ := build_spec plan us h i
    rw [located, hbuilt, ih hsound, List.filterMap_cons, Tree.entry]
    cases t.symbolAt i with
    | none => simp
    | some s => cases hkind : plan.kind (t.kind i) <;> simp [hkind]

theorem located_none (us : Usages) (h : t.CacheSound cache) (is : List Nat) :
    (Extraction.mk .none t t.lines us).located cache is = is.filterMap (t.entry us) := by
  have hkind : ∀ p : Nat × Symbol, (FaultPlan.none.kind (t.kind p.1)).isNone = true := fun _ => rfl
  rw [located_spec .none us h is]
  simp [hkind, FaultPlan.blank_none]

end Extraction

/-- All uses of names in a subtree, in source order. -/
def Tree.usagesIn (t : Tree) (root : Nat) : Usages :=
  ((t.walk root).filter t.isUsage).map fun i => (t.text i, t.positionOf i)

/-- Uses are collected exactly if nothing fails and all of them have valid places. -/
theorem collectUsages_eq_ok {plan : FaultPlan} {t : Tree} {root : Nat} {us : Usages} :
    collectUsages plan t root = .ok us ↔
      plan.usages = none ∧
      (∀ i ∈ t.walk root, t.isUsage i = true → (t.positionOf i).Valid) ∧
      us = t.usagesIn root := by
  unfold collectUsages
  cases hplan : plan.usages with
  | some text => simp
  | none =>
    dsimp only
    cases hfind : ((t.walk root).filter t.isUsage).find? fun i =>
        !decide (t.positionOf i).Valid with
    | some i =>
      have hinvalid := List.find?_some hfind
      obtain ⟨hwalk, husage⟩ := List.mem_filter.mp (List.mem_of_find?_eq_some hfind)
      have hnot : ¬∀ i ∈ t.walk root, t.isUsage i = true → (t.positionOf i).Valid := by
        intro hall
        simp [hall i hwalk husage] at hinvalid
      simp only [hnot, false_and, and_false, iff_false]
      split <;> simp
    | none =>
      have hall : ∀ i ∈ t.walk root, t.isUsage i = true → (t.positionOf i).Valid := by
        intro i hi husage
        simpa using List.find?_eq_none.mp hfind i (List.mem_filter.mpr ⟨hi, husage⟩)
      rw [Except.ok.injEq, eq_comm]
      exact ⟨fun he => ⟨rfl, hall, he⟩, fun h => h.2.2⟩

theorem collectUsages_of_valid {t : Tree} {root : Nat}
    (h : ∀ i ∈ t.walk root, t.isUsage i = true → (t.positionOf i).Valid) :
    collectUsages .none t root = .ok (t.usagesIn root) :=
  collectUsages_eq_ok.mpr ⟨rfl, h, rfl⟩

/-- The symbols of a subtree, each beside the node that it was built from. -/
def Tree.located (t : Tree) (root : Nat) : List (Nat × Symbol) :=
  match collectUsages .none t root with
  | .ok usages => Extraction.located ⟨.none, t, t.lines, usages⟩ [] (t.walk root)
  | .error _ => []

theorem Tree.map_snd_located (t : Tree) (root : Nat) :
    (t.located root).map Prod.snd = (extract t root).value := by
  unfold located extract extractWith extractFrom
  cases collectUsages .none t root with
  | error e => rfl
  | ok usages => exact Extraction.map_snd_located _ [] (t.walk root)

/-- A symbol that was found comes from a node of the subtree, with the uses of its name there. -/
theorem Tree.mem_located {t : Tree} {root : Nat} {p : Nat × Symbol} (hp : p ∈ t.located root) :
    p.1 ∈ t.walk root ∧
      (∃ s, t.symbolAt p.1 = some s ∧ p.2 = s.withUsages (t.usagesIn root)) ∧
      ∀ i ∈ t.walk root, t.isUsage i = true → (t.positionOf i).Valid := by
  unfold located at hp
  cases hu : collectUsages .none t root with
  | error e =>
    rw [hu] at hp
    cases hp
  | ok us =>
    rw [hu] at hp
    dsimp only at hp
    obtain ⟨_, hvalid, rfl⟩ := collectUsages_eq_ok.mp hu
    rw [Extraction.located_none _ t.cacheSound_nil] at hp
    obtain ⟨i, hi, he⟩ := List.mem_filterMap.mp hp
    obtain ⟨s, hs, rfl⟩ := Option.map_eq_some_iff.mp he
    exact ⟨hi, ⟨s, hs, rfl⟩, hvalid⟩

/-! ## The cost of faults -/

/-- Faults cost what failed. The symbols of a subtree are those that are found without faults, in
the same order, but for symbols of nodes of a failing kind; those that stay have exactly the fields
of failing readers blanked. -/
theorem extractWith_faults (reader : MetadataReader → Option String) (kind : String → Option String)
    (t : Tree) (root : Nat) :
    (extract t root).value = (t.located root).map Prod.snd ∧
    (extractWith ⟨reader, none, kind⟩ t root).value =
      ((t.located root).filter fun p => (kind (t.kind p.1)).isNone).map fun p =>
        FaultPlan.blank ⟨reader, none, kind⟩ p.2 := by
  refine ⟨(t.map_snd_located root).symm, ?_⟩
  have husages : collectUsages ⟨reader, none, kind⟩ t root = collectUsages .none t root := rfl
  unfold Tree.located extractWith extractFrom
  rw [husages]
  cases collectUsages .none t root with
  | error e => rfl
  | ok usages =>
    dsimp only
    rw [← Extraction.map_snd_located, Extraction.located_spec _ _ t.cacheSound_nil,
      Extraction.located_none _ t.cacheSound_nil, List.map_map]
    rfl

end SourceChunking
