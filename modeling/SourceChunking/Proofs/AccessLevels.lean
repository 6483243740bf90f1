import Mathlib.Data.List.Chain
import SourceChunking.Proofs.Building
import SourceChunking.Proofs.Descent

/-! # Levels in effect

The items of a class body are given their levels in one pass, and the levels are kept by body. A symbol
looks up the item that it stands under. What it finds is the level of the last specifier before the item
that names one, or else the level that the body starts with, in whatever order nodes are visited.
-/
namespace SourceChunking

theorem Access.ofText?_eq_some {word : Text} {level : Access} :
    Access.ofText? word = some level ↔ word = Text.ofString level.name := by
  constructor
  · intro h
    unfold ofText? at h
    have hfound := List.find?_some h
    exact (beq_iff_eq.mp hfound).symm
  · rintro rfl
    cases level <;> rfl

namespace Tree
variable {t : Tree} {i m item : Nat} {before after : List Nat} {level current : Access}

/-! ## Items of a class body -/

/-- The body of a class or of a function. -/
def IsBody (t : Tree) (a : Nat) : Prop :=
  t.kind a = "field_declaration_list" ∨ t.kind a = "compound_statement"

/-- The nearest body around a node is that of a class, and the node is, or stands under, one of its
items. -/
inductive MemberOf (t : Tree) (i m item : Nat) : Prop
  | intro (between above : List Nat) (hchain : t.ancestors i = between ++ m :: above)
      (hbody : t.kind m = "field_declaration_list") (hbetween : ∀ a ∈ between, ¬t.IsBody a)
      (hitem : (i :: between).getLast? = some item)

theorem isChain_ancestorsWithin (t : Tree) (n i : Nat) :
    (i :: t.ancestorsWithin n i).IsChain fun a b => t.parent? a = some b := by
  induction n generalizing i with
  | zero => exact .singleton i
  | succ n ih =>
    cases hp : t.parent? i with
    | none =>
      rw [ancestorsWithin, hp]
      exact .singleton i
    | some p =>
      rw [ancestorsWithin, hp]
      exact .cons_cons hp (ih p)

theorem memberList?_eq_some :
    t.memberList? i = some m ↔ ∃ between above, t.ancestors i = between ++ m :: above ∧
      t.kind m = "field_declaration_list" ∧ ∀ a ∈ between, ¬t.IsBody a := by
  constructor
  · intro h
    unfold memberList? at h
    split at h
    · next a ha =>
      split_ifs at h with hbody
      cases h
      obtain ⟨_, between, above, hchain, hbetween⟩ := List.find?_eq_some_iff_append.mp ha
      exact ⟨between, above, hchain, hbody, by simpa [IsBody] using hbetween⟩
    · cases h
  · rintro ⟨between, above, hchain, hbody, hbetween⟩
    have hfind : ((t.ancestors i).find? fun a =>
        t.kind a == "field_declaration_list" || t.kind a == "compound_statement") = some m :=
      List.find?_eq_some_iff_append.mpr
        ⟨by simp [hbody], between, above, hchain, by simpa [IsBody] using hbetween⟩
    rw [memberList?, hfind]
    exact if_pos hbody

theorem MemberOf.memberList? (h : t.MemberOf i m item) : t.memberList? i = some m := by
  obtain ⟨between, above, hchain, hbody, hbetween, _⟩ := h
  exact memberList?_eq_some.mpr ⟨between, above, hchain, hbody, hbetween⟩

theorem exists_memberOf (h : t.memberList? i = some m) : ∃ item, t.MemberOf i m item := by
  obtain ⟨between, above, hchain, hbody, hbetween⟩ := memberList?_eq_some.mp h
  exact ⟨_, between, above, hchain, hbody, hbetween, List.getLast?_eq_some_getLast (by simp)⟩

/-- In a chain every node but the last has a next one, which is not the first. -/
theorem exists_next_of_isChain {R : Nat → Nat → Prop} {first last a : Nat} {others front : List Nat}
    (hsplit : first :: others = front ++ [last]) (hchain : (front ++ [last]).IsChain R)
    (ha : a ∈ front) : ∃ b ∈ others, R a b := by
  obtain ⟨lower, upper, rfl⟩ := List.append_of_mem ha
  obtain ⟨b, rest, hb⟩ := List.exists_cons_of_ne_nil (l := upper ++ [last]) (by simp)
  rw [List.append_assoc, List.cons_append, hb] at hsplit hchain
  refine ⟨b, ?_, (List.isChain_append_cons_cons.mp hchain).2.1⟩
  cases lower with
  | nil =>
    obtain ⟨_, rfl⟩ := List.cons.inj hsplit
    exact List.mem_cons_self
  | cons x lower =>
    obtain ⟨_, rfl⟩ := List.cons.inj hsplit
    simp

/-- The way up from a member passes no other node below its class body. -/
theorem MemberOf.itemHolding? (h : t.MemberOf i m item) :
    t.parent? item = some m ∧ t.itemHolding? m i = some item := by
  obtain ⟨between, above, hchain, hbody, hbetween, hitem⟩ := h
  obtain ⟨front, hfront⟩ := List.getLast?_eq_some_iff.mp hitem
  have hup : i :: t.ancestors i = front ++ item :: m :: above := by
    rw [hchain, ← List.cons_append, hfront, List.append_assoc]
    rfl
  have hsteps := isChain_ancestorsWithin t t.size i
  change (i :: t.ancestors i).IsChain _ at hsteps
  rw [hup, List.isChain_append_cons_cons] at hsteps
  obtain ⟨hbelow, hp, _⟩ := hsteps
  refine ⟨hp, ?_⟩
  unfold Tree.itemHolding?
  refine List.find?_eq_some_iff_append.mpr ⟨by simp [hp], front, m :: above, hup, fun a ha => ?_⟩
  -- The parent of a node further down is still between the node and its class body.
  obtain ⟨b, hmem, hb⟩ := exists_next_of_isChain hfront hbelow ha
  have hne : b ≠ m := fun he => hbetween b hmem (.inl (he ▸ hbody))
  simpa [hb] using hne

theorem exists_children_eq (hp : t.parent? item = some m) :
    ∃ before after, t.children m = before ++ item :: after :=
  List.append_of_mem (mem_children.mpr ⟨lt_size_of_parent hp, hp⟩)

theorem notMem_before (hsplit : t.children m = before ++ item :: after) : item ∉ before := by
  intro hmem
  have hordered := t.pairwise_children m
  rw [hsplit] at hordered
  exact Nat.lt_irrefl item ((List.pairwise_append.mp hordered).2.2 item hmem item List.mem_cons_self)

/-! ## The last specifier before an item -/

/-- A specifier whose text up to the first colon is the name of a level, up to blanks around it. -/
def Specifies (t : Tree) (a : Nat) (level : Access) : Prop :=
  t.kind a = "access_specifier" ∧
    Text.trim ((t.text a).takeWhile (· != ':')) = Text.ofString level.name

/-- The level that a class body starts with: classes start out private, all else public. -/
def StartsAt (t : Tree) (m : Nat) : Access → Prop
  | .privateMember => ∃ owner, t.parent? m = some owner ∧ t.kind owner = "class_specifier"
  | .publicMember => ¬∃ owner, t.parent? m = some owner ∧ t.kind owner = "class_specifier"
  | .protectedMember => False

/-- The level in effect in a class body behind some of its items. -/
inductive LevelBehind (t : Tree) (m : Nat) (before : List Nat) (level : Access) : Prop
  | specified (front : List Nat) (a : Nat) (rest : List Nat) (hsplit : before = front ++ a :: rest)
      (ha : t.Specifies a level) (hrest : ∀ b ∈ rest, ∀ other, ¬t.Specifies b other)
  | initial (hnone : ∀ b ∈ before, ∀ other, ¬t.Specifies b other) (hstart : t.StartsAt m level)

/-- The level that an item names, if it is a specifier of one. -/
def levelNamed? (t : Tree) (a : Nat) : Option Access :=
  if t.kind a = "access_specifier" then Access.ofText? (t.specifierWord a) else none

theorem levelNamed?_eq_some {a : Nat} : t.levelNamed? a = some level ↔ t.Specifies a level := by
  unfold levelNamed? Specifies
  split_ifs with hkind
  · rw [Access.ofText?_eq_some, and_iff_right hkind]
    rfl
  · simp [hkind]

theorem levelNamed?_eq_none {a : Nat} : t.levelNamed? a = none ↔ ∀ other, ¬t.Specifies a other := by
  simp only [Option.eq_none_iff_forall_ne_some, ne_eq, levelNamed?_eq_some]

theorem startsAt_iff : t.StartsAt m level ↔ level = t.initialAccess m := by
  unfold initialAccess
  cases hp : t.parent? m with
  | none => cases level <;> simp [StartsAt, hp]
  | some owner => by_cases hkind : t.kind owner = "class_specifier" <;>
      cases level <;> simp [StartsAt, hp, hkind]

/-- The level in effect behind some items, given the one in front of them. -/
def levelAfter (t : Tree) (current : Access) (items : List Nat) : Access :=
  (items.reverse.findSome? t.levelNamed?).getD current

theorem levelAfter_cons (current : Access) (a : Nat) (items : List Nat) :
    t.levelAfter current (a :: items) = t.levelAfter ((t.levelNamed? a).getD current) items := by
  unfold levelAfter
  rw [List.reverse_cons, List.findSome?_append]
  simp only [List.findSome?_cons, List.findSome?_nil]
  cases items.reverse.findSome? t.levelNamed? with
  | none => cases t.levelNamed? a <;> rfl
  | some level => rfl

theorem levelBehind_iff :
    t.LevelBehind m before level ↔ level = t.levelAfter (t.initialAccess m) before := by
  unfold levelAfter
  constructor
  · rintro (⟨front, a, rest, rfl, ha, hrest⟩ | ⟨hnone, hstart⟩)
    · have hfound : (front ++ a :: rest).reverse.findSome? t.levelNamed? = some level := by
        refine List.findSome?_eq_some_iff.mpr
          ⟨rest.reverse, a, front.reverse, by simp, levelNamed?_eq_some.mpr ha, fun b hb => ?_⟩
        exact levelNamed?_eq_none.mpr (hrest b (List.mem_reverse.mp hb))
      rw [hfound]
      rfl
    · have hfound : before.reverse.findSome? t.levelNamed? = none :=
        List.findSome?_eq_none_iff.mpr fun b hb =>
          levelNamed?_eq_none.mpr (hnone b (List.mem_reverse.mp hb))
      rw [hfound]
      exact startsAt_iff.mp hstart
  · rintro rfl
    cases hfound : before.reverse.findSome? t.levelNamed? with
    | none =>
      refine .initial (fun b hb => ?_) (startsAt_iff.mpr rfl)
      exact levelNamed?_eq_none.mp (List.findSome?_eq_none_iff.mp hfound b (List.mem_reverse.mpr hb))
    | some level =>
      obtain ⟨rest, a, front, hsplit, ha, hrest⟩ := List.findSome?_eq_some_iff.mp hfound
      refine .specified front.reverse a rest.reverse ?_ (levelNamed?_eq_some.mp ha) fun b hb => ?_
      · rw [← before.reverse_reverse, hsplit]
        simp
      · exact levelNamed?_eq_none.mp (hrest b (List.mem_reverse.mp hb))

/-! ## One pass over the items -/

theorem value_itemLevelsFrom_cons (current : Access) (a : Nat) (items : List Nat) :
    (t.itemLevelsFrom current (a :: items)).value =
      if t.kind a = "access_specifier" then
        (t.itemLevelsFrom ((t.levelNamed? a).getD current) items).value
      else (a, current) :: (t.itemLevelsFrom current items).value := by
  unfold levelNamed?
  rw [itemLevelsFrom]
  split_ifs with hkind
  · cases Access.ofText? (t.specifierWord a) with
    | none => rfl
    | some level => rfl
  · rfl

theorem lookup_itemLevelsFrom (hkind : t.kind item ≠ "access_specifier") (hnot : item ∉ before)
    (current : Access) (after : List Nat) :
    (t.itemLevelsFrom current (before ++ item :: after)).value.lookup item =
      some (t.levelAfter current before) := by
  induction before generalizing current with
  | nil =>
    rw [List.nil_append, value_itemLevelsFrom_cons, if_neg hkind, List.lookup_cons_self]
    rfl
  | cons a before ih =>
    obtain ⟨hne, hnot⟩ := not_or.mp (mt List.mem_cons.mpr hnot)
    rw [List.cons_append, value_itemLevelsFrom_cons, levelAfter_cons]
    split_ifs with hspecifier
    · exact ih hnot _
    · rw [List.lookup_cons, beq_false_of_ne hne, levelNamed?, if_neg hspecifier]
      exact ih hnot current

theorem lookup_specifier (hkind : t.kind item = "access_specifier") (current : Access)
    (items : List Nat) : (t.itemLevelsFrom current items).value.lookup item = none := by
  induction items generalizing current with
  | nil => rfl
  | cons a items ih =>
    rw [value_itemLevelsFrom_cons]
    split_ifs with hspecifier
    · exact ih _
    · have hne : item ≠ a := fun he => hspecifier (he ▸ hkind)
      rw [List.lookup_cons, beq_false_of_ne hne]
      exact ih current

/-! ## The level of a node -/

/-- The level of a symbol of some kind on a node. Functions, types and fields that are members of a
class body have one, and namespaces do not. A specifier is no member. -/
inductive HasLevel (t : Tree) (i : Nat) (kind : SymbolKind) : Option Access → Prop
  | member {m item : Nat} {before after : List Nat} {level : Access} (hkind : kind ≠ .namespaceScope)
      (hmember : t.MemberOf i m item) (hitem : t.kind item ≠ "access_specifier")
      (hsplit : t.children m = before ++ item :: after) (hlevel : t.LevelBehind m before level) :
      HasLevel t i kind (some level)
  | none (h : kind ≠ .namespaceScope → ∀ m item, t.MemberOf i m item →
      t.kind item = "access_specifier") : HasLevel t i kind .none

theorem MemberOf.access (h : t.MemberOf i m item) :
    t.access i (t.memberList? i) = (t.itemLevels m).value.lookup item := by
  rw [h.memberList?, Tree.access, Option.bind_some, h.itemHolding?.2, Option.bind_some]

theorem MemberOf.access_eq_some (h : t.MemberOf i m item) (hitem : t.kind item ≠ "access_specifier")
    (hsplit : t.children m = before ++ item :: after) :
    t.access i (t.memberList? i) = some (t.levelAfter (t.initialAccess m) before) := by
  rw [h.access, itemLevels, hsplit]
  exact lookup_itemLevelsFrom hitem (notMem_before hsplit) _ _

theorem access_eq_none (h : ∀ m item, t.MemberOf i m item → t.kind item = "access_specifier") :
    t.access i (t.memberList? i) = none := by
  cases hm : t.memberList? i with
  | none => rfl
  | some m =>
    obtain ⟨item, hmember⟩ := exists_memberOf hm
    rw [← hm, hmember.access]
    exact lookup_specifier (h m item hmember) _ _

theorem hasLevel_iff {kind : SymbolKind} {scope : Option Access} :
    t.HasLevel i kind scope ↔
      scope = if kind = .namespaceScope then none else t.access i (t.memberList? i) := by
  constructor
  · rintro (⟨hkind, hmember, hitem, hsplit, hlevel⟩ | h)
    · rw [if_neg hkind, hmember.access_eq_some hitem hsplit, levelBehind_iff.mp hlevel]
    · split_ifs with hkind
      · rfl
      · exact (access_eq_none (h hkind)).symm
  · rintro rfl
    split_ifs with hkind
    · exact .none fun hne => absurd hkind hne
    · by_cases h : ∀ m item, t.MemberOf i m item → t.kind item = "access_specifier"
      · rw [access_eq_none h]
        exact .none fun _ => h
      · push Not at h
        obtain ⟨m, item, hmember, hitem⟩ := h
        obtain ⟨before, after, hsplit⟩ := exists_children_eq hmember.itemHolding?.1
        rw [hmember.access_eq_some hitem hsplit]
        exact .member hkind hmember hitem hsplit (levelBehind_iff.mpr rfl)

end Tree

/-! ## Levels in a run -/

theorem typeKind?_ne_namespaceScope {name : String} {kind : SymbolKind}
    (h : typeKind? name = some kind) : kind ≠ .namespaceScope := by
  unfold typeKind? at h
  split_ifs at h <;> cases h <;> decide

theorem Tree.typeKind?_of_declaration {t : Tree} {i : Nat} {kind : SymbolKind} {name : ResolvedName}
    (hd : t.declaration? i = some (.type kind name)) : typeKind? (t.kind i) = some kind := by
  have hfunction : t.functionAt? i ≠ some (.type kind name) := by
    unfold functionAt?
    split
    · split_ifs <;> simp
    · simp
  have hscope : t.scopeAt? i ≠ some (.type kind name) := by
    unfold scopeAt?
    split
    · dsimp only
      split_ifs <;> simp
    · simp
  have hfield : t.fieldAt? i ≠ some (.type kind name) := by
    unfold fieldAt?
    split
    · simp
    · split
      · simp
      · split_ifs
        · exact hfunction
        · simp
  unfold declaration? at hd
  by_cases hdefinition : t.kind i = "function_definition"
  · rw [if_pos hdefinition] at hd
    exact absurd hd hfunction
  · rw [if_neg hdefinition] at hd
    cases hk : typeKind? (t.kind i) with
    | some kind' =>
      rw [hk] at hd
      dsimp only [typeAt?] at hd
      split at hd
      · obtain ⟨_, _, he⟩ := Option.map_eq_some_iff.mp hd
        cases he
        rfl
      · cases hd
    | none =>
      rw [hk] at hd
      dsimp only at hd
      split_ifs at hd
      · exact absurd hd hscope
      · exact absurd hd hfield
      · split at hd
        · exact absurd hd hfunction
        · cases hd

namespace Extraction
variable {x : Extraction} {cache : AccessCache} {i : Nat} {d : Declaration}

theorem scope_symbolOf (h : x.tree.CacheSound cache) (hd : x.tree.declaration? i = some d) :
    (x.symbolOf cache i d).value.1.scope = x.plan.kept .scope
      (if (x.symbolOf cache i d).value.1.kind = .namespaceScope then none
        else x.tree.access i (x.tree.memberList? i)) none := by
  obtain ⟨plan, t, ls, us⟩ := x
  have hscope : ∀ kind : SymbolKind, kind ≠ .namespaceScope →
      ((Extraction.mk plan t ls us).enrichScope cache i (t.memberList? i)).value.1 =
        plan.kept .scope (if kind = .namespaceScope then none else t.access i (t.memberList? i))
          none := by
    intro kind hkind
    rw [if_neg hkind]
    exact (enrichScope_spec plan ls us h i (t.memberList? i)).1
  cases d with
  | function declarator name =>
    have hkind : t.functionKind name (t.memberList? i) ≠ .namespaceScope := by
      intro he
      have hlike := t.isFunctionLike_functionKind name (t.memberList? i)
      rw [he] at hlike
      cases hlike
    exact hscope _ hkind
  | type kind name =>
    have hkind := typeKind?_ne_namespaceScope (Tree.typeKind?_of_declaration hd)
    by_cases hbases : kind = .classType ∨ kind = .structType
    · simp only [symbolOf, typeSymbol, if_pos hbases, Logged.value_bind, Logged.value_pure]
      exact hscope _ hkind
    · simp only [symbolOf, typeSymbol, if_neg hbases, Logged.value_bind, Logged.value_pure]
      exact hscope _ hkind
  | scope nameNode name => exact (FaultPlan.kept_self plan .scope none).symm
  | field declarator name => exact hscope .field (by decide)

theorem cacheSound_build (h : x.tree.CacheSound cache) (i : Nat) :
    x.tree.CacheSound (x.build cache i).value.2 := by
  cases hkind : x.plan.kind (x.tree.kind i) with
  | some text => rwa [(built_of_fault cache (by simp [hkind])).2]
  | none =>
    cases hd : x.tree.declaration? i with
    | none => rwa [(built_of_none cache hkind hd).2]
    | some d =>
      rw [(built_of_some cache hkind hd).2]
      exact (symbolOf_spec x.plan x.lines x.usages h i d).2

/-- Every symbol of a run was built from one of the visited nodes, with some sound cache. -/
theorem mem_located (h : x.tree.CacheSound cache) {visited : List Nat} {p : Nat × Symbol}
    (hp : p ∈ x.located cache visited) :
    p.1 ∈ visited ∧ ∃ cache', x.tree.CacheSound cache' ∧ x.built cache' p.1 = some p.2 := by
  induction visited generalizing cache with
  | nil => cases hp
  | cons i rest ih =>
    rcases List.mem_append.mp hp with hp | hp
    · obtain ⟨s, hs, rfl⟩ := Option.map_eq_some_iff.mp (Option.mem_toList.mp hp)
      exact ⟨List.mem_cons_self, cache, h, hs⟩
    · obtain ⟨hmem, hbuilt⟩ := ih (cacheSound_build h i) hp
      exact ⟨List.mem_cons_of_mem i hmem, hbuilt⟩

end Extraction

theorem extractWith_cases (plan : FaultPlan) (t : Tree) (root : Nat) :
    (∃ e, collectUsages plan t root = .error e ∧ (extractWith plan t root).value = []) ∨
    ∃ us, collectUsages plan t root = .ok us ∧
      extractWith plan t root = (Extraction.mk plan t t.lines us).definitions [] (t.walk root) := by
  unfold extractWith extractFrom
  cases collectUsages plan t root with
  | error e => exact .inl ⟨e, rfl, rfl⟩
  | ok us => exact .inr ⟨us, rfl, rfl⟩

/-- In every run over a tree, whatever nodes it visits and in whatever order, each symbol has the one
level that the class body around its node gives it, or none where there is no such body, unless the
reader of levels fails. The symbols of a subtree are found by such a run. -/
theorem definitions_levels (x : Extraction) (visited : List Nat) :
    (x.definitions [] visited).value = (x.located [] visited).map Prod.snd ∧
    (∀ p ∈ x.located [] visited, p.1 ∈ visited ∧
      ∃ level, p.2.scope = x.plan.kept .scope level none ∧
        ∀ other, x.tree.HasLevel p.1 p.2.kind other ↔ other = level) ∧
    ∀ root, (∃ e, collectUsages x.plan x.tree root = .error e ∧
        (extractWith x.plan x.tree root).value = []) ∨
      ∃ us, collectUsages x.plan x.tree root = .ok us ∧
        extractWith x.plan x.tree root =
          (Extraction.mk x.plan x.tree x.tree.lines us).definitions [] (x.tree.walk root) := by
  refine ⟨(x.map_snd_located [] visited).symm, fun p hp => ?_, extractWith_cases x.plan x.tree⟩
  obtain ⟨hmem, cache, hsound, hbuilt⟩ := Extraction.mem_located x.tree.cacheSound_nil hp
  obtain ⟨d, hd, hs, _⟩ := Extraction.built_eq_some.mp hbuilt
  refine ⟨hmem, _, ?_, fun other => Tree.hasLevel_iff⟩
  rw [hs]
  exact Extraction.scope_symbolOf hsound hd

/-- A class with a private field, a protected structure that holds a public field, and a field behind a
specifier of no level. -/
def levelRows : List Row :=
  [⟨none, "translation_unit", none, true, 0, 51, none⟩,
    ⟨some 0, "class_specifier", none, true, 0, 50, none⟩,
    ⟨some 1, "type_identifier", some "name", true, 6, 7, none⟩,
    ⟨some 1, "field_declaration_list", some "body", true, 7, 50, none⟩,
    ⟨some 3, "field_declaration", none, true, 8, 14, none⟩,
    ⟨some 4, "field_identifier", some "declarator", true, 12, 13, none⟩,
    ⟨some 3, "access_specifier", none, true, 14, 24, none⟩,
    ⟨some 3, "field_declaration", none, true, 24, 41, none⟩,
    ⟨some 7, "struct_specifier", some "type", true, 24, 40, none⟩,
    ⟨some 8, "type_identifier", some "name", true, 31, 32, none⟩,
    ⟨some 8, "field_declaration_list", some "body", true, 32, 40, none⟩,
    ⟨some 10, "field_declaration", none, true, 33, 39, none⟩,
    ⟨some 11, "field_identifier", some "declarator", true, 37, 38, none⟩,
    ⟨some 3, "access_specifier", none, true, 41, 43, none⟩,
    ⟨some 3, "field_declaration", none, true, 43, 49, none⟩,
    ⟨some 14, "field_identifier", some "declarator", true, 47, 48, none⟩]

def levelTree : Tree :=
  Tree.ofRows (Text.encode "class A\x7bint a;protected:struct B\x7bint x;\x7d;Q:int y;\x7d;") levelRows

def levelRun : Extraction := ⟨.none, levelTree, levelTree.lines, []⟩

/-- The inner structure is visited before the class around it, and the last field first. -/
theorem levelTree_levels :
    ((levelRun.located [] [14, 11, 8, 4, 1]).map fun p => (p.1, p.2.kind, p.2.scope)) =
      [(14, .field, some .protectedMember), (11, .field, some .publicMember),
        (8, .structType, some .protectedMember), (4, .field, some .privateMember),
        (1, .classType, none)] ∧
    levelTree.HasLevel 14 .field (some .protectedMember) ∧
    levelTree.HasLevel 11 .field (some .publicMember) ∧
    levelTree.HasLevel 8 .structType (some .protectedMember) ∧
    levelTree.HasLevel 4 .field (some .privateMember) ∧ levelTree.HasLevel 1 .classType none := by
  have hfound : ((levelRun.located [] [14, 11, 8, 4, 1]).map fun p => (p.1, p.2.kind, p.2.scope)) =
      [(14, .field, some .protectedMember), (11, .field, some .publicMember),
        (8, .structType, some .protectedMember), (4, .field, some .privateMember),
        (1, .classType, none)] := by decide
  have hlevels : ∀ i kind scope,
      (i, kind, scope) ∈ (levelRun.located [] [14, 11, 8, 4, 1]).map
        (fun p => (p.1, p.2.kind, p.2.scope)) → levelTree.HasLevel i kind scope := by
    intro i kind scope hq
    obtain ⟨p, hp, he⟩ := List.mem_map.mp hq
    obtain ⟨_, level, hscope, hlevel⟩ := (definitions_levels levelRun _).2.1 p hp
    cases he
    exact (hlevel p.2.scope).mpr hscope
  rw [hfound] at hlevels
  exact ⟨hfound, hlevels 14 _ _ (by simp), hlevels 11 _ _ (by simp), hlevels 8 _ _ (by simp),
    hlevels 4 _ _ (by simp), hlevels 1 _ _ (by simp)⟩

end SourceChunking
