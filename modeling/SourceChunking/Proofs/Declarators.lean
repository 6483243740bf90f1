import SourceChunking.Proofs.Boundaries
import SourceChunking.Proofs.Building

/-! # Where declared names stand

The name of a declaration is found by going down from the declaring node, or from the declarator of a
function, through nodes that only wrap it: pointers, references, initialisers, array bounds, qualified
names and templates. So it is a child of the node it is looked up from, or of such a wrapper.
-/
namespace SourceChunking

/-- Nodes that a declared name can stand behind. -/
def wrapperKinds : List String :=
  pointerKinds ++ referenceKinds ++
    ["init_declarator", "array_declarator", "qualified_identifier", "template_type",
      "template_function"]

/-- The node that the name of a declaration is looked up from. -/
def Declaration.holder (i : Nat) : Declaration → Nat
  | .function declarator _ => declarator
  | .type _ _ => i
  | .scope _ _ => i
  | .field _ _ => i

namespace Tree
variable {t : Tree} {i k : Nat} {n : Option Nat}

/-- A child of a node, or of a wrapper behind that node. -/
inductive Behind (t : Tree) (i : Nat) : Nat → Prop
  | child {j : Nat} (hj : j ∈ t.children i) : Behind t i j
  | wrapped {k j : Nat} (hk : Behind t i k) (hkind : t.kind k ∈ wrapperKinds)
      (hj : j ∈ t.children k) : Behind t i j

/-! ## Going down to a name -/

/-- A descent that starts behind a node and has not left it. -/
def StaysBehind (t : Tree) (i : Nat) (n : Option Nat) : Prop := ∀ j ∈ n, t.Behind i j

theorem staysBehind_childByField (t : Tree) (i : Nat) (field : String) :
    t.StaysBehind i (t.childByField i field) := by
  intro j hj
  exact .child (mem_children_of_childByField hj)

theorem Behind.childByField (hk : t.Behind i k) (hkind : t.kind k ∈ wrapperKinds) (field : String) :
    t.StaysBehind i (t.childByField k field) := by
  intro j hj
  exact .wrapped hk hkind (mem_children_of_childByField hj)

theorem Behind.innerDeclarator (hk : t.Behind i k) (hkind : t.kind k ∈ wrapperKinds) :
    t.StaysBehind i (t.innerDeclarator k) := by
  intro j hj
  rcases Option.or_eq_some_iff.mp hj with hj | ⟨_, hj⟩
  · exact hk.childByField hkind "declarator" j hj
  · have hnamed := List.mem_of_getLast? hj
    exact .wrapped hk hkind (List.mem_filter.mp hnamed).1

namespace StaysBehind

theorem pastQualifiers (hn : t.StaysBehind i n) (steps : Nat) (qualifiers : List Text) :
    t.StaysBehind i (t.pastQualifiers steps n qualifiers).1 := by
  induction steps generalizing n qualifiers with
  | zero => exact hn
  | succ steps ih =>
    cases n with
    | none => exact hn
    | some k =>
      unfold Tree.pastQualifiers
      split_ifs with hkind
      · exact ih ((hn k rfl).childByField (by simp [wrapperKinds, hkind]) "name") _
      · exact hn

theorem pastTemplate (hn : t.StaysBehind i n) : t.StaysBehind i (t.pastTemplate n) := by
  cases n with
  | none => exact hn
  | some k =>
    unfold Tree.pastTemplate
    dsimp only
    split_ifs with hkind
    · refine (hn k rfl).childByField ?_ "name"
      rcases hkind with hkind | hkind <;> simp [wrapperKinds, hkind]
    · exact hn

theorem unwrapWithin (hn : t.StaysBehind i n) (steps : Nat) (marks : Text) :
    t.StaysBehind i (t.unwrapWithin steps n marks).1 := by
  induction steps generalizing n marks with
  | zero => exact hn
  | succ steps ih =>
    cases n with
    | none => exact hn
    | some k =>
      unfold Tree.unwrapWithin
      split_ifs with hpointer hreference
      · refine ih ((hn k rfl).innerDeclarator ?_) _
        exact List.mem_append_left _ (List.mem_append_left _ (by simpa using hpointer))
      · refine ih ((hn k rfl).innerDeclarator ?_) _
        exact List.mem_append_left _ (List.mem_append_right _ (by simpa using hreference))
      · exact hn

theorem pastInitializers (hn : t.StaysBehind i n) (steps : Nat) :
    t.StaysBehind i (t.pastInitializers steps n) := by
  induction steps generalizing n with
  | zero => exact hn
  | succ steps ih =>
    cases n with
    | none => exact hn
    | some k =>
      unfold Tree.pastInitializers
      split_ifs with hkind
      · refine ih (unwrapWithin ((hn k rfl).childByField ?_ "declarator") t.size [])
        rcases hkind with hkind | hkind <;> simp [wrapperKinds, hkind]
      · exact hn

theorem declaredName (hn : t.StaysBehind i n) {name : ResolvedName}
    (he : t.declaredName? n = some name) : t.Behind i name.node ∧ t.text name.node ≠ [] := by
  obtain ⟨hr, hne⟩ := Option.filter_eq_some_iff.mp he
  refine ⟨?_, by simpa [ResolvedName.text] using hne⟩
  have hpast := (hn.pastQualifiers t.size []).pastTemplate
  unfold resolveName at hr
  dsimp only at hr
  cases hp : t.pastTemplate (t.pastQualifiers t.size n []).1 with
  | none => simp [hp] at hr
  | some k =>
    rw [hp] at hr hpast
    dsimp only at hr
    split_ifs at hr
    cases hr
    exact hpast k rfl

end StaysBehind

/-! ## The name of each declaration -/

/-- A declaration of a node with its name: the name is looked up from a node that marks what stands
directly below it as declared, and is the text of the node found, unless nothing wraps that node. -/
structure Declares (t : Tree) (i : Nat) (d : Declaration) : Prop where
  reached : d.holder i = i ∨ t.Behind i (d.holder i)
  context : t.kind (d.holder i) ∈ declarationContexts
  behind : t.Behind (d.holder i) d.nameNode
  name_ne_nil : d.name t ≠ []
  text_ne_nil : t.text d.nameNode ≠ []
  spelled : d.name t = t.text d.nameNode ∨ t.parent? d.nameNode = some (d.holder i)

theorem declares_of_functionAt {d : Declaration} (hd : t.functionAt? i = some d) :
    t.Declares i d := by
  have hstart := (t.staysBehind_childByField i "declarator").unwrapWithin t.size []
  unfold functionAt? at hd
  cases hu : (t.unwrapDeclarator (t.childByField i "declarator")).1 with
  | none => simp [hu] at hd
  | some k =>
    rw [hu] at hd
    dsimp only at hd
    split_ifs at hd with hkind
    obtain ⟨name, hname, rfl⟩ := Option.map_eq_some_iff.mp hd
    obtain ⟨hbehind, hne⟩ := (t.staysBehind_childByField k "declarator").declaredName hname
    exact ⟨Or.inr (hstart k hu), by simp [Declaration.holder, hkind, declarationContexts], hbehind,
      hne, hne, Or.inl rfl⟩

theorem mem_declarationContexts_of_typeKind {name : String} {kind : SymbolKind}
    (h : typeKind? name = some kind) : name ∈ declarationContexts := by
  unfold typeKind? at h
  split_ifs at h with h₁ h₂ h₃ h₄ <;> simp [declarationContexts, *]

theorem declares_of_typeAt {kind : SymbolKind} {d : Declaration}
    (hkind : t.kind i ∈ declarationContexts) (hd : t.typeAt? i kind = some d) : t.Declares i d := by
  unfold typeAt? at hd
  cases hb : t.childByField i "body" with
  | none => simp [hb] at hd
  | some body =>
    rw [hb] at hd
    obtain ⟨name, hname, rfl⟩ := Option.map_eq_some_iff.mp hd
    obtain ⟨hbehind, hne⟩ := (t.staysBehind_childByField i "name").declaredName hname
    exact ⟨Or.inl rfl, hkind, hbehind, hne, hne, Or.inl rfl⟩

theorem declares_of_scopeAt {d : Declaration} (hkind : t.kind i ∈ declarationContexts)
    (hd : t.scopeAt? i = some d) : t.Declares i d := by
  unfold scopeAt? at hd
  cases hn : t.childByField i "name" with
  | none => simp [hn] at hd
  | some n =>
    rw [hn] at hd
    dsimp only at hd
    split_ifs at hd with hempty
    cases hd
    have hchild := mem_children_of_childByField hn
    refine ⟨Or.inl rfl, hkind, .child hchild, by simpa [Declaration.name] using hempty, ?_,
      Or.inr (mem_children.mp hchild).2⟩
    intro he
    have hblank : t.text n = [] := he
    rw [hblank] at hempty
    exact hempty rfl

theorem declares_of_fieldAt {d : Declaration} (hkind : t.kind i ∈ declarationContexts)
    (hd : t.fieldAt? i = some d) : t.Declares i d := by
  unfold fieldAt? at hd
  cases hr : t.childByField i "declarator" with
  | none => simp [hr] at hd
  | some root =>
    have hroot := t.staysBehind_childByField i "declarator"
    rw [hr] at hd hroot
    have hstart := hroot.unwrapWithin t.size []
    dsimp only at hd
    cases hu : (t.unwrapDeclarator (some root)).1 with
    | none => simp [hu] at hd
    | some k =>
      rw [unwrapDeclarator] at hu
      rw [unwrapDeclarator, hu] at hd
      rw [hu] at hstart
      dsimp only at hd
      split_ifs at hd
      · exact declares_of_functionAt hd
      · obtain ⟨name, hname, rfl⟩ := Option.map_eq_some_iff.mp hd
        obtain ⟨hbehind, hne⟩ := (hstart.pastInitializers t.size).declaredName hname
        exact ⟨Or.inl rfl, hkind, hbehind, hne, hne, Or.inl rfl⟩

theorem declares_of_declaration {d : Declaration} (hd : t.declaration? i = some d) :
    t.Declares i d := by
  unfold declaration? at hd
  by_cases hfunction : t.kind i = "function_definition"
  · rw [if_pos hfunction] at hd
    exact declares_of_functionAt hd
  · rw [if_neg hfunction] at hd
    cases hk : typeKind? (t.kind i) with
    | some kind =>
      rw [hk] at hd
      exact declares_of_typeAt (mem_declarationContexts_of_typeKind hk) hd
    | none =>
      rw [hk] at hd
      dsimp only at hd
      split_ifs at hd with hscope hfield
      · exact declares_of_scopeAt (by simp [hscope, declarationContexts]) hd
      · exact declares_of_fieldAt (by simp [hfield, declarationContexts]) hd
      · cases hm : t.memberList? i with
        | none => simp [hm] at hd
        | some body =>
          rw [hm] at hd
          exact declares_of_functionAt hd

end Tree
end SourceChunking
