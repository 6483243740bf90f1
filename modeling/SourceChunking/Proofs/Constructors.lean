import SourceChunking.Proofs.Building
import SourceChunking.Proofs.Descent

/-! # Constructors defined outside their class

Outside of class bodies a function is taken for a constructor if its name is the last part of its
qualifier. The qualifier is a text by then: the scopes in front of the name, joined by double colons.
Its last part starts behind the last double colon and ends before the first angle bracket behind it.
This is the simple name of the innermost scope, unless the template arguments of that scope hold a
double colon themselves. Then the last part starts inside the arguments.
-/
namespace SourceChunking

/-! ## The last part of a qualifier -/

namespace Text
variable {mark x y z : Text}

theorem afterLast?_eq_none {t : Text} (h : ¬mark <:+: t) : afterLast? mark t = none := by
  induction t with
  | nil => rfl
  | cons c rest ih =>
    have hrest : ¬mark <:+: rest := fun hin => h (List.infix_cons hin)
    have hhere : mark.isPrefixOf (c :: rest) = false := by
      rw [Bool.eq_false_iff, ne_eq, List.isPrefixOf_iff_prefix]
      exact fun hpre => h hpre.isInfix
    rw [afterLast?, ih hrest]
    simp [hhere]

theorem afterLast?_append (h : afterLast? mark y = some z) : afterLast? mark (x ++ y) = some z := by
  induction x with
  | nil => exact h
  | cons c x ih => rw [List.cons_append, afterLast?, ih]

/-- An occurrence of the mark is the last one if there is none from its second character on. -/
theorem afterLast?_mark {c : CodePoint} (h : ¬c :: mark <:+: mark ++ z) :
    afterLast? (c :: mark) (x ++ (c :: mark ++ z)) = some z := by
  apply afterLast?_append
  have hpre : (c :: mark).isPrefixOf (c :: (mark ++ z)) = true := by
    rw [List.isPrefixOf_iff_prefix]
    exact ⟨z, rfl⟩
  rw [List.cons_append, afterLast?, afterLast?_eq_none h]
  simp [hpre]

theorem infix_of_infix_append {c : CodePoint} (h : c :: mark <:+: x ++ y) (hx : c ∉ x) :
    c :: mark <:+: y := by
  induction x with
  | nil => exact h
  | cons d x ih =>
    rcases List.infix_cons_iff.mp h with ⟨rest, hpre⟩ | hin
    · have he : c = d := (List.cons.inj hpre).1
      exact absurd (he ▸ List.mem_cons_self) hx
    · exact ih hin fun hm => hx (List.mem_cons_of_mem d hm)

theorem exists_front_intercalate (mark : Text) (qs : List Text) (q : Text) :
    ∃ front, mark.intercalate (qs ++ [q]) = front ++ q ∧ (front = [] ∨ ∃ x, front = x ++ mark) := by
  induction qs with
  | nil => exact ⟨[], by simp, Or.inl rfl⟩
  | cons p qs ih =>
    obtain ⟨front, he, hfront⟩ := ih
    refine ⟨p ++ mark ++ front, ?_, Or.inr ?_⟩
    · cases qs with
      | nil => simpa [List.intercalate_cons_cons] using he
      | cons p' qs =>
        rw [List.cons_append, List.cons_append, List.intercalate_cons_cons, ← List.cons_append, he]
        simp
    · rcases hfront with rfl | ⟨x, rfl⟩
      · exact ⟨p, by simp⟩
      · exact ⟨p ++ mark ++ x, by simp⟩

end Text

namespace Tree
variable {t : Tree}

theorem lastQualifier_of_mark (qs : List Text) {before behind : Text}
    (h : ¬scopeMark <:+: .scalar ':' :: behind) :
    lastQualifier (scopeMark.intercalate (qs ++ [before ++ scopeMark ++ behind])) =
      behind.takeWhile (· != .scalar '<') := by
  obtain ⟨front, he, _⟩ :=
    Text.exists_front_intercalate scopeMark qs (before ++ scopeMark ++ behind)
  have hlast : Text.afterLast? scopeMark (front ++ (before ++ scopeMark ++ behind)) =
      some behind := by
    rw [List.append_assoc, ← List.append_assoc]
    exact Text.afterLast?_mark h
  rw [lastQualifier, he, hlast]
  rfl

theorem lastQualifier_of_no_mark (qs : List Text) {q : Text} (h : ¬scopeMark <:+: q)
    (hhead : q.head? ≠ some (.scalar ':')) :
    lastQualifier (scopeMark.intercalate (qs ++ [q])) = q.takeWhile (· != .scalar '<') := by
  obtain ⟨front, he, rfl | ⟨x, rfl⟩⟩ := Text.exists_front_intercalate scopeMark qs q
  · rw [lastQualifier, he, List.nil_append, Text.afterLast?_eq_none h]
    rfl
  · have hbehind : ¬scopeMark <:+: .scalar ':' :: q := by
      intro hin
      rcases List.infix_cons_iff.mp hin with ⟨rest, hpre⟩ | hin
      · rw [← (List.cons.inj hpre).2] at hhead
        exact hhead rfl
      · exact h hin
    rw [lastQualifier, he, List.append_assoc, Text.afterLast?_mark hbehind]
    rfl

/-- A function with scopes in front of its name is a constructor if it is named like the last part of
the qualifier; without a text in the scopes there is nothing to be named like. -/
theorem functionKind_eq_constructor {name : ResolvedName} (hne : name.text t ≠ []) :
    t.functionKind name none = .constructor ↔
      name.text t = lastQualifier (scopeMark.intercalate name.qualifiers) := by
  unfold functionKind ResolvedName.qualifier?
  dsimp only
  by_cases hempty : (scopeMark.intercalate name.qualifiers).isEmpty = true
  · rw [if_pos hempty, List.isEmpty_iff.mp hempty]
    simpa [lastQualifier, Text.afterLast?] using hne
  · rw [if_neg hempty]
    simp

/-! ## Chains of qualified names -/

/-- Going down from one qualified name to the next leads to the last one. -/
inductive InnermostQualified (t : Tree) : Nat → Nat → Prop
  | last {q : Nat} (hq : t.kind q = "qualified_identifier")
      (hlast : ∀ n ∈ t.childByField q "name", t.kind n ≠ "qualified_identifier") :
      InnermostQualified t q q
  | next {q n r : Nat} (hq : t.kind q = "qualified_identifier")
      (hname : t.childByField q "name" = some n) (hn : InnermostQualified t n r) :
      InnermostQualified t q r

theorem pastQualifiers_of_last (steps : Nat) {n : Option Nat} (qualifiers : List Text)
    (h : ∀ i ∈ n, t.kind i ≠ "qualified_identifier") :
    t.pastQualifiers steps n qualifiers = (n, qualifiers) := by
  cases steps with
  | zero => rfl
  | succ steps =>
    cases n with
    | none => rfl
    | some i => rw [pastQualifiers, if_neg (h i rfl)]

/-- The scopes of all qualified names are collected, that of the innermost one last. -/
theorem InnermostQualified.pastQualifiers (hr : t.Rooted) {q r scope : Nat}
    (h : t.InnermostQualified q r) (hscope : t.childByField r "scope" = some scope)
    (hq : q < t.size) {steps : Nat} (hsteps : t.size ≤ steps + q) (qualifiers : List Text) :
    ∃ scopes, t.pastQualifiers steps (some q) qualifiers =
      (t.childByField r "name", scopes ++ [t.text scope]) := by
  induction h generalizing steps qualifiers with
  | last hkind hlast =>
    obtain ⟨steps, rfl⟩ : ∃ n, steps = n + 1 := ⟨steps - 1, by omega⟩
    rw [Tree.pastQualifiers, if_pos hkind, hscope, pastQualifiers_of_last steps _ hlast]
    exact ⟨qualifiers, rfl⟩
  | next hkind hname _ ih =>
    obtain ⟨steps, rfl⟩ : ∃ n, steps = n + 1 := ⟨steps - 1, by omega⟩
    obtain ⟨hlt, hsize⟩ := hr.lt_of_mem_children (mem_children_of_childByField hname)
    rw [Tree.pastQualifiers, if_pos hkind, hname]
    exact ih hscope hsize (by omega) _

/-- A function definition outside of class bodies whose name is qualified; `r` is the innermost of its
qualified names. -/
structure QualifiedFunction (t : Tree) (i r : Nat) : Prop where
  kind : t.kind i = "function_definition"
  outside : t.memberList? i = none
  named : ∃ d q, (t.unwrapDeclarator (t.childByField i "declarator")).1 = some d ∧
    t.kind d = "function_declarator" ∧ t.childByField d "declarator" = some q ∧
    t.InnermostQualified q r

def qualifiedName? (t : Tree) (r : Nat) : Option Nat :=
  (t.pastTemplate (t.childByField r "name")).filter fun n =>
    nameKinds.contains (t.kind n) && !(t.text n).isEmpty

theorem QualifiedFunction.declaration (hr : t.Rooted) {i r scope : Nat}
    (h : t.QualifiedFunction i r) (hscope : t.childByField r "scope" = some scope) :
    ∃ d scopes, t.declaration? i = (t.qualifiedName? r).map fun n =>
      .function d ⟨n, scopes ++ [t.text scope]⟩ := by
  obtain ⟨d, q, hd, hkind, hq, hinner⟩ := h.named
  obtain ⟨_, hsize⟩ := hr.lt_of_mem_children (mem_children_of_childByField hq)
  have henough : t.size ≤ t.size + q := Nat.le_add_right t.size q
  obtain ⟨scopes, hpast⟩ := hinner.pastQualifiers hr hscope hsize henough []
  refine ⟨d, scopes, ?_⟩
  rw [declaration?, if_pos h.kind, functionAt?, hd]
  dsimp only
  rw [if_pos hkind, hq, declaredName?, resolveName, hpast, qualifiedName?]
  dsimp only
  cases t.pastTemplate (t.childByField r "name") with
  | none => rfl
  | some n =>
    by_cases hname : t.kind n ∈ nameKinds
    · cases htext : (t.text n).isEmpty <;> simp [Option.filter, ResolvedName.text, hname, htext]
    · simp [Option.filter, hname]

def scopeName? (t : Tree) (scope : Nat) : Option Text :=
  if nameKinds.contains (t.kind scope) then some (t.text scope)
  else if t.kind scope = "template_type" then (t.childByField scope "name").map t.text
  else none

end Tree

namespace Extraction
variable {x : Extraction} {cache : AccessCache} {i : Nat} {s : Symbol}

theorem build_eq_some :
    (x.build cache i).value.1 = .ok (some s) ↔ x.built cache i = some s := by
  unfold built
  rcases (x.build cache i).value.1 with e | found
  · simp [Except.toOption]
  · cases found <;> simp [Except.toOption]

theorem kind_of_build {t : Tree} (hx : x.tree = t) (hr : t.Rooted) {r scope : Nat}
    (h : t.QualifiedFunction i r) (hscope : t.childByField r "scope" = some scope)
    (hs : (x.build cache i).value.1 = .ok (some s)) :
    ∃ scopes, s.kind = .constructor ↔
      s.name = Tree.lastQualifier (scopeMark.intercalate (scopes ++ [t.text scope])) := by
  subst hx
  obtain ⟨d, hd, rfl, _⟩ := built_eq_some.mp (build_eq_some.mp hs)
  obtain ⟨declarator, scopes, he⟩ := h.declaration hr hscope
  rw [hd] at he
  obtain ⟨n, hn, rfl⟩ := Option.map_eq_some_iff.mp he.symm
  refine ⟨scopes, ?_⟩
  have hname : (ResolvedName.mk n (scopes ++ [x.tree.text scope])).text x.tree ≠ [] := by
    have := (Option.filter_eq_some_iff.mp hn).2
    simp only [Bool.and_eq_true, Bool.not_eq_true', List.isEmpty_eq_false_iff] at this
    exact this.2
  change x.tree.functionKind _ (x.tree.memberList? i) = .constructor ↔ _
  rw [h.outside]
  exact Tree.functionKind_eq_constructor hname

end Extraction

/-- A function with a qualified name that is defined outside of class bodies becomes a symbol under its
simple name. It is a constructor exactly if this is the simple name of its innermost scope, provided
that the scope is written as its name with or without template arguments, and that these hold no double
colon. Behind the last double colon of the scope, if there is one, another name is compared: what comes
before the next angle bracket. -/
theorem build_constructor_iff (x : Extraction) (cache : AccessCache) (hr : x.tree.Rooted)
    {i r scope : Nat} (h : x.tree.QualifiedFunction i r)
    (hscope : x.tree.childByField r "scope" = some scope) :
    (∀ n, x.tree.qualifiedName? r = some n → (x.tree.rangeOf i).Valid →
      x.plan.kind "function_definition" = none →
      ∃ s, (x.build cache i).value.1 = .ok (some s) ∧ s.name = x.tree.text n) ∧
    ∀ s, (x.build cache i).value.1 = .ok (some s) →
      (∀ simple arguments, x.tree.scopeName? scope = some simple →
        x.tree.text scope = simple ++ arguments → .scalar ':' ∉ simple ∧ .scalar '<' ∉ simple →
        (arguments = [] ∨ arguments.head? = some (.scalar '<')) → ¬scopeMark <:+: arguments →
        (s.kind = .constructor ↔ s.name = simple)) ∧
      (¬scopeMark <:+: x.tree.text scope → (x.tree.text scope).head? ≠ some (.scalar ':') →
        (s.kind = .constructor ↔ s.name = (x.tree.text scope).takeWhile (· != .scalar '<'))) ∧
      ∀ before behind, x.tree.text scope = before ++ scopeMark ++ behind →
        ¬scopeMark <:+: .scalar ':' :: behind →
        (s.kind = .constructor ↔ s.name = behind.takeWhile (· != .scalar '<')) := by
  constructor
  · intro n hn hrange hplan
    obtain ⟨d, scopes, hd⟩ := h.declaration hr hscope
    rw [hn] at hd
    refine ⟨_, Extraction.build_eq_some.mpr
      (Extraction.built_eq_some.mpr ⟨_, hd, rfl, hrange, ?_⟩), rfl⟩
    rw [h.kind]
    exact hplan
  · intro s hs
    obtain ⟨scopes, hkind⟩ := Extraction.kind_of_build rfl hr h hscope hs
    have hplain : ¬scopeMark <:+: x.tree.text scope → (x.tree.text scope).head? ≠ some (.scalar ':') →
        (s.kind = .constructor ↔ s.name = (x.tree.text scope).takeWhile (· != .scalar '<')) := by
      intro hmark hhead
      rw [hkind, Tree.lastQualifier_of_no_mark scopes hmark hhead]
    refine ⟨?_, hplain, ?_⟩
    · rintro simple arguments - htext ⟨hcolon, hangle⟩ hopen hmark
      have hhead : (simple ++ arguments).head? ≠ some (.scalar ':') := by
        cases simple with
        | nil => rcases hopen with rfl | hopen <;> simp_all
        | cons c simple => simpa using fun he : c = .scalar ':' => hcolon (he ▸ List.mem_cons_self)
      have hname : (simple ++ arguments).takeWhile (· != .scalar '<') = simple := by
        have hsimple : ∀ c ∈ simple, (c != .scalar '<') = true := by
          intro c hc
          simpa using fun he : c = .scalar '<' => hangle (he ▸ hc)
        rw [List.takeWhile_append_of_pos hsimple]
        rcases hopen with rfl | hopen
        · simp
        · obtain ⟨rest, rfl⟩ := List.head?_eq_some_iff.mp hopen
          simp
      rw [htext, hname] at hplain
      exact hplain (fun hin => hmark (Text.infix_of_infix_append hin hcolon)) hhead
    · intro before behind htext hlast
      rw [hkind, htext, Tree.lastQualifier_of_mark scopes hlast]

/-- A constructor of a class template in a namespace. -/
def nestedScopeTree : Tree := Tree.ofRows (Text.encode "N::F<i>::F(){}")
  [⟨none, "translation_unit", none, true, 0, 14, none⟩,
    ⟨some 0, "function_definition", none, true, 0, 14, none⟩,
    ⟨some 1, "function_declarator", some "declarator", true, 0, 12, none⟩,
    ⟨some 2, "qualified_identifier", some "declarator", true, 0, 10, none⟩,
    ⟨some 3, "namespace_identifier", some "scope", true, 0, 1, none⟩,
    ⟨some 3, "qualified_identifier", some "name", true, 3, 10, none⟩,
    ⟨some 5, "template_type", some "scope", true, 3, 7, none⟩,
    ⟨some 6, "type_identifier", some "name", true, 3, 4, none⟩,
    ⟨some 6, "template_argument_list", some "arguments", true, 4, 7, none⟩,
    ⟨some 5, "identifier", some "name", true, 9, 10, none⟩,
    ⟨some 2, "parameter_list", some "parameters", true, 10, 12, none⟩,
    ⟨some 1, "compound_statement", some "body", true, 12, 14, none⟩]

/-- A constructor of a class template whose argument is a qualified name. -/
def qualifiedArgumentTree : Tree := Tree.ofRows (Text.encode "Foo<a::b>::Foo(){}")
  [⟨none, "translation_unit", none, true, 0, 18, none⟩,
    ⟨some 0, "function_definition", none, true, 0, 18, none⟩,
    ⟨some 1, "function_declarator", some "declarator", true, 0, 16, none⟩,
    ⟨some 2, "qualified_identifier", some "declarator", true, 0, 14, none⟩,
    ⟨some 3, "template_type", some "scope", true, 0, 9, none⟩,
    ⟨some 4, "type_identifier", some "name", true, 0, 3, none⟩,
    ⟨some 4, "template_argument_list", some "arguments", true, 3, 9, none⟩,
    ⟨some 6, "<", none, false, 3, 4, none⟩,
    ⟨some 6, "type_descriptor", none, true, 4, 8, none⟩,
    ⟨some 8, "qualified_identifier", some "type", true, 4, 8, none⟩,
    ⟨some 9, "namespace_identifier", some "scope", true, 4, 5, none⟩,
    ⟨some 9, "::", none, false, 5, 7, none⟩,
    ⟨some 9, "type_identifier", some "name", true, 7, 8, none⟩,
    ⟨some 6, ">", none, false, 8, 9, none⟩,
    ⟨some 3, "::", none, false, 9, 11, none⟩,
    ⟨some 3, "identifier", some "name", true, 11, 14, none⟩,
    ⟨some 2, "parameter_list", some "parameters", true, 14, 16, none⟩,
    ⟨some 16, "(", none, false, 14, 15, none⟩,
    ⟨some 16, ")", none, false, 15, 16, none⟩,
    ⟨some 1, "compound_statement", some "body", true, 16, 18, none⟩,
    ⟨some 19, "\x7b", none, false, 16, 17, none⟩,
    ⟨some 19, "\x7d", none, false, 17, 18, none⟩]

theorem qualifiedFunction_nestedScopeTree : nestedScopeTree.QualifiedFunction 1 5 where
  kind := by decide
  outside := by decide
  named := ⟨2, 3, by decide, by decide, by decide,
    .next (by decide) (show _ = some 5 by decide) (.last (by decide) (by decide))⟩

theorem qualifiedFunction_qualifiedArgumentTree :
    qualifiedArgumentTree.QualifiedFunction 1 3 where
  kind := by decide
  outside := by decide
  named := ⟨2, 3, by decide, by decide, by decide, .last (by decide) (by decide)⟩

/-- The function is named like the class that it is defined for, and yet no constructor. -/
theorem qualifiedArgumentTree_constructor_missed :
    qualifiedArgumentTree.Rooted ∧ qualifiedArgumentTree.QualifiedFunction 1 3 ∧
    qualifiedArgumentTree.childByField 3 "scope" = some 4 ∧
    qualifiedArgumentTree.scopeName? 4 = some (Text.ofString "Foo") ∧
    ((extract qualifiedArgumentTree 0).value.map fun s => (s.name, s.kind)) =
      [(Text.ofString "Foo", .function)] :=
  ⟨by decide, qualifiedFunction_qualifiedArgumentTree, by decide, by decide, by decide⟩

theorem nestedScopeTree_constructor :
    nestedScopeTree.Rooted ∧ nestedScopeTree.QualifiedFunction 1 5 ∧
    (∃ s, ((Extraction.mk .none nestedScopeTree nestedScopeTree.lines []).build [] 1).value.1 =
      .ok (some s) ∧ s.name = ['F'] ∧ s.kind = .constructor) ∧
    ∃ s, ((Extraction.mk .none qualifiedArgumentTree qualifiedArgumentTree.lines []).build
      [] 1).value.1 = .ok (some s) ∧ s.name = Text.ofString "Foo" ∧ s.kind ≠ .constructor := by
  have hr : nestedScopeTree.Rooted := by decide
  have hr' : qualifiedArgumentTree.Rooted := by decide
  obtain ⟨hbuilds, hkind⟩ := build_constructor_iff
    (Extraction.mk .none nestedScopeTree nestedScopeTree.lines []) [] hr
    qualifiedFunction_nestedScopeTree (show _ = some 6 by decide)
  obtain ⟨hbuilds', hkind'⟩ := build_constructor_iff
    (Extraction.mk .none qualifiedArgumentTree qualifiedArgumentTree.lines []) [] hr'
    qualifiedFunction_qualifiedArgumentTree (show _ = some 4 by decide)
  obtain ⟨s, hs, hname⟩ := hbuilds 9 (by decide) (by decide) rfl
  obtain ⟨s', hs', hname'⟩ := hbuilds' 15 (by decide) (by decide) rfl
  refine ⟨hr, qualifiedFunction_nestedScopeTree, ⟨s, hs, hname, ?_⟩, s', hs', hname', ?_⟩
  · refine ((hkind s hs).1 ['F'] "<i>" (by decide) (by decide) (by decide) (by decide)
      (by decide)).mpr hname
  · rw [ne_eq, (hkind' s' hs').2.2 "Foo<a" "b>" (by decide) (by decide), hname']
    decide

end SourceChunking
