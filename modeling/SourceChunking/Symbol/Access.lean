import SourceChunking.Log.Record
import SourceChunking.Symbol.Basic
import SourceChunking.Tree.Navigation

/-! # Access levels

The level of a member is the one in effect at its item of the class body. The
levels of a body are worked out once, from its first item to its last, and kept for
the rest of the extraction, so what is odd about a body is reported once.
-/
namespace SourceChunking

abbrev ItemLevels := List (Nat × Access)

abbrev AccessCache := List (Nat × ItemLevels)

namespace Tree

/-- The nearest class body around a node, unless a function body comes first. -/
def memberList? (t : Tree) (i : Nat) : Option Nat :=
  match (t.ancestors i).find? fun a =>
      t.kind a == "field_declaration_list" || t.kind a == "compound_statement" with
  | some a => if t.kind a = "field_declaration_list" then some a else none
  | none => none

def initialAccess (t : Tree) (body : Nat) : Access :=
  match t.parent? body with
  | some owner => if t.kind owner = "class_specifier" then .privateMember else .publicMember
  | none => .publicMember

def specifierWord (t : Tree) (i : Nat) : Text := Text.trim ((t.text i).takeWhile (· != ':'))

def itemLevelsFrom (t : Tree) : Access → List Nat → Logged ItemLevels
  | _, [] => pure []
  | current, i :: rest =>
    if t.kind i = "access_specifier" then
      match Access.ofText? (t.specifierWord i) with
      | some level => itemLevelsFrom t level rest
      | none => do
        Logged.debug "codechunker.parsers.cpp_extractor"
          ("Unknown access specifier: " ++ Text.quoted (t.specifierWord i)) []
        itemLevelsFrom t current rest
    else do
      let levels ← itemLevelsFrom t current rest
      pure ((i, current) :: levels)

def itemLevels (t : Tree) (body : Nat) : Logged ItemLevels :=
  t.itemLevelsFrom (t.initialAccess body) (t.children body)

def itemHolding? (t : Tree) (body i : Nat) : Option Nat :=
  (i :: t.ancestors i).find? fun a => t.parent? a == some body

/-- The levels of a member list, from the cache or worked out and kept. -/
def cachedLevels (t : Tree) (cache : AccessCache) (body : Nat) :
    Logged (ItemLevels × AccessCache) :=
  match cache.lookup body with
  | some levels => pure (levels, cache)
  | none => do
    let levels ← t.itemLevels body
    pure (levels, (body, levels) :: cache)

def accessOf (t : Tree) (cache : AccessCache) (i : Nat) (body : Option Nat) :
    Logged (Option Access × AccessCache) :=
  match body with
  | none => pure (none, cache)
  | some body => do
    let (levels, cache) ← t.cachedLevels cache body
    pure ((t.itemHolding? body i).bind fun item => levels.lookup item, cache)

end Tree
end SourceChunking
