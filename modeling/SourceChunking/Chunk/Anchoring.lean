import SourceChunking.Text.Basic

/-! # Anchoring pieces in a text

Pieces of a text that lost blanks at their ends are found again in it, from left to
right. The text is then cut where pieces begin, so that the sections between the
cuts make up the whole text.
-/
namespace SourceChunking

/-- Where pieces start in a text of which the part from `position` on is given.
Empty pieces and pieces that are not found are passed over. -/
def anchorsFrom (t : Text) (position : Nat) : List Text → List Nat
  | [] => []
  | p :: rest =>
    if p.isEmpty then anchorsFrom t position rest
    else match Text.offset? p t with
      | none => anchorsFrom t position rest
      | some distance =>
        (position + distance) ::
          anchorsFrom (t.drop (distance + p.length)) (position + distance + p.length) rest

def anchors (t : Text) (pieces : List Text) : List Nat := anchorsFrom t 0 pieces

structure Section where
  content : Text
  startLine : Nat
  endLine : Nat
deriving Repr, DecidableEq

namespace Section

def whole (t : Text) : Section := ⟨t, 1, Text.countLines t⟩

def ofStretch (startLine : Nat) (t : Text) : Section :=
  let content := Text.dropFinalNewline t
  ⟨content, startLine, startLine + Text.newlines content⟩

/-- One section up to each of the cuts and one up to the end, for a text of which the
part from `position` on is given, and the line on which that part starts. -/
def sectionsFrom (t : Text) (position line : Nat) : List Nat → List Section
  | [] => [ofStretch line t]
  | cut :: rest =>
    let stretch := t.take (cut - position)
    ofStretch line stretch ::
      sectionsFrom (t.drop (cut - position)) cut (line + Text.newlines stretch) rest

/-- The sections of a text whose pieces are given. The first one starts at the
beginning, wherever its piece was found. -/
def ofPieces (t : Text) (pieces : List Text) : Option (List Section) :=
  match anchors t pieces with
  | [] => none
  | _ :: cuts => some (sectionsFrom t 0 1 cuts)

end Section
end SourceChunking
