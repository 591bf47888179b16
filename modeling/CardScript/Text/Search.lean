/-!
# Searching and splitting

A text and the pieces it is made of. A delimiter is matched from the left, and matches do not
overlap.
-/

namespace CardScript.Text

/-- The text left after `pattern`, if `cs` starts with it. -/
def dropPattern? : (pattern cs : List Char) → Option (List Char)
  | [], cs => some cs
  | _ :: _, [] => none
  | p :: ps, c :: cs => if p == c then dropPattern? ps cs else none

/-- The pieces of `cs` between occurrences of the delimiter `d :: ds`. `skip` counts the
characters of a delimiter still to be passed over, and `piece` is the piece being read, reversed. -/
def splitFrom (d : Char) (ds : List Char) : Nat → List Char → List Char → List (List Char)
  | _, piece, [] => [piece.reverse]
  | skip + 1, piece, _ :: cs => splitFrom d ds skip piece cs
  | 0, piece, c :: cs =>
    if (d :: ds).isPrefixOf (c :: cs) then piece.reverse :: splitFrom d ds ds.length [] cs
    else splitFrom d ds 0 (c :: piece) cs

/-- The pieces of a text between occurrences of a delimiter; with no delimiter, the whole text. -/
def splitOn : (delimiter cs : List Char) → List (List Char)
  | [], cs => [cs]
  | d :: ds, cs => splitFrom d ds 0 [] cs

/-- The pieces joined by a delimiter. -/
def joinWith (delimiter : List Char) : List (List Char) → List Char
  | [] => []
  | [piece] => piece
  | piece :: next :: rest => piece ++ delimiter ++ joinWith delimiter (next :: rest)

/-- The list without `suffix` at its end, if it is there. -/
def dropEnding? (suffix cs : List Char) : Option (List Char) :=
  if suffix.isSuffixOf cs then some (cs.take (cs.length - suffix.length)) else none

end CardScript.Text
