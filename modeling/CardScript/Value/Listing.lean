import CardScript.Text.Search
import CardScript.Value.Basic

/-!
# Values as lists

A list is a text with a delimiter between its items. A delimiter at the very end closes the last
item and starts no new one.
-/

namespace CardScript

/-- The items of a text; an empty text has none. -/
def splitItems (delimiter cs : List Char) : List (List Char) :=
  if cs.isEmpty then []
  else if delimiter.isEmpty then [cs]
  else Text.splitOn delimiter ((Text.dropEnding? delimiter cs).getD cs)

namespace Value

def joined (delimiter : List Char) (items : List Value) : Value :=
  { text := String.ofList (Text.joinWith delimiter (items.map fun v => v.text.toList))
    kind := .list }

def ofItems (items : List Value) : Value :=
  joined [','] items

def ofLines (lines : List Value) : Value :=
  joined ['\n'] lines

def items (v : Value) (delimiter : String) : List Value :=
  (splitItems delimiter.toList v.text.toList).map fun cs => ofText (String.ofList cs)

def lines (v : Value) : List Value :=
  v.items "\n"

def words (v : Value) : List Value :=
  (Text.words v.text.toList).map fun cs => ofText (String.ofList cs)

def concat (v w : Value) : Value :=
  ofText (v.text ++ w.text)

def concatSpaced (v w : Value) : Value :=
  ofText (v.text ++ " " ++ w.text)

end Value

end CardScript
