import CardScript.Text.Lowercase

/-!
# Symbols

Names of variables, handlers and properties. A symbol keeps the spelling the script used and is
the same symbol in any letter case.
-/

namespace CardScript

structure Symbol where
  spelling : String
deriving Repr, DecidableEq, Inhabited

namespace Symbol

/-- The lower-cased spelling, by which symbols are told apart. -/
def key (s : Symbol) : String :=
  Text.lowerString s.spelling

def sameAs (s t : Symbol) : Bool :=
  s.key == t.key

/-- `name`, in any letter case, spells this symbol. -/
def isNamed (s : Symbol) (name : String) : Bool :=
  s.key == Text.lowerString name

end Symbol

end CardScript
