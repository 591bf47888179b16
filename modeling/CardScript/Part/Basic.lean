/-!
# Parts

What a stack is made of: buttons and fields on the layers of cards and backgrounds.
-/

namespace CardScript

inductive PartType where
  | button
  | field
  | card
  | background
  | stack
deriving Repr, DecidableEq, Inhabited

/-- A button or a field. -/
inductive PartKind where
  | button
  | field
deriving Repr, DecidableEq, Inhabited

/-- Where a button or field lies. -/
inductive Layer where
  | card
  | background
deriving Repr, DecidableEq, Inhabited

/-- A place relative to the current card. -/
inductive Position where
  | next
  | prev
  | this
deriving Repr, DecidableEq, Inhabited

namespace PartType

def name : PartType → String
  | button => "button"
  | field => "field"
  | card => "card"
  | background => "background"
  | stack => "stack"

def kind? : PartType → Option PartKind
  | button => some .button
  | field => some .field
  | _ => none

/-- The layer meant when none is named: buttons lie on the card, fields on the background. -/
def usualLayer : PartType → Layer
  | field | background => .background
  | _ => .card

end PartType

def PartKind.type : PartKind → PartType
  | .button => .button
  | .field => .field

def PartKind.name (k : PartKind) : String :=
  k.type.name

def Layer.name : Layer → String
  | .card => "card"
  | .background => "background"

/-- The layer as a word of a script. -/
def Layer.word : Layer → String
  | .card => "card"
  | .background => "bkgnd"

def Position.name : Position → String
  | .next => "next"
  | .prev => "prev"
  | .this => "this"

end CardScript
