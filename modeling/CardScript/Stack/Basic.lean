import CardScript.Part.Basic
import CardScript.Stack.PropertyTable
import CardScript.Syntax.Basic

/-!
# Stacks

A stack is a row of cards, each on one of the stack's backgrounds. Cards, backgrounds and the
buttons and fields on them carry identifiers that are never used twice. One card is the current
one.
-/

namespace CardScript

abbrev PartId := Nat

/-- A button or field. -/
structure Part where
  id : PartId
  kind : PartKind
  layer : Layer
  /-- The card or background it lies on. -/
  owner : PartId
  script : Script := {}
  properties : PropertyTable := {}
  /-- What a background field holds on each card. -/
  cardTexts : List (PartId × Value) := []
deriving Inhabited

namespace Part

def name (p : Part) : String :=
  p.properties.textOf "name"

/-- The property that holds the text of a part. -/
def contentsProperty (kind : PartKind) : String :=
  match kind with
  | .button => "contents"
  | .field => "text"

/-- A background field holds a text for each card, unless its text is shared. -/
def isPerCard (p : Part) : Bool :=
  p.kind == .field && p.layer == .background && !p.properties.flag "sharedtext"

/-- What the part holds, as seen from a card. -/
def text (p : Part) (card : Option PartId) : Except Failure Value :=
  match card with
  | some card =>
    if p.isPerCard then .ok (((p.cardTexts.find? (·.1 == card)).map (·.2)).getD .empty)
    else p.properties.get (contentsProperty p.kind)
  | none => p.properties.get (contentsProperty p.kind)

/-- Replaces the text for a card, or adds one. -/
def putCardText (card : PartId) (value : Value) : List (PartId × Value) → List (PartId × Value)
  | [] => [(card, value)]
  | (c, v) :: rest =>
    if c == card then (c, value) :: rest else (c, v) :: putCardText card value rest

/-- The text for one card can always be changed, and a shared one as its property can. -/
def checkText (p : Part) (card : Option PartId) : Except Failure Unit :=
  if card.isSome && p.isPerCard then .ok ()
  else p.properties.checkSet (contentsProperty p.kind)

/-- The part with another text, as seen from a card. -/
def putText (p : Part) (card : Option PartId) (value : Value) : Part :=
  match card with
  | some card =>
    if p.isPerCard then { p with cardTexts := putCardText card value p.cardTexts }
    else { p with properties := p.properties.define (contentsProperty p.kind) value }
  | none => { p with properties := p.properties.define (contentsProperty p.kind) value }

/-- The part when what it holds, as seen from a card, has been changed. -/
def setText (p : Part) (card : Option PartId) (value : Value) : Except Failure Part := do
  p.checkText card
  return p.putText card value

end Part

structure Card where
  id : PartId
  /-- The background the card lies on. -/
  background : PartId
  script : Script := {}
  properties : PropertyTable := {}
  parts : List Part := []
deriving Inhabited

namespace Card

def name (c : Card) : String :=
  c.properties.textOf "name"

/-- A card without parts. -/
def blank (id background : PartId) (name : String) (script : Script) : Card where
  id := id
  background := background
  script := script
  properties := (((({} : PropertyTable).define "name" (.ofText name)).define "marked"
    (.ofBool false)).define "dontSearch" (.ofBool false))

end Card

structure Background where
  id : PartId
  script : Script := {}
  properties : PropertyTable := {}
  parts : List Part := []
deriving Inhabited

namespace Background

def name (b : Background) : String :=
  b.properties.textOf "name"

/-- A background without parts. -/
def blank (id : PartId) (name : String) (script : Script) : Background where
  id := id
  script := script
  properties := (({} : PropertyTable).define "name" (.ofText name)).define "dontSearch"
    (.ofBool false)

end Background

structure Stack where
  script : Script := {}
  properties : PropertyTable := {}
  /-- The next identifier to be given out. -/
  nextId : PartId := 100
  cards : List Card := []
  backgrounds : List Background := []
  currentCard : PartId := 0
deriving Inhabited

namespace Stack

def name (s : Stack) : String :=
  s.properties.textOf "name"

def card? (s : Stack) (id : PartId) : Option Card :=
  s.cards.find? (·.id == id)

def cardIndex? (s : Stack) (id : PartId) : Option Nat :=
  s.cards.findIdx? (·.id == id)

def background? (s : Stack) (id : PartId) : Option Background :=
  s.backgrounds.find? (·.id == id)

/-- Of all buttons and fields, those on cards first. -/
def allParts (s : Stack) : List Part :=
  s.cards.flatMap (·.parts) ++ s.backgrounds.flatMap (·.parts)

def part? (s : Stack) (id : PartId) : Option Part :=
  s.allParts.find? (·.id == id)

/-- Identifiers in order of first occurrence. -/
def firstOccurrences : List PartId → List PartId
  | [] => []
  | id :: rest => id :: (firstOccurrences rest).filter (· != id)

/-- Backgrounds in the order of the first card on each. -/
def backgroundsInOrder (s : Stack) : List Background :=
  (firstOccurrences (s.cards.map (·.background))).filterMap s.background?

def cardsOf (s : Stack) (background : PartId) : List Card :=
  s.cards.filter (·.background == background)

/-- Changes the part with an identifier. -/
def replacePart (p : Part) (parts : List Part) : List Part :=
  parts.map fun q => if q.id == p.id then p else q

/-- The stack with a part in place of the one with its identifier. -/
def withPart (s : Stack) (p : Part) : Stack :=
  { s with
    cards := s.cards.map fun c => { c with parts := replacePart p c.parts }
    backgrounds := s.backgrounds.map fun b => { b with parts := replacePart p b.parts } }

def withCard (s : Stack) (card : Card) : Stack :=
  { s with cards := s.cards.map fun c => if c.id == card.id then card else c }

def withBackground (s : Stack) (background : Background) : Stack :=
  { s with
    backgrounds := s.backgrounds.map fun b => if b.id == background.id then background else b }

/-- The stack as shown to someone looking for an error. -/
def inspect (s : Stack) : String :=
  let name := Text.quoted s.name
  s!"StackDocument \x7b name: {name}, cards: {s.cards.length} \x7d"

end Stack

end CardScript
