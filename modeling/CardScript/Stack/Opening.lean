import CardScript.Stack.Basic
import CardScript.Stack.Snapshot

/-!
# Opening a snapshot

Backgrounds get their identifiers first, then cards; whatever lies on one follows it, buttons
before fields. A snapshot opens unless a card names a background or a background field that is not
there.
-/

namespace CardScript

/-- The properties a part starts with. -/
def PartSnapshot.table (p : PartSnapshot) (kind : PartKind) : PropertyTable :=
  let common :=
    (({} : PropertyTable).define "name" (.ofText p.name)).define "visible" (.ofBool true)
  let table := match kind with
    | .button =>
      (((common.define "contents" (.ofText p.text)).define "hilite" (.ofBool false)).define
        "enabled" (.ofBool true)).define "style" (.ofText "roundRect")
    | .field =>
      ((((common.define "text" (.ofText p.text)).define "lockText" (.ofBool false)).define
        "sharedText" (.ofBool p.sharedText)).define "dontWrap" (.ofBool false)).define
        "style" (.ofText "rectangle")
  p.properties.entries.foldl (fun t (name, text) => t.define name (.ofText text)) table

/-- Parts of one kind, with identifiers from `next` on. -/
def openParts (kind : PartKind) (layer : Layer) (owner : PartId) :
    (next : PartId) → List PartSnapshot → List Part
  | _, [] => []
  | next, p :: rest =>
    { id := next, kind, layer, owner, script := p.script, properties := p.table kind } ::
      openParts kind layer owner (next + 1) rest

/-- The buttons and then the fields of an owner, with identifiers after its own. -/
def openLayer (layer : Layer) (owner : PartId) (buttons fields : List PartSnapshot) : List Part :=
  openParts .button layer owner (owner + 1) buttons ++
    openParts .field layer owner (owner + 1 + buttons.length) fields

def BackgroundSnapshot.toBackground (b : BackgroundSnapshot) (id : PartId) : Background :=
  { Background.blank id b.name b.script with
    parts := openLayer .background id b.buttons b.fields }

/-- The number of identifiers a background takes. -/
def BackgroundSnapshot.size (b : BackgroundSnapshot) : Nat :=
  1 + b.buttons.length + b.fields.length

def openBackgrounds : (next : PartId) → List BackgroundSnapshot → List Background
  | _, [] => []
  | next, b :: rest => b.toBackground next :: openBackgrounds (next + b.size) rest

def CardSnapshot.toCard (c : CardSnapshot) (id background : PartId) : Card :=
  { Card.blank id background c.name c.script with
    parts := openLayer .card id c.buttons c.fields }

/-- The number of identifiers a card takes. -/
def CardSnapshot.size (c : CardSnapshot) : Nat :=
  1 + c.buttons.length + c.fields.length

/-- Writes a card's text into the background field of a name. -/
def Background.fill (b : Background) (card : PartId) (name text : String) :
    Except Failure Background :=
  match b.parts.find? fun p => p.kind == .field && Text.sameIgnoringAsciiCase p.name name with
  | some field => do
    let field ← field.setText (some card) (.ofText text)
    return { b with parts := Stack.replacePart field b.parts }
  | none => .error (.noSuchPart s!"background field \"{name}\"")

/-- Writes a card's texts into the fields of its background, in order of name. -/
def Background.fillAll (b : Background) (card : PartId) (texts : List (String × String)) :
    Except Failure Background :=
  texts.foldlM (fun b (name, text) => b.fill card name text) b

/-- Adds a card to a stack under construction. -/
def Stack.addCard (s : Stack) (backgrounds : List PartId) (c : CardSnapshot) :
    Except Failure Stack :=
  match backgrounds[c.background]? with
  | none => .error (.semantic (.missingBackground c.name c.background))
  | some background => do
    let id := s.nextId
    let s := { s with nextId := id + c.size, cards := s.cards ++ [c.toCard id background] }
    match s.background? background with
    | some b => return s.withBackground (← b.fillAll id c.backgroundText.entries)
    | none => return s

/-- The usual list, if none is given. -/
def orUsual {α : Type} (usual : α) (list : List α) : List α :=
  if list.isEmpty then [usual] else list

/-- The stack of a snapshot, its first card current. -/
def StackSnapshot.toStack (s : StackSnapshot) : Except Failure Stack := do
  let first : PartId := 100
  let backgrounds := orUsual {} s.backgrounds
  let cards := orUsual {} s.cards
  let opened := openBackgrounds first backgrounds
  let empty : Stack :=
    { script := s.script
      properties := ((({} : PropertyTable).define "name" (.ofText s.name)).define "cantModify"
        (.ofBool false)).define "userLevel" (.ofInt 5)
      nextId := backgrounds.foldl (fun next b => next + b.size) first
      backgrounds := opened }
  let stack ← cards.foldlM (fun s c => s.addCard (opened.map (·.id)) c) empty
  return { stack with currentCard := (stack.cards.head?.map (·.id)).getD 0 }

end CardScript
