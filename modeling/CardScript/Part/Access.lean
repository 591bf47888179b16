import CardScript.Editing
import CardScript.Part.Specifier
import CardScript.Stack.Basic

/-!
# Reading and changing found parts

Properties, contents and scripts of a component of a stack, and the next component on the way a
message takes. A component that has been removed since it was found is no part any more.
-/

namespace CardScript.Stack

/-- The failure of a component that is gone. -/
def gone (r : PartRef) : Failure :=
  .noSuchPart r.idForm

def tableOf? (s : Stack) : PartRef → Option PropertyTable
  | .stack => some s.properties
  | .card id => (s.card? id).map (·.properties)
  | .background id => (s.background? id).map (·.properties)
  | .part _ _ id => (s.part? id).map (·.properties)

def tableOf (s : Stack) (r : PartRef) : Except Failure PropertyTable :=
  match s.tableOf? r with
  | some t => .ok t
  | none => .error (gone r)

/-- The stack with another property table for a component. -/
def withTable (s : Stack) (t : PropertyTable) : PartRef → Stack
  | .stack => { s with properties := t }
  | .card id =>
    match s.card? id with
    | some c => s.withCard { c with properties := t }
    | none => s
  | .background id =>
    match s.background? id with
    | some b => s.withBackground { b with properties := t }
    | none => s
  | .part _ _ id =>
    match s.part? id with
    | some p => s.withPart { p with properties := t }
    | none => s

def scriptOf (s : Stack) (r : PartRef) : Except Failure Script :=
  let script? := match r with
    | .stack => some s.script
    | .card id => (s.card? id).map (·.script)
    | .background id => (s.background? id).map (·.script)
    | .part _ _ id => (s.part? id).map (·.script)
  match script? with
  | some script => .ok script
  | none => .error (gone r)

/-- The name of a component, or its identifier if it has none. -/
def nameOf (s : Stack) (r : PartRef) : Except Failure String := do
  let stored := (← s.tableOf r).textOf "name"
  return if stored.isEmpty then r.idForm else stored

/-- The component as a script would name it. -/
def describe (s : Stack) (r : PartRef) : String :=
  let stored := ((s.tableOf? r).map (·.textOf "name")).getD ""
  if stored.isEmpty then r.idForm else s!"{r.words} \"{stored}\""

def longName (s : Stack) (r : PartRef) : String :=
  match r with
  | .stack => s.describe r
  | _ => s!"{s.describe r} of stack \"{s.name}\""

/-- The parts that lie where a button or field lies. -/
def siblings? (s : Stack) (layer : Layer) (id : PartId) : Option (List Part) := do
  let p ← s.part? id
  match layer with
  | .card => (s.card? p.owner).map (·.parts)
  | .background => (s.background? p.owner).map (·.parts)

/-- The position of a component among those of its kind, from one. -/
def numberOf (s : Stack) (r : PartRef) : Except Failure Nat :=
  let index? := match r with
    | .stack => none
    | .card id => s.cardIndex? id
    | .background id => s.backgroundsInOrder.findIdx? (·.id == id)
    | .part kind layer id =>
      (s.siblings? layer id).bind fun parts =>
        (parts.filter (·.kind == kind)).findIdx? (·.id == id)
  match index? with
  | some i => .ok (i + 1)
  | none => .error (gone r)

/-- What a button or field holds. -/
def contents (s : Stack) (f : Found) : Except Failure Value :=
  match f.part with
  | .part _ _ id =>
    match s.part? id with
    | some p => p.text f.card
    | none => .error (gone f.part)
  | r => .error (.semantic (.noContents (s.describe r)))

/-- The button or field in which a text can be put. -/
def writable (s : Stack) (f : Found) : Except Failure Part :=
  match f.part with
  | .part _ _ id => (s.part? id).elim (.error (gone f.part)) .ok
  | r => .error (.semantic (.notWritable (s.describe r)))

/-- Changes what a button or field holds. -/
def settingContents (f : Found) (value : Value) : Editing Stack Unit := do
  let p ← Editing.demand (·.writable f)
  Editing.ofExcept (p.checkText f.card)
  modify (·.withPart (p.putText f.card value))

/-- The stack with another text in a button or field. -/
def setContents (s : Stack) (f : Found) (value : Value) : Except Failure Stack :=
  (settingContents f value).result s

/-- The property of this key is what the component holds. -/
def isContentsKey (r : PartRef) (key : String) : Bool :=
  match r with
  | .part kind _ _ => key == Part.contentsProperty kind
  | _ => false

/-- Properties that follow from others and cannot be set. -/
def computedKeys : List String :=
  ["id", "number", "short name", "abbreviated name", "abbrev name", "long name"]

def getProperty (s : Stack) (f : Found) (name : String) : Except Failure Value :=
  let key := Text.lowerString name
  match key, f.part.id? with
  | "id", some id => .ok (.ofInt id)
  | "number", some _ => do return .ofInt (← s.numberOf f.part)
  | "name", _ | "short name", _ => do return .ofText (← s.nameOf f.part)
  | "abbreviated name", _ | "abbrev name", _ => .ok (.ofText (s.describe f.part))
  | "long name", _ => .ok (.ofText (s.longName f.part))
  | _, _ =>
    if isContentsKey f.part key then s.contents f
    else do (← s.tableOf f.part).get name

/-- Changes a property of a component. -/
def settingProperty (f : Found) (name : String) (value : Value) : Editing Stack Unit :=
  let key := Text.lowerString name
  if computedKeys.contains key then throw (.semantic (.cannotSet name))
  else if isContentsKey f.part key then settingContents f value
  else do
    let table ← Editing.demand (·.tableOf f.part)
    Editing.ofExcept (table.checkSet name)
    modify (·.withTable (table.define name value) f.part)

/-- The stack with another value of a property. -/
def setProperty (s : Stack) (f : Found) (name : String) (value : Value) : Except Failure Stack :=
  (settingProperty f name value).result s

/-- The next component on the way of a message: from a part to a card, its background, and the
stack. -/
def parent? (s : Stack) (f : Found) : Option Found :=
  match f.part with
  | .part _ .card id => (s.part? id).map fun p => .ofCard p.owner
  | .part _ .background _ => some (.ofCard (f.card.getD s.currentCard))
  | .card id => (s.card? id).map fun c => ⟨.background c.background, some id⟩
  | .background _ => some ⟨.stack, none⟩
  | .stack => none

end CardScript.Stack
