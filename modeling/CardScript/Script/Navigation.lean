import CardScript.Script.Expression
import CardScript.Stack.Editing

/-!
# Going, making and removing cards

Moves between cards with the messages that tell of them. A destination that cannot be found is no
failure: the result says so and the script goes on.
-/

namespace CardScript

/-- Why there is nowhere to go. -/
inductive NoDestination where
  | stack
  | card
deriving Repr, DecidableEq

def NoDestination.message : NoDestination → String
  | stack => "No such stack."
  | card => "No such card."

/-- The stack and card at which an address arrives. -/
def locate (m : Machine) (spec : Specifier) : Except NoDestination (Nat × PartId) :=
  match m.stackFor spec with
  | .error _ => .error .stack
  | .ok number =>
    if spec.isStack then .ok (number, (m.world.stack number).currentCard)
    else
      match m.resolve spec with
      | .error _ => .error .card
      | .ok h =>
        match h.found.part, h.found.card with
        | .card id, _ => .ok (h.stack, id)
        | .background _, some card => .ok (h.stack, card)
        | .background _, none => .error .card
        | .stack, _ => .ok (h.stack, (m.world.stack h.stack).currentCard)
        | .part .., _ => .error .card

/-- Edits one stack of the world. -/
def editStack {α : Type} (number : Nat) (x : Editing Stack α) : Action α :=
  Action.edit (Machine.onStack number x)

/-- Changes one stack of the world at one stroke, or fails and leaves it alone. -/
def changeStack (number : Nat) (f : Stack → Except Failure Stack) : Action Unit :=
  Action.change fun m => do
    return { m with world := m.world.withStack number (← f (m.world.stack number)) }

/-- Tells the card one leaves; the answer is whether to go on. -/
def leaveCard (invoke : Invoke) : Action Bool := do
  match (← get).currentCard with
  | .ok leaving => return !(← notify invoke leaving "closeCard").isExitToHyperCard
  | .error _ => return true

/-- Leaves the current card and shows another one. -/
def arrive (invoke : Invoke) (destination : Destination) (announce : Bool) : Action Flow := do
  if ← leaveCard invoke then
    if announce then Action.navigate destination
    editStack destination.stack (Stack.showingCard destination.card)
    Action.changeContext fun c =>
      { c with stack := some destination.stack, card := none, result := .empty }
    return (← notify invoke (.ofCard destination.stack destination.card) "openCard").afterMessage
  else return .exitToHyperCard

/-- Goes back to where one came from. -/
def goBack (invoke : Invoke) : Action Flow := do
  let (previous, desktop) ← Action.ask fun m => m.world.desktop.goBack
  Action.changeWorld fun w => { w with desktop }
  match previous with
  | some destination => arrive invoke destination false
  | none =>
    Action.setResult .empty
    return .normal

/-- Goes to a part of a stack, or to a stack. -/
def goTo (invoke : Invoke) (destination : PartExpr) (effect : Option String) : Action Flow := do
  let spec ← evalPart invoke destination
  let place := locate (← get) spec
  Action.changeWorld fun w => { w with draws := w.draws.skip spec.draws }
  match place with
  | .ok (stack, card) => arrive invoke { stack, card, effect } true
  | .error reason =>
    Action.setResult (.ofText reason.message)
    return .normal

def go (invoke : Invoke) (destination : Option PartExpr) : Action Flow := do
  let effect ← Action.takeEffect
  match destination with
  | some p => goTo invoke p effect
  | none => goBack invoke

/-- Shows a card that was just made. -/
def welcome (invoke : Invoke) (stack : Nat) (card : PartId) (message : String) : Action Flow := do
  Action.changeContext fun c => { c with card := none }
  let effect ← Action.takeEffect
  Action.navigate { stack, card, effect }
  return (← notify invoke (.ofCard stack card) message).afterMessage

def makeCard (invoke : Invoke) : Action Flow := do
  let number ← Action.demand (·.currentStack)
  let card ← editStack number Stack.addingCard
  welcome invoke number card "newCard"

def makeBackground (invoke : Invoke) : Action Flow := do
  let number ← Action.demand (·.currentStack)
  let (card, s) ← Action.ask fun m => (m.world.stack number).newBackground
  Action.changeWorld fun w => w.withStack number s
  welcome invoke number card "newBackground"

/-- Removes a card, after telling it. If it was the one shown, another card is shown. -/
def removeCard (invoke : Invoke) (h : Handle) : Action Flow := do
  match h.found.part with
  | .card id =>
    if (← notify invoke h "deleteCard").isExitToHyperCard then return .exitToHyperCard
    else
      let wasCurrent ← Action.ask fun m => (m.world.stack h.stack).currentCard == id
      editStack h.stack (Stack.removingCard id)
      Action.changeContext fun c => { c with card := none }
      if wasCurrent then
        let effect ← Action.takeEffect
        let card ← Action.ask fun m => (m.world.stack h.stack).currentCard
        Action.navigate { stack := h.stack, card, effect }
      return .normal
  | _ =>
    let part ← Action.ask fun m => m.world.describe h
    Action.fail (.semantic (.notDeletable part))

end CardScript
