import CardScript.Stack.Basic

/-!
# The desktop

What a user would see: the open stacks, which of them has the focus, where one is and has been,
and what was shown and heard. Stacks are named by their number in the world.
-/

namespace CardScript

/-- A card to go to. -/
structure Destination where
  stack : Nat
  card : PartId
  effect : Option String := none
deriving Repr, DecidableEq, Inhabited

structure Desktop where
  /-- The open stacks, in the order they were opened. -/
  opened : List Nat := []
  /-- The place of the stack with the focus among the open ones. -/
  focused : Option Nat := none
  location : Option Destination := none
  /-- Where one came from, the latest first. -/
  history : List Destination := []
  /-- Every place gone to, in order. -/
  navigations : List Destination := []
  beeps : Nat := 0
  messages : List String := []
  selection : Option String := none
deriving Inhabited

namespace Desktop

/-- Gives a stack the focus, opening it if need be. -/
def focus (d : Desktop) (stack : Nat) : Desktop :=
  match d.opened.findIdx? (· == stack) with
  | some i => { d with focused := some i }
  | none => { d with opened := d.opened ++ [stack], focused := some d.opened.length }

/-- Opens a stack at its current card. -/
def openStack (d : Desktop) (stack : Nat) (card : PartId) : Desktop :=
  { d.focus stack with location := some { stack, card } }

def focusedStack? (d : Desktop) : Option Nat :=
  d.focused.bind fun i => d.opened[i]?

/-- Goes to a destination and remembers where one was. -/
def navigate (d : Desktop) (destination : Destination) : Desktop :=
  let history := match d.location with
    | some previous => previous :: d.history
    | none => d.history
  { d.focus destination.stack with
    location := some destination
    history
    navigations := d.navigations ++ [destination] }

/-- Goes back to where one came from, if there is such a place. -/
def goBack (d : Desktop) : Option Destination × Desktop :=
  match d.history with
  | [] => (none, d)
  | previous :: rest =>
    (some previous, { d.focus previous.stack with location := some previous, history := rest })

def beep (d : Desktop) : Desktop :=
  { d with beeps := d.beeps + 1 }

def showMessage (d : Desktop) (text : String) : Desktop :=
  { d with messages := d.messages ++ [text] }

end Desktop

end CardScript
