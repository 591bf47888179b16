import CardScript.Draws
import CardScript.Part.Access
import CardScript.Settings.Basic
import CardScript.World.Clock
import CardScript.World.Desktop
import CardScript.World.Globals
import CardScript.World.Interrupt

/-!
# The world of a script

All that scripts share: the open stacks and the desktop they lie on, global variables, the
properties that belong to no part, and where chance and time come from.
-/

namespace CardScript

structure World where
  settings : Settings := {}
  globals : Globals := {}
  /-- Properties that belong to no part. -/
  properties : PropertyTable := {}
  interrupt : Interrupt := {}
  desktop : Desktop := {}
  /-- Every stack, open or not, by number. -/
  allStacks : List Stack := []
  draws : Draws := {}
  clock : Clock := {}
deriving Inhabited

namespace World

def systemVersion : String := "0.1.0"

/-- The properties that belong to no part, as they are at the start. -/
def usualProperties (settings : Settings) : PropertyTable :=
  (((({} : PropertyTable).define "itemDelimiter" (.ofText settings.itemDelimiter)).define
    "lockScreen" (.ofBool false)).define "lockMessages" (.ofBool false)).define
    "userLevel" (.ofInt 5) |>.defineReadOnly "systemVersion" (.ofText systemVersion)

/-- A world without stacks. -/
def start (settings : Settings) : World :=
  { settings, properties := usualProperties settings }

/-- Forgets globals and restores properties. -/
def reset (w : World) : World :=
  { w with globals := {}, properties := usualProperties w.settings }

/-! ## Stacks -/

def stack (w : World) (number : Nat) : Stack :=
  w.allStacks[number]?.getD {}

def withStack (w : World) (number : Nat) (s : Stack) : World :=
  { w with allStacks := w.allStacks.set number s }

/-- Takes a stack in and gives it a number. -/
def addStack (w : World) (s : Stack) : Nat × World :=
  (w.allStacks.length, { w with allStacks := w.allStacks ++ [s] })

/-- Opens a stack on the desktop. -/
def openStack (w : World) (number : Nat) : World :=
  { w with desktop := w.desktop.openStack number (w.stack number).currentCard }

/-- The first open stack of a name, in any ASCII letter case. -/
def openStackNamed? (w : World) (name : String) : Option Nat :=
  w.desktop.opened.find? fun number => Text.sameIgnoringAsciiCase (w.stack number).name name

/-! ## Handles -/

def describe (w : World) (h : Handle) : String :=
  (w.stack h.stack).describe h.found.part

def scriptOf (w : World) (h : Handle) : Except Failure Script :=
  (w.stack h.stack).scriptOf h.found.part

def contents (w : World) (h : Handle) : Except Failure Value :=
  (w.stack h.stack).contents h.found

def setContents (w : World) (h : Handle) (value : Value) : Except Failure World := do
  return w.withStack h.stack (← (w.stack h.stack).setContents h.found value)

def partProperty (w : World) (h : Handle) (name : String) : Except Failure Value :=
  (w.stack h.stack).getProperty h.found name

def setPartProperty (w : World) (h : Handle) (name : String) (value : Value) :
    Except Failure World := do
  return w.withStack h.stack (← (w.stack h.stack).setProperty h.found name value)

/-- The next part on the way of a message. -/
def parent? (w : World) (h : Handle) : Option Handle :=
  ((w.stack h.stack).parent? h.found).map fun found => ⟨h.stack, found⟩

/-! ## Properties that belong to no part -/

/-- The selected text is asked of the desktop and is empty if nothing is selected. -/
def property (w : World) (name : String) : Except Failure Value :=
  if Text.sameIgnoringAsciiCase name "selectedText" then
    .ok (.ofText (w.desktop.selection.getD ""))
  else w.properties.get name

/-- Changes a property that belongs to no part. -/
def settingProperty (name : String) (value : Value) : Editing World Unit :=
  if Text.sameIgnoringAsciiCase name "selectedText" then throw (.semantic (.cannotSet name))
  else if Text.sameIgnoringAsciiCase name "itemDelimiter" && value.isEmpty then
    throw (.semantic .emptyItemDelimiter)
  else do
    Editing.demand (·.properties.checkSet name)
    modify fun w => { w with properties := w.properties.define name value }

def setProperty (w : World) (name : String) (value : Value) : Except Failure World :=
  (settingProperty name value).result w

def itemDelimiter (w : World) : List Char :=
  match w.properties.find? "itemdelimiter" with
  | some v => v.text.toList
  | none => [',']

def lockMessages (w : World) : Bool :=
  w.properties.flag "lockmessages"

end World

end CardScript
