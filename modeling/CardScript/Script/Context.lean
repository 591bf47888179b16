import CardScript.Part.Finding
import CardScript.Script.Frame
import CardScript.World.Basic

/-!
# The context of a run

Each run of a script has frames of its own, one for every handler being carried out, and a few
things its handlers share: the result, the target, the stack it works on and the card it takes for
current.
-/

namespace CardScript

structure Context where
  /-- The stack the run works on; without one, whichever has the focus. -/
  stack : Option Nat := none
  frames : CallStack := .empty
  result : Value := .empty
  target : Option Handle := none
  /-- A card to be taken for current in place of the one shown. -/
  card : Option PartId := none
deriving Inhabited

/-- A run in its world. -/
structure Machine where
  world : World := {}
  context : Context := {}
deriving Inhabited

namespace Machine

variable {α : Type}

/-- Edits the world of a machine. -/
def onWorld (x : Editing World α) : Editing Machine α :=
  Editing.within (·.world) (fun world m => { m with world }) x

/-- Edits one stack of the world. -/
def onStack (number : Nat) (x : Editing Stack α) : Editing Machine α :=
  onWorld (Editing.within (·.stack number) (fun s w => w.withStack number s) x)

/-! ## Frames -/

def depth (m : Machine) : Nat :=
  m.context.frames.depth

def frame? (m : Machine) : Option Frame :=
  m.context.frames.top?

def frame (m : Machine) : Except Failure Frame :=
  m.frame?.elim (.error (.internal .noFrame)) .ok

/-- The machine with the innermost frame changed, if there is one. -/
def onTop (m : Machine) (change : Frame → Frame) : Machine :=
  { m with context := { m.context with frames := m.context.frames.modifyTop change } }

/-- Changes the innermost frame. -/
def modifyingFrame (change : Frame → Frame) : Editing Machine Unit := do
  let _ ← Editing.demand frame
  modify (·.onTop change)

def modifyFrame (m : Machine) (change : Frame → Frame) : Except Failure Machine :=
  (modifyingFrame change).result m

def me? (m : Machine) : Option Handle :=
  m.frame?.bind (·.me)

def args (m : Machine) : List Value :=
  (m.frame?.map (·.args)).getD []

def checkDepth (m : Machine) : Except Failure Unit :=
  if m.world.settings.maxCallDepth ≤ m.depth then .error (.semantic .tooMuchRecursion) else .ok ()

/-- Takes the next tick of the clock that frames and requests to abort go by. -/
def stamping : Editing Machine Nat :=
  modifyGet fun m =>
    let (tick, interrupt) := m.world.interrupt.stamp
    (tick, { m with world := { m.world with interrupt } })

/-- The machine with a new innermost frame. -/
def withFrame (m : Machine) (f : Frame) : Machine :=
  { m with context := { m.context with frames := m.context.frames.push f } }

/-- Begins a frame, unless there are too many. -/
def pushingFrame (message : String) (me : Option Handle) (args : List Value) :
    Editing Machine Unit := do
  Editing.demand checkDepth
  let begunAt ← stamping
  modify (·.withFrame { message, me, args, begunAt })

def pushFrame (m : Machine) (message : String) (me : Option Handle) (args : List Value) :
    Except Failure Machine :=
  (pushingFrame message me args).result m

/-- Ends the innermost frame. -/
def popFrame (m : Machine) : Machine :=
  { m with context := { m.context with frames := m.context.frames.pop } }

/-- An abort was asked for since the innermost frame began. -/
def isAborted (m : Machine) : Bool :=
  match m.frame? with
  | some f => m.world.interrupt.aborts f.begunAt
  | none => false

def checkAbort (m : Machine) : Except Failure Unit :=
  if m.isAborted then .error (.semantic .aborted) else .ok ()

/-! ## Variables -/

/-- The value of a variable: of the global, if the frame declares it so, or else of the local. -/
def lookup? (m : Machine) (name : Symbol) : Option Value :=
  match m.frame? with
  | some f =>
    if f.declares name then some ((m.world.globals.get? name).getD .empty) else f.local? name
  | none => none

/-- A variable that was never set reads as its own name. -/
def valueOf (m : Machine) (name : Symbol) : Value :=
  (m.lookup? name).getD (.ofText name.spelling)

/-- The machine with another value of a global. -/
def withGlobal (m : Machine) (name : Symbol) (value : Value) : Machine :=
  { m with world := { m.world with globals := m.world.globals.set name value } }

/-- Sets the global of a name, if the innermost frame declares it, or else the local. -/
def settingVariable (name : Symbol) (value : Value) : Editing Machine Unit := do
  let f ← Editing.demand frame
  if f.declares name then modify (·.withGlobal name value)
  else modify (·.onTop (·.setLocal name value))

def setVariable (m : Machine) (name : Symbol) (value : Value) : Except Failure Machine :=
  (settingVariable name value).result m

/-- The world with a global of this name. -/
def seedGlobal (m : Machine) (name : Symbol) : Machine :=
  { m with world := { m.world with globals := m.world.globals.seed name } }

/-! ## Stack and card -/

/-- The stack the run works on. -/
def currentStack (m : Machine) : Except Failure Nat :=
  match m.context.stack.or m.world.desktop.focusedStack? with
  | some number => .ok number
  | none => .error (.semantic .noStackOpen)

/-- The card taken for current in a stack. -/
def currentCardIn (m : Machine) (number : Nat) : PartId :=
  let s := m.world.stack number
  match m.context.card.filter fun id => (s.card? id).isSome with
  | some id => id
  | none => s.currentCard

def currentCard (m : Machine) : Except Failure Handle := do
  let number ← m.currentStack
  return .ofCard number (m.currentCardIn number)

/-! ## Resolving addresses -/

/-- The stack of a name: the current one if it is called so, or else an open one. -/
def stackNamed? (m : Machine) (name : String) : Option Nat :=
  match m.currentStack with
  | .ok number =>
    if Text.sameIgnoringAsciiCase (m.world.stack number).name name then some number
    else m.world.openStackNamed? name
  | .error _ => m.world.openStackNamed? name

/-- The stack in which an address is to be looked up. -/
def stackFor (m : Machine) : Specifier → Except Failure Nat
  | .stack (some name) =>
    match m.stackNamed? name with
    | some number => .ok number
    | none => .error (.noSuchPart ((Specifier.stack (some name)).text m.world.describe))
  | .of _ owner => m.stackFor owner
  | .resolved h => .ok h.stack
  | _ => m.currentStack

/-- The part an address denotes. -/
def resolve (m : Machine) (spec : Specifier) : Except Failure Handle := do
  let number ← m.stackFor spec
  let scope := Scope.stack (m.currentCardIn number)
  let found ← scope.find (m.world.stack number) m.world.describe m.world.draws spec
  return ⟨number, found⟩

end Machine

end CardScript
