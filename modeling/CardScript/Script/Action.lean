import CardScript.Script.Context

/-!
# Actions

An action changes the machine and ends with a value, or halts: with a script error, or because the
fuel for open-ended loops and nested calls is used up. What it changed before it halted stays
changed.
-/

namespace CardScript

inductive Halt where
  | failed (error : ScriptError)
  | outOfFuel
deriving Repr, DecidableEq

abbrev Action := EStateM Halt Machine

/-- How a statement ends. All but `normal` leave the statements around it. -/
inductive Flow where
  | normal
  | exitRepeat
  | nextRepeat
  | exitHandler
  | exitToHyperCard
  | pass
  | returned (value : Value)
deriving Inhabited

namespace Flow

def isExitToHyperCard : Flow → Bool
  | exitToHyperCard => true
  | _ => false

/-- Once a message has been handled, only an exit to HyperCard goes on. -/
def afterMessage : Flow → Flow
  | exitToHyperCard => exitToHyperCard
  | _ => normal

end Flow

namespace Action

variable {α : Type}

def fail (f : Failure) : Action α :=
  throw (.failed { failure := f })

def outOfFuel : Action α :=
  throw .outOfFuel

def ofExcept : Except Failure α → Action α
  | .ok a => pure a
  | .error f => fail f

/-- Reads something off the machine. -/
def ask (read : Machine → α) : Action α := do
  return read (← get)

/-- Reads something off the machine that may not be there. -/
def demand (read : Machine → Except Failure α) : Action α := do
  ofExcept (read (← get))

/-- Edits the machine. What the edit has changed when it fails stays changed. -/
def edit (x : Editing Machine α) : Action α := fun m =>
  match x m with
  | .ok a m => .ok a m
  | .error f m => .error (.failed { failure := f }) m

/-- Changes the machine at one stroke, or fails and leaves it alone. -/
def change (f : Machine → Except Failure Machine) : Action Unit := do
  set (← ofExcept (f (← get)))

def changeWorld (f : World → World) : Action Unit :=
  modify fun m => { m with world := f m.world }

def changeContext (f : Context → Context) : Action Unit :=
  modify fun m => { m with context := f m.context }

/-- Changes the machine afterwards, however the action ends. -/
def andThen (x : Action α) (after : Machine → Machine) : Action α := fun m =>
  match x m with
  | .ok a m => .ok a (after m)
  | .error e m => .error e (after m)

/-- Adds to a script error. -/
def noting (x : Action α) (note : ScriptError → ScriptError) : Action α := fun m =>
  match x m with
  | .ok a m => .ok a m
  | .error (.failed e) m => .error (.failed (note e)) m
  | .error .outOfFuel m => .error .outOfFuel m

/-- Resolves an address and uses up its draws. -/
def resolve (spec : Specifier) : Action Handle := do
  let handle := (← get).resolve spec
  changeWorld fun w => { w with draws := w.draws.skip spec.draws }
  ofExcept handle

/-- A move through the desktop. -/
def navigate (destination : Destination) : Action Unit :=
  changeWorld fun w => { w with desktop := w.desktop.navigate destination }

/-- The visual effect that was asked for, which is then spent. -/
def takeEffect : Action (Option String) := do
  let frame? := (← get).frame?
  changeContext fun c => { c with frames := c.frames.modifyTop ({ · with effect := none }) }
  return frame?.bind (·.effect)

def setResult (value : Value) : Action Unit :=
  changeContext fun c => { c with result := value }

end Action

end CardScript
