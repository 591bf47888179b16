import CardScript.Script.Command

/-!
# Running scripts

Handlers are carried out in frames of their own. Fuel bounds how deep handlers may call each other
and how often open-ended loops may go round; `ample` is more than any run will use.
-/

namespace CardScript

/-- Binds parameters to arguments; missing ones are empty. -/
def bindParams : List Symbol → List Value → Action Unit
  | [], _ => pure ()
  | name :: names, args => do
    Action.edit (Machine.settingVariable name (args.headD .empty))
    bindParams names args.tail

/-- Carries out a handler, given how the handlers it calls are carried out. -/
def runHandler (invoke : Invoke) (fuel : Nat) (owner : Handle) (handler : Handler)
    (args : List Value) : Action Flow := do
  let name := handler.name.spelling
  (Action.edit (Machine.pushingFrame name (some owner) args)).noting
    fun e => (e.atSpan handler.span).inHandler name
  let body : Action Flow := do
    bindParams handler.params args
    execBlock invoke fuel handler.body
  (body.andThen Machine.popFrame).noting (·.inHandler name)

/-- Carries out a handler within fuel. -/
def invoke : (fuel : Nat) → Invoke
  | 0, _, _, _ => Action.outOfFuel
  | fuel + 1, owner, handler, args => runHandler (invoke fuel) fuel owner handler args

/-- Fuel that outlasts any machine. -/
def ample : Nat := Number.twoTo 62

/-- Carries out loose statements in a frame of their own and answers what `it` is then. -/
def runStatements (fuel : Nat) (statements : List Statement) : Action Value := do
  Action.edit (Machine.pushingFrame "" none [])
  let body : Action Value := do
    discard (execBlock (invoke fuel) fuel statements)
    Action.ask fun m => (m.lookup? ⟨"it"⟩).getD .empty
  body.andThen Machine.popFrame

/-- Sends a message from outside any script and answers the result. -/
def dispatch (fuel : Nat) (target : Handle) (message : String) (args : List Value) :
    Action Unit := do
  discard (send (invoke fuel) target message args)

namespace World

/-- What a run ends with: a value, or how it halted, and the world after it. -/
abbrev Outcome := Except Halt Value × World

/-- A run with a context of its own. -/
def run (w : World) (stack : Option Nat) (action : Action Value) : Outcome :=
  match action { world := w, context := { stack } } with
  | .ok v m => (.ok v, m.world)
  | .error e m => (.error e, m.world)

/-- Sends a message to a part of a stack, by default its current card, and answers the result. -/
def send (w : World) (fuel : Nat) (stack : Nat) (target : Option Specifier) (message : String)
    (args : List Value) : Outcome :=
  w.run (some stack) do
    let receiver ← match target with
      | some spec => Action.resolve spec
      | none => Action.demand (·.currentCard)
    dispatch fuel receiver message args
    Action.ask (·.context.result)

/-- Carries out loose statements on a stack, or on whichever has the focus, and answers what `it`
is then. -/
def eval (w : World) (fuel : Nat) (stack : Option Nat) (statements : List Statement) : Outcome :=
  w.run stack (runStatements fuel statements)

end World

end CardScript
