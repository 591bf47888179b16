import CardScript.Script.Address
import CardScript.Script.Navigation

/-!
# Commands

Carrying out statements. Loops that need not end run on fuel; counted loops run their passes one by
one. An error gets the position of the innermost statement it happened in.
-/

namespace CardScript

/-! ## Pauses -/

/-- A pause ends at once if the script is to be aborted, and passes time otherwise. -/
def pause (millis : Nat) : Action Unit := do
  Action.demand (·.checkAbort)
  Action.changeWorld fun w => { w with clock := w.clock.advance millis }

/-- The beeps after the first one, with pauses between them. -/
def beepAgain (interval : Nat) : (times : Nat) → Action Unit
  | 0 => pure ()
  | times + 1 => do
    pause interval
    Action.changeWorld fun w => { w with desktop := w.desktop.beep }
    beepAgain interval times

def beepTimes (times : Int) : Action Unit := do
  if 0 < times then
    Action.changeWorld fun w => { w with desktop := w.desktop.beep }
    let interval ← Action.ask (·.world.settings.beepInterval)
    beepAgain interval (times - 1).toNat

/-- Seconds in milliseconds. -/
def millisOf (seconds : Float) : Nat :=
  ((Number.whole? (Number.truncate (seconds * 1000))).getD 0).toNat

def waitFor (amount : Float) (unit : TimeUnit) : Action Unit := do
  let seconds := match unit with
    | .ticks => amount / 60
    | .seconds => amount
  if 0 < seconds then pause (millisOf seconds)
  Action.demand (·.checkAbort)

/-! ## Loops -/

/-- What a pass leaves to be done: nothing, so that the loop goes on, or the flow it ends with. -/
def Flow.afterPass : Flow → Option Flow
  | normal | nextRepeat => none
  | exitRepeat => some normal
  | flow => some flow

/-- One pass of a loop. -/
def passThrough (body : Action Flow) : Action (Option Flow) := do
  Action.demand (·.checkAbort)
  return (← body).afterPass

/-- Passes while a test says so. -/
def loopWhile (test : Action Bool) (body : Action Flow) : (fuel : Nat) → Action Flow
  | 0 => Action.outOfFuel
  | fuel + 1 => do
    if ← test then
      match ← passThrough body with
      | some flow => return flow
      | none => loopWhile test body fuel
    else return .normal

/-- A number of passes. -/
def loopTimes (body : Action Flow) : (times : Nat) → Action Flow
  | 0 => pure .normal
  | times + 1 => do
    match ← passThrough body with
    | some flow => return flow
    | none => loopTimes body times

/-- A number of passes with a counter that is set anew for each. -/
def loopCounting (counter : Symbol) (step : Int) (body : Action Flow) :
    (times : Nat) → (value : Int) → Action Flow
  | 0, _ => pure .normal
  | times + 1, value => do
    Action.edit (Machine.settingVariable counter (.ofInt value))
    match ← passThrough body with
    | some flow => return flow
    | none => loopCounting counter step body times (value + step)

/-- Evaluates the test of a loop. -/
def evalTest (invoke : Invoke) (condition : Expr) : Action Bool := do
  let v ← evalExpr invoke condition
  Action.ofExcept v.toBoolean

def evalInteger (invoke : Invoke) (e : Expr) : Action Int := do
  let v ← evalExpr invoke e
  Action.ofExcept v.toInteger

def runLoop (invoke : Invoke) (fuel : Nat) (kind : LoopKind) (body : Action Flow) :
    Action Flow := do
  match kind with
  | .forever => loopWhile (pure true) body fuel
  | .count times => do
    let times ← evalInteger invoke times
    loopTimes body times.toNat
  | .whileTrue condition => loopWhile (evalTest invoke condition) body fuel
  | .untilTrue condition =>
    loopWhile (do return !(← evalTest invoke condition)) body fuel
  | .counting counter first final down => do
    let first ← evalInteger invoke first
    let final ← evalInteger invoke final
    if down then loopCounting counter (-1) body (first - final + 1).toNat first
    else loopCounting counter 1 body (final - first + 1).toNat first

/-! ## Sending -/

/-- The message in a text and its arguments, which follow the first blank and have commas between
them. -/
def parseMessage (text : String) : String × List Value :=
  let cs := Text.trim text.toList
  let name := cs.takeWhile (!Text.isBlank ·)
  match cs.dropWhile (!Text.isBlank ·) with
  | [] => (String.ofList name, [])
  | _ :: rest =>
    (String.ofList name,
      (Text.splitOn [','] rest).map fun arg => .ofText (String.ofList (Text.trim arg)))

def sendText (invoke : Invoke) (text : String) (target : Option PartExpr) : Action Flow := do
  let (name, args) := parseMessage text
  if name.isEmpty then Action.fail (.semantic .emptyMessage)
  else
    let receiver ← match target with
      | some p => resolvePart invoke p
      | none => usualReceiver
    return (← send invoke receiver name args).afterMessage

/-! ## Statements -/

/-- Reads, combines and writes back through one address. -/
def updateContainer (invoke : Invoke) (op : Value → Value → Except Failure Value) (value : Expr)
    (target : Container) : Action Flow := do
  let operand ← evalExpr invoke value
  let address ← evalContainer invoke target
  let current ← Action.demand address.read
  let updated ← Action.ofExcept (op current operand)
  Action.edit (address.writing .into updated)
  return .normal

/-- Makes a variable global in the innermost frame. -/
def declareGlobal (name : Symbol) : Action Unit := do
  modify (·.seedGlobal name)
  Action.edit (Machine.modifyingFrame (·.declare name))

def declareGlobals : List Symbol → Action Unit
  | [] => pure ()
  | name :: rest => do
    declareGlobal name
    declareGlobals rest

def setProperty (invoke : Invoke) (name : String) (value : Value) :
    Option PartExpr → Action Unit
  | some p => do
    let h ← resolvePart invoke p
    editStack h.stack (Stack.settingProperty h.found name value)
  | none => Action.edit (Machine.onWorld (World.settingProperty name value))

mutual

def execCommand (invoke : Invoke) (fuel : Nat) : Command → Action Flow
  | .put value preposition target => do
    let value ← evalExpr invoke value
    let address ← evalContainer invoke target
    Action.edit (address.writing preposition value)
    return .normal
  | .get value => do
    let value ← evalExpr invoke value
    Action.edit (Machine.settingVariable ⟨"it"⟩ value)
    return .normal
  | .set property part value => do
    let value ← evalExpr invoke value
    setProperty invoke property.spelling value part
    return .normal
  | .global names => do
    declareGlobals names
    return .normal
  | .add value target => updateContainer invoke Value.add value target
  | .subtract value target => updateContainer invoke Value.subtract value target
  | .multiply target value => updateContainer invoke Value.multiply value target
  | .divide target value => updateContainer invoke Value.divide value target
  | .go destination => go invoke destination
  | .beep none => do
    beepTimes 1
    return .normal
  | .beep (some count) => do
    let times ← evalInteger invoke count
    beepTimes times
    return .normal
  | .wait duration unit => do
    let v ← evalExpr invoke duration
    let amount ← Action.ofExcept v.toReal
    waitFor amount unit
    return .normal
  | .send message target => do
    let v ← evalExpr invoke message
    sendText invoke v.text target
  | .visualEffect effect => do
    let v ← evalExpr invoke effect
    Action.edit (Machine.modifyingFrame fun f => { f with effect := some v.text })
    return .normal
  | .newCard => makeCard invoke
  | .newBackground => makeBackground invoke
  | .deleteCard none => do
    let h ← Action.demand (·.currentCard)
    removeCard invoke h
  | .deleteCard (some p) => do
    let h ← resolvePart invoke p
    removeCard invoke h
  | .message name args => do
    let args ← evalArgs invoke args
    let receiver ← usualReceiver
    return (← send invoke receiver name.spelling args).afterMessage
  | .choose condition whenTrue whenFalse => do
    if ← evalTest invoke condition then execBlock invoke fuel whenTrue
    else execBlock invoke fuel whenFalse
  | .loop kind body => runLoop invoke fuel kind (execBlock invoke fuel body)
  | .exitRepeat => pure .exitRepeat
  | .nextRepeat => pure .nextRepeat
  | .exitHandler => pure .exitHandler
  | .exitToHyperCard => pure .exitToHyperCard
  | .pass => pure .pass
  | .giveBack none => pure (.returned .empty)
  | .giveBack (some value) => do
    let v ← evalExpr invoke value
    return .returned v

def execStatement (invoke : Invoke) (fuel : Nat) : Statement → Action Flow
  | .mk span command => (execCommand invoke fuel command).noting (·.atSpan span)

/-- Carries out statements in order until one ends in any but the normal way. -/
def execBlock (invoke : Invoke) (fuel : Nat) : List Statement → Action Flow
  | [] => pure .normal
  | s :: rest => do
    match ← execStatement invoke fuel s with
    | .normal => execBlock invoke fuel rest
    | flow => return flow

end

end CardScript
