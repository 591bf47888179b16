import CardScript.Script.Builtin

/-!
# Messages

A message goes from its target up to the card, the background and the stack until a handler takes
it; a handler may pass it on. Function calls go the same way and end at the built-in functions.
How a handler is carried out is a parameter here.
-/

namespace CardScript

/-- Carries out a handler of a part with arguments. -/
abbrev Invoke := Handle → Handler → List Value → Action Flow

/-- Messages that nobody has to handle. -/
def systemMessages : List String :=
  ["mouseup", "mousedown", "mousestilldown", "mouseenter", "mouseleave", "mousewithin", "opencard",
    "closecard", "openbackground", "closebackground", "openstack", "closestack", "openfield",
    "closefield", "exitfield", "enterinfield", "returninfield", "keydown", "arrowkey", "tabkey",
    "enterkey", "returnkey", "newcard", "deletecard", "newbackground", "deletebackground", "idle",
    "startup", "resume", "suspend", "quit"]

def isSystemMessage (name : String) : Bool :=
  systemMessages.contains (Text.lowerString name)

/-- A message passes a part, a card, a background and a stack at most. -/
def maxStations : Nat := 4

/-- The next part on the way, as things stand now. -/
def nextStation? (h : Handle) : Action (Option Handle) :=
  Action.ask fun m => m.world.parent? h

/-- The handler a part has for a message or a function. -/
def handlerAt? (h : Handle) (name : String) (isFunction : Bool) : Action (Option Handler) := do
  let script ← Action.demand fun m => m.world.scriptOf h
  return script.handler? name isFunction

/-- What becomes of a message at the end of its way. -/
def endOfWay (message : String) (passed : Bool) : Action Flow :=
  if passed || isSystemMessage message then pure .normal
  else Action.fail (.semantic (.neverHeardOf message))

/-- Takes a message from a part upwards. -/
def deliver (invoke : Invoke) (message : String) (args : List Value) :
    (stations : Nat) → (passed : Bool) → Handle → Action Flow
  | 0, passed, _ => endOfWay message passed
  | stations + 1, passed, h => do
    let goOn (passed : Bool) : Action Flow := do
      match ← nextStation? h with
      | some next => deliver invoke message args stations passed next
      | none => endOfWay message passed
    match ← handlerAt? h message false with
    | none => goOn passed
    | some handler =>
      match ← invoke h handler args with
      | .pass => goOn true
      | .exitToHyperCard => return .exitToHyperCard
      | .returned value =>
        Action.setResult value
        return .normal
      | _ => return .normal

/-- Sends a message to a part, which is the target until it has been dealt with. -/
def send (invoke : Invoke) (target : Handle) (message : String) (args : List Value) :
    Action Flow := do
  let previous ← Action.ask fun m => m.context.target
  Action.changeContext fun c => { c with target := some target }
  (deliver invoke message args maxStations false target).andThen fun m =>
    { m with context := { m.context with target := previous } }

/-- Tells a part what has happened, unless messages are locked. -/
def notify (invoke : Invoke) (target : Handle) (message : String) : Action Flow := do
  if ← Action.ask fun m => m.world.lockMessages then return .normal
  else send invoke target message []

/-- Calls a built-in function. -/
def callBuiltin (name : String) (args : List Value) : Action Value :=
  match callBuiltin? name args with
  | some answer => answer
  | none => Action.fail (.semantic (.noSuchFunction name))

/-- Takes a function call from a part upwards. -/
def callFrom (invoke : Invoke) (name : String) (args : List Value) :
    (stations : Nat) → Handle → Action Value
  | 0, _ => callBuiltin name args
  | stations + 1, h => do
    let goOn : Action Value := do
      match ← nextStation? h with
      | some next => callFrom invoke name args stations next
      | none => callBuiltin name args
    match ← handlerAt? h name true with
    | none => goOn
    | some handler =>
      match ← invoke h handler args with
      | .pass => goOn
      | .returned value => return value
      | _ => return .empty

/-- Calls a function from where the script stands, or else from the current card. -/
def callFunction (invoke : Invoke) (name : String) (args : List Value) : Action Value := do
  let m ← get
  match m.me?, m.currentCard with
  | some me, _ => callFrom invoke name args maxStations me
  | none, .ok card => callFrom invoke name args maxStations card
  | none, .error _ => callBuiltin name args

/-- Where a message goes that names no target. -/
def usualReceiver : Action Handle :=
  Action.demand fun m =>
    match m.me? with
    | some me => .ok me
    | none => m.currentCard

end CardScript
