import CardScript.Script.Action
import CardScript.Value.Arithmetic
import CardScript.Value.Listing

/-!
# Built-in functions

The functions that answer a call which no handler takes.
-/

namespace CardScript

inductive Builtin where
  | length
  | abs
  | round
  | trunc
  | sqrt
  | min
  | max
  | sum
  | average
  | random
  | offset
  | charToNum
  | numToChar
  | param
  | paramCount
  | params
  | date
  | time
  | seconds
  | ticks
  | result
  | target
deriving Repr, DecidableEq, Inhabited

/-- How many arguments a function takes. -/
inductive Arity where
  | exactly (n : Nat)
  | atLeast (n : Nat)
deriving Repr, DecidableEq

namespace Arity

def accepts (count : Nat) : Arity → Bool
  | exactly n => count == n
  | atLeast n => n ≤ count

def describe : Arity → String
  | exactly 1 => "1 argument"
  | exactly n => s!"{n} arguments"
  | atLeast n => s!"at least {n} argument(s)"

end Arity

namespace Builtin

/-- The name of a function in lower case. -/
def key : Builtin → String
  | length => "length"
  | abs => "abs"
  | round => "round"
  | trunc => "trunc"
  | sqrt => "sqrt"
  | min => "min"
  | max => "max"
  | sum => "sum"
  | average => "average"
  | random => "random"
  | offset => "offset"
  | charToNum => "chartonum"
  | numToChar => "numtochar"
  | param => "param"
  | paramCount => "paramcount"
  | params => "params"
  | date => "date"
  | time => "time"
  | seconds => "seconds"
  | ticks => "ticks"
  | result => "result"
  | target => "target"

def all : List Builtin :=
  [length, abs, round, trunc, sqrt, min, max, sum, average, random, offset, charToNum, numToChar,
    param, paramCount, params, date, time, seconds, ticks, result, target]

def named? (name : String) : Option Builtin :=
  all.find? (·.key == Text.lowerString name)

def arity : Builtin → Arity
  | length | abs | round | trunc | sqrt | random | charToNum | numToChar | param => .exactly 1
  | offset => .exactly 2
  | min | max | sum | average => .atLeast 1
  | paramCount | params | date | time | seconds | ticks | result | target => .exactly 0

/-- The number of draws a function needs. -/
def draws : Builtin → Nat
  | random => 1
  | _ => 0

/-- The number of times a function reads the clock. -/
def readings : Builtin → Nat
  | date | time | seconds | ticks => 1
  | _ => 0

/-! ## Numbers -/

def number (function : String) (v : Value) : Except Failure Float :=
  match v.numeric? with
  | some n => .ok n.toFloat
  | none => .error (.semantic (.notNumberFor function v.text))

def absolute (v : Value) : Except Failure Value :=
  match v.numeric? with
  | some (.whole n) =>
    match Number.word? n.natAbs with
    | some k => .ok (.ofInt k)
    | none => .ok (.ofFloat (Float.ofInt n).abs)
  | _ => do return .ofFloat (← number "abs" v).abs

def squareRoot (v : Value) : Except Failure Value := do
  let x ← number "sqrt" v
  if x < 0 then throw (.semantic .negativeRoot) else return .ofFloat x.sqrt

/-- Several arguments, or the items of a single one; all of them have to be numbers. -/
def numbers (function : String) (args : List Value) : Except Failure (List Value) := do
  let values := match args with
    | [single] =>
      (splitItems [','] single.text.toList).map fun cs => .ofText (String.ofList (Text.trim cs))
    | _ => args
  values.forM fun v => do discard (number function v)
  return values

/-- The first value that no other one beats. -/
def best (function : String) (beats : Float → Float → Bool) :
    (champion : Value) → List Value → Except Failure Value
  | champion, [] => .ok champion
  | champion, v :: rest => do
    let x ← number function v
    let y ← number function champion
    best function beats (if beats x y then v else champion) rest

def extreme (function : String) (beats : Float → Float → Bool) (args : List Value) :
    Except Failure Value := do
  match ← numbers function args with
  | [] => throw (.semantic (.notListFor function))
  | v :: rest => best function beats v rest

def total (values : List Value) : Except Failure Value :=
  values.foldlM Value.add (.ofInt 0)

def mean (args : List Value) : Except Failure Value := do
  let values ← numbers "average" args
  if values.isEmpty then throw (.semantic (.notListFor "average"))
  else (← total values).divide (.ofInt values.length)

def randomUpTo (source : Draws) (v : Value) : Except Failure Value := do
  let upper ← v.toInteger
  if upper < 1 then throw (.semantic (.badRandomBound upper))
  else return .ofInt (source.pick upper.toNat)

/-! ## Text -/

/-- The position of the first suffix that starts with `needle` in lower case, from `position`. -/
def offsetFrom (needle : List Char) (position : Nat) : List Char → Nat
  | [] => 0
  | c :: rest =>
    if Text.startsLowered [] needle (c :: rest) then position
    else offsetFrom needle (position + 1) rest

/-- The position of `needle` in `haystack` in any letter case, from one; zero if there is none. -/
def offsetOf (needle haystack : List Char) : Nat :=
  let needle := Text.lower needle
  if needle.isEmpty then 0 else offsetFrom needle 1 haystack

def codeOf (v : Value) : Value :=
  match v.text.toList with
  | c :: _ => .ofInt c.toNat
  | [] => .empty

def characterOf (v : Value) : Except Failure Value := do
  let code ← v.toInteger
  if 0 ≤ code && code.toNat.isValidChar then
    return .ofText (String.singleton (Char.ofNat code.toNat))
  else throw (.semantic (.notCharacterCode code))

/-! ## The running handler -/

/-- An argument of the running handler; the message itself is number zero. -/
def argument (m : Machine) (v : Value) : Except Failure Value := do
  let index ← v.toInteger
  if index == 0 then return .ofText ((m.frame?.map (·.message)).getD "")
  else if index < 0 then return .empty
  else return m.args[(index - 1).toNat]?.getD .empty

/-- What a function answers; `arity` has been checked. -/
def run (b : Builtin) (m : Machine) (args : List Value) : Except Failure Value :=
  let first := args.headD .empty
  let second := args.tail.headD .empty
  match b with
  | length => .ok (.ofInt first.text.length)
  | abs => absolute first
  | round => do return .ofFloat (Number.roundHalfAway (← number "round" first))
  | trunc => do return .ofFloat (Number.truncate (← number "trunc" first))
  | sqrt => squareRoot first
  | min => extreme "min" (fun x y => x < y) args
  | max => extreme "max" (fun x y => y < x) args
  | sum => do total (← numbers "sum" args)
  | average => mean args
  | random => randomUpTo m.world.draws first
  | offset => .ok (.ofInt (offsetOf first.text.toList second.text.toList))
  | charToNum => .ok (codeOf first)
  | numToChar => characterOf first
  | param => argument m first
  | paramCount => .ok (.ofInt m.args.length)
  | params => .ok (.ofItems m.args)
  | date => .ok (.ofText m.world.clock.now.date)
  | time => .ok (.ofText m.world.clock.now.time)
  | seconds => .ok (.ofInt m.world.clock.now.seconds)
  | ticks => .ok (.ofInt m.world.clock.now.ticks)
  | result => .ok m.context.result
  | target => .ok (.ofText ((m.context.target.map m.world.describe).getD ""))

/-- Calls a function by the name a script used. -/
def call (b : Builtin) (name : String) (m : Machine) (args : List Value) : Except Failure Value :=
  if b.arity.accepts args.length then b.run m args
  else .error (.semantic (.wrongArity name b.arity.describe args.length))

end Builtin

/-- Calls the built-in function of a name, if there is one. -/
def callBuiltin? (name : String) (args : List Value) : Option (Action Value) :=
  (Builtin.named? name).map fun b => do
    let answer := b.call name (← get) args
    Action.changeWorld fun w => { w with draws := w.draws.skip b.draws }
    Action.changeWorld fun w => { w with clock := w.clock.skip b.readings }
    Action.ofExcept answer

end CardScript
