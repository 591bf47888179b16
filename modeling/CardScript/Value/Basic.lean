import CardScript.Failure
import CardScript.Number.Numeral
import CardScript.Number.Shortest
import CardScript.Text.Blank
import CardScript.Text.Lowercase
import CardScript.Text.Quoted

/-!
# Values

Every datum of a script is a text. A value built from a number also carries that number, so that
arithmetic goes on from the number itself and not from its text; any other value is a number only
if its text reads as one.
-/

namespace CardScript

/-- The numeric reading of a value. -/
inductive Numeric where
  | whole (n : Int)
  | real (x : Float)

namespace Numeric

def toFloat : Numeric → Float
  | whole n => Float.ofInt n
  | real x => x

/-- The whole number a reading denotes, well inside the range of words for a double. -/
def toWhole? : Numeric → Option Int
  | whole n => some n
  | real x => (Number.whole? x).filter fun n => n.natAbs < 9200000000000000000

/-- Whole doubles below `10 ^ 15` are written as integers, others in the fewest digits. -/
def text : Numeric → String
  | whole n => toString n
  | real x =>
    match Number.whole? x with
    | some n => if n.natAbs < 1000000000000000 then toString n else Number.text x
    | none => Number.text x

/-- Characters that may occur in a number. -/
def isNumberChar (c : Char) : Bool :=
  c.isDigit || c == '+' || c == '-' || c == '.' || c == 'e' || c == 'E'

/-- Reads a number from a text, blanks around it aside. Infinite numbers do not count. -/
def read? (s : String) : Option Numeric :=
  let cs := Text.trim s.toList
  if cs.any Char.isDigit && cs.all isNumberChar then
    match Number.readWord? cs with
    | some n => some (whole n)
    | none => ((Number.readDecimal? cs).filter Number.isFinite).map real
  else none

end Numeric

/-- How a value came to be; two values with the same text are the same value all the same. -/
inductive Value.Kind where
  | text
  | number
  | boolean
  | list
deriving Repr, DecidableEq, Inhabited

structure Value where
  text : String
  kind : Value.Kind := .text
  /-- A literal in quotes. As the name of a part it never stands for a number. -/
  quoted : Bool := false
  /-- The number the value was built from. -/
  number : Option Numeric := none

namespace Value

def ofText (s : String) : Value :=
  { text := s }

def empty : Value :=
  ofText ""

instance : Inhabited Value := ⟨empty⟩

def ofQuoted (s : String) : Value :=
  { text := s, quoted := true }

def ofNumeric (n : Numeric) : Value :=
  { text := n.text, kind := .number, number := some n }

def ofInt (n : Int) : Value :=
  ofNumeric (.whole n)

def ofFloat (x : Float) : Value :=
  ofNumeric (.real x)

/-- A count; beyond the range of words it is only a double. -/
def ofCount (n : Nat) : Value :=
  match Number.word? n with
  | some n => ofInt n
  | none => ofFloat (Float.ofNat n)

def ofBool (b : Bool) : Value :=
  { text := if b then "true" else "false", kind := .boolean }

def isEmpty (v : Value) : Bool :=
  v.text.isEmpty

/-- The numeric reading: the number the value was built from, or else what its text reads as. -/
def numeric? (v : Value) : Option Numeric :=
  match v.number with
  | some n => some n
  | none => Numeric.read? v.text

def isNumber (v : Value) : Bool :=
  v.numeric?.isSome

def whole? (v : Value) : Option Int :=
  v.numeric?.bind Numeric.toWhole?

def isInteger (v : Value) : Bool :=
  v.whole?.isSome

/-- `true` and `false` in any letter case, blanks around them aside. -/
def boolean? (v : Value) : Option Bool :=
  let word := Text.trimString v.text
  if Text.sameIgnoringAsciiCase word "true" then some true
  else if Text.sameIgnoringAsciiCase word "false" then some false
  else none

def isBoolean (v : Value) : Bool :=
  v.boolean?.isSome

def toInteger (v : Value) : Except Failure Int :=
  match v.whole? with
  | some n => .ok n
  | none => .error (.semantic (.notInteger v.text))

def toReal (v : Value) : Except Failure Float :=
  match v.numeric? with
  | some n => .ok n.toFloat
  | none => .error (.semantic (.notNumber v.text))

def toBoolean (v : Value) : Except Failure Bool :=
  match v.boolean? with
  | some b => .ok b
  | none => .error (.semantic (.notBoolean v.text))

/-- Identity of values is identity of texts. -/
def sameText (v w : Value) : Bool :=
  v.text == w.text

/-- The value as shown to someone looking for an error. -/
def inspect (v : Value) : String :=
  if v.quoted then s!"Value(\"{v.text}\" quoted)" else s!"Value({Text.quoted v.text})"

end Value

end CardScript
