import CardScript.Value.Basic

/-!
# Arithmetic on values

Whole numbers are computed exactly while the result fits a word; otherwise, and for any other
number, arithmetic is that of doubles. A result that is no finite double is a failure. A blank
value counts as zero.
-/

namespace CardScript.Value

/-- The reading of an operand. -/
def operand (operator : String) (side : Side) (v : Value) : Except Failure Numeric :=
  if (Text.trim v.text.toList).isEmpty then .ok (.whole 0)
  else
    match v.numeric? with
    | some n => .ok n
    | none => .error (.semantic (.badOperand side operator v.text))

def operands (operator : String) (v w : Value) : Except Failure (Numeric × Numeric) := do
  let a ← operand operator .left v
  let b ← operand operator .right w
  return (a, b)

/-- A finite double as a value. -/
def ofFinite (operator : String) (x : Float) : Except Failure Value :=
  if Number.isFinite x then .ok (ofFloat x) else .error (.semantic (.tooLarge operator))

/-- Exact on whole numbers whose result fits a word, on doubles otherwise. -/
def arithmetic (operator : String) (exact : Int → Int → Int) (real : Float → Float → Float)
    (v w : Value) : Except Failure Value := do
  let (a, b) ← operands operator v w
  let inexact := ofFinite operator (real a.toFloat b.toFloat)
  match a, b with
  | .whole m, .whole n =>
    match Number.word? (exact m n) with
    | some k => return ofInt k
    | none => inexact
  | _, _ => inexact

def add (v w : Value) : Except Failure Value :=
  arithmetic "add" (· + ·) (· + ·) v w

def subtract (v w : Value) : Except Failure Value :=
  arithmetic "subtract" (· - ·) (· - ·) v w

def multiply (v w : Value) : Except Failure Value :=
  arithmetic "multiply" (· * ·) (· * ·) v w

/-- The operands of a division, the second of which is not zero. -/
def divisionOperands (operator : String) (v w : Value) : Except Failure (Numeric × Numeric) := do
  let (a, b) ← operands operator v w
  if b.toFloat == 0 then .error (.semantic .divisionByZero) else return (a, b)

/-- Division; whole when it comes out even. -/
def divide (v w : Value) : Except Failure Value := do
  let (a, b) ← divisionOperands "divide" v w
  let inexact := ofFinite "divide" (a.toFloat / b.toFloat)
  match a, b with
  | .whole m, .whole n =>
    match Number.word? (m.tdiv n) with
    | some q => if m.tmod n == 0 then return ofInt q else inexact
    | none => inexact
  | _, _ => inexact

/-- Division cut off toward zero. -/
def div (v w : Value) : Except Failure Value := do
  let (a, b) ← divisionOperands "div" v w
  let inexact := ofFinite "div" (Number.truncate (a.toFloat / b.toFloat))
  match a, b with
  | .whole m, .whole n =>
    match Number.word? (m.tdiv n) with
    | some q => return ofInt q
    | none => inexact
  | _, _ => inexact

/-- The remainder of `div`, with the sign of the dividend. -/
def mod (v w : Value) : Except Failure Value := do
  let (a, b) ← divisionOperands "mod" v w
  let inexact := ofFinite "mod" (Number.remainder a.toFloat b.toFloat)
  match a, b with
  | .whole m, .whole n =>
    match Number.word? (m.tdiv n) with
    | some _ => return ofInt (m.tmod n)
    | none => inexact
  | _, _ => inexact

def power (v w : Value) : Except Failure Value := do
  let (a, b) ← operands "^" v w
  ofFinite "^" (Float.pow a.toFloat b.toFloat)

def negate (v : Value) : Except Failure Value := do
  match ← operand "negate" .only v with
  | .whole n =>
    match Number.word? (-n) with
    | some m => return ofInt m
    | none => return ofFloat (-Float.ofInt n)
  | .real x => return ofFloat (-x)

end CardScript.Value
