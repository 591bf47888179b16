import CardScript.Value.Basic

/-!
# Comparison and logic

Two numbers are compared as numbers, anything else as text in any letter case.
-/

namespace CardScript.Value

/-- The order of two doubles; what cannot be ordered counts as equal. -/
def compareFloats (x y : Float) : Ordering :=
  if x < y then .lt else if y < x then .gt else .eq

def order (v w : Value) : Ordering :=
  match v.numeric?, w.numeric? with
  | some (.whole m), some (.whole n) => compare m n
  | some a, some b => compareFloats a.toFloat b.toFloat
  | _, _ => compare (Text.lowerString v.text) (Text.lowerString w.text)

def equals (v w : Value) : Value :=
  ofBool (order v w == .eq)

def notEquals (v w : Value) : Value :=
  ofBool (order v w != .eq)

def less (v w : Value) : Value :=
  ofBool (order v w == .lt)

def lessOrEqual (v w : Value) : Value :=
  ofBool (order v w != .gt)

def greater (v w : Value) : Value :=
  ofBool (order v w == .gt)

def greaterOrEqual (v w : Value) : Value :=
  ofBool (order v w != .lt)

/-- `w` occurs in `v`, in any letter case. -/
def contains (v w : Value) : Value :=
  ofBool ((Text.lowerString v.text).contains (Text.lowerString w.text))

def isIn (v w : Value) : Value :=
  contains w v

def not (v : Value) : Except Failure Value := do
  return ofBool (!(← v.toBoolean))

/-- The second operand counts only if the first one is true. -/
def and (v w : Value) : Except Failure Value := do
  if ← v.toBoolean then return ofBool (← w.toBoolean) else return ofBool false

/-- The second operand counts only if the first one is false. -/
def or (v w : Value) : Except Failure Value := do
  if ← v.toBoolean then return ofBool true else return ofBool (← w.toBoolean)

end CardScript.Value
