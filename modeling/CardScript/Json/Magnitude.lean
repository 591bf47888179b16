import CardScript.Json.Basic
import CardScript.Number.Numeral

/-!
# The size of numbers in JSON

A number that is not whole is judged by as many of its leading digits as fit a word of sixty-four
bits and a power of ten. It can be carried if the product of the two, as doubles, is finite.
-/

namespace CardScript.Json

/-- `significand * 10 ^ exponent`. -/
structure Scaled where
  significand : Nat := 0
  exponent : Int := 0
  /-- A digit has been met that did not fit. -/
  isFull : Bool := false
deriving Repr, DecidableEq, Inhabited

namespace Scaled

/-- Takes a digit in, if it still fits. -/
def append? (s : Scaled) (d : Char) : Option Scaled :=
  let n := Number.appendDigit s.significand d
  if !s.isFull && n < Number.wordCount then some { s with significand := n } else none

/-- A digit before the point; one that does not fit still moves the others up. -/
def appendWhole (s : Scaled) (d : Char) : Scaled :=
  (s.append? d).getD { s with exponent := s.exponent + 1, isFull := true }

/-- A digit after the point. -/
def appendFraction (s : Scaled) (d : Char) : Scaled :=
  match s.append? d with
  | some s => { s with exponent := s.exponent - 1 }
  | none => { s with isFull := true }

/-- The digits before and after a point. -/
def ofDigits (integral fraction : List Char) : Scaled :=
  let s := integral.foldl appendWhole {}
  fraction.foldl appendFraction { s with isFull := false }

def raise (s : Scaled) (exponent : Int) : Scaled :=
  { s with exponent := s.exponent + exponent }

/-- The product is a finite double. No power of ten beyond `10 ^ 308` is a double itself. -/
def isFinite (s : Scaled) : Bool :=
  let power := Number.ofRatio false (Number.tenTo (min s.exponent 308).toNat) 1
  s.significand == 0 || s.exponent < 0 ||
    (s.exponent ≤ 308 && Number.isFinite (Number.ofRatio false s.significand 1 * power))

end Scaled

/-- A number as it is written. -/
def numeral (negative : Bool) (integral fraction : List Char) (exponent : Option Int) : String :=
  let sign := if negative then ['-'] else []
  let point := if fraction.isEmpty then [] else '.' :: fraction
  String.ofList (sign ++ integral ++ point) ++ exponent.elim "" fun e => "e" ++ toString e

end CardScript.Json
