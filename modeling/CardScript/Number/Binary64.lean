import CardScript.Number.Word

/-!
# Doubles as exact numbers

A finite double is a sign, a whole significand and a power of two. `parts` takes a double apart,
`ofRatio` rounds an exact fraction to the nearest double (a tie goes to the even significand), and
truncation, rounding to a whole number and the remainder are exact in between.
-/

namespace CardScript.Number

/-- What a double denotes. A finite one is `± significand * 2 ^ exponent`. -/
inductive Parts where
  | notANumber
  | infinite (negative : Bool)
  | finite (negative : Bool) (significand : Nat) (exponent : Int)
deriving Repr, DecidableEq

def parts (x : Float) : Parts :=
  let bits := x.toBits.toNat
  let negative := bits / twoTo 63 == 1
  let biased : Nat := bits / twoTo 52 % twoTo 11
  let fraction : Nat := bits % twoTo 52
  if biased == 2047 then
    if fraction == 0 then .infinite negative else .notANumber
  else if biased == 0 then .finite negative fraction (-1074)
  else .finite negative (twoTo 52 + fraction) ((biased : Int) - 1075)

/-- The exponent at which the significand of `num / den` has fifty-three bits, or the least
exponent there is. -/
def exponentFor (num den : Nat) : Int :=
  let e : Int := (num.log2 : Int) - den.log2 - 52
  let e := if num * twoTo (-e).toNat < twoTo 52 * den * twoTo e.toNat then e - 1 else e
  max e (-1074)

/-- `num / den` rounded to a whole number, a tie going to the even neighbour. -/
def roundHalfEven (num den : Nat) : Nat :=
  let q := num / den
  let r := num % den
  if 2 * r > den || (2 * r == den && q % 2 == 1) then q + 1 else q

/-- The double nearest to `± num / den`; a fraction too large for any double is infinite. -/
def ofRatio (negative : Bool) (num den : Nat) : Float :=
  let signBit : Nat := if negative then twoTo 63 else 0
  if num == 0 then Float.ofBits (UInt64.ofNat signBit)
  else
    let e := exponentFor num den
    let q := roundHalfEven (num * twoTo (-e).toNat) (den * twoTo e.toNat)
    let magnitude := min ((e + 1074).toNat * twoTo 52 + q) (2047 * twoTo 52)
    Float.ofBits (UInt64.ofNat (signBit + magnitude))

/-- The whole number that a double denotes, if it denotes one. -/
def whole? (x : Float) : Option Int :=
  match parts x with
  | .finite negative m e =>
    let signed (n : Nat) : Int := if negative then -n else n
    if 0 ≤ e then some (signed (m * twoTo e.toNat))
    else if m % twoTo (-e).toNat == 0 then some (signed (m / twoTo (-e).toNat))
    else none
  | _ => none

/-- The whole part, toward zero. -/
def truncate (x : Float) : Float :=
  match parts x with
  | .finite negative m e => if 0 ≤ e then x else ofRatio negative (m / twoTo (-e).toNat) 1
  | _ => x

/-- The nearest whole number; halves go away from zero. -/
def roundHalfAway (x : Float) : Float :=
  match parts x with
  | .finite negative m e =>
    if 0 ≤ e then x
    else ofRatio negative ((2 * m + twoTo (-e).toNat) / (2 * twoTo (-e).toNat)) 1
  | _ => x

/-- The remainder of truncating division, with the sign of the dividend. -/
def remainder (x y : Float) : Float :=
  match parts x, parts y with
  | .finite negative m e, .finite _ n f =>
    if n == 0 then 0 / 0
    else
      let low := min e f
      let r := (m * twoTo (e - low).toNat) % (n * twoTo (f - low).toNat)
      ofRatio negative (r * twoTo low.toNat) (twoTo (-low).toNat)
  | .finite .., .infinite _ => x
  | _, _ => 0 / 0

def isFinite (x : Float) : Bool :=
  match parts x with
  | .finite .. => true
  | _ => false

end CardScript.Number
