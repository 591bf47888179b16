import CardScript.Number.Binary64

/-!
# The shortest decimal of a double

`shortest` gives the decimal with the fewest digits among those that round to a given double, and
of two such decimals the nearer one. `text` writes it positionally: no exponent, and no point
unless a fraction follows.
-/

namespace CardScript.Number

/-- `digits * 10 ^ exponent`. -/
structure Decimal where
  digits : Nat
  exponent : Int
deriving Repr, DecidableEq

/-- A positive double in quarters of its last place, with the ends of the interval of reals that
round to it: all three are to be multiplied by `2 ^ exponent`. -/
structure Interval where
  low : Nat
  value : Nat
  high : Nat
  exponent : Int
  closed : Bool

/-- The reals that round to `m * 2 ^ e`. Below a power of two the doubles are twice as dense, and
the ends belong to the interval when the significand is even. -/
def Interval.around (m : Nat) (e : Int) : Interval where
  low := if m == twoTo 52 && -1074 < e then 4 * m - 1 else 4 * m - 2
  value := 4 * m
  high := 4 * m + 2
  exponent := e - 2
  closed := m % 2 == 0

/-- The two neighbours of the value on the grid of multiples of `10 ^ k`: the nearer one inside
the interval, a tie going up. -/
def Interval.onGrid? (i : Interval) (k : Int) : Option Nat :=
  let scale := twoTo i.exponent.toNat * tenTo (-k).toNat
  let unit := twoTo (-i.exponent).toNat * tenTo k.toNat
  let below := i.value * scale / unit
  let inside (d : Nat) : Bool :=
    if i.closed then i.low * scale ≤ d * unit && d * unit ≤ i.high * scale
    else i.low * scale < d * unit && d * unit < i.high * scale
  match inside below, inside (below + 1) with
  | true, true =>
    if (below + 1) * unit - i.value * scale ≤ i.value * scale - below * unit then some (below + 1)
    else some below
  | true, false => some below
  | false, true => some (below + 1)
  | false, false => none

/-- The power of ten of the leading digit of `m * 2 ^ e`. -/
def leadingPower (m : Nat) (e : Int) : Int :=
  let atLeast (p : Int) : Bool :=
    tenTo p.toNat * twoTo (-e).toNat ≤ m * twoTo e.toNat * tenTo (-p).toNat
  let guess := ((m.log2 : Int) + e) * 30103 / 100000
  if !atLeast guess then guess - 1 else if atLeast (guess + 1) then guess + 1 else guess

/-- Tries one digit after another; seventeen digits always suffice. -/
def Interval.shortestFrom (i : Interval) (lead : Int) : (more : Nat) → (digits : Nat) → Decimal
  | 0, digits =>
    let k := lead - digits + 1
    ⟨(i.onGrid? k).getD 0, k⟩
  | more + 1, digits =>
    let k := lead - digits + 1
    match i.onGrid? k with
    | some d => ⟨d, k⟩
    | none => i.shortestFrom lead more (digits + 1)

/-- The shortest decimal that rounds to `m * 2 ^ e`, for a positive `m`. -/
def shortest (m : Nat) (e : Int) : Decimal :=
  (Interval.around m e).shortestFrom (leadingPower m e) 16 1

/-- Positional digits of a decimal. -/
def Decimal.positional (d : Decimal) : List Char :=
  let digits := Nat.toDigits 10 d.digits
  if 0 ≤ d.exponent then digits ++ List.replicate d.exponent.toNat '0'
  else
    let places := (-d.exponent).toNat
    let padded := List.replicate (places + 1 - digits.length) '0' ++ digits
    let fraction := (padded.drop (padded.length - places)).reverse.dropWhile (· == '0')
    let integral := padded.take (padded.length - places)
    if fraction.isEmpty then integral else integral ++ '.' :: fraction.reverse

/-- The text of a double: the shortest decimal that reads back, never with an exponent. -/
def text (x : Float) : String :=
  match parts x with
  | .notANumber => "NaN"
  | .infinite negative => if negative then "-inf" else "inf"
  | .finite negative m e =>
    let digits := if m == 0 then ['0'] else (shortest m e).positional
    String.ofList (if negative then '-' :: digits else digits)

end CardScript.Number
