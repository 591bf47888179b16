import CardScript.Number.Binary64
import CardScript.Number.Word

/-!
# Numerals

Reading numbers from text. A whole numeral is an optional sign and digits; a decimal numeral is an
optional sign, digits with an optional point, and an optional exponent. Long numerals are put
together from halves, so that reading one takes little more time than writing it.
-/

namespace CardScript.Number

def digitValue (d : Char) : Nat :=
  d.toNat - '0'.toNat

/-- Puts a digit at the end of a number. -/
def appendDigit (n : Nat) (d : Char) : Nat :=
  10 * n + digitValue d

/-- The number written by decimal digits, read one by one. -/
def ofDigitsInTurn (ds : List Char) : Nat :=
  ds.foldl appendDigit 0

/-- The number written by decimal digits, cut in half `halvings` times over. -/
def ofHalves : (halvings : Nat) → List Char → Nat
  | 0, ds => ofDigitsInTurn ds
  | k + 1, ds =>
    let upper := ds.take (ds.length - ds.length / 2)
    let lower := ds.drop (ds.length - ds.length / 2)
    ofHalves k upper * tenTo lower.length + ofHalves k lower

/-- The number written by decimal digits. -/
def ofDigits (ds : List Char) : Nat :=
  ofHalves (ds.length.log2 - 5) ds

theorem foldl_appendDigit (n : Nat) (ds : List Char) :
    ds.foldl appendDigit n = n * tenTo ds.length + ofDigitsInTurn ds := by
  unfold ofDigitsInTurn
  induction ds generalizing n with
  | nil => simp [tenTo]
  | cons d ds ih =>
    rw [List.foldl_cons, List.foldl_cons, ih, ih (appendDigit 0 d)]
    have shift : 10 * n * 10 ^ ds.length = n * (10 ^ ds.length * 10) := by
      rw [Nat.mul_comm 10, Nat.mul_assoc, Nat.mul_comm 10]
    simp only [appendDigit, tenTo, List.length_cons, Nat.pow_eq, Nat.pow_succ, Nat.add_mul, shift]
    omega

theorem ofDigitsInTurn_append (ds es : List Char) :
    ofDigitsInTurn (ds ++ es) = ofDigitsInTurn ds * tenTo es.length + ofDigitsInTurn es := by
  rw [ofDigitsInTurn, List.foldl_append, foldl_appendDigit]
  rfl

theorem ofHalves_eq (halvings : Nat) (ds : List Char) :
    ofHalves halvings ds = ofDigitsInTurn ds := by
  induction halvings generalizing ds with
  | zero => rfl
  | succ k ih => simp only [ofHalves, ih, ← ofDigitsInTurn_append, List.take_append_drop]

/-- Halves are put together to the number that the digits write in turn. -/
theorem ofDigits_eq (ds : List Char) : ofDigits ds = ofDigitsInTurn ds :=
  ofHalves_eq _ ds

/-- Splits an optional sign off; `true` stands for a minus. -/
def takeSign : List Char → Bool × List Char
  | '-' :: rest => (true, rest)
  | '+' :: rest => (false, rest)
  | cs => (false, cs)

def signed (negative : Bool) (n : Nat) : Int :=
  if negative then -n else n

/-- A whole numeral of any size. -/
def readWhole? (cs : List Char) : Option Int :=
  let (negative, digits) := takeSign cs
  if !digits.isEmpty && digits.all Char.isDigit then some (signed negative (ofDigits digits))
  else none

/-- A whole numeral that fits a word. -/
def readWord? (cs : List Char) : Option Int :=
  (readWhole? cs).bind word?

/-- Exponents grow only until they get here. -/
def exponentCap : Nat := 65536

/-- The size of an exponent: its digits are taken in while the number is below the cap, and those
that follow make no difference. -/
def exponentOfDigits (ds : List Char) : Nat :=
  ds.foldl (fun n d => if n < exponentCap then appendDigit n d else n) 0

/-- An exponent mark with its number, or nothing at all. -/
def readExponent? : List Char → Option Int
  | [] => some 0
  | c :: rest =>
    let (negative, digits) := takeSign rest
    if (c == 'e' || c == 'E') && !digits.isEmpty && digits.all Char.isDigit then
      some (signed negative (exponentOfDigits digits))
    else none

/-- `± digits * 10 ^ exponent` as a double. Numbers far outside the range of doubles are settled
without computing the power: with `b` for the number of bits after the first, `digits` is at least
`10 ^ (b / 4)` and below `10 ^ (b / 3 + 1)`. -/
def ofDecimal (negative : Bool) (digits : Nat) (exponent : Int) : Float :=
  if digits == 0 then ofRatio negative 0 1
  else
    let bits := digits.log2
    if 400 < exponent + (bits / 4 : Nat) then ofRatio negative (tenTo 400) 1
    else if exponent + (bits / 3 + 1 : Nat) < -400 then ofRatio negative 0 1
    else ofRatio negative (digits * tenTo exponent.toNat) (tenTo (-exponent).toNat)

/-- A decimal numeral, rounded to the nearest double. -/
def readDecimal? (cs : List Char) : Option Float :=
  let (negative, unsigned) := takeSign cs
  let integral := unsigned.takeWhile Char.isDigit
  let rest := unsigned.dropWhile Char.isDigit
  let (fraction, rest) :=
    match rest with
    | '.' :: rest => (rest.takeWhile Char.isDigit, rest.dropWhile Char.isDigit)
    | _ => ([], rest)
  if integral.isEmpty && fraction.isEmpty then none
  else
    (readExponent? rest).map fun exponent =>
      ofDecimal negative (ofDigits (integral ++ fraction)) (exponent - fraction.length)

/-- A decimal numeral, or one of the words for infinity and for what is not a number. -/
def readFloat? (cs : List Char) : Option Float :=
  match readDecimal? cs with
  | some x => some x
  | none =>
    let (negative, word) := takeSign cs
    let word := String.ofList (word.map Char.toLower)
    if word == "inf" || word == "infinity" then some (if negative then -1 / 0 else 1 / 0)
    else if word == "nan" then some (0 / 0)
    else none

end CardScript.Number
