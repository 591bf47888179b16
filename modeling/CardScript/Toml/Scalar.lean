import CardScript.Number.Numeral
import CardScript.Text.Search
import CardScript.Toml.Basic

/-!
# Plain values of TOML

Numbers, truth values, dates and times: everything that is written in one piece without quotes.
Digits may be grouped by underscores between them.
-/

namespace CardScript.Toml

/-- The digits of a numeral without the underscores between them. -/
def ungroup? (isDigit : Char → Bool) (cs : List Char) : Option (List Char) :=
  let groups := Text.splitOn ['_'] cs
  if groups.all fun g => !g.isEmpty && g.all isDigit then some groups.flatten else none

/-- Decimal digits that do not start with a needless zero. -/
def integral? (cs : List Char) : Option (List Char) := do
  let digits ← ungroup? Char.isDigit cs
  if digits.length > 1 && digits.head? == some '0' then none else return digits

def digitValue (c : Char) : Nat :=
  if c.isDigit then c.toNat - '0'.toNat else c.toLower.toNat - 'a'.toNat + 10

/-- Digits of a base, at most `16`. -/
def inBase? (base : Nat) (cs : List Char) : Option Int := do
  let isDigit (c : Char) : Bool :=
    (c.isDigit || ('a' ≤ c.toLower && c.toLower ≤ 'f')) && digitValue c < base
  let digits ← ungroup? isDigit cs
  return (digits.foldl (fun n d => base * n + digitValue d) 0 : Nat)

/-- A whole number that fits a word. -/
def readWhole? (cs : List Char) : Option Int := do
  let n ← match cs with
    | '0' :: 'x' :: digits => inBase? 16 digits
    | '0' :: 'o' :: digits => inBase? 8 digits
    | '0' :: 'b' :: digits => inBase? 2 digits
    | _ =>
      let (negative, digits) := Number.takeSign cs
      (integral? digits).map fun digits => Number.signed negative (Number.ofDigits digits)
  Number.word? n

def isSign (c : Char) : Bool :=
  c == '+' || c == '-'

def isExponentMark (c : Char) : Bool :=
  c == 'e' || c == 'E'

/-- An exponent with its mark and an optional sign, or nothing. -/
def exponent? : List Char → Option (List Char)
  | [] => some []
  | _ :: rest => do
    let digits ← ungroup? Char.isDigit (Number.takeSign rest).2
    return 'e' :: rest.takeWhile isSign ++ digits

/-- A fraction with its point, or nothing. -/
def fraction? : List Char → Option (List Char)
  | [] => some []
  | _ :: rest => do
    let digits ← ungroup? Char.isDigit rest
    return '.' :: digits

/-- A number with a fraction, an exponent or both, without underscores. -/
def decimal? (cs : List Char) : Option (List Char) := do
  let unsigned := (Number.takeSign cs).2
  let mantissa := unsigned.takeWhile (!isExponentMark ·)
  let digits ← integral? (mantissa.takeWhile (· != '.'))
  let fraction ← fraction? (mantissa.dropWhile (· != '.'))
  let exponent ← exponent? (unsigned.dropWhile (!isExponentMark ·))
  if fraction.isEmpty && exponent.isEmpty then none
  else return cs.takeWhile isSign ++ digits ++ fraction ++ exponent

/-- A number that is not whole. It may be infinite only by name, or below all others. -/
def readReal? (cs : List Char) : Option String :=
  let word := String.ofList (Number.takeSign cs).2
  if word == "inf" || word == "nan" then some (String.ofList cs)
  else do
    let numeral ← decimal? cs
    let x ← Number.readDecimal? numeral
    if 0 < x && !Number.isFinite x then none else return String.ofList numeral

/-! ## Dates and times -/

def two? (a b : Char) : Option Nat :=
  if a.isDigit && b.isDigit then some (Number.ofDigits [a, b]) else none

def daysIn (year month : Nat) : Nat :=
  if month == 2 then
    if year % 4 == 0 && (year % 100 != 0 || year % 400 == 0) then 29 else 28
  else if month == 4 || month == 6 || month == 9 || month == 11 then 30
  else 31

/-- What follows a date. -/
def afterDate? : List Char → Option (List Char)
  | a :: b :: c :: d :: '-' :: e :: f :: '-' :: g :: h :: rest => do
    let century ← two? a b
    let year ← two? c d
    let month ← two? e f
    let day ← two? g h
    if 1 ≤ month && month ≤ 12 && 1 ≤ day && day ≤ daysIn (100 * century + year) month then
      return rest
    else none
  | _ => none

/-- What follows a time of day. A minute may have a leap second. -/
def afterTime? : List Char → Option (List Char)
  | a :: b :: ':' :: c :: d :: ':' :: e :: f :: rest => do
    let hour ← two? a b
    let minute ← two? c d
    let second ← two? e f
    if 23 < hour || 59 < minute || 60 < second then none
    else
      match rest with
      | '.' :: rest =>
        if (rest.takeWhile Char.isDigit).isEmpty then none else return rest.dropWhile Char.isDigit
      | _ => return rest
  | _ => none

/-- The distance from universal time, or nothing. -/
def isOffset : List Char → Bool
  | [] | ['Z'] | ['z'] => true
  | [sign, a, b, ':', c, d] =>
    (sign == '+' || sign == '-') && (two? a b).any (· ≤ 23) && (two? c d).any (· ≤ 59)
  | _ => false

def isMoment (cs : List Char) : Bool :=
  match afterDate? cs with
  | some [] => true
  | some (mark :: rest) =>
    (mark == 'T' || mark == 't' || mark == ' ') && (afterTime? rest).any isOffset
  | none => (afterTime? cs).any List.isEmpty

/-- The value that a piece without quotes stands for. -/
def readScalar? (cs : List Char) : Option Toml :=
  let written := String.ofList cs
  if written == "true" then some (bool true)
  else if written == "false" then some (bool false)
  else
    match readWhole? cs, readReal? cs with
    | some n, _ => some (whole n)
    | none, some numeral => some (real numeral)
    | none, none => if isMoment cs then some (moment written) else none

end CardScript.Toml
