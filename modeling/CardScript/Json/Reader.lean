import CardScript.Json.Magnitude

/-!
# Reading JSON

No comments, no trailing commas, no bare control characters in strings. A whole number is one only
as far as it fits a word of sixty-four bits, signed or not. What is well written but cannot be
carried is marked in the tree: `readText?` leaves it there, so that fields nobody asks for may hold
anything, and `read?` refuses it.
-/

namespace CardScript.Json

/-- How many arrays and objects may lie inside each other. -/
def maxNesting : Nat := 127

/-- The rest of a text, with what was read from it; `none` where the text is not JSON. -/
abbrev Reader (α : Type) := List Char → Option (α × List Char)

def isSpace (c : Char) : Bool :=
  c == ' ' || c == '\t' || c == '\n' || c == '\r'

def skipSpace (cs : List Char) : List Char :=
  cs.dropWhile isSpace

def hexValue? (c : Char) : Option Nat :=
  let n := c.toNat
  if '0' ≤ c && c ≤ '9' then some (n - '0'.toNat)
  else if 'a' ≤ c && c ≤ 'f' then some (n - 'a'.toNat + 10)
  else if 'A' ≤ c && c ≤ 'F' then some (n - 'A'.toNat + 10)
  else none

/-- Four hexadecimal digits. -/
def readUnit : Reader Nat
  | a :: b :: c :: d :: rest => do
    let a ← hexValue? a
    let b ← hexValue? b
    let c ← hexValue? c
    let d ← hexValue? d
    return (((a * 16 + b) * 16 + c) * 16 + d, rest)
  | _ => none

/-- The escape of the second half of a surrogate pair. -/
def readLowHalf : Reader Nat
  | '\\' :: 'u' :: rest => do
    let (low, rest) ← readUnit rest
    if 0xdc00 ≤ low && low ≤ 0xdfff then return (low, rest) else none
  | _ => none

/-- The code point of an escape: one unit, or two that form a surrogate pair. Half of a pair has
none. -/
def readEscapedPoint : Reader (Option Char) := fun cs => do
  let (unit, rest) ← readUnit cs
  if unit < 0xd800 || 0xdfff < unit then return (some (Char.ofNat unit), rest)
  else if 0xdc00 ≤ unit then return (none, rest)
  else
    match readLowHalf rest with
    | some (low, rest) =>
      return (some (Char.ofNat (0x10000 + (unit - 0xd800) * 0x400 + (low - 0xdc00))), rest)
    | none => return (none, rest)

/-- The character after a backslash. -/
def readEscape : Reader (Option Char)
  | '"' :: rest => some (some '"', rest)
  | '\\' :: rest => some (some '\\', rest)
  | '/' :: rest => some (some '/', rest)
  | 'b' :: rest => some (some '\x08', rest)
  | 'f' :: rest => some (some '\x0c', rest)
  | 'n' :: rest => some (some '\n', rest)
  | 'r' :: rest => some (some '\r', rest)
  | 't' :: rest => some (some '\t', rest)
  | 'u' :: rest => readEscapedPoint rest
  | _ => none

/-- The characters of a string up to its closing quote; `done` holds those read, reversed, unless
one of them is half of a pair. -/
def readChars : (fuel : Nat) → (done : Option (List Char)) → Reader (Option String)
  | 0, _, _ => none
  | _ + 1, _, [] => none
  | fuel + 1, done, c :: rest =>
    if c == '"' then some (done.map fun cs => String.ofList cs.reverse, rest)
    else if c == '\\' then do
      let (escaped, rest) ← readEscape rest
      readChars fuel (done.bind fun cs => escaped.map (· :: cs)) rest
    else if c.toNat < 0x20 then none
    else readChars fuel (done.map (c :: ·)) rest

def readString (fuel : Nat) : Reader (Option String)
  | '"' :: rest => readChars fuel (some []) rest
  | _ => none

/-- One or more digits. -/
def readDigits : Reader (List Char) := fun cs =>
  let digits := cs.takeWhile Char.isDigit
  if digits.isEmpty then none else some (digits, cs.dropWhile Char.isDigit)

/-- The digits after a point, if there is one. -/
def readFraction : Reader (List Char)
  | '.' :: rest => readDigits rest
  | cs => some ([], cs)

/-- The number after an exponent mark, if there is one. -/
def readExponent : Reader (Option Int)
  | c :: rest =>
    if c == 'e' || c == 'E' then do
      let (negative, unsigned) := Number.takeSign rest
      let (digits, rest) ← readDigits unsigned
      return (some (Number.signed negative (Number.ofDigits digits)), rest)
    else some (none, c :: rest)
  | [] => some (none, [])

/-- A number without leading zeros. -/
def readNumber : Reader Json := fun cs => do
  let (negative, unsigned) := match cs with
    | '-' :: rest => (true, rest)
    | _ => (false, cs)
  let (integral, rest) ← readDigits unsigned
  if integral.length > 1 && integral.head? == some '0' then none
  else
    let (fraction, rest) ← readFraction rest
    let (exponent, rest) ← readExponent rest
    let n := Number.signed negative (Number.ofDigits integral)
    if fraction.isEmpty && exponent.isNone && !(negative && n == 0)
        && Number.wordMin ≤ n && n < Number.wordCount then
      return (whole n, rest)
    else if ((Scaled.ofDigits integral fraction).raise (exponent.getD 0)).isFinite then
      return (decimal (numeral negative integral fraction exponent), rest)
    else return (unrepresentable, rest)

/-- What an array or object is read as where `nesting` more of them may lie inside each other. -/
def atNesting : (nesting : Nat) → Json → Json
  | 0, _ => unrepresentable
  | _ + 1, j => j

mutual

def readValue : (fuel nesting : Nat) → Reader Json
  | 0, _, _ => none
  | _ + 1, _, [] => none
  | fuel + 1, nesting, c :: rest =>
    if c == '"' then (readChars fuel (some []) rest).map fun (s, rest) => (ofText? s, rest)
    else if c == '[' then do
      let (items, rest) ← match skipSpace rest with
        | ']' :: rest => some ([], rest)
        | rest => readItems fuel (nesting - 1) [] rest
      return (atNesting nesting (array items), rest)
    else if c == '\x7b' then do
      let (fields, rest) ← match skipSpace rest with
        | '\x7d' :: rest => some (some [], rest)
        | rest => readFields fuel (nesting - 1) (some []) rest
      return (atNesting nesting (ofFields? fields), rest)
    else if c == '-' || c.isDigit then readNumber (c :: rest)
    else
      match c :: rest with
      | 'n' :: 'u' :: 'l' :: 'l' :: rest => some (null, rest)
      | 't' :: 'r' :: 'u' :: 'e' :: rest => some (bool true, rest)
      | 'f' :: 'a' :: 'l' :: 's' :: 'e' :: rest => some (bool false, rest)
      | _ => none

/-- The items of an array up to its closing bracket; `done` holds those read, reversed. -/
def readItems : (fuel nesting : Nat) → (done : List Json) → Reader (List Json)
  | 0, _, _, _ => none
  | fuel + 1, nesting, done, cs => do
    let (item, rest) ← readValue fuel nesting (skipSpace cs)
    match skipSpace rest with
    | ',' :: rest => readItems fuel nesting (item :: done) rest
    | ']' :: rest => return ((item :: done).reverse, rest)
    | _ => none

/-- The fields of an object up to its closing brace; `done` holds those read, reversed, unless one
of their names has half of a surrogate pair in it. -/
def readFields :
    (fuel nesting : Nat) → (done : Option (List (String × Json))) →
      Reader (Option (List (String × Json)))
  | 0, _, _, _ => none
  | fuel + 1, nesting, done, cs => do
    let (name, rest) ← readString fuel (skipSpace cs)
    match skipSpace rest with
    | ':' :: rest =>
      let (value, rest) ← readValue fuel nesting (skipSpace rest)
      let done := done.bind fun fields => name.map fun name => (name, value) :: fields
      match skipSpace rest with
      | ',' :: rest => readFields fuel nesting done rest
      | '\x7d' :: rest => return (done.map List.reverse, rest)
      | _ => none
    | _ => none

end

/-- Reads a whole text as one JSON value, parts of which may be unrepresentable. -/
def readText? (s : String) : Option Json := do
  let cs := s.toList
  let (j, rest) ← readValue (2 * cs.length + 1) maxNesting (skipSpace cs)
  if (skipSpace rest).isEmpty then return j else none

/-- Reads a whole text as one JSON value that can be carried throughout. -/
def read? (s : String) : Option Json :=
  (readText? s).filter isRepresentable

end CardScript.Json
