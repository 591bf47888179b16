import CardScript.Json.Reader
import CardScript.Json.Writer
import CardScript.Toml.Basic

/-!
# Texts in TOML

Four ways to quote a text: within one line or over several, with escapes or taken literally. The
writer takes the plainest way that needs no escapes, if there is one.
-/

namespace CardScript.Toml

/-- What was read, and the rest of the text. -/
abbrev Reader (α : Type) := List Char → Option (α × List Char)

def isBlank (c : Char) : Bool :=
  c == ' ' || c == '\t'

/-- What follows the end of a line, if `cs` starts with one. -/
def afterNewline? : List Char → Option (List Char)
  | '\n' :: rest | '\r' :: '\n' :: rest => some rest
  | _ => none

/-- A character that may stand in a text or a comment. -/
def isPlain (c : Char) : Bool :=
  c == '\t' || (0x20 ≤ c.toNat && c.toNat != 0x7f)

/-! ## Reading -/

/-- The code point that some hexadecimal digits stand for. -/
def readPoint (digits : Nat) : Reader Char := fun cs => do
  let values ← (cs.take digits).mapM Json.hexValue?
  let code := values.foldl (fun n d => 16 * n + d) 0
  if values.length == digits && code.isValidChar then return (Char.ofNat code, cs.drop digits)
  else none

/-- The character after a backslash. -/
def readEscape : Reader Char
  | '"' :: rest => some ('"', rest)
  | '\\' :: rest => some ('\\', rest)
  | 'b' :: rest => some ('\x08', rest)
  | 'f' :: rest => some ('\x0c', rest)
  | 'n' :: rest => some ('\n', rest)
  | 'r' :: rest => some ('\r', rest)
  | 't' :: rest => some ('\t', rest)
  | 'u' :: rest => readPoint 4 rest
  | 'U' :: rest => readPoint 8 rest
  | _ => none

/-- The text left after blanks and ends of lines. -/
def skipLines : (fuel : Nat) → List Char → List Char
  | 0, cs => cs
  | fuel + 1, cs =>
    match afterNewline? (cs.dropWhile isBlank) with
    | some rest => skipLines fuel rest
    | none => cs.dropWhile isBlank

/-- The text after a backslash that ends a line: the next line that is not blank. -/
def afterBrokenLine? (cs : List Char) : Option (List Char) :=
  (afterNewline? (cs.dropWhile isBlank)).map fun rest => skipLines rest.length rest

/-- The rest of a text within one line, up to its closing quote; `done` holds what was read,
reversed. -/
def readLine (quote : Char) (escapes : Bool) : (fuel : Nat) → (done : List Char) → Reader String
  | 0, _, _ => none
  | _ + 1, _, [] => none
  | fuel + 1, done, c :: rest =>
    if c == quote then some (String.ofList done.reverse, rest)
    else if escapes && c == '\\' then do
      let (escaped, rest) ← readEscape rest
      readLine quote escapes fuel (escaped :: done) rest
    else if isPlain c then readLine quote escapes fuel (c :: done) rest
    else none

/-- The rest of a text over several lines. It ends with three quotes, before which there may be
two more that belong to it. -/
def readLines (quote : Char) (escapes : Bool) :
    (fuel : Nat) → (done : List Char) → Reader String
  | 0, _, _ => none
  | _ + 1, _, [] => none
  | fuel + 1, done, c :: rest =>
    if c == quote then
      let quotes := min 5 ((c :: rest).takeWhile (· == quote)).length
      let done := List.replicate (if 3 ≤ quotes then quotes - 3 else quotes) quote ++ done
      let rest := (c :: rest).drop quotes
      if 3 ≤ quotes then some (String.ofList done.reverse, rest)
      else readLines quote escapes fuel done rest
    else if escapes && c == '\\' then
      match afterBrokenLine? rest with
      | some rest => readLines quote escapes fuel done rest
      | none => do
        let (escaped, rest) ← readEscape rest
        readLines quote escapes fuel (escaped :: done) rest
    else
      match afterNewline? (c :: rest) with
      | some rest => readLines quote escapes fuel ('\n' :: done) rest
      | none => if isPlain c then readLines quote escapes fuel (c :: done) rest else none

/-- A text within one line. -/
def readLineText : Reader String
  | '"' :: rest => readLine '"' true (rest.length + 1) [] rest
  | '\'' :: rest => readLine '\'' false (rest.length + 1) [] rest
  | _ => none

/-- A text quoted in any way. An end of line right after the opening quotes does not count. -/
def readText : Reader String
  | '"' :: '"' :: '"' :: rest => readLines '"' true (rest.length + 1) [] (body rest)
  | '\'' :: '\'' :: '\'' :: rest => readLines '\'' false (rest.length + 1) [] (body rest)
  | cs => readLineText cs
where
  body (cs : List Char) : List Char := (afterNewline? cs).getD cs

/-! ## Writing -/

/-- The length of the longest run of a character. -/
def longestRun (c : Char) : (run best : Nat) → List Char → Nat
  | run, best, [] => max run best
  | run, best, d :: rest =>
    if d == c then longestRun c (run + 1) best rest else longestRun c 0 (max run best) rest

/-- A control character that only an escape can stand for. -/
def isControl (c : Char) : Bool :=
  c != '\n' && !isPlain c

def hexUpper (n : Nat) : List Char :=
  (Json.unicodeEscape n).map fun c => if c == 'u' then c else c.toUpper

/-- A character other than a quote, as it is written between quotes with escapes. -/
def escapeChar (c : Char) : List Char :=
  if c == '\x08' then ['\\', 'b']
  else if c == '\t' then ['\\', 't']
  else if c == '\n' then ['\\', 'n']
  else if c == '\x0c' then ['\\', 'f']
  else if c == '\r' then ['\\', 'r']
  else if c == '\\' then ['\\', '\\']
  else if isControl c then hexUpper c.toNat
  else [c]

/-- A text with escapes. Up to `quotes` quotes next to each other and, over several lines, ends of
lines stay as they are. -/
def escape (quotes : Nat) : (run : Nat) → List Char → List Char
  | _, [] => []
  | run, c :: rest =>
    if c == '"' then
      if run < quotes then c :: escape quotes (run + 1) rest
      else '\\' :: c :: escape quotes 0 rest
    else if c == '\n' && quotes != 0 then c :: escape quotes 0 rest
    else escapeChar c ++ escape quotes 0 rest

/-- A text within one line, with escapes. -/
def quoteLine (cs : List Char) : List Char :=
  '"' :: escape 0 0 cs ++ ['"']

/-- An end of line that a text over several lines starts with for the looks of it. -/
def opening (cs : List Char) : List Char :=
  if cs.contains '\n' then ['\n'] else []

/-- A text over several lines, with escapes. -/
def quoteLines (cs : List Char) : List Char :=
  ['"', '"', '"'] ++ opening cs ++ escape 2 0 cs ++ ['"', '"', '"']

/-- The plainest way to quote a text. -/
def quote (cs : List Char) : List Char :=
  let doubles := longestRun '"' 0 0 cs
  let singles := longestRun '\'' 0 0 cs
  let control := cs.any isControl
  let newline := cs.contains '\n'
  let backslash := cs.contains '\\'
  if !control && !backslash && doubles == 0 && !newline then quoteLine cs
  else if !control && singles == 0 && !newline then '\'' :: cs ++ ['\'']
  else if !control && !backslash && doubles ≤ 2 then quoteLines cs
  else if !control && singles ≤ 2 then
    ['\'', '\'', '\''] ++ opening cs ++ cs ++ ['\'', '\'', '\'']
  else if newline then quoteLines cs
  else quoteLine cs

end CardScript.Toml
