import CardScript.Json.Basic

/-!
# Writing JSON

The compact form on one line: line separators of any kind are escaped, not only the controls. A
value that cannot be carried is written as `null`.
-/

namespace CardScript.Json

def hexDigit (n : Nat) : Char :=
  (Nat.toDigits 16 n).getD 0 '0'

/-- The four hexadecimal digits of a code point below `2 ^ 16`, with their mark. -/
def unicodeEscape (n : Nat) : List Char :=
  ['\\', 'u', hexDigit (n / 4096 % 16), hexDigit (n / 256 % 16), hexDigit (n / 16 % 16),
    hexDigit (n % 16)]

def escapeChar (c : Char) : List Char :=
  if c == '"' then ['\\', '"']
  else if c == '\\' then ['\\', '\\']
  else if c == '\n' then ['\\', 'n']
  else if c == '\r' then ['\\', 'r']
  else if c == '\t' then ['\\', 't']
  else if c.toNat < 0x20 || c.toNat == 0x85 || c.toNat == 0x2028 || c.toNat == 0x2029 then
    unicodeEscape c.toNat
  else [c]

def writeString (s : String) : List Char :=
  '"' :: s.toList.flatMap escapeChar ++ ['"']

mutual

def write : Json → List Char
  | null | unrepresentable => ['n', 'u', 'l', 'l']
  | bool true => ['t', 'r', 'u', 'e']
  | bool false => ['f', 'a', 'l', 's', 'e']
  | whole n => (toString n).toList
  | decimal numeral => numeral.toList
  | string s => writeString s
  | array items => '[' :: writeItems items
  | object fields => '\x7b' :: writeFields fields

/-- The items with commas between them, and the closing bracket. -/
def writeItems : List Json → List Char
  | [] => [']']
  | [j] => write j ++ [']']
  | j :: k :: rest => write j ++ ',' :: writeItems (k :: rest)

/-- The fields with commas between them, and the closing brace. -/
def writeFields : List (String × Json) → List Char
  | [] => ['\x7d']
  | [(name, j)] => writeString name ++ ':' :: write j ++ ['\x7d']
  | (name, j) :: field :: rest =>
    writeString name ++ ':' :: write j ++ ',' :: writeFields (field :: rest)

end

def render (j : Json) : String :=
  String.ofList (write j)

end CardScript.Json
