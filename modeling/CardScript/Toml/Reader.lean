import CardScript.Toml.Quoting
import CardScript.Toml.Scalar

/-!
# Reading TOML

Reads a document line by line. Values and keys may be nested to a limited depth, and no key may be
defined twice.
-/

namespace CardScript.Toml

/-- The most arrays and inline tables inside each other, and the most parts of a key. -/
def maxNesting : Nat := 79

def skipBlanks (cs : List Char) : List Char :=
  cs.dropWhile isBlank

/-- The text after a comment, if there is one. -/
def skipComment : List Char → List Char
  | '#' :: rest => rest.dropWhile isPlain
  | cs => cs

/-- What follows a line of which nothing is left but blanks and a comment. -/
def readLineEnd (cs : List Char) : Option (List Char) :=
  match skipComment (skipBlanks cs) with
  | [] => some []
  | rest => afterNewline? rest

/-- The text left after blanks, comments and ends of lines. -/
def skipToItem : (fuel : Nat) → List Char → List Char
  | 0, cs => cs
  | fuel + 1, cs =>
    let rest := skipComment (skipBlanks cs)
    match afterNewline? rest with
    | some rest => skipToItem fuel rest
    | none => rest

/-! ## Keys -/

def isKeyChar (c : Char) : Bool :=
  c.isAlphanum || c == '_' || c == '-'

/-- One part of a key, bare or quoted within one line. -/
def readKeyPart (cs : List Char) : Option (String × List Char) :=
  let bare := cs.takeWhile isKeyChar
  if bare.isEmpty then readLineText cs
  else some (String.ofList bare, cs.dropWhile isKeyChar)

/-- The parts of a key with dots between them and blanks around them, as the parts before the last
one and the last one. -/
def readKey : (parts : Nat) → Reader (List String × String)
  | 0, _ => none
  | parts + 1, cs => do
    let (part, rest) ← readKeyPart (skipBlanks cs)
    match skipBlanks rest with
    | '.' :: rest =>
      let ((init, last), rest) ← readKey parts rest
      return ((part :: init, last), rest)
    | rest => return (([], part), rest)

/-! ## Values -/

/-- A character of a value without quotes. -/
def isScalarChar (c : Char) : Bool :=
  c.isAlphanum || c == '_' || c == '-' || c == '+' || c == '.' || c == ':'

/-- A value without quotes. There may be a blank between a date and a time. -/
def readPlain (cs : List Char) : Option (Toml × List Char) :=
  let piece := cs.takeWhile isScalarChar
  let rest := cs.dropWhile isScalarChar
  match afterDate? piece, rest with
  | some [], ' ' :: d :: rest =>
    if d.isDigit then
      let time := (d :: rest).takeWhile isScalarChar
      (readScalar? (piece ++ ' ' :: time)).map (·, (d :: rest).dropWhile isScalarChar)
    else (readScalar? piece).map (·, ' ' :: d :: rest)
  | _, _ => (readScalar? piece).map (·, rest)

mutual

def readValue : (fuel nesting : Nat) → Reader Toml
  | 0, _, _ => none
  | fuel + 1, nesting, cs =>
    match cs with
    | '"' :: _ | '\'' :: _ => do
      let (s, rest) ← readText cs
      return (text s, rest)
    | '[' :: rest =>
      match nesting with
      | 0 => none
      | nesting + 1 => readItems fuel nesting [] (skipToItem rest.length rest)
    | '\x7b' :: rest =>
      match nesting with
      | 0 => none
      | nesting + 1 =>
        match skipBlanks rest with
        | '\x7d' :: rest => some (table .inline [], rest)
        | rest => readPairs fuel nesting [] rest
    | _ => readPlain cs

/-- The items of an array up to its closing bracket; `done` holds those read, reversed. A comma may
follow the last one. -/
def readItems : (fuel nesting : Nat) → (done : List Toml) → Reader Toml
  | 0, _, _, _ => none
  | _ + 1, _, done, ']' :: rest => some (array done.reverse, rest)
  | fuel + 1, nesting, done, cs => do
    let (item, rest) ← readValue fuel nesting cs
    match skipToItem rest.length rest with
    | ',' :: rest => readItems fuel nesting (item :: done) (skipToItem rest.length rest)
    | ']' :: rest => return (array (item :: done).reverse, rest)
    | _ => none

/-- The entries of an inline table up to its closing brace. -/
def readPairs : (fuel nesting : Nat) → (done : Entries) → Reader Toml
  | 0, _, _, _ => none
  | fuel + 1, nesting, done, cs => do
    let ((keys, name), rest) ← readKey maxNesting cs
    match rest with
    | '=' :: rest =>
      let (value, rest) ← readValue fuel nesting (skipBlanks rest)
      let done ← put name value keys done
      match skipBlanks rest with
      | ',' :: rest => readPairs fuel nesting done rest
      | '\x7d' :: rest => return (table .inline done, rest)
      | _ => none
    | _ => none

end

/-! ## Documents -/

/-- A document under construction: its entries, and the path of the header above the line. -/
structure Draft where
  entries : Entries := []
  path : List String := []

/-- Reads one line with its end. -/
def readStatement (draft : Draft) (cs : List Char) : Option (Draft × List Char) :=
  match cs with
  | '[' :: '[' :: rest => do
    let ((parent, key), rest) ← readKey maxNesting rest
    match rest with
    | ']' :: ']' :: rest =>
      let entries ← beginRow parent key draft.entries
      return ({ entries, path := parent ++ [key] }, ← readLineEnd rest)
    | _ => none
  | '[' :: rest => do
    let ((parent, key), rest) ← readKey maxNesting rest
    match rest with
    | ']' :: rest =>
      let entries ← beginTable parent key draft.entries
      return ({ entries, path := parent ++ [key] }, ← readLineEnd rest)
    | _ => none
  | _ => do
    let ((keys, name), rest) ← readKey maxNesting cs
    match rest with
    | '=' :: rest =>
      let (value, rest) ← readValue (rest.length + 1) maxNesting (skipBlanks rest)
      let entries ← change (put name value keys) draft.path draft.entries
      return ({ draft with entries }, ← readLineEnd rest)
    | _ => none

def readDocument : (fuel : Nat) → Draft → List Char → Option Entries
  | 0, _, _ => none
  | fuel + 1, draft, cs =>
    match skipBlanks cs with
    | [] => some draft.entries
    | rest =>
      match readLineEnd rest with
      | some rest => readDocument fuel draft rest
      | none => do
        let (draft, rest) ← readStatement draft rest
        readDocument fuel draft rest

/-- The entries of a document. A mark of byte order at its start does not count. -/
def read? (s : String) : Option Entries :=
  let cs := match s.toList with
    | '\ufeff' :: rest => rest
    | cs => cs
  readDocument (cs.length + 1) {} cs

end CardScript.Toml
