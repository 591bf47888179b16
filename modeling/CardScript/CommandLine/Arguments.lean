import CardScript.Number.Numeral
import CardScript.Text.Search

/-!
# Arguments of the command line

A command is a word, with options before and after it. An option is written `--name=value` or
`--name value`; after `--` every word stands for itself.
-/

namespace CardScript.CommandLine

/-- What the program is asked to do. -/
inductive Task where
  /-- Send a message to a card of a stack. -/
  | run (stack message : String) (target : Option Nat) (args : List String)
  /-- Carry out loose statements. -/
  | eval (stack statements : String)
  /-- Check settings and show them. -/
  | checkConfig (path : String)
deriving Repr, DecidableEq, Inhabited

structure Invocation where
  /-- A file of settings in place of the user's own. -/
  config : Option String := none
  task : Task
deriving Repr, DecidableEq, Inhabited

/-- One word of a command line, or an option with its value. -/
inductive Item where
  | option (name value : String)
  | word (w : String)
deriving Repr, DecidableEq

namespace Item

def isOption : Item → Bool
  | option .. => true
  | word _ => false

def option? : Item → Option (String × String)
  | option name value => some (name, value)
  | word _ => none

def word? : Item → Option String
  | option .. => none
  | word w => some w

end Item

/-- The name of an option, and its value if that is part of the same word. -/
def splitOption (cs : List Char) : String × Option String :=
  let name := String.ofList (cs.takeWhile (· != '='))
  match cs.dropWhile (· != '=') with
  | _ :: value => (name, some (String.ofList value))
  | [] => (name, none)

/-- A word that may be the value of the option before it. -/
def isValue (w : String) : Bool :=
  w == "-" || !(['-'].isPrefixOf w.toList)

/-- Sorts words into options and others. -/
def items? : List String → Option (List Item)
  | [] => some []
  | "--" :: rest => some (rest.map Item.word)
  | w :: rest =>
    match Text.dropPattern? ['-', '-'] w.toList with
    | some cs =>
      match splitOption cs, rest with
      | (name, some value), rest => do return .option name value :: (← items? rest)
      | (name, none), value :: rest =>
        if isValue value then do return .option name value :: (← items? rest) else none
      | (_, none), [] => none
    | none => if isValue w then do return .word w :: (← items? rest) else none

/-- The values of an option. -/
def valuesOf (name : String) (options : List (String × String)) : List String :=
  (options.filter (·.1 == name)).map (·.2)

/-- The value of an option that may be given once. -/
def atMostOnce? (name : String) (options : List (String × String)) : Option (Option String) :=
  match valuesOf name options with
  | [] => some none
  | [value] => some (some value)
  | _ => none

/-- The value of an option that has to be given. -/
def once? (name : String) (options : List (String × String)) : Option String :=
  (atMostOnce? name options).join

/-- An identifier: digits with an optional plus sign, within sixty-four bits. -/
def identifier? (s : String) : Option Nat :=
  let digits := match s.toList with
    | '+' :: rest => rest
    | cs => cs
  if !digits.isEmpty && digits.all Char.isDigit && Number.ofDigits digits < Number.wordCount then
    some (Number.ofDigits digits)
  else none

/-- The options that go with a command. -/
def optionsFor (command : String) : List String :=
  match command with
  | "run" => ["config", "stack", "message", "target", "arg"]
  | "eval" => ["config", "stack"]
  | _ => ["config"]

def target? : Option String → Option (Option Nat)
  | none => some none
  | some s => (identifier? s).map some

def task? (command : String) (options : List (String × String)) (words : List String) :
    Option Task := do
  match command, words with
  | "run", [] =>
    let stack ← once? "stack" options
    let message ← once? "message" options
    let target ← target? (← atMostOnce? "target" options)
    return .run stack message target (valuesOf "arg" options)
  | "eval", [statements] => return .eval (← once? "stack" options) statements
  | "check-config", [path] => return .checkConfig path
  | _, _ => none

/-- What a command line asks for, if it is well-formed. -/
def parse? (args : List String) : Option Invocation := do
  let items ← items? args
  let before := (items.takeWhile Item.isOption).filterMap Item.option?
  let after := (items.dropWhile Item.isOption).tail
  let command ← (items.dropWhile Item.isOption).head?.bind Item.word?
  let options := after.filterMap Item.option?
  if before.any (·.1 != "config") || options.any fun o => !(optionsFor command).contains o.1 then
    none
  else
    let early ← atMostOnce? "config" before
    let late ← atMostOnce? "config" options
    let task ← task? command options (after.filterMap Item.word?)
    return { config := late.or early, task }

/-- The files that a task reads. -/
def Task.paths : Task → List String
  | .run stack .. => [stack]
  | .eval stack statements => [stack, statements]
  | .checkConfig path => [path]

end CardScript.CommandLine
