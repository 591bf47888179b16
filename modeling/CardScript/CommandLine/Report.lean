import CardScript.CommandLine.Arguments
import CardScript.Json.Reader
import CardScript.Script.Run
import CardScript.Settings.Document
import CardScript.Stack.Opening

/-!
# Carrying out a command line

The program from the files it reads to the text it writes. Settings come first, then the stack and
then the script; the first thing that goes wrong ends the program.
-/

namespace CardScript.CommandLine

/-- What the program finds around it. -/
structure Surroundings where
  /-- The text of each file that can be read. -/
  files : String → Option String
  /-- Where the user's own settings would be. -/
  userConfig : Option String := none
  draws : Draws := {}
  clock : Clock := {}

/-- What can go wrong. -/
inductive Trouble where
  | settings (path : String) (error : Settings.LoadError)
  | unreadable (path : String)
  | malformedStack (path : String)
  | invalidStack (path : String) (failure : Failure)
  | tooManyWorkers
  | malformedStatements (path : String)
  | script (error : ScriptError)
  | endless
deriving Repr, DecidableEq

namespace Trouble

def message : Trouble → String
  | settings path .unreadable => s!"reading configuration from {path}"
  | settings path .malformed => s!"parsing configuration {path}"
  | settings path (.invalid _) => s!"validating configuration {path}"
  | unreadable path => s!"failed to read {path}"
  | malformedStack path => s!"failed to parse stack {path}"
  | invalidStack path _ => s!"invalid stack {path}"
  | tooManyWorkers => s!"worker_threads must be at most {Settings.maxWorkers}"
  | malformedStatements path => s!"failed to parse {path}"
  | script e => s!"{e.failure.code} {e.display}"
  | endless => "the script did not end"

def cause? : Trouble → Option String
  | settings _ (.invalid problem) => some problem.message
  | invalidStack _ failure => some failure.message
  | _ => none

/-- The message with its cause. -/
def display (t : Trouble) : String :=
  match t.cause? with
  | some cause => s!"Error: {t.message}\n\nCaused by:\n    {cause}\n"
  | none => s!"Error: {t.message}\n"

/-- A program that cannot start its workers breaks off; any other trouble is an orderly failure. -/
def exitCode : Trouble → Nat
  | tooManyWorkers => 101
  | _ => 1

end Trouble

/-- What the program writes, and what went wrong. -/
structure Report where
  output : String := ""
  trouble : Option Trouble := none
deriving Repr, DecidableEq

/-- Success, or what the trouble calls for. -/
def Report.exitCode (r : Report) : Nat :=
  r.trouble.elim 0 Trouble.exitCode

/-- The exit code for a command line that makes no sense. -/
def usageExitCode : Nat := 2

def loadSettings (s : Surroundings) (path : String) : Except Trouble Settings :=
  match Settings.load (s.files path) with
  | .ok settings => .ok settings
  | .error e => .error (.settings path e)

/-- The settings of the file that is named, or else of the user if there is such a file, or else
the usual ones. -/
def chooseSettings (s : Surroundings) : Option String → Except Trouble Settings
  | some path => loadSettings s path
  | none =>
    match s.userConfig with
    | some path => if (s.files path).isSome then loadSettings s path else .ok {}
    | none => .ok {}

def readFile (s : Surroundings) (path : String) : Except Trouble String :=
  (s.files path).elim (.error (.unreadable path)) .ok

/-- A world with the stack of a file open in it, and the number of that stack. -/
def openStack (s : Surroundings) (settings : Settings) (path : String) :
    Except Trouble (Nat × World) := do
  let text ← readFile s path
  let snapshot ← ((Json.readText? text).bind StackSnapshot.ofJson?).elim
    (.error (.malformedStack path)) .ok
  match snapshot.toStack with
  | .error f => throw (.invalidStack path f)
  | .ok stack =>
    if !settings.canRun then throw .tooManyWorkers
    let start := { World.start settings with draws := s.draws, clock := s.clock }
    let (number, w) := start.addStack stack
    return (number, w.openStack number)

def readStatements (s : Surroundings) (path : String) : Except Trouble (List Statement) := do
  let text ← readFile s path
  ((Json.readText? text).bind (Json.listOf? Statement.ofJson?)).elim
    (.error (.malformedStatements path)) .ok

def lines (texts : List String) : String :=
  String.join (texts.map (· ++ "\n"))

/-- The messages shown, and then the value or what went wrong. -/
def reportOutcome (outcome : World.Outcome) : Report :=
  let (result, w) := outcome
  let messages := lines w.desktop.messages
  match result with
  | .ok v => { output := if v.isEmpty then messages else messages ++ lines [v.text] }
  | .error (.failed e) => { output := messages, trouble := some (.script e) }
  | .error .outOfFuel => { output := messages, trouble := some .endless }

def globalLine (name : String) (value : Value) : String :=
  s!"global {name} = {value.text}"

def navigationLine (w : World) (d : Destination) : String :=
  let effect := match d.effect with
    | some effect => s!" with {effect}"
    | none => ""
  s!"navigated to card id {d.card} of stack \"{(w.stack d.stack).name}\"{effect}"

/-- The globals and the moves that a successful run leaves behind. -/
def traces (w : World) : String :=
  lines (w.globals.listing.map fun (name, value) => globalLine name value) ++
    lines (w.desktop.navigations.map (navigationLine w))

def perform (s : Surroundings) (i : Invocation) : Except Trouble Report := do
  match i.task with
  | .checkConfig path =>
    let settings ← loadSettings s path
    return { output := lines [path ++ " is valid"] ++ settings.render }
  | .run path message target args =>
    let settings ← chooseSettings s i.config
    let (number, w) ← openStack s settings path
    let receiver := target.map fun id => Specifier.id none .card id
    let outcome := w.send ample number receiver message (args.map Value.ofText)
    let report := reportOutcome outcome
    if report.trouble.isSome then return report
    else return { report with output := report.output ++ traces outcome.2 }
  | .eval path statements =>
    let settings ← chooseSettings s i.config
    let (_, w) ← openStack s settings path
    let statements ← readStatements s statements
    return reportOutcome (w.eval ample none statements)

def report (s : Surroundings) (i : Invocation) : Report :=
  match perform s i with
  | .ok r => r
  | .error t => { trouble := some t }

end CardScript.CommandLine
