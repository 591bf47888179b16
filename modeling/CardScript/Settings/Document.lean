import CardScript.Settings.Basic
import CardScript.Toml.Reader

/-!
# Settings in a document

Settings are kept as TOML. Entries that are missing take their usual values and entries that nobody
knows are ignored; what the document says is then checked.
-/

namespace CardScript

namespace Toml

def text? : Toml → Option String
  | text s => some s
  | _ => none

/-- A whole number that is not negative. -/
def nat? : Toml → Option Nat
  | whole n => if 0 ≤ n then some n.toNat else none
  | _ => none

/-- The entry of a name, or the usual value if there is none. -/
def entryOr? {α : Type} (entries : Entries) (name : String) (usual : α)
    (decode : Toml → Option α) : Option α :=
  match find? entries name with
  | some value => decode value
  | none => some usual

end Toml

namespace Settings

open Toml in
def ofToml? (entries : Toml.Entries) : Option Settings := do
  let usual : Settings := {}
  let maxCallDepth ← entryOr? entries "max_call_depth" usual.maxCallDepth nat?
  let workerThreads ← entryOr? entries "worker_threads" usual.workerThreads nat?
  let itemDelimiter ← entryOr? entries "item_delimiter" usual.itemDelimiter text?
  let beepInterval ← entryOr? entries "beep_interval_ms" usual.beepInterval nat?
  let abortPoll ← entryOr? entries "abort_poll_ms" usual.abortPoll nat?
  let logFilter ← entryOr? entries "log_filter" usual.logFilter text?
  return { maxCallDepth, workerThreads, itemDelimiter, beepInterval, abortPoll, logFilter }

/-- Why settings cannot be taken from a file. -/
inductive LoadError where
  | unreadable
  | malformed
  | invalid (problem : Problem)
deriving Repr, DecidableEq

/-- The settings in a file of which `contents` is the text, if it can be read. -/
def load (contents : Option String) : Except LoadError Settings := do
  let text ← contents.elim (.error .unreadable) .ok
  let settings ← ((Toml.read? text).bind ofToml?).elim (.error .malformed) .ok
  match settings.problem? with
  | some problem => throw (.invalid problem)
  | none => return settings

def line (name value : String) : String :=
  s!"{name} = {value}\n"

def quoted (s : String) : String :=
  String.ofList (Toml.quote s.toList)

/-- The settings as a document, every entry on a line of its own. -/
def render (s : Settings) : String :=
  line "max_call_depth" (toString s.maxCallDepth) ++
    line "worker_threads" (toString s.workerThreads) ++
    line "item_delimiter" (quoted s.itemDelimiter) ++
    line "beep_interval_ms" (toString s.beepInterval) ++
    line "abort_poll_ms" (toString s.abortPoll) ++
    line "log_filter" (quoted s.logFilter)

end Settings

end CardScript
