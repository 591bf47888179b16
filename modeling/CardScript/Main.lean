import CardScript.CommandLine.Report
import Std.Time.Zoned.Database

/-!
# The program

Reads the files that a command line names and writes its report.
-/

namespace CardScript.CommandLine

def readFile? (path : String) : IO (Option String) := do
  try
    return some (← IO.FS.readFile path)
  catch _ =>
    return none

/-- Where the user's own settings would be. -/
def userConfigPath : IO (Option String) := do
  let file := "/hypertalk/runtime.toml"
  match ← IO.getEnv "XDG_CONFIG_HOME", ← IO.getEnv "HOME" with
  | some dir, home =>
    if ['/'].isPrefixOf dir.toList then return some (dir ++ file)
    else return home.map (· ++ "/.config" ++ file)
  | none, home => return home.map (· ++ "/.config" ++ file)

/-- A clock that goes by the time zone of the user, if that is known, and by universal time
otherwise. -/
def clock : IO Clock := do
  let zone ← try Std.Time.Database.defaultGetLocalZoneRules catch _ => pure .UTC
  let now ← Std.Time.Timestamp.now
  return {
    millis := now.toMillisecondsSinceUnixEpoch.val.toNat
    reading := fun n millis => .ofMillis zone (millis + n) }

def surroundings (i : Invocation) : IO Surroundings := do
  let userConfig ← userConfigPath
  let paths := i.task.paths ++ i.config.toList ++ userConfig.toList
  let texts ← paths.mapM fun path => do return (path, ← readFile? path)
  let seed ← IO.rand 0 Number.halfWordCount
  return {
    files := fun path => (texts.find? (·.1 == path)).bind (·.2)
    userConfig
    draws := .ofSeed seed
    clock := ← clock }

end CardScript.CommandLine

open CardScript.CommandLine in
def main (args : List String) : IO UInt32 := do
  match parse? args with
  | none =>
    IO.eprintln "usage: run --stack FILE --message NAME [--target ID] [--arg TEXT]..."
    IO.eprintln "       eval --stack FILE STATEMENTS"
    IO.eprintln "       check-config FILE"
    return usageExitCode.toUInt32
  | some i =>
    let r := report (← surroundings i) i
    IO.print r.output
    for trouble in r.trouble do
      IO.eprint trouble.display
    return r.exitCode.toUInt32
