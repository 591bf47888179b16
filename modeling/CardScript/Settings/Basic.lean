import CardScript.Json.Fields
import CardScript.Number.Word

/-!
# Settings

What can be set for a run, with the usual values.
-/

namespace CardScript

structure Settings where
  /-- The most frames a script may have open at a time. -/
  maxCallDepth : Nat := 256
  /-- The most scripts that may run at a time. -/
  workerThreads : Nat := 4
  itemDelimiter : String := ","
  /-- Milliseconds between two beeps of one command. -/
  beepInterval : Nat := 250
  /-- Milliseconds between two looks at the abort signal during a pause. -/
  abortPoll : Nat := 10
  logFilter : String := "info"
deriving Repr, DecidableEq, Inhabited

namespace Settings

/-- What makes settings unusable. -/
inductive Problem where
  | noCallDepth
  | noWorkers
  | noItemDelimiter
  | noAbortPoll
deriving Repr, DecidableEq

def Problem.message : Problem → String
  | noCallDepth => "max_call_depth must be at least 1"
  | noWorkers => "worker_threads must be at least 1"
  | noItemDelimiter => "item_delimiter must not be empty"
  | noAbortPoll => "abort_poll_ms must be at least 1"

/-- The first problem, if there is one. -/
def problem? (s : Settings) : Option Problem :=
  if s.maxCallDepth == 0 then some .noCallDepth
  else if s.workerThreads == 0 then some .noWorkers
  else if s.itemDelimiter.isEmpty then some .noItemDelimiter
  else if s.abortPoll == 0 then some .noAbortPoll
  else none

/-- The most workers that can be kept track of: their count leaves three bits of a word free. -/
def maxWorkers : Nat := Number.wordCount / 8 - 1

/-- Scripts can be run at all. Settings are read, checked and shown without regard to this. -/
def canRun (s : Settings) : Bool :=
  s.workerThreads ≤ maxWorkers

def toJson (s : Settings) : Json :=
  .object [("max_call_depth", .ofNat s.maxCallDepth), ("worker_threads", .ofNat s.workerThreads),
    ("item_delimiter", .string s.itemDelimiter), ("beep_interval_ms", .ofNat s.beepInterval),
    ("abort_poll_ms", .ofNat s.abortPoll), ("log_filter", .string s.logFilter)]

open Json in
/-- Missing fields take their usual values. -/
def ofJson? (j : Json) : Option Settings := do
  let fields ← j.fields?
  let usual : Settings := {}
  let size := natBelow? Number.wordCount
  let maxCallDepth ← defaulted? fields "max_call_depth" usual.maxCallDepth size
  let workerThreads ← defaulted? fields "worker_threads" usual.workerThreads size
  let itemDelimiter ← defaulted? fields "item_delimiter" usual.itemDelimiter string?
  let beepInterval ← defaulted? fields "beep_interval_ms" usual.beepInterval size
  let abortPoll ← defaulted? fields "abort_poll_ms" usual.abortPoll size
  let logFilter ← defaulted? fields "log_filter" usual.logFilter string?
  return { maxCallDepth, workerThreads, itemDelimiter, beepInterval, abortPoll, logFilter }

end Settings

end CardScript
