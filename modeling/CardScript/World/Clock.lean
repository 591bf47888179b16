import Std.Time.DateTime
import Std.Time.Format

/-!
# The time of day

Time is data: a run is given what its clock shows, and takes the next reading whenever it asks for
the time. Pauses are kept account of, so that a clock may go by them. Everything said of all clocks
holds at any time of day and however fast a run is.
-/

namespace CardScript

/-- What a clock shows when it is read. -/
structure Moment where
  /-- Milliseconds since the beginning of 1970. -/
  millis : Int
  /-- Month, day and the last two digits of the year, as they are written. -/
  date : String
  /-- Hours and minutes on a twelve-hour clock, as they are written. -/
  time : String
deriving Repr, DecidableEq, Inhabited

namespace Moment

def seconds (t : Moment) : Int :=
  t.millis / 1000

/-- Sixtieths of a second. -/
def ticks (t : Moment) : Int :=
  (t.millis * 60).tdiv 1000

/-- The moment so many milliseconds after the beginning of 1970, in a time zone. -/
def ofMillis (zone : Std.Time.TimeZone.ZoneRules) (millis : Int) : Moment :=
  let t := Std.Time.DateTime.ofTimestamp (.ofMillisecondsSinceUnixEpoch ⟨millis⟩) zone
  { millis, date := t.format "M/d/uu", time := t.format "h:mm a" }

end Moment

structure Clock where
  /-- When the run began, and all pauses since, in milliseconds. -/
  millis : Nat := 0
  /-- What is shown after so many readings and at so many milliseconds. -/
  reading : Nat → Nat → Moment := fun n millis => .ofMillis .UTC (millis + n)
  /-- How many readings have been taken. -/
  used : Nat := 0

namespace Clock

instance : Inhabited Clock := ⟨{}⟩

def now (c : Clock) : Moment :=
  c.reading c.used c.millis

def skip (c : Clock) (n : Nat) : Clock :=
  { c with used := c.used + n }

/-- A pause. -/
def advance (c : Clock) (millis : Nat) : Clock :=
  { c with millis := c.millis + millis }

end Clock

end CardScript
