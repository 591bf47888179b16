/-!
# Aborting scripts

A logical clock ticks for every frame that is begun and for every request to abort. A request
stops the frames begun before it and no others.
-/

namespace CardScript

structure Interrupt where
  clock : Nat := 0
  /-- When an abort was last asked for. -/
  requestedAt : Nat := 0
deriving Repr, DecidableEq, Inhabited

namespace Interrupt

/-- The next tick. -/
def stamp (i : Interrupt) : Nat × Interrupt :=
  (i.clock + 1, { i with clock := i.clock + 1 })

def request (i : Interrupt) : Interrupt :=
  { clock := i.clock + 1, requestedAt := i.clock + 1 }

/-- A frame begun at this tick is to stop. -/
def aborts (i : Interrupt) (begunAt : Nat) : Bool :=
  begunAt < i.requestedAt

end Interrupt

/-- A pause of `duration` in slices of `poll` looks for a reason to stop before each slice, for the
first time at once. It lasts to its end if that comes before the `stop`-th look; a pause without
end never does. -/
def pauseFinishes (duration : Option Nat) (poll stop : Nat) : Bool :=
  match duration with
  | none => false
  | some 0 => 1 < stop
  | some duration => poll != 0 && (duration + poll - 1) / poll + 1 < stop

end CardScript
