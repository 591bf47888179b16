import CardScript.Chunk.Reading
import CardScript.Draws

/-!
# Pinning chunks

Drawing every `any` of a chunk once, the enclosing chunks first, gives a chunk without chance that
is then read and written at one and the same place.
-/

namespace CardScript.Chunk

/-- The number of draws an index needs. -/
def Index.draws : Index → Nat
  | .place _ => 0
  | .any => 1

/-- Settles an index among `count` chunks. -/
def Index.pin (draws : Draws) (count : Nat) : Index → Place
  | .place p => p
  | .any => .at (max (draws.pick count) 1)

def Level.draws (l : Level Index) : Nat :=
  l.start.draws + (l.stop.map Index.draws).getD 0

def Level.pin (l : Level Index) (draws : Draws) (count : Nat) : Level Place where
  kind := l.kind
  start := l.start.pin draws count
  stop := l.stop.map (Index.pin (draws.skip l.start.draws) count)

def Index.settled? : Index → Option Place
  | .place p => some p
  | .any => none

def Level.settled? (l : Level Index) : Option (Level Place) := do
  let start ← l.start.settled?
  match l.stop with
  | none => return { kind := l.kind, start }
  | some stop => return { kind := l.kind, start, stop := some (← stop.settled?) }

/-- The chunk itself if nothing in it is left to chance. -/
def settled? : Chunk Index → Option (Chunk Place)
  | ofText l => do return ofText (← l.settled?)
  | within l outer => do return within (← l.settled?) (← outer.settled?)

/-- The number of draws a chunk needs. -/
def draws : Chunk Index → Nat
  | ofText l => l.draws
  | within l outer => outer.draws + l.draws

/-- Settles every index of a chunk of the text `cs`. -/
def pin (source : Draws) (delimiter cs : List Char) : Chunk Index → Chunk Place
  | ofText l => ofText (l.pin source (count l.kind delimiter cs))
  | within l outer =>
    let around := outer.pin source delimiter cs
    let scope := around.get delimiter cs
    within (l.pin (source.skip outer.draws) (count l.kind delimiter scope)) around

end CardScript.Chunk
