import CardScript.Number.Word

/-!
# Random draws

Chance is data: a run is given a sequence of numbers and takes the next one whenever it has to
choose. Everything said of all sequences holds whatever chance brings.
-/

namespace CardScript

structure Draws where
  /-- The numbers drawn, without end. -/
  number : Nat → Nat := fun _ => 0
  /-- How many have been used. -/
  used : Nat := 0

namespace Draws

instance : Inhabited Draws := ⟨{}⟩

/-- One step of a linear congruence. -/
def stir (x : Nat) : Nat :=
  (x * 6364136223846793005 + 1442695040888963407) % Number.wordCount

/-- Draws that a seed decides; the low bits, which repeat soon, are dropped. -/
def ofSeed (seed : Nat) : Draws where
  number n := Nat.repeat stir (n + 1) seed / Number.twoTo 20

/-- A choice from `1` to `count`; `0` if there is nothing to choose. -/
def pick (draws : Draws) (count : Nat) : Nat :=
  if count == 0 then 0 else draws.number draws.used % count + 1

def skip (draws : Draws) (n : Nat) : Draws :=
  { draws with used := draws.used + n }

end Draws

end CardScript
