import CardScript.Chunk.Reading
import CardScript.Failure

/-!
# Writing chunks

Putting a text into, before or after a chunk. A chunk inside another one is written first, and the
result is put back into the enclosing chunk, whose delimiters decide how the text grows.
-/

namespace CardScript

inductive Preposition where
  | before
  | after
  | into
deriving Repr, DecidableEq, Inhabited

namespace Chunk

/-- `cs` with the stretch replaced. -/
def Stretch.replace (s : Stretch) (cs new : List Char) : List Char :=
  cs.take s.start ++ new ++ cs.drop s.stop

/-- The part of a stretch that a preposition replaces. -/
def Stretch.written (s : Stretch) : Preposition → Stretch
  | .into => s
  | .before => ⟨s.start, s.start⟩
  | .after => ⟨s.stop, s.stop⟩

/-- Appends a chunk that lies `missing` places past the last one. -/
def extend (kind : Kind) (missing : Nat) (delimiter cs new : List Char) : List Char :=
  match kind with
  | .char => cs ++ new
  | .word =>
    match cs.getLast? with
    | some c => if Text.isBlank c then cs ++ new else cs ++ ' ' :: new
    | none => new
  | .item => cs ++ (List.replicate missing delimiter).flatten ++ new
  | .line => cs ++ List.replicate missing '\n' ++ new

/-- Puts `new` at one level of a text. A range whose end lies before its start is empty and sits
before its first chunk. Nothing at all can be put anywhere without effect. -/
def Level.put (l : Level Place) (delimiter cs : List Char) (preposition : Preposition)
    (new : List Char) : Except Failure (List Char) :=
  let all := segments l.kind delimiter cs
  let count := counted l.kind all
  let requested := l.start.number (max count 1)
  if requested < 1 && l.stop.isNone then
    if new.isEmpty then .ok cs else .error (.chunkRange (.beforeFirst l.kind requested))
  else
    let start := max requested 1
    if all.length < start then
      if new.isEmpty then .ok cs
      else .ok (extend l.kind (start - all.length).toNat delimiter cs new)
    else
      let last : Int := match l.stop with
        | some stop => min (stop.number count) count
        | none => start
      if last < start then
        if new.isEmpty then .ok cs
        else
          let first := (between all start start).start
          .ok ((Stretch.mk first first).replace cs new)
      else .ok (((between all start last).written preposition).replace cs new)

/-- Puts `new` into, before or after a chunk of a text. -/
def put (delimiter cs : List Char) (preposition : Preposition) (new : List Char) :
    Chunk Place → Except Failure (List Char)
  | ofText l => l.put delimiter cs preposition new
  | within l outer => do
    let updated ← l.put delimiter (outer.get delimiter cs) preposition new
    outer.put delimiter cs .into updated

end Chunk

end CardScript
