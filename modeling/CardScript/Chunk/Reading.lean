import CardScript.Chunk.Segment

/-!
# Reading chunks

The stretch a chunk denotes. A chunk that is not there, or whose range is reversed, denotes the
empty stretch at the end of the text around it, so that reading never fails.
-/

namespace CardScript.Chunk

/-- From the `first` to the `last` segment, counted from one. -/
def between (all : List Stretch) (first last : Int) : Stretch :=
  ⟨(all[(first - 1).toNat]?.getD default).start, (all[(last - 1).toNat]?.getD default).stop⟩

namespace Level

/-- The numbers of the first and last chunk of a level among `count`, if there are any. -/
def bounds? (l : Level Place) (count : Nat) : Option (Int × Int) :=
  let start := l.start.number count
  match l.stop with
  | none => if start < 1 || count < start then none else some (start, start)
  | some stop =>
    let first := max start 1
    let last := min (stop.number count) count
    if last < first then none else some (first, last)

/-- The stretch of one level in a text. -/
def stretch (l : Level Place) (delimiter cs : List Char) : Stretch :=
  let all := segments l.kind delimiter cs
  let count := counted l.kind all
  let nowhere : Stretch := ⟨cs.length, cs.length⟩
  if count == 0 then nowhere
  else
    match l.bounds? count with
    | some (first, last) => between all first last
    | none => nowhere

end Level

/-- The stretch of a chunk in a text. -/
def stretch (delimiter cs : List Char) : Chunk Place → Stretch
  | ofText l => l.stretch delimiter cs
  | within l outer =>
    let around := outer.stretch delimiter cs
    (l.stretch delimiter (around.of cs)).shift around.start

/-- The text of a chunk. -/
def get (chunk : Chunk Place) (delimiter cs : List Char) : List Char :=
  (chunk.stretch delimiter cs).of cs

/-- The number of bytes of a text in UTF-8. -/
def utf8Length : List Char → Nat
  | [] => 0
  | c :: cs => c.utf8Size + utf8Length cs

/-- A stretch counted in bytes of UTF-8 instead of characters. -/
def Stretch.inBytes (s : Stretch) (cs : List Char) : Nat × Nat :=
  (utf8Length (cs.take s.start), utf8Length (cs.take s.stop))

end CardScript.Chunk
