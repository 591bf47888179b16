import CardScript.Chunk.Basic
import CardScript.Text.Blank
import CardScript.Text.Search

/-!
# Segments

Where the chunks of each kind lie in a text, as stretches of character positions. For items and
lines the segment after the last delimiter is always there, so that it can be written, but it is
counted only if it holds something.
-/

namespace CardScript.Chunk

/-- The characters from position `start` up to, and not including, `stop`. -/
structure Stretch where
  start : Nat
  stop : Nat
deriving Repr, DecidableEq, Inhabited

namespace Stretch

def isEmpty (s : Stretch) : Bool :=
  s.start == s.stop

def shift (s : Stretch) (n : Nat) : Stretch :=
  ⟨n + s.start, n + s.stop⟩

/-- The characters of `cs` in the stretch. -/
def of (s : Stretch) (cs : List Char) : List Char :=
  (cs.take s.stop).drop s.start

end Stretch

/-- Lays pieces out from position `pos` with a gap after each; a piece fills `width` of itself. -/
def layOut (gap : Nat) (width : List Char → Nat) (pos : Nat) : List (List Char) → List Stretch
  | [] => []
  | piece :: rest =>
    ⟨pos, pos + width piece⟩ :: layOut gap width (pos + piece.length + gap) rest

def delimited (delimiter cs : List Char) : List Stretch :=
  layOut delimiter.length List.length 0 (Text.splitOn delimiter cs)

/-- The length of a line without a carriage return at its end. -/
def lineWidth (line : List Char) : Nat :=
  if line.getLast? == some '\r' then line.length - 1 else line.length

def lineSegments (cs : List Char) : List Stretch :=
  layOut 1 lineWidth 0 (Text.splitOn ['\n'] cs)

/-- Runs of characters that are not blank, from position `pos`; `begun` is where the run being
read began. -/
def wordSegmentsFrom (begun : Option Nat) (pos : Nat) : List Char → List Stretch
  | [] =>
    match begun with
    | some start => [⟨start, pos⟩]
    | none => []
  | c :: rest =>
    match Text.isBlank c, begun with
    | true, some start => ⟨start, pos⟩ :: wordSegmentsFrom none (pos + 1) rest
    | false, none => wordSegmentsFrom (some pos) (pos + 1) rest
    | _, _ => wordSegmentsFrom begun (pos + 1) rest

def wordSegments (cs : List Char) : List Stretch :=
  wordSegmentsFrom none 0 cs

/-- The stretches of all chunks of a kind, in order. -/
def segments (kind : Kind) (delimiter cs : List Char) : List Stretch :=
  match kind with
  | .char => (List.range cs.length).map fun i => ⟨i, i + 1⟩
  | .word => wordSegments cs
  | .item => delimited delimiter cs
  | .line => lineSegments cs

/-- How many of the segments count. -/
def counted (kind : Kind) (all : List Stretch) : Nat :=
  match kind with
  | .char | .word => all.length
  | .item | .line =>
    match all.getLast? with
    | some last => if last.isEmpty then all.length - 1 else all.length
    | none => 0

/-- The number of chunks of a kind in a text. -/
def count (kind : Kind) (delimiter cs : List Char) : Nat :=
  counted kind (segments kind delimiter cs)

end CardScript.Chunk
