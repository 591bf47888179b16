/-!
# Chunks

A chunk names a stretch of a text: some characters, words, items or lines of it, counted from one,
or of an enclosing chunk. An index is a place that the text alone settles, or `any`, which is left
to chance; `Chunk Place` is a chunk without chance.
-/

namespace CardScript

namespace Chunk

inductive Kind where
  | char
  | word
  | item
  | line
deriving Repr, DecidableEq, Inhabited

def Kind.name : Kind → String
  | .char => "char"
  | .word => "word"
  | .item => "item"
  | .line => "line"

end Chunk

/-- An ordinal word in place of a number. -/
inductive Ordinal where
  | last
  | middle
  | any
deriving Repr, DecidableEq, Inhabited

def Ordinal.name : Ordinal → String
  | .last => "last"
  | .middle => "middle"
  | .any => "any"

namespace Chunk

/-- A position among the chunks of one kind. -/
inductive Place where
  | at (n : Int)
  | last
  | middle
deriving Repr, DecidableEq, Inhabited

/-- The number of a place among `count` chunks; a number may lie outside. -/
def Place.number (count : Nat) : Place → Int
  | .at n => n
  | .last => count
  | .middle => (count / 2 + 1 : Nat)

/-- A place, or one drawn at random. -/
inductive Index where
  | place (p : Place)
  | any
deriving Repr, DecidableEq, Inhabited

def Index.ofOrdinal : Ordinal → Index
  | .last => .place .last
  | .middle => .place .middle
  | .any => .any

/-- One level of a chunk: a single index, or a range of them. -/
structure Level (ι : Type) where
  kind : Kind
  start : ι
  stop : Option ι := none
deriving Repr, DecidableEq, Inhabited

end Chunk

/-- A level applied to the whole text, or inside an enclosing chunk. -/
inductive Chunk (ι : Type) where
  | ofText (level : Chunk.Level ι)
  | within (level : Chunk.Level ι) (outer : Chunk ι)
deriving Repr, DecidableEq

namespace Chunk

/-- The innermost level, the one that is read or written. -/
def level {ι : Type} : Chunk ι → Level ι
  | ofText l => l
  | within l _ => l

/-- The kind whose delimiters decide how the text grows: that of the outermost level. -/
def outermostKind {ι : Type} : Chunk ι → Kind
  | ofText l => l.kind
  | within _ o => o.outermostKind

end Chunk

end CardScript
