import CardScript.Json.Fields
import CardScript.Number.Word
import CardScript.Syntax.Basic

/-!
# Words of the exchange format

Each plain choice is exchanged as one word.
-/

namespace CardScript

namespace BinaryOp

def name : BinaryOp → String
  | add => "add"
  | subtract => "subtract"
  | multiply => "multiply"
  | divide => "divide"
  | div => "div"
  | mod => "mod"
  | power => "power"
  | concat => "concat"
  | concatSpaced => "concat_spaced"
  | equal => "equal"
  | notEqual => "not_equal"
  | less => "less"
  | greater => "greater"
  | lessEqual => "less_equal"
  | greaterEqual => "greater_equal"
  | contains => "contains"
  | isIn => "is_in"
  | isNotIn => "is_not_in"
  | and => "and"
  | or => "or"

def all : List BinaryOp :=
  [add, subtract, multiply, divide, div, mod, power, concat, concatSpaced, equal, notEqual, less,
    greater, lessEqual, greaterEqual, contains, isIn, isNotIn, and, or]

def toJson (op : BinaryOp) : Json := .string op.name

def ofJson? : Json → Option BinaryOp := Json.oneOf? name all

end BinaryOp

namespace UnaryOp

def name : UnaryOp → String
  | not => "not"
  | negate => "negate"

def toJson (op : UnaryOp) : Json := .string op.name

def ofJson? : Json → Option UnaryOp := Json.oneOf? name [not, negate]

end UnaryOp

namespace Chunk.Kind

def toJson (k : Kind) : Json := .string k.name

def ofJson? : Json → Option Kind := Json.oneOf? name [char, word, item, line]

end Chunk.Kind

namespace Ordinal

def toJson (o : Ordinal) : Json := .string o.name

def ofJson? : Json → Option Ordinal := Json.oneOf? name [last, middle, any]

end Ordinal

namespace PartType

def toJson (t : PartType) : Json := .string t.name

def ofJson? : Json → Option PartType := Json.oneOf? name [button, field, card, background, stack]

end PartType

namespace Layer

def toJson (l : Layer) : Json := .string l.name

def ofJson? : Json → Option Layer := Json.oneOf? name [card, background]

end Layer

namespace Position

def toJson (p : Position) : Json := .string p.name

def ofJson? : Json → Option Position := Json.oneOf? name [next, prev, this]

end Position

namespace Preposition

def name : Preposition → String
  | before => "before"
  | after => "after"
  | into => "into"

def toJson (p : Preposition) : Json := .string p.name

def ofJson? : Json → Option Preposition := Json.oneOf? name [before, after, into]

end Preposition

namespace TimeUnit

def name : TimeUnit → String
  | ticks => "ticks"
  | seconds => "seconds"

def toJson (u : TimeUnit) : Json := .string u.name

def ofJson? : Json → Option TimeUnit := Json.oneOf? name [ticks, seconds]

end TimeUnit

namespace Symbol

/-- A symbol is exchanged by its spelling. -/
def toJson (s : Symbol) : Json := .string s.spelling

def ofJson? (j : Json) : Option Symbol := j.string?.map Symbol.mk

end Symbol

namespace Span

def toJson (s : Span) : Json :=
  .object [("line", .ofNat s.line), ("column", .ofNat s.column)]

/-- Lines and columns are words of thirty-two bits. -/
def ofJson? (j : Json) : Option Span := do
  let fields ← j.fields?
  let line ← Json.required? fields "line" (Json.natBelow? Number.halfWordCount)
  let column ← Json.required? fields "column" (Json.natBelow? Number.halfWordCount)
  return { line, column }

end Span

end CardScript
