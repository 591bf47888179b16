import CardScript.Chunk.Writing
import CardScript.Part.Basic
import CardScript.Symbol

/-!
# Scripts as trees

Expressions, containers, commands and handlers, as a reader of script text would produce them.
-/

namespace CardScript

inductive BinaryOp where
  | add
  | subtract
  | multiply
  | divide
  | div
  | mod
  | power
  | concat
  | concatSpaced
  | equal
  | notEqual
  | less
  | greater
  | lessEqual
  | greaterEqual
  | contains
  | isIn
  | isNotIn
  | and
  | or
deriving Repr, DecidableEq, Inhabited

inductive UnaryOp where
  | not
  | negate
deriving Repr, DecidableEq, Inhabited

mutual

inductive Expr where
  | literal (text : String) (quoted : Bool)
  /-- A variable; one that was never set reads as its own name. -/
  | var (name : Symbol)
  | binary (op : BinaryOp) (lhs rhs : Expr)
  | unary (op : UnaryOp) (operand : Expr)
  | chunk (chunk : ChunkExpr) (source : Expr)
  /-- A property of a part, or of the desktop. -/
  | property (name : Symbol) (part : Option PartExpr)
  /-- What a button or field holds. -/
  | part (part : PartExpr)
  | call (name : Symbol) (args : List Expr)
  | countChunks (kind : Chunk.Kind) (source : Expr)
  | countParts (type : PartType) (layer : Option Layer) (owner : Option PartExpr)

inductive IndexExpr where
  | at (number : Expr)
  | ordinal (word : Ordinal)

/-- A chunk with the chunk around it, if there is one. -/
inductive ChunkExpr where
  | mk (kind : Chunk.Kind) (start : IndexExpr) (stop : Option IndexExpr)
    (outer : Option ChunkExpr)

/-- The address of a part. -/
inductive PartExpr where
  | id (layer : Option Layer) (type : PartType) (id : Expr)
  /-- By name; a whole number that is not in quotes is a position. -/
  | named (layer : Option Layer) (type : PartType) (name : Expr)
  | ordinal (layer : Option Layer) (type : PartType) (word : Ordinal)
  | position (type : PartType) (position : Position)
  | stack (name : Option Expr)
  | of (part owner : PartExpr)
  | me
  | target

end

instance : Inhabited Expr := ⟨.literal "" false⟩
instance : Inhabited IndexExpr := ⟨.ordinal .last⟩
instance : Inhabited ChunkExpr := ⟨.mk .char default none none⟩
instance : Inhabited PartExpr := ⟨.me⟩

/-- Something that can be read and put into. -/
inductive Container where
  | var (name : Symbol) (chunk : Option ChunkExpr)
  | part (part : PartExpr) (chunk : Option ChunkExpr)
  | property (name : Symbol) (part : Option PartExpr) (chunk : Option ChunkExpr)
  | messageBox
deriving Inhabited

inductive TimeUnit where
  | ticks
  | seconds
deriving Repr, DecidableEq, Inhabited

inductive LoopKind where
  | forever
  | count (times : Expr)
  | whileTrue (condition : Expr)
  | untilTrue (condition : Expr)
  | counting (counter : Symbol) (first final : Expr) (down : Bool)
deriving Inhabited

mutual

inductive Command where
  | put (value : Expr) (preposition : Preposition) (target : Container)
  | get (value : Expr)
  | set (property : Symbol) (part : Option PartExpr) (value : Expr)
  | global (names : List Symbol)
  | add (value : Expr) (target : Container)
  | subtract (value : Expr) (target : Container)
  | multiply (target : Container) (value : Expr)
  | divide (target : Container) (value : Expr)
  /-- Without a destination, back to where one came from. -/
  | go (destination : Option PartExpr)
  | beep (count : Option Expr)
  | wait (duration : Expr) (unit : TimeUnit)
  | send (message : Expr) (target : Option PartExpr)
  | visualEffect (effect : Expr)
  | newCard
  | newBackground
  | deleteCard (card : Option PartExpr)
  /-- A line that names no command: a message to the part it stands in. -/
  | message (name : Symbol) (args : List Expr)
  | choose (condition : Expr) (whenTrue whenFalse : List Statement)
  | loop (kind : LoopKind) (body : List Statement)
  | exitRepeat
  | nextRepeat
  | exitHandler
  | exitToHyperCard
  | pass
  | giveBack (value : Option Expr)

inductive Statement where
  | mk (span : Span) (command : Command)

end

namespace Statement

def span : Statement → Span
  | mk span _ => span

def command : Statement → Command
  | mk _ command => command

end Statement

instance : Inhabited Command := ⟨.pass⟩
instance : Inhabited Statement := ⟨.mk {} default⟩

/-- What a part does when a message or a function call reaches it. -/
structure Handler where
  name : Symbol
  params : List Symbol := []
  body : List Statement := []
  isFunction : Bool := false
  span : Span := {}
deriving Inhabited

structure Script where
  handlers : List Handler := []
deriving Inhabited

/-- A handler answers to its name in any letter case, as a message or as a function. -/
def Handler.answers (h : Handler) (name : String) (isFunction : Bool) : Bool :=
  h.isFunction == isFunction && h.name.isNamed name

/-- The first handler for a message, or for a function. -/
def Script.handler? (s : Script) (name : String) (isFunction : Bool) : Option Handler :=
  s.handlers.find? (·.answers name isFunction)

end CardScript
