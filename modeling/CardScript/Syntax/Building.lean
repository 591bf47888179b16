import CardScript.Syntax.Basic

/-!
# Building scripts

Short ways to write common trees.
-/

namespace CardScript

/-- A literal number. -/
def Expr.ofInt (n : Int) : Expr :=
  .literal (toString n) false

namespace ChunkExpr

def single (kind : Chunk.Kind) (index : Int) : ChunkExpr :=
  .mk kind (.at (.ofInt index)) none none

def range (kind : Chunk.Kind) (first final : Int) : ChunkExpr :=
  .mk kind (.at (.ofInt first)) (some (.at (.ofInt final))) none

/-- The chunk taken inside `around`, whatever was around it before. -/
def inside (chunk around : ChunkExpr) : ChunkExpr :=
  match chunk with
  | .mk kind start stop _ => .mk kind start stop (some around)

end ChunkExpr

namespace PartExpr

def byName (type : PartType) (name : Expr) : PartExpr :=
  .named none type name

def byId (type : PartType) (id : Int) : PartExpr :=
  .id none type (.ofInt id)

end PartExpr

namespace Handler

/-- A handler for a message. -/
def onMessage (name : String) (params : List String) (body : List Statement) : Handler :=
  { name := ⟨name⟩, params := params.map Symbol.mk, body }

/-- A handler for a function call. -/
def forFunction (name : String) (params : List String) (body : List Statement) : Handler :=
  { onMessage name params body with isFunction := true }

end Handler

end CardScript
