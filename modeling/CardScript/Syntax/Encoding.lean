import CardScript.Syntax.Words

/-!
# Encoding scripts

The exchange format of script trees. Every field is written, an absent option as `null`.
-/

namespace CardScript

open Json (tagged ofOption)

def layerJson (layer : Option Layer) : Json := ofOption Layer.toJson layer

mutual

def Expr.toJson : Expr → Json
  | .literal text quoted =>
    tagged "literal" (.object [("text", .string text), ("quoted", .bool quoted)])
  | .var name => tagged "variable" name.toJson
  | .binary op lhs rhs =>
    tagged "binary" (.object [("op", op.toJson), ("lhs", lhs.toJson), ("rhs", rhs.toJson)])
  | .unary op operand =>
    tagged "unary" (.object [("op", op.toJson), ("operand", operand.toJson)])
  | .chunk c source =>
    tagged "chunk" (.object [("chunk", c.toJson), ("of", source.toJson)])
  | .property name p =>
    tagged "property" (.object [("property", name.toJson), ("part", PartExpr.optionJson p)])
  | .part p => tagged "part" p.toJson
  | .call name args =>
    tagged "call" (.object [("name", name.toJson), ("args", .array (Expr.listJson args))])
  | .countChunks kind source =>
    tagged "count_chunks" (.object [("kind", kind.toJson), ("of", source.toJson)])
  | .countParts type layer owner =>
    tagged "count_parts" (.object [("ty", type.toJson), ("layer", layerJson layer),
      ("owner", PartExpr.optionJson owner)])

def Expr.listJson : List Expr → List Json
  | [] => []
  | e :: rest => e.toJson :: Expr.listJson rest

def Expr.optionJson : Option Expr → Json
  | none => .null
  | some e => e.toJson

def IndexExpr.toJson : IndexExpr → Json
  | .at number => tagged "at" number.toJson
  | .ordinal word => tagged "ordinal" word.toJson

def IndexExpr.optionJson : Option IndexExpr → Json
  | none => .null
  | some i => i.toJson

def ChunkExpr.toJson : ChunkExpr → Json
  | .mk kind start stop outer =>
    .object [("kind", kind.toJson), ("start", start.toJson), ("end", IndexExpr.optionJson stop),
      ("within", ChunkExpr.optionJson outer)]

def ChunkExpr.optionJson : Option ChunkExpr → Json
  | none => .null
  | some c => c.toJson

def PartExpr.toJson : PartExpr → Json
  | .id layer type id =>
    tagged "id" (.object [("layer", layerJson layer), ("ty", type.toJson), ("id", id.toJson)])
  | .named layer type name =>
    tagged "named"
      (.object [("layer", layerJson layer), ("ty", type.toJson), ("name", name.toJson)])
  | .ordinal layer type word =>
    tagged "ordinal"
      (.object [("layer", layerJson layer), ("ty", type.toJson), ("ordinal", word.toJson)])
  | .position type position =>
    tagged "position" (.object [("ty", type.toJson), ("position", position.toJson)])
  | .stack name => tagged "stack" (.object [("name", Expr.optionJson name)])
  | .of part owner => tagged "of" (.object [("part", part.toJson), ("owner", owner.toJson)])
  | .me => .string "me"
  | .target => .string "target"

def PartExpr.optionJson : Option PartExpr → Json
  | none => .null
  | some p => p.toJson

end

def Container.toJson : Container → Json
  | .var name chunk =>
    tagged "variable" (.object [("name", name.toJson), ("chunk", ChunkExpr.optionJson chunk)])
  | .part p chunk =>
    tagged "part" (.object [("part", p.toJson), ("chunk", ChunkExpr.optionJson chunk)])
  | .property name p chunk =>
    tagged "property" (.object [("property", name.toJson), ("part", PartExpr.optionJson p),
      ("chunk", ChunkExpr.optionJson chunk)])
  | .messageBox => .string "message_box"

def LoopKind.toJson : LoopKind → Json
  | .forever => .string "forever"
  | .count times => tagged "count" times.toJson
  | .whileTrue condition => tagged "while" condition.toJson
  | .untilTrue condition => tagged "until" condition.toJson
  | .counting counter first final down =>
    tagged "with" (.object [("variable", counter.toJson), ("from", first.toJson),
      ("to", final.toJson), ("down", .bool down)])

mutual

def Command.toJson : Command → Json
  | .put value preposition target =>
    tagged "put" (.object [("value", value.toJson), ("preposition", preposition.toJson),
      ("target", target.toJson)])
  | .get value => tagged "get" (.object [("value", value.toJson)])
  | .set property part value =>
    tagged "set" (.object [("property", property.toJson), ("part", PartExpr.optionJson part),
      ("value", value.toJson)])
  | .global names => tagged "global" (.object [("names", .array (names.map Symbol.toJson))])
  | .add value target =>
    tagged "add" (.object [("value", value.toJson), ("target", target.toJson)])
  | .subtract value target =>
    tagged "subtract" (.object [("value", value.toJson), ("target", target.toJson)])
  | .multiply target value =>
    tagged "multiply" (.object [("target", target.toJson), ("value", value.toJson)])
  | .divide target value =>
    tagged "divide" (.object [("target", target.toJson), ("value", value.toJson)])
  | .go destination => tagged "go" (.object [("destination", PartExpr.optionJson destination)])
  | .beep count => tagged "beep" (.object [("count", Expr.optionJson count)])
  | .wait duration unit =>
    tagged "wait" (.object [("duration", duration.toJson), ("unit", unit.toJson)])
  | .send message target =>
    tagged "send" (.object [("message", message.toJson), ("target", PartExpr.optionJson target)])
  | .visualEffect effect => tagged "visual_effect" (.object [("effect", effect.toJson)])
  | .newCard => .string "new_card"
  | .newBackground => .string "new_background"
  | .deleteCard card => tagged "delete_card" (.object [("card", PartExpr.optionJson card)])
  | .message name args =>
    tagged "message" (.object [("name", name.toJson), ("args", .array (Expr.listJson args))])
  | .choose condition whenTrue whenFalse =>
    tagged "if" (.object [("condition", condition.toJson),
      ("then_branch", .array (Statement.listJson whenTrue)),
      ("else_branch", .array (Statement.listJson whenFalse))])
  | .loop kind body =>
    tagged "repeat" (.object [("kind", kind.toJson), ("body", .array (Statement.listJson body))])
  | .exitRepeat => .string "exit_repeat"
  | .nextRepeat => .string "next_repeat"
  | .exitHandler => .string "exit_handler"
  | .exitToHyperCard => .string "exit_to_hyper_card"
  | .pass => .string "pass"
  | .giveBack value => tagged "return" (.object [("value", Expr.optionJson value)])

def Statement.toJson : Statement → Json
  | .mk span command => .object [("span", span.toJson), ("command", command.toJson)]

def Statement.listJson : List Statement → List Json
  | [] => []
  | s :: rest => s.toJson :: Statement.listJson rest

end

def Handler.toJson (h : Handler) : Json :=
  .object [("name", h.name.toJson), ("params", .array (h.params.map Symbol.toJson)),
    ("body", .array (Statement.listJson h.body)), ("is_function", .bool h.isFunction),
    ("span", h.span.toJson)]

def Script.toJson (s : Script) : Json :=
  .object [("handlers", .array (s.handlers.map Handler.toJson))]

end CardScript
