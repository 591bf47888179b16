import CardScript.Syntax.Decoding
import CardScript.Syntax.Encoding
import CardScript.Text.Dictionary

/-!
# Snapshots of stacks

A stack as it is kept outside a run: what the cards and backgrounds hold, without identifiers.
-/

namespace CardScript

open Text (Dictionary)

structure PartSnapshot where
  name : String := ""
  script : Script := {}
  text : String := ""
  sharedText : Bool := false
  /-- Further properties. -/
  properties : Dictionary := .empty
deriving Inhabited

structure BackgroundSnapshot where
  name : String := ""
  script : Script := {}
  buttons : List PartSnapshot := []
  fields : List PartSnapshot := []
deriving Inhabited

structure CardSnapshot where
  name : String := ""
  /-- The position of the card's background in the stack, from zero. -/
  background : Nat := 0
  script : Script := {}
  buttons : List PartSnapshot := []
  fields : List PartSnapshot := []
  /-- What the card holds in fields of its background, by name. -/
  backgroundText : Dictionary := .empty
deriving Inhabited

structure StackSnapshot where
  name : String := ""
  script : Script := {}
  backgrounds : List BackgroundSnapshot := []
  cards : List CardSnapshot := []
deriving Inhabited

open Json

def dictionaryJson (d : Dictionary) : Json :=
  .object (d.entries.map fun (name, text) => (name, .string text))

def dictionary? (j : Json) : Option Dictionary := do
  let fields ← j.fields?
  let entries ← fields.mapM fun (name, value) => do return (name, ← value.string?)
  return .ofList entries

namespace PartSnapshot

def toJson (p : PartSnapshot) : Json :=
  .object [("name", .string p.name), ("script", p.script.toJson), ("text", .string p.text),
    ("shared_text", .bool p.sharedText), ("properties", dictionaryJson p.properties)]

def ofJson? (j : Json) : Option PartSnapshot := do
  let fields ← j.fields?
  let name ← defaulted? fields "name" "" string?
  let script ← defaulted? fields "script" {} Script.ofJson?
  let text ← defaulted? fields "text" "" string?
  let sharedText ← defaulted? fields "shared_text" false bool?
  let properties ← defaulted? fields "properties" .empty dictionary?
  return { name, script, text, sharedText, properties }

end PartSnapshot

namespace BackgroundSnapshot

def toJson (b : BackgroundSnapshot) : Json :=
  .object [("name", .string b.name), ("script", b.script.toJson),
    ("buttons", .array (b.buttons.map PartSnapshot.toJson)),
    ("fields", .array (b.fields.map PartSnapshot.toJson))]

def ofJson? (j : Json) : Option BackgroundSnapshot := do
  let members ← j.fields?
  let name ← defaulted? members "name" "" string?
  let script ← defaulted? members "script" {} Script.ofJson?
  let buttons ← defaulted? members "buttons" [] (listOf? PartSnapshot.ofJson?)
  let fields ← defaulted? members "fields" [] (listOf? PartSnapshot.ofJson?)
  return { name, script, buttons, fields }

end BackgroundSnapshot

namespace CardSnapshot

def toJson (c : CardSnapshot) : Json :=
  .object [("name", .string c.name), ("background", .ofNat c.background),
    ("script", c.script.toJson), ("buttons", .array (c.buttons.map PartSnapshot.toJson)),
    ("fields", .array (c.fields.map PartSnapshot.toJson)),
    ("background_text", dictionaryJson c.backgroundText)]

def ofJson? (j : Json) : Option CardSnapshot := do
  let members ← j.fields?
  let name ← defaulted? members "name" "" string?
  let background ← defaulted? members "background" 0 (natBelow? Number.wordCount)
  let script ← defaulted? members "script" {} Script.ofJson?
  let buttons ← defaulted? members "buttons" [] (listOf? PartSnapshot.ofJson?)
  let fields ← defaulted? members "fields" [] (listOf? PartSnapshot.ofJson?)
  let backgroundText ← defaulted? members "background_text" .empty dictionary?
  return { name, background, script, buttons, fields, backgroundText }

end CardSnapshot

namespace StackSnapshot

def toJson (s : StackSnapshot) : Json :=
  .object [("name", .string s.name), ("script", s.script.toJson),
    ("backgrounds", .array (s.backgrounds.map BackgroundSnapshot.toJson)),
    ("cards", .array (s.cards.map CardSnapshot.toJson))]

def ofJson? (j : Json) : Option StackSnapshot := do
  let fields ← j.fields?
  let name ← defaulted? fields "name" "" string?
  let script ← defaulted? fields "script" {} Script.ofJson?
  let backgrounds ← defaulted? fields "backgrounds" [] (listOf? BackgroundSnapshot.ofJson?)
  let cards ← defaulted? fields "cards" [] (listOf? CardSnapshot.ofJson?)
  return { name, script, backgrounds, cards }

end StackSnapshot

end CardScript
