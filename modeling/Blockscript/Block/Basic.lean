import Blockscript.Block.Item
import Blockscript.Block.Template

/-!
Code blocks and their JSON.  A template is a flat list of blocks; nesting is written with brackets.
-/

namespace Blockscript

/-- An action, a condition or a selection step. -/
structure Instruction where
  kind : String
  items : List Item := []
  action : String := ""
  data : String := ""
  target : String := ""
  inverted : String := ""
  subAction : String := ""
deriving BEq, Repr

namespace Bracket

/-- Whether a bracket opens or closes. -/
inductive Direction where
  | opening
  | closing
deriving DecidableEq, Repr

inductive Shape where
  | normal
  | repeating
deriving DecidableEq, Repr

def Direction.word : Direction → String
  | .opening => "open"
  | .closing => "close"

def Shape.word : Shape → String
  | .normal => "norm"
  | .repeating => "repeat"

def Direction.ofWord (word : String) : Except Fault Direction :=
  if word = "open" then .ok .opening
  else if word = "close" then .ok .closing
  else .error (.unknownDirection word)

def Shape.ofWord (word : String) : Except Fault Shape :=
  if word = "norm" then .ok .normal
  else if word = "repeat" then .ok .repeating
  else .error (.unknownShape word)

end Bracket

inductive Block where
  | instruction (content : Instruction)
  | event (action : String) (kind : String := "event")
  | function (name : String) (kind : String := "func")
  | process (name : String) (kind : String := "process")
  | functionCall (name : String) (kind : String := "call_func")
  | processCall (name : String) (template : Option String) (kind : String := "start_process")
  | bracket (direction : Bracket.Direction) (shape : Bracket.Shape)
  /-- A block of no particular form, which has no JSON. -/
  | formless
deriving BEq, Repr

def argumentsJson (items : Json) : Json :=
  .ofFields [("items", items)]

def Instruction.toJson (i : Instruction) : Json :=
  .ofFields
    [("id", .ofString "block"),
     ("block", .ofString i.kind),
     ("args", argumentsJson (.array (i.items.map Item.toJson))),
     ("action", .ofString i.action),
     ("target", .ofString i.target),
     ("inverted", .ofString i.inverted),
     ("data", .ofString i.data),
     ("subAction", .ofString i.subAction)]

def definitionJson (kind name : String) : Json :=
  .ofFields
    [("id", .ofString "block"), ("block", .ofString kind), ("args", argumentsJson (.array [])),
     ("data", .ofString name)]

namespace Block

/-- The JSON of a block, with the payload it has if it is a process call.  Null stands for
that of a formless block, which has none. -/
def json (payload : Json) : Block → Json
  | .instruction content => content.toJson
  | .event action kind => .ofFields
      [("id", .ofString "block"), ("block", .ofString kind), ("action", .ofString action),
       ("args", argumentsJson (.array []))]
  | .function name kind => definitionJson kind name
  | .process name kind => definitionJson kind name
  | .functionCall name kind => .ofFields
      [("id", .ofString "block"), ("block", .ofString kind), ("data", .ofString name)]
  | .processCall name _ kind => .ofFields
      [("id", .ofString "block"), ("block", .ofString kind), ("data", .ofString name),
       ("args", argumentsJson payload)]
  | .bracket direction shape => .ofFields
      [("id", .ofString "bracket"), ("direct", .ofString direction.word),
       ("type", .ofString shape.word)]
  | .formless => .null

/-- Render a block.  Only process calls ask for a payload. -/
def toJson : Block → Rendering Json
  | .processCall name template kind => do
      let payload ← Store.payload template
      return (processCall name template kind).json payload
  | .formless => throw .formlessBlock
  | block => return block.json .null

def listToJson : List Block → Rendering (List Json)
  | [] => return []
  | block :: blocks => do
      let first ← block.toJson
      let rest ← listToJson blocks
      return first :: rest

/-- The JSON of a template, made of that of its blocks. -/
def templateJson (blocks : List Json) : Json :=
  .ofFields [("blocks", .array blocks)]

def template (blocks : List Block) : Rendering Json := do
  let items ← listToJson blocks
  return templateJson items

/-- A nested region: its head, and its body between brackets. -/
def wrap (shape : Bracket.Shape) (head : Block) (body : List Block) : List Block :=
  head :: .bracket .opening shape :: body ++ [.bracket .closing shape]

end Block

end Blockscript
