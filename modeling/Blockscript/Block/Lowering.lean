import Blockscript.Block.Basic
import Blockscript.Text.Upper

/-!
Lowering: from the syntax tree to a flat list of blocks.  A condition and an else block put their
body between brackets.  A selection has no brackets: its steps change what is selected, so its body
is followed by a step that resets the selection.
-/

namespace Blockscript

open Script (Subject Step Statement Routine)

/-- A kind of block for each subject that has one. -/
structure SubjectKinds where
  player : String
  entity : String
  plot : String

def SubjectKinds.of (kinds : SubjectKinds) : Subject → Except Fault String
  | .player => .ok kinds.player
  | .entity => .ok kinds.entity
  | .plot => .ok kinds.plot
  | .other word => .error (.unknownName word)

def actionKinds : SubjectKinds :=
  ⟨"player_action", "entity_action", "game_action"⟩

def conditionKinds : SubjectKinds :=
  ⟨"if_player", "if_entity", "if_game"⟩

/-- The verb that lets an assignment take its operator as its action. -/
def placeholderVerb : String :=
  "with"

/-- The sub-action that stands for none. -/
def placeholderSubAction : String :=
  "nil"

def resetSelection : Block :=
  .instruction { kind := "select_obj", action := "Reset" }

def lowerStep (render : Renderer) (step : Step) : Except Fault Block := do
  let items ← Item.row render step.arguments Item.secondSlot
  let subAction := if step.subAction = placeholderSubAction then "" else step.subAction
  return .instruction
    { kind := "select_obj", items, action := Text.capitalize step.action
      subAction := Text.capitalize subAction }

def lowerSteps (render : Renderer) : List Step → Except Fault (List Block)
  | [] => .ok []
  | step :: steps => do
      let block ← lowerStep render step
      let blocks ← lowerSteps render steps
      return block :: blocks

mutual

def lowerStatement (settings : Settings) (render : Renderer) :
    Statement → Except Fault (List Block)
  | .action subject name arguments => do
      let kind ← actionKinds.of subject
      let items ← Item.row render arguments 0
      return [.instruction
        { kind, items, action := Text.capitalize name, target := settings.defaultTarget }]
  | .assignment target operator verb arguments => do
      let items ← Item.rowAfter render target arguments
      let action := if verb = placeholderVerb then operator else verb
      return [.instruction { kind := "set_var", items, action := Text.capitalize action }]
  | .condition subject name arguments body negated => do
      let kind ← conditionKinds.of subject
      let items ← Item.row render arguments 0
      let inner ← lowerBody settings render body
      let head : Instruction :=
        { kind, items, action := Text.capitalize name, target := settings.defaultTarget
          inverted := if negated then "NOT" else "" }
      return Block.wrap .normal (.instruction head) inner
  | .variableCondition target _ name arguments body => do
      let items ← Item.rowAfter render target arguments
      let inner ← lowerBody settings render body
      let head : Instruction := { kind := "if_var", items, action := Text.capitalize name }
      return Block.wrap .normal (.instruction head) inner
  | .otherwise body => do
      let inner ← lowerBody settings render body
      let head : Instruction := { kind := "else", target := settings.defaultTarget }
      return Block.wrap .normal (.instruction head) inner
  | .selection steps body => do
      let selected ← lowerSteps render steps
      let inner ← lowerBody settings render body
      return selected ++ inner ++ [resetSelection]
  | .call name true => .ok [.processCall name settings.processTemplatePath]
  | .call name false => .ok [.functionCall name]
  | .stray what => .error (.noStatement what)

def lowerBody (settings : Settings) (render : Renderer) :
    List Statement → Except Fault (List Block)
  | [] => .ok []
  | statement :: statements => do
      let blocks ← lowerStatement settings render statement
      let more ← lowerBody settings render statements
      return blocks ++ more

end

def definition (routine : Routine) : Except Fault Block :=
  match routine.kind with
  | .event => .ok (.event (Text.capitalize routine.name))
  | .function => .ok (.function routine.name)
  | .process => .ok (.process routine.name)
  | .other word => .error (.unknownRoutineKind word)

def lowerRoutine (settings : Settings) (render : Renderer) (routine : Routine) :
    Except Fault (List Block) := do
  let head ← definition routine
  let blocks ← lowerBody settings render routine.body
  return head :: blocks

end Blockscript
