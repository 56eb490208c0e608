import Blockscript.Lr.Machine
import Blockscript.Script.Grammar
import Blockscript.Script.Statement
import Blockscript.Text.Place

/-!
What each production of the grammar means: the part of the syntax tree that it stands for.
-/

namespace Blockscript.Script

/-- A token: its kind, its text as written, and the place where it begins. -/
structure Token where
  kind : Terminal
  text : String
  place : Place
deriving DecidableEq, Repr

/-- The part of a syntax tree that a rule stands for. -/
abbrev Rule.Meaning : Rule → Type
  | .program | .routines => List Routine
  | .routine | .eventDef | .processDef | .functionDef => Routine
  | .block | .statements => List Statement
  | .statement | .action | .assignment | .playerCondition | .condition | .variableCondition
  | .otherwise | .selection | .functionCall | .processCall => Statement
  | .steps => List Step
  | .step => Step
  | .arguments | .values => List Value
  | .value | .reference => Value
  | .coordinate => Double

def Routine.named (kind : RoutineKind) (name : Token) (body : List Statement) : Routine :=
  { kind, name := name.text, body, line := name.place.line, column := name.place.column }

def interpret : (p : Production) → Lr.Meanings Token Rule.Meaning p.rhs → p.lhs.Meaning
  | .program, (routines, _) => routines
  | .emptyProgram, _ => []
  | .firstRoutine, (routine, _) => [routine]
  | .nextRoutine, (routines, routine, _) => List.concat routines routine
  | .eventRoutine, (routine, _) => routine
  | .processRoutine, (routine, _) => routine
  | .functionRoutine, (routine, _) => routine
  | .eventDef, (_, _, _, name, body, _) => .named .event name body
  | .processDef, (_, name, _, _, body, _) => .named .process name body
  | .functionDef, (_, name, _, _, body, _) => .named .function name body
  | .emptyBlock, _ => []
  | .block, (_, statement, more, _) => statement :: more
  | .blockOfOne, (_, statement, _) => [statement]
  | .blockEnded, (_, statement, more, _) => statement :: more
  | .blockOfOneEnded, (_, statement, _) => [statement]
  | .firstMore, (_, statement, _) => [statement]
  | .nextMore, (statements, _, statement, _) => List.concat statements statement
  | .actionStatement, (statement, _) => statement
  | .assignmentStatement, (statement, _) => statement
  | .playerConditionStatement, (statement, _) => statement
  | .conditionStatement, (statement, _) => statement
  | .variableConditionStatement, (statement, _) => statement
  | .otherwiseStatement, (statement, _) => statement
  | .selectionStatement, (statement, _) => statement
  | .functionCallStatement, (statement, _) => statement
  | .processCallStatement, (statement, _) => statement
  | .playerAction, (_, _, name, arguments, _) => .action .player name.text arguments
  | .entityAction, (_, _, name, arguments, _) => .action .entity name.text arguments
  | .plotAction, (_, _, name, arguments, _) => .action .plot name.text arguments
  | .assignment, (_, target, operator, verb, arguments, _) =>
      .assignment target operator.text verb.text arguments
  | .negatedPlayerConditionOn, (_, _, _, _, name, arguments, body, _) =>
      .condition .player name.text arguments body true
  | .negatedPlayerCondition, (_, _, _, _, name, body, _) =>
      .condition .player name.text [] body true
  | .playerConditionOn, (_, _, _, name, arguments, body, _) =>
      .condition .player name.text arguments body false
  | .playerCondition, (_, _, _, name, body, _) => .condition .player name.text [] body false
  | .entityConditionOn, (_, _, _, name, arguments, body, _) =>
      .condition .entity name.text arguments body false
  | .entityCondition, (_, _, _, name, body, _) => .condition .entity name.text [] body false
  | .plotConditionOn, (_, _, _, name, arguments, body, _) =>
      .condition .plot name.text arguments body false
  | .plotCondition, (_, _, _, name, body, _) => .condition .plot name.text [] body false
  | .variableCondition, (_, _, target, operator, name, arguments, body, _) =>
      .variableCondition target operator.text name.text arguments body
  | .otherwise, (_, body, _) => .otherwise body
  | .selectionOfMany, (_, step, steps, body, _) => .selection (step :: steps) body
  | .selectionOfOne, (_, step, body, _) => .selection [step] body
  | .firstStep, (_, step, _) => [step]
  | .nextStep, (steps, _, step, _) => List.concat steps step
  | .step, (action, _, subAction, arguments, _) =>
      { action := action.text, subAction := subAction.text, arguments }
  | .functionCall, (_, name, _) => .call name.text false
  | .processCall, (_, name, _) => .call name.text true
  | .noArguments, _ => []
  | .arguments, (_, value, values, _) => value :: values
  | .oneArgument, (_, value, _) => [value]
  | .firstValue, (_, value, _) => [value]
  | .nextValue, (values, _, value, _) => List.concat values value
  | .text, (literal, _) => .text (unquote literal.text)
  | .number, (literal, _) => .number literal.text
  | .reference, (reference, _) => reference
  | .location, (_, _, x, _, y, _, z, _) => .location x y z (.zero false) (.zero false)
  | .facingLocation, (_, _, x, _, y, _, z, _, pitch, _, yaw, _) => .location x y z pitch yaw
  | .vector, (_, _, x, _, y, _, z, _) => .vector x y z
  | .bareVariable, (name, _) => .reference name.text defaultScope
  | .scopedVariable, (scope, name, _) =>
      .reference name.text ((scopeOf? (String.ofList scope.text.toList.dropLast)).getD defaultScope)
  | .coordinate, (literal, _) => (Double.read? literal.text).getD .nan

def attribution : Lr.Attribution grammar where
  Token := Token
  kind := Token.kind
  Meaning := Rule.Meaning
  interpret := Script.interpret

end Blockscript.Script
