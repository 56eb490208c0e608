import Blockscript.Lr.Table
import Blockscript.Script.Terminal

/-!
The grammar of scripts and its parse table.  A script is a sequence of events, processes and
functions; each has a block of statements separated by semicolons.
-/

namespace Blockscript.Script

/-- The rules of the grammar.  `routines`, `statements`, `steps` and `values` are the repetitions
inside a program, a block, a selection and an argument list. -/
inductive Rule where
  | program
  | routines
  | routine
  | eventDef
  | processDef
  | functionDef
  | block
  | statements
  | statement
  | action
  | assignment
  | playerCondition
  | condition
  | variableCondition
  | otherwise
  | selection
  | steps
  | step
  | functionCall
  | processCall
  | arguments
  | values
  | value
  | reference
  | coordinate
deriving DecidableEq, Repr

inductive Production where
  | program
  | emptyProgram
  | firstRoutine
  | nextRoutine
  | eventRoutine
  | processRoutine
  | functionRoutine
  | eventDef
  | processDef
  | functionDef
  | emptyBlock
  | block
  | blockOfOne
  | blockEnded
  | blockOfOneEnded
  | firstMore
  | nextMore
  | actionStatement
  | assignmentStatement
  | playerConditionStatement
  | conditionStatement
  | variableConditionStatement
  | otherwiseStatement
  | selectionStatement
  | functionCallStatement
  | processCallStatement
  | playerAction
  | entityAction
  | plotAction
  | assignment
  | negatedPlayerConditionOn
  | negatedPlayerCondition
  | playerConditionOn
  | playerCondition
  | entityConditionOn
  | entityCondition
  | plotConditionOn
  | plotCondition
  | variableCondition
  | otherwise
  | selectionOfMany
  | selectionOfOne
  | firstStep
  | nextStep
  | step
  | functionCall
  | processCall
  | noArguments
  | arguments
  | oneArgument
  | firstValue
  | nextValue
  | text
  | number
  | reference
  | location
  | facingLocation
  | vector
  | bareVariable
  | scopedVariable
  | coordinate
deriving DecidableEq, Repr

namespace Production

def all : List Production :=
  [program, emptyProgram, firstRoutine, nextRoutine, eventRoutine, processRoutine, functionRoutine,
   eventDef, processDef, functionDef, emptyBlock, block, blockOfOne, blockEnded, blockOfOneEnded,
   firstMore, nextMore, actionStatement, assignmentStatement, playerConditionStatement,
   conditionStatement, variableConditionStatement, otherwiseStatement, selectionStatement,
   functionCallStatement, processCallStatement, playerAction, entityAction, plotAction, assignment,
   negatedPlayerConditionOn, negatedPlayerCondition, playerConditionOn, playerCondition,
   entityConditionOn, entityCondition, plotConditionOn, plotCondition, variableCondition, otherwise,
   selectionOfMany, selectionOfOne, firstStep, nextStep, step, functionCall, processCall,
   noArguments, arguments, oneArgument, firstValue, nextValue, text, number, reference, location,
   facingLocation, vector, bareVariable, scopedVariable, coordinate]

def lhs : Production → Rule
  | program | emptyProgram => .program
  | firstRoutine | nextRoutine => .routines
  | eventRoutine | processRoutine | functionRoutine => .routine
  | eventDef => .eventDef
  | processDef => .processDef
  | functionDef => .functionDef
  | emptyBlock | block | blockOfOne | blockEnded | blockOfOneEnded => .block
  | firstMore | nextMore => .statements
  | actionStatement | assignmentStatement | playerConditionStatement | conditionStatement
  | variableConditionStatement | otherwiseStatement | selectionStatement | functionCallStatement
  | processCallStatement => .statement
  | playerAction | entityAction | plotAction => .action
  | assignment => .assignment
  | negatedPlayerConditionOn | negatedPlayerCondition | playerConditionOn | playerCondition =>
      .playerCondition
  | entityConditionOn | entityCondition | plotConditionOn | plotCondition => .condition
  | variableCondition => .variableCondition
  | otherwise => .otherwise
  | selectionOfMany | selectionOfOne => .selection
  | firstStep | nextStep => .steps
  | step => .step
  | functionCall => .functionCall
  | processCall => .processCall
  | noArguments | arguments | oneArgument => .arguments
  | firstValue | nextValue => .values
  | text | number | reference | location | facingLocation | vector => .value
  | bareVariable | scopedVariable => .reference
  | coordinate => .coordinate

abbrev Sym : Type :=
  Lr.Symbol Terminal Rule

abbrev tok (t : Terminal) : Sym :=
  .terminal t

abbrev sub (r : Rule) : Sym :=
  .rule r

def rhs : Production → List Sym
  | program => [sub .routines]
  | emptyProgram => []
  | firstRoutine => [sub .routine]
  | nextRoutine => [sub .routines, sub .routine]
  | eventRoutine => [sub .eventDef]
  | processRoutine => [sub .processDef]
  | functionRoutine => [sub .functionDef]
  | eventDef => [tok .event, tok .player, tok .dot, tok .ident, sub .block]
  | processDef => [tok .proc, tok .ident, tok .leftParen, tok .rightParen, sub .block]
  | functionDef => [tok .func, tok .ident, tok .leftParen, tok .rightParen, sub .block]
  | emptyBlock => [tok .leftBrace, tok .rightBrace]
  | block => [tok .leftBrace, sub .statement, sub .statements, tok .rightBrace]
  | blockOfOne => [tok .leftBrace, sub .statement, tok .rightBrace]
  | blockEnded => [tok .leftBrace, sub .statement, sub .statements, tok .semicolon, tok .rightBrace]
  | blockOfOneEnded => [tok .leftBrace, sub .statement, tok .semicolon, tok .rightBrace]
  | firstMore => [tok .semicolon, sub .statement]
  | nextMore => [sub .statements, tok .semicolon, sub .statement]
  | actionStatement => [sub .action]
  | assignmentStatement => [sub .assignment]
  | playerConditionStatement => [sub .playerCondition]
  | conditionStatement => [sub .condition]
  | variableConditionStatement => [sub .variableCondition]
  | otherwiseStatement => [sub .otherwise]
  | selectionStatement => [sub .selection]
  | functionCallStatement => [sub .functionCall]
  | processCallStatement => [sub .processCall]
  | playerAction => [tok .player, tok .dot, tok .ident, sub .arguments]
  | entityAction => [tok .entity, tok .dot, tok .ident, sub .arguments]
  | plotAction => [tok .plot, tok .dot, tok .ident, sub .arguments]
  | assignment => [tok .var, sub .reference, tok .operator, tok .ident, sub .arguments]
  | negatedPlayerConditionOn =>
      [tok .if_, tok .not, tok .player, tok .dot, tok .ident, sub .arguments, sub .block]
  | negatedPlayerCondition => [tok .if_, tok .not, tok .player, tok .dot, tok .ident, sub .block]
  | playerConditionOn => [tok .if_, tok .player, tok .dot, tok .ident, sub .arguments, sub .block]
  | playerCondition => [tok .if_, tok .player, tok .dot, tok .ident, sub .block]
  | entityConditionOn => [tok .if_, tok .entity, tok .dot, tok .ident, sub .arguments, sub .block]
  | entityCondition => [tok .if_, tok .entity, tok .dot, tok .ident, sub .block]
  | plotConditionOn => [tok .if_, tok .plot, tok .dot, tok .ident, sub .arguments, sub .block]
  | plotCondition => [tok .if_, tok .plot, tok .dot, tok .ident, sub .block]
  | variableCondition =>
      [tok .if_, tok .var, sub .reference, tok .operator, tok .ident, sub .arguments, sub .block]
  | otherwise => [tok .else_, sub .block]
  | selectionOfMany => [tok .select, sub .step, sub .steps, sub .block]
  | selectionOfOne => [tok .select, sub .step, sub .block]
  | firstStep => [tok .arrow, sub .step]
  | nextStep => [sub .steps, tok .arrow, sub .step]
  | step => [tok .ident, tok .doubleColon, tok .ident, sub .arguments]
  | functionCall => [tok .call, tok .ident, tok .leftParen, tok .rightParen]
  | processCall => [tok .start, tok .ident, tok .leftParen, tok .rightParen]
  | noArguments => [tok .leftParen, tok .rightParen]
  | arguments => [tok .leftParen, sub .value, sub .values, tok .rightParen]
  | oneArgument => [tok .leftParen, sub .value, tok .rightParen]
  | firstValue => [tok .comma, sub .value]
  | nextValue => [sub .values, tok .comma, sub .value]
  | text => [tok .text]
  | number => [tok .number]
  | reference => [sub .reference]
  | location =>
      [tok .loc, tok .leftParen, sub .coordinate, tok .comma, sub .coordinate, tok .comma,
       sub .coordinate, tok .rightParen]
  | facingLocation =>
      [tok .loc, tok .leftParen, sub .coordinate, tok .comma, sub .coordinate, tok .comma,
       sub .coordinate, tok .comma, sub .coordinate, tok .comma, sub .coordinate, tok .rightParen]
  | vector =>
      [tok .vec, tok .leftParen, sub .coordinate, tok .comma, sub .coordinate, tok .comma,
       sub .coordinate, tok .rightParen]
  | bareVariable => [tok .ident]
  | scopedVariable => [tok .scopePrefix, tok .ident]
  | coordinate => [tok .number]

end Production

def grammar : Lr.Grammar Terminal Rule Production where
  start := .program
  productions := Production.all
  lhs := Production.lhs
  rhs := Production.rhs

/-- The parse table of scripts.  Each of its productions is completed in one state only, so all that
can follow a rule is of use there.  It takes long to evaluate, so nothing unfolds it by itself. -/
@[irreducible]
def table : Lr.Table Terminal Rule Production :=
  grammar.table

namespace Rule

/-- The name of a rule.  A repetition goes by the name of the rule it is part of. -/
def name : Rule → String
  | program | routines => "start"
  | routine => "unit"
  | eventDef => "event_def"
  | processDef => "proc_def"
  | functionDef => "func_def"
  | block | statements => "body"
  | statement => "statement"
  | action => "action_call"
  | assignment => "assignment"
  | playerCondition => "if_player"
  | condition => "if_namespace"
  | variableCondition => "if_var"
  | otherwise => "else_block"
  | selection | steps => "selection"
  | step => "select_step"
  | functionCall => "func_call"
  | processCall => "proc_call"
  | arguments | values => "arguments"
  | value => "value"
  | reference => "variable"
  | coordinate => "coord"

/-- What a rule is called in a report to the author of a script. -/
def label : Rule → String
  | program | routines => "program"
  | routine => "unit"
  | eventDef => "event definition"
  | processDef => "process definition"
  | functionDef => "function definition"
  | block | statements => "block"
  | statement => "statement"
  | action => "action call"
  | assignment => "assignment"
  | playerCondition => "player condition"
  | condition => "condition"
  | variableCondition => "variable condition"
  | otherwise => "else block"
  | selection | steps => "selection"
  | step => "selection step"
  | functionCall => "function call"
  | processCall => "process call"
  | arguments | values => "argument list"
  | value => "value"
  | reference => "variable"
  | coordinate => "coordinate"

end Rule

end Blockscript.Script
