import Blockscript.Proofs.Lr.Completeness
import Blockscript.Script.Grammar

/-!
The parse table of scripts, written out.  The table is computed from the grammar
once and for all here; what is checked of every state later is checked on these
rows.
-/

namespace Blockscript.Script

open Lr (Row Table)

def lookaheadsAfter : Rule → List (Option Terminal)
  | .program => [none]
  | .routines | .routine | .eventDef | .processDef | .functionDef =>
      [none, some .event, some .proc, some .func]
  | .block => [some .semicolon, some .rightBrace, none, some .event, some .proc, some .func]
  | .statements => [some .rightBrace, some .semicolon]
  | .statement | .action | .assignment | .playerCondition | .condition | .variableCondition
  | .otherwise | .selection | .functionCall | .processCall => [some .semicolon, some .rightBrace]
  | .steps => [some .leftBrace, some .arrow]
  | .step => [some .arrow, some .leftBrace]
  | .arguments => [some .leftBrace, some .arrow, some .semicolon, some .rightBrace]
  | .values => [some .rightParen, some .comma]
  | .value | .coordinate => [some .comma, some .rightParen]
  | .reference => [some .operator, some .comma, some .rightParen]

/-- The row of a state that reduces a production or goes on. -/
def movingOr (p : Production) (shifts : List (Terminal × Nat)) (gotos : List (Rule × Nat)) :
    Row Terminal Rule Production :=
  { shifts, gotos, reductions := [(p, lookaheadsAfter p.lhs)] }

/-- The row of a state that only goes on. -/
def moving (shifts : List (Terminal × Nat)) (gotos : List (Rule × Nat)) :
    Row Terminal Rule Production :=
  { shifts, gotos }

/-- The row of a state that only reduces a production. -/
def reducing (p : Production) : Row Terminal Rule Production :=
  movingOr p [] []

def routineShifts : List (Terminal × Nat) :=
  [(.event, 6), (.proc, 7), (.func, 8)]

/-- The gotos of a state in which a routine can begin, but for the routine. -/
def routineGotos : List (Rule × Nat) :=
  [(.eventDef, 3), (.processDef, 4), (.functionDef, 5)]

def statementShifts : List (Terminal × Nat) :=
  [(.player, 34), (.entity, 35), (.plot, 36), (.var, 37), (.if_, 38), (.else_, 39),
   (.select, 40), (.call, 41), (.start, 42)]

/-- The gotos of a state in which a statement can begin, but for the statement. -/
def statementGotos : List (Rule × Nat) :=
  [(.action, 25), (.assignment, 26), (.playerCondition, 27), (.condition, 28),
   (.variableCondition, 29), (.otherwise, 30), (.selection, 31), (.functionCall, 32),
   (.processCall, 33)]

def valueShifts : List (Terminal × Nat) :=
  [(.text, 102), (.number, 103), (.loc, 105), (.vec, 106), (.ident, 50), (.scopePrefix, 51)]

/-- The rows of the parse table in the order of their states. -/
def rows : List (Row Terminal Rule Production) :=
  [movingOr .emptyProgram routineShifts ([(.routines, 1), (.routine, 2)] ++ routineGotos),
   movingOr .program routineShifts ([(.routine, 9)] ++ routineGotos),
   reducing .firstRoutine, reducing .eventRoutine, reducing .processRoutine,
   reducing .functionRoutine, moving [(.player, 10)] [], moving [(.ident, 11)] [],
   moving [(.ident, 12)] [], reducing .nextRoutine, moving [(.dot, 13)] [],
   moving [(.leftParen, 14)] [], moving [(.leftParen, 15)] [], moving [(.ident, 16)] [],
   moving [(.rightParen, 17)] [], moving [(.rightParen, 18)] [],
   moving [(.leftBrace, 20)] [(.block, 19)], moving [(.leftBrace, 20)] [(.block, 21)],
   moving [(.leftBrace, 20)] [(.block, 22)], reducing .eventDef,
   moving ([(.rightBrace, 23)] ++ statementShifts) ([(.statement, 24)] ++ statementGotos),
   reducing .processDef, reducing .functionDef, reducing .emptyBlock,
   moving [(.rightBrace, 44), (.semicolon, 45)] [(.statements, 43)],
   reducing .actionStatement, reducing .assignmentStatement,
   reducing .playerConditionStatement, reducing .conditionStatement,
   reducing .variableConditionStatement, reducing .otherwiseStatement,
   reducing .selectionStatement, reducing .functionCallStatement,
   reducing .processCallStatement, moving [(.dot, 46)] [], moving [(.dot, 47)] [],
   moving [(.dot, 48)] [], moving [(.ident, 50), (.scopePrefix, 51)] [(.reference, 49)],
   moving [(.not, 52), (.player, 53), (.entity, 54), (.plot, 55), (.var, 56)] [],
   moving [(.leftBrace, 20)] [(.block, 57)], moving [(.ident, 59)] [(.step, 58)],
   moving [(.ident, 60)] [], moving [(.ident, 61)] [],
   moving [(.rightBrace, 62), (.semicolon, 63)] [], reducing .blockOfOne,
   moving ([(.rightBrace, 64)] ++ statementShifts) ([(.statement, 65)] ++ statementGotos),
   moving [(.ident, 66)] [], moving [(.ident, 67)] [], moving [(.ident, 68)] [],
   moving [(.operator, 69)] [], reducing .bareVariable, moving [(.ident, 70)] [],
   moving [(.player, 71)] [], moving [(.dot, 72)] [], moving [(.dot, 73)] [],
   moving [(.dot, 74)] [], moving [(.ident, 50), (.scopePrefix, 51)] [(.reference, 75)],
   reducing .otherwise,
   moving [(.arrow, 78), (.leftBrace, 20)] [(.steps, 76), (.block, 77)],
   moving [(.doubleColon, 79)] [], moving [(.leftParen, 80)] [],
   moving [(.leftParen, 81)] [], reducing .block,
   moving ([(.rightBrace, 82)] ++ statementShifts) ([(.statement, 83)] ++ statementGotos),
   reducing .blockOfOneEnded, reducing .firstMore,
   moving [(.leftParen, 85)] [(.arguments, 84)],
   moving [(.leftParen, 85)] [(.arguments, 86)],
   moving [(.leftParen, 85)] [(.arguments, 87)], moving [(.ident, 88)] [],
   reducing .scopedVariable, moving [(.dot, 89)] [], moving [(.ident, 90)] [],
   moving [(.ident, 91)] [], moving [(.ident, 92)] [], moving [(.operator, 93)] [],
   moving [(.arrow, 95), (.leftBrace, 20)] [(.block, 94)], reducing .selectionOfOne,
   moving [(.ident, 59)] [(.step, 96)], moving [(.ident, 97)] [],
   moving [(.rightParen, 98)] [], moving [(.rightParen, 99)] [], reducing .blockEnded,
   reducing .nextMore, reducing .playerAction,
   moving ([(.rightParen, 100)] ++ valueShifts) [(.value, 101), (.reference, 104)],
   reducing .entityAction, reducing .plotAction,
   moving [(.leftParen, 85)] [(.arguments, 107)], moving [(.ident, 108)] [],
   moving [(.leftParen, 85), (.leftBrace, 20)] [(.arguments, 109), (.block, 110)],
   moving [(.leftParen, 85), (.leftBrace, 20)] [(.arguments, 111), (.block, 112)],
   moving [(.leftParen, 85), (.leftBrace, 20)] [(.arguments, 113), (.block, 114)],
   moving [(.ident, 115)] [], reducing .selectionOfMany,
   moving [(.ident, 59)] [(.step, 116)], reducing .firstStep,
   moving [(.leftParen, 85)] [(.arguments, 117)], reducing .functionCall,
   reducing .processCall, reducing .noArguments,
   moving [(.rightParen, 119), (.comma, 120)] [(.values, 118)], reducing .text,
   reducing .number, reducing .reference, moving [(.leftParen, 121)] [],
   moving [(.leftParen, 122)] [], reducing .assignment,
   moving [(.leftParen, 85), (.leftBrace, 20)] [(.arguments, 123), (.block, 124)],
   moving [(.leftBrace, 20)] [(.block, 125)], reducing .playerCondition,
   moving [(.leftBrace, 20)] [(.block, 126)], reducing .entityCondition,
   moving [(.leftBrace, 20)] [(.block, 127)], reducing .plotCondition,
   moving [(.leftParen, 85)] [(.arguments, 128)], reducing .nextStep, reducing .step,
   moving [(.rightParen, 129), (.comma, 130)] [], reducing .oneArgument,
   moving valueShifts [(.value, 131), (.reference, 104)],
   moving [(.number, 133)] [(.coordinate, 132)],
   moving [(.number, 133)] [(.coordinate, 134)], moving [(.leftBrace, 20)] [(.block, 135)],
   reducing .negatedPlayerCondition, reducing .playerConditionOn,
   reducing .entityConditionOn, reducing .plotConditionOn,
   moving [(.leftBrace, 20)] [(.block, 136)], reducing .arguments,
   moving valueShifts [(.value, 137), (.reference, 104)], reducing .firstValue,
   moving [(.comma, 138)] [], reducing .coordinate, moving [(.comma, 139)] [],
   reducing .negatedPlayerConditionOn, reducing .variableCondition, reducing .nextValue,
   moving [(.number, 133)] [(.coordinate, 140)],
   moving [(.number, 133)] [(.coordinate, 141)], moving [(.comma, 142)] [],
   moving [(.comma, 143)] [], moving [(.number, 133)] [(.coordinate, 144)],
   moving [(.number, 133)] [(.coordinate, 145)],
   moving [(.rightParen, 146), (.comma, 147)] [], moving [(.rightParen, 148)] [],
   reducing .location, moving [(.number, 133)] [(.coordinate, 149)], reducing .vector,
   moving [(.comma, 150)] [], moving [(.number, 133)] [(.coordinate, 151)],
   moving [(.rightParen, 152)] [], reducing .facingLocation]

deriving instance DecidableEq for Row

theorem table_rows : table.rows.toList = rows := by
  decide +kernel

theorem table_eq : table = ⟨rows.toArray⟩ := by
  rw [← table_rows]

theorem row_eq (state : Nat) : table.row state = rows[state]?.getD {} := by
  rw [table_eq, Lr.Table.row, List.getElem?_toArray]

theorem row_mem_or (state : Nat) : table.row state ∈ rows ∨ table.row state = {} := by
  rw [row_eq]
  cases hfound : rows[state]? with
  | none => exact .inr rfl
  | some row => exact .inl (List.mem_of_getElem? hfound)

def follow : List (Rule × Option Terminal) :=
  Production.all.flatMap fun p => (lookaheadsAfter p.lhs).map fun t => (p.lhs, t)

theorem mem_productions (p : Production) : p ∈ grammar.productions := by
  cases p <;> decide

theorem saturated : Lr.Saturated grammar grammar.nullable grammar.firsts follow :=
  Lr.Grammar.saturated_of_check mem_productions (by decide +kernel)

theorem complete : Lr.Complete grammar table follow := by
  apply Lr.Table.complete_of_check mem_productions
  rw [table_eq]
  decide +kernel

end Blockscript.Script
