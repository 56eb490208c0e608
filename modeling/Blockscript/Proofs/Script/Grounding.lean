import Blockscript.Proofs.Lr.Viability
import Blockscript.Proofs.Script.Rows

/-!
The parse table of scripts fits their grammar: reductions come to an end, every
state is entered in the midst of productions that have been begun, and every rule
has a word.
-/

namespace Blockscript.Script

/-- A rank that every production of one symbol lowers. -/
def rank : Lr.Symbol Terminal Rule → Nat
  | .rule .program => 0
  | .rule .routines => 1
  | .rule .routine => 2
  | .rule .eventDef | .rule .processDef | .rule .functionDef | .rule .statement
  | .rule .value => 3
  | .rule _ => 4
  | .terminal _ => 5

theorem goto_program_rows : ∀ row ∈ rows, row.goto? .program = none := by
  decide +kernel

theorem goto?_program (state : Nat) : (table.row state).goto? .program = none := by
  rcases row_mem_or state with hmem | hempty
  · exact goto_program_rows _ hmem
  · rw [hempty]
    rfl

theorem descending : Lr.Descending grammar table rank where
  bounded x := by
    have hrank : rank x ≤ 5 := by
      rcases x with t | r
      · exact Nat.le_refl 5
      · cases r <;> decide
    have hlength : 5 ≤ grammar.productions.length := by decide
    omega
  single p x hrhs := by
    cases p <;> cases hrhs <;> decide
  empty p state hrhs := by
    cases p with
    | emptyProgram => exact goto?_program state
    | _ => cases hrhs

theorem grounded : Lr.Grounded grammar table fun r => rank (.rule r) := by
  apply Lr.Table.grounded_of_check mem_productions
  rw [table_eq]
  decide +kernel

/-! ### The shortest words of the rules -/

/-- A production of a rule that leads to a word soonest. -/
def simplest : Rule → Production
  | .program => .emptyProgram
  | .routines => .firstRoutine
  | .routine => .eventRoutine
  | .eventDef => .eventDef
  | .processDef => .processDef
  | .functionDef => .functionDef
  | .block => .emptyBlock
  | .statements => .firstMore
  | .statement => .otherwiseStatement
  | .action => .playerAction
  | .assignment => .assignment
  | .playerCondition => .playerCondition
  | .condition => .entityCondition
  | .variableCondition => .variableCondition
  | .otherwise => .otherwise
  | .selection => .selectionOfOne
  | .steps => .firstStep
  | .step => .step
  | .functionCall => .functionCall
  | .processCall => .processCall
  | .arguments => .noArguments
  | .values => .firstValue
  | .value => .text
  | .reference => .bareVariable
  | .coordinate => .coordinate

/-- How deep the simplest derivation of a rule is. -/
def height : Rule → Nat
  | .program | .block | .arguments | .value | .reference | .coordinate => 0
  | .eventDef | .processDef | .functionDef | .action | .assignment | .playerCondition
  | .condition | .variableCondition | .otherwise | .step | .functionCall | .processCall
  | .values => 1
  | .routine | .statement | .steps | .selection => 2
  | .routines | .statements => 3

theorem productive : Lr.Productive grammar simplest height where
  listed r := mem_productions _
  belongs r := by cases r <;> rfl
  lower r s hs := by
    cases r <;> simp [grammar, simplest, Production.rhs] at hs <;> grind [height]

end Blockscript.Script
