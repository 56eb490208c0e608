import Blockscript.Block.Lowering
import Blockscript.Json.Writer
import Blockscript.Script.Diagnosis

/-!
Compiled programs: each routine of a script as a list of blocks, in the order of the script.
-/

namespace Blockscript

open Script (Routine RoutineKind)

structure CompiledRoutine where
  kind : RoutineKind
  name : String
  blocks : List Block
deriving BEq, Repr

/-- A compiled program, with the settings of its compiler if it has one. -/
structure Program where
  routines : List CompiledRoutine := []
  settings : Option Settings := none

structure Compiler where
  settings : Settings := {}
  render : Renderer := renderValue

inductive Severity where
  | error
  | debug
deriving DecidableEq, Repr

structure LogRecord where
  logger : String
  severity : Severity
  message : String
deriving DecidableEq, Repr

/-- Computations that log.  The log is kept after a failure. -/
abbrev Logging : Type → Type :=
  ExceptT Fault (StateM (List LogRecord))

def log (record : LogRecord) : Logging Unit :=
  modify fun records => records ++ [record]

/-- The first line of a text. -/
def headline (text : String) : String :=
  String.ofList (Text.firstLine text.toList)

namespace CompiledRoutine

def toJson (routine : CompiledRoutine) : Rendering Json :=
  Block.template routine.blocks

def listToJson : List CompiledRoutine → Rendering (List Json)
  | [] => return []
  | routine :: routines => do
      let first ← routine.toJson
      let rest ← listToJson routines
      return first :: rest

end CompiledRoutine

namespace Compiler

/-- Read a script; the headline of a syntax error is logged. -/
def read (source : String) : Logging (List Routine) :=
  match Script.read source with
  | .ok routines => return routines
  | .error error => do
      log { logger := "dfscript.parser", severity := .error, message := headline error.message }
      throw (.unreadable error)

def lower (compiler : Compiler) (routine : Routine) : Logging CompiledRoutine :=
  match lowerRoutine compiler.settings compiler.render routine with
  | .error fault => throw fault
  | .ok blocks => do
      log
        { logger := "dfscript.lowering", severity := .debug
          message := "Lowered " ++ routine.kind.word ++ " " ++ routine.name ++ ": "
            ++ toString blocks.length ++ " blocks" }
      return { kind := routine.kind, name := routine.name, blocks }

def lowerAll (compiler : Compiler) : List Routine → Logging (List CompiledRoutine)
  | [] => return []
  | routine :: routines => do
      let first ← compiler.lower routine
      let rest ← compiler.lowerAll routines
      return first :: rest

def compile (compiler : Compiler) (source : String) : Logging Program := do
  let script ← read source
  let routines ← compiler.lowerAll script
  log
    { logger := "dfscript.compiler", severity := .debug
      message := "Compiled " ++ toString routines.length ++ " units" }
  return { routines, settings := some compiler.settings }

end Compiler

namespace Program

/-- The kind, the name and the number of blocks of each routine. -/
def summary (program : Program) : List (String × String × Nat) :=
  program.routines.map fun routine => (routine.kind.word, routine.name, routine.blocks.length)

def toJson (program : Program) : Rendering Json := do
  let items ← CompiledRoutine.listToJson program.routines
  return .array items

/-- The JSON text of a program.  Without a choice, the settings of its compiler decide. -/
def dumps (program : Program) (compact : Option Bool) : Rendering String := do
  let json ← program.toJson
  let compact := compact.getD (program.settings.getD {}).compactJson
  return json.write (.ofCompact compact)

/-- The routine at an index; negative indices count from the end. -/
def routineAt (program : Program) (index : Int) : Except Fault CompiledRoutine :=
  let position := if index < 0 then index + program.routines.length else index
  if position < 0 then .error .indexOutside
  else
    match program.routines[position.toNat]? with
    | some routine => .ok routine
    | none => .error .indexOutside

/-- Whether two programs have equal routines; their settings do not count. -/
def sameRoutines (left right : Program) : Bool :=
  left.routines == right.routines

end Program

end Blockscript
