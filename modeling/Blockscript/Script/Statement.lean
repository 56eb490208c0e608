import Blockscript.Script.Value

/-!
The syntax tree of a script: routines, which are events, functions and processes, and the statements
of their blocks.
-/

namespace Blockscript.Script

/-- Whom an action or a condition is about. -/
inductive Subject where
  | player
  | entity
  | plot
  /-- A word that names no subject. -/
  | other (word : String)
deriving DecidableEq, Inhabited, Repr

namespace Subject

def ofWord : String → Subject
  | "player" => .player
  | "entity" => .entity
  | "plot" => .plot
  | word => .other word

def word : Subject → String
  | .player => "player"
  | .entity => "entity"
  | .plot => "plot"
  | .other word => word

end Subject

/-- What can stand where a statement should: a part of a tree that is no statement. -/
inductive Stray where
  | text
  | number
  | reference
  | location
  | vector
  | formless
  | step
  | routine
deriving DecidableEq, Repr

structure Step where
  action : String
  subAction : String
  arguments : List Value := []
deriving BEq, Repr

inductive Statement where
  | action (subject : Subject) (name : String) (arguments : List Value)
  | assignment (target : Value) (operator verb : String) (arguments : List Value)
  | condition (subject : Subject) (name : String) (arguments : List Value) (body : List Statement)
      (negated : Bool)
  | variableCondition (target : Value) (operator name : String) (arguments : List Value)
      (body : List Statement)
  | otherwise (body : List Statement)
  | selection (steps : List Step) (body : List Statement)
  | call (name : String) (process : Bool)
  /-- Something else in the place of a statement. -/
  | stray (what : Stray)
deriving Inhabited, Repr

inductive RoutineKind where
  | event
  | function
  | process
  /-- A word that names no kind. -/
  | other (word : String)
deriving DecidableEq, Repr

namespace RoutineKind

def ofWord : String → RoutineKind
  | "event" => .event
  | "func" => .function
  | "proc" => .process
  | word => .other word

def word : RoutineKind → String
  | .event => "event"
  | .function => "func"
  | .process => "proc"
  | .other word => word

end RoutineKind

/-- An event, a function or a process, with the line and column of its name. -/
structure Routine where
  kind : RoutineKind
  name : String
  body : List Statement := []
  line : Nat := 0
  column : Nat := 0
deriving Repr

end Blockscript.Script
