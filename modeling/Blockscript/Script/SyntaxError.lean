import Blockscript.Text.Excerpt
import Blockscript.Text.Quoted

/-!
Reports of a failed parse: the position, what was met, what was expected, the construct being
written, and the line with a caret.
-/

namespace Blockscript.Script

/-- A number in a report: known, missing, or replaced by a placeholder. -/
inductive Mark where
  | known (n : Int)
  | missing
  | placeholder (text : String)
deriving DecidableEq, Repr

def Mark.text : Mark → String
  | .known n => toString n
  | .missing => "None"
  | .placeholder text => text

/-- What is known about a failure before it is reported. -/
structure Problem where
  found : Option String := none
  expected : List String := []
  line : Mark := .missing
  column : Mark := .missing
  position : Mark := .missing
deriving Repr

/-- A reported failure.  `rule` names the construct being written, if it is known. -/
structure SyntaxError where
  message : String
  line : Int
  column : Mark
  token : Option String
  expected : List String
  rule : Option String
deriving Repr

def endOfInputText : String :=
  "<end of input>"

/-- The line and column just past a text. -/
def endOfText (source : List Char) : Int × Int :=
  ((source.count '\n' : Int) + 1, ((Text.lastLine source).length : Int) + 1)

namespace Problem

/-- The reported line and column: those given, or the end of the source when no line is known. -/
def whereabouts (problem : Problem) (source : List Char) : Int × Mark :=
  let fallback := ((endOfText source).1, Mark.known (endOfText source).2)
  match problem.line with
  | .known line => if line < 0 then fallback else (line, problem.column)
  | _ => fallback

def sortedExpected (problem : Problem) : List String :=
  problem.expected.mergeSort fun a b => !decide (b < a)

/-- The first line of a report. -/
def headline (problem : Problem) (source : List Char) (rule : Option String) : String :=
  let (line, column) := problem.whereabouts source
  let found := (problem.found.map Text.quoted).getD "None"
  let names := ", ".intercalate problem.sortedExpected
  let expected := if names.isEmpty then "nothing" else names
  let suffix :=
    match rule with
    | some rule => if rule.isEmpty then "" else " [" ++ rule ++ "]"
    | none => ""
  "Syntax error at line " ++ toString line ++ ", column " ++ column.text ++ ": unexpected " ++ found
    ++ " (expected: " ++ expected ++ ")" ++ suffix

/-- The lines that show the position.  A missing position counts as the beginning, and nothing can
be shown for a placeholder. -/
def context (problem : Problem) (source : List Char) : String :=
  match problem.position with
  | .known position => "\n" ++ String.ofList (Text.excerpt source position)
  | .missing => "\n" ++ String.ofList (Text.excerpt source 0)
  | .placeholder _ => ""

def report (problem : Problem) (source : String) (rule : Option String) : SyntaxError :=
  let cs := source.toList
  let (line, column) := problem.whereabouts cs
  { message := problem.headline cs rule ++ problem.context cs
    line, column
    token := problem.found
    expected := problem.sortedExpected
    rule }

end Problem

end Blockscript.Script
