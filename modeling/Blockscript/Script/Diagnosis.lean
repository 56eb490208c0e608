import Blockscript.Lr.Progress
import Blockscript.Script.Braces
import Blockscript.Script.Parse
import Blockscript.Script.SyntaxError

/-!
Naming the construct that a failed parse was in.  An open block at the end of the input comes first,
then the labelled samples of broken scripts, then the innermost rule left unfinished on the stack.
-/

namespace Blockscript.Script

/-- Labelled broken scripts.  A failure gets the label of the first sample that stops the parser in
the same state at the same depth.  All stacks of that state and depth take the same lookaheads, and
only an open block at the end of the input is told apart by what was met, so neither is compared. -/
def samples : List (String × List String) :=
  [("missing separator",
     ["event player.join \x7b player.jump() player.jump() \x7d",
      "event player.join \x7b player.jump() plot.broadcast() \x7d"]),
   ("unclosed block",
     ["event player.join \x7b",
      "func f() \x7b player.jump()",
      "proc p() \x7b if player.isSneaking \x7b player.jump() \x7d"]),
   ("missing argument list",
     ["event player.join \x7b player.jump \x7d",
      "event player.join \x7b plot.broadcast; \x7d",
      "event player.join \x7b var x = add \x7d"]),
   ("statement outside of a unit",
     ["player.jump()",
      "var x = add(1)",
      "if player.isSneaking \x7b \x7d"]),
   ("negation is only allowed on player conditions",
     ["event player.join \x7b if !entity.isNear \x7b \x7d \x7d",
      "event player.join \x7b if !plot.hasPlayer \x7b \x7d \x7d",
      "event player.join \x7b if !var x = eq(1) \x7b \x7d \x7d"]),
   ("missing operator",
     ["event player.join \x7b var x add(1) \x7d",
      "event player.join \x7b if var x eq(1) \x7b \x7d \x7d"]),
   ("unterminated argument list",
     ["event player.join \x7b player.jump(1 \x7d",
      "event player.join \x7b player.jump(1, \x7d"])]

/-- Where a failure stops the parser: the current state and the depth of the stack. -/
def Failure.spot (failure : Failure) : Nat × Nat :=
  (failure.states.headD 0, failure.states.length)

def sampleSpots : List ((Nat × Nat) × String) :=
  samples.flatMap fun (label, sources) => sources.filterMap fun source =>
    match parse source with
    | .ok _ => none
    | .error failure => some (failure.spot, label)

/-- The rule of which most has been read; of several, the one whose name comes first. -/
def leading : List (Rule × Nat) → Option (Rule × Nat)
  | [] => none
  | entry :: rest =>
      match leading rest with
      | none => some entry
      | some best =>
          if entry.2 < best.2 ∨ (entry.2 = best.2 ∧ best.1.name < entry.1.name) then some best
          else some entry

/-- The innermost rule left unfinished on a stack of states, the top first.  States in which nothing
is unfinished are passed over. -/
def ruleInProgress (states : List Nat) : Option Rule :=
  states.findSome? fun state =>
    (leading (Lr.Table.unfinished grammar table state)).map Prod.fst

namespace Failure

def foundText (failure : Failure) : String :=
  match failure.found with
  | .token text => text
  | .character c => c.toString
  | .endOfInput => endOfInputText

def lookaheadName : Option Terminal → String
  | some t => t.name
  | none => "$END"

def problem (failure : Failure) : Problem :=
  { found := some failure.foundText
    expected := failure.expected.map lookaheadName
    line := .known failure.place.line
    column := .known failure.place.column
    position := .known failure.place.offset }

/-- The label of the construct that the failure was in, for all failures but an open block at the
end of the input. -/
def label? (failure : Failure) : Option String :=
  match sampleSpots.lookup failure.spot with
  | some label => some label
  | none => (ruleInProgress failure.states).map Rule.label

/-- Report the failure.  A block that is open at the end of the input is reported at its brace. -/
def report (failure : Failure) (source : String) : SyntaxError :=
  match failure.found, unclosedBrace? source with
  | .endOfInput, some brace =>
      let error := failure.problem.report source (some "unclosed block")
      { error with
        line := brace.line
        column := .known brace.column
        message := error.message ++ "\nBlock opened at line " ++ toString brace.line ++ ", column "
          ++ toString brace.column ++ " is never closed" }
  | _, _ => failure.problem.report source failure.label?

end Failure

/-- Read a script, or report why it cannot be read. -/
def read (source : String) : Except SyntaxError (List Routine) :=
  (parse source).mapError fun failure => failure.report source

end Blockscript.Script
