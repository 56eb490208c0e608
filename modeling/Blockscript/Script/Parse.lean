import Blockscript.Script.Cursor

/-!
Parsing a script: tokens are read one by one under the state of the shift/reduce machine, until the
script is accepted or the first impossible token is met.
-/

namespace Blockscript.Script

abbrev Stack : Type :=
  Lr.Stack attribution

inductive Found where
  | token (text : String)
  | character (c : Char)
  | endOfInput
deriving DecidableEq, Repr

/-- A failed parse: what was met and where, what could have followed instead, and the stack that was
left.  The end of the input is placed at the last token. -/
structure Failure where
  found : Found
  place : Place
  expected : List (Option Terminal)
  stack : Stack

/-- The states on the stack that was left, the top first. -/
def Failure.states (failure : Failure) : List Nat :=
  Lr.Stack.states failure.stack

/-- The lookaheads that the current state has a use for. -/
def lookaheads (stack : Stack) : List (Option Terminal) :=
  (table.row (Lr.Stack.top stack)).lookaheads

/-- The terminals that the current state has a use for. -/
def admitted (stack : Stack) : List Terminal :=
  (lookaheads stack).filterMap id

/-- What one round of a parse comes to. -/
inductive Round where
  | accepted (routines : List Routine)
  | refused (failure : Failure)
  /-- A token has been shifted; `last` is its place. -/
  | onward (stack : Stack) (last : Place) (cursor : Cursor)

/-- The round that has fed the end of a script; `last` is the place of its last token. -/
def Round.atEnd (last : Place) : Lr.Outcome attribution → Round
  | .accepted routines => .accepted routines
  | .shifted stack | .rejected stack | .derailed stack =>
      .refused { found := .endOfInput, place := last, expected := lookaheads stack, stack }

/-- The round that has fed a token, with the cursor behind it. -/
def Round.atToken (token : Token) (next : Cursor) : Lr.Outcome attribution → Round
  | .shifted stack => .onward stack token.place next
  | .accepted routines => .accepted routines
  | .rejected stack | .derailed stack =>
      .refused
        { found := .token token.text, place := token.place, expected := lookaheads stack, stack }

/-- Read a token and feed it; `last` is the place of the token before it. -/
def round (stack : Stack) (last : Place) (cursor : Cursor) : Round :=
  match cursor.read (admitted stack) with
  | .finished => .atEnd last (Lr.Stack.feed table stack none)
  | .token token next => .atToken token next (Lr.Stack.feed table stack (some token))
  | .unexpected token =>
      .refused
        { found := .token token.text, place := token.place
          expected := (tried (admitted stack)).map some, stack }
  | .unreadable c place =>
      .refused
        { found := .character c, place, expected := (tried (admitted stack)).map some, stack }

/-- Go round until the script is accepted or refused.  Each round reads a token, so one more than
there are characters suffices. -/
def parseWithin : Nat → Stack → Place → Cursor → Except Failure (List Routine)
  | 0, stack, last, _ => .error { found := .endOfInput, place := last, expected := [], stack }
  | rounds + 1, stack, last, cursor =>
      match round stack last cursor with
      | .accepted routines => .ok routines
      | .refused failure => .error failure
      | .onward stack last cursor => parseWithin rounds stack last cursor

def parse (source : String) : Except Failure (List Routine) :=
  let cs := source.toList
  parseWithin (cs.length + 1) [] {} { rest := cs }

end Blockscript.Script
