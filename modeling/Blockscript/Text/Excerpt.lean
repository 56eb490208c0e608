/-!
Excerpts of a text: slices, and the line around a position with a caret under it.
-/

namespace Blockscript.Text

/-- The position that a possibly negative index means in a text of the given length: negative ones
count from the end, and all are kept within the text. -/
def clampIndex (length : Nat) (index : Int) : Nat :=
  if index < 0 then (index + length).toNat else min index.toNat length

def slice (text : List Char) (first last : Int) : List Char :=
  let first := clampIndex text.length first
  let last := clampIndex text.length last
  (text.drop first).take (last - first)

/-- The width of a text with tab stops every eight columns.  A carriage return starts the columns
anew and is one column wide itself. -/
def width (text : List Char) : Nat :=
  (text.foldl (fun (column, total) c =>
    if c = '\t' then
      let step := 8 - column % 8
      (column + step, total + step)
    else if c = '\r' then (0, total + 1)
    else (column + 1, total + 1)) (0, 0)).2

def lastLine (text : List Char) : List Char :=
  (text.reverse.takeWhile (· ≠ '\n')).reverse

def firstLine (text : List Char) : List Char :=
  text.takeWhile (· ≠ '\n')

/-- Forty characters on each side of a position, cut to its line, and a line with a caret under the
position. -/
def excerpt (text : List Char) (position : Int) : List Char :=
  let before := lastLine (slice text (max (position - 40) 0) position)
  let after := firstLine (slice text position (position + 40))
  before ++ after ++ '\n' :: List.replicate (width before) ' ' ++ ['^', '\n']

end Blockscript.Text
