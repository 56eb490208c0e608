/-!
Places in a text.
-/

namespace Blockscript

/-- A place in a text: the number of characters before it, and its line and column, both counted
from one.  Lines end at line feeds only, and every character is one column wide. -/
structure Place where
  offset : Nat := 0
  line : Nat := 1
  column : Nat := 1
deriving DecidableEq, Repr

namespace Place

def next (place : Place) (c : Char) : Place :=
  if c = '\n' then ⟨place.offset + 1, place.line + 1, 1⟩
  else ⟨place.offset + 1, place.line, place.column + 1⟩

def after (place : Place) (text : List Char) : Place :=
  text.foldl next place

end Place

end Blockscript
