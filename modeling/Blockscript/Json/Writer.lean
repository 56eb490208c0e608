import Blockscript.Json.Basic
import Blockscript.Number.Style
import Blockscript.Text.Quoted

/-!
JSON texts, compact or with one item per line.  Both are pure ASCII.
-/

namespace Blockscript.Json

/-- How the parts of a text are set apart. -/
structure Style where
  /-- The number of blanks per level of nesting, each item on a line of its own; without it
  everything stands on one line. -/
  indent : Option Nat
  /-- What follows the name of a field. -/
  colon : List Char

def Style.compact : Style :=
  { indent := none, colon := [':'] }

/-- Items on their own lines, indented by two blanks per level. -/
def Style.pretty : Style :=
  { indent := some 2, colon := [':', ' '] }

def Style.ofCompact (compact : Bool) : Style :=
  if compact then .compact else .pretty

/-- What stands before an item at a level of nesting. -/
def Style.lineBreak (style : Style) (level : Nat) : List Char :=
  match style.indent with
  | none => []
  | some width => '\n' :: List.replicate (width * level) ' '

/-- One unit of a text: a short escape, a printable ASCII character, or its number. -/
def writeUnit (u : UInt16) : List Char :=
  let code := u.toNat
  if code = 0x22 then ['\\', '"']
  else if code = 0x5C then ['\\', '\\']
  else if code = 0x0A then ['\\', 'n']
  else if code = 0x0D then ['\\', 'r']
  else if code = 0x09 then ['\\', 't']
  else if code = 0x0C then ['\\', 'f']
  else if code = 0x08 then ['\\', 'b']
  else if 0x20 ≤ code ∧ code < 0x7F then [Char.ofNat code]
  else '\\' :: 'u' :: Text.hex 4 code

def writeText (units : List UInt16) : List Char :=
  '"' :: units.flatMap writeUnit ++ ['"']

def writeInt (n : Int) : List Char :=
  let digits := Nat.toDigits 10 n.natAbs
  if n < 0 then '-' :: digits else digits

mutual

/-- The text of a value at a level of nesting. -/
def writeAt (style : Style) (level : Nat) : Json → List Char
  | .null => ['n', 'u', 'l', 'l']
  | .bool true => ['t', 'r', 'u', 'e']
  | .bool false => ['f', 'a', 'l', 's', 'e']
  | .int n => writeInt n
  | .number d => (NumberStyle.json.write d).toList
  | .text units => writeText units
  | .array [] => ['[', ']']
  | .array (item :: items) =>
      '[' :: style.lineBreak (level + 1) ++ writeAt style (level + 1) item
        ++ writeItems style (level + 1) items ++ style.lineBreak level ++ [']']
  | .object [] => ['{', '}']
  | .object ((name, value) :: fields) =>
      '{' :: style.lineBreak (level + 1) ++ writeText name ++ style.colon
        ++ writeAt style (level + 1) value
        ++ writeFields style (level + 1) fields ++ style.lineBreak level ++ ['}']

/-- The items after the first. -/
def writeItems (style : Style) (level : Nat) : List Json → List Char
  | [] => []
  | item :: items =>
      ',' :: style.lineBreak level ++ writeAt style level item ++ writeItems style level items

/-- The fields after the first. -/
def writeFields (style : Style) (level : Nat) : List (List UInt16 × Json) → List Char
  | [] => []
  | (name, value) :: fields =>
      ',' :: style.lineBreak level ++ writeText name ++ style.colon ++ writeAt style level value
        ++ writeFields style level fields

end

def write (style : Style) (json : Json) : String :=
  String.ofList (writeAt style 0 json)

end Blockscript.Json
