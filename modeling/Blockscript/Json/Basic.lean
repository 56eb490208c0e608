import Blockscript.Number.Double
import Blockscript.Text.Units

/-!
JSON values.  Texts are sequences of 16-bit units, integers and floating-point numbers are told apart,
and the fields of an object keep their order.
-/

namespace Blockscript

inductive Json where
  | null
  | bool (b : Bool)
  | int (n : Int)
  | number (d : Double)
  | text (units : List UInt16)
  | array (items : List Json)
  | object (fields : List (List UInt16 × Json))
deriving BEq, Inhabited, Repr

namespace Json

def ofString (s : String) : Json :=
  .text (Text.units s)

def ofFields (fields : List (String × Json)) : Json :=
  .object (fields.map fun field => (Text.units field.1, field.2))

/-- The string of a text in which no surrogate stands alone. -/
def string? : Json → Option String
  | .text units => (Text.charsOfUnits? units).map String.ofList
  | _ => none

def field? (json : Json) (name : String) : Option Json :=
  match json with
  | .object fields => fields.lookup (Text.units name)
  | _ => none

end Json

end Blockscript
