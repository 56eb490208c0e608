import Blockscript.Number.Double

/-!
Argument values: the literals and variable references of an argument list.
-/

namespace Blockscript.Script

inductive Value where
  | text (content : String)
  /-- A number is kept as it is written. -/
  | number (written : String)
  | reference (name scope : String)
  | location (x y z pitch yaw : Double)
  | vector (x y z : Double)
  /-- A value of no particular form, which has no rendering. -/
  | formless
deriving BEq, Repr

/-- The scope of a variable that is written without one. -/
def defaultScope : String :=
  "unsaved"

def scopeOf? : String → Option String
  | "local" => some "local"
  | "game" => some "unsaved"
  | "save" => some "saved"
  | _ => none

/-! ### Quoted texts -/

/-- The character that a backslash and `c` stand for. -/
def escaped (c : Char) : Char :=
  if c = 'n' then '\n' else if c = 't' then '\t' else if c = 'r' then '\r' else c

/-- Resolve the escapes of a quoted text.  A backslash before a line feed or at the end stays. -/
def resolveEscapes : List Char → List Char
  | '\\' :: c :: rest =>
      if c = '\n' then '\\' :: '\n' :: resolveEscapes rest else escaped c :: resolveEscapes rest
  | c :: rest => c :: resolveEscapes rest
  | [] => []

/-- The content of a quoted text: its two quotes dropped and its escapes resolved. -/
def unquote (raw : String) : String :=
  String.ofList (resolveEscapes (raw.toList.drop 1).dropLast)

end Blockscript.Script
