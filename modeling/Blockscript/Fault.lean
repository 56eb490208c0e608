import Blockscript.Script.Statement
import Blockscript.Script.SyntaxError
import Blockscript.Settings.Basic

/-!
Everything that can go wrong, and the message for each cause.
-/

namespace Blockscript

inductive Fault where
  /-- The script cannot be read. -/
  | unreadable (error : Script.SyntaxError)
  /-- An argument falls outside the chest. -/
  | slotOutside (slot : Int)
  | unknownRoutineKind (word : String)
  /-- Something that is no statement stands in the place of one. -/
  | noStatement (what : Script.Stray)
  /-- A name that is not known where it is looked up. -/
  | unknownName (name : String)
  | formlessValue
  | formlessBlock
  | unknownDirection (word : String)
  | unknownShape (word : String)
  | indexOutside
  | invalidSettings (issues : List (Settings.Field × Settings.Issue))
  /-- A template file is not JSON. -/
  | malformedTemplate
  | missingFile
deriving Repr

def lastSlot : Nat := 26

/-- What a part of a syntax tree is called. -/
def Script.Stray.name : Script.Stray → String
  | .text => "Text"
  | .number => "Number"
  | .reference => "Variable"
  | .location => "Location"
  | .vector => "Vector"
  | .formless => "Value"
  | .step => "SelectStep"
  | .routine => "Unit"

/-- The message of a fault.  Faults of settings and files carry none. -/
def Fault.message : Fault → String
  | .unreadable error => error.message
  | .slotOutside slot =>
      "Item slot " ++ toString slot ++ " is outside the chest (0-" ++ toString lastSlot ++ ")"
  | .unknownRoutineKind word => "Unknown unit kind: " ++ word
  | .noStatement what => "Unknown statement type: " ++ what.name
  | .unknownName name => Text.quoted name
  | .formlessValue => "Value cannot be rendered"
  | .formlessBlock => ""
  | .unknownDirection word => Text.quoted word ++ " is not a valid BracketDirection"
  | .unknownShape word => Text.quoted word ++ " is not a valid BracketType"
  | .indexOutside => "list index out of range"
  | .invalidSettings _ => ""
  | .malformedTemplate => ""
  | .missingFile => ""

end Blockscript
