import Blockscript.Json.Basic
import Blockscript.Settings.EnvFile

/-!
Compiler settings.  A field takes its value from the options given, else from the environment, else
from the environment file, else from its default.  The first source that has the field decides, even
if its value is not valid.
-/

namespace Blockscript

structure Settings where
  /-- The target of actions, of conditions and of else blocks. -/
  defaultTarget : String := "Selection"
  /-- The file with the payload of process calls; without it the packaged one is used. -/
  processTemplatePath : Option String := none
  /-- Write JSON without blanks. -/
  compactJson : Bool := true
  /-- Log debug messages. -/
  debug : Bool := false
deriving DecidableEq, Repr

namespace Settings

inductive Field where
  | defaultTarget
  | processTemplatePath
  | compactJson
  | debug
deriving DecidableEq, Repr

def Field.name : Field → String
  | .defaultTarget => "DEFAULT_TARGET"
  | .processTemplatePath => "PROCESS_TEMPLATE_PATH"
  | .compactJson => "COMPACT_JSON"
  | .debug => "DEBUG"

/-- The fields in the order in which they are checked. -/
def Field.all : List Field :=
  [.defaultTarget, .processTemplatePath, .compactJson, .debug]

/-- What is wrong with the value of a field. -/
inductive Issue where
  | noString
  | noBool
  | unreadableBool
deriving DecidableEq, Repr

/-- Where the values of the fields come from. -/
structure Sources where
  options : List (String × Json) := []
  environment : List (String × String) := []
  file : Option String := none

/-- A name in small letters.  Only names that equal an ASCII name matter. -/
def lowerName (s : String) : String :=
  String.ofList (s.toList.map Char.toLower)

/-- The last value assigned to a variable, whatever the case of its name. -/
def lastAssigned {α : Type} (name : String) (assignments : List (String × α)) : Option α :=
  (assignments.reverse.find? fun entry => lowerName entry.1 == lowerName name).map Prod.snd

/-- The first option of a name, whatever the case of its letters. -/
def firstGiven {α : Type} (name : String) (options : List (String × α)) : Option α :=
  (options.find? fun entry => lowerName entry.1 == lowerName name).map Prod.snd

/-- The value given to a field by the first source that has it. -/
def Sources.value? (sources : Sources) (field : Field) : Option Json :=
  let variableName := "DFC_" ++ field.name
  let fromFile := (sources.file.map (EnvFile.read sources.environment)).getD []
  match firstGiven field.name sources.options with
  | some value => some value
  | none =>
      match lastAssigned variableName sources.environment with
      | some text => some (.ofString text)
      | none => ((lastAssigned variableName fromFile).join).map Json.ofString

/-- The words for a truth value, in any case. -/
def boolOfWord? (word : String) : Option Bool :=
  let word := lowerName word
  if word ∈ ["0", "off", "f", "false", "n", "no"] then some false
  else if word ∈ ["1", "on", "t", "true", "y", "yes"] then some true
  else none

def boolOfInt (n : Int) : Except Issue Bool :=
  if n = 0 then .ok false else if n = 1 then .ok true else .error .unreadableBool

/-- The bound of a signed word of 64 bits. -/
def wordBound : Nat :=
  Nat.pow 2 63

def fitsWord (n : Int) : Bool :=
  -(wordBound : Int) ≤ n && n < (wordBound : Int)

/-- Check a truth value.  An integer is read as one if it fits a word, and a floating-point number
if it is whole and lies strictly between the bounds of a word. -/
def checkBool : Json → Except Issue Bool
  | .bool b => .ok b
  | .int n => if fitsWord n then boolOfInt n else .error .noBool
  | .number d =>
      if d.isIntegral && d.truncated.natAbs < wordBound then boolOfInt d.truncated
      else .error .noBool
  | .text units =>
      match (Text.charsOfUnits? units).bind fun cs => boolOfWord? (String.ofList cs) with
      | some b => .ok b
      | none => .error .unreadableBool
  | _ => .error .noBool

def checkString (json : Json) : Except Issue String :=
  match json.string? with
  | some s => .ok s
  | none => .error .noString

def checkOptionalString : Json → Except Issue (Option String)
  | .null => .ok none
  | json => (checkString json).map some

def set (settings : Settings) (field : Field) (json : Json) : Except Issue Settings :=
  match field with
  | .defaultTarget => (checkString json).map fun s => { settings with defaultTarget := s }
  | .processTemplatePath =>
      (checkOptionalString json).map fun s => { settings with processTemplatePath := s }
  | .compactJson => (checkBool json).map fun b => { settings with compactJson := b }
  | .debug => (checkBool json).map fun b => { settings with debug := b }

/-- Set the fields that the sources have; all faults are collected in the order of the fields. -/
def loadFields (sources : Sources) :
    List Field → Settings → Except (List (Field × Issue)) Settings
  | [], settings => .ok settings
  | field :: fields, settings =>
      match (sources.value? field).map (settings.set field) with
      | none => loadFields sources fields settings
      | some (.ok settings) => loadFields sources fields settings
      | some (.error issue) =>
          match loadFields sources fields settings with
          | .ok _ => .error [(field, issue)]
          | .error issues => .error ((field, issue) :: issues)

def load (sources : Sources) : Except (List (Field × Issue)) Settings :=
  loadFields sources Field.all {}

def get (settings : Settings) : Field → Json
  | .defaultTarget => .ofString settings.defaultTarget
  | .processTemplatePath => (settings.processTemplatePath.map Json.ofString).getD .null
  | .compactJson => .bool settings.compactJson
  | .debug => .bool settings.debug

/-- The value of the field of that name, or a default. -/
def getNamed (settings : Settings) (name : String) (default : Json) : Json :=
  match Field.all.find? fun field => field.name == name with
  | some field => settings.get field
  | none => default

end Settings

end Blockscript
