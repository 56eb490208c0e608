import Blockscript.Fault
import Blockscript.Json.Reader

/-!
The payload of process calls: packaged, or read from a template file.  A file is read once; what it
held then is kept whatever becomes of it, and a failed reading is not kept.
-/

namespace Blockscript

def packagedTag (option tag : String) (slot : Int) : Json :=
  .ofFields
    [("item", .ofFields
       [("id", .ofString "bl_tag"),
        ("data", .ofFields
          [("option", .ofString option), ("tag", .ofString tag), ("action", .ofString "dynamic"),
           ("block", .ofString "start_process")])]),
     ("slot", .int slot)]

def packagedPayload : Json :=
  .array
    [packagedTag "Don't copy" "Local Variables" 25,
     packagedTag "With current targets" "Target Mode" 26]

/-- Template files, and the payloads read so far. -/
structure Store where
  files : List (String × String) := []
  payloads : List (String × Json) := []

/-- Computations that read templates.  What has been read stays read after a failure. -/
abbrev Rendering : Type → Type :=
  ExceptT Fault (StateM Store)

namespace Store

def text? (store : Store) (path : String) : Option String :=
  store.files.lookup path

def write (store : Store) (path text : String) : Store :=
  { store with files := (path, text) :: store.files.filter fun file => file.1 ≠ path }

def delete (store : Store) (path : String) : Except Fault Store :=
  match store.text? path with
  | some _ => .ok { store with files := store.files.filter fun file => file.1 ≠ path }
  | none => .error .missingFile

def readPayload (store : Store) (path : String) : Except Fault Json :=
  match store.text? path with
  | none => .error .missingFile
  | some text =>
      match Json.read? text with
      | some payload => .ok payload
      | none => .error .malformedTemplate

/-- The payload at a path: the one kept, or the one in the file, which is then kept. -/
def payloadAt (path : String) : Rendering Json := do
  let store ← get
  match store.payloads.lookup path with
  | some payload => return payload
  | none =>
      let payload ← liftExcept (store.readPayload path)
      set { store with payloads := (path, payload) :: store.payloads }
      return payload
where
  /-- A result as a computation. -/
  liftExcept (result : Except Fault Json) : Rendering Json :=
    match result with
    | .ok payload => pure payload
    | .error fault => throw fault

/-- The payload of a process call: packaged, unless a path is given. -/
def payload : Option String → Rendering Json
  | none => return packagedPayload
  | some path => payloadAt path

end Store

end Blockscript
