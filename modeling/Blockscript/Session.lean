import Blockscript.Program

/-!
Sessions: a sequence of steps over shared template files, compilers, programs and a log level.  A
step that fails leaves the session as it was, but for the templates that it had already read, and the
session goes on.
-/

namespace Blockscript

structure Session where
  store : Store := {}
  /-- Debug records are kept once a compiler has asked for them. -/
  debug : Bool := false
  compilers : List (String × Compiler) := []
  programs : List (String × Program) := []

namespace Session

inductive Step where
  | write (path text : String)
  | delete (path : String)
  | compiler (name : String) (options : List (String × Json)) (render : Renderer)
  | compile (compiler program source : String)
  /-- A copy of a program without settings. -/
  | bare (program copy : String)
  /-- Append the routines of another program. -/
  | append (program other : String)
  | same (program other : String)
  | dumps (program : String) (compact : Option Bool)
  | routine (program : String) (index : Int)
  | size (program : String)
  | payload (path : Option String) (compact : Option Bool)

inductive Answer where
  | done
  | level (debug : Bool)
  | routines (summary : List (String × String × Nat))
  | same (equal : Bool)
  | text (text : String)
  | size (n : Nat)
deriving DecidableEq, Repr

/-- Steps change the session, may fail, and log. -/
abbrev Stepping : Type → Type :=
  ExceptT Fault (StateM (Session × List LogRecord))

def ofExcept {α : Type} : Except Fault α → Stepping α
  | .ok a => pure a
  | .error fault => throw fault

def update (change : Session → Session) : Stepping Unit :=
  modify fun (session, records) => (change session, records)

def look : Stepping Session := do
  return (← get).1

def find {α : Type} (name : String) (entries : List (String × α)) : Stepping α :=
  ofExcept <|
    match entries.lookup name with
    | some a => .ok a
    | none => .error (.unknownName name)

def put {α : Type} (name : String) (a : α) (entries : List (String × α)) : List (String × α) :=
  (name, a) :: entries.filter fun entry => entry.1 ≠ name

/-- Run a rendering on the store of the session. -/
def rendered {α : Type} (rendering : Rendering α) : Stepping α := do
  let session ← look
  let (result, store) := rendering.run session.store
  update fun session => { session with store }
  ofExcept result

/-- Keep the records that the log level lets through, and the result. -/
def logged {α : Type} (logging : Logging α) : Stepping α := do
  let session ← look
  let (result, records) := logging.run []
  let kept := records.filter fun record => session.debug || record.severity == .error
  modify fun (session, earlier) => (session, earlier ++ kept)
  ofExcept result

def program (name : String) : Stepping Program := do
  find name (← look).programs

def keep (name : String) (program : Program) : Stepping Answer := do
  update fun session => { session with programs := put name program session.programs }
  return .routines program.summary

def perform : Step → Stepping Answer
  | .write path text => do
      update fun session => { session with store := session.store.write path text }
      return .done
  | .delete path => do
      let store ← ofExcept ((← look).store.delete path)
      update fun session => { session with store }
      return .done
  | .compiler name options render => do
      let settings ← ofExcept ((Settings.load { options }).mapError Fault.invalidSettings)
      update fun session =>
        { session with
          debug := session.debug || settings.debug
          compilers := put name { settings, render } session.compilers }
      return .level (← look).debug
  | .compile compiler name source => do
      let compiler ← find compiler (← look).compilers
      let program ← logged (compiler.compile source)
      keep name program
  | .bare name copy => do
      let program ← program name
      keep copy { routines := program.routines }
  | .append name other => do
      let first ← program name
      let second ← program other
      keep name { first with routines := first.routines ++ second.routines }
  | .same name other => do
      let first ← program name
      let second ← program other
      return .same (first.sameRoutines second)
  | .dumps name compact => do
      let program ← program name
      return .text (← rendered (program.dumps compact))
  | .routine name index => do
      let program ← program name
      let routine ← ofExcept (program.routineAt index)
      let json ← rendered routine.toJson
      return .text (json.write .compact)
  | .size name => do
      return .size (← program name).routines.length
  | .payload path compact => do
      let json ← rendered (Store.payload path)
      return .text (json.write (.ofCompact (compact.getD ({} : Settings).compactJson)))

/-- One step: its answer or fault, the records it logged, and the session after it. -/
def step (session : Session) (step : Step) : (Except Fault Answer × List LogRecord) × Session :=
  let (result, session, records) := (perform step).run (session, [])
  ((result, records), session)

def run : Session → List Step → List (Except Fault Answer × List LogRecord)
  | _, [] => []
  | session, first :: rest =>
      let (answer, session) := session.step first
      answer :: session.run rest

end Session

end Blockscript
