import Blockscript.Script.Meaning

/-!
Reading tokens.  Which terminals are tried depends on what the parser can use next; the first one in
their fixed order that reads something is taken.
-/

namespace Blockscript.Script

def isBlank (c : Char) : Bool :=
  c == ' ' || c == '\t' || c == '\x0c' || c == '\r' || c == '\n'

/-- Split off layout: blanks, and comments from two slashes to the end of their line.  The flag says
that a comment has been entered. -/
def splitLayout : Bool → List Char → List Char × List Char
  | _, [] => ([], [])
  | true, c :: rest =>
      let parts := splitLayout (c != '\n') rest
      (c :: parts.1, parts.2)
  | false, '/' :: '/' :: rest =>
      let parts := splitLayout true rest
      ('/' :: '/' :: parts.1, parts.2)
  | false, c :: rest =>
      if isBlank c then
        let parts := splitLayout false rest
        (c :: parts.1, parts.2)
      else ([], c :: rest)

/-- The terminals tried when those of `admitted` are possible.  Beside names a soft word is not tried
by itself. -/
def tried (admitted : List Terminal) : List Terminal :=
  Terminal.all.filter fun t => t ∈ admitted ∧ ¬ (t.isSoft = true ∧ Terminal.ident ∈ admitted)

/-- The kind of a text read as `t`: a name that is an admitted soft word is that keyword. -/
def retyped (admitted : List Terminal) (t : Terminal) (text : String) : Terminal :=
  if t = .ident then (admitted.find? fun soft => soft.softWord? = some text).getD .ident else t

/-- A place in a script and the text from there on. -/
structure Cursor where
  place : Place := {}
  rest : List Char
deriving Repr

namespace Cursor

def past (cursor : Cursor) (text rest : List Char) : Cursor :=
  ⟨cursor.place.after text, rest⟩

def skipLayout (cursor : Cursor) : Cursor :=
  let parts := splitLayout false cursor.rest
  cursor.past parts.1 parts.2

/-- The token that begins here, if one of the admitted terminals reads something. -/
def token? (cursor : Cursor) (admitted : List Terminal) : Option (Token × Cursor) :=
  (tried admitted).findSome? fun t =>
    (t.split? cursor.rest).map fun parts =>
      let text := String.ofList parts.1
      ({ kind := retyped admitted t text, text, place := cursor.place },
        cursor.past parts.1 parts.2)

end Cursor

inductive Reading where
  /-- Only layout is left. -/
  | finished
  | token (token : Token) (next : Cursor)
  /-- A token, and none of the admitted ones. -/
  | unexpected (token : Token)
  /-- A character that begins no token. -/
  | unreadable (c : Char) (place : Place)
deriving Repr

/-- Read the next token behind the layout. -/
def Cursor.read (cursor : Cursor) (admitted : List Terminal) : Reading :=
  let cursor := cursor.skipLayout
  match cursor.rest with
  | [] => .finished
  | c :: _ =>
      match cursor.token? admitted with
      | some (token, next) => .token token next
      | none =>
          match cursor.token? Terminal.all with
          | some (token, _) => .unexpected token
          | none => .unreadable c cursor.place

end Blockscript.Script
