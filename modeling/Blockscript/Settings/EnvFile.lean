/-!
Environment files: one assignment per line, with comments, quotes, escapes, and references to other
variables.
-/

namespace Blockscript.EnvFile

def isSpace (c : Char) : Bool :=
  let n := c.toNat
  (9 ≤ n && n ≤ 13) || (28 ≤ n && n ≤ 32) || n == 0x85 || n == 0xA0 || n == 0x1680 ||
    (0x2000 ≤ n && n ≤ 0x200A) || n == 0x2028 || n == 0x2029 || n == 0x202F || n == 0x205F ||
    n == 0x3000

/-- A text in which every line ends with a line feed: a carriage return, alone or before a line feed,
is a line end of its own. -/
def unifyLineEnds : List Char → List Char
  | '\r' :: '\n' :: rest => '\n' :: unifyLineEnds rest
  | '\r' :: rest => '\n' :: unifyLineEnds rest
  | c :: rest => c :: unifyLineEnds rest
  | [] => []

/-- A text without the byte order mark at its start. -/
def dropMark : List Char → List Char
  | '\ufeff' :: rest => rest
  | cs => cs

def isInlineSpace (c : Char) : Bool :=
  isSpace c && c != '\n'

/-- Drop the rest of a line and its end. -/
def skipLine (cs : List Char) : List Char :=
  (cs.dropWhile (· ≠ '\n')).drop 1

/-- Drop `export` and the blanks after it. -/
def skipExport (cs : List Char) : List Char :=
  match cs with
  | 'e' :: 'x' :: 'p' :: 'o' :: 'r' :: 't' :: c :: rest =>
      if isInlineSpace c then rest.dropWhile isInlineSpace else cs
  | _ => cs

/-- The name of an assignment, in single quotes or up to an equals sign, a hash or a blank; none for
a comment line.  The outer `none` is a line that cannot be read. -/
def readName? : List Char → Option (Option (List Char) × List Char)
  | '#' :: rest => some (none, '#' :: rest)
  | '\'' :: rest =>
      let name := rest.takeWhile (· ≠ '\'')
      match rest.dropWhile (· ≠ '\'') with
      | _ :: after => if name.isEmpty then none else some (some name, after)
      | [] => none
  | cs =>
      let inName := fun c => !(c == '=' || c == '#' || isSpace c)
      let name := cs.takeWhile inName
      if name.isEmpty then none else some (some name, cs.dropWhile inName)

/-- The quoted part up to the closing quote; nothing if there is none.  A backslash and the character
after it stand together, so that a quote after a backslash does not close. -/
def throughClosing (quote : Char) : List Char → Option (List Char × List Char)
  | '\\' :: c :: rest =>
      (throughClosing quote rest).map fun parts => ('\\' :: c :: parts.1, parts.2)
  | c :: rest =>
      if c = quote then some ([], rest)
      else (throughClosing quote rest).map fun parts => (c :: parts.1, parts.2)
  | [] => none

/-- The character that a backslash and `c` stand for in double quotes. -/
def doubleEscape? (c : Char) : Option Char :=
  match c with
  | '\\' => some '\\'
  | '\'' => some '\''
  | '"' => some '"'
  | 'a' => some '\x07'
  | 'b' => some '\x08'
  | 'f' => some '\x0c'
  | 'n' => some '\n'
  | 'r' => some '\r'
  | 't' => some '\t'
  | 'v' => some '\x0b'
  | _ => none

/-- The character that a backslash and `c` stand for in single quotes. -/
def singleEscape? (c : Char) : Option Char :=
  if c = '\\' ∨ c = '\'' then some c else none

/-- Resolve the escapes that `escape?` knows. -/
def resolve (escape? : Char → Option Char) : List Char → List Char
  | '\\' :: c :: rest =>
      match escape? c with
      | some d => d :: resolve escape? rest
      | none => '\\' :: resolve escape? (c :: rest)
  | c :: rest => c :: resolve escape? rest
  | [] => []

/-- Cut a value at blanks followed by a hash. -/
def cutComment : List Char → List Char
  | [] => []
  | c :: rest =>
      if isSpace c ∧ (rest.dropWhile isSpace).head? = some '#' then []
      else c :: cutComment rest

def trimEnd (cs : List Char) : List Char :=
  (cs.reverse.dropWhile isSpace).reverse

/-- A value without quotes, from what follows the equals sign in its line. -/
def plainValue (line : List Char) : List Char :=
  trimEnd ((cutComment line).dropWhile isSpace)

def readValue? (cs : List Char) : Option (List Char × List Char) :=
  match cs.dropWhile isInlineSpace with
  | '\'' :: rest => (throughClosing '\'' rest).map fun parts => (resolve singleEscape? parts.1, parts.2)
  | '"' :: rest => (throughClosing '"' rest).map fun parts => (resolve doubleEscape? parts.1, parts.2)
  | _ =>
      some (plainValue (cs.takeWhile (· ≠ '\n')), cs.dropWhile (· ≠ '\n'))

/-- Drop a comment and the end of the line; nothing else may stand there. -/
def finishLine? (cs : List Char) : Option (List Char) :=
  match cs.dropWhile isInlineSpace with
  | [] => some []
  | c :: rest => if c = '#' ∨ c = '\n' then some (skipLine (c :: rest)) else none

/-- One assignment and what follows it.  A comment has no name, and a name without an equals sign has
no value.  A line that cannot be read gives the text from where reading stopped. -/
def readLine (cs : List Char) :
    Except (List Char) (Option (List Char) × Option (List Char) × List Char) := do
  let start := skipExport cs
  let (name, rest) ← (readName? start).elim (.error start) .ok
  match rest.dropWhile isInlineSpace with
  | '=' :: rest =>
      let (value, rest) ← (readValue? rest).elim (.error rest) .ok
      let rest ← (finishLine? rest).elim (.error rest) .ok
      return (name, some value, rest)
  | rest =>
      let rest ← (finishLine? rest).elim (.error rest) .ok
      return (name, none, rest)

/-- The assignments of a file in order; lines that cannot be read are passed over. -/
def readLines : Nat → List Char → List (List Char × Option (List Char))
  | 0, _ => []
  | rounds + 1, cs =>
      match cs.dropWhile isSpace with
      | [] => []
      | cs =>
          match readLine cs with
          | .error rest => readLines rounds (skipLine rest)
          | .ok (some name, value, rest) => (name, value) :: readLines rounds rest
          | .ok (none, _, rest) => readLines rounds rest

/-- Split a reference: a name, and a default after a colon and a dash, up to the closing brace. -/
def splitReference? (cs : List Char) : Option (List Char × List Char × List Char) :=
  let inName := fun c => !(c == '\x7d' || c == ':')
  let name := cs.takeWhile inName
  match cs.dropWhile inName with
  | '\x7d' :: rest => some (name, [], rest)
  | ':' :: '-' :: rest =>
      match rest.dropWhile (· ≠ '\x7d') with
      | _ :: after => some (name, rest.takeWhile (· ≠ '\x7d'), after)
      | [] => none
  | _ => none

/-- Replace the references to variables by their values. -/
def expand (value? : String → Option String) : Nat → List Char → List Char
  | 0, cs => cs
  | _ + 1, [] => []
  | rounds + 1, '$' :: '\x7b' :: rest =>
      match splitReference? rest with
      | some (name, default, after) =>
          ((value? (String.ofList name)).map String.toList).getD default ++ expand value? rounds after
      | none => '$' :: expand value? rounds ('\x7b' :: rest)
  | rounds + 1, c :: rest => c :: expand value? rounds rest

/-- Assign a value to a name: in its place if it is there, else at the end. -/
def assign (name : String) (value : Option String) :
    List (String × Option String) → List (String × Option String)
  | [] => [(name, value)]
  | entry :: entries =>
      if entry.1 = name then (name, value) :: entries else entry :: assign name value entries

/-- The value that a reference sees: of an earlier assignment, where a name without a value counts as
empty, else of the environment. -/
def visible? (environment : List (String × String)) (known : List (String × Option String))
    (name : String) : Option String :=
  match known.lookup name with
  | some value => some (value.getD "")
  | none => environment.lookup name

/-- The assignments of an environment file, one for each name.  References see the assignments before
them and the environment. -/
def read (environment : List (String × String)) (text : String) : List (String × Option String) :=
  let cs := unifyLineEnds (dropMark text.toList)
  (readLines (cs.length + 1) cs).foldl (fun known (name, value) =>
    let expanded := value.map fun cs =>
      String.ofList (expand (visible? environment known) (cs.length + 1) cs)
    assign (String.ofList name) expanded known) []

end Blockscript.EnvFile
