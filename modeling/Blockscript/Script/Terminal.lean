/-!
The terminals of the script language, their names, and the texts that each of them reads.
-/

namespace Blockscript.Script

inductive Terminal where
  | scopePrefix
  | number
  | ident
  | text
  | entity
  | player
  | select
  | event
  | start
  | call
  | else_
  | func
  | plot
  | proc
  | loc
  | var
  | vec
  | arrow
  | doubleColon
  | if_
  | operator
  | comma
  | dot
  | leftBrace
  | leftParen
  | not
  | rightBrace
  | rightParen
  | semicolon
deriving DecidableEq, Repr

namespace Terminal

/-- All terminals, in the order in which they are tried. -/
def all : List Terminal :=
  [scopePrefix, number, ident, text, entity, player, select, event, start, call, else_, func, plot,
   proc, loc, var, vec, arrow, doubleColon, if_, operator, comma, dot, leftBrace, leftParen, not,
   rightBrace, rightParen, semicolon]

/-- The name shown in a list of expected tokens. -/
def name : Terminal → String
  | scopePrefix => "SCOPE_PREFIX"
  | number => "SIGNED_NUMBER"
  | ident => "IDENT"
  | text => "ESCAPED_STRING"
  | entity => "ENTITY"
  | player => "PLAYER"
  | select => "SELECT"
  | event => "EVENT"
  | start => "START"
  | call => "CALL"
  | else_ => "ELSE"
  | func => "FUNC"
  | plot => "PLOT"
  | proc => "PROC"
  | loc => "LOC"
  | var => "VAR"
  | vec => "VEC"
  | arrow => "ARROW"
  | doubleColon => "DCOLON"
  | if_ => "IF"
  | operator => "OP"
  | comma => "COMMA"
  | dot => "DOT"
  | leftBrace => "LBRACE"
  | leftParen => "LPAR"
  | not => "NOT"
  | rightBrace => "RBRACE"
  | rightParen => "RPAR"
  | semicolon => "SEMICOLON"

/-- The words that are read as names and become keywords only where a keyword is possible. -/
def softWord? : Terminal → Option String
  | start => some "start"
  | call => some "call"
  | loc => some "loc"
  | vec => some "vec"
  | _ => none

def isSoft (t : Terminal) : Bool :=
  t.softWord?.isSome

end Terminal

/-! ### Texts -/

def splitWord : List Char → List Char → Option (List Char × List Char)
  | [], rest => some ([], rest)
  | c :: word, d :: rest =>
      if c = d then (splitWord word rest).map fun parts => (c :: parts.1, parts.2) else none
  | _ :: _, [] => none

def isNameStart (c : Char) : Bool :=
  c.isAlpha || c == '_'

def isNameChar (c : Char) : Bool :=
  c.isAlphanum || c == '_'

/-- The words that are never names. -/
def reservedWords : List String :=
  ["event", "player", "entity", "plot", "proc", "func", "var", "if", "else", "select"]

/-- A name: a letter or underscore, then letters, digits and underscores, and no reserved word. -/
def splitName : List Char → Option (List Char × List Char)
  | [] => none
  | c :: rest =>
      if isNameStart c then
        let word := c :: rest.takeWhile isNameChar
        if String.ofList word ∈ reservedWords then none else some (word, rest.dropWhile isNameChar)
      else none

/-- The prefixes that give a variable its scope, with the colon. -/
def scopeWords : List String :=
  ["local", "game", "save"]

/-- A scope word and one colon, not two. -/
def splitScope (cs : List Char) : Option (List Char × List Char) :=
  scopeWords.findSome? fun word =>
    match splitWord (word.toList ++ [':']) cs with
    | some (_, ':' :: _) => none
    | parts => parts

def splitSign : List Char → List Char × List Char
  | '+' :: rest => (['+'], rest)
  | '-' :: rest => (['-'], rest)
  | rest => ([], rest)

def splitDigits (cs : List Char) : Option (List Char × List Char) :=
  if (cs.takeWhile Char.isDigit).isEmpty then none
  else some (cs.takeWhile Char.isDigit, cs.dropWhile Char.isDigit)

/-- An exponent: its letter, an optional sign and digits. -/
def splitExponent : List Char → Option (List Char × List Char)
  | c :: rest =>
      if c = 'e' ∨ c = 'E' then
        let (sign, rest) := splitSign rest
        (splitDigits rest).map fun parts => (c :: sign ++ parts.1, parts.2)
      else none
  | [] => none

def splitExponentOpt (cs : List Char) : List Char × List Char :=
  (splitExponent cs).getD ([], cs)

/-- A number without its sign: digits with an exponent, digits around a point, or digits. -/
def splitUnsigned (cs : List Char) : Option (List Char × List Char) :=
  match splitDigits cs with
  | some (whole, '.' :: rest) =>
      let fraction := rest.takeWhile Char.isDigit
      let (exponent, rest) := splitExponentOpt (rest.dropWhile Char.isDigit)
      some (whole ++ '.' :: fraction ++ exponent, rest)
  | some (whole, rest) =>
      let (exponent, rest) := splitExponentOpt rest
      some (whole ++ exponent, rest)
  | none =>
      match cs with
      | '.' :: rest =>
          (splitDigits rest).map fun parts =>
            let (exponent, rest) := splitExponentOpt parts.2
            ('.' :: parts.1 ++ exponent, rest)
      | _ => none

def splitNumber (cs : List Char) : Option (List Char × List Char) :=
  let (sign, rest) := splitSign cs
  (splitUnsigned rest).map fun parts => (sign ++ parts.1, parts.2)

/-- The rest of a quoted text up to its closing quote: a backslash protects the next character, and
the text stays on its line. -/
def splitQuoted : List Char → Option (List Char × List Char)
  | '"' :: rest => some (['"'], rest)
  | '\\' :: c :: rest =>
      if c = '\n' then none
      else (splitQuoted rest).map fun parts => ('\\' :: c :: parts.1, parts.2)
  | c :: rest =>
      if c = '\n' ∨ c = '\\' then none
      else (splitQuoted rest).map fun parts => (c :: parts.1, parts.2)
  | [] => none

def splitText : List Char → Option (List Char × List Char)
  | '"' :: rest => (splitQuoted rest).map fun parts => ('"' :: parts.1, parts.2)
  | _ => none

def splitOperator : List Char → Option (List Char × List Char)
  | c :: rest => if c ∈ ['=', '+', '-', '*', '/', '%'] then some ([c], rest) else none
  | [] => none

/-- Split off what a terminal reads at the beginning of a text. -/
def Terminal.split? : Terminal → List Char → Option (List Char × List Char)
  | scopePrefix => splitScope
  | number => splitNumber
  | ident => splitName
  | text => splitText
  | operator => splitOperator
  | entity => splitWord "entity".toList
  | player => splitWord "player".toList
  | select => splitWord "select".toList
  | event => splitWord "event".toList
  | start => splitWord "start".toList
  | call => splitWord "call".toList
  | else_ => splitWord "else".toList
  | func => splitWord "func".toList
  | plot => splitWord "plot".toList
  | proc => splitWord "proc".toList
  | loc => splitWord "loc".toList
  | var => splitWord "var".toList
  | vec => splitWord "vec".toList
  | arrow => splitWord "->".toList
  | doubleColon => splitWord "::".toList
  | if_ => splitWord "if".toList
  | comma => splitWord ",".toList
  | dot => splitWord ".".toList
  | leftBrace => splitWord "\x7b".toList
  | leftParen => splitWord "(".toList
  | not => splitWord "!".toList
  | rightBrace => splitWord "\x7d".toList
  | rightParen => splitWord ")".toList
  | semicolon => splitWord ";".toList

end Blockscript.Script
