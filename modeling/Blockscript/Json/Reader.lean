import Blockscript.Json.Basic

/-!
Reading JSON texts.  Besides the standard, `NaN`, `Infinity` and `-Infinity` are numbers; a repeated
field keeps its first position and takes its last value.
-/

namespace Blockscript.Json

def skipBlanks (cs : List Char) : List Char :=
  cs.dropWhile fun c => c == ' ' || c == '\t' || c == '\n' || c == '\r'

/-- Split off a given text. -/
def expect : List Char → List Char → Option (List Char)
  | [], rest => some rest
  | c :: word, d :: rest => if c = d then expect word rest else none
  | _ :: _, [] => none

def hexValue? (c : Char) : Option Nat :=
  if '0' ≤ c ∧ c ≤ '9' then some (c.toNat - '0'.toNat)
  else if 'a' ≤ c ∧ c ≤ 'f' then some (c.toNat - 'a'.toNat + 10)
  else if 'A' ≤ c ∧ c ≤ 'F' then some (c.toNat - 'A'.toNat + 10)
  else none

/-- The unit written by four hexadecimal digits. -/
def hexUnit? (a b c d : Char) : Option UInt16 := do
  let a ← hexValue? a
  let b ← hexValue? b
  let c ← hexValue? c
  let d ← hexValue? d
  return (((a * 16 + b) * 16 + c) * 16 + d).toUInt16

/-- The unit that a backslash and a character stand for. -/
def shortEscape? (c : Char) : Option UInt16 :=
  match c with
  | '"' => some 0x22
  | '\\' => some 0x5C
  | '/' => some 0x2F
  | 'b' => some 0x08
  | 'f' => some 0x0C
  | 'n' => some 0x0A
  | 'r' => some 0x0D
  | 't' => some 0x09
  | _ => none

/-- Read a text up to its closing quote.  Control characters must be escaped. -/
def readText? : List Char → Option (List UInt16 × List Char)
  | '"' :: rest => some ([], rest)
  | '\\' :: 'u' :: a :: b :: c :: d :: rest => do
      let u ← hexUnit? a b c d
      let (us, rest) ← readText? rest
      return (u :: us, rest)
  | '\\' :: c :: rest => do
      let u ← shortEscape? c
      let (us, rest) ← readText? rest
      return (u :: us, rest)
  | c :: rest =>
      if c.toNat < 0x20 ∨ c = '\\' then none
      else do
        let (us, rest) ← readText? rest
        return (Text.unitsOfChar c ++ us, rest)
  | [] => none

/-- The fraction of a number: a point and digits. -/
def splitFraction : List Char → List Char × List Char
  | '.' :: rest =>
      let digits := rest.takeWhile Char.isDigit
      if digits.isEmpty then ([], '.' :: rest)
      else ('.' :: digits, rest.dropWhile Char.isDigit)
  | rest => ([], rest)

/-- The exponent of a number: its letter, an optional sign and digits. -/
def splitExponent (cs : List Char) : List Char × List Char :=
  match cs with
  | c :: rest =>
      if c = 'e' ∨ c = 'E' then
        let (sign, rest) :=
          match rest with
          | '+' :: rest => (['+'], rest)
          | '-' :: rest => (['-'], rest)
          | rest => ([], rest)
        let digits := rest.takeWhile Char.isDigit
        if digits.isEmpty then ([], cs)
        else (c :: sign ++ digits, rest.dropWhile Char.isDigit)
      else ([], cs)
  | [] => ([], [])

/-- The digits of an integer: one zero, or digits that do not begin with zero. -/
def splitWhole : List Char → Option (List Char × List Char)
  | '0' :: rest => some (['0'], rest)
  | cs =>
      let digits := cs.takeWhile Char.isDigit
      if digits.isEmpty then none else some (digits, cs.dropWhile Char.isDigit)

/-- Read a number.  One with a fraction or an exponent is a floating-point number. -/
def readNumber? (cs : List Char) : Option (Json × List Char) := do
  let (negative, rest) :=
    match cs with
    | '-' :: rest => (true, rest)
    | rest => (false, rest)
  let (whole, rest) ← splitWhole rest
  let (fraction, rest) := splitFraction rest
  let (exponent, rest) := splitExponent rest
  if fraction.isEmpty ∧ exponent.isEmpty then
    let size : Int := Nat.ofDigitChars 10 whole 0
    return (.int (if negative then -size else size), rest)
  else
    let decimal ← Decimal.read? (whole ++ fraction ++ exponent)
    return (.number (Double.ofDecimal { decimal with negative }), rest)

/-- Set a field: in its place if it is there, else at the end. -/
def setField (name : List UInt16) (value : Json) :
    List (List UInt16 × Json) → List (List UInt16 × Json)
  | [] => [(name, value)]
  | field :: fields =>
      if field.1 = name then (name, value) :: fields else field :: setField name value fields

def mergeFields (written : List (List UInt16 × Json)) : List (List UInt16 × Json) :=
  written.foldl (fun fields field => setField field.1 field.2 fields) []

def readWord? (cs : List Char) : Option (Json × List Char) :=
  ([("null", Json.null), ("true", .bool true), ("false", .bool false), ("NaN", .number .nan),
    ("Infinity", .number (.infinite false)), ("-Infinity", .number (.infinite true))]).findSome?
    fun (word, value) => (expect word.toList cs).map fun rest => (value, rest)

mutual

/-- Read a value.  The number bounds the nesting and the items together. -/
def readValue? : Nat → List Char → Option (Json × List Char)
  | 0, _ => none
  | rounds + 1, cs =>
      match cs with
      | '"' :: rest => (readText? rest).map fun parts => (.text parts.1, parts.2)
      | '[' :: rest =>
          match skipBlanks rest with
          | ']' :: rest => some (.array [], rest)
          | rest => (readItems? rounds rest).map fun parts => (.array parts.1, parts.2)
      | '{' :: rest =>
          match skipBlanks rest with
          | '}' :: rest => some (.object [], rest)
          | rest =>
              (readFields? rounds rest).map fun parts => (.object (mergeFields parts.1), parts.2)
      | cs => (readWord? cs).or (readNumber? cs)

/-- Read the items of an array and its closing bracket. -/
def readItems? : Nat → List Char → Option (List Json × List Char)
  | 0, _ => none
  | rounds + 1, cs => do
      let (item, rest) ← readValue? rounds cs
      match skipBlanks rest with
      | ']' :: rest => return ([item], rest)
      | ',' :: rest =>
          let (items, rest) ← readItems? rounds (skipBlanks rest)
          return (item :: items, rest)
      | _ => none

/-- Read the fields of an object and its closing brace. -/
def readFields? : Nat → List Char → Option (List (List UInt16 × Json) × List Char)
  | 0, _ => none
  | rounds + 1, cs => do
      let rest ← expect ['"'] cs
      let (name, rest) ← readText? rest
      let rest ← expect [':'] (skipBlanks rest)
      let (value, rest) ← readValue? rounds (skipBlanks rest)
      match skipBlanks rest with
      | '}' :: rest => return ([(name, value)], rest)
      | ',' :: rest =>
          let (fields, rest) ← readFields? rounds (skipBlanks rest)
          return ((name, value) :: fields, rest)
      | _ => none

end

/-- Read a JSON text: one value with blanks around it.  Every value and item takes a character, and
each costs at most two rounds. -/
def read? (s : String) : Option Json :=
  let cs := s.toList
  match readValue? (2 * cs.length + 2) (skipBlanks cs) with
  | some (json, rest) => if (skipBlanks rest).isEmpty then some json else none
  | none => none

end Blockscript.Json
