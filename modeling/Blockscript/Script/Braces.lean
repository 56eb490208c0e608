import Blockscript.Text.Place

/-!
The innermost brace that a text leaves open, found without parsing: braces inside quoted texts and
comments do not count.
-/

namespace Blockscript.Script

/-- The rest of a quoted text, up to its closing quote or the end.  It may span lines, and a
backslash protects the next character. -/
def throughQuote : List Char → List Char × List Char
  | '"' :: rest => (['"'], rest)
  | '\\' :: c :: rest =>
      let parts := throughQuote rest
      ('\\' :: c :: parts.1, parts.2)
  | c :: rest =>
      let parts := throughQuote rest
      (c :: parts.1, parts.2)
  | [] => ([], [])

/-- The rest of a line, with the line feed. -/
def throughLine : List Char → List Char × List Char
  | [] => ([], [])
  | c :: rest =>
      if c = '\n' then ([c], rest)
      else
        let parts := throughLine rest
        (c :: parts.1, parts.2)

/-- The places of the braces left open by a text, the innermost first, over those in `pending`.
Every round reads at least one character. -/
def openBracesWithin : Nat → Place → List Place → List Char → List Place
  | 0, _, pending, _ => pending
  | _ + 1, _, pending, [] => pending
  | rounds + 1, place, pending, c :: rest =>
      if c = '"' then
        let (text, rest) := throughQuote rest
        openBracesWithin rounds (place.after (c :: text)) pending rest
      else if c = '/' ∧ rest.head? = some '/' then
        let (text, rest) := throughLine rest
        openBracesWithin rounds (place.after (c :: text)) pending rest
      else if c = '{' then openBracesWithin rounds (place.next c) (place :: pending) rest
      else if c = '}' then openBracesWithin rounds (place.next c) (pending.drop 1) rest
      else openBracesWithin rounds (place.next c) pending rest

/-- The places of the braces left open by a text, the innermost first. -/
def openBraces (source : List Char) : List Place :=
  openBracesWithin source.length {} [] source

/-- The innermost brace left open by a text. -/
def unclosedBrace? (source : String) : Option Place :=
  (openBraces source.toList).head?

end Blockscript.Script
