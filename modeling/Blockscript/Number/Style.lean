import Blockscript.Number.Shortest

/-!
The written form of a double: shortest digits, positional for moderate exponents and scientific
otherwise.
-/

namespace Blockscript

/-- The decisions of a written form. -/
structure NumberStyle where
  /-- The least decimal exponent that is written positionally. -/
  least : Int
  /-- The first decimal exponent that is no longer written positionally. -/
  limit : Int
  /-- The least number of digits of a written exponent. -/
  exponentDigits : Nat
  infinity : String
  notANumber : String

/-- Numbers as values show them. -/
def NumberStyle.plain : NumberStyle :=
  { least := -4, limit := 16, exponentDigits := 2, infinity := "inf", notANumber := "nan" }

/-- Numbers in JSON texts. -/
def NumberStyle.json : NumberStyle :=
  { NumberStyle.plain with infinity := "Infinity", notANumber := "NaN" }

namespace NumberStyle

/-- Digits around a point, with at least one digit on each side.  The point stands after `point`
digits. -/
def positional (digits : List Char) (point : Int) : List Char :=
  match point with
  | .ofNat 0 => '0' :: '.' :: digits
  | .negSucc n => '0' :: '.' :: List.replicate (n + 1) '0' ++ digits
  | .ofNat n =>
      let whole := digits.take n ++ List.replicate (n - digits.length) '0'
      let fraction := digits.drop n
      whole ++ '.' :: (if fraction.isEmpty then ['0'] else fraction)

/-- One digit, the others after a point, and the exponent with its sign. -/
def scientific (style : NumberStyle) (digits : List Char) (exponent : Int) : List Char :=
  let mantissa :=
    match digits with
    | [] => []
    | [d] => [d]
    | d :: rest => d :: '.' :: rest
  let size := Nat.toDigits 10 exponent.natAbs
  let size := List.replicate (style.exponentDigits - size.length) '0' ++ size
  mantissa ++ 'e' :: (if exponent < 0 then '-' else '+') :: size

def writeDigits (style : NumberStyle) (digits : Nat) (exponent : Int) : List Char :=
  let written := Nat.toDigits 10 digits
  let point := (written.length : Int) + exponent
  if style.least ≤ point - 1 ∧ point - 1 < style.limit then positional written point
  else style.scientific written (point - 1)

def write (style : NumberStyle) : Double → String
  | .nan => style.notANumber
  | .infinite false => style.infinity
  | .infinite true => "-" ++ style.infinity
  | .finite negative significand exponent =>
      let body :=
        if significand = 0 then ['0', '.', '0']
        else
          let found := Shortest.digits significand exponent
          style.writeDigits found.1 found.2
      String.ofList (if negative then '-' :: body else body)

end NumberStyle

end Blockscript
