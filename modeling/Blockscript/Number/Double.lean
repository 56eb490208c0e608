/-!
Binary floating-point numbers with 53 significant bits, held exactly, and the reading of decimal
notation: the nearest number, an even significand on a tie, infinity beyond the range.
-/

namespace Blockscript

/-- A number in double precision.  A finite one is `significand · 2 ^ exponent` with its sign, where
`significand < 2 ^ 53` and either `2 ^ 52 ≤ significand` or `exponent = -1074`. -/
inductive Double where
  | finite (negative : Bool) (significand : Nat) (exponent : Int)
  | infinite (negative : Bool)
  | nan
deriving DecidableEq, Repr

/-- A decimal numeral: `digits · 10 ^ exponent` with its sign. -/
structure Decimal where
  negative : Bool := false
  digits : Nat
  exponent : Int
deriving DecidableEq, Repr

namespace Double

/-- The exponent of the smallest positive number. -/
def leastExponent : Int := -1074

/-- The exponent of the largest numbers. -/
def greatestExponent : Int := 971

def zero (negative : Bool) : Double :=
  .finite negative 0 leastExponent

/-- The numerator and denominator of `numerator / denominator / 2 ^ exponent`. -/
def scaled (numerator denominator : Nat) (exponent : Int) : Nat × Nat :=
  match exponent with
  | .ofNat e => (numerator, denominator * Nat.pow 2 e)
  | .negSucc e => (numerator * Nat.pow 2 (e + 1), denominator)

/-- The quotient rounded to the nearest integer, to the even one on a tie. -/
def roundedQuotient (numerator denominator : Nat) : Nat :=
  let quotient := numerator / denominator
  let twice := 2 * (numerator % denominator)
  if denominator < twice ∨ (twice = denominator ∧ quotient % 2 = 1) then quotient + 1 else quotient

/-- The exponent of the greatest power of two that is at most the quotient. -/
def floorLog2 (numerator denominator : Nat) : Int :=
  let guess : Int := (numerator.log2 : Int) - (denominator.log2 : Int)
  let parts := scaled numerator denominator guess
  if parts.2 ≤ parts.1 then guess else guess - 1

/-- The double nearest to a positive quotient. -/
def ofQuotient (negative : Bool) (numerator denominator : Nat) : Double :=
  let exponent := max (floorLog2 numerator denominator - 52) leastExponent
  let parts := scaled numerator denominator exponent
  let significand := roundedQuotient parts.1 parts.2
  let result :=
    if significand = Nat.pow 2 53 then (Nat.pow 2 52, exponent + 1) else (significand, exponent)
  if greatestExponent < result.2 then .infinite negative
  else .finite negative result.1 result.2

/-- The double nearest to a decimal numeral.  A numeral of more than 310 digits before the point is
beyond the range, and one below `10 ^ -330` is nearest to zero. -/
def ofDecimal (d : Decimal) : Double :=
  let magnitude := ((Nat.toDigits 10 d.digits).length : Int) + d.exponent
  if d.digits = 0 ∨ magnitude < -330 then zero d.negative
  else if 310 < magnitude then .infinite d.negative
  else
    match d.exponent with
    | .ofNat e => ofQuotient d.negative (d.digits * Nat.pow 10 e) 1
    | .negSucc e => ofQuotient d.negative d.digits (Nat.pow 10 (e + 1))

/-- Equality as numbers: the two zeros are equal, and NaN is equal to nothing. -/
def same : Double → Double → Bool
  | .finite n s e, .finite n' s' e' => (s == 0 && s' == 0) || (n == n' && s == s' && e == e')
  | .infinite n, .infinite n' => n == n'
  | _, _ => false

instance : BEq Double := ⟨same⟩

def isIntegral : Double → Bool
  | .finite _ significand (.negSucc e) => significand % Nat.pow 2 (e + 1) == 0
  | .finite _ _ (.ofNat _) => true
  | _ => false

/-- The integer part; zero for a number that is not finite. -/
def truncated : Double → Int
  | .finite negative significand exponent =>
      let parts := scaled significand 1 (-exponent)
      let size : Int := (parts.1 / parts.2 : Nat)
      if negative then -size else size
  | _ => 0

end Double

namespace Decimal

/-- An optional sign; true for a minus. -/
def readSign : List Char → Bool × List Char
  | '-' :: rest => (true, rest)
  | '+' :: rest => (false, rest)
  | rest => (false, rest)

/-- The exponent of a numeral: nothing, or `e`, an optional sign and digits. -/
def readExponent? : List Char → Option Int
  | [] => some 0
  | c :: rest =>
      if c = 'e' ∨ c = 'E' then
        let (negative, digits) := readSign rest
        if digits.isEmpty ∨ ¬ digits.all Char.isDigit then none
        else
          let size : Int := Nat.ofDigitChars 10 digits 0
          some (if negative then -size else size)
      else none

/-- Read a numeral: a sign, digits with or without a point, and an exponent. -/
def read? (cs : List Char) : Option Decimal :=
  let (negative, cs) := readSign cs
  let whole := cs.takeWhile Char.isDigit
  let rest := cs.dropWhile Char.isDigit
  let (fraction, rest) :=
    match rest with
    | '.' :: rest => (rest.takeWhile Char.isDigit, rest.dropWhile Char.isDigit)
    | rest => ([], rest)
  if whole.isEmpty ∧ fraction.isEmpty then none
  else
    (readExponent? rest).map fun exponent =>
      { negative
        digits := Nat.ofDigitChars 10 (whole ++ fraction) 0
        exponent := exponent - fraction.length }

end Decimal

/-- Read a number: a decimal numeral, `inf`, `-inf` or `nan`. -/
def Double.read? (s : String) : Option Double :=
  match s with
  | "inf" => some (.infinite false)
  | "-inf" => some (.infinite true)
  | "nan" => some .nan
  | s => (Decimal.read? s.toList).map Double.ofDecimal

end Blockscript
