import Blockscript.Number.Double

/-!
The shortest decimal numeral that reads back as a given double, and of the shortest ones the nearest.
-/

namespace Blockscript.Shortest

/-- A positive number between two bounds, all over one denominator.  `closed` says that the bounds
themselves belong to the interval. -/
structure Interval where
  low : Nat
  value : Nat
  high : Nat
  denominator : Nat
  closed : Bool
deriving Repr

/-- The numbers that round to `significand · 2 ^ exponent`.  They reach half a step up and down; the
step below the least significand is half as long.  The bounds round to the even neighbour. -/
def Interval.ofDouble (significand : Nat) (exponent : Int) : Interval :=
  let narrow := significand = Nat.pow 2 52 ∧ Double.leastExponent < exponent
  let low := if narrow then 4 * significand - 1 else 4 * significand - 2
  let value := 4 * significand
  let high := 4 * significand + 2
  let closed := significand % 2 == 0
  match exponent - 2 with
  | .ofNat e =>
      { low := low * Nat.pow 2 e, value := value * Nat.pow 2 e, high := high * Nat.pow 2 e
        denominator := 1, closed }
  | .negSucc e => { low, value, high, denominator := Nat.pow 2 (e + 1), closed }

/-- Whether `digits · 10 ^ exponent` lies in the interval. -/
def Interval.contains (i : Interval) (digits : Nat) (exponent : Int) : Bool :=
  let (point, scale) :=
    match exponent with
    | .ofNat e => (digits * Nat.pow 10 e * i.denominator, 1)
    | .negSucc e => (digits * i.denominator, Nat.pow 10 (e + 1))
  if i.closed then i.low * scale ≤ point && point ≤ i.high * scale
  else i.low * scale < point && point < i.high * scale

/-- Count how often a number below one has to be multiplied by ten to reach one. -/
def leadingZeros : Nat → Nat → Nat → Nat
  | 0, _, _ => 0
  | rounds + 1, value, denominator =>
      if denominator ≤ value then 0 else leadingZeros rounds (value * 10) denominator + 1

/-- The number of digits before the point; for a number below one, less the zeros after the point. -/
def Interval.magnitude (i : Interval) : Int :=
  if i.denominator ≤ i.value then ((Nat.toDigits 10 (i.value / i.denominator)).length : Int)
  else 1 - (leadingZeros 400 i.value i.denominator : Int)

/-- The value divided by `10 ^ exponent`, as the integer part and whether the rest is below, at or
above one half. -/
def Interval.grid (i : Interval) (exponent : Int) : Nat × Ordering :=
  let (numerator, denominator) :=
    match exponent with
    | .ofNat e => (i.value, i.denominator * Nat.pow 10 e)
    | .negSucc e => (i.value * Nat.pow 10 (e + 1), i.denominator)
  (numerator / denominator, compare (2 * (numerator % denominator)) denominator)

/-- The numeral on the grid of `10 ^ exponent` that lies in the interval, the nearer of two, and of
two equally near the even one. -/
def Interval.onGrid? (i : Interval) (exponent : Int) : Option Nat :=
  let (below, rest) := i.grid exponent
  let above := below + 1
  match i.contains below exponent, i.contains above exponent with
  | true, true =>
      match rest with
      | .lt => some below
      | .gt => some above
      | .eq => some (if below % 2 = 0 then below else above)
  | true, false => some below
  | false, true => some above
  | false, false => none

/-- Try the grids of one digit, two digits and so on. -/
def Interval.search (i : Interval) : Nat → Int → Nat × Int
  | 0, exponent => ((i.grid exponent).1, exponent)
  | rounds + 1, exponent =>
      match i.onGrid? exponent with
      | some digits => (digits, exponent)
      | none => i.search rounds (exponent - 1)

def stripZeros : Nat → Nat → Int → Nat × Int
  | 0, digits, exponent => (digits, exponent)
  | rounds + 1, digits, exponent =>
      if digits % 10 = 0 ∧ digits ≠ 0 then stripZeros rounds (digits / 10) (exponent + 1)
      else (digits, exponent)

/-- The shortest digits and their exponent for `significand · 2 ^ exponent`.  Seventeen digits always
tell two doubles apart. -/
def digits (significand : Nat) (exponent : Int) : Nat × Int :=
  let i := Interval.ofDouble significand exponent
  let found := i.search 17 (i.magnitude - 1)
  stripZeros 20 found.1 found.2

end Blockscript.Shortest
