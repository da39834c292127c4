/-!
# Shortest decimal text of a binary64 number

A finite positive number is `m * 2 ^ q`. The reals that round to it form an interval whose ends
belong to it exactly when `m` is even. Of the decimals `d * 10 ^ k` in that interval the shortest
text takes one with the fewest digits, and of those the nearest; an exact tie goes up. The text is
always positional: no exponent, no point for a whole number.
-/
namespace Confinement.Decimal

/-- How many decimal digits `n` has; zero has one. -/
def width (n : Nat) : Nat := (Nat.toDigits 10 n).length

/-- A non-negative rational number as numerator and denominator. -/
structure Ratio where
  num : Nat
  den : Nat

namespace Ratio

/-- The number `n * 2 ^ q`. -/
def ofBinary (n : Nat) (q : Int) : Ratio :=
  if 0 ≤ q then ⟨n * Nat.pow 2 q.toNat, 1⟩ else ⟨n, Nat.pow 2 (-q).toNat⟩

/-- The number `n * 10 ^ k`. -/
def ofDecimal (n : Nat) (k : Int) : Ratio :=
  if 0 ≤ k then ⟨n * Nat.pow 10 k.toNat, 1⟩ else ⟨n, Nat.pow 10 (-k).toNat⟩

def le (a b : Ratio) : Bool := a.num * b.den ≤ b.num * a.den

def lt (a b : Ratio) : Bool := a.num * b.den < b.num * a.den

/-- Whether `b`, which lies between `a` and `c`, is nearer to `a`: `2 b < a + c`. -/
def nearerLow (a b c : Ratio) : Bool :=
  2 * b.num * a.den * c.den < a.num * b.den * c.den + c.num * a.den * b.den

/-- The largest `e` with `10 ^ e ≤ r`, for a positive `r`. -/
def leadingExponent (r : Ratio) : Int :=
  if r.den ≤ r.num then (width (r.num / r.den) : Int) - 1
  else -(width ((r.den + r.num - 1) / r.num - 1) : Int)

/-- The largest whole multiple of `10 ^ k` that is at most `r`, as a multiple. -/
def floorAt (r : Ratio) (k : Int) : Nat :=
  if 0 ≤ k then r.num / (r.den * Nat.pow 10 k.toNat) else r.num * Nat.pow 10 (-k).toNat / r.den

end Ratio

/-- The reals that round to one number. -/
structure Interval where
  low : Ratio
  high : Ratio
  closed : Bool

namespace Interval

def contains (i : Interval) (r : Ratio) : Bool :=
  if i.closed then i.low.le r && r.le i.high else i.low.lt r && r.lt i.high

/-- The interval of `m * 2 ^ q`. Below a power of two the numbers lie twice as dense, except at
the bottom of the range. -/
def around (m : Nat) (q : Int) : Interval :=
  let below := if m == Nat.pow 2 52 && q > -1074 then 1 else 2
  ⟨Ratio.ofBinary (4 * m - below) (q - 2), Ratio.ofBinary (4 * m + 2) (q - 2), m % 2 == 0⟩

end Interval

/-- The best decimal with `10 ^ k` as unit, if one of the two neighbours lies in the interval. -/
def onGrid (value : Ratio) (i : Interval) (k : Int) : Option Nat :=
  let low := value.floorAt k
  let high := low + 1
  match i.contains (Ratio.ofDecimal low k), i.contains (Ratio.ofDecimal high k) with
  | true, true =>
    if (Ratio.ofDecimal low k).nearerLow value (Ratio.ofDecimal high k) then some low else some high
  | true, false => some low
  | false, true => some high
  | false, false => none

/-- Tries grids of `digits`, `digits + 1`, … digits, `tries` of them. -/
def search (value : Ratio) (i : Interval) (lead : Int) : Nat → Nat → Option (Nat × Int)
  | 0, _ => none
  | tries + 1, digits =>
    let k := lead - digits + 1
    match onGrid value i k with
    | some d => some (d, k)
    | none => search value i lead tries (digits + 1)

/-- Digits and exponent of the shortest decimal of `m * 2 ^ q`, for a positive `m`. Seventeen
digits always suffice. -/
def shortest (m : Nat) (q : Int) : Nat × Int :=
  let value := Ratio.ofBinary m q
  (search value (Interval.around m q) value.leadingExponent 17 1).getD (m, q)

/-- The decimal `d * 10 ^ k` without exponent; zeros at the end of a fraction are not written. -/
def positional (d : Nat) (k : Int) : List Char :=
  let digits := Nat.toDigits 10 d
  if 0 ≤ k then digits ++ List.replicate k.toNat '0'
  else
    let places := (-k).toNat
    let padded := List.replicate (places + 1 - digits.length) '0' ++ digits
    let whole := padded.take (padded.length - places)
    let fraction := (padded.drop (padded.length - places)).reverse.dropWhile (· == '0')
    if fraction.isEmpty then whole else whole ++ '.' :: fraction.reverse

/-- Written form of a float: `NaN`, `inf`, `-inf`, or a sign for a negative number and negative
zero, then the shortest positional decimal. -/
def floatText (x : Float) : String :=
  let bits := x.toBits.toNat
  let sign := if bits / Nat.pow 2 63 == 1 then "-" else ""
  let exponent : Nat := bits / Nat.pow 2 52 % Nat.pow 2 11
  let fraction : Nat := bits % Nat.pow 2 52
  if exponent == 2047 then
    if fraction == 0 then sign ++ "inf" else "NaN"
  else if exponent == 0 && fraction == 0 then sign ++ "0"
  else
    let (m, q) : Nat × Int :=
      if exponent == 0 then (fraction, -1074)
      else (Nat.pow 2 52 + fraction, (exponent : Int) - 1075)
    let (d, k) := shortest m q
    sign ++ String.ofList (positional d k)

/-- The float nearest to `mantissa * 10 ^ exponent`. Outside the range of magnitudes that a float
can have, the answer is known without the power. -/
def toFloat (mantissa : Nat) (exponent : Int) : Float :=
  let magnitude := (width mantissa : Int) + exponent
  if mantissa == 0 then 0.0
  else if magnitude > 400 then 1.0 / 0.0
  else if magnitude < -400 then 0.0
  else if exponent < 0 then Float.ofScientific mantissa true (-exponent).toNat
  else Float.ofScientific mantissa false exponent.toNat

/-- The value of a run of decimal digits. -/
def digitsValue (ds : List Char) : Nat := ds.foldl (fun n c => 10 * n + (c.toNat - '0'.toNat)) 0

end Confinement.Decimal
