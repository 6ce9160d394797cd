import LuaFront.Number.Binary64

/-!
# LuaFront.Number.Shortest

The shortest decimal that reads back as a given floating point number, and how it is laid out.
-/

namespace LuaFront
namespace Binary64

/-- A positive decimal: its digits, with a point before the first, times a power of ten. -/
structure Decimal where
  digits : List Char
  exponent : Int
deriving DecidableEq, Repr

/-- The positive reals that round to a number. All three bounds share a denominator. -/
structure Interval where
  low : Nat
  value : Nat
  high : Nat
  den : Nat
  /-- Whether the two ends belong to the interval. -/
  closed : Bool

/-- The reals that round to a positive finite number reach half way to its neighbours. Below a
power of two the neighbour is nearer, and a tie goes to an even significand. -/
def interval (x : Binary64) : Interval :=
  let m := x.significand
  let below := if x.fraction = 0 ∧ 1 < x.field then 1 else 2
  let (unit, den) := scaleTwo 1 1 (x.exponent - 2)
  { low := (4 * m - below) * unit
    value := 4 * m * unit
    high := (4 * m + 2) * unit
    den := den
    closed := m % 2 == 0 }

/-- The first of `steps` exponents from `k` on for which `num / den < 10 ^ k`. -/
def climb (num den : Nat) : Nat → Int → Int
  | 0, k => k
  | steps + 1, k =>
    let (n, d) := scaleTen num den (-k)
    if n < d then k else climb num den steps (k + 1)

/-- The least `k` with `num / den < 10 ^ k`. The search starts below it, at a guess made from the
highest power of two. -/
def ceilLogTen (num den : Nat) : Int :=
  climb num den 6 (((Nat.log2 num : Int) - Nat.log2 den) * 30103 / 100000 - 1)

namespace Interval

def holds (i : Interval) (num den : Nat) : Bool :=
  if i.closed then i.low * den ≤ num * i.den && num * i.den ≤ i.high * den
  else i.low * den < num * i.den && num * i.den < i.high * den

/-- The multiple of `10 ^ e` next to the value, below or above it, that lies in the interval. If
both do, it is the nearer one, and the upper one if they are equally near. -/
def onGrid? (i : Interval) (e : Int) : Option Nat :=
  let (n, d) := scaleTen i.value i.den (-e)
  let lower := n / d
  let upper := lower + 1
  let holds (count : Nat) : Bool := let (a, b) := scaleTen count 1 e; i.holds a b
  match holds lower, holds upper with
  | true, true => some (if 2 * n < (lower + upper) * d then lower else upper)
  | true, false => some lower
  | false, true => some upper
  | false, false => none

/-- Searches grids of `count`, `count + 1`, ... digits, where the value is below `10 ^ k`. -/
def search (i : Interval) (k : Int) : Nat → Nat → Decimal
  | 0, count =>
    let (n, d) := scaleTen i.value i.den (count - k)
    ⟨Nat.toDigits 10 (n / d), k⟩
  | steps + 1, count =>
    match i.onGrid? (k - count) with
    | some d =>
      let digits := Nat.toDigits 10 d
      ⟨(digits.reverse.dropWhile (· == '0')).reverse, k + digits.length - count⟩
    | none => search i k steps (count + 1)

end Interval

/-- The decimal with the fewest digits that rounds to a positive finite number, and of those the
one nearest to it. Seventeen digits always suffice. -/
def shortest (x : Binary64) : Decimal :=
  let i := x.interval
  i.search (ceilLogTen i.value i.den) 17 1

/-- Digits with a point. Exponents from `-3` to `16` are written out, always with a digit on both
sides of the point; others follow the letter `e`, where a single digit has no point. -/
def Decimal.render (d : Decimal) : String :=
  let zeros (n : Int) : List Char := List.replicate n.toNat '0'
  let count : Int := d.digits.length
  if d.exponent < -3 ∨ 16 < d.exponent then
    let mantissa := match d.digits with
      | first :: second :: rest => first :: '.' :: second :: rest
      | digits => digits
    String.ofList mantissa ++ "e" ++ toString (d.exponent - 1)
  else if d.exponent ≤ 0 then
    String.ofList ('0' :: '.' :: zeros (-d.exponent) ++ d.digits)
  else if count ≤ d.exponent then
    String.ofList (d.digits ++ zeros (d.exponent - count) ++ ['.', '0'])
  else
    String.ofList (d.digits.take d.exponent.toNat ++ '.' :: d.digits.drop d.exponent.toNat)

/-- A number as it is shown: the shortest decimal that reads back. -/
def render (x : Binary64) : String :=
  if x.isNaN then "NaN"
  else
    (if x.isNegative then "-" else "") ++
      (if x.isInfinite then "inf" else if x.isZero then "0.0" else x.shortest.render)

end Binary64
end LuaFront
